import NetworkCa.Path.Location

namespace NetworkCa

inductive LinkStyle where
  | legacy
  | shortest
  deriving Repr, DecidableEq

namespace Path

/-- The index of the first difference of two lists, and 0 where there is none within the
    shorter one. -/
def divergence (a b : List String) : Nat :=
  ((a.zip b).findIdx? fun (x, y) => x ≠ y).getD 0

def commonLength (a b : List String) : Nat :=
  ((a.zip b).takeWhile fun (x, y) => x = y).length

def legacyRelative (a b : List String) : String :=
  let d := divergence a b
  String.join (List.replicate (a.length - d) "../") ++ "/".intercalate (b.drop d)

def shortestRelative (a b : List String) : String :=
  let common := commonLength a b
  match List.replicate (a.length - common) ".." ++ b.drop common with
  | [] => "."
  | parts => "/".intercalate parts

def relative (style : LinkStyle) (cwd : Location) (start goal : Path) : String :=
  let a := (start.absolute cwd).segments
  let b := (goal.absolute cwd).segments
  match style with
  | .legacy => legacyRelative a b
  | .shortest => shortestRelative a b

def underRelative (rel name : String) : String :=
  if rel = "." then "./" ++ name
  else if rel = "" || rel.toList.getLast? = some '/' then "./" ++ rel ++ name
  else "./" ++ rel ++ "/" ++ name

def linkTarget (style : LinkStyle) (cwd : Location) (leafDir caDir : Path) (certName : String) :
    String :=
  underRelative (relative style cwd leafDir caDir) certName

end Path

end NetworkCa
