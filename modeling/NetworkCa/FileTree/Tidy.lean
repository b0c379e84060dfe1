import NetworkCa.Failure

namespace NetworkCa.FileTree

def clearing (t : FileTree) (p : Path) : Except FileFailure (Bool × FileTree) :=
  match t.entryAt p with
  | .error .notFound => .ok (false, t)
  | .error failure => .error failure
  | .ok _ => (t.remove p).map fun t => (true, t)

def removeStale (t : FileTree) (p : Path) : Except IssuanceError (Bool × FileTree) :=
  match clearing t p with
  | .ok r => .ok r
  | .error failure => .error (.cleanup p failure)

def ensureDirectory (t : FileTree) (p : Path) : Except IssuanceError FileTree :=
  if (t.entryAt p).toBool then .ok t
  else match t.makeDirectory p with
    | .ok t => .ok t
    | .error failure => .error (.io p failure)

def appendFile (t : FileTree) (source goal : Path) : Except IssuanceError FileTree :=
  match t.read source with
  | .error failure => .error (.io source failure)
  | .ok content =>
    match t.append goal content with
    | .ok t => .ok t
    | .error failure => .error (.io goal failure)

end NetworkCa.FileTree
