import NetworkCa.Path.Location
import NetworkCa.Text.Utf8

namespace NetworkCa

inductive FileMode where
  | plain
  | ownerOnly
  | executable
  deriving Repr, DecidableEq

def FileMode.digits : FileMode → String
  | .plain => "644"
  | .ownerOnly => "600"
  | .executable => "755"

inductive Entry where
  | directory
  | file (mode : FileMode) (content : Bytes)
  | link (target : Path)
  deriving Repr, DecidableEq

namespace Entry

def isFile : Entry → Bool
  | .file .. => true
  | _ => false

def isDirectory : Entry → Bool
  | .directory => true
  | _ => false

def isLink : Entry → Bool
  | .link _ => true
  | _ => false

end Entry

/-- Files, directories and symbolic links, seen from a working directory. The root always exists
    and is a directory. -/
structure FileTree where
  entries : List (Location × Entry)
  cwd : Location
  deriving Repr

namespace FileTree

def get? (t : FileTree) (l : Location) : Option Entry :=
  match l with
  | [] => some .directory
  | _ => t.entries.lookup l

def erase (t : FileTree) (l : Location) : FileTree :=
  { t with entries := t.entries.filter (·.1 ≠ l) }

def put (t : FileTree) (l : Location) (e : Entry) : FileTree :=
  { t with entries := (l, e) :: (t.erase l).entries }

def empty (cwd : Location) : FileTree where
  entries := (List.range cwd.length).map fun n => (cwd.take (n + 1), .directory)
  cwd := cwd

theorem lookup_filter_ne {l m : Location} (entries : List (Location × Entry)) (h : m ≠ l) :
    (entries.filter (·.1 ≠ l)).lookup m = entries.lookup m := by
  induction entries with
  | nil => rfl
  | cons head rest ih =>
    obtain ⟨place, e⟩ := head
    by_cases hp : place = l
    · have : (m == place) = false := by simpa [hp] using h
      rw [List.filter_cons_of_neg (by simp [hp]), ih, List.lookup_cons, this]
    · rw [List.filter_cons_of_pos (by simp [hp]), List.lookup_cons, List.lookup_cons, ih]

theorem lookup_filter_self (entries : List (Location × Entry)) (l : Location) :
    (entries.filter (·.1 ≠ l)).lookup l = none := by
  induction entries with
  | nil => rfl
  | cons head rest ih =>
    obtain ⟨place, e⟩ := head
    by_cases hp : place = l
    · rw [List.filter_cons_of_neg (by simp [hp]), ih]
    · have : (l == place) = false := by simpa using fun h => hp h.symm
      rw [List.filter_cons_of_pos (by simp [hp]), List.lookup_cons, this]
      exact ih

@[simp] theorem get?_root (t : FileTree) : t.get? [] = some .directory := rfl

theorem get?_erase_self {t : FileTree} {l : Location} (h : l ≠ []) : (t.erase l).get? l = none := by
  cases l with
  | nil => exact absurd rfl h
  | cons => exact lookup_filter_self _ _

theorem get?_erase_of_ne {t : FileTree} {l m : Location} (h : m ≠ l) :
    (t.erase l).get? m = t.get? m := by
  cases m with
  | nil => rfl
  | cons => exact lookup_filter_ne _ h

theorem get?_put_self {t : FileTree} {l : Location} {e : Entry} (h : l ≠ []) :
    (t.put l e).get? l = some e := by
  cases l with
  | nil => exact absurd rfl h
  | cons => simp [put, get?]

theorem get?_put_of_ne {t : FileTree} {l m : Location} {e : Entry} (h : m ≠ l) :
    (t.put l e).get? m = t.get? m := by
  cases m with
  | nil => rfl
  | cons a as =>
    have : ((a :: as) == l) = false := by simpa using h
    simp only [put, get?, List.lookup_cons, this]
    exact lookup_filter_ne _ h

@[simp] theorem cwd_erase (t : FileTree) (l : Location) : (t.erase l).cwd = t.cwd := rfl

@[simp] theorem cwd_put (t : FileTree) (l : Location) (e : Entry) : (t.put l e).cwd = t.cwd := rfl

end FileTree

end NetworkCa
