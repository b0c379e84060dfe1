import NetworkCa.Path.Basic

namespace NetworkCa

inductive FileFailure where
  | notPermitted
  | notFound
  | notExecutable
  | accessDenied
  | exists
  | notDirectory
  | isDirectory
  | nameTooLong
  | notEmpty
  | linkLoop
  | nulInPath
  | notText
  | other (text : String)
  deriving Repr, DecidableEq

namespace FileFailure

def system (text : String) (code : Nat) : String := s!"{text} (os error {code})"

def message : FileFailure → String
  | .notPermitted => system "Operation not permitted" 1
  | .notFound => system "No such file or directory" 2
  | .notExecutable => system "Exec format error" 8
  | .accessDenied => system "Permission denied" 13
  | .exists => system "File exists" 17
  | .notDirectory => system "Not a directory" 20
  | .isDirectory => system "Is a directory" 21
  | .nameTooLong => system "File name too long" 36
  | .notEmpty => system "Directory not empty" 39
  | .linkLoop => system "Too many levels of symbolic links" 40
  | .nulInPath => "file name contained an unexpected NUL byte"
  | .notText => "stream did not contain valid UTF-8"
  | .other text => text

def ofCode? : Nat → Option FileFailure
  | 1 => some .notPermitted
  | 2 => some .notFound
  | 8 => some .notExecutable
  | 13 => some .accessDenied
  | 17 => some .exists
  | 20 => some .notDirectory
  | 21 => some .isDirectory
  | 36 => some .nameTooLong
  | 39 => some .notEmpty
  | 40 => some .linkLoop
  | _ => none

end FileFailure

end NetworkCa
