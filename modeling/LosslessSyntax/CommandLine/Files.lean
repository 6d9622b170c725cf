/-! # Files

A command reads few files, by their paths, and each as a whole. Reading is a function from paths to
contents or to what prevents reading.
-/

namespace LosslessSyntax

/-- What prevents a file from being read. -/
inductive FileFault where
  | notFound
  | permissionDenied
  | notDirectory
  | isDirectory
  | nameTooLong
  /-- A file that should hold text does not. -/
  | notText
  /-- Anything else, as the system words it. -/
  | other (message : String)
deriving DecidableEq, Repr, Inhabited

/-- What is said about a file that cannot be read. -/
def FileFault.message : FileFault → String
  | .notFound => "No such file or directory (os error 2)"
  | .permissionDenied => "Permission denied (os error 13)"
  | .notDirectory => "Not a directory (os error 20)"
  | .isDirectory => "Is a directory (os error 21)"
  | .nameTooLong => "File name too long (os error 36)"
  | .notText => "stream did not contain valid UTF-8"
  | .other message => message

/-- How the contents of a file are found. -/
abbrev Reader := String → Except FileFault (List UInt8)

end LosslessSyntax
