import LosslessSyntax.CommandLine.Run

/-! # The command line

The program reads the files that its arguments name, and writes what `CommandLine.run` answers.
-/

namespace LosslessSyntax

/-- What prevented a file from being read, as far as the system says. -/
def FileFault.ofSystem : IO.Error → FileFault
  | .noFileOrDirectory .. => .notFound
  | .permissionDenied .. => .permissionDenied
  | .inappropriateType _ 21 _ => .isDirectory
  | .inappropriateType .. => .notDirectory
  | .invalidArgument .. => .nameTooLong
  | fault => .other (toString fault)

/-- The contents of a file on disk. -/
def readFile (path : String) : IO (Except FileFault (List UInt8)) := do
  try return .ok (← IO.FS.readBinFile path).toList
  catch fault => return .error (.ofSystem fault)

/-- The contents of the files that a command line needs, found before it runs. -/
def readFiles (environment : String → Option String) (arguments : List String) : IO Reader := do
  let paths := ((Request.ofArguments? environment arguments).map Request.paths).getD []
  let files ← paths.mapM fun path => return (path, ← readFile path)
  return fun path => (files.lookup path).getD (.error .notFound)

end LosslessSyntax

open LosslessSyntax in
/-- Runs the command line on the files of the system. -/
def main (arguments : List String) : IO UInt32 := do
  let depth ← IO.getEnv "OCEAN_MAX_DEPTH"
  let environment (name : String) := if name == "OCEAN_MAX_DEPTH" then depth else none
  let read ← readFiles environment arguments
  let result := CommandLine.run (.terminal environment read) arguments
  (← IO.getStdout).putStr result.output
  (← IO.getStderr).putStr result.errors
  return result.code
