import EncoderSetup.CommandLine.Run

/-!
# The program

Reads the environment, the arguments and the files that the command names, and prints what
`CommandLine.program` answers.
-/

open EncoderSetup CommandLine

/-- The reason that the system gives for a file that does not open. -/
def openingFault : IO.Error → String
  | .noFileOrDirectory _ code reason
  | .permissionDenied _ code reason
  | .inappropriateType _ code reason
  | .invalidArgument _ code reason => reason ++ " (os error " ++ toString code ++ ")"
  | e => toString e

def contentAt (path : String) : IO FileContent := do
  match ← (IO.FS.Handle.mk path .read).toBaseIO with
  | .error e => return .unopened (openingFault e)
  | .ok handle =>
      match ← handle.readBinToEnd.toBaseIO with
      | .error _ => return .unreadable
      | .ok bytes => return .bytes bytes.toList

/-- The exit code of a process that ends itself by a signal. -/
def abortCode : UInt32 := 134

def main (args : List String) : IO UInt32 := do
  let flags := DebugFlags.ofSetting (← IO.getEnv "HWVENC_DEBUG")
  let found ← (namedPaths args).mapM fun path => do return (path, ← contentAt path)
  let files (path : String) : FileContent := (found.lookup path).getD .unreadable
  let trace := (program files args).run flags
  for e in shownEvents (isVerbose args) trace.events do
    IO.eprintln e.line
  match trace.result with
  | none => return abortCode
  | some ending =>
      IO.eprint ending.diagnostics
      IO.print ending.output
      return ending.code.toUInt32
