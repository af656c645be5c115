import FieldPipeline.Program

/-!
# Command line

The arguments and the environment of the process go to the program, and its outcome to the process.
The readers of this library say no more of a text that they refuse than the message does.
-/

namespace FieldPipeline

def readSystemFile (path : String) : IO (Except FileFault ByteArray) := do
  if '\x00' ∈ path.toList then
    return .error .nulInName
  try
    return .ok (← IO.FS.readBinFile path)
  catch
    | .inappropriateType _ code _ =>
      return .error (if code = 21 then .isDirectory else .notDirectory)
    | .invalidArgument _ _ _ => return .error .nameTooLong
    | _ => return .error .notFound

end FieldPipeline

open FieldPipeline

def main (args : List String) : IO UInt32 := do
  let request ← IO.getEnv Invocation.requestVariable
  let compact ← IO.getEnv Invocation.compactVariable
  let env (name : String) : Option String :=
    if name = Invocation.requestVariable then request
    else if name = Invocation.compactVariable then compact
    else none
  let outcome := Program.outcome (← Program.result readSystemFile args env)
  IO.print outcome.stdout
  IO.eprint outcome.stderr
  return outcome.status
