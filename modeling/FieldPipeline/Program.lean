import FieldPipeline.Request.Json
import FieldPipeline.Request.Yaml

/-!
# The program

The request file is the first argument, or else what the environment names, and its name decides how
its text is read. The output is compact only if the environment says `1`.

One run finds out what it is asked to do, reads the one file that this names, and prints the
pipeline of its request. The first step that fails decides the outcome, and then nothing is printed
but its message.
-/

namespace FieldPipeline

structure Invocation where
  requestPath : String
  compact : Bool
deriving DecidableEq

namespace Invocation

def requestVariable : String :=
  "QUARRY_EXPLAIN_REQUEST"

def compactVariable : String :=
  "QUARRY_EXPLAIN_COMPACT"

def ofProcess (args : List String) (env : String → Option String) : Except Failure Invocation :=
  match args.head?.or (env requestVariable) with
  | some path => .ok ⟨path, env compactVariable = some "1"⟩
  | none => .error .noRequestNamed

end Invocation

namespace Request

def ofText (path text : String) : Except Failure Request :=
  if FileName.isYaml path then
    match ofYamlText text with
    | some r => .ok r
    | none => .error .badYaml
  else
    match ofJsonText text with
    | .ok r => .ok r
    | .error e => .error (.badJson e)

/-- The request in a file, given what reading the file has come to. -/
def ofFile (path : String) (content : Except FileFault ByteArray) : Except Failure Request :=
  match content with
  | .error fault => .error (.unreadable fault)
  | .ok bytes =>
    match String.fromUTF8? bytes with
    | some text => ofText path text
    | none => .error (.unreadable .notText)

end Request

structure Outcome where
  status : UInt32
  stdout : String
  stderr : String
deriving DecidableEq

namespace Program

def print (run : Invocation) (content : Except FileFault ByteArray) : Except Failure String := do
  let request ← Request.ofFile run.requestPath content
  let pipeline ← (request.toPipeline ⟨0⟩).1
  return pipeline.text run.compact

/-- What a run prints, or why it fails. Files are read by `read`. -/
def result {m : Type → Type} [Monad m] (read : String → m (Except FileFault ByteArray))
    (args : List String) (env : String → Option String) : m (Except Failure String) :=
  match Invocation.ofProcess args env with
  | .ok run => print run <$> read run.requestPath
  | .error failure => pure (.error failure)

/-- The outcome of a result. The reader of a refused text adds its `words` to the message. -/
def outcome (result : Except Failure String) (words : String := "") : Outcome :=
  match result with
  | .ok text => ⟨0, text ++ "\n", ""⟩
  | .error failure => ⟨1, "", "quarry-explain: " ++ failure.report words ++ "\n"⟩

end Program

end FieldPipeline
