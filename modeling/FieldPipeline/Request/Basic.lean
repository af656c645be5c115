import FieldPipeline.Files.Tree
import FieldPipeline.Json.ReadError
import FieldPipeline.Pipeline.Draft
import FieldPipeline.Reservation.History

/-!
# Requests

A request names fields, each inside the one before, and the key to work on if the caller has one. It
becomes the pipeline that goes down its fields. All fields are read before a key is allocated, so
that a request that fails takes no number from the supply.

Everything that can keep a request from becoming a pipeline is a failure, in the order in which it
is noticed: no request is named, its file cannot be read, its text is no request, or its fields are
not paths.
-/

namespace FieldPipeline

/-- What to compile: a key, if the caller has reserved one, and dotted paths, outermost first. -/
structure Request where
  sessionKey : Option String
  fields : List String
deriving DecidableEq

inductive Failure where
  | noRequestNamed
  | unreadable (fault : FileFault)
  | badJson (error : Json.ReadError)
  | badYaml
  | noFieldGiven
  | badField (text : String) (fault : FieldPath.Fault)
deriving DecidableEq

/-- The wording of a failure, as far as it is not left to the reader of a text. -/
def Failure.message : Failure → String
  | .noRequestNamed => "no request file: pass a path or set QUARRY_EXPLAIN_REQUEST"
  | .unreadable fault => "failed to read request: " ++ fault.message
  | .badJson error => "invalid JSON request: " ++ error.message
  | .badYaml => "invalid YAML request: "
  | .noFieldGiven => "request has no fields"
  | .badField text fault => "invalid field `" ++ text ++ "`: " ++ fault.message

/-- Whether the reader of a text goes on in words of its own: it says where in a JSON text it
stopped, and everything about a text that is no YAML request. -/
def Failure.isRefusal : Failure → Bool
  | .badJson _ | .badYaml => true
  | _ => false

/-- The message of a failure, with the `words` that the reader of a refused text adds. -/
def Failure.report (failure : Failure) (words : String) : String :=
  if failure.isRefusal then failure.message ++ words else failure.message

namespace Request

def readField (text : String) : Except Failure FieldPath :=
  match FieldPath.ofText text with
  | .ok p => .ok p
  | .error fault => .error (.badField text fault)

def paths (r : Request) : Except Failure (List FieldPath) :=
  if r.fields.isEmpty then .error .noFieldGiven else r.fields.mapM readField

/-- The reservation of a request: its own key, or the next standard one. -/
def reservation (r : Request) (supply : KeySupply) : Reservation × KeySupply :=
  match r.sessionKey with
  | some key => (Reservation.adopt key, supply)
  | none => Reservation.fresh supply

def toPipeline (r : Request) (supply : KeySupply) : Except Failure (Pipeline Stage) × KeySupply :=
  match r.paths with
  | .ok fields =>
    let (reservation, supply) := r.reservation supply
    (.ok (Pipeline.ofFields .plain reservation.key fields), supply)
  | .error failure => (.error failure, supply)

end Request

end FieldPipeline
