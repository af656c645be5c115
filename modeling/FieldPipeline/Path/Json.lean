import FieldPipeline.Json.Text
import FieldPipeline.Json.TextList

/-!
# Paths as JSON

A path is written as the array of its segments. Reading takes any array of strings and checks the
segments as soon as the array is complete.
-/

namespace FieldPipeline.FieldPath

open Json

def toJson (p : FieldPath) : Json :=
  .array (p.segments.map .string)

inductive Reader where
  | reading (l : TextList)
  | complete (p : FieldPath)
deriving DecidableEq

namespace Reader

def step : Reader → Char → Except ReadError Reader
  | .reading l, c => do
    match ← l.step c with
    | .more l => return .reading l
    | .done segments =>
      match FieldPath.ofSegments segments with
      | .ok p => return .complete p
      | .error fault => throw (.badPath fault)
  | .complete p, c => if isBlank c then .ok (.complete p) else .error .trailingCharacters

def finish : Reader → Except ReadError FieldPath
  | .reading l => .error l.finish
  | .complete p => .ok p

end Reader

def ofJsonText (text : String) : Except ReadError FieldPath := do
  (← text.toList.foldlM Reader.step (.reading .start)).finish

end FieldPipeline.FieldPath
