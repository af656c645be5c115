import FieldPipeline.Json.Number
import FieldPipeline.Json.Quoted

/-!
# Unwanted values

A value of a wrong type is an error, but a word, a number or a string is read to its end first, so
that it can be named, and may turn out not to be JSON at all. Lists and objects are refused at their
first character. Whatever happens, an unwanted value never becomes a result.
-/

namespace FieldPipeline.Json

/-- An unwanted value that is not over yet. -/
inductive Unwanted where
  | word (rest : List Char) (found : Found)
  | number (n : Number)
  | text (q : Quoted)
deriving DecidableEq

namespace Unwanted

def start (wanted : Wanted) (c : Char) : Except ReadError Unwanted :=
  if c = 'n' then .ok (.word ['u', 'l', 'l'] .null)
  else if c = 't' then .ok (.word ['r', 'u', 'e'] (.boolean true))
  else if c = 'f' then .ok (.word ['a', 'l', 's', 'e'] (.boolean false))
  else if c = '"' then .ok (.text .opened)
  else if c = '[' then .error (.wrongType .sequence wanted)
  else if c = '{' then .error (.wrongType .map wanted)
  else
    match Number.start? c with
    | some n => .ok (.number n)
    | none => .error .expectedValue

def numberError (wanted : Wanted) (n : Number) : ReadError :=
  match n.found with
  | .ok found => .wrongType found wanted
  | .error e => e

def step (wanted : Wanted) : Unwanted → Char → Except ReadError Unwanted
  | .word [] found, _ => .error (.wrongType found wanted)
  | .word [e] found, c =>
    .error (if c = e then .wrongType found wanted else .expectedWord)
  | .word (e :: rest) found, c => if c = e then .ok (.word rest found) else .error .expectedWord
  | .number n, c =>
    match n.step c with
    | .ok (some n) => .ok (.number n)
    | .ok none => .error (numberError wanted n)
    | .error e => .error e
  | .text q, c =>
    match q.step true c with
    | .ok (.more q) => .ok (.text q)
    | .ok (.done s) => .error (.wrongType (.text s) wanted)
    | .error e => .error e

def finish (wanted : Wanted) : Unwanted → ReadError
  | .word _ _ => .endInValue
  | .number n => if n.complete then numberError wanted n else .endInValue
  | .text _ => .endInText

end Unwanted

end FieldPipeline.Json
