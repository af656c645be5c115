import FieldPipeline.Json.Unwanted

/-!
# Skipped values

The machine for a value that nobody asked for. Only its grammar is checked; numbers may be out of
range and surrogates without a partner. The open brackets are kept on a stack, innermost first, so
that nesting has no limit.
-/

namespace FieldPipeline.Json

inductive Bracket where
  | list
  | object
deriving DecidableEq

inductive SkipPhase where
  | value
  | word (rest : List Char)
  | number (n : Number)
  | text (q : Quoted)
  | opened
  | name
  | nameText (q : Quoted)
  | colon
  | after
deriving DecidableEq

/-- A value that is being skipped, inside open brackets, innermost first. -/
structure Skip where
  phase : SkipPhase
  brackets : List Bracket
deriving DecidableEq

/-- What a skipping machine does with one character: the value goes on behind it, ends with it, or
has ended before it. -/
inductive SkipProgress where
  | more (s : Skip)
  | done
  | before

namespace Skip

def start : Skip :=
  ⟨.value, []⟩

def close : List Bracket → SkipProgress
  | [] => .done
  | brackets => .more ⟨.after, brackets⟩

def startValue (brackets : List Bracket) (c : Char) : Except ReadError SkipProgress :=
  let go (phase : SkipPhase) : Except ReadError SkipProgress := .ok (.more ⟨phase, brackets⟩)
  if c = 'n' then go (.word ['u', 'l', 'l'])
  else if c = 't' then go (.word ['r', 'u', 'e'])
  else if c = 'f' then go (.word ['a', 'l', 's', 'e'])
  else if c = '"' then go (.text .opened)
  else if c = '[' then .ok (.more ⟨.opened, .list :: brackets⟩)
  else if c = '{' then .ok (.more ⟨.opened, .object :: brackets⟩)
  else
    match Number.start? c with
    | some n => go (.number n)
    | none => .error .expectedValue

def startName (brackets : List Bracket) (c : Char) : Except ReadError SkipProgress :=
  if c = '"' then .ok (.more ⟨.nameText .opened, brackets⟩) else .error .nameNotText

/-- Behind a value, inside the innermost open bracket. -/
def afterValue (bracket : Bracket) (outer : List Bracket) (c : Char) :
    Except ReadError SkipProgress :=
  if isBlank c then .ok (.more ⟨.after, bracket :: outer⟩)
  else
    match bracket with
    | .list =>
      if c = ',' then .ok (.more ⟨.value, .list :: outer⟩)
      else if c = ']' then .ok (close outer)
      else .error .expectedItemEnd
    | .object =>
      if c = ',' then .ok (.more ⟨.name, .object :: outer⟩)
      else if c = '}' then .ok (close outer)
      else .error .expectedMemberEnd

def step (s : Skip) (c : Char) : Except ReadError SkipProgress :=
  match s.phase with
  | .value => if isBlank c then .ok (.more s) else startValue s.brackets c
  | .word [] => .ok .before
  | .word [e] => if c = e then .ok (close s.brackets) else .error .expectedWord
  | .word (e :: rest) =>
    if c = e then .ok (.more ⟨.word rest, s.brackets⟩) else .error .expectedWord
  | .number n =>
    match n.step c with
    | .ok (some n) => .ok (.more ⟨.number n, s.brackets⟩)
    | .ok none =>
      match s.brackets with
      | [] => .ok .before
      | bracket :: outer => afterValue bracket outer c
    | .error e => .error e
  | .text q =>
    (q.step false c).map fun
      | .more q => .more ⟨.text q, s.brackets⟩
      | .done _ => close s.brackets
  | .opened =>
    if isBlank c then .ok (.more s)
    else
      match s.brackets with
      | .list :: outer => if c = ']' then .ok (close outer) else startValue s.brackets c
      | .object :: outer => if c = '}' then .ok (close outer) else startName s.brackets c
      | [] => .ok .before
  | .name => if isBlank c then .ok (.more s) else startName s.brackets c
  | .nameText q =>
    (q.step false c).map fun
      | .more q => .more ⟨.nameText q, s.brackets⟩
      | .done _ => .more ⟨.colon, s.brackets⟩
  | .colon =>
    if isBlank c then .ok (.more s)
    else if c = ':' then .ok (.more ⟨.value, s.brackets⟩)
    else .error .expectedColon
  | .after =>
    match s.brackets with
    | bracket :: outer => afterValue bracket outer c
    | [] => .ok .before

/-- The error of a text that ends here; nothing if the value is complete. -/
def finish (s : Skip) : Option ReadError :=
  let inBracket : Option ReadError :=
    match s.brackets with
    | .list :: _ => some .endInList
    | .object :: _ => some .endInObject
    | [] => none
  match s.phase with
  | .value | .word _ => some .endInValue
  | .number n => if n.complete then inBracket else some .badNumber
  | .text _ | .nameText _ => some .endInText
  | .name | .colon => some .endInObject
  | .opened | .after => inBracket

end Skip

end FieldPipeline.Json
