/-!
# Placed characters

YAML text is scanned character by character, and what a character means depends on its line and
column. Every end of a line is read as one line feed, except for the line and paragraph separators,
which are kept. A null character, which no document may hold, marks the end of the text.
-/

namespace FieldPipeline.Yaml

/-- A character with its place in the text; `offset` counts the bytes before it. -/
structure Placed where
  char : Char
  offset : Nat
  line : Nat
  column : Nat

def isAllowed (c : Char) : Bool :=
  c = '\t' ∨ c = '\n' ∨ c = '\r' ∨ (0x20 ≤ c.toNat ∧ c.toNat ≤ 0x7E) ∨ c = '\u0085' ∨
    (0xA0 ≤ c.toNat ∧ c.toNat ≤ 0xFFFD) ∨ 0x10000 ≤ c.toNat

def isBreak (c : Char) : Bool :=
  c = '\n' ∨ c = '\u2028' ∨ c = '\u2029'

def isBlank (c : Char) : Bool :=
  c = ' ' ∨ c = '\t'

def isEnd (c : Char) : Bool :=
  c = '\x00'

/-- Whether a character separates tokens: a blank, a line end, or the end of the text. -/
def isGap (c : Char) : Bool :=
  isBlank c || isBreak c || isEnd c

def isWordChar (c : Char) : Bool :=
  c.isAlphanum || c = '_' || c = '-'

def place : List Char → Nat → Nat → Nat → List Placed
  | [], offset, line, column => [⟨'\x00', offset, line, column⟩]
  | '\r' :: '\n' :: rest, offset, line, column =>
    ⟨'\n', offset, line, column⟩ :: place rest (offset + 2) (line + 1) 0
  | c :: rest, offset, line, column =>
    let read := if c = '\r' ∨ c = '\u0085' then '\n' else c
    ⟨read, offset, line, column⟩ ::
      if isBreak read then place rest (offset + c.utf8Size) (line + 1) 0
      else place rest (offset + c.utf8Size) line (column + 1)

def headChar : List Placed → Char
  | [] => '\x00'
  | p :: _ => p.char

def startsMark (c : Char) : List Placed → Bool
  | p :: q :: r :: rest => p.char = c && q.char = c && r.char = c && isGap (headChar rest)
  | _ => false

/-- Whether a line starts with a document mark, `---` or `...`. -/
def atDocumentMark : List Placed → Bool
  | [] => false
  | p :: rest => p.column = 0 && (startsMark '-' (p :: rest) || startsMark '.' (p :: rest))

def spanChars (test : Char → Bool) : List Placed → List Char × List Placed
  | [] => ([], [])
  | p :: rest =>
    if test p.char then
      let (chars, rest) := spanChars test rest
      (p.char :: chars, rest)
    else ([], p :: rest)

/-- Drops blanks and a comment; what follows must be the end of the line. -/
def dropToLineEnd (ps : List Placed) : Option (List Placed) :=
  let rest := (spanChars isBlank ps).2
  let rest :=
    if headChar rest = '#' then (spanChars (fun c => !isBreak c && !isEnd c) rest).2 else rest
  if isBreak (headChar rest) then some (rest.drop 1)
  else if isEnd (headChar rest) then some rest
  else none

/-- Drops what may stand between tokens: blanks, comments and line ends. Outside of flow collections
a tab does not count as a blank where a key may start, and a new line lets a key start. -/
def skipGap (inFlow : Bool) (keyAllowed comment : Bool) : List Placed → Bool × List Placed
  | [] => (keyAllowed, [])
  | p :: rest =>
    if isBreak p.char then skipGap inFlow (keyAllowed || !inFlow) false rest
    else if isEnd p.char then (keyAllowed, p :: rest)
    else if comment then skipGap inFlow keyAllowed true rest
    else if p.char = ' ' ∨ (p.char = '\t' ∧ (inFlow ∨ !keyAllowed)) ∨
        (p.char = '\ufeff' ∧ p.column = 0) then
      skipGap inFlow keyAllowed false rest
    else if p.char = '#' then skipGap inFlow keyAllowed true rest
    else (keyAllowed, p :: rest)

end FieldPipeline.Yaml
