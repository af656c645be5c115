import FieldPipeline.Yaml.Scalar
import FieldPipeline.Yaml.Tag

/-!
# Tokens

A YAML text is cut into tokens. Block collections have no brackets in the text: where they open and
close follows from the columns. A key is often recognised only by the colon behind it, so the
scanner remembers where the last possible key began, one for each open flow collection, and puts the
token of the key there afterwards.
-/

namespace FieldPipeline.Yaml

inductive Token where
  | version (major minor : Nat)
  | handle (name beginning : String)
  | documentStart
  | documentEnd
  | blockSequence
  | blockMapping
  | blockEnd
  | flowSequence
  | flowSequenceEnd
  | flowMapping
  | flowMappingEnd
  | item
  | comma
  | key
  | value
  | alias (name : String)
  | anchor (name : String)
  | tag (tag : Tag)
  | scalar (text : String) (plain : Bool)
deriving DecidableEq

def scanVersionPart (ps : List Placed) : Option (Nat × List Placed) :=
  let (digits, rest) := spanChars Char.isDigit ps
  if digits = [] ∨ 9 < digits.length then none
  else some (digits.foldl (fun n c => 10 * n + (c.toNat - '0'.toNat)) 0, rest)

def scanDirective (ps : List Placed) : Option (Token × List Placed) := do
  let (name, rest) := spanChars isWordChar ps
  if !isGap (headChar rest) then none
  else
    let rest := (spanChars isBlank rest).2
    if name = "YAML".toList then
      let (major, rest) ← scanVersionPart rest
      if headChar rest ≠ '.' then none
      else
        let (minor, rest) ← scanVersionPart (rest.drop 1)
        return (.version major minor, ← dropToLineEnd rest)
    else if name = "TAG".toList then
      let (name, beginning, rest) ← scanTagHandle rest
      return (.handle name beginning, ← dropToLineEnd rest)
    else none

def scanName (ps : List Placed) : Option (String × List Placed) :=
  let (name, rest) := spanChars isWordChar ps
  let c := headChar rest
  if name ≠ [] ∧ (isGap c || "?:,]\x7d%@\x60".toList.contains c) then
    some (String.ofList name, rest)
  else none

/-- The beginning of a possible key. It is `required` if only a key can begin there, and `before`
counts the tokens before it. -/
structure KeyStart where
  required : Bool
  before : Nat
  place : Placed

/-- A scan under way: the columns of the open block collections, innermost first, the possible key
of the innermost flow collection or of the block and those further out, whether a key may begin, and
the tokens so far, the last one first. -/
structure Scanner where
  rest : List Placed
  columns : List Nat := []
  keyStart : Option KeyStart := none
  outer : List (Option KeyStart) := []
  keyAllowed : Bool := true
  tokens : List Token := []

namespace Scanner

def inFlow (s : Scanner) : Bool :=
  !s.outer.isEmpty

/-- The least column of text inside the innermost block collection. -/
def margin (s : Scanner) : Nat :=
  match s.columns with
  | [] => 0
  | column :: _ => column + 1

def emit (s : Scanner) (t : Token) : Scanner :=
  { s with tokens := t :: s.tokens }

def dropKey (s : Scanner) : Option Scanner :=
  match s.keyStart with
  | some ⟨true, _, _⟩ => none
  | _ => some { s with keyStart := none }

def noteKey (s : Scanner) (p : Placed) : Option Scanner :=
  if s.keyAllowed then do
    let s ← s.dropKey
    let required := !s.inFlow && s.margin = p.column + 1
    return { s with keyStart := some ⟨required, s.tokens.length, p⟩ }
  else some s

/-- A possible key is over after its line, and after 1024 bytes. -/
def expireKey (p : Placed) : Option KeyStart → Option (Option KeyStart)
  | none => some none
  | some k =>
    if k.place.line < p.line ∨ k.place.offset + 1024 < p.offset then
      if k.required then none else some none
    else some (some k)

/-- Opens a block collection unless one is open at the column. -/
def openBlock (s : Scanner) (column : Nat) (t : Token) : Scanner :=
  if !s.inFlow ∧ s.margin ≤ column then
    { s with columns := column :: s.columns, tokens := t :: s.tokens }
  else s

/-- Closes the block collections that are further in than a column; all of them for the end of a
document. -/
def closeBlocks (s : Scanner) (column : Option Nat) : Scanner :=
  if s.inFlow then s
  else
    let inner := s.columns.takeWhile fun c => column.all (· < c)
    { s with
      columns := s.columns.drop inner.length
      tokens := inner.map (fun _ => .blockEnd) ++ s.tokens }

def approach (s : Scanner) : Option Scanner := do
  let (keyAllowed, rest) := skipGap s.inFlow s.keyAllowed false s.rest
  match rest with
  | [] => none
  | p :: _ =>
    let keyStart ← expireKey p s.keyStart
    let outer ← s.outer.mapM (expireKey p)
    return closeBlocks { s with rest, keyAllowed, keyStart, outer } (some p.column)

/-- Takes a token that ends all blocks: a directive or a document mark. -/
def takeDocument (s : Scanner) (t : Token) (rest : List Placed) : Option Scanner := do
  let s ← (s.closeBlocks none).dropKey
  return emit { s with rest, keyAllowed := false } t

def openFlow (s : Scanner) (p : Placed) (t : Token) (rest : List Placed) : Option Scanner := do
  let s ← s.noteKey p
  return emit { s with rest, keyStart := none, outer := s.keyStart :: s.outer, keyAllowed := true } t

def closeFlow (s : Scanner) (t : Token) (rest : List Placed) : Option Scanner := do
  let s ← s.dropKey
  let s :=
    match s.outer with
    | keyStart :: outer => { s with keyStart, outer }
    | [] => s
  return emit { s with rest, keyAllowed := false } t

def takeComma (s : Scanner) (rest : List Placed) : Option Scanner := do
  let s ← s.dropKey
  return emit { s with rest, keyAllowed := true } .comma

def takeItem (s : Scanner) (p : Placed) (rest : List Placed) : Option Scanner := do
  if !s.inFlow ∧ !s.keyAllowed then none
  else
    let s ← (s.openBlock p.column .blockSequence).dropKey
    return emit { s with rest, keyAllowed := true } .item

def takeKey (s : Scanner) (p : Placed) (rest : List Placed) : Option Scanner := do
  if !s.inFlow ∧ !s.keyAllowed then none
  else
    let s ← (s.openBlock p.column .blockMapping).dropKey
    return emit { s with rest, keyAllowed := !s.inFlow } .key

/-- Takes the colon of a value. A possible key becomes a key where it began. -/
def takeValue (s : Scanner) (p : Placed) (rest : List Placed) : Option Scanner :=
  match s.keyStart with
  | some k =>
    let behind := s.tokens.take (s.tokens.length - k.before)
    let before := s.tokens.drop (s.tokens.length - k.before)
    let opened := openBlock { s with tokens := before } k.place.column .blockMapping
    some <| emit
      { opened with
        rest
        tokens := behind ++ .key :: opened.tokens
        keyStart := none
        keyAllowed := false } .value
  | none =>
    if s.inFlow then some (emit { s with rest, keyAllowed := false } .value)
    else if s.keyAllowed then
      some (emit { s.openBlock p.column .blockMapping with rest, keyAllowed := true } .value)
    else none

def takeText (s : Scanner) (p : Placed) (scanned : Option (Token × List Placed)) : Option Scanner := do
  let s ← s.noteKey p
  let (token, rest) ← scanned
  return emit { s with rest, keyAllowed := false } token

def takeBlock (s : Scanner) (literal : Bool) (rest : List Placed) : Option Scanner := do
  let s ← s.dropKey
  let (text, rest) ← scanBlock literal s.margin rest
  return emit { s with rest, keyAllowed := true } (.scalar text false)

def takePlain (s : Scanner) (p : Placed) : Option Scanner := do
  let s ← s.noteKey p
  let (text, broken, rest) ← scanPlain s.inFlow s.margin [] .none s.rest
  return emit { s with rest, keyAllowed := broken } (.scalar text true)

/-- Whether a plain scalar can begin with a character, given the one behind it. -/
def startsPlain (inFlow : Bool) (c next : Char) : Bool :=
  if c = '-' then !isBlank next
  else if c = '?' ∨ c = ':' then !inFlow && !isGap next
  else !isGap c && !isFlowChar c && !"#&*!|>'\"%@\x60".toList.contains c

def take (s : Scanner) : Option Scanner :=
  match s.rest with
  | [] => none
  | p :: rest =>
    let c := p.char
    let next := headChar rest
    if p.column = 0 ∧ c = '%' then do
      let (token, rest) ← scanDirective rest
      s.takeDocument token rest
    else if p.column = 0 ∧ startsMark '-' s.rest then s.takeDocument .documentStart (s.rest.drop 3)
    else if p.column = 0 ∧ startsMark '.' s.rest then s.takeDocument .documentEnd (s.rest.drop 3)
    else if c = '[' then s.openFlow p .flowSequence rest
    else if c = '{' then s.openFlow p .flowMapping rest
    else if c = ']' then s.closeFlow .flowSequenceEnd rest
    else if c = '}' then s.closeFlow .flowMappingEnd rest
    else if c = ',' then s.takeComma rest
    else if c = '-' ∧ isGap next then s.takeItem p rest
    else if c = '?' ∧ (s.inFlow || isGap next) then s.takeKey p rest
    else if c = ':' ∧ (s.inFlow || isGap next) then s.takeValue p rest
    else if c = '*' then s.takeText p ((scanName rest).map fun (name, rest) => (.alias name, rest))
    else if c = '&' then s.takeText p ((scanName rest).map fun (name, rest) => (.anchor name, rest))
    else if c = '!' then
      s.takeText p ((scanTag s.inFlow rest).map fun (tag, rest) => (.tag tag, rest))
    else if c = '|' ∧ !s.inFlow then s.takeBlock true rest
    else if c = '>' ∧ !s.inFlow then s.takeBlock false rest
    else if c = '\'' then
      s.takeText p ((scanSingle [] .none false rest).map fun (text, rest) => (.scalar text false, rest))
    else if c = '"' then
      s.takeText p ((scanDouble [] .none .text rest).map fun (text, rest) => (.scalar text false, rest))
    else if startsPlain s.inFlow c next then s.takePlain p
    else none

def run : Nat → Scanner → Option (List Token)
  | 0, _ => none
  | fuel + 1, s => do
    let s ← s.approach
    if isEnd (headChar s.rest) then
      let s ← (s.closeBlocks none).dropKey
      return s.tokens.reverse
    else run fuel (← s.take)

end Scanner

/-- The tokens of a text. Every token but the last takes a character, so the fuel suffices. -/
def tokens (text : List Char) : Option (List Token) :=
  if text.all isAllowed then Scanner.run (text.length + 1) { rest := place text 0 0 0 } else none

end FieldPipeline.Yaml
