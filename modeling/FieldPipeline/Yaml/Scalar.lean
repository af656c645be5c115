import FieldPipeline.Text.Basic
import FieldPipeline.Yaml.Placed

/-!
# Scalars

Three ways to write a text: in quotes, plain, and as an indented block. In the first two, a line end
inside the text is read as a blank, and each further line end as a line feed; blanks around line
ends are dropped. Texts are collected backwards.
-/

namespace FieldPipeline.Yaml

/-- What stands between two words of a scalar: blanks inside a line, or a first line end, which may
have been taken away, and further ones. -/
inductive Gap where
  | none
  | blanks (chars : List Char)
  | broken (first : Option Char) (more : List Char)
deriving DecidableEq

namespace Gap

def addBlank : Gap → Char → Gap
  | .none, c => .blanks [c]
  | .blanks chars, c => .blanks (c :: chars)
  | .broken first more, _ => .broken first more

def addBreak : Gap → Char → Gap
  | .broken first more, c => .broken first (c :: more)
  | _, c => .broken (some c) []

/-- What a gap is read as, backwards. -/
def chars : Gap → List Char
  | .none => []
  | .blanks chars => chars
  | .broken (some '\n') [] => [' ']
  | .broken (some '\n') more => more
  | .broken first more => more ++ first.toList

def isBroken : Gap → Bool
  | .broken _ _ => true
  | _ => false

end Gap

def escapeDigits? (c : Char) : Option Nat :=
  if c = 'x' then some 2
  else if c = 'u' then some 4
  else if c = 'U' then some 8
  else none

def escapeChar? (c : Char) : Option Char :=
  match c with
  | '0' => some '\x00'
  | 'a' => some '\x07'
  | 'b' => some '\x08'
  | 't' | '\t' => some '\t'
  | 'n' => some '\n'
  | 'v' => some '\x0b'
  | 'f' => some '\x0c'
  | 'r' => some '\r'
  | 'e' => some '\x1b'
  | ' ' => some ' '
  | '"' => some '"'
  | '/' => some '/'
  | '\\' => some '\\'
  | 'N' => some '\u0085'
  | '_' => some '\u00a0'
  | 'L' => some '\u2028'
  | 'P' => some '\u2029'
  | _ => none

/-- The character with a code, unless the code is a surrogate or too large. -/
def charOfCode? (n : Nat) : Option Char :=
  if n < 0xD800 ∨ (0xDFFF < n ∧ n < 0x110000) then some (Char.ofNat n) else none

inductive DoublePhase where
  | text
  | escape
  | code (digits value : Nat)
deriving DecidableEq

def scanDouble (text : List Char) (gap : Gap) (phase : DoublePhase) :
    List Placed → Option (String × List Placed)
  | [] => none
  | p :: rest =>
    match phase with
    | .escape =>
      if isBreak p.char then scanDouble text (.broken .none []) .text rest
      else
        match escapeDigits? p.char, escapeChar? p.char with
        | some n, _ => scanDouble text .none (.code n 0) rest
        | none, some c => scanDouble (c :: text) .none .text rest
        | none, none => none
    | .code digits value =>
      match Text.hexValue? p.char with
      | none => none
      | some d =>
        if digits ≤ 1 then
          match charOfCode? (16 * value + d) with
          | some c => scanDouble (c :: text) .none .text rest
          | none => none
        else scanDouble text .none (.code (digits - 1) (16 * value + d)) rest
    | .text =>
      if isBlank p.char then scanDouble text (gap.addBlank p.char) .text rest
      else if isBreak p.char then scanDouble text (gap.addBreak p.char) .text rest
      else if isEnd p.char || atDocumentMark (p :: rest) then none
      else if p.char = '"' then some (String.ofList (gap.chars ++ text).reverse, rest)
      else if p.char = '\\' then scanDouble (gap.chars ++ text) .none .escape rest
      else scanDouble (p.char :: (gap.chars ++ text)) .none .text rest

/-- The rest of a text in single quotes, and what follows it; `closing` after a quote that ends the
text unless a second one follows. -/
def scanSingle (text : List Char) (gap : Gap) (closing : Bool) :
    List Placed → Option (String × List Placed)
  | [] => none
  | p :: rest =>
    if closing then
      if p.char = '\'' then scanSingle ('\'' :: text) .none false rest
      else some (String.ofList text.reverse, p :: rest)
    else if isBlank p.char then scanSingle text (gap.addBlank p.char) false rest
    else if isBreak p.char then scanSingle text (gap.addBreak p.char) false rest
    else if isEnd p.char || atDocumentMark (p :: rest) then none
    else if p.char = '\'' then scanSingle (gap.chars ++ text) .none true rest
    else scanSingle (p.char :: (gap.chars ++ text)) .none false rest

def isFlowChar (c : Char) : Bool :=
  c = ',' || c = '[' || c = ']' || c = '{' || c = '}'

/-- The rest of a plain text, whether a line ended behind it, and what follows it. Outside of flow
collections the text must stay at or behind the margin. -/
def scanPlain (inFlow : Bool) (margin : Nat) (text : List Char) (gap : Gap) :
    List Placed → Option (String × Bool × List Placed)
  | [] => some (String.ofList text.reverse, gap.isBroken, [])
  | p :: rest =>
    let stop := some (String.ofList text.reverse, gap.isBroken, p :: rest)
    if isBlank p.char then
      if gap.isBroken ∧ p.char = '\t' ∧ p.column < margin then none
      else scanPlain inFlow margin text (gap.addBlank p.char) rest
    else if isBreak p.char then scanPlain inFlow margin text (gap.addBreak p.char) rest
    else if isEnd p.char || atDocumentMark (p :: rest) then stop
    else if gap ≠ .none ∧ (p.char = '#' ∨ (!inFlow ∧ p.column < margin)) then stop
    else if inFlow ∧ p.char = ':' ∧ (isFlowChar (headChar rest) ∨ headChar rest = '?') then none
    else if (p.char = ':' ∧ isGap (headChar rest)) ∨ (inFlow ∧ isFlowChar p.char) then stop
    else scanPlain inFlow margin (p.char :: (gap.chars ++ text)) .none rest

inductive Chomp where
  | clip
  | strip
  | keep
deriving DecidableEq

def scanBlockHeader (ps : List Placed) : Option (Option Nat × Chomp × List Placed) := do
  let chomp? (c : Char) : Option Chomp :=
    if c = '+' then some .keep else if c = '-' then some .strip else none
  let indent? (c : Char) : Option Nat :=
    if c.isDigit then some (c.toNat - '0'.toNat) else none
  let c := headChar ps
  let d := headChar (ps.drop 1)
  let (indent, chomp, used) :=
    match chomp? c, indent? c with
    | some k, _ => (indent? d, k, if (indent? d).isSome then 2 else 1)
    | none, some n => (some n, (chomp? d).getD .clip, if (chomp? d).isSome then 2 else 1)
    | none, none => (none, .clip, 0)
  if indent = some 0 then none
  else return (indent, chomp, ← dropToLineEnd (ps.drop used))

/-- The indentation of a block that does not give one: that of its first line with a character, but
no less than the leading blank lines have, nor than the margin. Also the leading line ends. -/
def findIndent (margin widest : Nat) (breaks : List Char) :
    List Placed → Option (Nat × List Char × List Placed)
  | [] => some (max (max widest margin) 1, breaks, [])
  | p :: rest =>
    if p.char = ' ' then findIndent margin widest breaks rest
    else if p.char = '\t' then none
    else if isBreak p.char then
      findIndent margin (max widest p.column) (p.char :: breaks) rest
    else some (max (max (max widest p.column) margin) 1, breaks, p :: rest)

/-- A block as far as it has been read, everything backwards: its text, the end of the last line,
the ends of the empty lines after it, and whether the last line starts with a blank. -/
structure Block where
  text : List Char := []
  lineEnd : List Char := []
  emptyLines : List Char := []
  startsBlank : Bool := false

/-- The start of a line with a character: folding joins it to the line before. -/
def Block.startLine (literal : Bool) (b : Block) (c : Char) : Block :=
  let joined :=
    if !literal ∧ b.lineEnd = ['\n'] ∧ !b.startsBlank ∧ !isBlank c then
      if b.emptyLines.isEmpty then [' '] else []
    else b.lineEnd
  { text := c :: (b.emptyLines ++ (joined ++ b.text)), startsBlank := isBlank c }

/-- The lines of a block with a given indentation; `inLine` inside a line. -/
def scanBlockLines (literal : Bool) (indent : Nat) (b : Block) (inLine : Bool) :
    List Placed → Option (Block × List Placed)
  | [] => some (b, [])
  | p :: rest =>
    if inLine then
      if isBreak p.char then
        scanBlockLines literal indent { b with lineEnd := [p.char] } false rest
      else if isEnd p.char then some (b, p :: rest)
      else scanBlockLines literal indent { b with text := p.char :: b.text } true rest
    else if p.column < indent ∧ p.char = ' ' then scanBlockLines literal indent b false rest
    else if p.column < indent ∧ p.char = '\t' then none
    else if isBreak p.char then
      scanBlockLines literal indent { b with emptyLines := p.char :: b.emptyLines } false rest
    else if p.column = indent ∧ !isEnd p.char then
      scanBlockLines literal indent (b.startLine literal p.char) true rest
    else some (b, p :: rest)

def Block.finish (chomp : Chomp) (b : Block) : String :=
  let tail :=
    match chomp with
    | .strip => []
    | .clip => b.lineEnd
    | .keep => b.emptyLines ++ b.lineEnd
  String.ofList (tail ++ b.text).reverse

def scanBlock (literal : Bool) (margin : Nat) (ps : List Placed) : Option (String × List Placed) := do
  let (indent, chomp, ps) ← scanBlockHeader ps
  let (indent, breaks, ps) ←
    match indent with
    | some n => some (margin - 1 + n, [], ps)
    | none => findIndent margin 0 [] ps
  let (block, ps) ← scanBlockLines literal indent { emptyLines := breaks } false ps
  return (block.finish chomp, ps)

end FieldPipeline.Yaml
