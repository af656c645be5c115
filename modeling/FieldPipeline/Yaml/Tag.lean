import FieldPipeline.Record
import FieldPipeline.Text.Basic
import FieldPipeline.Yaml.Placed

/-!
# Tags

A tag names the kind of a node. It is written in full, or as a handle and a rest, where the handle
stands for the beginning of the tag. A tag is a row of bytes, each given here as the character with
its number, and a zero byte ends it early.
-/

namespace FieldPipeline.Yaml

/-- A tag as it is written; a full tag has an empty handle. -/
structure Tag where
  handle : String
  rest : String
deriving DecidableEq

/-- What handles stand for; the first entry of a handle counts. -/
abbrev TagHandles := Record String String

namespace Tag

/-- The tag of an exclamation mark alone. No handle applies to it. -/
def bare : Tag :=
  ⟨"", "!"⟩

def commonHandles : TagHandles :=
  [("!", "!"), ("!!", "tag:yaml.org,2002:")]

def null : String :=
  "tag:yaml.org,2002:null"

def whole? (handles : TagHandles) (t : Tag) : Option String :=
  if t.handle = "" then some t.rest else (Record.get? handles t.handle).map (· ++ t.rest)

end Tag

def isTagChar (c : Char) : Bool :=
  isWordChar c || ";/?:@&=+$.!~*'()".toList.contains c

/-- The bytes of a tag or of its beginning. Escaped bytes must make up whole characters; `missing`
counts those that the current one still needs. A full tag may hold some flow characters. -/
def scanTagText (full : Bool) : Nat → List Placed → Option (List Char × List Placed)
  | 0, [] => some ([], [])
  | _ + 1, [] => none
  | missing, p :: rest =>
    if p.char = '%' then
      match rest with
      | high :: low :: rest => do
        let byte := 16 * (← Text.hexValue? high.char) + (← Text.hexValue? low.char)
        let missing ←
          if missing ≠ 0 then (if byte / 64 = 2 then some (missing - 1) else none)
          else if byte < 0x80 then some 0
          else if byte / 32 = 6 then some 1
          else if byte / 16 = 14 then some 2
          else if byte / 8 = 30 then some 3
          else none
        let (chars, rest) ← scanTagText full missing rest
        return (Char.ofNat byte :: chars, rest)
      | _ => none
    else if missing ≠ 0 then none
    else if isTagChar p.char || (full && (p.char = ',' || p.char = '[' || p.char = ']')) then do
      let (chars, rest) ← scanTagText full 0 rest
      return (p.char :: chars, rest)
    else some ([], p :: rest)

def textToZero (bytes : List Char) : String :=
  String.ofList (bytes.takeWhile (· ≠ '\x00'))

/-- A tag after its first exclamation mark: in angle brackets, after a handle that ends with a
second mark, or after the handle that is the first mark. -/
def scanTag (inFlow : Bool) (ps : List Placed) : Option (Tag × List Placed) := do
  let (tag, rest) ←
    if headChar ps = '<' then do
      let (chars, rest) ← scanTagText true 0 (ps.drop 1)
      if chars = [] ∨ headChar rest ≠ '>' then none
      else some (Tag.mk "" (textToZero chars), rest.drop 1)
    else do
      let (word, rest) := spanChars isWordChar ps
      if headChar rest = '!' then
        let (chars, rest) ← scanTagText false 0 (rest.drop 1)
        if chars = [] then none
        else some (Tag.mk (String.ofList ('!' :: word ++ ['!'])) (textToZero chars), rest)
      else
        let (chars, rest) ← scanTagText false 0 rest
        let text := textToZero (word ++ chars)
        if text = "" then some (Tag.bare, rest) else some (Tag.mk "!" text, rest)
  if isGap (headChar rest) || (inFlow && headChar rest = ',') then some (tag, rest) else none

/-- A declaration of a handle: the handle, what it stands for, and the rest of the line. -/
def scanTagHandle (ps : List Placed) : Option (String × String × List Placed) :=
  if headChar ps ≠ '!' then none
  else
    let (word, rest) := spanChars isWordChar (ps.drop 1)
    let closed := headChar rest = '!'
    if word ≠ [] ∧ !closed then none
    else
      let rest := if closed then rest.drop 1 else rest
      if !isBlank (headChar rest) then none
      else do
        let (chars, rest) ← scanTagText true 0 (spanChars isBlank rest).2
        if chars = [] ∨ !isGap (headChar rest) then none
        else
          let name := '!' :: word ++ if closed then ['!'] else []
          return (String.ofList name, textToZero chars, rest)

end FieldPipeline.Yaml
