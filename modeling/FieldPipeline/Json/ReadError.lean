import FieldPipeline.Decimal
import FieldPipeline.Path.Basic
import FieldPipeline.Text.Visible

/-!
# Reading errors

A typed reader goes through JSON text once and stops at the first character that cannot be right.
Each cause belongs to one of three categories: the text is not JSON, it is JSON of a wrong shape, or
it ends too early.
-/

namespace FieldPipeline.Json

/-- What kind of mistake an error is: the text is not JSON, its value has a wrong shape, or it ends
too early. -/
inductive Category where
  | grammar
  | data
  | truncated
deriving DecidableEq

/-- What stood where something else was wanted. A number is a `float` if it has a fraction or an
exponent or is too large for an integer. -/
inductive Found where
  | null
  | boolean (b : Bool)
  | integer (n : Int)
  | float (bits : UInt64)
  | text (s : String)
  | sequence
  | map
deriving DecidableEq

inductive Wanted where
  | request
  | sequence
  | text
deriving DecidableEq

inductive ReadError where
  | endInValue
  | endInList
  | endInText
  | endInObject
  | expectedValue
  | expectedWord
  | expectedColon
  | expectedItemEnd
  | expectedMemberEnd
  | trailingComma
  | nameNotText
  | trailingCharacters
  | badNumber
  | numberOutOfRange
  | controlCharacter
  | badEscape
  | unfinishedSurrogate
  | loneSurrogate
  | missing (name : String)
  | duplicate (name : String)
  | wrongType (found : Found) (wanted : Wanted)
  | listTooShort
  | badPath (fault : FieldPath.Fault)
deriving DecidableEq

namespace ReadError

def category : ReadError → Category
  | endInValue | endInList | endInText | endInObject => .truncated
  | missing _ | duplicate _ | wrongType _ _ | listTooShort | badPath _ => .data
  | _ => .grammar

end ReadError

/-- Numbers are written with the fewest digits that read back, positionally while the exponent of
the first digit is between -5 and 15, and otherwise with a signed exponent. -/
def floatNotation : Decimal.Notation :=
  ⟨-5, 15⟩

def Found.describe : Found → String
  | .null => "null"
  | .boolean b => "boolean `" ++ toString b ++ "`"
  | .integer n => "integer `" ++ toString n ++ "`"
  | .float bits => "floating point `" ++ floatNotation.text bits ++ "`"
  | .text s => "string " ++ Text.visible s
  | .sequence => "sequence"
  | .map => "map"

def Wanted.describe : Wanted → String
  | .request => "struct ExplainRequest"
  | .sequence => "a sequence"
  | .text => "a string"

/-- Takes a run of digits off the front, at least one and none beyond 64 bits. -/
def dropNumber? (backward : List Char) : Option (List Char) :=
  let digits := backward.takeWhile Char.isDigit
  let value := digits.foldr (fun c n => 10 * n + (c.toNat - '0'.toNat)) 0
  if digits ≠ [] ∧ value < 0x10000000000000000 then some (backward.dropWhile Char.isDigit)
  else none

def dropWord? : List Char → List Char → Option (List Char)
  | [], rest => some rest
  | c :: word, d :: rest => if c = d then dropWord? word rest else none
  | _ :: _, [] => none

/-- A message without a position at its end. A message that ends in the words of a position is taken
to end with its position, and loses it. -/
def withoutPosition (message : String) : String :=
  let stripped := do
    let rest ← dropNumber? message.toList.reverse
    let rest ← dropWord? " column ".toList.reverse rest
    let rest ← dropNumber? rest
    dropWord? " at line ".toList.reverse rest
  match stripped with
  | some rest => String.ofList rest.reverse
  | none => message

def ReadError.message : ReadError → String
  | .endInValue => "EOF while parsing a value"
  | .endInList => "EOF while parsing a list"
  | .endInText => "EOF while parsing a string"
  | .endInObject => "EOF while parsing an object"
  | .expectedValue => "expected value"
  | .expectedWord => "expected ident"
  | .expectedColon => "expected `:`"
  | .expectedItemEnd => "expected `,` or `]`"
  | .expectedMemberEnd => "expected `,` or `\x7d`"
  | .trailingComma => "trailing comma"
  | .nameNotText => "key must be a string"
  | .trailingCharacters => "trailing characters"
  | .badNumber => "invalid number"
  | .numberOutOfRange => "number out of range"
  | .controlCharacter => "control character (\\u0000-\\u001F) found while parsing a string"
  | .badEscape => "invalid escape"
  | .unfinishedSurrogate => "unexpected end of hex escape"
  | .loneSurrogate => "lone leading surrogate in hex escape"
  | .missing name => "missing field `" ++ name ++ "`"
  | .duplicate name => "duplicate field `" ++ name ++ "`"
  | .wrongType found wanted =>
    "invalid type: " ++ found.describe ++ ", expected " ++ wanted.describe
  | .listTooShort => "invalid length 1, expected struct ExplainRequest with 2 elements"
  | .badPath fault => withoutPosition fault.message

/-- What a machine does with one character: what is read goes on behind it, or ends with it. -/
inductive Progress (σ α : Type) where
  | more (state : σ)
  | done (result : α)

def isBlank (c : Char) : Bool :=
  c = ' ' ∨ c = '\t' ∨ c = '\n' ∨ c = '\r'

end FieldPipeline.Json
