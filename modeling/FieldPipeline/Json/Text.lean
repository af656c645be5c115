import FieldPipeline.Text.Basic

/-!
# JSON values and their text

Members of an object are kept in order, and a name may occur more than once. There are two ways to
write a value: compact, with no blank between tokens, and indented, with every item and member on a
line of its own, two spaces further in for each level. An empty array or object is written without a
line break in both. In strings only the quote, the backslash and the characters below U+0020 are
escaped.
-/

namespace FieldPipeline

/-- A JSON value without fractional numbers. -/
inductive Json where
  | null
  | boolean (b : Bool)
  | integer (n : Int)
  | string (s : String)
  | array (items : List Json)
  | object (members : List (String × Json))
deriving Inhabited

namespace Json

def escape (c : Char) : List Char :=
  if c = '"' then ['\\', '"']
  else if c = '\\' then ['\\', '\\']
  else if c = '\n' then ['\\', 'n']
  else if c = '\r' then ['\\', 'r']
  else if c = '\t' then ['\\', 't']
  else if c = '\x08' then ['\\', 'b']
  else if c = '\x0c' then ['\\', 'f']
  else if c.toNat < 0x20 then ['\\', 'u', '0', '0', Text.hexDigit (c.toNat / 16),
      Text.hexDigit (c.toNat % 16)]
  else [c]

def quoted (s : String) : List Char :=
  '"' :: s.toList.flatMap escape ++ ['"']

def integerText (n : Int) : List Char :=
  (toString n).toList

mutual

def compactChars : Json → List Char
  | .null => ['n', 'u', 'l', 'l']
  | .boolean true => ['t', 'r', 'u', 'e']
  | .boolean false => ['f', 'a', 'l', 's', 'e']
  | .integer n => integerText n
  | .string s => quoted s
  | .array items => '[' :: compactItems items ++ [']']
  | .object members => '{' :: compactMembers members ++ ['}']

def compactItems : List Json → List Char
  | [] => []
  | [item] => compactChars item
  | item :: items => compactChars item ++ ',' :: compactItems items

def compactMembers : List (String × Json) → List Char
  | [] => []
  | [(name, value)] => quoted name ++ ':' :: compactChars value
  | (name, value) :: members =>
    quoted name ++ ':' :: compactChars value ++ ',' :: compactMembers members

end

/-- A line break and the blanks of a nesting depth. -/
def newLine (depth : Nat) : List Char :=
  '\n' :: List.replicate (2 * depth) ' '

mutual

/-- A value written over several lines, its first line at the given depth. -/
def indentedChars (depth : Nat) : Json → List Char
  | .null => ['n', 'u', 'l', 'l']
  | .boolean true => ['t', 'r', 'u', 'e']
  | .boolean false => ['f', 'a', 'l', 's', 'e']
  | .integer n => integerText n
  | .string s => quoted s
  | .array [] => ['[', ']']
  | .array items => '[' :: indentedItems (depth + 1) items ++ newLine depth ++ [']']
  | .object [] => ['{', '}']
  | .object members => '{' :: indentedMembers (depth + 1) members ++ newLine depth ++ ['}']

def indentedItems (depth : Nat) : List Json → List Char
  | [] => []
  | [item] => newLine depth ++ indentedChars depth item
  | item :: items => newLine depth ++ indentedChars depth item ++ ',' :: indentedItems depth items

def indentedMembers (depth : Nat) : List (String × Json) → List Char
  | [] => []
  | [(name, value)] => newLine depth ++ quoted name ++ ':' :: ' ' :: indentedChars depth value
  | (name, value) :: members =>
    newLine depth ++ quoted name ++ ':' :: ' ' :: indentedChars depth value ++
      ',' :: indentedMembers depth members

end

def compact (value : Json) : String :=
  String.ofList (compactChars value)

def indented (value : Json) : String :=
  String.ofList (indentedChars 0 value)

end Json

end FieldPipeline
