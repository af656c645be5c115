import FieldPipeline.Json.ReadError
import FieldPipeline.Text.Basic

/-!
# Quoted text

The machine for the inside of a string, one character at a time. An escape of four hexadecimal
digits is taken as a block of four bytes before it is judged, so a text that ends inside the block
ends too early whatever it holds. A checked string resolves surrogate pairs and refuses surrogates
without a partner; an unchecked one, which nobody is going to look at, does not care.
-/

namespace FieldPipeline.Json

/-- Where the reader stands in a string. `read` holds the characters so far, the last one first. In
a block of hexadecimal digits `lead` is a leading surrogate before it, and the value is lost once a
character is no digit. -/
inductive Quoted where
  | plain (read : List Char)
  | escape (read : List Char)
  | hex (read : List Char) (lead : Option Nat) (bytes : Nat) (value : Option Nat)
  | pair (read : List Char) (lead : Nat)
  | pairEscape (read : List Char) (lead : Nat)
deriving DecidableEq

/-- The character that a backslash and this letter stand for. -/
def shortEscape? (c : Char) : Option Char :=
  if c = '"' ∨ c = '\\' ∨ c = '/' then some c
  else if c = 'b' then some '\x08'
  else if c = 'f' then some '\x0c'
  else if c = 'n' then some '\n'
  else if c = 'r' then some '\r'
  else if c = 't' then some '\t'
  else none

def isLeading (n : Nat) : Bool :=
  0xD800 ≤ n ∧ n ≤ 0xDBFF

def isTrailing (n : Nat) : Bool :=
  0xDC00 ≤ n ∧ n ≤ 0xDFFF

def pairChar (lead trail : Nat) : Char :=
  Char.ofNat (0x10000 + (lead - 0xD800) * 0x400 + (trail - 0xDC00))

namespace Quoted

def opened : Quoted :=
  .plain []

def closeHex (checked : Bool) (read : List Char) (lead : Option Nat) (code : Nat) :
    Except ReadError Quoted :=
  if !checked then .ok (.plain read)
  else
    match lead with
    | none =>
      if isTrailing code then .error .loneSurrogate
      else if isLeading code then .ok (.pair read code)
      else .ok (.plain (Char.ofNat code :: read))
    | some lead =>
      if isTrailing code then .ok (.plain (pairChar lead code :: read)) else .error .loneSurrogate

def step (checked : Bool) : Quoted → Char → Except ReadError (Progress Quoted String)
  | .plain read, c =>
    if c = '"' then .ok (.done (String.ofList read.reverse))
    else if c = '\\' then .ok (.more (.escape read))
    else if c.toNat < 0x20 then .error .controlCharacter
    else .ok (.more (.plain (c :: read)))
  | .escape read, c =>
    if c = 'u' then .ok (.more (.hex read none 0 (some 0)))
    else
      match shortEscape? c with
      | some e => .ok (.more (.plain (e :: read)))
      | none => .error .badEscape
  | .hex read lead bytes value, c =>
    let bytes := bytes + c.utf8Size
    let value := value.bind fun v => (Text.hexValue? c).map fun d => 16 * v + d
    if bytes < 4 then .ok (.more (.hex read lead bytes value))
    else
      match value with
      | some code => (closeHex checked read lead code).map .more
      | none => .error .badEscape
  | .pair read lead, c =>
    if c = '\\' then .ok (.more (.pairEscape read lead)) else .error .unfinishedSurrogate
  | .pairEscape read lead, c =>
    if c = 'u' then .ok (.more (.hex read (some lead) 0 (some 0))) else .error .unfinishedSurrogate

end Quoted

end FieldPipeline.Json
