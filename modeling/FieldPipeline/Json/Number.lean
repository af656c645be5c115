import FieldPipeline.Json.ReadError

/-!
# Numbers

The machine for a number, and the value of what it has read. A number does not say where it ends:
the first character that cannot belong to it is left to whatever follows.

A number without fraction and exponent is an integer if it fits: up to 64 bits without a sign, down
to the least signed value with one. Every other number is a floating-point value, computed from the
leading digits that fit 64 bits by one multiplication with, or division by, a power of ten.
-/

namespace FieldPipeline.Json

inductive NumberPhase where
  | sign
  | zero
  | whole
  | point
  | fraction
  | mark
  | markSign
  | exponent
deriving DecidableEq

/-- A number as far as it has been read; digits are kept last first. -/
structure Number where
  phase : NumberPhase
  negative : Bool := false
  whole : List Nat := []
  fraction : List Nat := []
  downward : Bool := false
  exponent : List Nat := []
  fractional : Bool := false
deriving DecidableEq

def digit? (c : Char) : Option Nat :=
  if c.isDigit then some (c.toNat - '0'.toNat) else none

namespace Number

def complete (n : Number) : Bool :=
  match n.phase with
  | .zero | .whole | .fraction | .exponent => true
  | _ => false

def start? (c : Char) : Option Number :=
  if c = '-' then some ⟨.sign, true, [], [], false, [], false⟩
  else
    (digit? c).map fun d =>
      { phase := if d = 0 then .zero else .whole, whole := [d] }

def afterWhole (n : Number) (c : Char) : Option Number :=
  if c = '.' then some { n with phase := .point, fractional := true }
  else if c = 'e' ∨ c = 'E' then some { n with phase := .mark, fractional := true }
  else none

/-- One more character of the number, or nothing if the number ends before it. -/
def step (n : Number) (c : Char) : Except ReadError (Option Number) :=
  match n.phase, digit? c with
  | .sign, some d => .ok (some { n with phase := if d = 0 then .zero else .whole, whole := [d] })
  | .sign, none => .error .badNumber
  | .zero, some _ => .error .badNumber
  | .zero, none => .ok (n.afterWhole c)
  | .whole, some d => .ok (some { n with whole := d :: n.whole })
  | .whole, none => .ok (n.afterWhole c)
  | .point, some d => .ok (some { n with phase := .fraction, fraction := [d] })
  | .point, none => .error .badNumber
  | .fraction, some d => .ok (some { n with fraction := d :: n.fraction })
  | .fraction, none =>
    .ok (if c = 'e' ∨ c = 'E' then some { n with phase := .mark } else none)
  | .mark, some d => .ok (some { n with phase := .exponent, exponent := [d] })
  | .mark, none =>
    if c = '+' then .ok (some { n with phase := .markSign })
    else if c = '-' then .ok (some { n with phase := .markSign, downward := true })
    else .error .badNumber
  | .markSign, some d => .ok (some { n with phase := .exponent, exponent := [d] })
  | .markSign, none => .error .badNumber
  | .exponent, some d => .ok (some { n with exponent := d :: n.exponent })
  | .exponent, none => .ok none

def ofDigits (digits : List Nat) : Nat :=
  digits.foldr (fun d n => 10 * n + d) 0

/-- Appends digits to a significand while it fits 64 bits, and says how many did not. -/
def accumulate (significand : Nat) : List Nat → Nat × Nat
  | [] => (significand, 0)
  | d :: digits =>
    if 10 * significand + d < 0x10000000000000000 then accumulate (10 * significand + d) digits
    else (significand, digits.length + 1)

/-- Multiplies with a power of ten; beyond the greatest one in steps. -/
def scale (fuel : Nat) (f : Float) (exponent : Int) : Except ReadError Float :=
  match fuel with
  | 0 => .ok f
  | fuel + 1 =>
    if exponent.natAbs ≤ 308 then
      let power := Float.ofScientific 1 false exponent.natAbs
      if 0 ≤ exponent then
        if (f * power).isInf then .error .numberOutOfRange else .ok (f * power)
      else .ok (f / power)
    else if f == 0 then .ok f
    else if 0 ≤ exponent then .error .numberOutOfRange
    else scale fuel (f / Float.ofScientific 1 false 308) (exponent + 308)

def magnitude (n : Number) : Except ReadError Float :=
  let (significand, skipped) := accumulate 0 n.whole.reverse
  let (significand, dropped) := accumulate significand n.fraction.reverse
  let start : Int := (skipped : Int) - ((n.fraction.length - dropped : Nat) : Int)
  let exponent := ofDigits n.exponent
  if 0x80000000 ≤ exponent then
    if significand ≠ 0 ∧ !n.downward then .error .numberOutOfRange else .ok 0
  else
    scale 8 significand.toUInt64.toFloat
      (if n.downward then start - exponent else start + exponent)

def found (n : Number) : Except ReadError Found :=
  let float (f : Float) : Found := .float (if n.negative then -f else f).toBits
  let whole := ofDigits n.whole
  if n.fractional then n.magnitude.map float
  else if n.negative then
    if whole = 0 then .ok (float 0)
    else if whole ≤ 0x8000000000000000 then .ok (.integer (-(whole : Int)))
    else n.magnitude.map float
  else if whole < 0x10000000000000000 then .ok (.integer whole)
  else n.magnitude.map float

end Number

end FieldPipeline.Json
