/-!
# Shortest decimals

A positive binary number `m * 2 ^ q` stands for the interval of reals that round to it. Among the
decimals in that interval the shortest are those with the fewest digits, and of these the nearest to
the number is taken. Everything is computed in exact arithmetic on quotients of naturals.

The digits are laid out positionally while the exponent of the first digit lies in a range, and with
an exponent otherwise. Positional text always has a point with a digit on both sides.
-/

namespace FieldPipeline.Decimal

/-- A non-negative binary number `m * 2 ^ q`. It is `narrow` if the next smaller number is only half
as far away as the next larger one. -/
structure Binary where
  m : Nat
  q : Int
  narrow : Bool

def Binary.ofBits (bits : UInt64) : Binary :=
  let field : Nat := bits.toNat / 0x10000000000000 % 0x800
  let fraction : Nat := bits.toNat % 0x10000000000000
  if field = 0 then ⟨fraction, -1074, false⟩
  else ⟨0x10000000000000 + fraction, (field : Int) - 1075, decide (fraction = 0 ∧ 1 < field)⟩

structure Shortest where
  digits : Nat
  exponent : Int

/-- A positive quotient of naturals, together with the ends of its rounding interval over the same
denominator. The interval is `closed` if the ends round to the number as well. -/
structure Interval where
  low : Nat
  mid : Nat
  high : Nat
  unit : Nat
  closed : Bool

def Binary.interval (b : Binary) : Interval :=
  let scale := Nat.pow 2 (b.q - 2).toNat
  { low := (if b.narrow then 4 * b.m - 1 else 4 * b.m - 2) * scale
    mid := 4 * b.m * scale
    high := (4 * b.m + 2) * scale
    unit := Nat.pow 2 (2 - b.q).toNat
    closed := b.m % 2 == 0 }

def Interval.inUnits (i : Interval) (k : Int) : Interval :=
  let up := Nat.pow 10 (-k).toNat
  ⟨i.low * up, i.mid * up, i.high * up, i.unit * Nat.pow 10 k.toNat, i.closed⟩

def Interval.holds (i : Interval) (n : Nat) : Bool :=
  if i.closed then decide (i.low ≤ n * i.unit ∧ n * i.unit ≤ i.high)
  else decide (i.low < n * i.unit ∧ n * i.unit < i.high)

/-- The whole number in the interval that is nearest to its middle, an even one on a tie. -/
def Interval.nearest? (i : Interval) : Option Nat :=
  let below := i.mid / i.unit
  let twice := 2 * i.mid
  let middle := (2 * below + 1) * i.unit
  match i.holds below, i.holds (below + 1) with
  | true, true =>
    if twice < middle then some below
    else if middle < twice then some (below + 1)
    else some (below + below % 2)
  | true, false => some below
  | false, true => some (below + 1)
  | false, false => none

def Interval.leading (i : Interval) : Int :=
  if i.unit ≤ i.mid then ((Nat.toDigits 10 (i.mid / i.unit)).length : Int) - 1
  else
    match (List.range 400).find? fun j => decide (i.unit ≤ i.mid * Nat.pow 10 j) with
    | some j => -(j : Int)
    | none => -400

/-- Moves the zeros at the end of the digits into the exponent. -/
def Shortest.trim : Nat → Shortest → Shortest
  | 0, d => d
  | fuel + 1, d =>
    if d.digits ≠ 0 ∧ d.digits % 10 = 0 then trim fuel ⟨d.digits / 10, d.exponent + 1⟩ else d

/-- The shortest decimal for a positive binary number. Seventeen digits always suffice; beyond them
the seventeen digits below the number stand in. -/
def Binary.shortest (b : Binary) : Shortest :=
  let i := b.interval
  let first := i.leading
  let found := (List.range 17).findSome? fun (n : Nat) =>
    let k := first - (n : Int)
    (i.inUnits k).nearest?.map fun digits => (⟨digits, k⟩ : Shortest)
  match found with
  | some d => d.trim 20
  | none =>
    let units := i.inUnits (first - 16)
    ⟨units.mid / units.unit, first - 16⟩

/-- The range of exponents of the first digit in which digits are laid out positionally. -/
structure Notation where
  least : Int
  greatest : Int

def positional (digits : List Char) (leading : Int) : List Char :=
  if leading < 0 then
    ['0', '.'] ++ List.replicate (-leading - 1).toNat '0' ++ digits
  else
    let whole := leading.toNat + 1
    let fraction := digits.drop whole
    digits.take whole ++ List.replicate (whole - digits.length) '0' ++ ['.'] ++
      if fraction.isEmpty then ['0'] else fraction

/-- One digit before the point, and the exponent with its sign. -/
def scientific (digits : List Char) (leading : Int) : List Char :=
  digits.take 1 ++ (if digits.length ≤ 1 then [] else '.' :: digits.drop 1) ++
    ['e', if leading < 0 then '-' else '+'] ++ Nat.toDigits 10 leading.natAbs

def Notation.text (n : Notation) (bits : UInt64) : String :=
  let sign := if bits.toNat < 0x8000000000000000 then [] else ['-']
  let b := Binary.ofBits bits
  if b.m = 0 then String.ofList (sign ++ ['0', '.', '0'])
  else
    let d := b.shortest
    let digits := Nat.toDigits 10 d.digits
    let leading := d.exponent + digits.length - 1
    String.ofList <| sign ++
      if n.least ≤ leading ∧ leading ≤ n.greatest then positional digits leading
      else scientific digits leading

end FieldPipeline.Decimal
