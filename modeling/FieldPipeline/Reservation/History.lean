/-!
# Reserved keys

A reservation owns the key that a pipeline works on. A key is adopted as it is, or allocated from a
supply of numbers: a stem, an underscore and the next number. The supply counts in 64 bits and
wraps.

A history is a growing list of reservations beside the supply that their keys come from. Allocations
take one number each; adopted and copied keys take none.
-/

namespace FieldPipeline

/-- The next number to allocate. -/
structure KeySupply where
  next : UInt64
deriving DecidableEq

structure Reservation where
  key : String
deriving DecidableEq

namespace Reservation

def standardStem : String :=
  "__quarry"

def numberedKey (stem : String) (n : UInt64) : String :=
  stem ++ "_" ++ toString n.toNat

def allocate (stem : String) (supply : KeySupply) : Reservation × KeySupply :=
  (⟨numberedKey stem supply.next⟩, ⟨supply.next + 1⟩)

def fresh (supply : KeySupply) : Reservation × KeySupply :=
  allocate standardStem supply

/-- A reservation of a key that someone else allocated. -/
def adopt (key : String) : Reservation :=
  ⟨key⟩

inductive Step where
  | fresh
  | allocate (stem : String)
  | adopt (key : String)
  | copy (source : Nat)

structure History where
  supply : KeySupply
  reservations : List Reservation := []

/-- The next reservation and the supply after it; nothing if the step names a position that is not
there. -/
def Step.outcome (h : History) : Step → Option (Reservation × KeySupply)
  | .fresh => some (Reservation.fresh h.supply)
  | .allocate stem => some (Reservation.allocate stem h.supply)
  | .adopt key => some (Reservation.adopt key, h.supply)
  | .copy source => h.reservations[source]?.map fun reservation => (reservation, h.supply)

def History.extend (h : History) (step : Step) : History :=
  match step.outcome h with
  | some (reservation, supply) => ⟨supply, h.reservations ++ [reservation]⟩
  | none => h

def History.run (h : History) (steps : List Step) : History :=
  steps.foldl History.extend h

end Reservation

end FieldPipeline
