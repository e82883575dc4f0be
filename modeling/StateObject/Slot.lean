/-
  StateObject.Slot — places in an append-only store.

  A slot means something only in the store that gave it out, or in a later state or
  copy of that store. Slots of one store are ordered as they were given out.

  A slot is written in 32 bits. A store that has given out all 2^32 of them has none for
  a further item: taking one in stops the program, and nothing is handed back. Slots have
  no bound here, so what is said of a call is said of calls that find a slot free.
-/

namespace StateObject

@[ext]
structure Slot (α : Type) where
  index : Nat
  deriving Repr

namespace Slot

variable {α : Type}

instance : DecidableEq (Slot α) := fun a b => decidable_of_iff (a.index = b.index) Slot.ext_iff.symm

instance : Ord (Slot α) := ⟨fun a b => compare a.index b.index⟩

instance : LT (Slot α) := ⟨fun a b => a.index < b.index⟩

instance (a b : Slot α) : Decidable (a < b) := inferInstanceAs (Decidable (a.index < b.index))

def literal (s : Slot α) : String := "[" ++ toString s.index ++ "]"

end Slot

/-- The slot of a string. -/
abbrev Symbol := Slot String

abbrev Bytes := List UInt8

/-- The slot of a stored byte buffer. -/
abbrev BufferSlot := Slot Bytes

end StateObject
