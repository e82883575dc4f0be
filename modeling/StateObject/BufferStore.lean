/-
  StateObject.BufferStore — copies of byte buffers.

  Interning a slice copies it once per address: a later slice from the same address,
  however long and whatever it holds by then, gets the first one's slot. Buffers of
  other stores come in by `addCopy`, which always makes a new copy and ties it to
  no address. A copy has to be shorter than the limit, and needs one of the slots (as
  `Slot` says, 2^32 in all).
-/

import StateObject.Call
import StateObject.Memory
import Std.Data.ExtTreeMap

namespace StateObject

/-- The container writes a length in 32 bits. -/
def maxBufferLength : Nat := 4294967295

structure BufferStore where
  /-- The copies, by slot. -/
  copies : Array Bytes := #[]
  /-- The slot of each address that a slice was interned from. -/
  origins : Std.ExtTreeMap Nat Nat := ∅
  /-- Copies are shorter than this. -/
  limit : Nat := maxBufferLength

namespace BufferStore

def ofLimit (limit : Nat) : BufferStore := { limit }

def size (b : BufferStore) : Nat := b.copies.size

def isEmpty (b : BufferStore) : Bool := b.copies.isEmpty

/-- The slot of the first slice interned from the address of this one. -/
def find? (b : BufferStore) (slice : Slice) : Option BufferSlot := b.origins[slice.address]?.map Slot.mk

def checkLength (b : BufferStore) (length : Nat) : Except Refusal Unit :=
  if length < b.limit then .ok () else .error (.sizeExceeded length b.limit)

/-- Whether the slice could be interned. -/
def check (b : BufferStore) (slice : Slice) : Except Refusal Unit :=
  match b.find? slice with
  | some _ => .ok ()
  | none => b.checkLength slice.bytes.length

/-- One copy more, and its slot. -/
def push (b : BufferStore) (bytes : Bytes) : BufferSlot × BufferStore :=
  (⟨b.size⟩, { b with copies := b.copies.push bytes })

/-- Slices from `address` have the slot from now on. -/
def tie (b : BufferStore) (address : Nat) (slot : BufferSlot) : BufferStore :=
  { b with origins := b.origins.insert address slot.index }

def intern (slice : Slice) : Call BufferStore BufferSlot := do
  let store ← Call.get
  match store.find? slice with
  | some slot =>
    Call.log (.alreadyStored slice.address slot.index)
    pure slot
  | none =>
    Call.ofExcept (store.check slice)
    let slot ← Call.update (·.push slice.bytes)
    Call.update fun b => (slot, b.tie slice.address slot)

def addCopy (bytes : Bytes) : Call BufferStore BufferSlot := do
  Call.ofExcept ((← Call.get).checkLength bytes.length)
  Call.update (·.push bytes)

def resolve? (b : BufferStore) (slot : BufferSlot) : Option Bytes := b.copies[slot.index]?

/-- The bytes of a slot that belongs to the store. -/
def resolve (b : BufferStore) (slot : BufferSlot) : Except Refusal Bytes :=
  match b.resolve? slot with
  | some bytes => .ok bytes
  | none => .error (.outOfBounds b.size slot.index)

/-! ## How the calls end -/

theorem run_intern_of_some {b : BufferStore} {slice : Slice} {slot : BufferSlot} (h : b.find? slice = some slot) :
    (intern slice).run b = ⟨.ok slot, b, [.alreadyStored slice.address slot.index]⟩ := by
  simp [intern, Call.run_bind, h, Except.map]

theorem run_intern_of_none {b : BufferStore} {slice : Slice} (h : b.find? slice = none) :
    (intern slice).run b =
      if slice.bytes.length < b.limit then
        ⟨.ok ⟨b.size⟩, (b.push slice.bytes).2.tie slice.address ⟨b.size⟩, []⟩
      else ⟨.error (.sizeExceeded slice.bytes.length b.limit), b, []⟩ := by
  by_cases hl : slice.bytes.length < b.limit <;>
    simp [intern, Call.run_bind, h, check, checkLength, hl, push]

theorem run_addCopy (bytes : Bytes) (b : BufferStore) :
    (addCopy bytes).run b =
      if bytes.length < b.limit then ⟨.ok ⟨b.size⟩, (b.push bytes).2, []⟩
      else ⟨.error (.sizeExceeded bytes.length b.limit), b, []⟩ := by
  by_cases hl : bytes.length < b.limit <;> simp [addCopy, Call.run_bind, checkLength, hl, push]

end BufferStore

end StateObject
