/-
  StateObject.Proofs.Copies — what a buffer store keeps.

  - `Sound`: an address's slot is one of the store's, and no two addresses have the
    same one. A copy made for an address (`withSlice`) keeps this, and so does a copy
    made for none (`withCopy`).
  - `Grows`: every slot keeps its bytes and every address its slot.
  - `bytesAt?`: the bytes that slices from an address stand for. Only a copy made for
    the address itself changes them, and only if there were none (`bytesAt?_withSlice`,
    `bytesAt?_withCopy`).
-/

import Mathlib.Data.List.Forall2
import StateObject.BufferStore

namespace StateObject.BufferStore

structure Sound (b : BufferStore) : Prop where
  inBounds : ∀ (a i : Nat), b.origins[a]? = some i → i < b.size
  oneAddress : ∀ (a a' i : Nat), b.origins[a]? = some i → b.origins[a']? = some i → a = a'

structure Grows (b c : BufferStore) : Prop where
  copies : ∀ k bytes, b.resolve? k = some bytes → c.resolve? k = some bytes
  origins : ∀ (a i : Nat), b.origins[a]? = some i → c.origins[a]? = some i
  limit : c.limit = b.limit

/-- The store with one copy more, tied to no address. -/
def withCopy (b : BufferStore) (bytes : Bytes) : BufferStore := (b.push bytes).2

/-- The store with one copy more, which slices from the address have from now on. -/
def withSlice (b : BufferStore) (slice : Slice) : BufferStore :=
  (b.withCopy slice.bytes).tie slice.address ⟨b.size⟩

/-- What slices from the address stand for, if there was one. -/
def bytesAt? (b : BufferStore) (a : Nat) : Option Bytes := b.origins[a]?.bind fun i => b.copies[i]?

theorem Grows.refl (b : BufferStore) : b.Grows b := ⟨fun _ _ h => h, fun _ _ h => h, rfl⟩

theorem Grows.trans {b c d : BufferStore} (h : b.Grows c) (h' : c.Grows d) : b.Grows d :=
  ⟨fun k bytes hk => h'.copies k bytes (h.copies k bytes hk), fun a i ha => h'.origins a i (h.origins a i ha),
    h'.limit.trans h.limit⟩

/-! ## Reading -/

theorem resolve_eq_ok_iff {b : BufferStore} {k : BufferSlot} {bytes : Bytes} :
    b.resolve k = .ok bytes ↔ b.resolve? k = some bytes := by
  unfold resolve
  cases b.resolve? k <;> simp

theorem lt_size_of_resolve? {b : BufferStore} {k : BufferSlot} {bytes : Bytes} (h : b.resolve? k = some bytes) :
    k.index < b.size := by
  obtain ⟨hk, -⟩ := Array.getElem?_eq_some_iff.mp h
  exact hk

theorem find?_eq_some_iff {b : BufferStore} {slice : Slice} {k : BufferSlot} :
    b.find? slice = some k ↔ b.origins[slice.address]? = some k.index := by
  rw [find?, Option.map_eq_some_iff]
  constructor
  · intro hk
    obtain ⟨i, hi, rfl⟩ := hk
    exact hi
  · intro hi
    exact ⟨k.index, hi, rfl⟩

theorem find?_eq_none_iff {b : BufferStore} {slice : Slice} :
    b.find? slice = none ↔ b.origins[slice.address]? = none := by
  simp only [find?, Option.map_eq_none_iff]

/-- An address that has a slot has bytes. -/
theorem Sound.resolve?_find? {b : BufferStore} (h : b.Sound) {slice : Slice} {k : BufferSlot}
    (hk : b.find? slice = some k) : ∃ bytes, b.resolve? k = some bytes ∧ b.bytesAt? slice.address = some bytes := by
  rw [find?_eq_some_iff] at hk
  have hlt : k.index < b.copies.size := h.inBounds _ _ hk
  exact ⟨b.copies[k.index], by simp [resolve?, hlt], by simp [bytesAt?, hk, hlt]⟩

theorem bytesAt?_of_find?_none {b : BufferStore} {slice : Slice} (h : b.find? slice = none) :
    b.bytesAt? slice.address = none := by
  simp [bytesAt?, find?_eq_none_iff.mp h]

/-! ## A copy more -/

@[simp] theorem size_withCopy (b : BufferStore) (bytes : Bytes) : (b.withCopy bytes).size = b.size + 1 := by
  simp [withCopy, push, size]

@[simp] theorem origins_withCopy (b : BufferStore) (bytes : Bytes) : (b.withCopy bytes).origins = b.origins := rfl

theorem copies_withCopy (b : BufferStore) (bytes : Bytes) (i : Nat) :
    (b.withCopy bytes).copies[i]? = if i = b.size then some bytes else b.copies[i]? :=
  Array.getElem?_push

@[simp] theorem size_withSlice (b : BufferStore) (slice : Slice) : (b.withSlice slice).size = b.size + 1 :=
  size_withCopy b slice.bytes

theorem copies_withSlice (b : BufferStore) (slice : Slice) (i : Nat) :
    (b.withSlice slice).copies[i]? = if i = b.size then some slice.bytes else b.copies[i]? :=
  copies_withCopy b slice.bytes i

theorem origins_withSlice (b : BufferStore) (slice : Slice) (a : Nat) :
    (b.withSlice slice).origins[a]? = if a = slice.address then some b.size else b.origins[a]? := by
  have h : (b.withSlice slice).origins[a]? = if slice.address = a then some b.size else b.origins[a]? := by
    simp [withSlice, tie, Std.ExtTreeMap.getElem?_insert]
  simp only [h, eq_comm]

theorem find?_withSlice (b : BufferStore) (slice slice' : Slice) :
    (b.withSlice slice).find? slice' = if slice'.address = slice.address then some ⟨b.size⟩ else b.find? slice' := by
  rw [find?, origins_withSlice]
  split
  · rfl
  · rfl

theorem resolve?_withCopy (b : BufferStore) (bytes : Bytes) : (b.withCopy bytes).resolve? ⟨b.size⟩ = some bytes := by
  rw [resolve?, copies_withCopy, if_pos rfl]

theorem resolve?_withSlice (b : BufferStore) (slice : Slice) :
    (b.withSlice slice).resolve? ⟨b.size⟩ = some slice.bytes := resolve?_withCopy b slice.bytes

theorem grows_withCopy (b : BufferStore) (bytes : Bytes) : b.Grows (b.withCopy bytes) := by
  refine ⟨?_, fun _ _ h => h, rfl⟩
  intro k x hk
  have hne : k.index ≠ b.size := Nat.ne_of_lt (lt_size_of_resolve? hk)
  rwa [resolve?, copies_withCopy, if_neg hne]

theorem grows_withSlice {b : BufferStore} {slice : Slice} (h : b.find? slice = none) :
    b.Grows (b.withSlice slice) := by
  refine ⟨(grows_withCopy b slice.bytes).copies, ?_, rfl⟩
  intro a i ha
  have hne : a ≠ slice.address := by
    intro e
    rw [e, find?_eq_none_iff.mp h] at ha
    cases ha
  rwa [origins_withSlice, if_neg hne]

theorem sound_ofLimit (limit : Nat) : (ofLimit limit).Sound := by
  constructor
  · intro a i h
    simp [ofLimit] at h
  · intro a a' i h
    simp [ofLimit] at h

theorem Sound.withCopy {b : BufferStore} (h : b.Sound) (bytes : Bytes) : (b.withCopy bytes).Sound :=
  ⟨fun a i ha => by have := h.inBounds a i ha; rw [size_withCopy]; omega, h.oneAddress⟩

theorem Sound.withSlice {b : BufferStore} (h : b.Sound) (slice : Slice) : (b.withSlice slice).Sound := by
  constructor
  · intro a i ha
    rw [origins_withSlice] at ha
    rw [size_withSlice]
    split at ha
    · cases ha
      omega
    · have := h.inBounds a i ha
      omega
  · -- the new slot is past every older one, so only one address can have it
    intro a a' i ha ha'
    rw [origins_withSlice] at ha ha'
    split at ha <;> split at ha'
    · simp [*]
    · cases ha
      have := h.inBounds _ _ ha'
      omega
    · cases ha'
      have := h.inBounds _ _ ha
      omega
    · exact h.oneAddress a a' i ha ha'

theorem Sound.bytesAt?_withCopy {b : BufferStore} (h : b.Sound) (bytes : Bytes) (a : Nat) :
    (b.withCopy bytes).bytesAt? a = b.bytesAt? a := by
  unfold bytesAt?
  rw [origins_withCopy]
  cases ha : b.origins[a]? with
  | none => rfl
  | some i =>
    have hne : i ≠ b.size := Nat.ne_of_lt (h.inBounds a i ha)
    simp [copies_withCopy, hne]

theorem Sound.bytesAt?_withSlice {b : BufferStore} (h : b.Sound) (slice : Slice) (a : Nat) :
    (b.withSlice slice).bytesAt? a = if a = slice.address then some slice.bytes else b.bytesAt? a := by
  unfold bytesAt?
  rw [origins_withSlice]
  by_cases hs : a = slice.address
  · simp [hs, copies_withSlice]
  · simp only [if_neg hs]
    cases ha : b.origins[a]? with
    | none => rfl
    | some i =>
      have hne : i ≠ b.size := Nat.ne_of_lt (h.inBounds a i ha)
      simp [copies_withSlice, hne]

end StateObject.BufferStore
