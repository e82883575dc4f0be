/-
  StateObject.Proofs.FirstSlices — which slice an address stands for.

  A run of edits takes slices for the root signatures that it creates. An address stands
  for the bytes of the first of them that came from it, and of no other.

  - `Catalog.slices`: the slices that a run took, in order. A request that is refused gives
    none, and neither does a clone.
  - `Reachable.bytesAt?_after`: the addresses after a run, from those before it.
  - `bytesAt?_after_make`: so from a new catalog on, the first slices are all that counts.
-/

import StateObject.Proofs.Atomicity

namespace StateObject

/-- The slice that the edit asks to be taken. -/
def Edit.slice? {ω : Type} : Edit ω → Option Slice
  | create _ (.rootSignature _ slice) => some slice
  | _ => none

/-- The first of the slices that comes from the address. -/
def firstFrom? (slices : List Slice) (a : Nat) : Option Slice := slices.find? (·.address = a)

theorem firstFrom?_append (slices slices' : List Slice) (a : Nat) :
    firstFrom? (slices ++ slices') a = (firstFrom? slices a).or (firstFrom? slices' a) :=
  List.find?_append

theorem firstFrom?_eq_none_iff {slices : List Slice} {a : Nat} :
    firstFrom? slices a = none ↔ ∀ slice ∈ slices, slice.address ≠ a := by
  simp [firstFrom?]

theorem mem_of_firstFrom? {slices : List Slice} {a : Nat} {slice : Slice} (h : firstFrom? slices a = some slice) :
    slice ∈ slices ∧ slice.address = a :=
  ⟨List.mem_of_find?_eq_some h, by simpa using List.find?_some h⟩

theorem Spec.note_rootSignature (seen : Nat → Option Bytes) (scope : Scope) (slice : Slice) (a : Nat) :
    Spec.note seen (.rootSignature scope slice) a = (seen a).or ((firstFrom? [slice] a).map (·.bytes)) := by
  by_cases ha : a = slice.address
  · simp [note, firstFrom?, ha]
  · simp [note, firstFrom?, ha, Ne.symm ha]

namespace Catalog

/-- The slices that the edits of a run took. -/
def slices (c : Catalog) (edits : List (Edit View)) : List Slice := (c.taken edits).filterMap Edit.slice?

variable {c s : Catalog} {subs : List Subobject}

/-! ## One edit -/

theorem Ends.bytesAt? (hc : c.Holds subs) {e : Edit View} {done : Outcome Catalog (Reply View)}
    (h : c.Ends subs e done) (a : Nat) :
    done.state.pool.buffers.bytesAt? a =
      match done.result with
      | .ok _ => (c.pool.buffers.bytesAt? a).or ((firstFrom? e.slice?.toList a).map (·.bytes))
      | .error _ => c.pool.buffers.bytesAt? a := by
  cases h with
  | refused _ => rfl
  | @created name spec contents payload pool _ _ _ hb _ =>
    show pool.buffers.bytesAt? a = _
    rw [hb, hc.pool.buffers.bytesAt?_noting]
    cases spec with
    | rootSignature scope slice => exact Spec.note_rootSignature _ scope slice a
    | _ => exact (Option.or_none).symm
  | @cloned source t name payload pool _ _ _ _ hb _ =>
    show pool.buffers.bytesAt? a = _
    rw [hb, hc.pool.buffers.bytesAt?_copying]
    exact (Option.or_none).symm
  | _ => exact (Option.or_none).symm

/-! ## Runs -/

theorem slices_cons (c : Catalog) (e : Edit View) (es : List (Edit View)) :
    c.slices (e :: es) =
      match (e.call.run c).result with
      | .ok _ => e.slice?.toList ++ (e.call.run c).state.slices es
      | .error _ => c.slices es := by
  rw [slices, taken.eq_def]
  cases hr : (e.call.run c).result with
  | error r => simp only [hr, slices]
  | ok v => cases hslice : e.slice? <;> simp [hr, hslice, slices]

theorem mem_of_mem_taken {edits : List (Edit View)} {e : Edit View} (h : e ∈ c.taken edits) : e ∈ edits := by
  induction edits generalizing c with
  | nil => cases h
  | cons e' es ih =>
    unfold taken at h
    split at h
    · rcases List.mem_cons.mp h with rfl | h
      · exact List.mem_cons_self
      · exact List.mem_cons_of_mem _ (ih h)
    · exact List.mem_cons_of_mem _ (ih h)

/-- What was taken was asked for. -/
theorem exists_edit_of_mem_slices {edits : List (Edit View)} {slice : Slice} (h : slice ∈ c.slices edits) :
    ∃ e ∈ edits, e.slice? = some slice := by
  obtain ⟨e, he, hslice⟩ := List.mem_filterMap.mp h
  exact ⟨e, mem_of_mem_taken he, hslice⟩

theorem Reachable.bytesAt?_after (h : Reachable c) {edits : List (Edit View)} (hs : Sourced edits) (a : Nat) :
    (c.after edits).pool.buffers.bytesAt? a =
      (c.pool.buffers.bytesAt? a).or ((firstFrom? (c.slices edits) a).map (·.bytes)) := by
  induction edits generalizing c with
  | nil => exact (Option.or_none).symm
  | cons e es ih =>
    obtain ⟨t, hreach, hfrom⟩ := hs e List.mem_cons_self
    obtain ⟨subs, hholds, hends⟩ := h.ends hreach hfrom
    have hstep := hends.bytesAt? hholds a
    have hrest := ih (.edit e h hreach hfrom) fun e' he' => hs e' (List.mem_cons_of_mem e he')
    show ((e.call.run c).state.after es).pool.buffers.bytesAt? a = _
    rw [hrest, hstep, slices_cons]
    cases hr : (e.call.run c).result with
    | error r =>
      -- the run goes on from the same catalog
      rw [hends.refused_eq hr]
    | ok v => simp only [firstFrom?_append, Option.or_assoc, Option.map_or]

theorem bytesAt?_make (limit : Option Nat) (a : Nat) : (make limit).pool.buffers.bytesAt? a = none := by
  have hseen := (matches_make limit).seen
  rw [← hseen]
  cases limit <;> rfl

/-- An address stands for the bytes of the first slice that was taken from it. -/
theorem bytesAt?_after_make (limit : Option Nat) {edits : List (Edit View)} (hs : Sourced edits) (a : Nat) :
    ((make limit).after edits).pool.buffers.bytesAt? a =
      (firstFrom? ((make limit).slices edits) a).map (·.bytes) := by
  rw [(Reachable.make limit).bytesAt?_after hs, bytesAt?_make, Option.none_or]

end Catalog

end StateObject
