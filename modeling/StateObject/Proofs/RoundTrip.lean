/-
  StateObject.Proofs.RoundTrip — what a root signature reads as, once it is made.

  Buffers that stay where they are and as they are lie apart, and a slice is a stretch of
  one of them. Two slices of one address then differ in their lengths alone.

  - `Slice.Of.startsAlike`: of two such slices one is the start of the other.
  - `Reachable.find?_after`: a subobject reads the same for as long as its name is not
    given up.
  - `root_signature_reads_first_slice`: a root signature reads as the first slice that was
    taken from its address, which is the slice asked for if the two are equally long.
-/

import Mathlib.Data.List.Pairwise
import StateObject.Proofs.FirstSlices
import StateObject.Proofs.Ownership
import StateObject.Proofs.Sizes

namespace StateObject

/-! ## Buffers that stay -/

/-- No byte is one of both buffers. They may touch, and buffers of no bytes may lie anywhere. -/
def Buffer.Apart (b b' : Buffer) : Prop :=
  b.address + b.bytes.length ≤ b'.address ∨ b'.address + b'.bytes.length ≤ b.address

/-- The slice is a stretch of one of the buffers. -/
def Slice.Of (buffers : List Buffer) (slice : Slice) : Prop :=
  ∃ b ∈ buffers, ∃ start length, b.slice? start length = some slice

instance : Std.Symm Buffer.Apart := ⟨fun _ _ h => Or.symm h⟩

theorem Buffer.slice?_eq_some_iff {b : Buffer} {start length : Nat} {slice : Slice} :
    b.slice? start length = some slice ↔ start + length ≤ b.bytes.length ∧
      slice = ⟨b.address + start, (b.bytes.drop start).take length⟩ := by
  unfold slice?
  split
  · rename_i h
    simp [h, eq_comm]
  · rename_i h
    simp [h]

/-- Slices of one address, of buffers that lie apart: they start in the same way. -/
theorem Slice.Of.startsAlike {buffers : List Buffer} (h : buffers.Pairwise Buffer.Apart) {x y : Slice} (hx : x.Of buffers)
    (hy : y.Of buffers) (ha : x.address = y.address) : x.bytes <+: y.bytes ∨ y.bytes <+: x.bytes := by
  obtain ⟨b, hb, i, n, hx⟩ := hx
  obtain ⟨b', hb', j, m, hy⟩ := hy
  obtain ⟨hi, rfl⟩ := Buffer.slice?_eq_some_iff.mp hx
  obtain ⟨hj, rfl⟩ := Buffer.slice?_eq_some_iff.mp hy
  simp only at ha ⊢
  rcases Nat.eq_zero_or_pos n with rfl | hn
  · exact .inl (by simp)
  rcases Nat.eq_zero_or_pos m with rfl | hm
  · exact .inr (by simp)
  -- the byte at the address is one of both buffers
  have hsame : b = b' := by
    by_contra hne
    rcases h.forall hb hb' hne with hapart | hapart <;> omega
  subst hsame
  obtain rfl : i = j := by omega
  rcases Nat.le_total n m with hnm | hnm
  · exact .inl (List.take_prefix_take_left hnm)
  · exact .inr (List.take_prefix_take_left hnm)

namespace Memory

/-- The buffers of the contents, placed one after the other. -/
def placeAll (m : Memory) : List Bytes → List Buffer
  | [] => []
  | bytes :: rest => (m.place bytes).1 :: (m.place bytes).2.placeAll rest

theorem next_le_place (m : Memory) (bytes : Bytes) : m.next ≤ (m.place bytes).2.next := by
  unfold place
  split
  · exact Nat.le_refl _
  · show m.next ≤ m.next + bytes.length + 1
    omega

/-- What is placed lies past all that was placed before, or has no bytes. -/
theorem of_mem_placeAll {m : Memory} {contents : List Bytes} {b : Buffer} (hb : b ∈ m.placeAll contents) :
    m.next ≤ b.address ∨ b = ⟨emptyAddress, []⟩ := by
  induction contents generalizing m with
  | nil => cases hb
  | cons bytes rest ih =>
    rcases List.mem_cons.mp hb with rfl | hb
    · unfold place
      split
      · rename_i he
        exact .inr (by rw [List.isEmpty_iff.mp he])
      · exact .inl (Nat.le_refl _)
    · exact (ih hb).imp_left (Nat.le_trans (m.next_le_place bytes))

/-- Buffers are placed apart. -/
theorem apart_placeAll {m : Memory} (hm : emptyAddress ≤ m.next) (contents : List Bytes) :
    (m.placeAll contents).Pairwise Buffer.Apart := by
  induction contents generalizing m with
  | nil => exact .nil
  | cons bytes rest ih =>
    refine .cons ?_ (ih (Nat.le_trans hm (m.next_le_place bytes)))
    intro b hb
    have hlater := of_mem_placeAll hb
    by_cases he : bytes.isEmpty
    · simp only [place, he, if_true] at hlater ⊢
      rw [List.isEmpty_iff.mp he]
      rcases hlater with hnext | rfl
      · exact .inl (Nat.le_trans hm hnext)
      · exact .inl (Nat.le_refl _)
    · simp only [place, he] at hlater ⊢
      rcases hlater with hnext | rfl
      · exact .inl (Nat.le_trans (Nat.le_succ _) hnext)
      · exact .inr hm

end Memory

/-- The buffers lie apart, and every slice of the edits is a stretch of one of them: none was
    written over, moved, or placed where another was. -/
structure Still (buffers : List Buffer) (edits : List (Edit View)) : Prop where
  apart : buffers.Pairwise Buffer.Apart
  slices : ∀ e ∈ edits, ∀ slice, e.slice? = some slice → slice.Of buffers

/-- The first of the slices from the same address, or the slice itself if there is none. -/
def Slice.firstAmong (slice : Slice) (slices : List Slice) : Slice := (firstFrom? slices slice.address).getD slice

theorem Slice.firstAmong_eq_or_mem (slice : Slice) (slices : List Slice) :
    slice.firstAmong slices = slice ∨
      (slice.firstAmong slices ∈ slices ∧ (slice.firstAmong slices).address = slice.address) := by
  unfold firstAmong
  cases hfirst : firstFrom? slices slice.address with
  | none => exact .inl rfl
  | some x => exact .inr (mem_of_firstFrom? hfirst)

/-- The first slice taken from an address starts like every other one. -/
theorem Still.firstAmong_startsAlike {buffers : List Buffer} {edits : List (Edit View)} (h : Still buffers edits)
    {slices : List Slice} (hslices : ∀ x ∈ slices, ∃ e ∈ edits, e.slice? = some x) {slice : Slice}
    (hslice : ∃ e ∈ edits, e.slice? = some slice) :
    (slice.firstAmong slices).bytes <+: slice.bytes ∨ slice.bytes <+: (slice.firstAmong slices).bytes := by
  rcases slice.firstAmong_eq_or_mem slices with hself | ⟨hmem, ha⟩
  · rw [hself]
    exact .inl (List.prefix_refl _)
  · obtain ⟨e, he, hx⟩ := hslices _ hmem
    obtain ⟨e', he', hy⟩ := hslice
    exact (h.slices e he _ hx).startsAlike h.apart (h.slices e' he' _ hy) ha

/-! ## Subobjects that stay -/

/-- A subobject stays what it is until its name is given up. -/
theorem Inventory.Yields.find?_eq {inv inv' : Inventory} {e : Edit Subobject} {reply : Reply Subobject}
    (h : inv.Yields e reply inv') (hd : (inv.subobjects.map (·.name)).Nodup) {name : String} {s : Subobject}
    (hs : inv.find? name = some s) (hlive : inv'.contains name = true) : inv'.find? name = some s := by
  have happend : ∀ t, (inv.append t).find? name = some s := by
    intro t
    rw [find?_append, hs]
    rfl
  cases h with
  | created _ _ => exact happend _
  | cloned _ _ => exact happend _
  | duplicated _ _ => exact happend _
  | @renamed source name' t _ hn =>
    rw [contains, find?_append, find?_erase hd] at hlive
    rw [find?_append, find?_erase hd]
    by_cases hname : name = source
    · -- the name was given up, and the new one is another
      have hne : name' ≠ name := by
        rintro rfl
        rw [hs] at hn
        cases hn
      simp [hname, hname ▸ hne] at hlive
    · rw [if_neg hname, hs]
      rfl
  | @removed name' =>
    rw [contains, find?_erase hd] at hlive
    rw [find?_erase hd]
    by_cases hname : name = name'
    · simp [hname] at hlive
    · rw [if_neg hname, hs]

namespace Catalog

variable {c t : Catalog} {name : String} {s : Subobject}

theorem Reachable.find?_edit (hc : Reachable c) (ht : Reachable t) {e : Edit View} (he : e.From t)
    (hs : (c.find? name).mapM View.read = .ok (some s)) (hlive : (e.call.run c).state.contains name = true) :
    ((e.call.run c).state.find? name).mapM View.read = .ok (some s) := by
  obtain ⟨inv, hm⟩ := hc.matches
  obtain ⟨_, hm'⟩ := ht.matches
  obtain ⟨e', hrel, -⟩ := hm'.related_of_from he
  have hfound : inv.find? name = some s := Except.ok.inj ((hm.holds.find?_eq name).symm.trans hs)
  have hagrees := hm.edit hrel
  cases hedited : inv.edit e' with
  | error r =>
    rw [hedited] at hagrees
    rw [show e.call.run c = _ from hagrees]
    exact hs
  | ok done =>
    rw [hedited] at hagrees
    obtain ⟨v, -, -, hleft⟩ := hagrees
    rw [hleft.contains_eq] at hlive
    have hstays := (Inventory.yields_of_edit hedited).find?_eq hm.holds.names_nodup hfound hlive
    exact (hleft.holds.find?_eq name).trans (congrArg Except.ok hstays)

/-- As long as there is a subobject of the name, it reads the same. -/
theorem Reachable.find?_after (hc : Reachable c) {later : List (Edit View)} (hl : Sourced later)
    (hs : (c.find? name).mapM View.read = .ok (some s))
    (hlive : ∀ p, p <+: later → (c.after p).contains name = true) :
    ((c.after later).find? name).mapM View.read = .ok (some s) := by
  induction later generalizing c with
  | nil => exact hs
  | cons e es ih =>
    obtain ⟨t, hreach, hfrom⟩ := hl e List.mem_cons_self
    have hnext := hc.find?_edit hreach hfrom hs (hlive [e] (List.prefix_append [e] es))
    refine ih (.edit e hc hreach hfrom) (fun e' he' => hl e' (List.mem_cons_of_mem e he')) hnext ?_
    intro p hp
    exact hlive (e :: p) (List.cons_prefix_cons.mpr ⟨rfl, hp⟩)

/-! ## Round trip -/

theorem read_of_subobject {v : View} (h : (Reply.subobject v).read = .ok (.subobject s)) : v.read = .ok s := by
  obtain ⟨x, hx, h'⟩ := bind_eq_ok_iff.mp h
  cases pure_eq_ok_iff.mp h'
  exact hx

/-- What is created reads as what was accepted, from the view handed back and by its name. -/
theorem Reachable.read_of_create (hc : Reachable c) {spec : Spec} {v : View}
    (hv : ((Edit.create name spec).call.run c).result = .ok (.subobject v)) :
    ∃ contents, spec.accept c.bufferLimit c.pool.buffers.bytesAt? = .ok contents ∧ v.read = .ok ⟨name, contents⟩ ∧
      (((Edit.create name spec).call.run c).state.find? name).mapM View.read = .ok (some ⟨name, contents⟩) := by
  obtain ⟨inv, hm⟩ := hc.matches
  have hagrees := hm.edit (.create name spec)
  cases hedited : inv.edit (.create name spec) with
  | error r =>
    rw [hedited] at hagrees
    rw [show (Edit.create name spec).call.run c = _ from hagrees] at hv
    cases hv
  | ok done =>
    rw [hedited] at hagrees
    obtain ⟨reply, inv'⟩ := done
    obtain ⟨w, hw, hread, hleft⟩ := hagrees
    cases Inventory.yields_of_edit hedited with
    | @created _ _ contents hn haccept =>
      rw [hm.limit, hm.seen] at haccept
      obtain rfl : Reply.subobject v = w := Except.ok.inj (hv.symm.trans hw)
      refine ⟨contents, haccept, read_of_subobject hread, ?_⟩
      have hfound : (inv.append ⟨name, contents⟩).find? name = some ⟨name, contents⟩ := by
        rw [Inventory.find?_append, hn]
        simp
      exact (hleft.holds.find?_eq name).trans (congrArg Except.ok hfound)

/-- What is taken in has the bytes of the first slice, in their full length. -/
theorem Reachable.accept_rootSignature (hc : Reachable c) {slices : List Slice}
    (hseen : ∀ a, c.pool.buffers.bytesAt? a = (firstFrom? slices a).map (·.bytes)) {scope : Scope} {slice : Slice}
    {contents : Contents}
    (h : Spec.accept c.bufferLimit c.pool.buffers.bytesAt? (.rootSignature scope slice) = .ok contents) :
    ∃ size : UInt32, contents = .rootSignature scope ⟨(slice.firstAmong slices).bytes, size⟩ ∧
      size.toNat = (slice.firstAmong slices).bytes.length ∧ (slice.firstAmong slices).bytes.length < c.bufferLimit := by
  obtain ⟨inv, hm, hmeasured⟩ := hc.measured
  have hsize : contents.Measured c.bufferLimit := by
    rw [← hm.limit, ← hm.seen] at h
    rw [← hm.limit]
    exact Spec.measured_of_accept hmeasured.limit hmeasured.seen h
  have hcontents : contents = .rootSignature scope
      ⟨(slice.firstAmong slices).bytes, (slice.firstAmong slices).bytes.length.toUInt32⟩ := by
    rw [Spec.accept, hseen] at h
    unfold Slice.firstAmong
    cases hfirst : firstFrom? slices slice.address with
    | some x =>
      rw [hfirst] at h
      cases h
      rfl
    | none =>
      rw [hfirst] at h
      simp only [Option.map_none] at h
      split at h <;> cases h
      rfl
  subst hcontents
  exact ⟨_, rfl, hsize⟩

/-- A root signature that was made reads as the first slice that the run took from the
    address, and that is the slice asked for if there was none before. It does so as long
    as its name is not given up. Its size is the length of that slice, which is below the
    limit. While buffers stay as they are, the first slice and the one asked for start
    alike, so they are the same if they are equally long. -/
theorem root_signature_reads_first_slice (limit : Option Nat) {before : List (Edit View)} (hs : Sourced before)
    {scope : Scope} {slice : Slice} {buffers : List Buffer}
    (hstill : Still buffers (before ++ [.create name (.rootSignature scope slice)])) {v : View}
    (hv : ((Edit.create name (.rootSignature scope slice)).call.run ((make limit).after before)).result =
      .ok (.subobject v)) :
    let c := (make limit).after before
    let left := ((Edit.create name (.rootSignature scope slice)).call.run c).state
    let first := slice.firstAmong ((make limit).slices before)
    ∃ size : UInt32, size.toNat = first.bytes.length ∧ first.bytes.length < c.bufferLimit ∧
      v.read = .ok ⟨name, .rootSignature scope ⟨first.bytes, size⟩⟩ ∧
      (∀ later, Sourced later → (∀ p, p <+: later → (left.after p).contains name = true) →
        ((left.after later).find? name).mapM View.read =
          .ok (some ⟨name, .rootSignature scope ⟨first.bytes, size⟩⟩)) ∧
      (first.bytes <+: slice.bytes ∨ slice.bytes <+: first.bytes) ∧
      (first.bytes.length = slice.bytes.length → first.bytes = slice.bytes) := by
  intro c left first
  have hc : Reachable c := (Reachable.make limit).after hs
  have hleft : Reachable left := .edit _ hc (.make none) True.intro
  obtain ⟨contents, haccept, hread, hfound⟩ := hc.read_of_create hv
  obtain ⟨size, rfl, hsize, hlimit⟩ := hc.accept_rootSignature (bytesAt?_after_make limit hs) haccept
  have halike : first.bytes <+: slice.bytes ∨ slice.bytes <+: first.bytes := by
    refine hstill.firstAmong_startsAlike ?_ ⟨_, List.mem_append_right _ List.mem_cons_self, rfl⟩
    intro x hx
    obtain ⟨e, he, hslice⟩ := exists_edit_of_mem_slices hx
    exact ⟨e, List.mem_append_left _ he, hslice⟩
  refine ⟨size, hsize, hlimit, hread, ?_, halike, ?_⟩
  · intro later hlater hlive
    exact hleft.find?_after hlater hfound hlive
  · intro hlen
    rcases halike with h | h
    · exact h.eq_of_length hlen
    · exact (h.eq_of_length hlen.symm).symm

/-- The whole of a buffer, of which the first two bytes were taken before: it reads as those
    two, and goes on to do so when what they were taken for is out again. -/
theorem whole_buffer_reads_as_its_start :
    let buffers := Memory.placeAll {} [[1, 2, 3, 4], [], [5]]
    let before : List (Edit View) := [.create "other" (.rootSignature .globalScope ⟨7, [5]⟩),
      .create "start" (.rootSignature .globalScope ⟨2, [1, 2]⟩)]
    let whole := Edit.create "whole" (.rootSignature .localScope ⟨2, [1, 2, 3, 4]⟩)
    let left := (whole.call.run ((make (some 3)).after before)).state
    Still buffers (before ++ [whole]) ∧ ∃ size : UInt32, size.toNat = 2 ∧
      ((left.after [.remove "start"]).find? "whole").mapM View.read =
        .ok (some ⟨"whole", .rootSignature .localScope ⟨[1, 2], size⟩⟩) := by
  intro buffers before whole left
  have hs : Sourced before := sourced_of_clones (by simp [before])
  have hstill : Still buffers (before ++ [whole]) := by
    refine ⟨Memory.apart_placeAll (by decide) _, ?_⟩
    intro e he slice hslice
    simp only [before, whole, List.cons_append, List.nil_append, List.mem_cons, List.not_mem_nil, or_false] at he
    rcases he with rfl | rfl | rfl <;> cases hslice
    · exact ⟨⟨7, [5]⟩, by decide, 0, 1, by decide⟩
    · exact ⟨⟨2, [1, 2, 3, 4]⟩, by decide, 0, 2, by decide⟩
    · exact ⟨⟨2, [1, 2, 3, 4]⟩, by decide, 0, 4, by decide⟩
  obtain ⟨v, hv⟩ : ∃ v, (whole.call.run ((make (some 3)).after before)).result = .ok (.subobject v) := ⟨_, rfl⟩
  obtain ⟨size, hsize, -, -, hlater, -⟩ := root_signature_reads_first_slice (some 3) hs hstill hv
  have hslices : (make (some 3)).slices before = [⟨7, [5]⟩, ⟨2, [1, 2]⟩] := by decide +kernel
  have hfirst : Slice.firstAmong ⟨2, [1, 2, 3, 4]⟩ [⟨7, [5]⟩, ⟨2, [1, 2]⟩] = ⟨2, [1, 2]⟩ := by decide
  rw [hslices, hfirst] at hsize hlater
  refine ⟨hstill, size, hsize, hlater [.remove "start"] (sourced_of_clones (by simp)) ?_⟩
  intro p hp
  rcases List.prefix_cons_iff.mp hp with rfl | ⟨q, rfl, hq⟩
  · decide +kernel
  · obtain rfl := List.prefix_nil.mp hq
    decide +kernel

/-- The bytes of a slice need not be the ones that it reads as, and its length need not be
    below the limit, though every buffer stays as it is. -/
theorem whole_buffer_not_read :
    let b := (Memory.place {} [1, 2, 3, 4]).1
    let before : List (Edit View) := [.create "start" (.rootSignature .globalScope ⟨b.address, [1, 2]⟩)]
    let whole := Edit.create "whole" (.rootSignature .globalScope b.whole)
    let c := (make (some 3)).after before
    Sourced before ∧ Still [b] (before ++ [whole]) ∧ c.bufferLimit = 3 ∧ b.whole.bytes = [1, 2, 3, 4] ∧
      (whole.call.run c).result.bind Reply.read =
        .ok (.subobject ⟨"whole", .rootSignature .globalScope ⟨[1, 2], 2⟩⟩) := by
  intro b before whole c
  refine ⟨sourced_of_clones (by simp [before]), ⟨List.pairwise_singleton _ _, ?_⟩, rfl, rfl, by decide +kernel⟩
  intro e he slice hslice
  simp only [before, whole, List.cons_append, List.nil_append, List.mem_cons, List.not_mem_nil, or_false] at he
  rcases he with rfl | rfl <;> cases hslice
  · exact ⟨b, List.mem_cons_self, 0, 2, rfl⟩
  · exact ⟨b, List.mem_cons_self, 0, 4, rfl⟩

end Catalog

end StateObject
