/-
  StateObject.Proofs.Sizes — the size of a root signature is the length of its bytes.

  A size is 32 bits wide and written once, when a slice is taken in; copies carry it along.
  It never wraps, for the limit on buffers is at most the greatest size, and whatever is
  taken in is shorter than the limit, whether its address was known or not.

  - `Inventory.Measured`: sizes are lengths, and lengths are below the limit, that of the
    bytes which an address stands for included. New inventories have it and every edit
    keeps it (`Inventory.Yields.measured`); a clone needs it of the inventory that it
    copies from too, which may have another limit.
  - `Reachable.measured`: so every view of a reachable catalog is measured, and two root
    signatures that share their bytes are alike (`Reachable.equal_of_same`).
  - `sizes_are_lengths`: what follows for runs and for what they hand back.
-/

import StateObject.Catalog.Sharing
import StateObject.Proofs.Simulation

namespace StateObject

/-- The size of a root signature is its length, and less than the limit. -/
def Contents.Measured (limit : Nat) : Contents → Prop
  | .rootSignature _ r => r.size.toNat = r.data.length ∧ r.data.length < limit
  | _ => True

/-- The size of a root signature is the length of what its slot stands for, and less than
    the limit. -/
def View.Measured (limit : Nat) (v : View) : Prop :=
  ∀ r, v.signature? = some r →
    ∃ bytes, v.pool.buffers.resolve r.data = .ok bytes ∧ r.size.toNat = bytes.length ∧ bytes.length < limit

/-! ## What is taken in -/

theorem toNat_size {bytes : Bytes} {limit : Nat} (hlimit : limit ≤ maxBufferLength) (h : bytes.length < limit) :
    bytes.length.toUInt32.toNat = bytes.length := by
  rw [UInt32.toNat_ofNat']
  exact Nat.mod_eq_of_lt (Nat.lt_trans h (Nat.lt_of_le_of_lt hlimit (by decide)))

theorem Spec.measured_of_accept {limit : Nat} {seen : Nat → Option Bytes} {spec : Spec} {contents : Contents}
    (hlimit : limit ≤ maxBufferLength) (hseen : ∀ a bytes, seen a = some bytes → bytes.length < limit)
    (h : spec.accept limit seen = .ok contents) : contents.Measured limit := by
  cases spec with
  | rootSignature scope slice =>
    rw [accept] at h
    split at h
    · rename_i bytes hbytes
      cases h
      exact ⟨toNat_size hlimit (hseen _ _ hbytes), hseen _ _ hbytes⟩
    · split at h
      · rename_i hl
        cases h
        exact ⟨toNat_size hlimit hl, hl⟩
      · cases h
  | stateObjectConfig raw =>
    rw [accept] at h
    split at h <;> cases h
    exact True.intro
  | _ =>
    cases h
    exact True.intro

/-- An address stands for bytes that were accepted. -/
theorem Spec.length_lt_of_note {limit : Nat} {seen : Nat → Option Bytes} {spec : Spec} {contents : Contents}
    (hseen : ∀ a bytes, seen a = some bytes → bytes.length < limit) (h : spec.accept limit seen = .ok contents)
    (a : Nat) (bytes : Bytes) (hn : spec.note seen a = some bytes) : bytes.length < limit := by
  cases spec with
  | rootSignature scope slice =>
    rw [accept] at h
    rw [note] at hn
    split at hn
    · rename_i ha
      cases hs : seen slice.address with
      | some old =>
        rw [ha, hs] at hn
        cases hn
        exact hseen _ _ hs
      | none =>
        rw [ha, hs] at hn
        cases hn
        rw [hs] at h
        by_cases hl : slice.bytes.length < limit
        · exact hl
        · simp [hl] at h
    · exact hseen a bytes hn
  | _ => exact hseen a bytes hn

/-- A copy was measured where it comes from, and is checked against the limit where it
    goes to. -/
theorem Contents.Measured.of_fits {limit limit' : Nat} {contents : Contents} (h : contents.Measured limit)
    (hfits : contents.fits limit' = .ok ()) : contents.Measured limit' := by
  cases contents with
  | rootSignature scope r => exact ⟨h.1, Pool.lt_limit_of_fits hfits⟩
  | _ => exact True.intro

/-- Nothing is below a limit of zero. -/
theorem Contents.Measured.not_rootSignature {contents : Contents} (h : contents.Measured 0) :
    contents.kind.isRootSignature = false := by
  cases contents with
  | rootSignature scope r => exact absurd h.2 (Nat.not_lt_zero _)
  | _ => rfl

/-! ## Inventories -/

structure Inventory.Measured (inv : Inventory) : Prop where
  limit : inv.limit ≤ maxBufferLength
  seen : ∀ a bytes, inv.seen a = some bytes → bytes.length < inv.limit
  subobjects : ∀ s ∈ inv.subobjects, s.contents.Measured inv.limit

namespace Inventory

variable {inv source : Inventory}

theorem measured_make (limit : Option Nat) : (make limit).Measured := by
  have hlimit : (make limit).limit ≤ maxBufferLength := by
    cases limit with
    | none => exact Nat.le_refl _
    | some limit => exact Nat.min_le_right _ _
  refine ⟨hlimit, ?_, ?_⟩
  · intro a bytes h
    cases limit <;> cases h
  · intro s hs
    cases limit <;> cases hs

theorem Measured.append (h : inv.Measured) (name : String) {contents : Contents} (hs : contents.Measured inv.limit) :
    (inv.append ⟨name, contents⟩).Measured := by
  refine ⟨h.limit, h.seen, ?_⟩
  intro t ht
  rcases List.mem_append.mp ht with ht | ht
  · exact h.subobjects t ht
  · rw [List.mem_singleton.mp ht]
    exact hs

theorem Measured.erase (h : inv.Measured) (name : String) : (inv.erase name).Measured :=
  ⟨h.limit, h.seen, fun s hs => h.subobjects s (List.mem_of_mem_eraseP hs)⟩

theorem Measured.of_find? (h : inv.Measured) {name : String} {s : Subobject} (hs : inv.find? name = some s) :
    s.contents.Measured inv.limit :=
  h.subobjects s (List.mem_of_find?_eq_some hs)

theorem Yields.measured {e : Edit Subobject} {reply : Reply Subobject} {inv' : Inventory} (hy : inv.Yields e reply inv')
    (h : inv.Measured) (hsource : source.Measured) (he : e.Within source.subobjects) : inv'.Measured := by
  cases hy with
  | @created name _ _ _ haccept =>
    have happend := h.append name (Spec.measured_of_accept h.limit h.seen haccept)
    exact ⟨happend.limit, Spec.length_lt_of_note h.seen haccept, happend.subobjects⟩
  | cloned _ hfits => exact h.append _ ((hsource.subobjects _ he).of_fits hfits)
  | duplicated hs _ => exact h.append _ (h.of_find? hs)
  | renamed hs _ => exact (h.erase _).append _ (h.of_find? hs)
  | removed => exact h.erase _

end Inventory

/-! ## Catalogs -/

theorem View.Copies.measured {v : View} {s : Subobject} (h : v.Copies s) {limit : Nat}
    (hs : s.contents.Measured limit) : v.Measured limit := by
  intro r hr
  obtain ⟨scope, bytes, hc, hb⟩ := h.contents_of_signature? hr
  rw [hc] at hs
  exact ⟨bytes, hb, hs.1, hs.2⟩

namespace Catalog

variable {c s : Catalog} {edits : List (Edit View)}

theorem Reachable.measured (h : Reachable c) : ∃ inv, c.Matches inv ∧ inv.Measured :=
  h.matches_with Inventory.measured_make fun _ _ _ _ _ hinv hsource he hy => hy.measured hinv hsource he

theorem Reachable.views_measured (h : Reachable c) : ∀ v ∈ c.views, v.Measured c.bufferLimit := by
  intro v hv
  obtain ⟨inv, hm, hmeasured⟩ := h.measured
  obtain ⟨sub, hsub, hcopies⟩ := hm.holds.copies_of_mem_views hv
  rw [← hm.limit]
  exact hcopies.measured (hmeasured.subobjects sub hsub)

theorem Reachable.bufferLimit_after (h : Reachable c) (hs : Sourced edits) :
    (c.after edits).bufferLimit = c.bufferLimit := by
  induction edits generalizing c with
  | nil => rfl
  | cons e es ih =>
    obtain ⟨t, hreach, hfrom⟩ := hs e List.mem_cons_self
    obtain ⟨_, -, hends⟩ := h.ends hreach hfrom
    exact (ih (.edit e h hreach hfrom) fun e' he' => hs e' (List.mem_cons_of_mem e he')).trans hends.bufferLimit_eq

theorem bufferLimit_make (limit : Option Nat) :
    (make limit).bufferLimit = min (limit.getD maxBufferLength) maxBufferLength := by
  cases limit <;> rfl

/-- A copy has the bytes of its source, under the size that was written for them. -/
theorem Holds.clone_signature {subs : List Subobject} (hc : c.Holds subs) {source w : View} {name : String}
    {done : Outcome Catalog (Reply View)} (h : c.Ends subs (.clone source name) done)
    (hw : done.result = .ok (.subobject w)) {r : RootSignature BufferSlot} (hr : source.signature? = some r) :
    ∃ slot bytes, w.signature? = some ⟨slot, r.size⟩ ∧ source.pool.buffers.resolve r.data = .ok bytes ∧
      w.pool.buffers.resolve slot = .ok bytes := by
  cases h with
  | refused _ => cases hw
  | @cloned _ sub _ payload pool hs _ _ htakes _ _ =>
    cases hw
    have hread := (hc.grow htakes.grows htakes.sound).read_enteredView name htakes.resolve
    have hcopies : ((c.withPool pool).enteredView name payload).Copies ⟨name, sub.contents⟩ := ⟨hread, hs.flags⟩
    obtain ⟨scope, bytes, hcontents, hb⟩ := hs.contents_of_signature? hr
    obtain ⟨slot, hsig, hb'⟩ := hcopies.signature?_of_contents hcontents
    exact ⟨slot, bytes, hsig, hb, hb'⟩

/-! ## Shared bytes -/

theorem Reachable.resolveSignature_eq (h : Reachable c) {name : String} {r : RootSignature BufferSlot}
    (hr : (c.find? name).bind View.signature? = some r) :
    ∃ bytes, c.pool.resolveSignature r = .ok ⟨bytes, r.size⟩ ∧ r.size.toNat = bytes.length := by
  obtain ⟨inv, hm, hmeasured⟩ := h.measured
  obtain ⟨v, hv, hsig⟩ := Option.bind_eq_some_iff.mp hr
  have hpool : v.pool = c.pool := by
    obtain ⟨_, _, _, _, rfl⟩ := hm.holds.located_of_find? hv
    rfl
  have hrel := hm.rel_find? name
  rw [hv] at hrel
  cases hs : inv.find? name with
  | none =>
    rw [hs] at hrel
    cases hrel
  | some sub =>
    rw [hs] at hrel
    cases hrel with
    | some hcopies =>
      obtain ⟨bytes, hb, hsize, -⟩ := hcopies.measured (hmeasured.of_find? hs) r hsig
      rw [hpool, BufferStore.resolve_eq_ok_iff] at hb
      exact ⟨bytes, Pool.resolveSignature_eq_ok_iff.mpr ⟨hb, rfl⟩, hsize⟩

/-- Whether bytes are shared is always told, and of shared bytes one size is written. -/
theorem Reachable.equal_of_same (h : Reachable c) (a b : String) :
    ∃ found, c.sharing a b = .ok found ∧ ∀ sharing ∈ found, sharing.same = true → sharing.equal = true := by
  cases hr : (c.find? a).bind View.signature? with
  | none => exact ⟨none, by simp only [sharing, hr]; rfl, by simp⟩
  | some r =>
    cases hs : (c.find? b).bind View.signature? with
    | none => exact ⟨none, by simp only [sharing, hr, hs]; rfl, by simp⟩
    | some s =>
      obtain ⟨x, hx, hxsize⟩ := h.resolveSignature_eq hr
      obtain ⟨y, hy, hysize⟩ := h.resolveSignature_eq hs
      refine ⟨_, by simp only [sharing, hr, hs, hx, hy]; rfl, ?_⟩
      intro found hfound hsame
      obtain rfl := Option.some.inj hfound
      -- one slot has one buffer, and buffers of no bytes are alike
      have hbytes : x = y := by
        rcases Bool.or_eq_true_iff.mp hsame with hslot | hempty
        · have hslots : r.data = s.data := of_decide_eq_true hslot
          obtain ⟨hxb, -⟩ := Pool.resolveSignature_eq_ok_iff.mp hx
          obtain ⟨hyb, -⟩ := Pool.resolveSignature_eq_ok_iff.mp hy
          rw [hslots] at hxb
          exact Option.some.inj (hxb.symm.trans hyb)
        · obtain ⟨hxe, hye⟩ := Bool.and_eq_true_iff.mp hempty
          exact (List.isEmpty_iff.mp hxe).trans (List.isEmpty_iff.mp hye).symm
      have hsizes : r.size = s.size := UInt32.toNat_inj.mp (by rw [hxsize, hysize, hbytes])
      exact decide_eq_true (by rw [hbytes, hsizes])

/-! ## A limit of zero -/

theorem Reachable.signature?_eq_none (h : Reachable c) (hz : c.bufferLimit = 0) {v : View} (hv : v ∈ c.views) :
    v.signature? = none := by
  cases hr : v.signature? with
  | none => rfl
  | some r =>
    obtain ⟨bytes, -, -, hl⟩ := h.views_measured v hv r hr
    omega

theorem Reachable.create_refused_of_zero (h : Reachable c) (hz : c.bufferLimit = 0) (name : String) (scope : Scope)
    (slice : Slice) : ∃ r, ((Edit.create name (.rootSignature scope slice)).call.run c).result = .error r := by
  obtain ⟨inv, hm, hmeasured⟩ := h.measured
  have hends := hm.holds.ends_create name (.rootSignature scope slice)
  generalize (Edit.create name (.rootSignature scope slice)).call.run c = done at hends ⊢
  cases hends with
  | refused _ => exact ⟨_, rfl⟩
  | created _ haccept _ _ _ =>
    rw [← hm.limit, ← hm.seen] at haccept
    have hsmall := Spec.measured_of_accept hmeasured.limit hmeasured.seen haccept
    rw [hm.limit, hz] at hsmall
    have hkind := hsmall.not_rootSignature
    rw [(Spec.alike_of_accept haccept).1] at hkind
    cases hkind

theorem Reachable.clone_refused_of_zero (h : Reachable c) (hs : Reachable s) (hz : c.bufferLimit = 0) {source : View}
    (hsource : source ∈ s.views) (hsig : source.signature?.isSome) (name : String) :
    ∃ r, ((Edit.clone source name).call.run c).result = .error r := by
  obtain ⟨r, hr⟩ := Option.isSome_iff_exists.mp hsig
  have hfrom : (Edit.clone source name).From s := hsource
  obtain ⟨subs, hholds, hends⟩ := h.ends hs hfrom
  have hnext : Reachable ((Edit.clone source name).call.run c).state := .edit _ h hs hfrom
  have hlimit := hends.bufferLimit_eq.trans hz
  cases hresult : ((Edit.clone source name).call.run c).result with
  | error r => exact ⟨r, rfl⟩
  | ok reply =>
    cases reply with
    | subobject w =>
      obtain ⟨slot, bytes, hw, -, -⟩ := hholds.clone_signature hends hresult hr
      rw [hnext.signature?_eq_none hlimit (hends.mem_views hholds hresult)] at hw
      cases hw
    | removed found =>
      generalize (Edit.clone source name).call.run c = done at hends hresult
      cases hends <;> cases hresult

/-! ## Runs -/

/-- However long a run is and wherever its clones come from: every root signature that the
    catalog has, and every one that an edit then hands back, has a size that is the length
    of its bytes and below the limit. The limit is the one asked for or the greatest size,
    whichever is less, and no edit changes it. A copy keeps the size that its source has,
    and where the limit is zero no root signature gets in. -/
theorem sizes_are_lengths (limit : Option Nat) (hs : Sourced edits) :
    let c := (make limit).after edits
    c.bufferLimit = min (limit.getD maxBufferLength) (UInt32.size - 1) ∧ (∀ v ∈ c.views, v.Measured c.bufferLimit) ∧
      (∀ (s : Catalog) (e : Edit View) (w : View), Reachable s → e.From s →
        (e.call.run c).result = .ok (.subobject w) → w ∈ (e.call.run c).state.views ∧
          (e.call.run c).state.bufferLimit = c.bufferLimit ∧ w.Measured c.bufferLimit) ∧
      (∀ (s : Catalog) (source w : View) (name : String) (r : RootSignature BufferSlot), Reachable s →
        source ∈ s.views → ((Edit.clone source name).call.run c).result = .ok (.subobject w) →
          source.signature? = some r → ∃ slot bytes,
            w.signature? = some ⟨slot, r.size⟩ ∧ source.pool.buffers.resolve r.data = .ok bytes ∧
              w.pool.buffers.resolve slot = .ok bytes ∧ r.size.toNat = bytes.length) ∧
      (limit = some 0 → (∀ v ∈ c.views, v.signature? = none) ∧
        (∀ name scope slice, ∃ r,
          ((Edit.create name (.rootSignature scope slice)).call.run c).result = .error r) ∧
        ∀ (s : Catalog) (source : View) (name : String), Reachable s → source ∈ s.views →
          source.signature?.isSome → ∃ r, ((Edit.clone source name).call.run c).result = .error r) := by
  intro c
  have hc : Reachable c := (Reachable.make limit).after hs
  have hlimit : c.bufferLimit = min (limit.getD maxBufferLength) maxBufferLength :=
    ((Reachable.make limit).bufferLimit_after hs).trans (bufferLimit_make limit)
  refine ⟨hlimit, hc.views_measured, ?_, ?_, ?_⟩
  · intro s e w hreach hfrom hw
    obtain ⟨subs, hholds, hends⟩ := hc.ends hreach hfrom
    have hmem := hends.mem_views hholds hw
    have hnext : Reachable (e.call.run c).state := .edit e hc hreach hfrom
    refine ⟨hmem, hends.bufferLimit_eq, ?_⟩
    rw [← hends.bufferLimit_eq]
    exact hnext.views_measured w hmem
  · intro s source w name r hreach hsource hw hr
    have hfrom : (Edit.clone source name).From s := hsource
    obtain ⟨subs, hholds, hends⟩ := hc.ends hreach hfrom
    obtain ⟨slot, bytes, hsig, hb, hb'⟩ := hholds.clone_signature hends hw hr
    obtain ⟨bytes', hb'', hsize, -⟩ := hreach.views_measured source hsource r hr
    obtain rfl := Except.ok.inj (hb.symm.trans hb'')
    exact ⟨slot, bytes, hsig, hb, hb', hsize⟩
  · intro hz
    have hzero : c.bufferLimit = 0 := by rw [hlimit, hz]; rfl
    exact ⟨fun v hv => hc.signature?_eq_none hzero hv, hc.create_refused_of_zero hzero,
      fun s source name hreach hsource hsig => hc.clone_refused_of_zero hreach hzero hsource hsig name⟩

/-- Three bytes, copied from a catalog with a limit of 5 to one with the greatest limit, and
    from there to one that just takes them. -/
theorem size_of_copied_copy :
    let r : Entry := ⟨⟨0⟩, .rootSignature .globalScope ⟨⟨0⟩, 3⟩⟩
    let s := (make (some 5)).after [.create "rs" (.rootSignature .globalScope ⟨64, [1, 2, 3]⟩)]
    let t := (make none).after [.clone (s.view r) "copy"]
    let edits := [.clone (t.view r) "again", .duplicate "again" "more", .rename "again" "last"]
    let c := (make (some 4)).after edits
    Sourced edits ∧ c.views.map View.signature? = [some ⟨⟨0⟩, 3⟩, some ⟨⟨0⟩, 3⟩] ∧ ∀ v ∈ c.views, v.Measured 4 := by
  intro r s t edits c
  have hs : Reachable s := .edit _ (.make (some 5)) (.make none) True.intro
  have ht : Reachable t := .edit (.clone (s.view r) "copy") (.make none) hs (List.mem_singleton.mpr rfl)
  have hedits : Sourced edits := by
    refine sourced_of_clones ?_
    intro v name h
    obtain ⟨rfl, -⟩ : v = t.view r ∧ name = "again" := by simpa [edits] using h
    exact ⟨t, ht, List.mem_singleton.mpr rfl⟩
  obtain ⟨hlimit, hviews, -⟩ := sizes_are_lengths (some 4) hedits
  have hfour : c.bufferLimit = 4 := hlimit
  exact ⟨hedits, by decide +kernel, hfour ▸ hviews⟩

end Catalog

end StateObject
