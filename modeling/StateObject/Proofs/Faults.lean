/-
  StateObject.Proofs.Faults — what edits are refused for, and for nothing else.

  `Fault` lists the faults of an edit, in terms of the names that subobjects have, the
  slices taken so far and the limit. Its cases exclude each other, so the order in which
  the checks are made can be told from them: a taken name comes before what is wrong with
  the payload, and an unknown source before a taken name.

  - `ConfigFlags.testBit_unknownBits`: the bits that are reported are those which no flag
    defines.
  - `Matches.refused_iff`: a catalog refuses for what `Refuses` allows, no less and no more.
  - `refuses_iff_fault`: that is the faults.
  - `refused_exactly_for_faults`: so it is after every run.
-/

import StateObject.Proofs.FirstSlices

namespace StateObject

/-- What is wrong with an edit of a catalog whose subobjects have the `names`, which took
    the `slices`, and which has the `limit`. -/
inductive Fault (names : List String) (slices : List Slice) (limit : Nat) : Edit View → Refusal → Prop
  | createTaken {name : String} {spec : Spec} : name ∈ names →
      Fault names slices limit (.create name spec) (.nameCollision name)
  /-- The bits that no flag defines, and there are some. -/
  | createFlags {name : String} {raw unknown : UInt32} : name ∉ names → unknown ≠ 0 →
      (∀ i, unknown.toNat.testBit i = (raw.toNat.testBit i && !ConfigFlags.defined.bits.toNat.testBit i)) →
      Fault names slices limit (.create name (.stateObjectConfig raw)) (.invalidFlags raw unknown)
  /-- A known address is never too long. -/
  | createLong {name : String} {scope : Scope} {slice : Slice} : name ∉ names →
      (∀ earlier ∈ slices, earlier.address ≠ slice.address) → limit ≤ slice.bytes.length →
      Fault names slices limit (.create name (.rootSignature scope slice)) (.sizeExceeded slice.bytes.length limit)
  | cloneTaken {source : View} {name : String} : name ∈ names →
      Fault names slices limit (.clone source name) (.nameCollision name)
  /-- The limit is that of the catalog that the copy would go to. -/
  | cloneLong {source : View} {name : String} {r : RootSignature BufferSlot} {bytes : Bytes} : name ∉ names →
      source.signature? = some r → source.pool.buffers.resolve r.data = .ok bytes → limit ≤ bytes.length →
      Fault names slices limit (.clone source name) (.sizeExceeded bytes.length limit)
  | duplicateUnknown {source name : String} : source ∉ names →
      Fault names slices limit (.duplicate source name) (.unknownSubobject source)
  | duplicateTaken {source name : String} : source ∈ names → name ∈ names →
      Fault names slices limit (.duplicate source name) (.nameCollision name)
  | renameUnknown {source name : String} : source ∉ names →
      Fault names slices limit (.rename source name) (.unknownSubobject source)
  | renameTaken {source name : String} : source ∈ names → name ∈ names →
      Fault names slices limit (.rename source name) (.nameCollision name)

/-! ## Payloads -/

theorem ConfigFlags.testBit_unknownBits (raw : UInt32) (i : Nat) :
    (unknownBits raw).toNat.testBit i = (raw.toNat.testBit i && !defined.bits.toNat.testBit i) := by
  have hnot : (~~~defined.bits).toNat.testBit i = (decide (i < 32) && !defined.bits.toNat.testBit i) := by
    rw [← UInt32.toNat_toBitVec, ← UInt32.toNat_toBitVec, ← BitVec.getLsbD, ← BitVec.getLsbD, UInt32.toBitVec_not,
      BitVec.getLsbD_not]
  rw [unknownBits, UInt32.toNat_and, Nat.testBit_and, hnot]
  by_cases hi : i < 32
  · simp [hi]
  · have hraw : raw.toNat.testBit i = false :=
      Nat.testBit_lt_two_pow (Nat.lt_of_lt_of_le raw.toNat_lt (Nat.pow_le_pow_right (by decide) (by omega)))
    simp [hraw]

theorem ConfigFlags.eq_unknownBits {raw unknown : UInt32}
    (h : ∀ i, unknown.toNat.testBit i = (raw.toNat.testBit i && !defined.bits.toNat.testBit i)) :
    unknown = unknownBits raw := by
  refine UInt32.toNat_inj.mp (Nat.eq_of_testBit_eq fun i => ?_)
  rw [h, testBit_unknownBits]

theorem Spec.accept_eq_error_iff {limit : Nat} {seen : Nat → Option Bytes} {spec : Spec} {r : Refusal} :
    spec.accept limit seen = .error r ↔
      (∃ raw, spec = .stateObjectConfig raw ∧ ConfigFlags.unknownBits raw ≠ 0 ∧
        r = .invalidFlags raw (ConfigFlags.unknownBits raw)) ∨
      ∃ scope slice, spec = .rootSignature scope slice ∧ seen slice.address = none ∧ limit ≤ slice.bytes.length ∧
        r = .sizeExceeded slice.bytes.length limit := by
  cases spec with
  | stateObjectConfig raw =>
    by_cases hraw : ConfigFlags.unknownBits raw = 0
    · simp [accept, ConfigFlags.ofBits?, hraw]
    · simp [accept, ConfigFlags.ofBits?, hraw, eq_comm (a := r)]
  | rootSignature scope slice =>
    cases hseen : seen slice.address with
    | some bytes => simp [accept, hseen]
    | none =>
      by_cases hl : slice.bytes.length < limit
      · simp [accept, hseen, hl, Nat.not_le_of_lt hl]
      · simp [accept, hseen, hl, Nat.le_of_not_lt hl, eq_comm (a := r)]
  | _ => simp [accept]

theorem Contents.fits_eq_error_iff {limit : Nat} {contents : Contents} {r : Refusal} :
    contents.fits limit = .error r ↔
      ∃ scope sig, contents = .rootSignature scope sig ∧ limit ≤ sig.data.length ∧
        r = .sizeExceeded sig.data.length limit := by
  cases contents with
  | rootSignature scope sig =>
    by_cases hl : sig.data.length < limit
    · simp [fits, hl, Nat.not_le_of_lt hl]
    · simp [fits, hl, Nat.le_of_not_lt hl, eq_comm (a := r)]
  | _ => simp [fits]

namespace Catalog

variable {c s : Catalog} {inv : Inventory}

/-! ## One edit -/

/-- What a catalog refuses for, it refuses, and it refuses for nothing else. -/
theorem Matches.refused_iff (h : c.Matches inv) {e : Edit View} {e' : Edit Subobject} (he : e.Related View.Copies e')
    {r : Refusal} : (e.call.run c).result = .error r ↔ c.Refuses inv.subobjects e r := by
  constructor
  · intro hr
    have hends := h.holds.ends he
    generalize e.call.run c = done at hends hr
    cases hends with
    | refused hrefuses =>
      cases hr
      exact hrefuses
    | _ => cases hr
  · intro hrefuses
    have hagrees := h.edit he
    rw [h.edit_refused he hrefuses] at hagrees
    rw [show e.call.run c = _ from hagrees]

theorem find?_isSome_iff_mem_names {subs : List Subobject} {name : String} :
    (subs.find? (·.name = name)).isSome ↔ name ∈ subs.map (·.name) := by
  simp [List.find?_isSome]

theorem find?_eq_none_iff_not_mem_names {subs : List Subobject} {name : String} :
    subs.find? (·.name = name) = none ↔ name ∉ subs.map (·.name) := by
  simp

theorem refuses_iff_fault {subs : List Subobject} {slices : List Slice}
    (hseen : ∀ a, c.pool.buffers.bytesAt? a = (firstFrom? slices a).map (·.bytes)) {e : Edit View}
    {e' : Edit Subobject} (he : e.Related View.Copies e') {r : Refusal} :
    c.Refuses subs e r ↔ Fault (subs.map (·.name)) slices c.bufferLimit e r := by
  have hnew : ∀ a, c.pool.buffers.bytesAt? a = none ↔ ∀ slice ∈ slices, slice.address ≠ a := by
    intro a
    rw [hseen, Option.map_eq_none_iff, firstFrom?_eq_none_iff]
  constructor
  · intro hr
    cases hr with
    | createTaken hn => exact .createTaken (find?_isSome_iff_mem_names.mp hn)
    | createBad hn haccept =>
      have hn := find?_eq_none_iff_not_mem_names.mp hn
      rcases Spec.accept_eq_error_iff.mp haccept with ⟨raw, rfl, hraw, rfl⟩ | ⟨scope, slice, rfl, ha, hl, rfl⟩
      · exact .createFlags hn hraw (ConfigFlags.testBit_unknownBits raw)
      · exact .createLong hn ((hnew _).mp ha) hl
    | cloneTaken hn => exact .cloneTaken (find?_isSome_iff_mem_names.mp hn)
    | cloneLong hs hn hfits =>
      obtain ⟨scope, sig, hcontents, hl, rfl⟩ := Contents.fits_eq_error_iff.mp hfits
      obtain ⟨slot, hsig, hb⟩ := hs.signature?_of_contents hcontents
      exact .cloneLong (find?_eq_none_iff_not_mem_names.mp hn) hsig hb hl
    | duplicateUnknown hs => exact .duplicateUnknown (find?_eq_none_iff_not_mem_names.mp hs)
    | duplicateTaken hs hn =>
      exact .duplicateTaken (find?_isSome_iff_mem_names.mp (by rw [hs]; rfl)) (find?_isSome_iff_mem_names.mp hn)
    | renameUnknown hs => exact .renameUnknown (find?_eq_none_iff_not_mem_names.mp hs)
    | renameTaken hs hn =>
      exact .renameTaken (find?_isSome_iff_mem_names.mp (by rw [hs]; rfl)) (find?_isSome_iff_mem_names.mp hn)
  · intro hf
    cases hf with
    | createTaken hn => exact .createTaken (find?_isSome_iff_mem_names.mpr hn)
    | createFlags hn hne hbits =>
      obtain rfl := ConfigFlags.eq_unknownBits hbits
      refine .createBad (find?_eq_none_iff_not_mem_names.mpr hn) ?_
      exact Spec.accept_eq_error_iff.mpr (.inl ⟨_, rfl, hne, rfl⟩)
    | createLong hn ha hl =>
      refine .createBad (find?_eq_none_iff_not_mem_names.mpr hn) ?_
      exact Spec.accept_eq_error_iff.mpr (.inr ⟨_, _, rfl, (hnew _).mpr ha, hl, rfl⟩)
    | cloneTaken hn => exact .cloneTaken (find?_isSome_iff_mem_names.mpr hn)
    | cloneLong hn hsig hb hl =>
      cases he with
      | clone _ hs =>
        obtain ⟨scope, bytes, hcontents, hb'⟩ := hs.contents_of_signature? hsig
        obtain rfl := Except.ok.inj (hb.symm.trans hb')
        refine .cloneLong hs (find?_eq_none_iff_not_mem_names.mpr hn) ?_
        exact Contents.fits_eq_error_iff.mpr ⟨_, _, hcontents, hl, rfl⟩
    | duplicateUnknown hs => exact .duplicateUnknown (find?_eq_none_iff_not_mem_names.mpr hs)
    | duplicateTaken hs hn =>
      obtain ⟨sub, hsub⟩ := Option.isSome_iff_exists.mp (find?_isSome_iff_mem_names.mpr hs)
      exact .duplicateTaken hsub (find?_isSome_iff_mem_names.mpr hn)
    | renameUnknown hs => exact .renameUnknown (find?_eq_none_iff_not_mem_names.mpr hs)
    | renameTaken hs hn =>
      obtain ⟨sub, hsub⟩ := Option.isSome_iff_exists.mp (find?_isSome_iff_mem_names.mpr hs)
      exact .renameTaken hsub (find?_isSome_iff_mem_names.mpr hn)

/-! ## Runs -/

/-- After every run an edit is refused for its fault, in the words of the fault, and for
    nothing else. A name is taken exactly when it is that of a subobject: that a string was
    seen, as a target, as an export, as a stage or as a name that was given up, makes no
    fault. An address is known exactly when a slice from it was taken. -/
theorem refused_exactly_for_faults (limit : Option Nat) {edits : List (Edit View)} (hs : Sourced edits) :
    let c := (make limit).after edits
    ∃ names, c.names = .ok names ∧ (∀ name, c.contains name = true ↔ name ∈ names) ∧
      (∀ name, (c.find? name).isSome ↔ name ∈ names) ∧
      ∀ (s : Catalog) (e : Edit View) (r : Refusal), Reachable s → e.From s →
        ((e.call.run c).result = .error r ↔ Fault names ((make limit).slices edits) c.bufferLimit e r) := by
  intro c
  have hc : Reachable c := (Reachable.make limit).after hs
  obtain ⟨inv, hm⟩ := hc.matches
  have hcontains : ∀ name, c.contains name = true ↔ name ∈ inv.subobjects.map (·.name) := by
    intro name
    rw [hm.contains_eq]
    exact find?_isSome_iff_mem_names
  refine ⟨_, hm.holds.names_eq, hcontains, ?_, ?_⟩
  · intro name
    rw [← hcontains, Catalog.find?, contains]
    rcases hm.holds.lookup name with ⟨k, entry, sub, hl⟩ | ⟨hk, -⟩
    · simp [hl.symbol, hl.kept]
    · simp [hk]
  · intro s e r hreach hfrom
    obtain ⟨_, hm'⟩ := hreach.matches
    obtain ⟨_, hrel, -⟩ := hm'.related_of_from hfrom
    rw [hm.refused_iff hrel]
    exact refuses_iff_fault (bytesAt?_after_make limit hs) hrel

/-- The name "hit" was an export and is that of no subobject. The address 64 is known, though
    what was taken from it is out again, so four bytes from it are not too long, and three
    from elsewhere are. -/
theorem faults_after_a_removal :
    let edits := [.create "rays" (.association ⟨"lights", ["hit"]⟩),
      .create "rs" (.rootSignature .globalScope ⟨64, [1, 2]⟩), .remove "rs"]
    let c := (make (some 3)).after edits
    let known := Edit.create "hit" (.rootSignature .localScope ⟨64, [1, 2, 3, 4]⟩)
    let unknown := Edit.create "hit" (.rootSignature .localScope ⟨128, [1, 2, 3]⟩)
    Sourced edits ∧ c.names = .ok ["rays"] ∧ c.pool.symbols.find? "hit" = some ⟨1⟩ ∧
      (unknown.call.run c).result = .error (.sizeExceeded 3 3) ∧ (∀ r, (known.call.run c).result ≠ .error r) ∧
      ((Edit.rename "rs" "rays").call.run c).result = .error (.unknownSubobject "rs") := by
  intro edits c known unknown
  have hs : Sourced edits := sourced_of_clones (by simp [edits])
  have hnames : c.names = .ok ["rays"] := by decide +kernel
  have hslices : (make (some 3)).slices edits = [⟨64, [1, 2]⟩] := by decide +kernel
  obtain ⟨names, hnames', -, -, hfault⟩ := refused_exactly_for_faults (some 3) hs
  obtain rfl : ["rays"] = names := Except.ok.inj (hnames.symm.trans hnames')
  rw [hslices] at hfault
  refine ⟨hs, hnames, by decide +kernel, ?_, ?_, ?_⟩
  · exact (hfault (make none) unknown _ (.make none) True.intro).mpr (.createLong (by decide) (by decide) (by decide))
  · intro r hr
    have hf : Fault ["rays"] [⟨64, [1, 2]⟩] c.bufferLimit
        (.create "hit" (.rootSignature .localScope ⟨64, [1, 2, 3, 4]⟩)) r :=
      (hfault (make none) known r (.make none) True.intro).mp hr
    cases hf with
    | createTaken hn => exact absurd hn (by decide)
    | createLong _ ha _ => exact ha ⟨64, [1, 2]⟩ List.mem_cons_self rfl
  · exact (hfault (make none) (.rename "rs" "rays") _ (.make none) True.intro).mpr (.renameUnknown (by decide))

end Catalog

end StateObject
