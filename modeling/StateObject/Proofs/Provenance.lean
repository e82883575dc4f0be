/-
  StateObject.Proofs.Provenance — where the bytes of a root signature come from.

  A ledger is kept beside a run of edits. It gives each root signature a provenance: the
  address that it was made from, or the number of the clone that brought it in. It knows
  nothing of slots.

  - `Tracks`: the buffers are the provenances that were introduced, in order, and a root
    signature has the slot at which its provenance stands. An edit keeps this
    (`Tracks.edit`), and so does a run (`Reachable.tracks_after`).
  - `introduced_prefix`: a run only adds to what was introduced, so that a slot has one
    provenance for good, whether or not a subobject still has it.
  - `Tracks.slot_eq_iff`: at any two times of a run, root signatures have one slot exactly
    when they have one provenance.
  - `provenance_decides_slots`: what this means for the sharing, the number and the reuse
    of buffers.
-/

import Mathlib.Data.List.Nodup
import StateObject.Proofs.Simulation

namespace StateObject

/-- Where the bytes of a root signature come from. -/
inductive Provenance where
  /-- A caller's slice at the address. -/
  | address (a : Nat)
  /-- The clone of a root signature that is the `k`th of the catalog. -/
  | clone (k : Nat)
  deriving DecidableEq

structure Ledger where
  /-- The provenance of each root signature, by name. -/
  origin : String → Option Provenance := fun _ => none
  /-- How many root signatures were cloned into the catalog. -/
  clones : Nat := 0
  /-- Every provenance there ever was, once, in the order of the first sight. -/
  introduced : List Provenance := []

namespace Ledger

def assign (l : Ledger) (name : String) (p : Option Provenance) : Ledger :=
  { l with origin := fun x => if x = name then p else l.origin x }

def extend (l : Ledger) (p : Provenance) : Ledger :=
  { l with introduced := if p ∈ l.introduced then l.introduced else l.introduced ++ [p] }

def introduce (l : Ledger) (name : String) (p : Provenance) : Ledger := (l.extend p).assign name (some p)

/-- The ledger after an edit that was not refused. -/
def note (l : Ledger) : Edit View → Ledger
  | .create name (.rootSignature _ slice) => l.introduce name (.address slice.address)
  | .create name _ => l.assign name none
  | .clone source name =>
    if source.kind.isRootSignature then { l with clones := l.clones + 1 }.introduce name (.clone (l.clones + 1))
    else l.assign name none
  | .duplicate source name => l.assign name (l.origin source)
  | .rename source name => (l.assign source none).assign name (l.origin source)
  | .remove name => l.assign name none

def record (l : Ledger) (e : Edit View) : Except Refusal (Reply View) → Ledger
  | .ok _ => l.note e
  | .error _ => l

/-- The ledger after a run of edits of the catalog. -/
def after (l : Ledger) (c : Catalog) : List (Edit View) → Ledger
  | [] => l
  | e :: es => (l.record e (e.call.run c).result).after (e.call.run c).state es

/-- The provenance of a slot. -/
def Stands (l : Ledger) (slot : BufferSlot) (p : Provenance) : Prop := l.introduced[slot.index]? = some p

theorem origin_assign (l : Ledger) (name : String) (p : Option Provenance) (x : String) :
    (l.assign name p).origin x = if x = name then p else l.origin x := rfl

theorem mem_extend (l : Ledger) (p : Provenance) : p ∈ (l.extend p).introduced := by
  unfold extend
  by_cases hp : p ∈ l.introduced <;> simp [hp]

/-- Different slots have different provenances. -/
theorem Stands.slot_unique {l : Ledger} {j k : BufferSlot} {p : Provenance} (hj : l.Stands j p) (hk : l.Stands k p)
    (hd : l.introduced.Nodup) : j = k := by
  have hlt : j.index < l.introduced.length := (List.getElem?_eq_some_iff.mp hj).1
  exact Slot.ext ((List.getElem?_inj hlt hd).mp (hj.trans hk.symm))

theorem Stands.unique {l : Ledger} {k : BufferSlot} {p q : Provenance} (hp : l.Stands k p) (hq : l.Stands k q) :
    p = q :=
  Option.some.inj (hp.symm.trans hq)

theorem Stands.mono {l l' : Ledger} {k : BufferSlot} {p : Provenance} (h : l.Stands k p)
    (hle : l.introduced <+: l'.introduced) : l'.Stands k p := by
  obtain ⟨new, hnew⟩ := hle
  have hlt : k.index < l.introduced.length := (List.getElem?_eq_some_iff.mp h).1
  rw [Stands, ← hnew, List.getElem?_append_left hlt]
  exact h

theorem stands_extend {l : Ledger} {p : Provenance} (hp : p ∉ l.introduced) :
    (l.extend p).Stands ⟨l.introduced.length⟩ p := by
  rw [Stands, extend, if_neg hp]
  exact List.getElem?_concat_length

theorem after_append (l : Ledger) (c : Catalog) (before rest : List (Edit View)) :
    l.after c (before ++ rest) = (l.after c before).after (c.after before) rest := by
  induction before generalizing l c with
  | nil => rfl
  | cons e es ih => exact ih _ _

/-! ## What was introduced stays -/

theorem prefix_extend (l : Ledger) (p : Provenance) : l.introduced <+: (l.extend p).introduced := by
  unfold extend
  by_cases hp : p ∈ l.introduced
  · simp [hp]
  · simp [hp]

theorem prefix_note (l : Ledger) (e : Edit View) : l.introduced <+: (l.note e).introduced := by
  cases e with
  | create name spec =>
    cases spec with
    | rootSignature scope slice => exact l.prefix_extend _
    | _ => exact List.prefix_rfl
  | clone source name =>
    rw [note]
    split
    · exact prefix_extend { l with clones := l.clones + 1 } _
    · exact List.prefix_rfl
  | _ => exact List.prefix_rfl

theorem introduced_prefix (l : Ledger) (c : Catalog) (edits : List (Edit View)) :
    l.introduced <+: (l.after c edits).introduced := by
  induction edits generalizing l c with
  | nil => exact List.prefix_rfl
  | cons e es ih =>
    have hstep : l.introduced <+: (l.record e (e.call.run c).result).introduced := by
      cases (e.call.run c).result with
      | ok v => exact l.prefix_note e
      | error r => exact List.prefix_rfl
    exact hstep.trans (ih _ _)

end Ledger

namespace Catalog

/-- The slot of the root signature of a name, if it is one. -/
def slotOf? (c : Catalog) (name : String) : Option BufferSlot := (c.entryOf? name).bind (·.payload.slot?)

/-- The ledger accounts for every buffer and every root signature of the catalog. -/
structure Tracks (c : Catalog) (l : Ledger) : Prop where
  size : c.pool.buffers.size = l.introduced.length
  distinct : l.introduced.Nodup
  addresses : ∀ a i : Nat, c.pool.buffers.origins[a]? = some i ↔ l.introduced[i]? = some (.address a)
  numbers : ∀ k, .clone k ∈ l.introduced → k ≤ l.clones
  slots : ∀ name, Option.Rel l.Stands (c.slotOf? name) (l.origin name)

variable {c s : Catalog} {subs : List Subobject} {l : Ledger}

theorem tracks_make (limit : Option Nat) : (make limit).Tracks {} := by
  have hpool : (make limit).pool.buffers.copies = #[] ∧ (make limit).pool.buffers.origins = ∅ ∧
      (make limit).pool.symbols = {} := by
    cases limit with
    | none => exact ⟨rfl, rfl, rfl⟩
    | some limit => exact ⟨rfl, rfl, rfl⟩
  obtain ⟨hcopies, horigins, hsymbols⟩ := hpool
  refine ⟨by simp [BufferStore.size, hcopies], List.nodup_nil, ?_, ?_, ?_⟩
  · intro a i
    simp [horigins]
  · intro k hk
    cases hk
  · intro name
    have hslot : (make limit).slotOf? name = none := by
      rw [slotOf?, entryOf?_eq, hsymbols]
      simp [SymbolTable.find?]
    rw [hslot]
    exact .none

theorem slotOf?_withPool (hc : c.Holds subs) {pool : Pool} (hgrows : c.pool.Grows pool) (hsound : pool.Sound)
    (name : String) : (c.withPool pool).slotOf? name = c.slotOf? name := by
  rw [slotOf?, hc.entryOf?_withPool hgrows hsound, slotOf?]

/-! ## A buffer more -/

theorem Tracks.find?_eq_some_iff (h : c.Tracks l) {slice : Slice} {k : BufferSlot} :
    c.pool.buffers.find? slice = some k ↔ l.Stands k (.address slice.address) := by
  rw [BufferStore.find?_eq_some_iff, h.addresses, Ledger.Stands]

theorem Tracks.not_mem_of_find?_eq_none (h : c.Tracks l) {slice : Slice} (hk : c.pool.buffers.find? slice = none) :
    .address slice.address ∉ l.introduced := by
  intro hmem
  obtain ⟨i, hi⟩ := List.mem_iff_getElem?.mp hmem
  have hfound : c.pool.buffers.find? slice = some ⟨i⟩ := h.find?_eq_some_iff.mpr hi
  rw [hk] at hfound
  cases hfound

/-- A pool with the same buffers has nothing new to account for. -/
theorem Tracks.withPool (h : c.Tracks l) (hc : c.Holds subs) {pool : Pool} (hgrows : c.pool.Grows pool)
    (hsound : pool.Sound) (hb : pool.buffers = c.pool.buffers) : (c.withPool pool).Tracks l := by
  refine ⟨?_, h.distinct, ?_, h.numbers, ?_⟩
  · show pool.buffers.size = _
    rw [hb]
    exact h.size
  · show ∀ a i : Nat, pool.buffers.origins[a]? = some i ↔ _
    rw [hb]
    exact h.addresses
  · intro name
    rw [slotOf?_withPool hc hgrows hsound]
    exact h.slots name

/-- A buffer at the end, and its provenance at the end. If that is an address, slices
    from there have the buffer from now on. -/
theorem Tracks.append (h : c.Tracks l) (hc : c.Holds subs) {pool : Pool} (hgrows : c.pool.Grows pool)
    (hsound : pool.Sound) {p : Provenance} {n : Nat} (hp : p ∉ l.introduced) (hn : l.clones ≤ n)
    (hpn : ∀ k, p = .clone k → k ≤ n) (hsize : pool.buffers.size = c.pool.buffers.size + 1)
    (horigins : ∀ a : Nat, pool.buffers.origins[a]? =
      if p = .address a then some c.pool.buffers.size else c.pool.buffers.origins[a]?) :
    (c.withPool pool).Tracks ({ l with clones := n }.extend p) := by
  have hext : ({ l with clones := n }.extend p).introduced = l.introduced ++ [p] := if_neg hp
  refine ⟨?_, ?_, ?_, ?_, ?_⟩
  · show pool.buffers.size = _
    rw [hext, hsize, h.size, List.length_append]
    rfl
  · rw [hext, ← List.concat_eq_append]
    exact List.Nodup.concat hp h.distinct
  · intro a i
    show pool.buffers.origins[a]? = some i ↔ _
    have hold := h.addresses a i
    rw [hext, horigins, getElem?_concat_eq_some_iff, ← h.size]
    by_cases ha : p = .address a
    · have hnot : l.introduced[i]? ≠ some (.address a) := fun e => hp (ha ▸ List.mem_of_getElem? e)
      simp only [ha, if_true, Option.some.injEq, hnot, false_or, and_true, eq_comm]
    · simp only [ha, if_false, hold, and_false, or_false]
  · intro k hmem
    rw [hext] at hmem
    rcases List.mem_append.mp hmem with hmem | hmem
    · exact Nat.le_trans (h.numbers k hmem) hn
    · exact hpn k (List.mem_singleton.mp hmem).symm
  · intro name
    rw [slotOf?_withPool hc hgrows hsound]
    refine rel_imp ?_ (h.slots name)
    intro slot q hq
    rw [Ledger.Stands, hext]
    exact getElem?_concat_eq_some_iff.mpr (.inl hq)

/-! ## An entry more, an entry less -/

/-- The name has another slot from now on, or none, and a provenance that fits. -/
theorem Tracks.assign (h : c.Tracks l) {c' : Catalog} (hb : c'.pool.buffers = c.pool.buffers) {name : String}
    {slot : Option BufferSlot} (hslots : ∀ x, c'.slotOf? x = if x = name then slot else c.slotOf? x)
    {p : Option Provenance} (hp : Option.Rel l.Stands slot p) : c'.Tracks (l.assign name p) := by
  refine ⟨?_, h.distinct, ?_, h.numbers, ?_⟩
  · rw [hb]
    exact h.size
  · rw [hb]
    exact h.addresses
  · intro x
    show Option.Rel l.Stands _ _
    rw [hslots, Ledger.origin_assign]
    by_cases hx : x = name
    · rw [if_pos hx, if_pos hx]
      exact hp
    · rw [if_neg hx, if_neg hx]
      exact h.slots x

theorem Tracks.entered (h : c.Tracks l) (hc : c.Holds subs) (name : String) {payload : Stored} {p : Option Provenance}
    (hp : Option.Rel l.Stands payload.slot? p) : (c.entered name payload).Tracks (l.assign name p) := by
  have hb : (c.entered name payload).pool.buffers = c.pool.buffers := rfl
  refine h.assign hb ?_ hp
  intro x
  rw [slotOf?, hc.entryOf?_entered, slotOf?]
  by_cases hx : x = name
  · rw [if_pos hx, if_pos hx]
    rfl
  · rw [if_neg hx, if_neg hx]

theorem Tracks.without (h : c.Tracks l) (hc : c.Holds subs) {name : String} {k : Symbol}
    (hk : c.pool.symbols.find? name = some k) : (c.without k).Tracks (l.assign name none) := by
  have hb : (c.without k).pool.buffers = c.pool.buffers := rfl
  refine h.assign hb ?_ .none
  intro x
  rw [slotOf?, hc.entryOf?_without hk, slotOf?]
  by_cases hx : x = name
  · rw [if_pos hx, if_pos hx]
    rfl
  · rw [if_neg hx, if_neg hx]

/-! ## Edits -/

theorem Tracks.created (h : c.Tracks l) (hc : c.Holds subs) {name : String} {spec : Spec} {contents : Contents}
    {payload : Stored} {pool : Pool} (htakes : c.pool.Takes payload contents pool)
    (hb : pool.buffers = c.pool.buffers.noting spec) (hslot : payload.slot? = spec.slot? pool.buffers) :
    ((c.withPool pool).entered name payload).Tracks (l.note (.create name spec)) := by
  have hgrown := hc.grow htakes.grows htakes.sound
  cases spec with
  | rootSignature scope slice =>
    have htracks : (c.withPool pool).Tracks (l.extend (.address slice.address)) := by
      cases hk : c.pool.buffers.find? slice with
      | some k =>
        have hknown : l.extend (.address slice.address) = l := by
          have hmem : .address slice.address ∈ l.introduced := List.mem_of_getElem? (h.find?_eq_some_iff.mp hk)
          simp [Ledger.extend, hmem]
        rw [hknown]
        exact h.withPool hc htakes.grows htakes.sound (by simp [hb, BufferStore.noting, hk])
      | none =>
        have hb' : pool.buffers = c.pool.buffers.withSlice slice := by simp [hb, BufferStore.noting, hk]
        refine h.append hc htakes.grows htakes.sound (h.not_mem_of_find?_eq_none hk) (Nat.le_refl _)
          (fun k e => by cases e) ?_ ?_
        · rw [hb', BufferStore.size_withSlice]
        · intro a
          rw [hb', BufferStore.origins_withSlice]
          simp only [Provenance.address.injEq, eq_comm]
    obtain ⟨i, hi⟩ := List.mem_iff_getElem?.mp (l.mem_extend (.address slice.address))
    have hfound : pool.buffers.find? slice = some ⟨i⟩ := htracks.find?_eq_some_iff.mpr hi
    refine htracks.entered hgrown name ?_
    rw [hslot, Spec.slot?, hfound]
    exact .some hi
  | _ => exact (h.withPool hc htakes.grows htakes.sound hb).entered hgrown name (by rw [hslot]; exact .none)

theorem Tracks.cloned (h : c.Tracks l) (hc : c.Holds subs) {source : View} {t : Subobject} (hs : source.Copies t)
    {name : String} {payload : Stored} {pool : Pool} (htakes : c.pool.Takes payload t.contents pool)
    (hb : pool.buffers = c.pool.buffers.copying t.contents)
    (hslot : payload.slot? = source.entry.payload.slot?.map fun _ => ⟨c.pool.buffers.size⟩) :
    ((c.withPool pool).entered name payload).Tracks (l.note (.clone source name)) := by
  have hgrown := hc.grow htakes.grows htakes.sound
  have hparts := Payload.mapM_eq_ok_iff.mp hs.resolve
  have hnote : l.note (.clone source name) =
      if source.entry.payload.kind.isRootSignature then
        { l with clones := l.clones + 1 }.introduce name (.clone (l.clones + 1))
      else l.assign name none := rfl
  rw [hnote]
  generalize source.entry.payload = q at hparts hslot ⊢
  generalize t.contents = contents at hparts hb htakes
  cases hparts with
  | @rootSignature x y scope _ =>
    have hnew : .clone (l.clones + 1) ∉ l.introduced := by
      intro hmem
      have := h.numbers _ hmem
      omega
    have hsize : pool.buffers.size = c.pool.buffers.size + 1 := by
      rw [hb, BufferStore.copying, BufferStore.size_withCopy]
    -- the copy has no address, so the addresses stand for what they stood for
    have htracks := h.append hc htakes.grows htakes.sound hnew (Nat.le_succ _)
      (fun k e => by cases e; exact Nat.le_refl _) hsize (fun a => by rw [hb]; rfl)
    refine htracks.entered hgrown name ?_
    rw [hslot, h.size]
    exact .some (Ledger.stands_extend (l := { l with clones := l.clones + 1 }) hnew)
  | _ => exact (h.withPool hc htakes.grows htakes.sound hb).entered hgrown name (by rw [hslot]; exact .none)

theorem Located.slotOf?_eq {name : String} {k : Symbol} {entry : Entry} {t : Subobject}
    (hl : c.Located subs name k entry t) : c.slotOf? name = entry.payload.slot? := by
  rw [slotOf?, hl.entryOf?_eq_some]
  rfl

/-- The ledger follows every edit. -/
theorem Tracks.edit (h : c.Tracks l) (hc : c.Holds subs) {e : Edit View} {done : Outcome Catalog (Reply View)}
    (hends : c.Ends subs e done) : done.state.Tracks (l.record e done.result) := by
  cases hends with
  | refused _ => exact h
  | created _ _ htakes hb hslot => exact h.created hc htakes hb hslot
  | cloned hs _ _ htakes hb hslot => exact h.cloned hc hs htakes hb hslot
  | @duplicated source name k entry t hl _ =>
    have hslot := h.slots source
    rw [hl.slotOf?_eq] at hslot
    exact h.entered hc name hslot
  | @renamed source name k entry t hl _ =>
    have hslot := h.slots source
    rw [hl.slotOf?_eq] at hslot
    exact (h.without hc hl.find?_symbol).entered (hc.without hl) name hslot
  | removed hl => exact h.without hc hl.find?_symbol
  | @removedNone name hv =>
    refine h.assign rfl ?_ .none
    intro x
    by_cases hx : x = name
    · rw [if_pos hx, hx, slotOf?, hc.entryOf?_eq_none hv]
      rfl
    · rw [if_neg hx]

/-! ## Runs -/

theorem Reachable.tracks_after (hc : Reachable c) (h : c.Tracks l) {edits : List (Edit View)} (hs : Sourced edits) :
    (c.after edits).Tracks (l.after c edits) := by
  induction edits generalizing c l with
  | nil => exact h
  | cons e es ih =>
    obtain ⟨s, hreach, hfrom⟩ := hs e List.mem_cons_self
    obtain ⟨subs, hholds, hends⟩ := hc.ends hreach hfrom
    exact ih (.edit e hc hreach hfrom) (h.edit hholds hends) fun e' he' => hs e' (List.mem_cons_of_mem e he')

/-! ## Who shares a buffer -/

theorem Tracks.stands_of_slotOf? (h : c.Tracks l) {x : String} {k : BufferSlot} (hk : c.slotOf? x = some k) :
    ∃ p, l.origin x = some p ∧ l.Stands k p := by
  have hrel := h.slots x
  rw [hk] at hrel
  generalize l.origin x = o at hrel ⊢
  cases hrel with
  | some hp => exact ⟨_, rfl, hp⟩

theorem Tracks.isSome_origin (h : c.Tracks l) (x : String) : (l.origin x).isSome = (c.slotOf? x).isSome := by
  have hrel := h.slots x
  generalize c.slotOf? x = slot, l.origin x = o at hrel ⊢
  cases hrel with
  | none => rfl
  | some _ => rfl

/-- At two times of a run, root signatures have one slot exactly when they have one
    provenance. -/
theorem Tracks.slot_eq_iff {c' : Catalog} {l' : Ledger} (h : c.Tracks l) (h' : c'.Tracks l')
    (hle : l.introduced <+: l'.introduced) {x y : String} {j k : BufferSlot} (hj : c.slotOf? x = some j)
    (hk : c'.slotOf? y = some k) : j = k ↔ l.origin x = l'.origin y := by
  obtain ⟨p, hp, hjp⟩ := h.stands_of_slotOf? hj
  obtain ⟨q, hq, hkq⟩ := h'.stands_of_slotOf? hk
  have hjp' : l'.Stands j p := hjp.mono hle
  rw [hp, hq, Option.some.injEq]
  constructor
  · intro e
    rw [e] at hjp'
    exact hjp'.unique hkq
  · intro e
    rw [e] at hjp'
    exact hjp'.slot_unique hkq h'.distinct

/-- A slice from an address that was introduced is not stored again, whether or not a
    subobject still has the buffer. -/
theorem Tracks.reuse (h : c.Tracks l) (hc : c.Holds subs) {slice : Slice} {k : BufferSlot}
    (hk : l.Stands k (.address slice.address)) {name : String} (hv : c.contains name = false) (scope : Scope) :
    ∃ v c' log, (create name (.rootSignature scope slice)).run c = ⟨.ok v, c', log⟩ ∧ c'.slotOf? name = some k ∧
      c'.bufferCount = c.bufferCount := by
  have hfound : c.pool.buffers.find? slice = some k := h.find?_eq_some_iff.mpr hk
  obtain ⟨bytes, hbytes, -⟩ := hc.pool.buffers.resolve?_find? hfound
  have hi : (Pool.intern (.rootSignature scope slice)).run c.pool =
      ⟨.ok (.rootSignature scope { data := k, size := bytes.length.toUInt32 }), c.pool,
        [.alreadyStored slice.address k.index]⟩ :=
    Pool.run_intern_rootSignature (Pool.run_internSignature_of_some hfound hbytes)
  refine ⟨_, _, _, run_create_of_accepted hv hi, ?_, rfl⟩
  show (c.entered name _).slotOf? name = some k
  rw [slotOf?, hc.entryOf?_entered, if_pos rfl]
  rfl

/-- Of any run: root signatures and nothing else have a provenance, two of them share a
    buffer exactly when they have the same, and there are as many buffers as provenances.
    A root signature that the catalog once had is no exception: slices find its buffer
    exactly when it was made from their address, and making one from there again stores
    nothing. -/
theorem provenance_decides_slots (limit : Option Nat) {edits : List (Edit View)} (hs : Sourced edits) :
    let c := (make limit).after edits
    let l := Ledger.after {} (make limit) edits
    (∀ x, (l.origin x).isSome = (c.slotOf? x).isSome) ∧
      (∀ x y j k, c.slotOf? x = some j → c.slotOf? y = some k → (j = k ↔ l.origin x = l.origin y)) ∧
      (c.bufferCount = l.introduced.length ∧ l.introduced.Nodup) ∧
      ∀ before rest, edits = before ++ rest →
        ∀ x k slice, ((make limit).after before).slotOf? x = some k →
          (c.pool.buffers.find? slice = some k ↔
            (Ledger.after {} (make limit) before).origin x = some (.address slice.address)) ∧
          ((Ledger.after {} (make limit) before).origin x = some (.address slice.address) →
            ∀ name scope, c.contains name = false →
              ∃ v c' log, (create name (.rootSignature scope slice)).run c = ⟨.ok v, c', log⟩ ∧
                c'.slotOf? name = some k ∧ c'.bufferCount = c.bufferCount) := by
  intro c l
  have hreach : Reachable c := (Reachable.make limit).after hs
  have h : c.Tracks l := (Reachable.make limit).tracks_after (tracks_make limit) hs
  obtain ⟨inv, hm⟩ := hreach.matches
  refine ⟨h.isSome_origin, fun x y j k hj hk => h.slot_eq_iff h List.prefix_rfl hj hk, ⟨h.size, h.distinct⟩, ?_⟩
  intro before rest hedits x k slice hk
  have hbefore : Sourced before := fun e he => hs e (hedits ▸ List.mem_append_left rest he)
  have h₁ := (Reachable.make limit).tracks_after (tracks_make limit) hbefore
  have hle : (Ledger.after {} (make limit) before).introduced <+: l.introduced := by
    show _ <+: (Ledger.after {} (make limit) edits).introduced
    rw [hedits, Ledger.after_append]
    exact Ledger.introduced_prefix _ _ _
  obtain ⟨p, hp, hkp⟩ := h₁.stands_of_slotOf? hk
  have hstands : l.Stands k p := hkp.mono hle
  have hiff : c.pool.buffers.find? slice = some k ↔ p = .address slice.address := by
    rw [h.find?_eq_some_iff]
    constructor
    · intro e
      exact hstands.unique e
    · intro e
      exact e ▸ hstands
  rw [hp, Option.some.injEq]
  refine ⟨hiff, ?_⟩
  intro e name scope hv
  exact h.reuse hm.holds (e ▸ hstands) hv scope

/-- The source's address is one that the catalog knows, and yet the copy is stored apart. -/
theorem copy_stored_apart :
    let s := ((Edit.create "rs" (.rootSignature .globalScope ⟨64, [1, 2]⟩)).call.run (make none)).state
    let v := s.view ⟨⟨0⟩, .rootSignature .globalScope ⟨⟨0⟩, 2⟩⟩
    let edits := [Edit.create "own" (.rootSignature .localScope ⟨64, [3]⟩), .clone v "copy"]
    let c := (make none).after edits
    let l := Ledger.after {} (make none) edits
    Sourced edits ∧ c.slotOf? "own" = some ⟨0⟩ ∧ c.slotOf? "copy" = some ⟨1⟩ ∧
      l.origin "own" ≠ l.origin "copy" := by
  intro s v edits c l
  have hreach : Reachable s := .edit (.create "rs" _) (.make none) (.make none) True.intro
  have hs : Sourced edits := by
    intro e he
    rcases List.mem_cons.mp he with rfl | he
    · exact ⟨make none, .make none, True.intro⟩
    · rw [List.mem_singleton.mp he]
      exact ⟨s, hreach, List.mem_singleton.mpr rfl⟩
  have hown : c.slotOf? "own" = some ⟨0⟩ := rfl
  have hcopy : c.slotOf? "copy" = some ⟨1⟩ := rfl
  refine ⟨hs, hown, hcopy, ?_⟩
  intro e
  obtain ⟨-, hshared, -, -⟩ := provenance_decides_slots none hs
  cases (hshared "own" "copy" _ _ hown hcopy).mpr e

end Catalog

end StateObject
