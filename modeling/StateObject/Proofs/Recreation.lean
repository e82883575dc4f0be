/-
  StateObject.Proofs.Recreation — a copy is what making it again would have made.

  `Contents.request?` is what a caller would ask for who has read a subobject. A root
  signature cannot be asked for so: its bytes have no address.

  - `Holds.clone_sameEnd`, `Holds.duplicate_sameEnd`: a clone and a duplicate of anything
    else end as the request does, with the same result and the same state down to the
    number of every slot.
  - `Holds.clone_rootSignature`, `Holds.duplicate_rootSignature`: a cloned root signature
    brings in one buffer, which has no address; a duplicated one brings in none.
  - `Holds.clone_sameEnd_clone`: of its source, a clone depends on the contents alone.
  - `copies_end_as_requests`: all of this for reachable catalogs.
-/

import StateObject.Proofs.Simulation

namespace StateObject

/-- Nothing but their records tells the two apart. -/
structure Outcome.SameEnd {σ α : Type} (x y : Outcome σ α) : Prop where
  result : x.result = y.result
  state : x.state = y.state

/-! ## What to ask for -/

namespace Contents

/-- The request for these contents, by the one reader that answers. -/
def request? (contents : Contents) : Option Spec :=
  (contents.configFlags?.map fun flags => .stateObjectConfig flags.bits) <|>
    contents.association?.map .association <|> contents.shaderConfig?.map .shaderConfig <|>
      contents.pipelineConfig?.map .pipelineConfig <|> contents.hitGroup?.map .hitGroup

theorem exists_request {contents : Contents} (h : contents.kind.isRootSignature = false) :
    ∃ spec, contents.request? = some spec := by
  cases contents with
  | rootSignature scope r => cases h
  | _ => exact ⟨_, rfl⟩

theorem isRootSignature_of_request {contents : Contents} {spec : Spec} (h : contents.request? = some spec) :
    contents.kind.isRootSignature = false := by
  cases contents with
  | rootSignature scope r => cases h
  | _ => rfl

theorem fits_of_request {contents : Contents} {spec : Spec} (h : contents.request? = some spec) (limit : Nat) :
    contents.fits limit = .ok () := by
  cases contents with
  | rootSignature scope r => cases h
  | _ => rfl

/-- What is asked for is what was read. -/
theorem accept_request {contents : Contents} {spec : Spec} (h : contents.request? = some spec)
    (hf : contents.FlagsDefined) (limit : Nat) (seen : Nat → Option Bytes) :
    spec.accept limit seen = .ok contents := by
  cases contents with
  | stateObjectConfig flags =>
    cases h
    have hbits : ConfigFlags.ofBits? flags.bits = some flags := if_pos (hf flags rfl)
    simp only [Spec.accept, hbits]
  | rootSignature scope r => cases h
  | _ =>
    cases h
    rfl

end Contents

namespace Pool

variable {pool source : Pool} {payload : Stored} {contents : Contents} {spec : Spec}

/-- Copying a payload is taking in the request for what it reads as. -/
theorem adopt_eq_intern (h : source.resolve payload = .ok contents) (hf : contents.FlagsDefined)
    (hq : contents.request? = some spec) : adopt source payload = intern spec := by
  rw [adopt_eq_of_resolve h]
  cases contents with
  | stateObjectConfig flags =>
    cases hq
    have hbits : ConfigFlags.ofBits? flags.bits = some flags := if_pos (hf flags rfl)
    have hflags : checkFlags flags.bits = pure flags := by
      rw [checkFlags, hbits]
    rw [intern, Payload.mapM, Payload.mapM, hflags]
  | rootSignature scope r => cases hq
  | _ =>
    cases hq
    rfl

/-- Where the contents are already, the request for them finds the payload that reads as
    them, and nothing changes. -/
theorem Sound.run_intern_request (h : pool.Sound) (hp : pool.resolve payload = .ok contents)
    (hf : contents.FlagsDefined) (hq : contents.request? = some spec) :
    (intern spec).run pool = ⟨.ok payload, pool, []⟩ := by
  have hrun := run_intern h spec
  rw [Contents.accept_request hq hf] at hrun
  obtain ⟨payload', pool', hrun, htakes, hbuffers, -⟩ := hrun
  have hplain : pool.buffers.noting spec = pool.buffers ∧ spec.records pool.buffers = [] := by
    cases contents with
    | rootSignature scope r => cases hq
    | _ =>
      cases hq
      exact ⟨rfl, rfl⟩
  have hsymbols : pool'.symbols = pool.symbols := by
    rw [htakes.symbols, h.symbols.internAll_of_resolve (Payload.mapM_eq_ok_iff.mp hp).names]
  have hpool : pool' = pool := by
    cases pool
    cases pool'
    rw [Pool.mk.injEq]
    exact ⟨hsymbols, hbuffers.trans hplain.1⟩
  -- a name has one symbol, so no other payload reads as the contents
  have hpayload : payload' = payload := by
    have hread := htakes.resolve
    rw [hpool] at hread
    refine Payload.Related.left_unique ?_ ?_ (Contents.isRootSignature_of_request hq) (Payload.mapM_eq_ok_iff.mp hread)
      (Payload.mapM_eq_ok_iff.mp hp)
    · intro x y z hx hy
      rw [pure_eq_ok_iff.mp hx, pure_eq_ok_iff.mp hy]
    · intro j k s hj hk
      exact h.symbols.symbol_unique (SymbolTable.resolve_eq_ok_iff.mp hj) (SymbolTable.resolve_eq_ok_iff.mp hk)
  rw [hrun, hpool, hpayload, hplain.2]

end Pool

theorem View.Copies.exists_request {v : View} {sub : Subobject} (hv : v.Copies sub)
    (hk : v.kind.isRootSignature = false) : ∃ spec, sub.contents.request? = some spec := by
  have hkind : v.kind = sub.contents.kind := Pool.kind_of_resolve hv.resolve
  exact Contents.exists_request (hkind ▸ hk)

/-! ## Edits -/

namespace Catalog

variable {c s : Catalog} {subs : List Subobject} {v v' : View} {sub : Subobject} {spec : Spec}

theorem Holds.clone_sameEnd (h : c.Holds subs) (hv : v.Copies sub) (hq : sub.contents.request? = some spec)
    (name : String) : ((clone v name).run c).SameEnd ((create name spec).run c) := by
  cases hn : c.contains name with
  | true =>
    rw [run_clone_of_taken hn, run_create_of_taken hn]
    exact ⟨rfl, rfl⟩
  | false =>
    have hfits : sub.contents.fits c.pool.buffers.limit = .ok () := Contents.fits_of_request hq _
    have hcheck : v.pool.checkAdoption c.pool v.entry.payload = .ok () :=
      (Pool.checkAdoption_eq_of_resolve hv.resolve).trans hfits
    obtain ⟨payload, pool, ha, -⟩ := Pool.run_adopt h.pool hv.resolve hfits
    have hi : (Pool.intern spec).run c.pool = ⟨.ok payload, pool, []⟩ := by
      rw [← Pool.adopt_eq_intern hv.resolve hv.flags hq, ha]
    rw [run_clone_of_adopted hn hcheck hv.name_eq ha, run_create_of_accepted hn hi]
    exact ⟨rfl, rfl⟩

theorem Holds.duplicate_sameEnd (h : c.Holds subs) {x : String} {k : Symbol} {entry : Entry}
    (hl : c.Located subs x k entry sub) (hq : sub.contents.request? = some spec) (name : String) :
    ((duplicate x name).run c).SameEnd ((create name spec).run c) := by
  cases hn : c.contains name with
  | true =>
    rw [run_duplicate_of_taken hl.symbol hl.kept hn, run_create_of_taken hn]
    exact ⟨rfl, rfl⟩
  | false =>
    have hf := h.flags _ (List.mem_of_find?_eq_some hl.found)
    have hi := h.pool.run_intern_request hl.shows.contents hf hq
    rw [run_duplicate_of_found hl.symbol hl.kept hn, run_create_of_accepted hn hi]
    exact ⟨rfl, rfl⟩

/-- What is not in the contents does not matter, neither the pool nor the slots. -/
theorem Holds.clone_sameEnd_clone (h : c.Holds subs) {sub' : Subobject} (hv : v.Copies sub) (hv' : v'.Copies sub')
    (hsame : sub.contents = sub'.contents) (name : String) :
    ((clone v name).run c).SameEnd ((clone v' name).run c) := by
  have hread' := hv'.resolve
  rw [← hsame] at hread'
  have hcheck : v.pool.checkAdoption c.pool v.entry.payload = sub.contents.fits c.pool.buffers.limit :=
    Pool.checkAdoption_eq_of_resolve hv.resolve
  have hcheck' : v'.pool.checkAdoption c.pool v'.entry.payload = sub.contents.fits c.pool.buffers.limit :=
    Pool.checkAdoption_eq_of_resolve hread'
  cases hn : c.contains name with
  | true =>
    rw [run_clone_of_taken hn, run_clone_of_taken hn]
    exact ⟨rfl, rfl⟩
  | false =>
    cases hfits : sub.contents.fits c.pool.buffers.limit with
    | error r =>
      rw [run_clone_of_refused hn (hcheck.trans hfits), run_clone_of_refused hn (hcheck'.trans hfits)]
      exact ⟨rfl, rfl⟩
    | ok _ =>
      obtain ⟨payload, pool, ha, -⟩ := Pool.run_adopt h.pool hv.resolve hfits
      have ha' : (Pool.adopt v'.pool v'.entry.payload).run c.pool = ⟨.ok payload, pool, []⟩ := by
        rw [Pool.adopt_eq_of_resolve hread', ← Pool.adopt_eq_of_resolve hv.resolve, ha]
      rw [run_clone_of_adopted hn (hcheck.trans hfits) hv.name_eq ha,
        run_clone_of_adopted hn (hcheck'.trans hfits) hv'.name_eq ha']
      exact ⟨rfl, rfl⟩

/-! ## Root signatures -/

theorem Holds.find?_entered (h : c.Holds subs) (name : String) (payload : Stored) :
    (c.entered name payload).find? name = some (c.enteredView name payload) := by
  rw [find?_eq_map_entryOf?, h.entryOf?_entered, if_pos rfl]
  rfl

theorem Holds.clone_rootSignature (h : c.Holds subs) (hv : v.Copies sub) {scope : Scope} {r : RootSignature BufferSlot}
    (hr : v.entry.payload = .rootSignature scope r) {name : String} {w : View}
    (hw : ((clone v name).run c).result = .ok w) :
    ∃ bytes, v.pool.buffers.resolve r.data = .ok bytes ∧
      ((clone v name).run c).state.pool.buffers =
        { c.pool.buffers with copies := c.pool.buffers.copies.push bytes } ∧
      w.entry.payload = .rootSignature scope { data := ⟨c.bufferCount⟩, size := r.size } ∧
      ((clone v name).run c).state.find? name = some w := by
  have hends := h.ends_clone hv name
  rw [Edit.call, Call.run_map, hw] at hends
  generalize (clone v name).run c = done at hends hw ⊢
  obtain ⟨result, state, log⟩ := done
  cases hends with
  | @cloned _ sub _ payload pool hs _ _ htakes hb hslot =>
    have hread := hs.resolve
    rw [hr] at hread hslot
    generalize sub.contents = contents at hread htakes hb
    cases Payload.mapM_eq_ok_iff.mp hread with
    | @rootSignature _ r' _ hsig =>
      obtain ⟨hdata, hsize⟩ := Pool.resolveSignature_eq_ok_iff.mp hsig
      refine ⟨r'.data, BufferStore.resolve_eq_ok_iff.mpr hdata, hb, ?_,
        (h.grow htakes.grows htakes.sound).find?_entered name payload⟩
      -- the payload has the new slot, and the size that was read
      show payload = _
      cases Payload.mapM_eq_ok_iff.mp htakes.resolve with
      | @rootSignature q _ _ hq =>
        obtain ⟨data, size⟩ := q
        obtain rfl : data = _ := Option.some.inj hslot
        have : size = r'.size := (Pool.resolveSignature_eq_ok_iff.mp hq).2
        rw [this, hsize]
        rfl

theorem Holds.duplicate_rootSignature (h : c.Holds subs) {x : String} {k : Symbol} {entry : Entry}
    (hl : c.Located subs x k entry sub) {name : String} {w : View}
    (hw : ((duplicate x name).run c).result = .ok w) :
    ((duplicate x name).run c).state.pool.buffers = c.pool.buffers ∧ w.entry.payload = entry.payload ∧
      ((duplicate x name).run c).state.find? name = some w := by
  cases hn : c.contains name with
  | true =>
    rw [run_duplicate_of_taken hl.symbol hl.kept hn] at hw
    cases hw
  | false =>
    rw [run_duplicate_of_found hl.symbol hl.kept hn] at hw ⊢
    cases hw
    exact ⟨rfl, rfl, h.find?_entered name entry.payload⟩

/-! ## Reachable catalogs -/

/-- Root signatures aside, it makes no difference whether a subobject is copied or asked
    for again, in whatever catalog it was read: the result and the state left are the
    same. A cloned root signature brings the bytes and the size that were read, and a
    duplicated one brings nothing. Whatever is cloned, its contents alone decide. -/
theorem copies_end_as_requests (hc : Reachable c) (hs : Reachable s) (name : String) :
    (∀ v ∈ s.views, v.kind.isRootSignature = false →
      ∃ sub spec, v.read = .ok sub ∧ sub.contents.request? = some spec ∧
        ((clone v name).run c).SameEnd ((create name spec).run c)) ∧
    (∀ x v, c.find? x = some v → v.kind.isRootSignature = false →
      ∃ sub spec, v.read = .ok sub ∧ sub.contents.request? = some spec ∧
        ((duplicate x name).run c).SameEnd ((create name spec).run c)) ∧
    (∀ v ∈ s.views, ∀ scope r w, v.entry.payload = .rootSignature scope r → ((clone v name).run c).result = .ok w →
      ∃ bytes, s.pool.buffers.resolve r.data = .ok bytes ∧
        ((clone v name).run c).state.pool.buffers =
          { c.pool.buffers with copies := c.pool.buffers.copies.push bytes } ∧
        w.entry.payload = .rootSignature scope { data := ⟨c.bufferCount⟩, size := r.size } ∧
        ((clone v name).run c).state.find? name = some w) ∧
    (∀ x v scope r w, c.find? x = some v → v.entry.payload = .rootSignature scope r →
      ((duplicate x name).run c).result = .ok w →
        ((duplicate x name).run c).state.pool.buffers = c.pool.buffers ∧ w.entry.payload = .rootSignature scope r ∧
        ((duplicate x name).run c).state.find? name = some w) ∧
    ∀ s', Reachable s' → ∀ v ∈ s.views, ∀ v' ∈ s'.views, v.contents = v'.contents →
      ((clone v name).run c).SameEnd ((clone v' name).run c) := by
  obtain ⟨inv, hm⟩ := hc.matches
  obtain ⟨inv', hm'⟩ := hs.matches
  refine ⟨?_, ?_, ?_, ?_, ?_⟩
  · intro v hv hk
    obtain ⟨sub, -, hcopies⟩ := hm'.holds.copies_of_mem_views hv
    obtain ⟨spec, hq⟩ := hcopies.exists_request hk
    exact ⟨sub, spec, hcopies.read, hq, hm.holds.clone_sameEnd hcopies hq name⟩
  · intro x v hv hk
    obtain ⟨k, entry, sub, hl, rfl⟩ := hm.holds.located_of_find? hv
    have hread := read_eq_of_shows hl.shows
    have hcopies : (c.view entry).Copies sub := ⟨hread, hm.holds.flags _ (List.mem_of_find?_eq_some hl.found)⟩
    obtain ⟨spec, hq⟩ := hcopies.exists_request hk
    exact ⟨sub, spec, hread, hq, hm.holds.duplicate_sameEnd hl hq name⟩
  · intro v hv scope r w hr hw
    obtain ⟨sub, -, hcopies⟩ := hm'.holds.copies_of_mem_views hv
    have hpool : v.pool = s.pool := by
      obtain ⟨entry, -, rfl⟩ := List.mem_map.mp hv
      rfl
    rw [← hpool]
    exact hm.holds.clone_rootSignature hcopies hr hw
  · intro x v scope r w hv hr hw
    obtain ⟨k, entry, sub, hl, rfl⟩ := hm.holds.located_of_find? hv
    rw [← show entry.payload = .rootSignature scope r from hr]
    exact hm.holds.duplicate_rootSignature hl hw
  · intro s' hs' v hv v' hv' hsame
    obtain ⟨inv'', hm''⟩ := hs'.matches
    obtain ⟨sub, -, hcopies⟩ := hm'.holds.copies_of_mem_views hv
    obtain ⟨sub', -, hcopies'⟩ := hm''.holds.copies_of_mem_views hv'
    refine hm.holds.clone_sameEnd_clone hcopies hcopies' ?_ name
    have hread : v.contents = .ok sub.contents := hcopies.resolve
    have hread' : v'.contents = .ok sub'.contents := hcopies'.resolve
    rw [hread, hread'] at hsame
    exact Except.ok.inj hsame

/-- The target has the first slot where it was read and the third where it is copied to, and
    the export that is listed twice is known there already. -/
theorem clone_ends_as_request :
    let s := ((Edit.create "rays" (.association ⟨"lights", ["hit", "hit"]⟩)).call.run (make none)).state
    let v := s.view ⟨⟨2⟩, .association ⟨⟨0⟩, [⟨1⟩, ⟨1⟩]⟩⟩
    let c := ((Edit.create "group" (.hitGroup ⟨"hit", "", "hit"⟩)).call.run (make (some 8))).state
    Reachable c ∧ Reachable s ∧ v ∈ s.views ∧
      ((clone v "copy").run c).SameEnd ((create "copy" (.association ⟨"lights", ["hit", "hit"]⟩)).run c) ∧
      ((clone v "copy").run c).state.pool.symbols.strings = #["hit", "", "group", "lights", "copy"] := by
  intro s v c
  have hs : Reachable s := .edit (.create "rays" _) (.make none) (.make none) True.intro
  have hc : Reachable c := .edit (.create "group" _) (.make (some 8)) (.make none) True.intro
  have hv : v ∈ s.views := List.mem_singleton.mpr rfl
  obtain ⟨hclone, -⟩ := copies_end_as_requests hc hs "copy"
  obtain ⟨sub, spec, hread, hq, hsame⟩ := hclone v hv rfl
  have hsub : v.read = .ok ⟨"rays", .association ⟨"lights", ["hit", "hit"]⟩⟩ := rfl
  obtain rfl := Except.ok.inj (hread.symm.trans hsub)
  cases hq
  exact ⟨hc, hs, hv, hsame, by decide +kernel⟩

end Catalog

end StateObject
