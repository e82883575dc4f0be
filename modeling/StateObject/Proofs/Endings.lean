/-
  StateObject.Proofs.Endings — every way that an edit can end.

  - `Refuses`: what an edit of a catalog that holds `subs` is refused for. A taken name
    comes before a bad payload, and an unknown source before a taken name.
  - `Ends`: a refused edit ends with nothing changed and no record made. Any other is one
    of six cases, each with what it hands back, what it leaves and the records it makes.
  - `Holds.ends`: every edit ends in one of these ways. Whatever is true of an edit follows
    from its cases: what it hands back is among what it leaves (`Ends.mem_views`), and the
    limit is kept (`Ends.bufferLimit_eq`).
-/

import StateObject.Proofs.Edits

namespace StateObject

/-- A view that reads as the subobject, with no flag set that is not defined. -/
structure View.Copies (v : View) (s : Subobject) : Prop where
  read : v.read = .ok s
  flags : s.contents.FlagsDefined

theorem View.Copies.name_eq {v : View} {s : Subobject} (h : v.Copies s) : v.name = .ok s.name := by
  obtain ⟨name, hname, h'⟩ := bind_eq_ok_iff.mp h.read
  obtain ⟨contents, -, h'⟩ := bind_eq_ok_iff.mp h'
  obtain rfl := pure_eq_ok_iff.mp h'
  exact hname

theorem View.Copies.resolve {v : View} {s : Subobject} (h : v.Copies s) :
    v.pool.resolve v.entry.payload = .ok s.contents := by
  obtain ⟨name, -, h'⟩ := bind_eq_ok_iff.mp h.read
  obtain ⟨contents, hcontents, h'⟩ := bind_eq_ok_iff.mp h'
  obtain rfl := pure_eq_ok_iff.mp h'
  exact hcontents

theorem View.Copies.unique {v : View} {s t : Subobject} (h : v.Copies s) (h' : v.Copies t) : s = t :=
  Except.ok.inj (h.read.symm.trans h'.read)

/-- What is stored as a root signature reads as one, its bytes in full and its size as written. -/
theorem View.Copies.contents_of_signature? {v : View} {s : Subobject} (h : v.Copies s) {r : RootSignature BufferSlot}
    (hr : v.signature? = some r) :
    ∃ scope bytes, s.contents = .rootSignature scope ⟨bytes, r.size⟩ ∧ v.pool.buffers.resolve r.data = .ok bytes := by
  have hread := h.resolve
  rw [View.signature?] at hr
  split at hr
  · rename_i scope r' hp
    cases hr
    rw [hp] at hread
    cases hc : s.contents with
    | rootSignature scope' r' =>
      rw [hc] at hread
      cases Payload.mapM_eq_ok_iff.mp hread with
      | rootSignature _ hsig =>
        obtain ⟨hd, hs⟩ := Pool.resolveSignature_eq_ok_iff.mp hsig
        exact ⟨scope, r'.data, by rw [hs], BufferStore.resolve_eq_ok_iff.mpr hd⟩
    | _ =>
      rw [hc] at hread
      cases Payload.mapM_eq_ok_iff.mp hread
  · cases hr

/-- What reads as a root signature is stored as one. -/
theorem View.Copies.signature?_of_contents {v : View} {s : Subobject} (h : v.Copies s) {scope : Scope}
    {r : RootSignature Bytes} (hs : s.contents = .rootSignature scope r) :
    ∃ slot, v.signature? = some ⟨slot, r.size⟩ ∧ v.pool.buffers.resolve slot = .ok r.data := by
  have hread := h.resolve
  rw [hs] at hread
  cases hp : v.entry.payload with
  | rootSignature scope' r' =>
    rw [hp] at hread
    cases Payload.mapM_eq_ok_iff.mp hread with
    | rootSignature _ hsig =>
      obtain ⟨hd, hs⟩ := Pool.resolveSignature_eq_ok_iff.mp hsig
      refine ⟨r'.data, ?_, BufferStore.resolve_eq_ok_iff.mpr hd⟩
      rw [View.signature?, hp, ← hs]
  | _ =>
    rw [hp] at hread
    cases Payload.mapM_eq_ok_iff.mp hread

/-- The same edit, what it copies related. -/
inductive Edit.Related {ω ω' : Type} (R : ω → ω' → Prop) : Edit ω → Edit ω' → Prop
  | create (name : String) (spec : Spec) : Related R (create name spec) (create name spec)
  | clone {source : ω} {source' : ω'} (name : String) : R source source' →
      Related R (clone source name) (clone source' name)
  | duplicate (source name : String) : Related R (duplicate source name) (duplicate source name)
  | rename (source name : String) : Related R (rename source name) (rename source name)
  | remove (name : String) : Related R (remove name) (remove name)

namespace Catalog

/-- What an edit is refused for. -/
inductive Refuses (c : Catalog) (subs : List Subobject) : Edit View → Refusal → Prop
  | createTaken {name : String} {spec : Spec} : (subs.find? (·.name = name)).isSome →
      Refuses c subs (.create name spec) (.nameCollision name)
  | createBad {name : String} {spec : Spec} {r : Refusal} : subs.find? (·.name = name) = none →
      spec.accept c.bufferLimit c.pool.buffers.bytesAt? = .error r → Refuses c subs (.create name spec) r
  | cloneTaken {source : View} {name : String} : (subs.find? (·.name = name)).isSome →
      Refuses c subs (.clone source name) (.nameCollision name)
  | cloneLong {source : View} {s : Subobject} {name : String} {r : Refusal} : source.Copies s →
      subs.find? (·.name = name) = none → s.contents.fits c.bufferLimit = .error r →
      Refuses c subs (.clone source name) r
  | duplicateUnknown {source name : String} : subs.find? (·.name = source) = none →
      Refuses c subs (.duplicate source name) (.unknownSubobject source)
  | duplicateTaken {source name : String} {s : Subobject} : subs.find? (·.name = source) = some s →
      (subs.find? (·.name = name)).isSome → Refuses c subs (.duplicate source name) (.nameCollision name)
  | renameUnknown {source name : String} : subs.find? (·.name = source) = none →
      Refuses c subs (.rename source name) (.unknownSubobject source)
  | renameTaken {source name : String} {s : Subobject} : subs.find? (·.name = source) = some s →
      (subs.find? (·.name = name)).isSome → Refuses c subs (.rename source name) (.nameCollision name)

/-- How an edit ends: with what in hand, what left and which records made. -/
inductive Ends (c : Catalog) (subs : List Subobject) : Edit View → Outcome Catalog (Reply View) → Prop
  | refused {e : Edit View} {r : Refusal} : Refuses c subs e r → Ends c subs e ⟨.error r, c, []⟩
  | created {name : String} {spec : Spec} {contents : Contents} {payload : Stored} {pool : Pool} :
      subs.find? (·.name = name) = none → spec.accept c.bufferLimit c.pool.buffers.bytesAt? = .ok contents →
      c.pool.Takes payload contents pool → pool.buffers = c.pool.buffers.noting spec →
      payload.slot? = spec.slot? pool.buffers →
      Ends c subs (.create name spec)
        ⟨.ok (.subobject ((c.withPool pool).enteredView name payload)), (c.withPool pool).entered name payload,
          spec.records c.pool.buffers ++ [.created payload.kind name]⟩
  | cloned {source : View} {s : Subobject} {name : String} {payload : Stored} {pool : Pool} : source.Copies s →
      subs.find? (·.name = name) = none → s.contents.fits c.bufferLimit = .ok () →
      c.pool.Takes payload s.contents pool → pool.buffers = c.pool.buffers.copying s.contents →
      (payload.slot? = source.entry.payload.slot?.map fun _ => ⟨c.pool.buffers.size⟩) →
      Ends c subs (.clone source name)
        ⟨.ok (.subobject ((c.withPool pool).enteredView name payload)), (c.withPool pool).entered name payload,
          [.cloned s.name name, .created payload.kind name]⟩
  | duplicated {source name : String} {k : Symbol} {entry : Entry} {s : Subobject} :
      c.Located subs source k entry s → subs.find? (·.name = name) = none →
      Ends c subs (.duplicate source name)
        ⟨.ok (.subobject (c.enteredView name entry.payload)), c.entered name entry.payload,
          [.duplicated source name, .created entry.payload.kind name]⟩
  | renamed {source name : String} {k : Symbol} {entry : Entry} {s : Subobject} :
      c.Located subs source k entry s → subs.find? (·.name = name) = none →
      Ends c subs (.rename source name)
        ⟨.ok (.subobject ((c.without k).enteredView name entry.payload)), (c.without k).entered name entry.payload,
          [.renamed source name, .created entry.payload.kind name]⟩
  | removed {name : String} {k : Symbol} {entry : Entry} {s : Subobject} : c.Located subs name k entry s →
      Ends c subs (.remove name) ⟨.ok (.removed true), c.without k, [.removed name]⟩
  | removedNone {name : String} : subs.find? (·.name = name) = none →
      Ends c subs (.remove name) ⟨.ok (.removed false), c, []⟩

/-! ## Every edit ends so -/

variable {c : Catalog} {subs : List Subobject}

theorem Holds.contains_of_taken (h : c.Holds subs) {name : String} {s : Subobject}
    (hs : subs.find? (·.name = name) = some s) : c.contains name = true := by
  rw [h.contains_eq, hs]
  rfl

theorem Holds.contains_of_vacant (h : c.Holds subs) {name : String} (hv : subs.find? (·.name = name) = none) :
    c.contains name = false := by
  rw [h.contains_eq, hv]
  rfl

theorem Holds.ends_create (h : c.Holds subs) (name : String) (spec : Spec) :
    c.Ends subs (.create name spec) ((Edit.create name spec).call.run c) := by
  rw [Edit.call, Call.run_map]
  cases hn : subs.find? (·.name = name) with
  | some s =>
    rw [run_create_of_taken (h.contains_of_taken hn)]
    exact .refused (.createTaken (by rw [hn]; rfl))
  | none =>
    have hv : c.contains name = false := h.contains_of_vacant hn
    have hrun := Pool.run_intern h.pool spec
    cases haccept : spec.accept c.pool.buffers.limit c.pool.buffers.bytesAt? with
    | error r =>
      simp only [haccept] at hrun
      rw [run_create_of_refused hv hrun]
      exact .refused (.createBad hn haccept)
    | ok contents =>
      simp only [haccept] at hrun
      obtain ⟨payload, pool, hi, htakes, hb, hslot⟩ := hrun
      rw [run_create_of_accepted hv hi]
      exact .created hn haccept htakes hb hslot

theorem Holds.ends_clone (h : c.Holds subs) {source : View} {s : Subobject} (hs : source.Copies s) (name : String) :
    c.Ends subs (.clone source name) ((Edit.clone source name).call.run c) := by
  have hcheck : source.pool.checkAdoption c.pool source.entry.payload = s.contents.fits c.pool.buffers.limit :=
    Pool.checkAdoption_eq_of_resolve hs.resolve
  rw [Edit.call, Call.run_map]
  cases hn : subs.find? (·.name = name) with
  | some t =>
    rw [run_clone_of_taken (h.contains_of_taken hn)]
    exact .refused (.cloneTaken (by rw [hn]; rfl))
  | none =>
    have hv : c.contains name = false := h.contains_of_vacant hn
    cases hfits : s.contents.fits c.pool.buffers.limit with
    | error r =>
      rw [run_clone_of_refused hv (hcheck.trans hfits)]
      exact .refused (.cloneLong hs hn hfits)
    | ok _ =>
      obtain ⟨payload, pool, ha, htakes, hb, hslot⟩ := Pool.run_adopt h.pool hs.resolve hfits
      rw [run_clone_of_adopted hv (hcheck.trans hfits) hs.name_eq ha]
      exact .cloned hs hn hfits htakes hb hslot

theorem Holds.ends_duplicate (h : c.Holds subs) (source name : String) :
    c.Ends subs (.duplicate source name) ((Edit.duplicate source name).call.run c) := by
  rw [Edit.call, Call.run_map]
  rcases h.lookup source with ⟨k, entry, s, hl⟩ | ⟨hk, hs⟩
  · cases hn : subs.find? (·.name = name) with
    | some t =>
      rw [run_duplicate_of_taken hl.symbol hl.kept (h.contains_of_taken hn)]
      exact .refused (.duplicateTaken hl.found (by rw [hn]; rfl))
    | none =>
      rw [run_duplicate_of_found hl.symbol hl.kept (h.contains_of_vacant hn)]
      exact .duplicated hl hn
  · rw [run_duplicate_of_unknown hk]
    exact .refused (.duplicateUnknown hs)

theorem Holds.ends_rename (h : c.Holds subs) (source name : String) :
    c.Ends subs (.rename source name) ((Edit.rename source name).call.run c) := by
  rw [Edit.call, Call.run_map]
  rcases h.lookup source with ⟨k, entry, s, hl⟩ | ⟨hk, hs⟩
  · cases hn : subs.find? (·.name = name) with
    | some t =>
      rw [run_rename_of_taken hl.symbol hl.kept (h.contains_of_taken hn)]
      exact .refused (.renameTaken hl.found (by rw [hn]; rfl))
    | none =>
      rw [run_rename_of_found hl.symbol hl.kept (h.contains_of_vacant hn)]
      exact .renamed hl hn
  · rw [run_rename_of_unknown hk]
    exact .refused (.renameUnknown hs)

theorem Holds.ends_remove (h : c.Holds subs) (name : String) :
    c.Ends subs (.remove name) ((Edit.remove name).call.run c) := by
  rw [Edit.call, Call.run_map]
  rcases h.lookup name with ⟨k, entry, s, hl⟩ | ⟨hk, hs⟩
  · rw [run_remove_of_found hl.symbol hl.kept]
    exact .removed hl
  · rw [run_remove_of_unknown hk]
    exact .removedNone hs

theorem Holds.ends (h : c.Holds subs) {e : Edit View} {e' : Edit Subobject} (he : e.Related View.Copies e') :
    c.Ends subs e (e.call.run c) := by
  cases he with
  | create name spec => exact h.ends_create name spec
  | clone name hs => exact h.ends_clone hs name
  | duplicate source name => exact h.ends_duplicate source name
  | rename source name => exact h.ends_rename source name
  | remove name => exact h.ends_remove name

/-- What is handed back is one of the subobjects that are left. -/
theorem Ends.mem_views (h : c.Holds subs) {e : Edit View} {done : Outcome Catalog (Reply View)} (he : c.Ends subs e done)
    {v : View} (hv : done.result = .ok (.subobject v)) : v ∈ done.state.views := by
  cases he with
  | refused _ => cases hv
  | created hn _ htakes _ _ =>
    cases hv
    exact (h.grow htakes.grows htakes.sound).enteredView_mem_views hn _
  | cloned _ hn _ htakes _ _ =>
    cases hv
    exact (h.grow htakes.grows htakes.sound).enteredView_mem_views hn _
  | duplicated _ hn =>
    cases hv
    exact h.enteredView_mem_views hn _
  | renamed hl hn =>
    cases hv
    exact (h.without hl).enteredView_mem_views (find?_eraseP_eq_none hn _) _
  | removed _ => cases hv
  | removedNone _ => cases hv

/-- An edit leaves the limit as it is. -/
theorem Ends.bufferLimit_eq {e : Edit View} {done : Outcome Catalog (Reply View)} (he : c.Ends subs e done) :
    done.state.bufferLimit = c.bufferLimit := by
  cases he with
  | created _ _ htakes _ _ => exact htakes.grows.buffers.limit
  | cloned _ _ _ htakes _ _ => exact htakes.grows.buffers.limit
  | _ => rfl

end Catalog

end StateObject
