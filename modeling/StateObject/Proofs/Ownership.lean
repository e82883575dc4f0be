/-
  StateObject.Proofs.Ownership — a catalog holds slots of its own pool, and no others.

  `Owned c`: keys are the names of their entries, they differ, and so do the strings that
  they stand for; every slot of every entry lies in the stores of `c` itself; strings and
  positions are one bijection; addresses have slots of their own; no config has a flag
  that is not defined. A clone is no exception, though its source's slots are those of
  another pool.

  - `Holds.owned`: entries that read as subobjects are owned.
  - `Matches.serves`: no read and no view comes to a slot out of bounds, and what a rename
    located is there to be moved.
  - `owned_of_reachable`: both hold of every reachable catalog.
-/

import StateObject.Proofs.Simulation

namespace StateObject

/-- Every slot of the payload is one of the pool's, and every flag is defined. -/
def Pool.Owns (pool : Pool) : Stored → Prop
  | .stateObjectConfig flags => ConfigFlags.unknownBits flags.bits = 0
  | .rootSignature _ r => r.data.index < pool.buffers.size
  | .association a => a.target.index < pool.symbols.size ∧ ∀ k ∈ a.exports, k.index < pool.symbols.size
  | .shaderConfig _ => True
  | .pipelineConfig _ => True
  | .hitGroup g =>
    g.intersection.index < pool.symbols.size ∧ g.anyHit.index < pool.symbols.size ∧
      g.closestHit.index < pool.symbols.size

namespace Catalog

structure Owned (c : Catalog) : Prop where
  /-- An entry is kept under its own name. -/
  keyed : ∀ p ∈ c.entries.toList, p.2.name = p.1
  keysDiffer : c.entries.keys.Nodup
  keysInBounds : ∀ k ∈ c.entries.keys, k.index < c.pool.symbols.size
  namesDiffer : ∃ names, c.names = .ok names ∧ names.Nodup
  payloads : ∀ entry ∈ c.entries.values, c.pool.Owns entry.payload
  /-- Strings and positions are one bijection. -/
  symbols : c.pool.symbols.Sound
  /-- An address has a slot in bounds, which no other address has. -/
  buffers : c.pool.buffers.Sound

/-- No read comes to a slot out of bounds, and a rename that passed its checks is done. -/
structure Serves (c : Catalog) : Prop where
  queries : ∀ q, ∃ a, c.answer q = .ok a
  views : ∀ v ∈ c.views, ∃ s, v.read = .ok s
  renames : ∀ source name found, ((locate source).run c).result = .ok found →
    ((requireVacant name).run c).result = .ok () → ∃ v, ((rename source name).run c).result = .ok v

end Catalog

/-! ## What reads is owned -/

theorem Pool.owns_of_resolve {pool : Pool} {payload : Stored} {contents : Contents}
    (h : pool.resolve payload = .ok contents) (hf : contents.FlagsDefined) : pool.Owns payload := by
  cases Payload.mapM_eq_ok_iff.mp h with
  | stateObjectConfig hx =>
    obtain rfl := pure_eq_ok_iff.mp hx
    exact hf _ rfl
  | rootSignature scope hr =>
    obtain ⟨hd, -⟩ := resolveSignature_eq_ok_iff.mp hr
    exact BufferStore.lt_size_of_resolve? hd
  | association ht hes =>
    refine ⟨SymbolTable.lt_size_of_resolve ht, ?_⟩
    intro k hk
    obtain ⟨s, -, hs⟩ := forall₂_exists_right hes hk
    exact SymbolTable.lt_size_of_resolve hs
  | shaderConfig c => exact True.intro
  | pipelineConfig c => exact True.intro
  | hitGroup hi ha hc =>
    exact ⟨SymbolTable.lt_size_of_resolve hi, SymbolTable.lt_size_of_resolve ha, SymbolTable.lt_size_of_resolve hc⟩

namespace Catalog

variable {c : Catalog} {subs : List Subobject} {inv : Inventory}

/-- Different keys stand for different strings. -/
theorem Holds.names_nodup (h : c.Holds subs) : (subs.map (·.name)).Nodup := by
  have hread : List.Forall₂ (fun k s => c.pool.symbols.resolve k = .ok s) c.entries.keys (subs.map (·.name)) :=
    mapM_eq_ok_iff_forall₂.mp h.names_eq
  refine forall₂_nodup ?_ hread h.keys
  intro j k s hj hk
  exact h.pool.symbols.symbol_unique (SymbolTable.resolve_eq_ok_iff.mp hj) (SymbolTable.resolve_eq_ok_iff.mp hk)

theorem Holds.owned (h : c.Holds subs) : c.Owned := by
  have hshows : ∀ p ∈ c.entries.toList, ∃ s ∈ subs, c.pool.Shows p s := fun p hp =>
    forall₂_exists_right h.entries hp
  refine ⟨?_, h.keys, ?_, ⟨_, h.names_eq, h.names_nodup⟩, ?_, h.pool.symbols, h.pool.buffers⟩
  · intro p hp
    obtain ⟨s, -, hs⟩ := hshows p hp
    exact hs.key
  · intro k hk
    obtain ⟨p, hp, rfl⟩ := List.mem_map.mp hk
    obtain ⟨s, -, hs⟩ := hshows p hp
    exact SymbolTable.lt_size_of_resolve hs.name
  · intro entry he
    obtain ⟨p, hp, rfl⟩ := List.mem_map.mp he
    obtain ⟨s, hmem, hs⟩ := hshows p hp
    exact Pool.owns_of_resolve hs.contents (h.flags s hmem)

/-! ## Rename after its checks -/

theorem Matches.rename_succeeds (h : c.Matches inv) {source name : String} {found : Symbol × Entry}
    (hl : ((locate source).run c).result = .ok found) (hv : ((requireVacant name).run c).result = .ok ()) :
    ∃ v, ((Catalog.rename source name).run c).result = .ok v := by
  have hvacant : c.contains name = false := by
    rw [← Bool.not_eq_true]
    intro hn
    rw [run_requireVacant_of_taken hn] at hv
    cases hv
  rcases h.holds.lookup source with ⟨k, entry, s, hs⟩ | ⟨hk, -⟩
  · exact ⟨_, by rw [run_rename_of_found hs.symbol hs.kept hvacant]⟩
  · rw [run_locate_of_none hk] at hl
    cases hl

theorem Matches.serves (h : c.Matches inv) : c.Serves := by
  refine ⟨fun q => ⟨_, h.balances.answer_eq q⟩, ?_, fun source name found hl hv => h.rename_succeeds hl hv⟩
  intro v hv
  obtain ⟨s, -, hs⟩ := h.holds.copies_of_mem_views hv
  exact ⟨s, hs.read⟩

/-! ## Reachable catalogs -/

theorem owned_of_reachable (h : Reachable c) : c.Owned ∧ c.Serves := by
  obtain ⟨inv, hm⟩ := h.matches
  exact ⟨hm.holds.owned, hm.serves⟩

/-- The association's target has the first slot where it was made, and another one where
    it is cloned to. -/
theorem owned_of_clone :
    let s := ((Edit.create "rays" (.association ⟨"lights", ["hit"]⟩)).call.run (make none)).state
    let v := s.view ⟨⟨2⟩, .association ⟨⟨0⟩, [⟨1⟩]⟩⟩
    let t := ((Edit.create "depth" (.pipelineConfig ⟨1⟩)).call.run (make none)).state
    let c := ((Edit.clone v "copy").call.run t).state
    Reachable c ∧ c.Owned ∧ c.Serves := by
  intro s v t c
  have hs : Reachable s := .edit (.create "rays" _) (.make none) (.make none) True.intro
  have ht : Reachable t := .edit (.create "depth" _) (.make none) (.make none) True.intro
  have hv : (Edit.clone v "copy").From s := List.mem_singleton.mpr rfl
  have hc : Reachable c := .edit (.clone v "copy") ht hs hv
  exact ⟨hc, owned_of_reachable hc⟩

end Catalog

end StateObject
