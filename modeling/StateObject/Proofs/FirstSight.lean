/-
  StateObject.Proofs.FirstSight — which strings a catalog has seen, and in which order.

  - `Ends.symbols`: an edit that is not refused interns its `strings`, and a refused one
    none at all.
  - `Session.symbols_after`: so the symbols of a session are those of everything it was
    told. No read adds to them.
  - `Session.strings_are_first_sights`: from a new catalog on, the strings are what was
    told, each at its first sight, and a symbol keeps its string for good.
-/

import StateObject.Proofs.Sessions

namespace StateObject

/-! ## Edits -/

/-- The strings that the edit brings, in order: what the payload names, and then the new
    name. What is duplicated or renamed is there already. -/
def Edit.strings : Edit View → List String
  | create name spec => spec.names ++ [name]
  | clone source name =>
    match source.contents with
    | .ok contents => contents.names ++ [name]
    | .error _ => []
  | duplicate _ name => [name]
  | rename _ name => [name]
  | remove _ => []

namespace Catalog

theorem symbols_entered (c : Catalog) {pool : Pool} {contents : Contents} {payload : Stored}
    (h : c.pool.Takes payload contents pool) (name : String) :
    ((c.withPool pool).entered name payload).pool.symbols =
      (c.pool.symbols.internAll (contents.names ++ [name])).2 := by
  rw [SymbolTable.internAll_append, ← h.symbols]
  rfl

theorem Ends.symbols {c : Catalog} {subs : List Subobject} {e : Edit View} {done : Outcome Catalog (Reply View)}
    (h : c.Ends subs e done) :
    done.state.pool.symbols =
      match done.result with
      | .ok _ => (c.pool.symbols.internAll e.strings).2
      | .error _ => c.pool.symbols := by
  cases h with
  | refused _ => rfl
  | created _ haccept htakes _ _ =>
    show _ = (c.pool.symbols.internAll (_ ++ _)).2
    rw [← (Spec.alike_of_accept haccept).2]
    exact c.symbols_entered htakes _
  | @cloned source s name _ _ hs _ _ htakes _ _ =>
    have hread : source.contents = .ok s.contents := hs.resolve
    show _ = (c.pool.symbols.internAll (Edit.clone source name).strings).2
    rw [Edit.strings, hread]
    exact c.symbols_entered htakes name
  | duplicated _ _ => rfl
  | renamed _ _ => rfl
  | removed _ => rfl
  | removedNone _ => rfl

end Catalog

/-! ## Sessions -/

namespace Session

/-- The strings that the acts bring, one after the other. -/
def told (s : Session) (acts : List Action) : List String := (s.taken acts).flatMap Edit.strings

variable {s : Session} {a : Action} {acts : List Action}

theorem symbols_act (h : s.catalog.Reachable) (ha : a.Sourced) :
    (s.act a).catalog.pool.symbols = (s.catalog.pool.symbols.internAll ((s.takes a).flatMap Edit.strings)).2 := by
  cases a with
  | edit e =>
    obtain ⟨t, ht, hfrom⟩ := ha
    obtain ⟨subs, -, hends⟩ := h.ends ht hfrom
    show (e.call.run s.catalog).state.pool.symbols = _
    rw [hends.symbols, takes]
    cases (e.call.run s.catalog).result with
    | ok reply => simp
    | error r => rfl
  | ask q =>
    rw [catalog_ask h q]
    rfl

theorem symbols_after (h : s.catalog.Reachable) (ha : ∀ a ∈ acts, a.Sourced) :
    (s.after acts).catalog.pool.symbols = (s.catalog.pool.symbols.internAll (s.told acts)).2 := by
  induction acts generalizing s with
  | nil => rfl
  | cons a acts ih =>
    have hs : a.Sourced := ha a List.mem_cons_self
    rw [after_cons, ih (reachable_act h hs) fun b hb => ha b (List.mem_cons_of_mem a hb), symbols_act h hs,
      ← SymbolTable.internAll_append, told, told, taken, List.flatMap_append]

theorem symbols_start (limit : Option Nat) : (start limit).catalog.pool.symbols = {} := by
  cases limit <;> rfl

/-- From a new catalog on: the strings, in the order of their symbols, are those that the
    edits brought, each at its first sight. Reads and refused edits bring none, nothing
    ever takes one away, and a symbol that had a string at any time has it still. -/
theorem strings_are_first_sights (limit : Option Nat) (ha : ∀ a ∈ acts, a.Sourced) :
    ((start limit).after acts).catalog.pool.symbols.strings.toList = ((start limit).told acts).eraseDups ∧
      ((start limit).after acts).catalog.stringCount = ((start limit).told acts).toFinset.card ∧
      ∀ before rest, acts = before ++ rest →
        ((start limit).after before).catalog.pool.symbols.Grows ((start limit).after acts).catalog.pool.symbols := by
  have hsymbols := symbols_after (reachable_start limit) ha
  rw [symbols_start] at hsymbols
  have hlists := SymbolTable.sound_empty.lists_internAll SymbolTable.lists_empty ((start limit).told acts)
  rw [← hsymbols, List.nil_append] at hlists
  have hsound : ((start limit).after acts).catalog.pool.symbols.Sound := by
    rw [hsymbols]
    exact SymbolTable.sound_empty.internAll _
  refine ⟨hlists, hsound.size_eq_card hlists, ?_⟩
  intro before rest hsplit
  subst hsplit
  have hbefore := reachable_after (reachable_start limit) fun a hb => ha a (List.mem_append_left rest hb)
  rw [after_append, symbols_after hbefore fun a hr => ha a (List.mem_append_right before hr)]
  exact SymbolTable.grows_internAll _ _

/-- The edits that are refused name strings that no other act brings, and so do the reads. -/
theorem strings_of_clone_among_refusals :
    let t := ((Edit.create "rays" (.association ⟨"lights", ["hit", "", "hit"]⟩)).call.run (.make none)).state
    let v := t.view ⟨⟨3⟩, .association ⟨⟨0⟩, [⟨1⟩, ⟨2⟩, ⟨1⟩]⟩⟩
    let acts : List Action := [.edit (.create "hit" (.pipelineConfig ⟨1⟩)),
      .edit (.create "hit" (.hitGroup ⟨"any", "of", "these"⟩)), .edit (.create "flags" (.stateObjectConfig 4)),
      .edit (.clone v "copy"), .ask (.find "unseen"), .edit (.remove "hit"), .ask .check,
      .edit (.duplicate "missing" "other"), .edit (.rename "copy" "lights")]
    (∀ a ∈ acts, a.Sourced) ∧ (start none).told acts = ["hit", "lights", "hit", "", "hit", "copy", "lights"] ∧
      ((start none).after acts).catalog.pool.symbols.strings.toList = ["hit", "lights", "", "copy"] ∧
      ((start none).after acts).catalog.stringCount = 4 := by
  intro t v acts
  have ht : t.Reachable := .edit (.create "rays" _) (.make none) (.make none) True.intro
  have hv : v ∈ t.views := List.mem_singleton.mpr rfl
  have ha : ∀ a ∈ acts, a.Sourced := by
    refine Action.sourced_of_clones ?_
    intro w name h
    obtain ⟨rfl, -⟩ : w = v ∧ name = "copy" := by simpa [acts] using h
    exact ⟨t, ht, hv⟩
  have htold : (start none).told acts = ["hit", "lights", "hit", "", "hit", "copy", "lights"] := by
    decide +kernel
  obtain ⟨hstrings, hcount, -⟩ := strings_are_first_sights none ha
  rw [htold] at hstrings hcount
  exact ⟨ha, htold, hstrings, hcount⟩

end Session

end StateObject
