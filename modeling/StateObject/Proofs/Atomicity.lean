/-
  StateObject.Proofs.Atomicity — a refused edit was never made.

  - `Reachable.refused_leaves_no_trace`: an edit of a reachable catalog that is refused
    leaves all of it as it was, entries, strings, buffers, addresses and limit, and makes
    no record.
  - `Reachable.after_taken`: so a run of edits leads where the edits of it that were not
    refused lead by themselves.
-/

import StateObject.Proofs.Simulation

namespace StateObject.Catalog

variable {c s : Catalog}

theorem Ends.refused_eq {subs : List Subobject} {e : Edit View} {done : Outcome Catalog (Reply View)}
    (h : c.Ends subs e done) {r : Refusal} (hr : done.result = .error r) : done = ⟨.error r, c, []⟩ := by
  cases h with
  | refused _ =>
    cases hr
    rfl
  | _ => cases hr

theorem Reachable.refused_leaves_no_trace (hc : Reachable c) (hs : Reachable s) {e : Edit View} (he : e.From s)
    {r : Refusal} (hr : (e.call.run c).result = .error r) : e.call.run c = ⟨.error r, c, []⟩ := by
  obtain ⟨_, -, hends⟩ := hc.ends hs he
  exact hends.refused_eq hr

/-- A root signature of two bytes is too long where buffers have to be shorter than two. -/
theorem refused_clone_leaves_no_trace :
    let s := ((Edit.create "rs" (.rootSignature .globalScope ⟨64, [1, 2]⟩)).call.run (make none)).state
    let v := s.view ⟨⟨0⟩, .rootSignature .globalScope ⟨⟨0⟩, 2⟩⟩
    (Edit.clone v "copy").call.run (make (some 2)) = ⟨.error (.sizeExceeded 2 2), make (some 2), []⟩ := by
  intro s v
  have hs : Reachable s := .edit (.create "rs" _) (.make none) (.make none) True.intro
  have hv : (Edit.clone v "copy").From s := List.mem_singleton.mpr rfl
  exact Reachable.refused_leaves_no_trace (.make (some 2)) hs hv rfl

/-! ## Runs -/

/-- The edits of a run that are not refused. -/
def taken (c : Catalog) : List (Edit View) → List (Edit View)
  | [] => []
  | e :: es =>
    match (e.call.run c).result with
    | .ok _ => e :: taken (e.call.run c).state es
    | .error _ => taken c es

theorem Reachable.after_taken (h : Reachable c) {edits : List (Edit View)} (hs : Sourced edits) :
    c.after (c.taken edits) = c.after edits := by
  induction edits generalizing c with
  | nil => rfl
  | cons e es ih =>
    obtain ⟨s, hreach, hfrom⟩ := hs e List.mem_cons_self
    have hrest : Sourced es := fun e' he' => hs e' (List.mem_cons_of_mem e he')
    have hnext : Reachable (e.call.run c).state := .edit e h hreach hfrom
    unfold taken
    cases hr : (e.call.run c).result with
    | ok v => exact ih hnext hrest
    | error r =>
      obtain ⟨_, -, hends⟩ := h.ends hreach hfrom
      have hstate : c.after (e :: es) = c.after es := by
        show (e.call.run c).state.after es = c.after es
        rw [hends.refused_eq hr]
      rw [hstate]
      exact ih h hrest

end StateObject.Catalog
