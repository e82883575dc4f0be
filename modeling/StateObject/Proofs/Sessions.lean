/-
  StateObject.Proofs.Sessions — a catalog in use, with its journal.

  A session is a catalog and the records that were made on the way to it. It goes on by
  edits and by reads, and those that are refused are part of it.

  - `Balances.run_query`: a read changes nothing, and what it records are warnings.
  - `Session.invariant`: what every act keeps holds after every run.
-/

import StateObject.Proofs.Simulation

namespace StateObject

/-- What a caller does: changes the catalog, or reads it. -/
inductive Action where
  | edit (e : Edit View)
  | ask (q : Query)

/-- What is cloned is a subobject of a reachable catalog. -/
def Action.Sourced : Action → Prop
  | edit e => ∃ s, Catalog.Reachable s ∧ e.From s
  | ask _ => True

/-- Of all acts, clones alone have a source. -/
theorem Action.sourced_of_clones {acts : List Action}
    (h : ∀ v name, .edit (.clone v name) ∈ acts → ∃ s, Catalog.Reachable s ∧ v ∈ s.views) : ∀ a ∈ acts, a.Sourced := by
  intro a ha
  cases a with
  | edit e =>
    cases e with
    | clone v name => exact h v name ha
    | _ => exact ⟨_, .make none, True.intro⟩
  | ask q => exact True.intro

/-- The read as a call, with the records that it makes. -/
def Query.call : Query → Call Catalog Answer
  | .check => .issues <$> Catalog.check
  | q => do Call.ofExcept ((← Call.get).answer q)

structure Session where
  catalog : Catalog
  /-- Every record made so far, first to last. -/
  journal : List Record := []

namespace Session

/-- A new catalog, and nothing recorded. -/
def start (limit : Option Nat) : Session := { catalog := .make limit }

/-- The session once the call has ended, whatever its result. -/
def goOn {α : Type} (s : Session) (done : Outcome Catalog α) : Session :=
  { catalog := done.state, journal := s.journal ++ done.log }

def act (s : Session) : Action → Session
  | .edit e => s.goOn (e.call.run s.catalog)
  | .ask q => s.goOn (q.call.run s.catalog)

def after (s : Session) (acts : List Action) : Session := acts.foldl act s

/-- The act, if it is an edit that is not refused. -/
def takes (s : Session) : Action → List (Edit View)
  | .edit e =>
    match (e.call.run s.catalog).result with
    | .ok _ => [e]
    | .error _ => []
  | .ask _ => []

/-- The edits among the acts that are not refused. -/
def taken (s : Session) : List Action → List (Edit View)
  | [] => []
  | a :: acts => s.takes a ++ (s.act a).taken acts

@[simp] theorem after_nil (s : Session) : s.after [] = s := rfl

@[simp] theorem after_cons (s : Session) (a : Action) (acts : List Action) :
    s.after (a :: acts) = (s.act a).after acts := rfl

theorem after_append (s : Session) (before rest : List Action) :
    s.after (before ++ rest) = (s.after before).after rest := List.foldl_append

end Session

/-! ## Reads -/

namespace Catalog

variable {c : Catalog} {acc : Account}

theorem Balances.run_query (h : c.Balances acc) (q : Query) :
    ∃ issues : List Issue, q.call.run c = ⟨.ok (acc.answer q), c, issues.map .found⟩ := by
  cases q with
  | check =>
    refine ⟨acc.inventory.subobjects.flatMap acc.inventory.issuesOf, ?_⟩
    rw [Query.call, Call.run_map, run_check h.inventory.issues_eq]
    rfl
  | _ =>
    refine ⟨[], ?_⟩
    rw [Query.call, Call.run_bind_of_ok (Call.run_get c), Call.run_ofExcept, h.answer_eq]
    · rfl
    · intro e
      cases e

theorem Reachable.run_query (h : Reachable c) (q : Query) :
    ∃ (answer : Answer) (issues : List Issue), q.call.run c = ⟨.ok answer, c, issues.map .found⟩ := by
  obtain ⟨inv, hm⟩ := h.matches
  exact ⟨_, hm.balances.run_query q⟩

end Catalog

/-! ## Runs -/

namespace Session

variable {s : Session} {a : Action} {acts : List Action}

theorem catalog_ask (h : s.catalog.Reachable) (q : Query) : (s.act (.ask q)).catalog = s.catalog := by
  obtain ⟨answer, issues, hrun⟩ := h.run_query q
  show (q.call.run s.catalog).state = _
  rw [hrun]

theorem reachable_start (limit : Option Nat) : (start limit).catalog.Reachable := .make limit

theorem reachable_act (h : s.catalog.Reachable) (ha : a.Sourced) : (s.act a).catalog.Reachable := by
  cases a with
  | edit e =>
    obtain ⟨t, ht, hfrom⟩ := ha
    exact .edit e h ht hfrom
  | ask q =>
    rw [catalog_ask h q]
    exact h

/-- What every act on a reachable catalog keeps, a run keeps. -/
theorem invariant {P : Session → Prop} (h : s.catalog.Reachable) (hP : P s)
    (hstep : ∀ s a, s.catalog.Reachable → a.Sourced → P s → P (s.act a)) (ha : ∀ a ∈ acts, a.Sourced) :
    P (s.after acts) := by
  induction acts generalizing s with
  | nil => exact hP
  | cons a acts ih =>
    have hs : a.Sourced := ha a List.mem_cons_self
    exact ih (reachable_act h hs) (hstep s a h hs hP) fun b hb => ha b (List.mem_cons_of_mem a hb)

theorem reachable_after (h : s.catalog.Reachable) (ha : ∀ a ∈ acts, a.Sourced) : (s.after acts).catalog.Reachable :=
  invariant (P := fun s => s.catalog.Reachable) h h (fun _ _ _ hs h => reachable_act h hs) ha

end Session

end StateObject
