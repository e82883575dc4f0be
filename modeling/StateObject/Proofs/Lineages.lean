/-
  StateObject.Proofs.Lineages — stores that are called and copied, with their histories.

  A family starts from some stores. A turn makes a call on one member, or copies one,
  and the copy is a member from then on. A copy has the history of the store that it
  was copied from: what a store replied before it was copied, its copy is held to as
  well.

  - `forall_after`, `of_mem_after`: what every call keeps holds of every member, copies
    included.
-/

namespace StateObject

/-- A store, and the calls that led to it with what they replied, first to last. -/
structure Lineage (σ κ ρ : Type) where
  store : σ
  history : List (κ × ρ) := []

/-- Members are numbered in the order in which they came. -/
inductive Turn (κ : Type) where
  | call (member : Nat) (call : κ)
  | copy (member : Nat)

namespace Lineage

variable {σ κ ρ : Type} (run : κ → σ → ρ × σ)

def call (l : Lineage σ κ ρ) (c : κ) : Lineage σ κ ρ :=
  { store := (run c l.store).2, history := l.history ++ [(c, (run c l.store).1)] }

/-- A turn of a member that is not there changes nothing. -/
def turn (family : List (Lineage σ κ ρ)) : Turn κ → List (Lineage σ κ ρ)
  | .call member c =>
    match family[member]? with
    | some l => family.set member (l.call run c)
    | none => family
  | .copy member => family ++ family[member]?.toList

/-- The family after the turns. -/
def after (family : List (Lineage σ κ ρ)) (turns : List (Turn κ)) : List (Lineage σ κ ρ) :=
  turns.foldl (turn run) family

variable {run} {P : Lineage σ κ ρ → Prop}

theorem forall_turn (hcall : ∀ l c, P l → P (l.call run c)) {family : List (Lineage σ κ ρ)} (h : ∀ l ∈ family, P l)
    (t : Turn κ) : ∀ l ∈ turn run family t, P l := by
  intro l hl
  cases t with
  | call member c =>
    simp only [turn] at hl
    split at hl
    · rename_i old hold
      rcases List.mem_or_eq_of_mem_set hl with hl | rfl
      · exact h l hl
      · exact hcall old c (h old (List.mem_of_getElem? hold))
    · exact h l hl
  | copy member =>
    rcases List.mem_append.mp hl with hl | hl
    · exact h l hl
    · exact h l (List.mem_of_getElem? (Option.mem_toList.mp hl))

theorem forall_after (hcall : ∀ l c, P l → P (l.call run c)) {family : List (Lineage σ κ ρ)} (h : ∀ l ∈ family, P l)
    (turns : List (Turn κ)) : ∀ l ∈ after run family turns, P l := by
  induction turns generalizing family with
  | nil => exact h
  | cons t turns ih => exact ih (forall_turn hcall h t)

theorem of_mem_after (hcall : ∀ l c, P l → P (l.call run c)) {start l : Lineage σ κ ρ} (h : P start)
    {turns : List (Turn κ)} (hl : l ∈ after run [start] turns) : P l :=
  forall_after hcall (List.forall_mem_singleton.mpr h) turns l hl

end Lineage

end StateObject
