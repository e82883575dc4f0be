/-
  StateObject.Proofs.Traversal — payloads part by part.

  `Related` lifts a relation on each sort of part to payloads of one kind. A traversal
  that can refuse succeeds exactly when its parts do (`mapM_eq_ok_iff`), and traversals
  that agree on related parts agree on related payloads (`Related.mapM_eq`). The other
  lemmas carry lists and records through `List.Forall₂`.
-/

import Mathlib.Data.List.Forall2
import StateObject.Payload
import StateObject.Refusal

namespace StateObject

/-! ## Reads in a row -/

theorem bind_eq_ok_iff {α β : Type} {x : Except Refusal α} {f : α → Except Refusal β} {b : β} :
    x >>= f = .ok b ↔ ∃ a, x = .ok a ∧ f a = .ok b := by
  cases x with
  | error r => simp [bind, Except.bind]
  | ok a => simp [bind, Except.bind]

theorem pure_eq_ok_iff {α : Type} {a b : α} : (pure a : Except Refusal α) = .ok b ↔ a = b := by
  simp [pure, Except.pure]

theorem mapM_eq_ok_iff_forall₂ {α β : Type} {f : α → Except Refusal β} {xs : List α} {ys : List β} :
    xs.mapM f = .ok ys ↔ List.Forall₂ (fun x y => f x = .ok y) xs ys := by
  induction xs generalizing ys with
  | nil =>
    rw [List.mapM_nil, pure_eq_ok_iff, List.forall₂_nil_left_iff, eq_comm]
  | cons x xs ih =>
    simp only [List.mapM_cons, bind_eq_ok_iff, pure_eq_ok_iff, ih, List.forall₂_cons_left_iff]
    constructor
    · intro h
      obtain ⟨y, hy, ys', hys, rfl⟩ := h
      exact ⟨y, ys', hy, hys, rfl⟩
    · intro h
      obtain ⟨y, ys', hy, hys, rfl⟩ := h
      exact ⟨y, hy, ys', hys, rfl⟩

/-! ## Lists in step -/

section Lists

variable {α β γ : Type} {R : α → β → Prop}

theorem forall₂_append {as as' : List α} {bs bs' : List β} (h : List.Forall₂ R as bs) (h' : List.Forall₂ R as' bs') :
    List.Forall₂ R (as ++ as') (bs ++ bs') := by
  induction h with
  | nil => exact h'
  | cons hx _ ih => exact .cons hx ih

/-- What is taken out on one side is taken out at the same place on the other. -/
theorem forall₂_eraseP {p : α → Bool} {q : β → Bool} (hpq : ∀ a b, R a b → p a = q b) {as : List α} {bs : List β}
    (h : List.Forall₂ R as bs) : List.Forall₂ R (as.eraseP p) (bs.eraseP q) := by
  induction h with
  | nil => exact .nil
  | cons hx hxs ih =>
    rw [List.eraseP_cons, List.eraseP_cons, hpq _ _ hx]
    cases q _ with
    | true => exact hxs
    | false => exact .cons hx ih

theorem rel_find? {p : α → Bool} {q : β → Bool} (hpq : ∀ a b, R a b → p a = q b) {as : List α} {bs : List β}
    (h : List.Forall₂ R as bs) : Option.Rel R (as.find? p) (bs.find? q) := by
  induction h with
  | nil => exact .none
  | cons hx _ ih =>
    rw [List.find?_cons, List.find?_cons, hpq _ _ hx]
    split
    · exact .some hx
    · exact ih

theorem rel_getElem? {as : List α} {bs : List β} (h : List.Forall₂ R as bs) (k : Nat) :
    Option.Rel R as[k]? bs[k]? := by
  induction h generalizing k with
  | nil => exact .none
  | cons hx _ ih =>
    cases k with
    | zero => exact .some hx
    | succ k => exact ih k

theorem forall₂_set {as : List α} {bs : List β} (h : List.Forall₂ R as bs) (k : Nat) {a : α} {b : β} (hab : R a b) :
    List.Forall₂ R (as.set k a) (bs.set k b) := by
  induction h generalizing k with
  | nil => exact .nil
  | cons hx hxs ih =>
    cases k with
    | zero => exact .cons hab hxs
    | succ k => exact .cons hx (ih k)

theorem rel_imp {S : α → β → Prop} (hRS : ∀ a b, R a b → S a b) {x : Option α} {y : Option β}
    (h : Option.Rel R x y) : Option.Rel S x y := by
  cases h with
  | none => exact .none
  | some h => exact .some (hRS _ _ h)

theorem getElem?_concat_eq_some_iff {as : List α} {a b : α} {i : Nat} :
    (as ++ [a])[i]? = some b ↔ as[i]? = some b ∨ i = as.length ∧ a = b := by
  rcases Nat.lt_trichotomy i as.length with hlt | heq | hgt
  · rw [List.getElem?_append_left hlt]
    simp [Nat.ne_of_lt hlt]
  · simp [heq]
  · rw [List.getElem?_eq_none (by simp; omega), List.getElem?_eq_none (by omega)]
    simp [Nat.ne_of_gt hgt]

theorem forall₂_exists_right {as : List α} {bs : List β} (h : List.Forall₂ R as bs) {a : α} (ha : a ∈ as) :
    ∃ b ∈ bs, R a b := by
  induction h with
  | nil => cases ha
  | cons hx _ ih =>
    rcases List.mem_cons.mp ha with rfl | ha
    · exact ⟨_, List.mem_cons_self, hx⟩
    · obtain ⟨b, hb, hab⟩ := ih ha
      exact ⟨b, List.mem_cons_of_mem _ hb, hab⟩

theorem exists_forall₂ {as : List α} (h : ∀ a ∈ as, ∃ b, R a b) : ∃ bs, List.Forall₂ R as bs := by
  induction as with
  | nil => exact ⟨[], .nil⟩
  | cons a as ih =>
    obtain ⟨b, hb⟩ := h a List.mem_cons_self
    obtain ⟨bs, hbs⟩ := ih fun a' ha' => h a' (List.mem_cons_of_mem a ha')
    exact ⟨b :: bs, .cons hb hbs⟩

theorem forall₂_nodup (hR : ∀ a a' b, R a b → R a' b → a = a') {as : List α} {bs : List β}
    (h : List.Forall₂ R as bs) (hd : as.Nodup) : bs.Nodup := by
  induction h with
  | nil => exact List.nodup_nil
  | @cons a b as bs hx hxs ih =>
    obtain ⟨ha, hd⟩ := List.nodup_cons.mp hd
    refine List.nodup_cons.mpr ⟨?_, ih hd⟩
    intro hb
    obtain ⟨a', ha', hx'⟩ := forall₂_exists_right (hxs.flip (R := flip R)) hb
    exact ha (hR _ _ _ hx hx' ▸ ha')

theorem mapM_congr_of_forall₂ {m : Type → Type} [Monad m] [LawfulMonad m] {f : α → m γ} {g : β → m γ}
    (hfg : ∀ a b, R a b → f a = g b) {as : List α} {bs : List β} (h : List.Forall₂ R as bs) :
    as.mapM f = bs.mapM g := by
  induction h with
  | nil => rfl
  | cons hx _ ih => rw [List.mapM_cons, List.mapM_cons, hfg _ _ hx, ih]

end Lists

/-! ## Payloads in step -/

namespace Payload

variable {φ φ' φ'' σ σ' σ'' ρ ρ' ρ'' : Type}

/-- Payloads of one kind, their parts related place by place. -/
inductive Related (f : φ → φ' → Prop) (n : σ → σ' → Prop) (r : ρ → ρ' → Prop) :
    Payload φ σ ρ → Payload φ' σ' ρ' → Prop
  | stateObjectConfig {x y} : f x y → Related f n r (stateObjectConfig x) (stateObjectConfig y)
  | rootSignature {x y} (scope : Scope) : r x y → Related f n r (rootSignature scope x) (rootSignature scope y)
  | association {a b} : n a.target b.target → List.Forall₂ n a.exports b.exports →
      Related f n r (association a) (association b)
  | shaderConfig (c : ShaderConfig) : Related f n r (shaderConfig c) (shaderConfig c)
  | pipelineConfig (c : PipelineConfig) : Related f n r (pipelineConfig c) (pipelineConfig c)
  | hitGroup {g h} : n g.intersection h.intersection → n g.anyHit h.anyHit → n g.closestHit h.closestHit →
      Related f n r (hitGroup g) (hitGroup h)

/-- The names that the payload holds, in the order in which a traversal visits them. -/
def names : Payload φ σ ρ → List σ
  | association a => a.target :: a.exports
  | hitGroup g => [g.intersection, g.anyHit, g.closestHit]
  | _ => []

namespace Related

variable {f f' : φ → φ' → Prop} {n n' : σ → σ' → Prop} {r r' : ρ → ρ' → Prop}

theorem imp (hf : ∀ x y, f x y → f' x y) (hn : ∀ x y, n x y → n' x y) (hr : ∀ x y, r x y → r' x y)
    {p : Payload φ σ ρ} {q : Payload φ' σ' ρ'} (h : Related f n r p q) : Related f' n' r' p q := by
  cases h with
  | stateObjectConfig h => exact .stateObjectConfig (hf _ _ h)
  | rootSignature scope h => exact .rootSignature scope (hr _ _ h)
  | association ht he => exact .association (hn _ _ ht) (he.imp hn)
  | shaderConfig c => exact .shaderConfig c
  | pipelineConfig c => exact .pipelineConfig c
  | hitGroup h1 h2 h3 => exact .hitGroup (hn _ _ h1) (hn _ _ h2) (hn _ _ h3)

theorem kind_eq {p : Payload φ σ ρ} {q : Payload φ' σ' ρ'} (h : Related f n r p q) : p.kind = q.kind := by
  cases h <;> rfl

theorem names {p : Payload φ σ ρ} {q : Payload φ' σ' ρ'} (h : Related f n r p q) : List.Forall₂ n p.names q.names := by
  cases h with
  | association ht he => exact .cons ht he
  | hitGroup h1 h2 h3 => exact .cons h1 (.cons h2 (.cons h3 .nil))
  | _ => exact .nil

/-- If a part is related to one thing only, so is a payload, root signatures apart. -/
theorem left_unique (hf : Relator.LeftUnique f) (hn : Relator.LeftUnique n) {p p' : Payload φ σ ρ}
    {q : Payload φ' σ' ρ'} (hq : q.kind.isRootSignature = false) (h : Related f n r p q) (h' : Related f n r p' q) :
    p = p' := by
  cases h with
  | stateObjectConfig hx =>
    cases h' with
    | stateObjectConfig hx' => rw [hf hx hx']
  | rootSignature scope _ => cases hq
  | @association a _ ht he =>
    cases h' with
    | @association a' _ ht' he' =>
      obtain ⟨t, es⟩ := a
      obtain ⟨t', es'⟩ := a'
      obtain rfl : t = t' := hn ht ht'
      obtain rfl : es = es' := List.left_unique_forall₂' hn he he'
      rfl
  | shaderConfig c =>
    cases h' with
    | shaderConfig _ => rfl
  | pipelineConfig c =>
    cases h' with
    | pipelineConfig _ => rfl
  | @hitGroup g _ h1 h2 h3 =>
    cases h' with
    | @hitGroup g' _ h1' h2' h3' =>
      obtain ⟨i, a, c⟩ := g
      obtain ⟨i', a', c'⟩ := g'
      obtain rfl : i = i' := hn h1 h1'
      obtain rfl : a = a' := hn h2 h2'
      obtain rfl : c = c' := hn h3 h3'
      rfl

/-- Traversals that do the same at related parts do the same. -/
theorem mapM_eq {m : Type → Type} [Monad m] [LawfulMonad m] {F : φ → m φ''} {F' : φ' → m φ''} {N : σ → m σ''}
    {N' : σ' → m σ''} {R : ρ → m ρ''} {R' : ρ' → m ρ''} (hf : ∀ x y, f x y → F x = F' y)
    (hn : ∀ x y, n x y → N x = N' y) (hr : ∀ x y, r x y → R x = R' y) {p : Payload φ σ ρ} {q : Payload φ' σ' ρ'}
    (h : Related f n r p q) : p.mapM F N R = q.mapM F' N' R' := by
  cases h with
  | stateObjectConfig h => simp only [mapM, hf _ _ h]
  | rootSignature scope h => simp only [mapM, hr _ _ h]
  | association ht he => simp only [mapM, hn _ _ ht, mapM_congr_of_forall₂ hn he]
  | shaderConfig c => rfl
  | pipelineConfig c => rfl
  | hitGroup h1 h2 h3 => simp only [mapM, hn _ _ h1, hn _ _ h2, hn _ _ h3]

end Related

/-- A traversal that can refuse succeeds exactly when it does at every part. -/
theorem mapM_eq_ok_iff {F : φ → Except Refusal φ'} {N : σ → Except Refusal σ'} {R : ρ → Except Refusal ρ'}
    {p : Payload φ σ ρ} {q : Payload φ' σ' ρ'} :
    p.mapM F N R = .ok q ↔ Related (fun x y => F x = .ok y) (fun x y => N x = .ok y) (fun x y => R x = .ok y) p q := by
  constructor
  · intro h
    cases p with
    | stateObjectConfig x =>
      simp only [mapM, bind_eq_ok_iff, pure_eq_ok_iff] at h
      obtain ⟨y, hy, rfl⟩ := h
      exact .stateObjectConfig hy
    | rootSignature scope x =>
      simp only [mapM, bind_eq_ok_iff, pure_eq_ok_iff] at h
      obtain ⟨y, hy, rfl⟩ := h
      exact .rootSignature scope hy
    | association a =>
      simp only [mapM, bind_eq_ok_iff, pure_eq_ok_iff, mapM_eq_ok_iff_forall₂] at h
      obtain ⟨t, ht, es, hes, rfl⟩ := h
      exact .association ht hes
    | shaderConfig c =>
      rw [mapM, pure_eq_ok_iff] at h
      exact h ▸ .shaderConfig c
    | pipelineConfig c =>
      rw [mapM, pure_eq_ok_iff] at h
      exact h ▸ .pipelineConfig c
    | hitGroup g =>
      simp only [mapM, bind_eq_ok_iff, pure_eq_ok_iff] at h
      obtain ⟨i, hi, a, ha, c, hc, rfl⟩ := h
      exact .hitGroup hi ha hc
  · intro h
    cases h with
    | stateObjectConfig h => exact bind_eq_ok_iff.mpr ⟨_, h, rfl⟩
    | rootSignature scope h => exact bind_eq_ok_iff.mpr ⟨_, h, rfl⟩
    | association ht he =>
      exact bind_eq_ok_iff.mpr ⟨_, ht, bind_eq_ok_iff.mpr ⟨_, mapM_eq_ok_iff_forall₂.mpr he, rfl⟩⟩
    | shaderConfig c => rfl
    | pipelineConfig c => rfl
    | hitGroup h1 h2 h3 =>
      exact bind_eq_ok_iff.mpr ⟨_, h1, bind_eq_ok_iff.mpr ⟨_, h2, bind_eq_ok_iff.mpr ⟨_, h3, rfl⟩⟩⟩

end Payload

end StateObject
