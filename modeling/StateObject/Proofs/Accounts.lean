/-
  StateObject.Proofs.Accounts — what comes in with an edit.

  An account is kept by adding up: with each edit that is not refused come the strings that
  it names and, with a root signature, one buffer at most.
  - `Ends.bufferCount_eq`: a catalog has stored as many buffers more as the edit brings.
  - `Balances.edit`: an edit that the account refuses is refused without a trace; any other
    ends as the account says and leaves the account balanced.
-/

import StateObject.Proofs.FirstSight

namespace StateObject

/-! ## What comes in -/

/-- The strings that come in with the edit, in order. -/
def Edit.brings : Edit Subobject → List String
  | create name spec => spec.names ++ [name]
  | clone source name => source.contents.names ++ [name]
  | duplicate _ name => [name]
  | rename _ name => [name]
  | remove _ => []

/-- A slice brings no buffer if its address stands for bytes already. -/
def Spec.buffers (seen : Nat → Option Bytes) : Spec → Nat
  | .rootSignature _ slice => if (seen slice.address).isSome then 0 else 1
  | _ => 0

/-- A copy brings a buffer of its own. -/
def Contents.buffers : Contents → Nat
  | .rootSignature _ _ => 1
  | _ => 0

/-- How many buffers come in with the edit. -/
def Edit.buffers (seen : Nat → Option Bytes) : Edit Subobject → Nat
  | create _ spec => spec.buffers seen
  | clone source _ => source.contents.buffers
  | duplicate _ _ => 0
  | rename _ _ => 0
  | remove _ => 0

namespace Account

/-- A new account. Nothing has come in. -/
def make (limit : Option Nat) : Account := { inventory := .make limit }

/-- What the edit hands back and leaves. What is taken out has come in all the same. -/
def edit (acc : Account) (e : Edit Subobject) : Except Refusal (Reply Subobject × Account) :=
  match acc.inventory.edit e with
  | .error r => .error r
  | .ok (reply, inventory) =>
    .ok (reply,
      { inventory, strings := acc.strings ++ e.brings, buffers := acc.buffers + e.buffers acc.inventory.seen })

end Account

/-! ## The same of a catalog -/

theorem Edit.Related.strings_eq {e : Edit View} {e' : Edit Subobject} (h : e.Related View.Copies e') :
    e.strings = e'.brings := by
  cases h with
  | @clone source s name hs =>
    have hread : source.contents = .ok s.contents := hs.resolve
    rw [Edit.strings, hread]
    rfl
  | _ => rfl

theorem BufferStore.Sound.size_noting {b : BufferStore} (h : b.Sound) (spec : Spec) :
    (b.noting spec).size = b.size + spec.buffers b.bytesAt? := by
  cases spec with
  | rootSignature scope slice =>
    cases hk : b.find? slice with
    | some k =>
      obtain ⟨bytes, -, hseen⟩ := h.resolve?_find? hk
      simp [noting, Spec.buffers, hk, hseen]
    | none =>
      have hseen := bytesAt?_of_find?_none hk
      simp [noting, Spec.buffers, hk, hseen]
  | _ => rfl

theorem BufferStore.size_copying (b : BufferStore) (contents : Contents) :
    (b.copying contents).size = b.size + contents.buffers := by
  cases contents with
  | rootSignature scope r => exact b.size_withCopy r.data
  | _ => rfl

namespace Catalog

variable {c : Catalog} {acc : Account} {subs : List Subobject}

theorem Ends.bufferCount_eq (h : c.Holds subs) {e : Edit View} {e' : Edit Subobject} (he : e.Related View.Copies e')
    {done : Outcome Catalog (Reply View)} (hends : c.Ends subs e done) {v : Reply View} (hv : done.result = .ok v) :
    done.state.bufferCount = c.bufferCount + e'.buffers c.pool.buffers.bytesAt? := by
  cases hends with
  | refused _ => cases hv
  | @created name spec _ payload pool _ _ _ hb _ =>
    cases he
    show pool.buffers.size = _
    rw [hb]
    exact h.pool.buffers.size_noting spec
  | @cloned source s name payload pool hs _ _ _ hb _ =>
    cases he with
    | clone _ hs' =>
      obtain rfl := hs.unique hs'
      show pool.buffers.size = _
      rw [hb]
      exact BufferStore.size_copying _ _
  | _ =>
    cases he
    rfl

theorem balances_make (limit : Option Nat) : (make limit).Balances (Account.make limit) := by
  refine ⟨matches_make limit, ?_, ?_⟩
  · cases limit <;> rfl
  · cases limit <;> rfl

theorem Balances.edit (h : c.Balances acc) {e : Edit View} {e' : Edit Subobject} (he : e.Related View.Copies e') :
    match acc.edit e' with
    | .error r => e.call.run c = ⟨.error r, c, []⟩
    | .ok (reply, acc') => ∃ v, (e.call.run c).result = .ok v ∧ v.read = .ok reply ∧
        (e.call.run c).state.Balances acc' := by
  have hagrees := h.inventory.edit he
  have hends := h.inventory.holds.ends he
  rw [Account.edit]
  cases hedit : acc.inventory.edit e' with
  | error r =>
    rw [hedit] at hagrees
    exact hagrees
  | ok done =>
    rw [hedit] at hagrees
    obtain ⟨v, hv, hread, hmatches⟩ := hagrees
    have hsymbols := hends.symbols
    rw [hv] at hsymbols
    refine ⟨v, hv, hread, hmatches, ?_, ?_⟩
    · rw [hsymbols, he.strings_eq]
      exact h.inventory.holds.pool.symbols.lists_internAll h.strings e'.brings
    · rw [hends.bufferCount_eq h.inventory.holds he hv, h.buffers, ← h.inventory.seen]

end Catalog

end StateObject
