/-
  StateObject.Call — a call on a store.

  A call starts in a state of the store, and ends with a result, a state and the
  records it made. It may refuse; whatever it did before it refused stays done, so
  that a refused call leaves no trace is a property of the call and not of this type.

  `run_bind` and its neighbours say what each way of building a call does; the monad
  laws hold (`LawfulMonad`).
-/

import StateObject.Record
import StateObject.Refusal

namespace StateObject

/-- How a call ends. -/
structure Outcome (σ α : Type) where
  result : Except Refusal α
  state : σ
  /-- The records made, first to last. -/
  log : List Record

def Call (σ α : Type) : Type := σ → Outcome σ α

namespace Call

variable {σ τ α β : Type}

def run (call : Call σ α) (state : σ) : Outcome σ α := call state

instance : Monad (Call σ) where
  pure a := fun s => ⟨.ok a, s, []⟩
  bind call next := fun s =>
    match call s with
    | ⟨.ok a, s', log⟩ =>
      let rest := next a s'
      { rest with log := log ++ rest.log }
    | ⟨.error r, s', log⟩ => ⟨.error r, s', log⟩

/-- Reads the state. -/
def get : Call σ σ := fun s => ⟨.ok s, s, []⟩

/-- Computes a result and the next state from the state. -/
def update (f : σ → α × σ) : Call σ α := fun s => ⟨.ok (f s).1, (f s).2, []⟩

def refuse (r : Refusal) : Call σ α := fun s => ⟨.error r, s, []⟩

/-- Makes one record. -/
def log (r : Record) : Call σ Unit := fun s => ⟨.ok (), s, [r]⟩

/-- Goes on with a value that was read, or refuses as the reading did. -/
def ofExcept (read : Except Refusal α) : Call σ α := fun s => ⟨read, s, []⟩

/-- A call on one part of a state. -/
def within (part : τ → σ) (put : τ → σ → τ) (call : Call σ α) : Call τ α := fun t =>
  let done := call (part t)
  { done with state := put t done.state }

@[simp] theorem run_pure (a : α) (s : σ) : (pure a : Call σ α).run s = ⟨.ok a, s, []⟩ := rfl

theorem run_bind (call : Call σ α) (next : α → Call σ β) (s : σ) :
    (call >>= next).run s =
      match call.run s with
      | ⟨.ok a, s', l⟩ => { (next a).run s' with log := l ++ ((next a).run s').log }
      | ⟨.error r, s', l⟩ => ⟨.error r, s', l⟩ := rfl

theorem run_bind_of_ok {call : Call σ α} {next : α → Call σ β} {s s' : σ} {a : α} {l : List Record}
    (h : call.run s = ⟨.ok a, s', l⟩) :
    (call >>= next).run s = { (next a).run s' with log := l ++ ((next a).run s').log } := by
  rw [run_bind, h]

theorem run_bind_of_error {call : Call σ α} {next : α → Call σ β} {s s' : σ} {r : Refusal} {l : List Record}
    (h : call.run s = ⟨.error r, s', l⟩) : (call >>= next).run s = ⟨.error r, s', l⟩ := by
  rw [run_bind, h]

@[simp] theorem run_map (f : α → β) (call : Call σ α) (s : σ) :
    (f <$> call).run s = ⟨(call.run s).result.map f, (call.run s).state, (call.run s).log⟩ := by
  show (call >>= fun a => pure (f a)).run s = _
  rw [run_bind]
  rcases call.run s with ⟨_ | _, _, _⟩ <;> simp [Except.map]

@[simp] theorem run_get (s : σ) : (get : Call σ σ).run s = ⟨.ok s, s, []⟩ := rfl

@[simp] theorem run_update (f : σ → α × σ) (s : σ) : (update f).run s = ⟨.ok (f s).1, (f s).2, []⟩ := rfl

@[simp] theorem run_refuse (r : Refusal) (s : σ) : (refuse r : Call σ α).run s = ⟨.error r, s, []⟩ := rfl

@[simp] theorem run_log (r : Record) (s : σ) : (log r).run s = ⟨.ok (), s, [r]⟩ := rfl

@[simp] theorem run_ofExcept (read : Except Refusal α) (s : σ) : (ofExcept read).run s = ⟨read, s, []⟩ := rfl

@[simp] theorem run_within (part : τ → σ) (put : τ → σ → τ) (call : Call σ α) (t : τ) :
    (within part put call).run t =
      ⟨(call.run (part t)).result, put t (call.run (part t)).state, (call.run (part t)).log⟩ := rfl

instance : LawfulMonad (Call σ) := LawfulMonad.mk' _
  (fun call => funext fun s => by
    show (call >>= pure).run s = call.run s
    rw [run_bind]
    rcases call.run s with ⟨_ | _, _, _⟩ <;> simp)
  (fun a next => rfl)
  (fun call f g => funext fun s => by
    show ((call >>= f) >>= g).run s = (call >>= fun a => f a >>= g).run s
    simp only [run_bind]
    rcases call.run s with ⟨_ | a, s', l⟩
    · rfl
    · rcases h : (f a).run s' with ⟨_ | _, _, _⟩ <;> simp [h])

end Call

end StateObject
