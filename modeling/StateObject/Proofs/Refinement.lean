/-
  StateObject.Proofs.Refinement — nobody can tell catalogs from accounts.

  A `Service` is what catalogs, inventories and accounts have in common: they are made,
  edited and asked. `run` serves requests on any number of them, each request to one of
  those made so far; a clone names the one that it copies from. Responses hold names and
  bytes, and no slot.

  - `Simulates`: related states look up, end an edit and answer what is asked alike, and an
    edit leaves them related. Then one request has one response and leaves the worlds
    related (`Simulates.step`), and so has every list of requests (`Simulates.run_eq`).
  - `catalog_simulates`: catalogs do so with the accounts that they balance;
    `account_simulates`: accounts do so with their inventories, as long as nobody asks how
    much was stored.
  - `counts_outlive_subobjects`: if somebody asks, inventories alone will not do, whatever
    they answer. They forget what was taken out, and the counts do not.
  - `catalogs_respond_as_accounts`: from no catalog at all, every list of requests has the
    responses of the accounts and, without the counts, those of the inventories.
-/

import StateObject.Proofs.Accounts

namespace StateObject

/-- A request, with catalogs numbered as they were made. -/
inductive Request where
  | make (limit : Option Nat)
  /-- A clone's source is a catalog and a name in it. -/
  | edit (k : Nat) (e : Edit (Nat × String))
  | ask (k : Nat) (q : Query)

/-- Whether the read is a count of what was stored. -/
def Query.counts : Query → Bool
  | stringCount => true
  | bufferCount => true
  | _ => false

/-- What is asked, if anything is. -/
def Request.query? : Request → Option Query
  | ask _ q => some q
  | _ => none

/-- Whether a count of what was stored is asked for. -/
def Request.counts (r : Request) : Bool := r.query?.any (·.counts)

inductive Response where
  | made
  /-- There is no such catalog, or no such source to clone. -/
  | absent
  | edited (reply : Except Refusal (Reply Subobject))
  | answered (answer : Except Refusal Answer)
  deriving DecidableEq

/-- The edit with what it copies looked up. -/
def Edit.locate? {ω ω' : Type} (f : ω → Option ω') : Edit ω → Option (Edit ω')
  | create name spec => some (create name spec)
  | clone source name => (f source).map (clone · name)
  | duplicate source name => some (duplicate source name)
  | rename source name => some (rename source name)
  | remove name => some (remove name)

/-- What can be done with a `γ`, the subobjects of which are `ω`s. -/
structure Service (γ ω : Type) where
  make : Option Nat → γ
  find? : γ → String → Option ω
  /-- The reply, and what is left. -/
  edit : Edit ω → γ → Except Refusal (Reply Subobject) × γ
  answer : Query → γ → Except Refusal Answer

namespace Service

variable {γ ω : Type}

def source? (sv : Service γ ω) (world : List γ) (source : Nat × String) : Option ω :=
  world[source.1]?.bind (sv.find? · source.2)

def step (sv : Service γ ω) (world : List γ) : Request → Response × List γ
  | .make limit => (.made, world ++ [sv.make limit])
  | .edit k e =>
    match world[k]?, e.locate? (sv.source? world) with
    | some c, some e => (.edited (sv.edit e c).1, world.set k (sv.edit e c).2)
    | _, _ => (.absent, world)
  | .ask k q =>
    match world[k]? with
    | some c => (.answered (sv.answer q c), world)
    | none => (.absent, world)

/-- The responses to the requests, one after the other. -/
def run (sv : Service γ ω) : List γ → List Request → List Response
  | _, [] => []
  | world, r :: rs => (sv.step world r).1 :: sv.run (sv.step world r).2 rs

/-- The result of an edit and what it leaves. One that is refused leaves what was there. -/
def settle (before : γ) : Except Refusal (Reply Subobject × γ) → Except Refusal (Reply Subobject) × γ
  | .ok (reply, left) => (.ok reply, left)
  | .error r => (.error r, before)

end Service

def Catalog.service : Service Catalog View where
  make := Catalog.make
  find? := Catalog.find?
  edit e c := ((e.call.run c).result.bind Reply.read, (e.call.run c).state)
  answer q c := c.answer q

/-- Inventories, which answer by what is in them. -/
def Inventory.service (answer : Query → Inventory → Except Refusal Answer) : Service Inventory Subobject where
  make := Inventory.make
  find? := Inventory.find?
  edit e inv := Service.settle inv (inv.edit e)
  answer := answer

/-- Inventories that answer like accounts on which nothing came in. -/
def Inventory.plain : Service Inventory Subobject :=
  service fun q inv => .ok (Account.answer { inventory := inv } q)

def Account.service : Service Account Subobject where
  make := Account.make
  find? acc := acc.inventory.find?
  edit e acc := Service.settle acc (acc.edit e)
  answer q acc := .ok (acc.answer q)

/-! ## One service in step with another -/

structure Simulates {γ γ' ω ω' : Type} (sv : Service γ ω) (sv' : Service γ' ω') (R : γ → γ' → Prop)
    (S : ω → ω' → Prop) (asked : Query → Prop) : Prop where
  make : ∀ limit, R (sv.make limit) (sv'.make limit)
  find? : ∀ c c' name, R c c' → Option.Rel S (sv.find? c name) (sv'.find? c' name)
  edit : ∀ c c' e e', R c c' → e.Related S e' →
    (sv.edit e c).1 = (sv'.edit e' c').1 ∧ R (sv.edit e c).2 (sv'.edit e' c').2
  answer : ∀ c c' q, R c c' → asked q → sv.answer q c = sv'.answer q c'

theorem Edit.rel_locate? {α ω ω' : Type} {S : ω → ω' → Prop} {f : α → Option ω} {g : α → Option ω'}
    (h : ∀ a, Option.Rel S (f a) (g a)) (e : Edit α) :
    Option.Rel (fun e e' => Edit.Related S e e') (e.locate? f) (e.locate? g) := by
  cases e with
  | create name spec => exact .some (.create name spec)
  | clone source name =>
    have hs := h source
    simp only [locate?]
    generalize f source = x, g source = y at hs ⊢
    cases hs with
    | none => exact .none
    | some hs => exact .some (.clone name hs)
  | duplicate source name => exact .some (.duplicate source name)
  | rename source name => exact .some (.rename source name)
  | remove name => exact .some (.remove name)

namespace Simulates

variable {γ γ' ω ω' : Type} {sv : Service γ ω} {sv' : Service γ' ω'} {R : γ → γ' → Prop} {S : ω → ω' → Prop}
  {asked : Query → Prop} {world : List γ} {world' : List γ'}

theorem source? (h : Simulates sv sv' R S asked) (hw : List.Forall₂ R world world') (source : Nat × String) :
    Option.Rel S (sv.source? world source) (sv'.source? world' source) := by
  have hc := rel_getElem? hw source.1
  unfold Service.source?
  generalize world[source.1]? = c, world'[source.1]? = c' at hc ⊢
  cases hc with
  | none => exact .none
  | some hc => exact h.find? _ _ _ hc

/-- One request: the same response, and the worlds stay related. -/
theorem step (h : Simulates sv sv' R S asked) (hw : List.Forall₂ R world world') {r : Request}
    (hr : ∀ q ∈ r.query?, asked q) :
    (sv.step world r).1 = (sv'.step world' r).1 ∧
      List.Forall₂ R (sv.step world r).2 (sv'.step world' r).2 := by
  cases r with
  | make limit => exact ⟨rfl, forall₂_append hw (.cons (h.make limit) .nil)⟩
  | edit k e =>
    have hc := rel_getElem? hw k
    have he := Edit.rel_locate? (h.source? hw) e
    simp only [Service.step]
    generalize world[k]? = c, world'[k]? = c', e.locate? (sv.source? world) = x,
      e.locate? (sv'.source? world') = x' at hc he ⊢
    cases hc with
    | none => exact ⟨rfl, hw⟩
    | some hc =>
      cases he with
      | none => exact ⟨rfl, hw⟩
      | some he =>
        obtain ⟨hreply, hleft⟩ := h.edit _ _ _ _ hc he
        exact ⟨congrArg Response.edited hreply, forall₂_set hw k hleft⟩
  | ask k q =>
    have hc := rel_getElem? hw k
    simp only [Service.step]
    generalize world[k]? = c, world'[k]? = c' at hc ⊢
    cases hc with
    | none => exact ⟨rfl, hw⟩
    | some hc => exact ⟨congrArg Response.answered (h.answer _ _ q hc (hr q rfl)), hw⟩

/-- Every list of requests: the same responses. -/
theorem run_eq (h : Simulates sv sv' R S asked) (hw : List.Forall₂ R world world') {requests : List Request}
    (hr : ∀ r ∈ requests, ∀ q ∈ r.query?, asked q) : sv.run world requests = sv'.run world' requests := by
  induction requests generalizing world world' with
  | nil => rfl
  | cons r rs ih =>
    obtain ⟨hresponse, hnext⟩ := h.step hw (hr r List.mem_cons_self)
    rw [Service.run, Service.run, hresponse, ih hnext fun r' hr' => hr r' (List.mem_cons_of_mem r hr')]

end Simulates

/-! ## Accounts in step with inventories -/

theorem Edit.Related.eq {ω : Type} {e e' : Edit ω} (h : e.Related (· = ·) e') : e = e' := by
  cases h with
  | clone name hs => rw [hs]
  | _ => rfl

theorem account_simulates :
    Simulates Account.service Inventory.plain (fun acc inv => acc.inventory = inv) (· = ·)
      (fun q => q.counts = false) where
  make _ := rfl
  find? acc _ name h := by
    subst h
    show Option.Rel _ (acc.inventory.find? name) (acc.inventory.find? name)
    cases acc.inventory.find? name with
    | none => exact .none
    | some s => exact .some rfl
  edit acc _ e _ h he := by
    subst h
    obtain rfl := he.eq
    simp only [Account.service, Inventory.plain, Inventory.service, Account.edit]
    cases acc.inventory.edit e with
    | error r => exact ⟨rfl, rfl⟩
    | ok done => exact ⟨rfl, rfl⟩
  answer acc _ q h hq := by
    subst h
    cases q with
    | stringCount => cases hq
    | bufferCount => cases hq
    | _ => rfl

/-! ## Catalogs in step with accounts -/

namespace Catalog

variable {c : Catalog}

/-- Refused or done, an edit ends alike and leaves them balanced. -/
theorem Balances.serve_edit {acc : Account} (h : c.Balances acc) {e : Edit View} {e' : Edit Subobject}
    (he : e.Related View.Copies e') :
    (service.edit e c).1 = (Account.service.edit e' acc).1 ∧
      (service.edit e c).2.Balances (Account.service.edit e' acc).2 := by
  have hends := h.edit he
  simp only [service, Account.service]
  cases hedit : acc.edit e' with
  | error r =>
    rw [hedit] at hends
    rw [show e.call.run c = _ from hends]
    exact ⟨rfl, h⟩
  | ok done =>
    rw [hedit] at hends
    obtain ⟨v, hv, hread, hbalances⟩ := hends
    exact ⟨by rw [hv]; exact hread, hbalances⟩

theorem catalog_simulates : Simulates service Account.service Balances View.Copies fun _ => True where
  make := balances_make
  find? _ _ name h := h.inventory.rel_find? name
  edit _ _ _ _ h he := h.serve_edit he
  answer _ _ q h _ := h.answer_eq q

/-- The second catalog takes in a copy and gives it up again. What it holds is then what it
    held before, down to the addresses that it knows; what it has stored is not. So neither
    count can be told from an inventory, in whatever way. -/
theorem counts_outlive_subobjects :
    let requests (q : Query) : List Request :=
      [.make none, .edit 0 (.create "blob" (.rootSignature .globalScope ⟨64, [1, 2]⟩)), .make none, .ask 1 q,
        .edit 1 (.clone (0, "blob") "copy"), .edit 1 (.remove "copy"), .ask 1 q]
    (¬ ∃ answer, service.run [] (requests .stringCount) = (Inventory.service answer).run [] (requests .stringCount)) ∧
      ¬ ∃ answer, service.run [] (requests .bufferCount) = (Inventory.service answer).run [] (requests .bufferCount) := by
  intro requests
  have hnone : ∀ q, (service.run [] (requests q))[3]? = some (.answered (.ok (.number 0))) →
      (service.run [] (requests q))[6]? = some (.answered (.ok (.number 1))) →
        ¬ ∃ answer, service.run [] (requests q) = (Inventory.service answer).run [] (requests q) := by
    intro q hbefore hafter h
    obtain ⟨answer, heq⟩ := h
    -- the inventory without the copy is the one before it came
    have hsame : ((Inventory.service answer).run [] (requests q))[3]? =
        ((Inventory.service answer).run [] (requests q))[6]? := rfl
    rw [← heq, hbefore, hafter] at hsame
    exact absurd hsame (by decide)
  exact ⟨hnone .stringCount (by decide +kernel) (by decide +kernel),
    hnone .bufferCount (by decide +kernel) (by decide +kernel)⟩

/-- Whatever is requested, of however many catalogs and in whatever order, the responses
    are those of accounts: the subobjects written out, the bytes that each address stands
    for, and what came in. The counts of what is stored alone need to know what came in;
    without them, the responses are those of inventories. -/
theorem catalogs_respond_as_accounts (requests : List Request) :
    service.run [] requests = Account.service.run [] requests ∧
      let others := requests.filter (!·.counts)
      service.run [] others = Inventory.plain.run [] others := by
  have haccounts : ∀ rs : List Request, service.run [] rs = Account.service.run [] rs := fun rs =>
    catalog_simulates.run_eq .nil fun _ _ _ _ => True.intro
  refine ⟨haccounts requests, ?_⟩
  intro others
  rw [haccounts others]
  refine account_simulates.run_eq .nil ?_
  intro r hr q hq
  have hcounts : r.counts = false := by simpa using (List.mem_filter.mp hr).2
  rw [Request.counts, show r.query? = some q from hq] at hcounts
  exact hcounts

end Catalog

end StateObject
