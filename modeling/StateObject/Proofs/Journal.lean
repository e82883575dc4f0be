/-
  StateObject.Proofs.Journal — the journal of a session tells what the catalog holds.

  - `Accounts`: the records lead from one list of subobjects to another, both as they are
    replayed and as they are counted, and each copy and renaming has its creation right
    after it. The records of an edit lead from what the catalog held to what it holds
    (`Ends.accounts`), and so do those of a whole session (`Session.Accounted`).
  - `Logs`: the records that an act makes. A refused edit, a removal of nothing and a read
    make none of a change, and a buffer is only said to be stored already where it is
    (`Ends.logs`).
  - `Session.knows_after`: the addresses that have a buffer are those that root signatures
    were created from.
  - `Session.journal_tells_all`: all of this from a new catalog on.
-/

import StateObject.Proofs.Atomicity
import StateObject.Proofs.JournalText
import StateObject.Proofs.Sessions

namespace StateObject

open JournalText

namespace Record

def isCreated : Record → Bool
  | created .. => true
  | _ => false

def isRemoved : Record → Bool
  | removed _ => true
  | _ => false

def isRenamed : Record → Bool
  | renamed .. => true
  | _ => false

/-- The name that the record says is about to be entered. -/
def announced? : Record → Option String
  | cloned _ name => some name
  | duplicated _ name => some name
  | renamed _ name => some name
  | _ => none

end Record

/-- What a reader of the journal sees of the changes. -/
def debugTexts (log : List Record) : List String := (log.filter (·.level = .debug)).map (·.text)

/-- Each record that announces a name has the creation of that name right after it. -/
def Paired : List Record → Prop
  | [] => True
  | r :: rest => (∀ name, r.announced? = some name → ∃ kind, rest.head? = some (.created kind name)) ∧ Paired rest

def roster (subs : List Subobject) : List (String × Kind) := subs.map fun s => (s.name, s.kind)

/-- The records lead from `subs` to `subs'`. -/
structure Accounts (log : List Record) (subs subs' : List Subobject) : Prop where
  replay : replay (roster subs) (debugTexts log) = some (roster subs')
  count : log.countP (·.isCreated) + subs.length =
    log.countP (·.isRemoved) + log.countP (·.isRenamed) + subs'.length
  paired : Paired log

theorem debugTexts_append (l l' : List Record) : debugTexts (l ++ l') = debugTexts l ++ debugTexts l' := by
  simp [debugTexts]

theorem Paired.single {r : Record} (h : r.announced? = none) : Paired [r] := by
  refine ⟨?_, True.intro⟩
  intro name hname
  rw [h] at hname
  cases hname

theorem Paired.append {l l' : List Record} (h : Paired l) (h' : Paired l') : Paired (l ++ l') := by
  induction l with
  | nil => exact h'
  | cons r rest ih =>
    refine ⟨?_, ih h.2⟩
    intro name hr
    obtain ⟨kind, hnext⟩ := h.1 name hr
    -- the creation is in the first list, for nothing else is known to follow there
    cases rest with
    | nil => cases hnext
    | cons _ _ => exact ⟨kind, hnext⟩

namespace Accounts

variable {l l' : List Record} {subs subs' subs'' : List Subobject}

theorem trans (h : Accounts l subs subs') (h' : Accounts l' subs' subs'') : Accounts (l ++ l') subs subs'' := by
  refine ⟨?_, ?_, h.paired.append h'.paired⟩
  · rw [debugTexts_append, replay_append h.replay, h'.replay]
  · have hcount := h.count
    have hcount' := h'.count
    simp only [List.countP_append]
    omega

theorem quiet {r : Record} (h : r.level ≠ .debug) : Accounts [r] subs subs := by
  cases r with
  | alreadyStored _ _ => exact ⟨rfl, rfl, .single rfl⟩
  | found _ => exact ⟨rfl, rfl, .single rfl⟩
  | _ => exact absurd rfl h

/-- Records of no change lead nowhere. -/
theorem of_quiet (h : ∀ r ∈ l, r.level ≠ .debug) : Accounts l subs subs := by
  induction l with
  | nil => exact ⟨rfl, rfl, True.intro⟩
  | cons r rest ih => exact (quiet (h r List.mem_cons_self)).trans (ih fun r' hr' => h r' (List.mem_cons_of_mem r hr'))

theorem created (s : Subobject) : Accounts [.created s.kind s.name] subs (subs ++ [s]) := by
  refine ⟨?_, ?_, ?_⟩
  · show (step (roster subs) (Record.created s.kind s.name).text none).bind _ = _
    rw [step_created, roster, roster, List.map_append]
    rfl
  · show 1 + subs.length = 0 + 0 + (subs ++ [s]).length
    rw [List.length_append, List.length_singleton]
    omega
  · exact .single rfl

theorem roster_eraseP (subs : List Subobject) (name : String) :
    roster (subs.eraseP (·.name = name)) = (roster subs).eraseP (·.1 = name) := by
  rw [roster, roster, List.eraseP_map]
  rfl

theorem length_eraseP {name : String} {s : Subobject} (hs : subs.find? (·.name = name) = some s) :
    (subs.eraseP (·.name = name)).length + 1 = subs.length := by
  have hmem := List.mem_of_find?_eq_some hs
  have hpos := List.length_pos_of_mem hmem
  have hp := List.find?_some hs
  rw [List.length_eraseP_of_mem hmem hp]
  omega

theorem removed {name : String} {s : Subobject} (hs : subs.find? (·.name = name) = some s) :
    Accounts [.removed name] subs (subs.eraseP (·.name = name)) := by
  refine ⟨?_, ?_, ?_⟩
  · show (step (roster subs) (Record.removed name).text none).bind _ = _
    rw [step_removed, roster_eraseP]
    rfl
  · have hlength := length_eraseP hs
    show 0 + subs.length = 1 + 0 + (subs.eraseP (·.name = name)).length
    omega
  · exact .single rfl

/-- A record that announces a creation, and the creation. -/
theorem announced {r : Record} {s : Subobject} (hr : r.level = .debug) (hname : r.announced? = some s.name)
    (hstep : step (roster subs) r.text (some (Record.created s.kind s.name).text) = some (roster subs'))
    (hcount : [r].countP (·.isCreated) + subs.length =
      [r].countP (·.isRemoved) + [r].countP (·.isRenamed) + subs'.length) :
    Accounts [r, .created s.kind s.name] subs (subs' ++ [s]) := by
  have hcreated : Accounts [.created s.kind s.name] subs' (subs' ++ [s]) := created s
  refine ⟨?_, ?_, ?_, hcreated.paired⟩
  · have htexts : debugTexts [r, .created s.kind s.name] = r.text :: debugTexts [.created s.kind s.name] := by
      simp [debugTexts, hr]
    rw [htexts, JournalText.replay]
    show (step _ _ (some (Record.created s.kind s.name).text)).bind _ = _
    rw [hstep]
    exact hcreated.replay
  · have hcount' := hcreated.count
    rw [show [r, .created s.kind s.name] = [r] ++ [.created s.kind s.name] from rfl]
    simp only [List.countP_append]
    omega
  · intro name h
    rw [hname] at h
    cases h
    exact ⟨s.kind, rfl⟩

theorem cloned (source : String) (s : Subobject) :
    Accounts [.cloned source s.name, .created s.kind s.name] subs (subs ++ [s]) :=
  announced rfl rfl (step_cloned ..) rfl

theorem duplicated (source : String) (s : Subobject) :
    Accounts [.duplicated source s.name, .created s.kind s.name] subs (subs ++ [s]) :=
  announced rfl rfl (step_duplicated ..) rfl

theorem renamed {source : String} {t : Subobject} (ht : subs.find? (·.name = source) = some t) (s : Subobject) :
    Accounts [.renamed source s.name, .created s.kind s.name] subs (subs.eraseP (·.name = source) ++ [s]) := by
  refine announced rfl rfl ?_ ?_
  · rw [step_renamed, roster_eraseP]
  · have hlength := length_eraseP ht
    show 0 + subs.length = 0 + 1 + (subs.eraseP (·.name = source)).length
    omega

end Accounts

/-! ## Edits -/

/-- The address that the request comes from, if it is for a root signature. -/
def Spec.address? : Spec → Option Nat
  | .rootSignature _ slice => some slice.address
  | _ => none

/-- The address that the edit makes a root signature from, if it does. -/
def Edit.address? : Edit View → Option Nat
  | create _ spec => spec.address?
  | _ => none

theorem BufferStore.origins_noting (b : BufferStore) (spec : Spec) (a : Nat) :
    ((b.noting spec).origins[a]?).isSome ↔ b.origins[a]?.isSome ∨ spec.address? = some a := by
  cases spec with
  | rootSignature scope slice =>
    have haddress : (Spec.address? (.rootSignature scope slice) = some a) ↔ a = slice.address := by
      simp [Spec.address?, eq_comm]
    rw [noting, haddress]
    cases hk : b.find? slice with
    | some k =>
      have hknown : b.origins[slice.address]? = some k.index := find?_eq_some_iff.mp hk
      simp only [Option.isSome_some, if_true]
      constructor
      · exact Or.inl
      · intro h
        rcases h with h | rfl
        · exact h
        · rw [hknown]
          rfl
    | none =>
      simp only [Option.isSome_none, Bool.false_eq_true, if_false, origins_withSlice]
      by_cases ha : a = slice.address <;> simp [ha]
  | _ => simp [noting, Spec.address?]

/-- A record is only made of an address that has a buffer. -/
theorem Spec.records_eq_nil {spec : Spec} {b : BufferStore}
    (h : ∀ a, spec.address? = some a → ¬ b.origins[a]?.isSome) : spec.records b = [] := by
  cases spec with
  | rootSignature scope slice =>
    have hnone : b.find? slice = none := by
      rw [BufferStore.find?_eq_none_iff, ← Option.not_isSome_iff_eq_none]
      exact h slice.address rfl
    rw [records, hnone]
  | _ => rfl

theorem Spec.level_of_mem_records {spec : Spec} {b : BufferStore} {r : Record} (h : r ∈ spec.records b) :
    r.level = .trace := by
  cases spec with
  | rootSignature scope slice =>
    rw [records] at h
    cases hk : b.find? slice with
    | none =>
      rw [hk] at h
      cases h
    | some k =>
      rw [hk] at h
      rw [List.mem_singleton.mp h]
      rfl
  | _ => cases h

namespace Catalog

variable {c : Catalog} {subs : List Subobject} {e : Edit View} {done : Outcome Catalog (Reply View)}

theorem Ends.accounts (h : c.Ends subs e done) (hc : c.Holds subs) :
    ∃ subs', done.state.Holds subs' ∧ Accounts done.log subs subs' := by
  cases h with
  | refused _ => exact ⟨subs, hc, .of_quiet fun r hr => by cases hr⟩
  | @created name spec contents payload pool hn haccept htakes _ _ =>
    have hkind : payload.kind = contents.kind := Pool.kind_of_resolve htakes.resolve
    refine ⟨_, (hc.grow htakes.grows htakes.sound).enter hn htakes.resolve (Spec.flagsDefined_of_accept haccept), ?_⟩
    have hquiet : ∀ r ∈ spec.records c.pool.buffers, r.level ≠ .debug := by
      intro r hr
      rw [Spec.level_of_mem_records hr]
      exact Level.noConfusion
    rw [hkind]
    exact (Accounts.of_quiet hquiet).trans (.created ⟨name, contents⟩)
  | @cloned source s name payload pool hs hn _ htakes _ _ =>
    have hkind : payload.kind = s.contents.kind := Pool.kind_of_resolve htakes.resolve
    refine ⟨_, (hc.grow htakes.grows htakes.sound).enter hn htakes.resolve hs.flags, ?_⟩
    rw [hkind]
    exact .cloned s.name ⟨name, s.contents⟩
  | @duplicated source name k entry s hl hn =>
    have hkind : entry.payload.kind = s.contents.kind := Pool.kind_of_resolve hl.shows.contents
    have hf := hc.flags _ (List.mem_of_find?_eq_some hl.found)
    refine ⟨_, hc.enter hn hl.shows.contents hf, ?_⟩
    rw [hkind]
    exact .duplicated source ⟨name, s.contents⟩
  | @renamed source name k entry s hl hn =>
    have hkind : entry.payload.kind = s.contents.kind := Pool.kind_of_resolve hl.shows.contents
    have hf := hc.flags _ (List.mem_of_find?_eq_some hl.found)
    have hn' := List.Sublist.find?_eq_none (List.eraseP_sublist (p := (·.name = source))) hn
    refine ⟨_, (hc.without hl).enter hn' hl.shows.contents hf, ?_⟩
    rw [hkind]
    exact .renamed hl.found ⟨name, s.contents⟩
  | @removed name k entry s hl => exact ⟨_, hc.without hl, .removed hl.found⟩
  | removedNone _ => exact ⟨subs, hc, .of_quiet fun r hr => by cases hr⟩

/-! ## Addresses -/

/-- The address has a buffer already. -/
def Knows (c : Catalog) (a : Nat) : Prop := c.pool.buffers.origins[a]?.isSome

theorem Ends.knows (h : c.Ends subs e done) {reply : Reply View} (hr : done.result = .ok reply) (a : Nat) :
    done.state.Knows a ↔ c.Knows a ∨ e.address? = some a := by
  cases h with
  | refused _ => cases hr
  | @created name spec contents payload pool _ _ _ hb _ =>
    show pool.buffers.origins[a]?.isSome ↔ _
    rw [hb]
    exact BufferStore.origins_noting _ _ _
  | @cloned source s name payload pool _ _ _ _ hb _ =>
    show pool.buffers.origins[a]?.isSome ↔ _
    rw [hb, BufferStore.origins_copying]
    simp [Knows, Edit.address?]
  | duplicated _ _ => simp [Knows, Edit.address?, entered]
  | renamed _ _ => simp [Knows, Edit.address?, entered, without]
  | removed _ => simp [Knows, Edit.address?, without]
  | removedNone _ => simp [Edit.address?]

/-! ## The records of one act -/

/-- The records that an act makes, where `stored` are the addresses that root signatures
    were created from before. -/
inductive Logs (c : Catalog) (stored : List Nat) : Action → List Record → Prop
  | asked {q : Query} {log : List Record} : (∀ r ∈ log, r.level = .warn) → Logs c stored (.ask q) log
  | refused {e : Edit View} {r : Refusal} : (e.call.run c).result = .error r → Logs c stored (.edit e) []
  | removedNone {name : String} : ((Edit.remove name).call.run c).result = .ok (.removed false) →
      Logs c stored (.edit (.remove name)) []
  | alreadyStored {name : String} {scope : Scope} {slice : Slice} {v : View} {k : BufferSlot} :
      ((Edit.create name (.rootSignature scope slice)).call.run c).result = .ok (.subobject v) →
      slice.address ∈ stored → v.entry.payload.slot? = some k →
      Logs c stored (.edit (.create name (.rootSignature scope slice)))
        [.alreadyStored slice.address k.index, .created (.rootSignature scope) name]
  | done {e : Edit View} {reply : Reply View} {log : List Record} : (e.call.run c).result = .ok reply →
      reply ≠ .removed false → (∀ a ∈ stored, e.address? ≠ some a) → log ≠ [] → (∀ r ∈ log, r.level = .debug) →
      Logs c stored (.edit e) log

theorem Ends.logs (h : c.Ends subs e (e.call.run c)) {stored : List Nat} (hs : ∀ a, a ∈ stored ↔ c.Knows a) :
    c.Logs stored (.edit e) (e.call.run c).log := by
  generalize hdone : e.call.run c = done at h ⊢
  have hresult : (e.call.run c).result = done.result := congrArg Outcome.result hdone
  cases h with
  | refused _ => exact .refused hresult
  | @created name spec contents payload pool _ haccept htakes hb hslot =>
    -- a record is made of the buffer exactly if its address was stored before
    by_cases hknown : ∃ a ∈ stored, spec.address? = some a
    · obtain ⟨a, hmem, ha⟩ := hknown
      cases spec with
      | rootSignature scope slice =>
        obtain rfl := Option.some.inj ha
        obtain ⟨i, hi⟩ := Option.isSome_iff_exists.mp ((hs _).mp hmem)
        have hfound : c.pool.buffers.find? slice = some ⟨i⟩ := BufferStore.find?_eq_some_iff.mpr hi
        have hkind : payload.kind = .rootSignature scope :=
          (Pool.kind_of_resolve htakes.resolve).trans (Spec.alike_of_accept haccept).1
        have hpayload : payload.slot? = some ⟨i⟩ := by
          rw [hslot, hb, Spec.slot?, BufferStore.noting, hfound]
          exact hfound
        rw [hkind, Spec.records, hfound]
        exact .alreadyStored hresult hmem hpayload
      | _ => cases ha
    · have hnone : spec.records c.pool.buffers = [] :=
        Spec.records_eq_nil fun a ha hk => hknown ⟨a, (hs a).mpr hk, ha⟩
      rw [hnone]
      exact .done hresult (by simp) (fun a ha e => hknown ⟨a, ha, e⟩) (by simp) (by simp [Record.level])
  | cloned => exact .done hresult (by simp) (by simp [Edit.address?]) (by simp) (by simp [Record.level])
  | duplicated _ _ => exact .done hresult (by simp) (by simp [Edit.address?]) (by simp) (by simp [Record.level])
  | renamed _ _ => exact .done hresult (by simp) (by simp [Edit.address?]) (by simp) (by simp [Record.level])
  | removed _ => exact .done hresult (by simp) (by simp [Edit.address?]) (by simp) (by simp [Record.level])
  | removedNone _ => exact .removedNone hresult

end Catalog

/-! ## Sessions -/

namespace Session

variable {s : Session} {a : Action} {acts : List Action}

theorem knows_act (h : s.catalog.Reachable) (ha : a.Sourced) (x : Nat) :
    (s.act a).catalog.Knows x ↔ s.catalog.Knows x ∨ x ∈ (s.takes a).filterMap Edit.address? := by
  cases a with
  | edit e =>
    obtain ⟨t, ht, hfrom⟩ := ha
    obtain ⟨subs, -, hends⟩ := h.ends ht hfrom
    show (e.call.run s.catalog).state.Knows x ↔ _
    rw [takes]
    cases hr : (e.call.run s.catalog).result with
    | ok reply =>
      rw [hends.knows hr]
      simp
    | error r =>
      rw [hends.refused_eq hr]
      simp
  | ask q =>
    rw [catalog_ask h q]
    simp [takes]

/-- The addresses that have a buffer are those of the root signatures that were created. -/
theorem knows_after (h : s.catalog.Reachable) (ha : ∀ a ∈ acts, a.Sourced) (x : Nat) :
    (s.after acts).catalog.Knows x ↔ s.catalog.Knows x ∨ x ∈ (s.taken acts).filterMap Edit.address? := by
  induction acts generalizing s with
  | nil => simp [taken]
  | cons a acts ih =>
    have hs : a.Sourced := ha a List.mem_cons_self
    rw [after_cons, ih (reachable_act h hs) fun b hb => ha b (List.mem_cons_of_mem a hb), knows_act h hs, taken,
      List.filterMap_append, List.mem_append, or_assoc]

theorem not_knows_start (limit : Option Nat) (x : Nat) : ¬ (start limit).catalog.Knows x := by
  have horigins : (start limit).catalog.pool.buffers.origins = ∅ := by
    cases limit <;> rfl
  rw [Catalog.Knows, horigins]
  simp

/-- The journal leads from nothing to what the catalog holds. -/
def Accounted (s : Session) : Prop := ∃ subs, s.catalog.Holds subs ∧ Accounts s.journal [] subs

theorem accounted_start (limit : Option Nat) : (start limit).Accounted := by
  refine ⟨[], ?_, .of_quiet fun r hr => by cases hr⟩
  cases limit with
  | none => exact Catalog.holds_ofLimit maxBufferLength
  | some limit => exact Catalog.holds_ofLimit limit

theorem accounted_act (h : s.catalog.Reachable) (ha : a.Sourced) (hs : s.Accounted) : (s.act a).Accounted := by
  obtain ⟨subs, hc, haccounts⟩ := hs
  cases a with
  | edit e =>
    obtain ⟨t, ht, hfrom⟩ := ha
    obtain ⟨subs₁, hc₁, hends⟩ := h.ends ht hfrom
    obtain rfl : subs = subs₁ := Except.ok.inj (hc.subobjects_eq.symm.trans hc₁.subobjects_eq)
    obtain ⟨subs', hc', hstep⟩ := hends.accounts hc
    exact ⟨subs', hc', haccounts.trans hstep⟩
  | ask q =>
    obtain ⟨answer, issues, hrun⟩ := h.run_query q
    have hquiet : ∀ r ∈ issues.map Record.found, r.level ≠ .debug := by simp [Record.level]
    refine ⟨subs, ?_, ?_⟩
    · rw [catalog_ask h q]
      exact hc
    · show Accounts (s.journal ++ (q.call.run s.catalog).log) [] subs
      rw [hrun]
      exact haccounts.trans (.of_quiet hquiet)

theorem logs_act (h : s.catalog.Reachable) (ha : a.Sourced) {stored : List Nat}
    (hs : ∀ x, x ∈ stored ↔ s.catalog.Knows x) :
    ∃ log, (s.act a).journal = s.journal ++ log ∧ s.catalog.Logs stored a log := by
  cases a with
  | edit e =>
    obtain ⟨t, ht, hfrom⟩ := ha
    obtain ⟨subs, -, hends⟩ := h.ends ht hfrom
    exact ⟨_, rfl, hends.logs hs⟩
  | ask q =>
    obtain ⟨answer, issues, hrun⟩ := h.run_query q
    refine ⟨issues.map .found, ?_, .asked (by simp [Record.level])⟩
    show s.journal ++ (q.call.run s.catalog).log = _
    rw [hrun]

/-- From a new catalog on: the texts of the journal, read one after the other, tell the
    names and the kinds that the catalog holds, in their order, so that there are as many
    as were created less those that were removed or renamed. What announces a creation
    has it right after it. Of the acts, each makes the records that `Logs` allows it. -/
theorem journal_tells_all (limit : Option Nat) (ha : ∀ a ∈ acts, a.Sourced) :
    let s := (start limit).after acts
    (∃ subs, s.catalog.subobjects = .ok subs ∧
      replay [] (debugTexts s.journal) = some (subs.map fun sub => (sub.name, sub.kind))) ∧
    s.journal.countP (·.isCreated) =
      s.journal.countP (·.isRemoved) + s.journal.countP (·.isRenamed) + s.catalog.size ∧
    Paired s.journal ∧
    ∀ before a rest, acts = before ++ a :: rest → ∃ log,
      ((start limit).after (before ++ [a])).journal = ((start limit).after before).journal ++ log ∧
      ((start limit).after before).catalog.Logs (((start limit).taken before).filterMap Edit.address?) a log := by
  intro s
  obtain ⟨subs, hc, haccounts⟩ : s.Accounted :=
    invariant (reachable_start limit) (accounted_start limit) (fun _ _ h hb hs => accounted_act h hb hs) ha
  refine ⟨⟨subs, hc.subobjects_eq, haccounts.replay⟩, ?_, haccounts.paired, ?_⟩
  · have hcount := haccounts.count
    rw [hc.size_eq]
    simpa using hcount
  · intro before a rest hsplit
    subst hsplit
    have hbefore : ∀ b ∈ before, b.Sourced := fun b hb => ha b (List.mem_append_left _ hb)
    have hknows : ∀ x, x ∈ ((start limit).taken before).filterMap Edit.address? ↔
        ((start limit).after before).catalog.Knows x := by
      intro x
      rw [knows_after (reachable_start limit) hbefore]
      simp only [not_knows_start, false_or]
    rw [after_append]
    exact logs_act (reachable_after (reachable_start limit) hbefore) (ha a (by simp)) hknows

/-- Two renamings with one text. The creations after them tell which is which. -/
theorem journal_of_two_readings :
    let acts : List Action := [.edit (.create "a" (.pipelineConfig ⟨1⟩)),
      .edit (.create "a' to 'b" (.rootSignature .globalScope ⟨64, [1]⟩)), .edit (.rename "a' to 'b" "c"),
      .edit (.rename "a" "b' to 'c"), .edit (.remove "a"), .edit (.create "c" (.hitGroup ⟨"", "", ""⟩)), .ask .check,
      .edit (.create "d" (.rootSignature .localScope ⟨64, [2]⟩))]
    let s := (start none).after acts
    (∀ a ∈ acts, a.Sourced) ∧
      debugTexts s.journal = ["created RaytracingPipelineConfig subobject 'a'",
        "created GlobalRootSignature subobject 'a' to 'b'", "renaming subobject 'a' to 'b' to 'c'",
        "created GlobalRootSignature subobject 'c'", "renaming subobject 'a' to 'b' to 'c'",
        "created RaytracingPipelineConfig subobject 'b' to 'c'", "created LocalRootSignature subobject 'd'"] ∧
      .alreadyStored 64 0 ∈ s.journal ∧
      replay [] (debugTexts s.journal) = some [("c", .rootSignature .globalScope), ("b' to 'c", .pipelineConfig),
        ("d", .rootSignature .localScope)] := by
  intro acts s
  have ha : ∀ a ∈ acts, a.Sourced := Action.sourced_of_clones (by simp [acts])
  have hjournal : s.journal = [.created .pipelineConfig "a", .created (.rootSignature .globalScope) "a' to 'b",
      .renamed "a' to 'b" "c", .created (.rootSignature .globalScope) "c", .renamed "a" "b' to 'c",
      .created .pipelineConfig "b' to 'c", .alreadyStored 64 0, .created (.rootSignature .localScope) "d"] := by
    decide +kernel
  have hsubs : s.catalog.subobjects = .ok [⟨"c", .rootSignature .globalScope ⟨[1], 1⟩⟩,
      ⟨"b' to 'c", .pipelineConfig ⟨1⟩⟩, ⟨"d", .rootSignature .localScope ⟨[1], 1⟩⟩] := by
    decide +kernel
  obtain ⟨⟨subs, hread, hreplay⟩, -⟩ := journal_tells_all none ha
  refine ⟨ha, by rw [hjournal]; decide +kernel, by rw [hjournal]; decide +kernel, ?_⟩
  rw [hreplay, Except.ok.inj (hread.symm.trans hsubs)]
  rfl

end Session

end StateObject
