/-
  StateObject.Proofs.Simulation — a catalog does what its inventory says.

  - `Balances.answer_eq`: every read shows what the account shows.
  - `Matches.edit`: an edit that the inventory refuses is refused with the same words,
    leaves the catalog as it was and makes no record. Any other edit succeeds, hands back
    the same, and the catalog it leaves matches the inventory that it leaves.
  - `Reachable.matches`: so every reachable catalog matches an inventory, and every edit of
    one ends in one of the ways of `Ends` (`Reachable.ends`).
  - `Reachable.matches_with`: what new inventories have and edits keep, the inventory of a
    reachable catalog has.
-/

import StateObject.Proofs.Endings
import StateObject.Proofs.Inventory

namespace StateObject

/-- What the edit copies, if it is a clone, is one of the subobjects. -/
def Edit.Within (subs : List Subobject) : Edit Subobject → Prop
  | clone source _ => source ∈ subs
  | _ => True

namespace Catalog

variable {c : Catalog} {inv : Inventory}

theorem matches_ofLimit (limit : Nat) : (ofLimit limit).Matches { limit := min limit maxBufferLength } := by
  refine ⟨holds_ofLimit limit, rfl, ?_⟩
  funext a
  simp [BufferStore.bytesAt?, ofLimit, Pool.ofLimit, BufferStore.ofLimit]

/-! ## Reads -/

theorem Matches.contains_eq (h : c.Matches inv) (name : String) : c.contains name = inv.contains name :=
  h.holds.contains_eq name

/-- What a name finds copies what it finds in the inventory. -/
theorem Matches.rel_find? (h : c.Matches inv) (name : String) :
    Option.Rel View.Copies (c.find? name) (inv.find? name) := by
  rw [Catalog.find?, Inventory.find?]
  rcases h.holds.lookup name with ⟨k, entry, s, hl⟩ | ⟨hk, hs⟩
  · rw [hl.symbol, hl.found]
    simp only [Option.bind_eq_bind, Option.bind_some, hl.kept, Option.pure_def]
    exact .some ⟨read_eq_of_shows hl.shows, h.holds.flags s (List.mem_of_find?_eq_some hl.found)⟩
  · rw [hk, hs]
    exact .none

theorem Matches.targetIssues_eq (h : c.Matches inv) (association target : String) :
    c.targetIssues association target = inv.targetIssues association target := by
  rw [targetIssues, Inventory.targetIssues, Catalog.find?, Inventory.find?]
  rcases h.holds.lookup target with ⟨k, entry, s, hl⟩ | ⟨hk, hs⟩
  · have hkind : (c.view entry).kind = s.kind := Pool.kind_of_resolve hl.shows.contents
    rw [hl.symbol, hl.found]
    simp [hl.kept, hkind]
  · rw [hk, hs]
    rfl

theorem Matches.issuesOf_eq (h : c.Matches inv) : c.issuesOf = inv.issuesOf := by
  funext s
  rw [issuesOf, Inventory.issuesOf]
  cases s.contents with
  | association a => simp only [h.targetIssues_eq, scan_eq_repeated]
  | _ => rfl

theorem Matches.issues_eq (h : c.Matches inv) : c.issues = .ok (inv.subobjects.flatMap inv.issuesOf) := by
  rw [issues, h.holds.subobjects_eq, h.issuesOf_eq]
  rfl

theorem Matches.listing_eq (h : c.Matches inv) : c.listing = .ok inv.listing := by
  rw [listing, h.holds.subobjects_eq, h.holds.size_eq]
  rfl

theorem run_forM_log (issues : List Issue) (c : Catalog) :
    (issues.forM fun issue => Call.log (.found issue)).run c = ⟨.ok (), c, issues.map .found⟩ := by
  induction issues with
  | nil => rfl
  | cons issue issues ih =>
    show (Call.log (.found issue) >>= fun _ => issues.forM fun issue => Call.log (.found issue)).run c = _
    rw [Call.run_bind_of_ok (Call.run_log _ _), ih]
    rfl

/-- The check changes nothing and reports the issues that it finds. -/
theorem run_check {issues : List Issue} (h : c.issues = .ok issues) :
    check.run c = ⟨.ok issues, c, issues.map .found⟩ := by
  have hread : (Call.ofExcept c.issues).run c = ⟨.ok issues, c, []⟩ := by
    rw [Call.run_ofExcept, h]
  rw [check, Call.run_bind_of_ok (Call.run_get c), Call.run_bind_of_ok hread,
    Call.run_bind_of_ok (run_forM_log issues c)]
  simp

/-- Each string that the pool has came in, and none has come in that it lacks. -/
theorem Balances.stringCount_eq {acc : Account} (h : c.Balances acc) : c.stringCount = acc.strings.eraseDups.length := by
  rw [stringCount, SymbolTable.size, ← Array.length_toList, show c.pool.symbols.strings.toList = _ from h.strings]

theorem Balances.answer_eq {acc : Account} (h : c.Balances acc) (q : Query) : c.answer q = .ok (acc.answer q) := by
  have hm := h.inventory
  cases q with
  | size => rw [answer, hm.holds.size_eq]; rfl
  | isEmpty => rw [answer, hm.holds.isEmpty_eq]; rfl
  | limit => rw [answer, ← hm.limit]; rfl
  | stringCount => rw [answer, h.stringCount_eq]; rfl
  | bufferCount => rw [answer, h.buffers]; rfl
  | contains name => rw [answer, hm.contains_eq]; rfl
  | find name => rw [answer, hm.holds.find?_eq]; rfl
  | names => rw [answer, hm.holds.names_eq]; rfl
  | subobjects => rw [answer, hm.holds.subobjects_eq]; rfl
  | listing => rw [answer, hm.listing_eq]; rfl
  | check => rw [answer, run_check hm.issues_eq]; rfl

/-- What a catalog has stored is an account of how much it has stored. -/
theorem Matches.balances (h : c.Matches inv) :
    c.Balances { inventory := inv, strings := c.pool.symbols.strings.toList, buffers := c.bufferCount } :=
  ⟨h, h.holds.pool.symbols.lists_strings, rfl⟩

/-! ## Edits -/

/-- An edit of `c` ended as the inventory says: refused without a trace, or done. -/
def Agrees (c : Catalog) (done : Outcome Catalog (Reply View)) :
    Except Refusal (Reply Subobject × Inventory) → Prop
  | .error r => done = ⟨.error r, c, []⟩
  | .ok (reply, inv) => ∃ v, done.result = .ok v ∧ v.read = .ok reply ∧ done.state.Matches inv

theorem read_subobject {v : View} {s : Subobject} (h : v.read = .ok s) :
    (Reply.subobject v).read = .ok (.subobject s) := by
  rw [Reply.read, h]
  rfl

/-- Entering a payload that the pool has taken in, under a vacant name. -/
theorem Matches.enter (h : c.Matches inv) {name : String}
    (hv : inv.subobjects.find? (·.name = name) = none) {payload : Stored}
    {contents : Contents} {pool : Pool} (ht : c.pool.Takes payload contents pool) (hf : contents.FlagsDefined) :
    ((c.withPool pool).enteredView name payload).read = .ok ⟨name, contents⟩ ∧
      ((c.withPool pool).entered name payload).Matches
        { inv.append ⟨name, contents⟩ with seen := pool.buffers.bytesAt? } := by
  have hgrown := h.holds.grow ht.grows ht.sound
  exact ⟨hgrown.read_enteredView name ht.resolve, hgrown.enter hv ht.resolve hf,
    h.limit.trans ht.grows.buffers.limit.symm, rfl⟩

/-- What a catalog refuses its inventory refuses. -/
theorem Matches.edit_refused (h : c.Matches inv) {e : Edit View} {e' : Edit Subobject}
    (he : e.Related View.Copies e') {r : Refusal} (hr : c.Refuses inv.subobjects e r) : inv.edit e' = .error r := by
  have htaken : ∀ {name : String}, (inv.subobjects.find? (·.name = name)).isSome → inv.contains name = true :=
    fun h => h
  have hvacant : ∀ {name : String}, inv.subobjects.find? (·.name = name) = none → inv.contains name = false :=
    fun hn => by rw [Inventory.contains, Inventory.find?, hn]; rfl
  cases hr with
  | createTaken hn =>
    cases he
    simp only [Inventory.edit, htaken hn, if_true]
  | createBad hn haccept =>
    cases he
    rw [← h.seen, ← h.limit] at haccept
    simp only [Inventory.edit, hvacant hn, haccept, Bool.false_eq_true, if_false]
  | cloneTaken hn =>
    cases he
    simp only [Inventory.edit, htaken hn, if_true]
  | cloneLong hs hn hfits =>
    cases he with
    | clone name hs' =>
      rw [hs.unique hs', ← h.limit] at hfits
      simp only [Inventory.edit, hvacant hn, hfits, Bool.false_eq_true, if_false]
  | duplicateUnknown hs =>
    cases he
    simp only [Inventory.edit, Inventory.find?, hs]
  | duplicateTaken hs hn =>
    cases he
    simp only [Inventory.edit, Inventory.find?, hs, htaken hn, if_true]
  | renameUnknown hs =>
    cases he
    simp only [Inventory.edit, Inventory.find?, hs]
  | renameTaken hs hn =>
    cases he
    simp only [Inventory.edit, Inventory.find?, hs, htaken hn, if_true]

/-- What an edit does to a catalog it does to its inventory. -/
theorem Matches.edit (h : c.Matches inv) {e : Edit View} {e' : Edit Subobject} (he : e.Related View.Copies e') :
    c.Agrees (e.call.run c) (inv.edit e') := by
  have hends := h.holds.ends he
  generalize e.call.run c = done at hends ⊢
  cases hends with
  | refused hr =>
    rw [h.edit_refused he hr]
    rfl
  | created hn haccept htakes hb _ =>
    cases he
    obtain ⟨hread, hmatches⟩ := h.enter hn htakes (Spec.flagsDefined_of_accept haccept)
    rw [← h.seen, ← h.limit] at haccept
    rw [hb, h.holds.pool.buffers.bytesAt?_noting, ← h.seen] at hmatches
    simp only [Inventory.edit, Inventory.contains, Inventory.find?, hn, haccept]
    exact ⟨_, rfl, read_subobject hread, hmatches⟩
  | cloned hs hn hfits htakes hb _ =>
    cases he with
    | clone name hs' =>
      obtain rfl := hs.unique hs'
      obtain ⟨hread, hmatches⟩ := h.enter hn htakes hs.flags
      rw [← h.limit] at hfits
      rw [hb, h.holds.pool.buffers.bytesAt?_copying, ← h.seen] at hmatches
      simp only [Inventory.edit, Inventory.contains, Inventory.find?, hn, hfits]
      exact ⟨_, rfl, read_subobject hread, hmatches⟩
  | duplicated hl hn =>
    cases he
    have hf := h.holds.flags _ (List.mem_of_find?_eq_some hl.found)
    obtain ⟨hread, hmatches⟩ := h.enter hn (h.holds.pool.takes hl.shows.contents) hf
    rw [← h.seen] at hmatches
    simp only [Inventory.edit, Inventory.contains, Inventory.find?, hl.found, hn]
    exact ⟨_, rfl, read_subobject hread, hmatches⟩
  | @renamed source name k entry s hl hn =>
    cases he
    have hw : (c.without k).Matches (inv.erase source) := ⟨h.holds.without hl, h.limit, h.seen⟩
    have hn' : (inv.erase source).subobjects.find? (·.name = name) = none := find?_eraseP_eq_none hn source
    have hf := h.holds.flags _ (List.mem_of_find?_eq_some hl.found)
    obtain ⟨hread, hmatches⟩ := hw.enter hn' (hw.holds.pool.takes hl.shows.contents) hf
    rw [← hw.seen] at hmatches
    simp only [Inventory.edit, Inventory.contains, Inventory.find?, hl.found, hn]
    exact ⟨_, rfl, read_subobject hread, hmatches⟩
  | @removed name k entry s hl =>
    cases he
    simp only [Inventory.edit, Inventory.contains, Inventory.find?, hl.found]
    exact ⟨_, rfl, rfl, h.holds.without hl, h.limit, h.seen⟩
  | @removedNone name hn =>
    cases he
    have herase : inv.subobjects.eraseP (·.name = name) = inv.subobjects :=
      List.eraseP_of_forall_not fun s hmem => List.find?_eq_none.mp hn s hmem
    simp only [Inventory.edit, Inventory.contains, Inventory.find?, Inventory.erase, hn, herase]
    exact ⟨_, rfl, rfl, h⟩

/-- An edit is refused without a trace, or it goes as it goes for the inventory. -/
theorem Matches.edit_cases (h : c.Matches inv) {e : Edit View} {e' : Edit Subobject} (he : e.Related View.Copies e') :
    (∃ r, e.call.run c = ⟨.error r, c, []⟩) ∨
      ∃ v reply inv', (e.call.run c).result = .ok v ∧ v.read = .ok reply ∧ (e.call.run c).state.Matches inv' ∧
        inv.Yields e' reply inv' := by
  have hagrees := h.edit he
  cases hedited : inv.edit e' with
  | error r =>
    rw [hedited] at hagrees
    exact .inl ⟨r, hagrees⟩
  | ok done =>
    rw [hedited] at hagrees
    obtain ⟨v, hv, hread, hmatches⟩ := hagrees
    exact .inr ⟨v, done.1, done.2, hv, hread, hmatches, Inventory.yields_of_edit hedited⟩

/-! ## Reachable catalogs -/

theorem Holds.copies_of_mem_views {subs : List Subobject} (h : c.Holds subs) {v : View} (hv : v ∈ c.views) :
    ∃ s ∈ subs, v.Copies s := by
  obtain ⟨s, hs, hread⟩ := forall₂_exists_right h.views hv
  exact ⟨s, hs, hread, h.flags s hs⟩

theorem Matches.related_of_from (h : c.Matches inv) {e : Edit View} (he : e.From c) :
    ∃ e', e.Related View.Copies e' ∧ e'.Within inv.subobjects := by
  cases e with
  | create name spec => exact ⟨_, .create name spec, True.intro⟩
  | clone source name =>
    obtain ⟨s, hmem, hs⟩ := h.holds.copies_of_mem_views he
    exact ⟨_, .clone name hs, hmem⟩
  | duplicate source name => exact ⟨_, .duplicate source name, True.intro⟩
  | rename source name => exact ⟨_, .rename source name, True.intro⟩
  | remove name => exact ⟨_, .remove name, True.intro⟩

theorem matches_make (limit : Option Nat) : (make limit).Matches (Inventory.make limit) := by
  cases limit with
  | none => exact matches_ofLimit maxBufferLength
  | some limit => exact matches_ofLimit limit

theorem Reachable.matches_with {P : Inventory → Prop} (hmake : ∀ limit, P (Inventory.make limit))
    (hedit : ∀ inv source e reply inv', P inv → P source → e.Within source.subobjects →
      inv.Yields e reply inv' → P inv') (h : Reachable c) : ∃ inv, c.Matches inv ∧ P inv := by
  induction h with
  | make limit => exact ⟨_, matches_make limit, hmake limit⟩
  | edit e _ _ he ihc ihs =>
    obtain ⟨inv, hc, hP⟩ := ihc
    obtain ⟨source, hs, hP'⟩ := ihs
    obtain ⟨e', hrel, hwithin⟩ := hs.related_of_from he
    rcases hc.edit_cases hrel with ⟨r, hrun⟩ | ⟨_, reply, inv', -, -, hmatches, hyields⟩
    · rw [hrun]
      exact ⟨inv, hc, hP⟩
    · exact ⟨inv', hmatches, hedit inv source e' reply inv' hP hP' hwithin hyields⟩

/-- Whatever led to it, a reachable catalog matches an inventory. -/
theorem Reachable.matches (h : Reachable c) : ∃ inv, c.Matches inv := by
  obtain ⟨inv, hm, -⟩ := h.matches_with (P := fun _ => True) (fun _ => True.intro) fun _ _ _ _ _ _ _ _ _ => True.intro
  exact ⟨inv, hm⟩

theorem Reachable.ends {s : Catalog} (hc : Reachable c) (hs : Reachable s) {e : Edit View} (he : e.From s) :
    ∃ subs, c.Holds subs ∧ c.Ends subs e (e.call.run c) := by
  obtain ⟨inv, hm⟩ := hc.matches
  obtain ⟨_, hm'⟩ := hs.matches
  obtain ⟨_, hrel, -⟩ := hm'.related_of_from he
  exact ⟨inv.subobjects, hm.holds, hm.holds.ends hrel⟩

end Catalog

end StateObject
