/-
  StateObject.Proofs.CreationOrder — subobjects may be made in any order.

  A catalog is populated by requests, each for a name of its own, in which slices of one
  address carry the same bytes. Then what a request ends with can be told from the catalog
  at the start (`Inventory.verdict`), whatever other requests come before it.

  - `Inventory.verdict_grant`: granting one request changes no verdict on the others.
  - `Matches.populated`: by induction on the requests, each ends with its verdict, and the
    catalog that they leave has what was granted and no more.
  - `creation_order_is_irrelevant`: so two orders of the requests end alike one by one, and
    leave catalogs that read and count alike, though slots and places differ.
-/

import StateObject.Proofs.FirstSight
import StateObject.Proofs.FirstSlices
import StateObject.Proofs.Ownership

namespace StateObject

/-- A request for a subobject of that name. -/
structure Creation where
  name : String
  spec : Spec

/-- The subobject that an issue is about. -/
def Issue.subject : Issue → String
  | danglingAssociation association _ => association
  | associationToAssociation association _ => association
  | duplicateExport association _ => association
  | emptyHitGroup hitGroup => hitGroup

namespace Creation

def edit (r : Creation) : Edit View := .create r.name r.spec

/-- If both bring a slice, and from one address, the slices carry the same bytes. -/
def Agree (r r' : Creation) : Prop :=
  ∀ x ∈ r.edit.slice?, ∀ x' ∈ r'.edit.slice?, x.address = x'.address → x.bytes = x'.bytes

instance (r r' : Creation) : Decidable (r.Agree r') :=
  inferInstanceAs
    (Decidable (∀ x ∈ r.edit.slice?, ∀ x' ∈ r'.edit.slice?, x.address = x'.address → x.bytes = x'.bytes))

end Creation

/-- Each request with how it ended: refused, or with what was handed back, read at once. -/
def Catalog.outcomes (c : Catalog) :
    List Creation → List (Creation × Except Refusal (Except Refusal (Reply Subobject)))
  | [] => []
  | r :: rs => (r, (r.edit.call.run c).result.map Reply.read) :: (r.edit.call.run c).state.outcomes rs

/-! ## Verdicts -/

/-- Once a request is accepted, one that agrees with it is accepted as before, or refused
    as before. -/
theorem Spec.accept_note {limit : Nat} {seen : Nat → Option Bytes} {r r' : Creation} {contents : Contents}
    (h : r.spec.accept limit seen = .ok contents) (hr : r.Agree r') :
    r'.spec.accept limit (r.spec.note seen) = r'.spec.accept limit seen := by
  obtain ⟨name, spec⟩ := r
  obtain ⟨name', spec'⟩ := r'
  cases spec' with
  | rootSignature scope' x' =>
    cases spec with
    | rootSignature scope x =>
      by_cases ha : x'.address = x.address
      · have hb : x.bytes = x'.bytes := hr x rfl x' rfl ha.symm
        cases hseen : seen x.address with
        | some bytes => simp [accept, note, ha, hseen]
        | none =>
          -- the bytes that the address now stands for are those of both, and short enough
          have hl : x.bytes.length < limit := by
            by_contra hl
            simp [accept, hseen, hl] at h
          simp [accept, note, ha, hseen, ← hb, hl]
      · simp [accept, note, ha]
    | _ => rfl
  | _ => rfl

namespace Inventory

variable {inv : Inventory}

/-- What comes of the request. -/
def verdict (inv : Inventory) (r : Creation) : Except Refusal Subobject :=
  if inv.contains r.name then .error (.nameCollision r.name)
  else (r.spec.accept inv.limit inv.seen).map (⟨r.name, ·⟩)

/-- What is left once the request was granted. -/
def grant (inv : Inventory) (r : Creation) (s : Subobject) : Inventory :=
  { inv.append s with seen := r.spec.note inv.seen }

/-- The requests that are granted, each with what is made of it. -/
def grants (inv : Inventory) (requests : List Creation) : List (Creation × Subobject) :=
  requests.filterMap fun r => (inv.verdict r).toOption.map (r, ·)

theorem verdict_eq_ok_iff {r : Creation} {s : Subobject} :
    inv.verdict r = .ok s ↔ inv.contains r.name = false ∧
      ∃ contents, r.spec.accept inv.limit inv.seen = .ok contents ∧ s = ⟨r.name, contents⟩ := by
  unfold verdict
  cases inv.contains r.name with
  | true => simp
  | false => cases r.spec.accept inv.limit inv.seen <;> simp [Except.map, eq_comm]

theorem edit_create (inv : Inventory) (r : Creation) :
    inv.edit (.create r.name r.spec) =
      match inv.verdict r with
      | .error e => .error e
      | .ok s => .ok (.subobject s, inv.grant r s) := by
  simp only [edit, verdict]
  cases inv.contains r.name with
  | true => rfl
  | false =>
    simp only [Bool.false_eq_true, if_false]
    cases r.spec.accept inv.limit inv.seen <;> rfl

theorem verdict_grant {r r' : Creation} {s : Subobject} (h : inv.verdict r = .ok s) (hn : r.name ≠ r'.name)
    (hr : r.Agree r') : (inv.grant r s).verdict r' = inv.verdict r' := by
  obtain ⟨-, contents, haccept, rfl⟩ := verdict_eq_ok_iff.mp h
  have hcontains : (inv.grant r ⟨r.name, contents⟩).contains r'.name = inv.contains r'.name := by
    have hfind : (inv.append ⟨r.name, contents⟩).find? r'.name = inv.find? r'.name := by
      rw [find?_append, if_neg hn, Option.or_none]
    exact congrArg Option.isSome hfind
  have haccept' : r'.spec.accept (inv.grant r ⟨r.name, contents⟩).limit (inv.grant r ⟨r.name, contents⟩).seen =
      r'.spec.accept inv.limit inv.seen := Spec.accept_note haccept hr
  rw [verdict, hcontains, haccept', verdict]

theorem grants_cons_of_error {r : Creation} {e : Refusal} (h : inv.verdict r = .error e) (rs : List Creation) :
    inv.grants (r :: rs) = inv.grants rs := by
  simp [grants, h, Except.toOption]

/-- The others are granted what they would have been granted at the start. -/
theorem grants_cons_of_ok {r : Creation} {s : Subobject} (h : inv.verdict r = .ok s) {rs : List Creation}
    (hsame : ∀ r' ∈ rs, (inv.grant r s).verdict r' = inv.verdict r') :
    inv.grants (r :: rs) = (r, s) :: (inv.grant r s).grants rs := by
  have hrest : (inv.grant r s).grants rs = inv.grants rs := by
    refine List.filterMap_congr ?_
    intro r' hr'
    rw [hsame r' hr']
  rw [hrest]
  simp [grants, h, Except.toOption]

end Inventory

/-! ## What is granted -/

namespace Catalog

variable {c : Catalog} {inv : Inventory}

/-- One request: refused without a trace, or granted. -/
theorem Matches.create_ends (h : c.Matches inv) (r : Creation) :
    match inv.verdict r with
    | .error e => r.edit.call.run c = ⟨.error e, c, []⟩
    | .ok s => (r.edit.call.run c).result.map Reply.read = .ok (.ok (.subobject s)) ∧
        (r.edit.call.run c).state.Matches (inv.grant r s) ∧
        (r.edit.call.run c).state.pool.symbols = (c.pool.symbols.internAll r.edit.strings).2 ∧
        (r.edit.call.run c).state.pool.buffers = c.pool.buffers.noting r.spec := by
  have hends := h.holds.ends_create r.name r.spec
  have hagrees := h.edit (.create r.name r.spec)
  rw [inv.edit_create r] at hagrees
  cases hv : inv.verdict r with
  | error e =>
    rw [hv] at hagrees
    exact hagrees
  | ok s =>
    rw [hv] at hagrees
    obtain ⟨v, hresult, hread, hleft⟩ := hagrees
    have hsymbols := hends.symbols
    rw [hresult] at hsymbols
    refine ⟨?_, hleft, hsymbols, ?_⟩
    · show Except.map _ ((Edit.create r.name r.spec).call.run c).result = _
      rw [hresult]
      exact congrArg Except.ok hread
    · show ((Edit.create r.name r.spec).call.run c).state.pool.buffers = _
      generalize (Edit.create r.name r.spec).call.run c = done at hends hresult
      cases hends with
      | refused _ => cases hresult
      | created _ _ _ hb _ => exact hb

/-- The catalog has what it had before, and then what is granted of the requests. -/
structure Populated (c : Catalog) (inv : Inventory) (requests : List Creation) (d : Catalog) : Prop where
  subobjects : ∃ inv', d.Matches inv' ∧ inv'.subobjects = inv.subobjects ++ (inv.grants requests).map (·.2)
  symbols : d.pool.symbols = (c.pool.symbols.internAll ((inv.grants requests).flatMap (·.1.edit.strings))).2
  buffers : d.pool.buffers = ((inv.grants requests).map (·.1.spec)).foldl BufferStore.noting c.pool.buffers

theorem Populated.cons_of_error {r : Creation} {rs : List Creation} {d : Catalog} {e : Refusal}
    (hv : inv.verdict r = .error e) (h : c.Populated inv rs d) : c.Populated inv (r :: rs) d := by
  obtain ⟨hsubs, hsymbols, hbuffers⟩ := h
  rw [← Inventory.grants_cons_of_error hv rs] at hsubs hsymbols hbuffers
  exact ⟨hsubs, hsymbols, hbuffers⟩

theorem Populated.cons_of_ok {r : Creation} {rs : List Creation} {c' d : Catalog} {s : Subobject}
    (hgrants : inv.grants (r :: rs) = (r, s) :: (inv.grant r s).grants rs)
    (hsymbols : c'.pool.symbols = (c.pool.symbols.internAll r.edit.strings).2)
    (hbuffers : c'.pool.buffers = c.pool.buffers.noting r.spec) (h : c'.Populated (inv.grant r s) rs d) :
    c.Populated inv (r :: rs) d := by
  obtain ⟨inv', hm, hsubs⟩ := h.subobjects
  refine ⟨⟨inv', hm, ?_⟩, ?_, ?_⟩
  · rw [hsubs, hgrants]
    simp [Inventory.grant, Inventory.append]
  · rw [hgrants, List.flatMap_cons, SymbolTable.internAll_append, ← hsymbols]
    exact h.symbols
  · rw [hgrants]
    show _ = List.foldl _ (c.pool.buffers.noting r.spec) _
    rw [← hbuffers]
    exact h.buffers

theorem Matches.populated (h : c.Matches inv) {requests : List Creation} (hn : (requests.map (·.name)).Nodup)
    (hr : ∀ r ∈ requests, ∀ r' ∈ requests, r.Agree r') :
    c.outcomes requests = requests.map (fun r => (r, (inv.verdict r).map fun s => .ok (.subobject s))) ∧
      c.Populated inv requests (c.after (requests.map Creation.edit)) := by
  induction requests generalizing c inv with
  | nil => exact ⟨rfl, ⟨inv, h, (List.append_nil _).symm⟩, rfl, rfl⟩
  | cons r rs ih =>
    obtain ⟨hfresh, hn⟩ := List.nodup_cons.mp hn
    have hrs : ∀ r ∈ rs, ∀ r' ∈ rs, r.Agree r' := fun r h r' h' =>
      hr r (List.mem_cons_of_mem _ h) r' (List.mem_cons_of_mem _ h')
    have hafter : c.after ((r :: rs).map Creation.edit) =
        (r.edit.call.run c).state.after (rs.map Creation.edit) := rfl
    have hstep := h.create_ends r
    rw [hafter, outcomes, List.map_cons]
    cases hv : inv.verdict r with
    | error e =>
      rw [hv] at hstep
      obtain ⟨houtcomes, hpopulated⟩ := ih h hn hrs
      rw [hstep, houtcomes]
      exact ⟨rfl, hpopulated.cons_of_error hv⟩
    | ok s =>
      rw [hv] at hstep
      obtain ⟨hresult, hleft, hsymbols, hbuffers⟩ := hstep
      obtain ⟨houtcomes, hpopulated⟩ := ih hleft hn hrs
      -- the verdicts on the others are those of the start
      have hsame : ∀ r' ∈ rs, (inv.grant r s).verdict r' = inv.verdict r' := by
        intro r' hr'
        refine Inventory.verdict_grant hv ?_ (hr r List.mem_cons_self r' (List.mem_cons_of_mem _ hr'))
        intro e
        exact hfresh (List.mem_map.mpr ⟨r', hr', e.symm⟩)
      refine ⟨?_, hpopulated.cons_of_ok (Inventory.grants_cons_of_ok hv hsame) hsymbols hbuffers⟩
      rw [hresult, houtcomes]
      refine congrArg _ (List.map_congr_left ?_)
      intro r' hr'
      rw [hsame r' hr']

end Catalog

/-! ## Order does not matter -/

section Named

variable {subs subs' : List Subobject}

/-- Of one name there is one subobject at most, in whatever order they are. -/
theorem filter_name_eq_of_perm (h : subs.Perm subs') (hd : (subs.map (·.name)).Nodup) (name : String) :
    subs.filter (·.name = name) = subs'.filter (·.name = name) := by
  have hlen : (subs.filter (·.name = name)).length ≤ 1 := by
    have hcount := List.nodup_iff_count_le_one.mp hd name
    rw [List.count_eq_countP, List.countP_map, List.countP_eq_length_filter] at hcount
    exact hcount
  have hp := h.filter (·.name = name)
  generalize subs.filter (·.name = name) = xs, subs'.filter (·.name = name) = ys at hlen hp
  match xs, hlen with
  | [], _ => exact (List.nil_perm.mp hp).symm
  | [x], _ => exact List.singleton_perm.mp hp

theorem find?_name_eq_of_perm (h : subs.Perm subs') (hd : (subs.map (·.name)).Nodup) (name : String) :
    subs.find? (·.name = name) = subs'.find? (·.name = name) := by
  rw [← List.head?_filter, ← List.head?_filter, filter_name_eq_of_perm h hd]

end Named

namespace Inventory

variable {inv : Inventory}

theorem subject_of_mem_issuesOf {s : Subobject} {issue : Issue} (h : issue ∈ inv.issuesOf s) :
    issue.subject = s.name := by
  rw [issuesOf] at h
  split at h
  · rcases List.mem_append.mp h with h | h
    · rw [targetIssues] at h
      split at h
      · rw [List.mem_singleton.mp h]
        rfl
      · split at h
        · rw [List.mem_singleton.mp h]
          rfl
        · cases h
    · obtain ⟨x, -, rfl⟩ := List.mem_map.mp h
      rfl
  · split at h
    · rw [List.mem_singleton.mp h]
      rfl
    · cases h
  · cases h

theorem filter_issues (inv : Inventory) (subs : List Subobject) (name : String) :
    (subs.flatMap inv.issuesOf).filter (·.subject = name) = (subs.filter (·.name = name)).flatMap inv.issuesOf := by
  induction subs with
  | nil => rfl
  | cons s rest ih =>
    rw [List.flatMap_cons, List.filter_append, ih]
    by_cases hs : s.name = name
    · have hall : (inv.issuesOf s).filter (·.subject = name) = inv.issuesOf s :=
        List.filter_eq_self.mpr fun i hi => decide_eq_true ((subject_of_mem_issuesOf hi).trans hs)
      rw [hall, List.filter_cons_of_pos (by simpa using hs), List.flatMap_cons]
    · have hnone : (inv.issuesOf s).filter (·.subject = name) = [] :=
        List.filter_eq_nil_iff.mpr fun i hi e => hs ((subject_of_mem_issuesOf hi).symm.trans (of_decide_eq_true e))
      rw [hnone, List.filter_cons_of_neg (by simpa using hs), List.nil_append]

end Inventory

/-- How many copies there are, and of which addresses. -/
structure Tally where
  copies : Nat
  known : Nat → Bool

namespace Tally

def note (t : Tally) : Spec → Tally
  | .rootSignature _ slice =>
    { copies := if t.known slice.address then t.copies else t.copies + 1
      known := fun a => t.known a || a == slice.address }
  | _ => t

instance : RightCommutative note := ⟨fun t spec spec' => by
  cases spec with
  | rootSignature scope x =>
    cases spec' with
    | rootSignature scope' x' =>
      have hknown : (fun a => t.known a || a == x.address || a == x'.address) =
          fun a => t.known a || a == x'.address || a == x.address := funext fun a => Bool.or_right_comm _ _ _
      by_cases ha : x'.address = x.address
      · simp [note, ha]
      · simp only [note, hknown, beq_false_of_ne ha, beq_false_of_ne (Ne.symm ha), Bool.or_false]
        cases t.known x.address <;> cases t.known x'.address <;> rfl
    | _ => rfl
  | _ => rfl⟩

end Tally

def BufferStore.tally (b : BufferStore) : Tally := ⟨b.size, fun a => b.origins[a]?.isSome⟩

theorem BufferStore.tally_noting (b : BufferStore) (spec : Spec) : (b.noting spec).tally = b.tally.note spec := by
  cases spec with
  | rootSignature scope slice =>
    cases hk : b.find? slice with
    | some k =>
      have hknown : b.origins[slice.address]?.isSome = true := by rw [find?_eq_some_iff.mp hk]; rfl
      have hsame : (fun a => b.origins[a]?.isSome || a == slice.address) = fun a => b.origins[a]?.isSome := by
        funext a
        by_cases ha : a = slice.address <;> simp [ha, hknown]
      have hnoting : b.noting (.rootSignature scope slice) = b := by simp [noting, hk]
      simp only [hnoting, tally, Tally.note, hknown, hsame, if_true]
    | none =>
      have hnew : b.origins[slice.address]?.isSome = false := by rw [find?_eq_none_iff.mp hk]; rfl
      have hmore : (fun a => (b.withSlice slice).origins[a]?.isSome) =
          fun a => b.origins[a]?.isSome || a == slice.address := by
        funext a
        rw [origins_withSlice]
        by_cases ha : a = slice.address <;> simp [ha]
      have hnoting : b.noting (.rootSignature scope slice) = b.withSlice slice := by simp [noting, hk]
      simp only [hnoting, tally, Tally.note, hnew, hmore, size_withSlice, Bool.false_eq_true, if_false]
  | _ => rfl

theorem BufferStore.tally_foldl_noting (b : BufferStore) (specs : List Spec) :
    (specs.foldl noting b).tally = specs.foldl Tally.note b.tally := by
  induction specs generalizing b with
  | nil => rfl
  | cons spec rest ih => rw [List.foldl_cons, ih, tally_noting, List.foldl_cons]

theorem BufferStore.size_noting_of_perm (b : BufferStore) {specs specs' : List Spec} (h : specs.Perm specs') :
    (specs.foldl noting b).size = (specs'.foldl noting b).size := by
  have htally : (specs.foldl noting b).tally = (specs'.foldl noting b).tally := by
    rw [tally_foldl_noting, tally_foldl_noting, h.foldl_eq]
  exact congrArg Tally.copies htally

theorem SymbolTable.Sound.size_internAll_of_perm {t : SymbolTable} (h : t.Sound) {us us' : List String}
    (hp : us.Perm us') : (t.internAll us).2.size = (t.internAll us').2.size := by
  rw [(h.internAll us).size_eq_card (h.lists_internAll h.lists_strings us),
    (h.internAll us').size_eq_card (h.lists_internAll h.lists_strings us'),
    List.toFinset_eq_of_perm _ _ (hp.append_left t.strings.toList)]

namespace Catalog

variable {c : Catalog}

/-- Catalogs that hold the same subobjects in other orders find alike. -/
theorem Matches.find?_of_perm {d d' : Catalog} {inv inv' : Inventory} (h : d.Matches inv) (h' : d'.Matches inv')
    (hp : inv.subobjects.Perm inv'.subobjects) (name : String) :
    ∃ found, (d.find? name).mapM View.read = .ok found ∧ (d'.find? name).mapM View.read = .ok found := by
  refine ⟨_, h.holds.find?_eq name, ?_⟩
  rw [find?_name_eq_of_perm hp h.holds.names_nodup]
  exact h'.holds.find?_eq name

/-- Their checks find the same, and of each subobject in the same order. -/
theorem Matches.check_of_perm {d d' : Catalog} {inv inv' : Inventory} (h : d.Matches inv) (h' : d'.Matches inv')
    (hp : inv.subobjects.Perm inv'.subobjects) :
    ∃ issues issues', (check.run d).result = .ok issues ∧ (check.run d').result = .ok issues' ∧
      issues.Perm issues' ∧ ∀ name, issues.filter (·.subject = name) = issues'.filter (·.subject = name) := by
  have hnames := h.holds.names_nodup
  have hissues : inv.issuesOf = inv'.issuesOf := Inventory.issuesOf_congr (find?_name_eq_of_perm hp hnames)
  refine ⟨_, _, congrArg Outcome.result (run_check h.issues_eq), congrArg Outcome.result (run_check h'.issues_eq),
    ?_, ?_⟩
  · rw [hissues]
    exact hp.flatMap_right _
  · intro name
    rw [Inventory.filter_issues, Inventory.filter_issues, filter_name_eq_of_perm hp hnames, hissues]

/-- Whatever the catalog has already, requests for different names can be made in any order,
    if their slices of one address carry the same bytes. Each ends alike in both orders,
    every name then finds what reads alike, as many subobjects, strings and buffers are
    kept, and the check finds the same issues, those of one subobject in the same order.
    An association may come before its target, after it or without it, and a name may be
    seen as a target, an export or a stage before it is asked for. -/
theorem creation_order_is_irrelevant (hc : Reachable c) {requests requests' : List Creation}
    (hp : requests.Perm requests') (hn : (requests.map (·.name)).Nodup)
    (hr : ∀ r ∈ requests, ∀ r' ∈ requests, r.Agree r') :
    let d := c.after (requests.map Creation.edit)
    let d' := c.after (requests'.map Creation.edit)
    (c.outcomes requests).Perm (c.outcomes requests') ∧
      (∀ name, ∃ found, (d.find? name).mapM View.read = .ok found ∧ (d'.find? name).mapM View.read = .ok found) ∧
      d.size = d'.size ∧ d.stringCount = d'.stringCount ∧ d.bufferCount = d'.bufferCount ∧
      ∃ issues issues', (check.run d).result = .ok issues ∧ (check.run d').result = .ok issues' ∧
        issues.Perm issues' ∧ ∀ name, issues.filter (·.subject = name) = issues'.filter (·.subject = name) := by
  intro d d'
  obtain ⟨inv, hm⟩ := hc.matches
  have hn' : (requests'.map (·.name)).Nodup := (hp.map (·.name)).nodup_iff.mp hn
  have hr' : ∀ r ∈ requests', ∀ r' ∈ requests', r.Agree r' := fun r h r' h' =>
    hr r (hp.mem_iff.mpr h) r' (hp.mem_iff.mpr h')
  obtain ⟨houtcomes, hpop⟩ := hm.populated hn hr
  obtain ⟨houtcomes', hpop'⟩ := hm.populated hn' hr'
  have hgrants : (inv.grants requests).Perm (inv.grants requests') := hp.filterMap _
  obtain ⟨left, hleft, hsubs⟩ := hpop.subobjects
  obtain ⟨left', hleft', hsubs'⟩ := hpop'.subobjects
  have hperm : left.subobjects.Perm left'.subobjects := by
    rw [hsubs, hsubs']
    exact (hgrants.map _).append_left _
  refine ⟨?_, hleft.find?_of_perm hleft' hperm, ?_, ?_, ?_, hleft.check_of_perm hleft' hperm⟩
  · rw [houtcomes, houtcomes']
    exact hp.map _
  · rw [hleft.holds.size_eq, hleft'.holds.size_eq, hperm.length_eq]
  · show d.pool.symbols.size = d'.pool.symbols.size
    rw [hpop.symbols, hpop'.symbols]
    exact hm.holds.pool.symbols.size_internAll_of_perm (hgrants.flatMap_right _)
  · show d.pool.buffers.size = d'.pool.buffers.size
    rw [hpop.buffers, hpop'.buffers]
    exact BufferStore.size_noting_of_perm _ (hgrants.map _)

/-- Forward and backward: an association before or after its target, another to nothing, one
    slice twice, and three requests that are refused. The order of the subobjects differs. -/
theorem seven_requests_backward :
    let c := (make (some 3)).after [.create "group" (.hitGroup ⟨"late", "", ""⟩)]
    let requests : List Creation := [⟨"rays", .association ⟨"late", ["x", "x"]⟩⟩, ⟨"bits", .stateObjectConfig 4⟩,
      ⟨"here", .rootSignature .globalScope ⟨64, [1, 2]⟩⟩, ⟨"group", .pipelineConfig ⟨1⟩⟩,
      ⟨"there", .rootSignature .localScope ⟨64, [1, 2]⟩⟩, ⟨"late", .association ⟨"nothing", []⟩⟩,
      ⟨"long", .rootSignature .localScope ⟨128, [1, 2, 3]⟩⟩]
    let d := c.after (requests.map Creation.edit)
    let d' := c.after (requests.reverse.map Creation.edit)
    d.names = .ok ["group", "rays", "here", "there", "late"] ∧
      d'.names = .ok ["group", "late", "there", "here", "rays"] ∧
      (c.outcomes requests).Perm (c.outcomes requests.reverse) ∧ d.stringCount = d'.stringCount ∧
      d.bufferCount = d'.bufferCount ∧
      ∃ issues issues', (check.run d).result = .ok issues ∧ (check.run d').result = .ok issues' ∧
        issues.Perm issues' := by
  intro c requests d d'
  have hc : Reachable c := .edit (.create "group" _) (.make (some 3)) (.make none) True.intro
  have hp : requests.Perm requests.reverse := (List.reverse_perm requests).symm
  obtain ⟨houtcomes, -, -, hstrings, hbuffers, issues, issues', hcheck, hcheck', hissues, -⟩ :=
    creation_order_is_irrelevant hc hp (by decide) (by decide)
  exact ⟨by decide +kernel, by decide +kernel, houtcomes, hstrings, hbuffers, issues, issues', hcheck, hcheck',
    hissues⟩

end Catalog

end StateObject
