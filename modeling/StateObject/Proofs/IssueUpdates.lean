/-
  StateObject.Proofs.IssueUpdates — how the issues follow an edit.

  - `Issue.settledBy`: what becomes of an issue once its target is there. A subobject more
    settles what was dangling for want of it, and brings its own issues
    (`Inventory.issuesOf_append`).
  - `Inventory.issuesOf_erase`: a subobject less leaves the associations to it dangling, and
    all other issues as they were.
  - `Inventory.duplicate_clean`, `Inventory.erase_clean_iff`, `Inventory.rename_clean_iff`:
    where nothing was wrong, that is all that can go wrong.
  - `issues_follow_edits`: all of this for the check of reachable catalogs.
-/

import StateObject.Proofs.Ownership

namespace StateObject

/-- The name that the edit enters beside those that are there. -/
def Edit.added? {ω : Type} : Edit ω → Option String
  | create name _ => some name
  | clone _ name => some name
  | duplicate _ name => some name
  | _ => none

/-- The target, if it is an association. -/
def Subobject.target? (s : Subobject) : Option String := s.contents.association?.map (·.target)

namespace Issue

/-- What becomes of an issue once `new` is there. -/
def settledBy (new : Subobject) : Issue → List Issue
  | danglingAssociation association target =>
    if target = new.name then
      if new.kind = .association then [associationToAssociation association target] else []
    else [danglingAssociation association target]
  | issue => [issue]

/-- Whether a target is at issue. -/
def ofTarget : Issue → Bool
  | danglingAssociation .. => true
  | associationToAssociation .. => true
  | _ => false

/-- What becomes of the issues of `s` once the subobject `gone` is there no more. -/
def without (gone : String) (s : Subobject) (issues : List Issue) : List Issue :=
  if s.target? = some gone then danglingAssociation s.name gone :: issues.filter (!·.ofTarget) else issues

theorem flatMap_settledBy_duplicateExport (new : Subobject) (name : String) (exports : List String) :
    (exports.map (duplicateExport name)).flatMap (settledBy new) = exports.map (duplicateExport name) := by
  rw [List.flatMap_map]
  exact List.flatMap_pure_eq_map _ _

theorem filter_duplicateExport (name : String) (exports : List String) :
    (exports.map (duplicateExport name)).filter (!·.ofTarget) = exports.map (duplicateExport name) := by
  apply List.filter_eq_self.mpr
  intro issue hi
  obtain ⟨x, -, rfl⟩ := List.mem_map.mp hi
  rfl

end Issue

namespace Inventory

variable {inv inv' : Inventory} {new s : Subobject}

theorem issuesOf_eq_of_subobjects (h : inv.subobjects = inv'.subobjects) : inv.issuesOf = inv'.issuesOf :=
  issuesOf_congr fun name => by rw [find?, find?, h]

/-- A subobject with nothing wrong has nothing wrong under another name. -/
theorem issuesOf_rename_eq_nil_iff (s : Subobject) (name : String) :
    inv.issuesOf { s with name } = [] ↔ inv.issuesOf s = [] := by
  obtain ⟨old, contents⟩ := s
  cases contents with
  | association a =>
    simp only [issuesOf, targetIssues, List.append_eq_nil_iff, List.map_eq_nil_iff]
    cases inv.find? a.target with
    | none => simp
    | some t => by_cases ht : t.kind = .association <;> simp [ht]
  | hitGroup g => by_cases hg : g.isUnbound = true <;> simp [issuesOf, hg]
  | _ => exact Iff.rfl

/-! ## One more -/

theorem targetIssues_append (hv : inv.find? new.name = none) (association target : String) :
    (inv.append new).targetIssues association target =
      (inv.targetIssues association target).flatMap (Issue.settledBy new) := by
  rw [targetIssues, targetIssues, find?_append]
  by_cases ht : target = new.name
  · rw [ht, hv]
    by_cases hk : new.kind = .association <;> simp [Issue.settledBy, hk]
  · rw [if_neg (Ne.symm ht)]
    cases inv.find? target with
    | none => simp [Issue.settledBy, ht]
    | some t => by_cases hk : t.kind = .association <;> simp [Issue.settledBy, hk]

/-- What was dangling for want of the new one is settled, in its place. -/
theorem issuesOf_append (hv : inv.find? new.name = none) (s : Subobject) :
    (inv.append new).issuesOf s = (inv.issuesOf s).flatMap (Issue.settledBy new) := by
  rw [issuesOf, issuesOf]
  cases s.contents with
  | association a =>
    simp only [List.flatMap_append, targetIssues_append hv, Issue.flatMap_settledBy_duplicateExport]
  | hitGroup g => by_cases hg : g.isUnbound = true <;> simp [hg, Issue.settledBy]
  | _ => rfl

/-- The issues of all, the new one included. -/
theorem issues_append (hv : inv.find? new.name = none) :
    (inv.append new).subobjects.flatMap (inv.append new).issuesOf =
      (inv.subobjects.flatMap inv.issuesOf).flatMap (Issue.settledBy new) ++ (inv.append new).issuesOf new := by
  rw [append, List.flatMap_append, List.flatMap_singleton, List.flatMap_assoc]
  congr 1
  exact List.flatMap_congr fun s _ => issuesOf_append hv s

/-! ## One less -/

theorem targetIssues_erase (hd : (inv.subobjects.map (·.name)).Nodup) (gone association target : String) :
    (inv.erase gone).targetIssues association target =
      if target = gone then [.danglingAssociation association target] else inv.targetIssues association target := by
  rw [targetIssues, find?_erase hd]
  by_cases ht : target = gone
  · simp [ht]
  · simp only [if_neg ht]
    rfl

theorem filter_targetIssues (association target : String) :
    (inv.targetIssues association target).filter (!·.ofTarget) = [] := by
  unfold targetIssues
  cases inv.find? target with
  | none => rfl
  | some t => by_cases hk : t.kind = .association <;> simp [hk, Issue.ofTarget]

/-- An association to it is dangling now, whatever its target was at issue for before. -/
theorem issuesOf_erase (hd : (inv.subobjects.map (·.name)).Nodup) (gone : String) (s : Subobject) :
    (inv.erase gone).issuesOf s = Issue.without gone s (inv.issuesOf s) := by
  obtain ⟨name, contents⟩ := s
  cases contents with
  | association a =>
    have htarget : (⟨name, .association a⟩ : Subobject).target? = some a.target := rfl
    simp only [issuesOf, targetIssues_erase hd, Issue.without, htarget, Option.some.injEq]
    by_cases ha : a.target = gone
    · rw [if_pos ha, if_pos ha, List.filter_append, filter_targetIssues, Issue.filter_duplicateExport, ha]
      rfl
    · rw [if_neg ha, if_neg ha]
  | _ => rfl

/-! ## Where nothing was wrong -/

theorem without_nil_eq_nil_iff {gone : String} : Issue.without gone s [] = [] ↔ s.target? ≠ some gone := by
  unfold Issue.without
  by_cases ht : s.target? = some gone <;> simp [ht]

/-- What is dangling for want of the one that went is not settled by another one. -/
theorem flatMap_settledBy_without {gone : String} (hne : new.name ≠ gone) :
    (Issue.without gone s []).flatMap (Issue.settledBy new) = Issue.without gone s [] := by
  unfold Issue.without
  by_cases ht : s.target? = some gone <;> simp [ht, Issue.settledBy, Ne.symm hne]

variable (hd : (inv.subobjects.map (·.name)).Nodup) (hclean : inv.subobjects.flatMap inv.issuesOf = [])

include hclean

theorem issuesOf_eq_nil (hs : s ∈ inv.subobjects) : inv.issuesOf s = [] := List.flatMap_eq_nil_iff.mp hclean s hs

theorem duplicate_clean {name : String} (hs : s ∈ inv.subobjects) (hv : inv.find? name = none) :
    (inv.append { s with name }).subobjects.flatMap (inv.append { s with name }).issuesOf = [] := by
  have hnew : (inv.append { s with name }).issuesOf { s with name } = [] := by
    rw [issuesOf_rename_eq_nil_iff, issuesOf_append hv, issuesOf_eq_nil hclean hs]
    rfl
  rw [issues_append hv, hclean, hnew]
  rfl

include hd

theorem erase_clean_iff (gone : String) :
    (inv.erase gone).subobjects.flatMap (inv.erase gone).issuesOf = [] ↔
      ∀ t ∈ (inv.erase gone).subobjects, t.target? ≠ some gone := by
  rw [List.flatMap_eq_nil_iff]
  refine forall₂_congr fun t ht => ?_
  rw [issuesOf_erase hd, issuesOf_eq_nil hclean (List.mem_of_mem_eraseP ht), without_nil_eq_nil_iff]

theorem rename_clean_iff {source name : String} (hs : inv.find? source = some s) (hv : inv.find? name = none) :
    ((inv.erase source).append { s with name }).subobjects.flatMap
        ((inv.erase source).append { s with name }).issuesOf = [] ↔
      ∀ t ∈ ((inv.erase source).append { s with name }).subobjects, t.target? ≠ some source := by
  have hne : name ≠ source := by
    intro e
    rw [e, hs] at hv
    cases hv
  have hv' : (inv.erase source).find? name = none := by
    rw [find?_erase hd, if_neg hne, hv]
  rw [List.flatMap_eq_nil_iff]
  refine forall₂_congr fun t ht => ?_
  -- the one that moved has no issues of its own either, for its name does not matter
  have ht' : inv.issuesOf t = [] := by
    rcases List.mem_append.mp ht with ht | ht
    · exact issuesOf_eq_nil hclean (List.mem_of_mem_eraseP ht)
    · rw [List.mem_singleton.mp ht]
      exact (issuesOf_rename_eq_nil_iff s name).mpr (issuesOf_eq_nil hclean (List.mem_of_find?_eq_some hs))
  rw [issuesOf_append hv', issuesOf_erase hd, ht', flatMap_settledBy_without hne, without_nil_eq_nil_iff]

end Inventory

/-! ## Catalogs -/

theorem Edit.Related.added?_eq {ω ω' : Type} {R : ω → ω' → Prop} {e : Edit ω} {e' : Edit ω'} (h : e.Related R e') :
    e.added? = e'.added? := by
  cases h <;> rfl

theorem Inventory.Yields.appended {inv inv' : Inventory} {e : Edit Subobject} {reply : Reply Subobject} {name : String}
    (h : inv.Yields e reply inv') (he : e.added? = some name) :
    ∃ new, reply = .subobject new ∧ new.name = name ∧ inv.find? new.name = none ∧
      inv'.subobjects = (inv.append new).subobjects := by
  cases h with
  | created hv _ =>
    cases he
    exact ⟨_, rfl, rfl, hv, rfl⟩
  | cloned hv _ =>
    cases he
    exact ⟨_, rfl, rfl, hv, rfl⟩
  | duplicated _ hv =>
    cases he
    exact ⟨_, rfl, rfl, hv, rfl⟩
  | renamed _ _ => cases he
  | removed => cases he

namespace Catalog

variable {c d : Catalog} {inv inv' : Inventory}

/-- `d` has one subobject more, at the end. Its check finds what that of `c` finds, with the
    issues in their places that are settled, and then what is wrong with the new one. -/
def IssuesSettled (c d : Catalog) (new : Subobject) : Prop :=
  ∃ subs issues, c.subobjects = .ok subs ∧ d.subobjects = .ok (subs ++ [new]) ∧
    (check.run c).result = .ok issues ∧
    (check.run d).result = .ok (issues.flatMap (Issue.settledBy new) ++ d.issuesOf new)

/-- `d` has one subobject less. The check of either finds the issues of each subobject in
    turn, and those of the ones left are what they were, associations to `gone` apart. -/
def IssuesLoosened (c d : Catalog) (gone : String) : Prop :=
  ∃ subs left, c.subobjects = .ok subs ∧ d.subobjects = .ok left ∧ left = subs.eraseP (·.name = gone) ∧
    (check.run c).result = .ok (subs.flatMap c.issuesOf) ∧ (check.run d).result = .ok (left.flatMap d.issuesOf) ∧
    ∀ t ∈ left, d.issuesOf t = Issue.without gone t (c.issuesOf t)

/-- Nothing is wrong unless an association targets `gone`. -/
def CleanUnlessTargeted (d : Catalog) (gone : String) : Prop :=
  ∃ left, d.subobjects = .ok left ∧ ((check.run d).result = .ok [] ↔ ∀ t ∈ left, t.target? ≠ some gone)

theorem Matches.check_eq (h : c.Matches inv) : (check.run c).result = .ok (inv.subobjects.flatMap inv.issuesOf) :=
  congrArg Outcome.result (run_check h.issues_eq)

theorem Matches.clean_iff (h : c.Matches inv) :
    (check.run c).result = .ok [] ↔ inv.subobjects.flatMap inv.issuesOf = [] := by
  rw [h.check_eq, Except.ok.injEq]

theorem Matches.settled (h : c.Matches inv) (h' : d.Matches inv') {new : Subobject} (hv : inv.find? new.name = none)
    (hsubs : inv'.subobjects = (inv.append new).subobjects) : c.IssuesSettled d new := by
  refine ⟨inv.subobjects, _, h.holds.subobjects_eq, ?_, h.check_eq, ?_⟩
  · rw [h'.holds.subobjects_eq, hsubs]
    rfl
  · rw [h'.check_eq, h'.issuesOf_eq, Inventory.issuesOf_eq_of_subobjects hsubs, hsubs, Inventory.issues_append hv]

theorem Matches.loosened (h : c.Matches inv) {gone : String} (h' : d.Matches (inv.erase gone)) :
    c.IssuesLoosened d gone := by
  refine ⟨inv.subobjects, _, h.holds.subobjects_eq, h'.holds.subobjects_eq, rfl, ?_, ?_, ?_⟩
  · rw [h.check_eq, h.issuesOf_eq]
  · rw [h'.check_eq, h'.issuesOf_eq]
  · intro t _
    rw [h'.issuesOf_eq, h.issuesOf_eq, Inventory.issuesOf_erase h.holds.names_nodup]

/-! ## Edits -/

theorem Matches.removed (h : c.Matches inv) (gone : String) :
    ((Edit.remove gone).call.run c).state.Matches (inv.erase gone) := by
  rcases h.edit_cases (.remove gone) with ⟨r, hrun⟩ | ⟨_, _, inv', -, -, hm, hyields⟩
  · have hends := h.holds.ends_remove gone
    rw [hrun] at hends
    cases hends with
    | refused hr => cases hr
  · cases hyields
    exact hm

section Clean

variable (h : c.Matches inv) (hclean : inv.subobjects.flatMap inv.issuesOf = [])

include h hclean

theorem Matches.clean_duplicate (source name : String) :
    (check.run ((Edit.duplicate source name).call.run c).state).result = .ok [] := by
  rcases h.edit_cases (.duplicate source name) with ⟨r, hrun⟩ | ⟨_, _, inv', -, -, hm, hyields⟩
  · rw [hrun]
    exact h.clean_iff.mpr hclean
  · apply hm.clean_iff.mpr
    cases hyields with
    | duplicated hs hv => exact Inventory.duplicate_clean hclean (List.mem_of_find?_eq_some hs) hv

theorem Matches.clean_remove (gone : String) : ((Edit.remove gone).call.run c).state.CleanUnlessTargeted gone := by
  have hm := h.removed gone
  exact ⟨_, hm.holds.subobjects_eq, hm.clean_iff.trans (Inventory.erase_clean_iff h.holds.names_nodup hclean gone)⟩

theorem Matches.clean_rename {gone name : String} {reply : Reply View}
    (hreply : ((Edit.rename gone name).call.run c).result = .ok reply) :
    ((Edit.rename gone name).call.run c).state.CleanUnlessTargeted gone := by
  rcases h.edit_cases (.rename gone name) with ⟨r, hrun⟩ | ⟨_, _, inv', -, -, hm, hyields⟩
  · rw [hrun] at hreply
    cases hreply
  · cases hyields with
    | renamed hs hvacant =>
      exact ⟨_, hm.holds.subobjects_eq,
        hm.clean_iff.trans (Inventory.rename_clean_iff h.holds.names_nodup hclean hs hvacant)⟩

end Clean

/-- A subobject more, however it was made, settles what was dangling for want of it: such an
    issue goes, or becomes one of an association to an association, in its place. One less
    leaves the associations to it dangling, and takes its own issues along. So where
    nothing was wrong, a duplicate makes nothing wrong, and a subobject that is taken out
    or moved to another name does so exactly if an association is left that targets it. -/
theorem issues_follow_edits (h : Reachable c) :
    (∀ (s : Catalog) (e : Edit View) name reply, Reachable s → e.From s → e.added? = some name →
      (e.call.run c).result = .ok reply →
      ∃ new, reply.read = .ok (.subobject new) ∧ new.name = name ∧ c.IssuesSettled (e.call.run c).state new) ∧
    (∀ gone, c.IssuesLoosened ((Edit.remove gone).call.run c).state gone) ∧
    ((check.run c).result = .ok [] →
      (∀ source name, (check.run ((Edit.duplicate source name).call.run c).state).result = .ok []) ∧
      (∀ gone, ((Edit.remove gone).call.run c).state.CleanUnlessTargeted gone) ∧
      ∀ gone name reply, ((Edit.rename gone name).call.run c).result = .ok reply →
        ((Edit.rename gone name).call.run c).state.CleanUnlessTargeted gone) := by
  obtain ⟨inv, hm⟩ := h.matches
  refine ⟨?_, fun gone => hm.loosened (hm.removed gone), ?_⟩
  · intro s e name reply hs hfrom hadded hreply
    obtain ⟨_, hm'⟩ := hs.matches
    obtain ⟨e', hrel, -⟩ := hm'.related_of_from hfrom
    rcases hm.edit_cases hrel with ⟨r, hrun⟩ | ⟨v, reply', inv', hv, hread, hleft, hyields⟩
    · rw [hrun] at hreply
      cases hreply
    · obtain ⟨new, rfl, hname, hvacant, hsubs⟩ := hyields.appended (hrel.added?_eq.symm.trans hadded)
      obtain rfl := Except.ok.inj (hv.symm.trans hreply)
      exact ⟨new, hread, hname, hm.settled hleft hvacant hsubs⟩
  · intro hclean
    have hnone := hm.clean_iff.mp hclean
    exact ⟨hm.clean_duplicate hnone, hm.clean_remove hnone, fun _ _ _ hreply => hm.clean_rename hnone hreply⟩

/-- An association's target comes last and is an association to itself; then the first one
    goes, to which another was left. Elsewhere nothing is wrong until the target of an
    association is renamed. -/
theorem issues_of_late_target :
    let c := (make none).after [.create "first" (.association ⟨"late", ["x", "x"]⟩),
      .create "second" (.association ⟨"first", []⟩)]
    let late : Edit View := .create "late" (.association ⟨"late", []⟩)
    let d := (late.call.run c).state
    let left := ((Edit.remove "first").call.run d).state
    let tidy := (make none).after [.create "group" (.hitGroup ⟨"any", "", ""⟩),
      .create "rays" (.association ⟨"group", ["x"]⟩)]
    Reachable c ∧ Reachable tidy ∧
      (check.run c).result = .ok [.danglingAssociation "first" "late", .duplicateExport "first" "x",
        .associationToAssociation "second" "first"] ∧
      (check.run d).result = .ok [.associationToAssociation "first" "late", .duplicateExport "first" "x",
        .associationToAssociation "second" "first", .associationToAssociation "late" "late"] ∧
      (check.run left).result =
        .ok [.danglingAssociation "second" "first", .associationToAssociation "late" "late"] ∧
      (check.run tidy).result = .ok [] ∧
      (check.run ((Edit.duplicate "rays" "copy").call.run tidy).state).result = .ok [] ∧
      (check.run ((Edit.rename "group" "other").call.run tidy).state).result ≠ .ok [] := by
  intro c late d left tidy
  have hc : Reachable c := (Reachable.make none).after (sourced_of_clones (by simp))
  have hd : Reachable d := .edit late hc (.make none) True.intro
  have htidy : Reachable tidy := (Reachable.make none).after (sourced_of_clones (by simp))
  have hissues : c.issues = .ok [.danglingAssociation "first" "late", .duplicateExport "first" "x",
      .associationToAssociation "second" "first"] := by decide +kernel
  have hcheck := congrArg Outcome.result (run_check hissues)
  have hsubs : d.subobjects = .ok [⟨"first", .association ⟨"late", ["x", "x"]⟩⟩,
      ⟨"second", .association ⟨"first", []⟩⟩, ⟨"late", .association ⟨"late", []⟩⟩] := by decide +kernel
  have hof : d.issuesOf ⟨"late", .association ⟨"late", []⟩⟩ = [.associationToAssociation "late" "late"] ∧
      d.issuesOf ⟨"second", .association ⟨"first", []⟩⟩ = [.associationToAssociation "second" "first"] := by
    decide +kernel
  obtain ⟨reply, hreply⟩ : ∃ reply, (late.call.run c).result = .ok reply := ⟨_, rfl⟩
  have hclean : (check.run tidy).result = .ok [] := congrArg Outcome.result (run_check (by decide +kernel))
  obtain ⟨hduplicate, -, hrename⟩ := (issues_follow_edits htidy).2.2 hclean
  refine ⟨hc, htidy, hcheck, ?_, ?_, hclean, hduplicate "rays" "copy", ?_⟩
  · obtain ⟨new, -, -, subs, issues, -, hmore, hbefore, hafter⟩ :=
      (issues_follow_edits hc).1 _ late "late" reply (.make none) True.intro rfl hreply
    obtain rfl := Except.ok.inj (hcheck.symm.trans hbefore)
    have hnew : subs ++ [new] = [_, _] ++ [_] := Except.ok.inj (hmore.symm.trans hsubs)
    obtain ⟨-, hnew⟩ := List.append_inj' hnew rfl
    rw [List.singleton_inj.mp hnew, hof.1] at hafter
    exact hafter
  · obtain ⟨subs, _, hread, -, rfl, -, hleft, hissues⟩ := (issues_follow_edits hd).2.1 "first"
    obtain rfl := Except.ok.inj (hsubs.symm.trans hread)
    rw [hleft, List.flatMap_congr hissues]
    show Except.ok (Issue.without "first" _ (d.issuesOf _) ++ (Issue.without "first" _ (d.issuesOf _) ++ [])) = _
    rw [hof.1, hof.2]
    rfl
  · obtain ⟨left, hleft, hiff⟩ := hrename "group" "other" _ rfl
    have hsubs : ((Edit.rename "group" "other").call.run tidy).state.subobjects =
        .ok [⟨"rays", .association ⟨"group", ["x"]⟩⟩, ⟨"other", .hitGroup ⟨"any", "", ""⟩⟩] := by decide +kernel
    obtain rfl := Except.ok.inj (hsubs.symm.trans hleft)
    intro hnone
    exact hiff.mp hnone _ List.mem_cons_self rfl

end Catalog

end StateObject
