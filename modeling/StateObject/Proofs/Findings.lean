/-
  StateObject.Proofs.Findings — what the check of a catalog finds.

  `TargetFindings`, `Findings` and `AllFindings` say what is wrong with a target, with a
  subobject and with a list of them, without a word on how to look for it. What they allow
  is one list of issues (`AllFindings.unique`), and

  - `Inventory.allFindings_issues`: the issues of an inventory are that list;
  - `AllFindings.quotes`: each of them names a subobject and what it holds;
  - `check_reports_findings`: the check of a reachable catalog returns the list, reports
    it and changes nothing.
-/

import StateObject.Proofs.Ownership
import StateObject.Proofs.Repeats

namespace StateObject

/-- What is wrong with the target of an association. -/
inductive TargetFindings (subs : List Subobject) (association target : String) : List Issue → Prop
  | dangling : (∀ s ∈ subs, s.name ≠ target) →
      TargetFindings subs association target [.danglingAssociation association target]
  | toAssociation {s : Subobject} : s ∈ subs → s.name = target → s.kind = .association →
      TargetFindings subs association target [.associationToAssociation association target]
  | nothing {s : Subobject} : s ∈ subs → s.name = target → s.kind ≠ .association →
      TargetFindings subs association target []

/-- What is wrong with one of the subobjects. -/
inductive Findings (subs : List Subobject) : Subobject → List Issue → Prop
  | association {name : String} {a : Association String} {ofTarget : List Issue} {exports : List String} :
      TargetFindings subs name a.target ofTarget → Repeats a.exports exports →
      Findings subs ⟨name, .association a⟩ (ofTarget ++ exports.map (.duplicateExport name))
  | unboundGroup {name : String} : Findings subs ⟨name, .hitGroup ⟨"", "", ""⟩⟩ [.emptyHitGroup name]
  | boundGroup {name : String} {g : HitGroup String} : g ≠ ⟨"", "", ""⟩ → Findings subs ⟨name, .hitGroup g⟩ []
  | otherKind {s : Subobject} : s.kind ≠ .association → s.kind ≠ .hitGroup → Findings subs s []

/-- What is wrong with them, in their order. -/
def AllFindings (subs : List Subobject) (issues : List Issue) : Prop :=
  ∃ parts, List.Forall₂ (Findings subs) subs parts ∧ issues = parts.flatten

/-- The issue names a subobject, and a target or an export that the subobject holds. -/
def Issue.Quotes (subs : List Subobject) : Issue → Prop
  | danglingAssociation association target => ∃ exports, ⟨association, .association ⟨target, exports⟩⟩ ∈ subs
  | associationToAssociation association target => ∃ exports, ⟨association, .association ⟨target, exports⟩⟩ ∈ subs
  | duplicateExport association exportName => ∃ a, ⟨association, .association a⟩ ∈ subs ∧ exportName ∈ a.exports
  | emptyHitGroup hitGroup => ∃ g, ⟨hitGroup, .hitGroup g⟩ ∈ subs

variable {subs : List Subobject}

/-! ## One list of issues -/

theorem TargetFindings.unique (hd : (subs.map (·.name)).Nodup) {association target : String} {xs ys : List Issue}
    (hx : TargetFindings subs association target xs) (hy : TargetFindings subs association target ys) : xs = ys := by
  have hone : ∀ {s t : Subobject}, s ∈ subs → t ∈ subs → s.name = target → t.name = target → s = t :=
    fun hs ht es et => List.inj_on_of_nodup_map hd hs ht (es.trans et.symm)
  cases hx with
  | dangling hnone =>
    cases hy with
    | dangling _ => rfl
    | toAssociation ht et _ => exact absurd et (hnone _ ht)
    | nothing ht et _ => exact absurd et (hnone _ ht)
  | toAssociation hs es hk =>
    cases hy with
    | dangling hnone => exact absurd es (hnone _ hs)
    | toAssociation _ _ _ => rfl
    | nothing ht et hk' => exact absurd (hone hs ht es et ▸ hk) hk'
  | nothing hs es hk =>
    cases hy with
    | dangling hnone => exact absurd es (hnone _ hs)
    | toAssociation ht et hk' => exact absurd (hone ht hs et es ▸ hk') hk
    | nothing _ _ _ => rfl

theorem Findings.unique (hd : (subs.map (·.name)).Nodup) {s : Subobject} {xs ys : List Issue}
    (hx : Findings subs s xs) (hy : Findings subs s ys) : xs = ys := by
  cases hx with
  | association ht hr =>
    cases hy with
    | association ht' hr' => rw [ht.unique hd ht', hr.unique hr']
    | otherKind hk _ => exact absurd rfl hk
  | unboundGroup =>
    cases hy with
    | unboundGroup => rfl
    | boundGroup hg => exact absurd rfl hg
    | otherKind _ hk => exact absurd rfl hk
  | boundGroup hg =>
    cases hy with
    | unboundGroup => exact absurd rfl hg
    | boundGroup _ => rfl
    | otherKind _ _ => rfl
  | otherKind hk hk' =>
    cases hy with
    | association _ _ => exact absurd rfl hk
    | unboundGroup => exact absurd rfl hk'
    | boundGroup _ => rfl
    | otherKind _ _ => rfl

theorem AllFindings.unique (hd : (subs.map (·.name)).Nodup) {xs ys : List Issue} (hx : AllFindings subs xs)
    (hy : AllFindings subs ys) : xs = ys := by
  obtain ⟨parts, hparts, rfl⟩ := hx
  obtain ⟨parts', hparts', rfl⟩ := hy
  have hsame : parts = parts' := List.right_unique_forall₂' (fun _ _ _ h h' => h.unique hd h') hparts hparts'
  rw [hsame]

/-! ## Nothing is made up -/

theorem Findings.quotes {s : Subobject} (hs : s ∈ subs) {issues : List Issue} (h : Findings subs s issues)
    {issue : Issue} (hi : issue ∈ issues) : issue.Quotes subs := by
  cases h with
  | @association name a _ exports ht hr =>
    rcases List.mem_append.mp hi with hi | hi
    · cases ht with
      | dangling _ =>
        rw [List.mem_singleton.mp hi]
        exact ⟨a.exports, hs⟩
      | toAssociation _ _ _ =>
        rw [List.mem_singleton.mp hi]
        exact ⟨a.exports, hs⟩
      | nothing _ _ _ => cases hi
    · obtain ⟨x, hx, rfl⟩ := List.mem_map.mp hi
      have htwice := (hr.mem_iff x).mp hx
      exact ⟨a, hs, List.count_pos_iff.mp (by omega)⟩
  | unboundGroup =>
    rw [List.mem_singleton.mp hi]
    exact ⟨_, hs⟩
  | boundGroup _ => cases hi
  | otherKind _ _ => cases hi

theorem AllFindings.quotes {issues : List Issue} (h : AllFindings subs issues) {issue : Issue} (hi : issue ∈ issues) :
    issue.Quotes subs := by
  obtain ⟨parts, hparts, rfl⟩ := h
  obtain ⟨part, hpart, hi⟩ := List.mem_flatten.mp hi
  obtain ⟨s, hs, hfind⟩ := forall₂_exists_right (hparts.flip (R := flip (Findings subs))) hpart
  exact hfind.quotes hs hi

/-! ## What is found -/

theorem HitGroup.isUnbound_iff {g : HitGroup String} : g.isUnbound = true ↔ g = ⟨"", "", ""⟩ := by
  obtain ⟨i, a, c⟩ := g
  simp [isUnbound, and_assoc]

namespace Inventory

variable (inv : Inventory)

theorem targetFindings (association target : String) :
    TargetFindings inv.subobjects association target (inv.targetIssues association target) := by
  rw [targetIssues, find?]
  cases hs : inv.subobjects.find? (·.name = target) with
  | none =>
    refine .dangling ?_
    intro s hs'
    simpa using List.find?_eq_none.mp hs s hs'
  | some s =>
    have hmem := List.mem_of_find?_eq_some hs
    have hname : s.name = target := by simpa using List.find?_some hs
    by_cases hk : s.kind = .association
    · simp only [hk, if_true]
      exact .toAssociation hmem hname hk
    · simp only [hk, if_false]
      exact .nothing hmem hname hk

theorem findings (s : Subobject) : Findings inv.subobjects s (inv.issuesOf s) := by
  obtain ⟨name, contents⟩ := s
  rw [issuesOf]
  cases contents with
  | association a => exact .association (inv.targetFindings name a.target) (repeats_repeated a.exports)
  | hitGroup g =>
    by_cases hg : g.isUnbound = true
    · simp only [hg, if_true]
      rw [HitGroup.isUnbound_iff.mp hg]
      exact .unboundGroup
    · simp only [hg, Bool.false_eq_true, if_false]
      exact .boundGroup (mt HitGroup.isUnbound_iff.mpr hg)
  | _ => exact .otherKind (by intro h; cases h) (by intro h; cases h)

theorem allFindings_issues : AllFindings inv.subobjects (inv.subobjects.flatMap inv.issuesOf) := by
  refine ⟨inv.subobjects.map inv.issuesOf, ?_, (List.flatMap_def ..)⟩
  rw [List.forall₂_map_right_iff, List.forall₂_same]
  intro s _
  exact inv.findings s

end Inventory

namespace Catalog

variable {c : Catalog}

/-- The check returns what is wrong with the subobjects, all of it and nothing else, in the
    order of the subobjects. It reports each issue in the words of its message, as a
    warning, and leaves the catalog as it was. A name is that of a subobject exactly when
    the catalog has it, whatever other strings the catalog has seen. -/
theorem check_reports_findings (h : Reachable c) :
    ∃ subs issues, c.subobjects = .ok subs ∧ (∀ name, c.contains name = true ↔ ∃ s ∈ subs, s.name = name) ∧
      (∀ l, AllFindings subs l ↔ l = issues) ∧ (∀ issue ∈ issues, issue.Quotes subs) ∧
      check.run c = ⟨.ok issues, c, issues.map .found⟩ ∧
      (check.run c).log.map (fun r => (r.level, r.text)) = issues.map (fun issue => (.warn, issue.message)) := by
  obtain ⟨inv, hm⟩ := h.matches
  have hfound := inv.allFindings_issues
  have hrun := run_check hm.issues_eq
  refine ⟨inv.subobjects, _, hm.holds.subobjects_eq, ?_, ?_, fun _ hi => hfound.quotes hi, hrun, ?_⟩
  · intro name
    rw [hm.contains_eq, Inventory.contains, Inventory.find?, List.find?_isSome]
    simp
  · intro l
    constructor
    · intro hl
      exact hl.unique hm.holds.names_nodup hfound
    · intro e
      rw [e]
      exact hfound
  · rw [hrun, List.map_map]
    rfl

/-- An association to itself, a target that is known as an export but is no subobject, and
    exports whose second places come in another order than their first. -/
theorem check_of_five_issues :
    let c := (make none).after [.create "loop" (.association ⟨"loop", ["x", "y", "y", "x", "y"]⟩),
      .create "rays" (.association ⟨"x", []⟩), .create "none" (.hitGroup ⟨"", "", ""⟩)]
    let issues := [Issue.associationToAssociation "loop" "loop", .duplicateExport "loop" "y", .duplicateExport "loop" "x",
      .danglingAssociation "rays" "x", .emptyHitGroup "none"]
    Reachable c ∧ c.pool.symbols.find? "x" = some ⟨1⟩ ∧ check.run c = ⟨.ok issues, c, issues.map .found⟩ ∧
      ∃ subs, c.subobjects = .ok subs ∧ AllFindings subs issues := by
  intro c issues
  have hc : Reachable c := (Reachable.make none).after fun e he => ⟨make none, .make none, by
    simp only [List.mem_cons, List.not_mem_nil, or_false] at he
    rcases he with rfl | rfl | rfl <;> exact True.intro⟩
  obtain ⟨subs, found, hsubs, -, hall, -, hrun, -⟩ := check_reports_findings hc
  have hissues : c.issues = .ok issues := by decide +kernel
  have hcheck : check.run c = ⟨.ok issues, c, issues.map .found⟩ := run_check hissues
  have hfound : issues = found := by
    rw [hcheck] at hrun
    exact Except.ok.inj (congrArg Outcome.result hrun)
  subst hfound
  exact ⟨hc, rfl, hcheck, subs, hsubs, (hall issues).mpr rfl⟩

end Catalog

end StateObject
