/-
  StateObject.Catalog.Consistency — the check of a finished catalog.

  Subobjects may be made in any order, so an association can name one that comes
  later. Only a finished catalog is checked. An association's target has to be a
  subobject that is no association itself, no export may be listed twice, and a hit
  group has to bind a stage. Issues come in the order of the subobjects; of one
  association the target comes first, and each repeated export once, at its second
  place.
-/

import StateObject.Catalog
import Std.Data.ExtTreeSet

namespace StateObject

/-- What was met before goes into `reported` and out to the result, unless it was reported
    already. -/
def scan (seen reported : Std.ExtTreeSet String) : List String → List String
  | [] => []
  | x :: rest =>
    if x ∈ seen then
      if x ∈ reported then scan seen reported rest else x :: scan seen (reported.insert x) rest
    else scan (seen.insert x) reported rest

def HitGroup.isUnbound (g : HitGroup String) : Bool :=
  g.intersection.isEmpty && g.anyHit.isEmpty && g.closestHit.isEmpty

namespace Catalog

def targetIssues (c : Catalog) (association target : String) : List Issue :=
  match c.find? target with
  | none => [.danglingAssociation association target]
  | some found => if found.kind = .association then [.associationToAssociation association target] else []

/-- The issues of one subobject of the catalog. -/
def issuesOf (c : Catalog) (s : Subobject) : List Issue :=
  match s.contents with
  | .association a => c.targetIssues s.name a.target ++ (scan ∅ ∅ a.exports).map (.duplicateExport s.name)
  | .hitGroup g => if g.isUnbound then [.emptyHitGroup s.name] else []
  | _ => []

def issues (c : Catalog) : Except Refusal (List Issue) := do
  let subobjects ← c.subobjects
  pure (subobjects.flatMap c.issuesOf)

/-- Finds the issues and reports each of them. -/
def check : Call Catalog (List Issue) := do
  let issues ← Call.ofExcept (← Call.get).issues
  issues.forM fun issue => Call.log (.found issue)
  pure issues

end Catalog

end StateObject
