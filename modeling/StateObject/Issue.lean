/-
  StateObject.Issue — what can be inconsistent in a finished catalog.
-/

namespace StateObject

inductive Issue where
  /-- The association's target is no subobject. -/
  | danglingAssociation (association target : String)
  /-- The association's target is an association. -/
  | associationToAssociation (association target : String)
  /-- The association lists an export more than once. -/
  | duplicateExport (association exportName : String)
  /-- No stage of the hit group is bound. -/
  | emptyHitGroup (hitGroup : String)
  deriving DecidableEq, Repr

/-- Names stand in messages as they are. -/
def Issue.message : Issue → String
  | danglingAssociation association target =>
    "association '" ++ association ++ "' refers to unknown subobject '" ++ target ++ "'"
  | associationToAssociation association target =>
    "association '" ++ association ++ "' refers to association '" ++ target ++ "'"
  | duplicateExport association exportName =>
    "association '" ++ association ++ "' lists export '" ++ exportName ++ "' more than once"
  | emptyHitGroup hitGroup => "hit group '" ++ hitGroup ++ "' binds no shaders"

end StateObject
