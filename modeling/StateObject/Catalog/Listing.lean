/-
  StateObject.Catalog.Listing — a catalog as text.

  A subobject's summary is its kind, its name in quotes and the summary of its
  payload, which the reader of that kind is asked for. A listing is a line with the
  number of subobjects, and then the summary of each, in order. Names are written as
  they are, so a name that holds a line end breaks its line.
-/

import StateObject.Catalog
import StateObject.Payload.Literal
import StateObject.Payload.Summary

namespace StateObject

namespace Subobject

/-- Kind and name, in front of every summary. -/
def heading (s : Subobject) : String := s.kind.name ++ " '" ++ s.name ++ "'"

/-- Were the reader of the kind silent, nothing would follow the name. -/
def summary (s : Subobject) : String :=
  match s.contents.summaryAs? s.kind with
  | some text => s.heading ++ ": " ++ text
  | none => s.heading

/-- Names the subobject and its kind, and leaves its payload out. -/
def literal (s : Subobject) : Text.Literal :=
  ⟨"SubobjectRef", [("name", Text.quoted s.name), ("kind", s.kind.name)]⟩

end Subobject

namespace Catalog

def listingLine (s : Subobject) : String := "  " ++ s.summary ++ "\n"

def listing (c : Catalog) : Except Refusal String := do
  let subobjects ← c.subobjects
  pure ("Subobjects (" ++ toString c.size ++ "):\n" ++ String.join (subobjects.map listingLine))

end Catalog

end StateObject
