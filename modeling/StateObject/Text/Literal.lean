/-
  StateObject.Text.Literal — values written out field by field.

  A literal names a type and its fields, each with its value already written. It is
  shown on one line, or spread with one field a line.
-/

namespace StateObject.Text

structure Literal where
  name : String
  fields : List (String × String)
  deriving DecidableEq, Repr

namespace Literal

def inline (l : Literal) : String :=
  l.name ++ " \x7b " ++ ", ".intercalate (l.fields.map fun (field, value) => field ++ ": " ++ value) ++ " \x7d"

/-- Each field on a line of its own, indented by four spaces and ended by a comma. -/
def spread (l : Literal) : String :=
  l.name ++ " \x7b\n" ++
    String.join (l.fields.map fun (field, value) => "    " ++ field ++ ": " ++ value ++ ",\n") ++ "\x7d"

end Literal

/-- Items between brackets. -/
def listed (items : List String) : String := "[" ++ ", ".intercalate items ++ "]"

end StateObject.Text
