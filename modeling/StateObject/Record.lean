/-
  StateObject.Record — the journal: what a call reports about its work.

  A call hands its records back in the order in which it made them. A record keeps
  what was reported; `text` is how the journal writes it.
-/

import StateObject.Issue
import StateObject.Kind
import StateObject.Text.Hex

namespace StateObject

inductive Level where
  | trace
  | debug
  | warn
  deriving DecidableEq, Repr

def Level.name : Level → String
  | trace => "TRACE"
  | debug => "DEBUG"
  | warn => "WARN"

inductive Record where
  /-- A subobject was entered under a name: the last step of every edit that adds one. -/
  | created (kind : Kind) (name : String)
  | removed (name : String)
  | cloned (source name : String)
  | duplicated (source name : String)
  | renamed (source name : String)
  /-- The buffer at `address` was stored before, as copy `index`. -/
  | alreadyStored (address index : Nat)
  | found (issue : Issue)
  deriving DecidableEq, Repr

namespace Record

def level : Record → Level
  | alreadyStored .. => .trace
  | found _ => .warn
  | _ => .debug

/-- Names stand in the journal as they are. -/
def text : Record → String
  | created kind name => "created " ++ kind.name ++ " subobject '" ++ name ++ "'"
  | removed name => "removed subobject '" ++ name ++ "'"
  | cloned source name => "cloning subobject '" ++ source ++ "' as '" ++ name ++ "'"
  | duplicated source name => "duplicating subobject '" ++ source ++ "' as '" ++ name ++ "'"
  | renamed source name => "renaming subobject '" ++ source ++ "' to '" ++ name ++ "'"
  | alreadyStored address index =>
    "blob at " ++ Text.hex address ++ " already stored as [" ++ toString index ++ "]"
  | found issue => issue.message

end Record

end StateObject
