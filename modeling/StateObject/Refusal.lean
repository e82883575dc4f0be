/-
  StateObject.Refusal — why a call is turned down, and what its caller is told.
-/

import StateObject.Text.Hex

namespace StateObject

inductive Refusal where
  /-- The name belongs to a subobject already. -/
  | nameCollision (name : String)
  /-- A config was asked for with bits that no flag defines. -/
  | invalidFlags (flags unknown : UInt32)
  /-- The buffer is not shorter than the limit. -/
  | sizeExceeded (length limit : Nat)
  /-- No subobject has the name that was to be copied or moved. -/
  | unknownSubobject (name : String)
  /-- The slot lies past the end of the store that it is read in. -/
  | outOfBounds (length index : Nat)
  deriving DecidableEq, Repr

/-- Names stand in messages as they are. -/
def Refusal.message : Refusal → String
  | nameCollision name => "subobject name collision: '" ++ name ++ "' already exists"
  | invalidFlags flags unknown =>
    "invalid state object flags " ++ Text.hex flags.toNat ++ " (unknown bits: " ++ Text.hex unknown.toNat ++ ")"
  | sizeExceeded length limit =>
    "byte buffer of " ++ toString length ++ " bytes exceeds size limit (must be below " ++ toString limit ++ ")"
  | unknownSubobject name => "unknown subobject '" ++ name ++ "'"
  | outOfBounds length index =>
    "index out of bounds: the len is " ++ toString length ++ " but the index is " ++ toString index

end StateObject
