/-
  StateObject.ConfigFlags — the flags of a state object config.

  Two bits are defined. Raw bits become flags only when no other bit is set
  (`ofBits?`); what is wrong with the rest is told by `unknownBits`.
-/

namespace StateObject

structure ConfigFlags where
  bits : UInt32
  deriving DecidableEq, Repr

namespace ConfigFlags

/-- Local definitions may depend on definitions outside the state object. -/
def localOnExternal : ConfigFlags := ⟨1⟩

/-- External definitions may depend on definitions local to the state object. -/
def externalOnLocal : ConfigFlags := ⟨2⟩

instance : OrOp ConfigFlags := ⟨fun a b => ⟨a.bits ||| b.bits⟩⟩

/-- Every defined flag. -/
def defined : ConfigFlags := localOnExternal ||| externalOnLocal

/-- The bits of `raw` that no flag defines. -/
def unknownBits (raw : UInt32) : UInt32 := raw &&& ~~~defined.bits

def ofBits? (raw : UInt32) : Option ConfigFlags := if unknownBits raw = 0 then some ⟨raw⟩ else none

def isEmpty (f : ConfigFlags) : Bool := f.bits == 0

/-- Every flag of `g` is set in `f`. -/
def contains (f g : ConfigFlags) : Bool := f.bits &&& g.bits == g.bits

def summary (f : ConfigFlags) : String :=
  match f.contains localOnExternal, f.contains externalOnLocal with
  | true, true => "local_on_external | external_on_local"
  | true, false => "local_on_external"
  | false, true => "external_on_local"
  | false, false => "none"

def literal (f : ConfigFlags) : String := "StateObjectFlags(" ++ toString f.bits ++ ")"

end ConfigFlags

end StateObject
