/-
  StateObject.Kind — the seven kinds of subobject, their names and container codes.
-/

namespace StateObject

/-- What a root signature covers: the whole dispatch, or one shader's own arguments. -/
inductive Scope where
  | globalScope
  | localScope
  deriving DecidableEq, Repr

inductive Kind where
  | stateObjectConfig
  | rootSignature (scope : Scope)
  | association
  | shaderConfig
  | pipelineConfig
  | hitGroup
  deriving DecidableEq, Repr

namespace Kind

/-- Every kind, in the order of the codes. -/
def all : List Kind :=
  [stateObjectConfig, rootSignature .globalScope, rootSignature .localScope, association, shaderConfig,
    pipelineConfig, hitGroup]

/-- The type code that the container format gives the kind. -/
def code : Kind → UInt32
  | stateObjectConfig => 0
  | rootSignature .globalScope => 1
  | rootSignature .localScope => 2
  | association => 8
  | shaderConfig => 9
  | pipelineConfig => 10
  | hitGroup => 11

def ofCode? (code : UInt32) : Option Kind := all.find? (·.code == code)

def name : Kind → String
  | stateObjectConfig => "StateObjectConfig"
  | rootSignature .globalScope => "GlobalRootSignature"
  | rootSignature .localScope => "LocalRootSignature"
  | association => "SubobjectToExportsAssociation"
  | shaderConfig => "RaytracingShaderConfig"
  | pipelineConfig => "RaytracingPipelineConfig"
  | hitGroup => "HitGroup"

def isRootSignature : Kind → Bool
  | rootSignature _ => true
  | _ => false

theorem mem_all (k : Kind) : k ∈ all := by
  rcases k with _ | ⟨_ | _⟩ | _ | _ | _ | _ <;> decide

theorem ofCode?_code (k : Kind) : ofCode? k.code = some k := by
  rcases k with _ | ⟨_ | _⟩ | _ | _ | _ | _ <;> decide

end Kind

end StateObject
