/-
  StateObject.Payload — what a subobject carries, by kind.

  The same six shapes appear three times: as a caller asks for them (`Spec`), as a
  catalog stores them (`Stored`), and as a reader sees them (`Contents`). They differ
  only in how flags, names and root signatures are given, so one type serves all, and
  `mapM` turns one form into another. It visits an association's target before its
  exports, the exports in order, and a hit group's stages as they are listed.

  Each kind has a reader that answers for that kind alone (`configFlags?` and the
  five after it).
-/

import StateObject.ConfigFlags
import StateObject.Kind
import StateObject.Memory

namespace StateObject

/-- A serialized root signature and the length that is written for it. -/
structure RootSignature (δ : Type) where
  data : δ
  size : UInt32
  deriving DecidableEq, Repr

/-- Which exports the subobject `target` applies to. It need not exist. -/
structure Association (σ : Type) where
  target : σ
  exports : List σ
  deriving DecidableEq, Repr

/-- Limits on what a shader passes along, in bytes. -/
structure ShaderConfig where
  maxPayload : UInt32
  maxAttributes : UInt32
  deriving DecidableEq, Repr

structure PipelineConfig where
  maxRecursion : UInt32
  deriving DecidableEq, Repr

/-- The shader of each stage; the empty name leaves a stage unbound. -/
structure HitGroup (σ : Type) where
  intersection : σ
  anyHit : σ
  closestHit : σ
  deriving DecidableEq, Repr

/-- A payload with flags in `φ`, names in `σ` and root signatures in `ρ`. -/
inductive Payload (φ σ ρ : Type) where
  | stateObjectConfig (flags : φ)
  | rootSignature (scope : Scope) (signature : ρ)
  | association (association : Association σ)
  | shaderConfig (config : ShaderConfig)
  | pipelineConfig (config : PipelineConfig)
  | hitGroup (group : HitGroup σ)
  deriving DecidableEq, Repr

/-- As a caller asks for it: raw bits, strings, and the caller's bytes. -/
abbrev Spec := Payload UInt32 String Slice

/-- As a catalog stores it: flags, and slots in the catalog's own pool. -/
abbrev Stored := Payload ConfigFlags Symbol (RootSignature BufferSlot)

/-- As a reader sees it: every slot replaced by what it stands for. -/
abbrev Contents := Payload ConfigFlags String (RootSignature Bytes)

namespace Payload

variable {φ φ' σ σ' ρ ρ' : Type}

def kind : Payload φ σ ρ → Kind
  | stateObjectConfig _ => .stateObjectConfig
  | rootSignature scope _ => .rootSignature scope
  | association _ => .association
  | shaderConfig _ => .shaderConfig
  | pipelineConfig _ => .pipelineConfig
  | hitGroup _ => .hitGroup

def mapM {m : Type → Type} [Monad m] (flags : φ → m φ') (name : σ → m σ') (signature : ρ → m ρ') :
    Payload φ σ ρ → m (Payload φ' σ' ρ')
  | stateObjectConfig f => do
    let f ← flags f
    pure (stateObjectConfig f)
  | rootSignature scope r => do
    let r ← signature r
    pure (rootSignature scope r)
  | association a => do
    let target ← name a.target
    let exports ← a.exports.mapM name
    pure (association { target, exports })
  | shaderConfig c => pure (shaderConfig c)
  | pipelineConfig c => pure (pipelineConfig c)
  | hitGroup g => do
    let intersection ← name g.intersection
    let anyHit ← name g.anyHit
    let closestHit ← name g.closestHit
    pure (hitGroup { intersection, anyHit, closestHit })

/-! ## Readers -/

def configFlags? : Payload φ σ ρ → Option φ
  | stateObjectConfig f => some f
  | _ => none

/-- The root signature, if it is one of the scope asked for. -/
def rootSignature? (scope : Scope) : Payload φ σ ρ → Option ρ
  | rootSignature s r => if s = scope then some r else none
  | _ => none

def association? : Payload φ σ ρ → Option (Association σ)
  | association a => some a
  | _ => none

def shaderConfig? : Payload φ σ ρ → Option ShaderConfig
  | shaderConfig c => some c
  | _ => none

def pipelineConfig? : Payload φ σ ρ → Option PipelineConfig
  | pipelineConfig c => some c
  | _ => none

def hitGroup? : Payload φ σ ρ → Option (HitGroup σ)
  | hitGroup g => some g
  | _ => none

end Payload

end StateObject
