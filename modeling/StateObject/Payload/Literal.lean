/-
  StateObject.Payload.Literal — payloads written out field by field.
-/

import StateObject.Payload
import StateObject.Text.Literal
import StateObject.Text.Quoted

namespace StateObject

open Text (Literal listed quoted)

def RootSignature.literal (r : RootSignature Bytes) : Literal :=
  ⟨"RootSignature", [("data", listed (r.data.map toString)), ("size", toString r.size)]⟩

def Association.literal (a : Association String) : Literal :=
  ⟨"ExportsAssociation", [("subobject", quoted a.target), ("exports", listed (a.exports.map quoted))]⟩

def ShaderConfig.literal (c : ShaderConfig) : Literal :=
  ⟨"RaytracingShaderConfig",
    [("max_payload_size_in_bytes", toString c.maxPayload),
      ("max_attribute_size_in_bytes", toString c.maxAttributes)]⟩

def PipelineConfig.literal (c : PipelineConfig) : Literal :=
  ⟨"RaytracingPipelineConfig", [("max_trace_recursion_depth", toString c.maxRecursion)]⟩

def HitGroup.literal (g : HitGroup String) : Literal :=
  ⟨"HitGroup",
    [("intersection", quoted g.intersection), ("any_hit", quoted g.anyHit),
      ("closest_hit", quoted g.closestHit)]⟩

/-- Flags are written in their own short form, all else field by field. -/
def Payload.literal : Contents → String
  | stateObjectConfig f => f.literal
  | rootSignature _ r => r.literal.inline
  | association a => a.literal.inline
  | shaderConfig c => c.literal.inline
  | pipelineConfig c => c.literal.inline
  | hitGroup g => g.literal.inline

end StateObject
