/-
  StateObject.Payload.Summary — payloads in one line, as a listing shows them.

  `summary` goes by the shape of a payload. A listing goes by a kind, and asks the reader
  of that kind (`summaryAs?`).
-/

import StateObject.Payload
import StateObject.Text.Literal

namespace StateObject

/-- Tells the length that is written, and none of the bytes. -/
def RootSignature.summary (r : RootSignature Bytes) : String := toString r.size ++ " bytes"

def Association.summary (a : Association String) : String := a.target ++ " -> " ++ Text.listed a.exports

def ShaderConfig.summary (c : ShaderConfig) : String :=
  "payload=" ++ toString c.maxPayload ++ ", attributes=" ++ toString c.maxAttributes

def PipelineConfig.summary (c : PipelineConfig) : String := "max_recursion=" ++ toString c.maxRecursion

namespace HitGroup

/-- A dash stands for a stage that is not bound. -/
def orDash (shader : String) : String := if shader.isEmpty then "-" else shader

def summary (g : HitGroup String) : String :=
  "intersection=" ++ orDash g.intersection ++ ", anyhit=" ++ orDash g.anyHit ++ ", closesthit=" ++ orDash g.closestHit

end HitGroup

def Payload.summary : Contents → String
  | stateObjectConfig f => f.summary
  | rootSignature _ r => r.summary
  | association a => a.summary
  | shaderConfig c => c.summary
  | pipelineConfig c => c.summary
  | hitGroup g => g.summary

/-- The summary of what the reader of the kind answers, if it answers. -/
def Payload.summaryAs? (contents : Contents) : Kind → Option String
  | .stateObjectConfig => contents.configFlags?.map (·.summary)
  | .rootSignature scope => (contents.rootSignature? scope).map (·.summary)
  | .association => contents.association?.map (·.summary)
  | .shaderConfig => contents.shaderConfig?.map (·.summary)
  | .pipelineConfig => contents.pipelineConfig?.map (·.summary)
  | .hitGroup => contents.hitGroup?.map (·.summary)

end StateObject
