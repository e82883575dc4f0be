/-
  StateObject.ShaderModule — a shader module's share of state objects.

  A module without ray tracing configuration carries no catalog.
-/

import StateObject.Catalog

namespace StateObject

structure ShaderModule where
  catalog : Option Catalog := none

namespace ShaderModule

def hasCatalog (m : ShaderModule) : Bool := m.catalog.isSome

/-- The module's catalog, and the module with that catalog; a new one if it had none. -/
def ensure (m : ShaderModule) : Catalog × ShaderModule :=
  let c := m.catalog.getD {}
  (c, { m with catalog := some c })

/-- Hands the catalog over, and leaves the module without. -/
def take (m : ShaderModule) : Option Catalog × ShaderModule := (m.catalog, { m with catalog := none })

/-- Puts a catalog, or none, in the place of the module's own. -/
def replace (m : ShaderModule) (catalog : Option Catalog) : ShaderModule := { m with catalog }

end ShaderModule

end StateObject
