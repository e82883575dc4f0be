/-
  StateObject.Catalog.Sharing — whether two root signatures share their bytes.

  Who reads a root signature is lent the stored bytes, not given a copy of them, and so can
  tell by where they lie whether two of them are one.
-/

import StateObject.Catalog

namespace StateObject

structure Sharing where
  /-- One stored copy serves both. Copies of no bytes are all one. -/
  same : Bool
  /-- Both read alike, in bytes and in size. -/
  equal : Bool
  deriving DecidableEq, Repr

namespace Catalog

/-- Nothing, unless both names are those of root signatures. -/
def sharing (c : Catalog) (a b : String) : Except Refusal (Option Sharing) :=
  match (c.find? a).bind View.signature?, (c.find? b).bind View.signature? with
  | some r, some s => do
    let x ← c.pool.resolveSignature r
    let y ← c.pool.resolveSignature s
    pure (some { same := r.data = s.data || (x.data.isEmpty && y.data.isEmpty), equal := x = y })
  | _, _ => pure none

end Catalog

end StateObject
