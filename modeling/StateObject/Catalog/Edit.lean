/-
  StateObject.Catalog.Edit — the calls that change a catalog.

  A subobject is made from a caller's payload (`create`), from a subobject of another
  catalog (`clone`) or from one of this catalog (`duplicate`, `rename`); `remove`
  takes one out. Whatever can be refused is checked before anything is taken into the
  pool, and a new entry comes last of all.
-/

import StateObject.Catalog

namespace StateObject.Catalog

/-- A call on the pool of a catalog. -/
def inPool {α : Type} : Call Pool α → Call Catalog α :=
  Call.within (·.pool) fun c pool => { c with pool }

/-! ## Checks -/

/-- Refuses a name that a subobject has. -/
def requireVacant (name : String) : Call Catalog Unit := do
  match (← Call.get).symbolOf? name with
  | some _ => Call.refuse (.nameCollision name)
  | none => pure ()

/-- The symbol and the entry of a name; refuses a name that no subobject has. -/
def locate (name : String) : Call Catalog (Symbol × Entry) := do
  let c ← Call.get
  let found := do
    let symbol ← c.symbolOf? name
    let entry ← c.entries.find? symbol
    pure (symbol, entry)
  match found with
  | some found => pure found
  | none => Call.refuse (.unknownSubobject name)

/-! ## Edits -/

/-- Enters a payload of this catalog's pool under a vacant name. -/
def enter (name : String) (payload : Stored) : Call Catalog View := do
  let symbol ← inPool (Pool.internName name)
  Call.log (.created payload.kind name)
  let entry : Entry := { name := symbol, payload }
  Call.update fun c =>
    let c := { c with entries := c.entries.insert symbol entry }
    (c.view entry, c)

def create (name : String) (spec : Spec) : Call Catalog View := do
  requireVacant name
  let payload ← inPool (Pool.intern spec)
  enter name payload

/-- Copies a subobject of another catalog. Its strings and bytes become this catalog's
    own, so the copy outlives its source. -/
def clone (source : View) (name : String) : Call Catalog View := do
  requireVacant name
  Call.ofExcept (source.pool.checkAdoption (← Call.get).pool source.entry.payload)
  let payload ← inPool (Pool.adopt source.pool source.entry.payload)
  let sourceName ← Call.ofExcept source.name
  Call.log (.cloned sourceName name)
  enter name payload

/-- Copies a subobject within the catalog; strings and bytes are shared. -/
def duplicate (source name : String) : Call Catalog View := do
  let (_, entry) ← locate source
  requireVacant name
  Call.log (.duplicated source name)
  enter name entry.payload

/-- Takes the entry under a symbol out, if there is one. -/
def extract (symbol : Symbol) : Call Catalog (Option Entry) :=
  Call.update fun c =>
    match c.entries.extract? symbol with
    | some (entry, entries) => (some entry, { c with entries })
    | none => (none, c)

/-- Moves a subobject to another name. It goes to the end of the order. -/
def rename (source name : String) : Call Catalog View := do
  let (symbol, _) ← locate source
  requireVacant name
  match ← extract symbol with
  | some entry =>
    Call.log (.renamed source name)
    enter name entry.payload
  | none => Call.refuse (.unknownSubobject source)

/-- Takes a subobject out, and tells whether there was one. -/
def remove (name : String) : Call Catalog Bool := do
  match (← Call.get).symbolOf? name with
  | none => pure false
  | some symbol =>
    match ← extract symbol with
    | some _ =>
      Call.log (.removed name)
      pure true
    | none => pure false

/-! ## How the steps end -/

theorem run_requireVacant (name : String) (c : Catalog) :
    (requireVacant name).run c =
      if c.contains name then ⟨.error (.nameCollision name), c, []⟩ else ⟨.ok (), c, []⟩ := by
  cases h : c.symbolOf? name <;> simp [requireVacant, contains, Call.run_bind, h]

end StateObject.Catalog
