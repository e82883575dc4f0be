/-
  StateObject.Proofs.Inventory — a catalog written out.

  An inventory has no pool and no slots. It is the list of its subobjects, names and
  bytes in full, and the bytes that each address stands for. `edit` says what the calls of
  a catalog do to it. An edit that is refused has no inventory to go on with, so it changes
  nothing; any other goes in one of the ways of `Yields`.

  How many strings and buffers a catalog has stored depends on what was taken out long ago,
  of which an inventory knows nothing. An `Account` is an inventory with what came in on the
  way to it, and `Account.answer` says what the reads of a catalog show. The two counts look
  at what came in, and all other reads at the inventory.
-/

import StateObject.Catalog.Listing
import StateObject.Proofs.Edits
import StateObject.Proofs.Repeats

namespace StateObject

structure Inventory where
  /-- Buffers are shorter than this. -/
  limit : Nat := maxBufferLength
  subobjects : List Subobject := []
  /-- The first bytes accepted from each address. -/
  seen : Nat → Option Bytes := fun _ => none

/-- A read of a catalog. -/
inductive Query where
  | size
  | isEmpty
  | limit
  | stringCount
  | bufferCount
  | contains (name : String)
  | find (name : String)
  | names
  | subobjects
  | listing
  | check
  deriving DecidableEq, Repr

/-- What a read shows. -/
inductive Answer where
  | number (n : Nat)
  | truth (b : Bool)
  | found (s : Option Subobject)
  | names (names : List String)
  | subobjects (subs : List Subobject)
  | text (text : String)
  | issues (issues : List Issue)
  deriving DecidableEq, Repr

namespace Inventory

/-- A new inventory. Whatever limit is asked for, the container's is not exceeded. -/
def make : Option Nat → Inventory
  | none => {}
  | some limit => { limit := min limit maxBufferLength }

def find? (inv : Inventory) (name : String) : Option Subobject := inv.subobjects.find? (·.name = name)

def contains (inv : Inventory) (name : String) : Bool := (inv.find? name).isSome

def append (inv : Inventory) (s : Subobject) : Inventory := { inv with subobjects := inv.subobjects ++ [s] }

def erase (inv : Inventory) (name : String) : Inventory :=
  { inv with subobjects := inv.subobjects.eraseP (·.name = name) }

theorem find?_append (inv : Inventory) (s : Subobject) (name : String) :
    (inv.append s).find? name = (inv.find? name).or (if s.name = name then some s else none) := by
  rw [find?, append, List.find?_append, List.find?_singleton]
  by_cases hs : s.name = name <;> simp [hs, find?]

theorem find?_erase {inv : Inventory} (hd : (inv.subobjects.map (·.name)).Nodup) (source name : String) :
    (inv.erase source).find? name = if name = source then none else inv.find? name := by
  simp only [find?, erase]
  generalize inv.subobjects = subs at hd ⊢
  induction subs with
  | nil => simp
  | cons s rest ih =>
    obtain ⟨hs, hd⟩ := List.nodup_cons.mp hd
    by_cases hsource : s.name = source
    · by_cases hname : name = source
      · have hnone : rest.find? (·.name = source) = none := by
          refine List.find?_eq_none.mpr fun t ht e => hs (List.mem_map.mpr ⟨t, ht, ?_⟩)
          exact (of_decide_eq_true e).trans hsource.symm
        simp [hsource, hname, hnone]
      · simp [hsource, hname, Ne.symm hname]
    · by_cases hname : s.name = name
      · simp [hname, hname ▸ hsource]
      · simpa [hsource, hname] using ih hd

/-! ## Edits -/

/-- What the edit hands back and leaves. -/
def edit (inv : Inventory) : Edit Subobject → Except Refusal (Reply Subobject × Inventory)
  | .create name spec =>
    if inv.contains name then .error (.nameCollision name)
    else
      match spec.accept inv.limit inv.seen with
      | .error r => .error r
      | .ok contents => .ok (.subobject ⟨name, contents⟩, { inv.append ⟨name, contents⟩ with seen := spec.note inv.seen })
  | .clone source name =>
    if inv.contains name then .error (.nameCollision name)
    else
      match source.contents.fits inv.limit with
      | .error r => .error r
      | .ok _ => .ok (.subobject { source with name }, inv.append { source with name })
  | .duplicate source name =>
    match inv.find? source with
    | none => .error (.unknownSubobject source)
    | some s =>
      if inv.contains name then .error (.nameCollision name)
      else .ok (.subobject { s with name }, inv.append { s with name })
  | .rename source name =>
    match inv.find? source with
    | none => .error (.unknownSubobject source)
    | some s =>
      if inv.contains name then .error (.nameCollision name)
      else .ok (.subobject { s with name }, (inv.erase source).append { s with name })
  | .remove name => .ok (.removed (inv.contains name), inv.erase name)

/-- How an edit that is not refused goes. -/
inductive Yields (inv : Inventory) : Edit Subobject → Reply Subobject → Inventory → Prop
  | created {name : String} {spec : Spec} {contents : Contents} : inv.find? name = none →
      spec.accept inv.limit inv.seen = .ok contents →
      Yields inv (.create name spec) (.subobject ⟨name, contents⟩)
        { inv.append ⟨name, contents⟩ with seen := spec.note inv.seen }
  | cloned {source : Subobject} {name : String} : inv.find? name = none → source.contents.fits inv.limit = .ok () →
      Yields inv (.clone source name) (.subobject { source with name }) (inv.append { source with name })
  | duplicated {source name : String} {s : Subobject} : inv.find? source = some s → inv.find? name = none →
      Yields inv (.duplicate source name) (.subobject { s with name }) (inv.append { s with name })
  | renamed {source name : String} {s : Subobject} : inv.find? source = some s → inv.find? name = none →
      Yields inv (.rename source name) (.subobject { s with name }) ((inv.erase source).append { s with name })
  | removed {name : String} : Yields inv (.remove name) (.removed (inv.contains name)) (inv.erase name)

theorem find?_eq_none_of_not_contains {inv : Inventory} {name : String} (h : ¬ inv.contains name = true) :
    inv.find? name = none := by
  simpa [contains] using h

theorem yields_of_edit {inv inv' : Inventory} {e : Edit Subobject} {reply : Reply Subobject}
    (h : inv.edit e = .ok (reply, inv')) : inv.Yields e reply inv' := by
  cases e with
  | create name spec =>
    simp only [edit] at h
    split at h
    · cases h
    · rename_i hn
      split at h
      · cases h
      · rename_i haccept
        cases h
        exact .created (find?_eq_none_of_not_contains hn) haccept
  | clone source name =>
    simp only [edit] at h
    split at h
    · cases h
    · rename_i hn
      split at h
      · cases h
      · rename_i hfits
        cases h
        exact .cloned (find?_eq_none_of_not_contains hn) hfits
  | duplicate source name =>
    simp only [edit] at h
    split at h
    · cases h
    · rename_i hs
      split at h
      · cases h
      · rename_i hn
        cases h
        exact .duplicated hs (find?_eq_none_of_not_contains hn)
  | rename source name =>
    simp only [edit] at h
    split at h
    · cases h
    · rename_i hs
      split at h
      · cases h
      · rename_i hn
        cases h
        exact .renamed hs (find?_eq_none_of_not_contains hn)
  | remove name =>
    cases h
    exact .removed

/-! ## Reads -/

def targetIssues (inv : Inventory) (association target : String) : List Issue :=
  match inv.find? target with
  | none => [.danglingAssociation association target]
  | some s => if s.kind = .association then [.associationToAssociation association target] else []

def issuesOf (inv : Inventory) (s : Subobject) : List Issue :=
  match s.contents with
  | .association a => inv.targetIssues s.name a.target ++ (repeated a.exports).map (.duplicateExport s.name)
  | .hitGroup g => if g.isUnbound then [.emptyHitGroup s.name] else []
  | _ => []

/-- What is wrong with a subobject depends on what names find, and on nothing else. -/
theorem issuesOf_congr {inv inv' : Inventory} (h : ∀ name, inv.find? name = inv'.find? name) :
    inv.issuesOf = inv'.issuesOf := by
  funext s
  simp only [issuesOf, targetIssues, h]

def listing (inv : Inventory) : String :=
  "Subobjects (" ++ toString inv.subobjects.length ++ "):\n" ++
    String.join (inv.subobjects.map Catalog.listingLine)

end Inventory

/-- An inventory, and what came in until it stood so. -/
structure Account where
  inventory : Inventory := {}
  /-- The strings that came in, as often as they came. -/
  strings : List String := []
  /-- How many buffers came in. -/
  buffers : Nat := 0

def Account.answer (acc : Account) : Query → Answer
  | .size => .number acc.inventory.subobjects.length
  | .isEmpty => .truth acc.inventory.subobjects.isEmpty
  | .limit => .number acc.inventory.limit
  | .stringCount => .number acc.strings.eraseDups.length
  | .bufferCount => .number acc.buffers
  | .contains name => .truth (acc.inventory.contains name)
  | .find name => .found (acc.inventory.find? name)
  | .names => .names (acc.inventory.subobjects.map (·.name))
  | .subobjects => .subobjects acc.inventory.subobjects
  | .listing => .text acc.inventory.listing
  | .check => .issues (acc.inventory.subobjects.flatMap acc.inventory.issuesOf)

/-! ## The same of a catalog -/

/-- What was handed back, read at once. -/
def Reply.read : Reply View → Except Refusal (Reply Subobject)
  | .subobject v => do pure (.subobject (← v.read))
  | .removed found => pure (.removed found)

namespace Catalog

def answer (c : Catalog) : Query → Except Refusal Answer
  | .size => pure (.number c.size)
  | .isEmpty => pure (.truth c.isEmpty)
  | .limit => pure (.number c.bufferLimit)
  | .stringCount => pure (.number c.stringCount)
  | .bufferCount => pure (.number c.bufferCount)
  | .contains name => pure (.truth (c.contains name))
  | .find name => do pure (.found (← (c.find? name).mapM View.read))
  | .names => do pure (.names (← c.names))
  | .subobjects => do pure (.subobjects (← c.subobjects))
  | .listing => do pure (.text (← c.listing))
  | .check => do pure (.issues (← (check.run c).result))

/-- The inventory says what the catalog holds. -/
structure Matches (c : Catalog) (inv : Inventory) : Prop where
  holds : c.Holds inv.subobjects
  limit : inv.limit = c.bufferLimit
  seen : inv.seen = c.pool.buffers.bytesAt?

/-- The account says what the catalog holds and how much it has stored. -/
structure Balances (c : Catalog) (acc : Account) : Prop where
  inventory : c.Matches acc.inventory
  strings : c.pool.symbols.Lists acc.strings
  buffers : c.bufferCount = acc.buffers

end Catalog

end StateObject
