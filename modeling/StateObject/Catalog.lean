/-
  StateObject.Catalog — uniquely named subobjects in the order of their making.

  An entry is kept under the symbol of its name, so a name is looked up in two steps:
  its symbol, then the entry under that symbol. A string may have a symbol and no
  entry, as a target, an export or a name given up.

  Readers get a `View`: an entry with the pool that its slots belong to. Reading a
  view replaces slots by what they stand for and gives a `Subobject`, which holds
  names and bytes alone.
-/

import StateObject.OrderedMap
import StateObject.Pool

namespace StateObject

structure Entry where
  name : Symbol
  payload : Stored
  deriving DecidableEq, Repr

structure Catalog where
  pool : Pool := {}
  entries : OrderedMap Symbol Entry := {}

/-- A subobject as a reader sees it. -/
structure Subobject where
  name : String
  contents : Contents
  deriving DecidableEq, Repr

def Subobject.kind (s : Subobject) : Kind := s.contents.kind

/-- An entry together with the pool that it is read in. -/
structure View where
  pool : Pool
  entry : Entry

namespace View

def kind (v : View) : Kind := v.entry.payload.kind

def name (v : View) : Except Refusal String := v.pool.symbols.resolve v.entry.name

def contents (v : View) : Except Refusal Contents := v.pool.resolve v.entry.payload

def read (v : View) : Except Refusal Subobject := do
  let name ← v.name
  let contents ← v.contents
  pure { name, contents }

/-- The root signature, of whatever scope, as it is stored. -/
def signature? (v : View) : Option (RootSignature BufferSlot) :=
  match v.entry.payload with
  | .rootSignature _ r => some r
  | _ => none

end View

namespace Catalog

def ofLimit (limit : Nat) : Catalog := { pool := .ofLimit limit }

/-- Buffers are shorter than this. -/
def bufferLimit (c : Catalog) : Nat := c.pool.buffers.limit

def size (c : Catalog) : Nat := c.entries.size

def isEmpty (c : Catalog) : Bool := c.entries.isEmpty

/-- How many strings the catalog has seen. -/
def stringCount (c : Catalog) : Nat := c.pool.symbols.size

/-- How many byte buffers the catalog has stored. -/
def bufferCount (c : Catalog) : Nat := c.pool.buffers.size

/-- The symbol of a name that an entry has. -/
def symbolOf? (c : Catalog) (name : String) : Option Symbol :=
  (c.pool.symbols.find? name).filter c.entries.contains

def contains (c : Catalog) (name : String) : Bool := (c.symbolOf? name).isSome

def view (c : Catalog) (entry : Entry) : View := { pool := c.pool, entry }

def find? (c : Catalog) (name : String) : Option View := do
  let symbol ← c.symbolOf? name
  let entry ← c.entries.find? symbol
  pure (c.view entry)

def views (c : Catalog) : List View := c.entries.values.map c.view

/-- Every subobject, in order. -/
def subobjects (c : Catalog) : Except Refusal (List Subobject) := c.views.mapM View.read

/-- Every name, in order. -/
def names (c : Catalog) : Except Refusal (List String) := c.entries.keys.mapM c.pool.symbols.resolve

end Catalog

end StateObject
