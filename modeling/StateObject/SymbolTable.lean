/-
  StateObject.SymbolTable — strings numbered by first sight.

  Interning gives a string the slot it has already, or the next one (as `Slot` says, of
  2^32 in all). Nothing is ever taken out, so a symbol keeps its string. A string is found
  by its content through `positions`, and read back by its slot through `strings`.
-/

import StateObject.Refusal
import StateObject.Slot
import Std.Data.ExtTreeMap

namespace StateObject

structure SymbolTable where
  /-- The strings, by slot. -/
  strings : Array String := #[]
  /-- Where each string stands in `strings`. -/
  positions : Std.ExtTreeMap String Nat := ∅

namespace SymbolTable

def size (t : SymbolTable) : Nat := t.strings.size

def isEmpty (t : SymbolTable) : Bool := t.strings.isEmpty

/-- The symbol of a string that was interned. -/
def find? (t : SymbolTable) (s : String) : Option Symbol := t.positions[s]?.map Slot.mk

def intern (t : SymbolTable) (s : String) : Symbol × SymbolTable :=
  match t.find? s with
  | some symbol => (symbol, t)
  | none =>
    (⟨t.size⟩, { strings := t.strings.push s, positions := t.positions.insert s t.size })

def resolve? (t : SymbolTable) (symbol : Symbol) : Option String := t.strings[symbol.index]?

/-- The string of a symbol that belongs to the table. -/
def resolve (t : SymbolTable) (symbol : Symbol) : Except Refusal String :=
  match t.resolve? symbol with
  | some s => .ok s
  | none => .error (.outOfBounds t.size symbol.index)

theorem strings_intern (t : SymbolTable) (s : String) :
    (t.intern s).2.strings = if (t.find? s).isSome then t.strings else t.strings.push s := by
  unfold intern
  cases t.find? s <;> rfl

theorem find?_intern (t : SymbolTable) (s u : String) :
    (t.intern s).2.find? u = if u = s then some (t.intern s).1 else t.find? u := by
  unfold intern
  cases h : t.find? s with
  | some symbol =>
    by_cases hu : u = s
    · simp [hu, h]
    · simp [hu]
  | none =>
    by_cases hu : u = s
    · simp [find?, hu]
    · simp [find?, Std.ExtTreeMap.getElem?_insert, hu, Ne.symm hu]

end SymbolTable

end StateObject
