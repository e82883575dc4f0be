/-
  StateObject.Proofs.Numbering — what a symbol table keeps.

  - `Sound`: looking a string up and reading its symbol undo each other, so the
    positions and the strings are one bijection. Interning keeps it (`Sound.intern`).
  - `Grows`: every symbol keeps its string. Interning only adds (`grows_intern`), so a
    symbol read now reads the same later.
  - `internAll`: a list of strings interned from left to right; its symbols read back
    as the list (`forall₂_internAll`).
  - `Lists`: the table has seen the strings of a list and no others. Interning adds what is
    new, at the end and in order (`lists_internAll`).
-/

import Mathlib.Data.Finset.Card
import Mathlib.Data.List.Forall2
import Mathlib.Data.List.Nodup
import StateObject.SymbolTable

namespace StateObject.SymbolTable

/-- A string stands at a position in the one direction exactly when it does in the
    other. -/
def Sound (t : SymbolTable) : Prop := ∀ (s : String) (i : Nat), t.positions[s]? = some i ↔ t.strings[i]? = some s

/-- Every symbol of `t` stands for the same string in `u`. -/
def Grows (t u : SymbolTable) : Prop := ∀ k s, t.resolve? k = some s → u.resolve? k = some s

theorem Grows.refl (t : SymbolTable) : t.Grows t := fun _ _ h => h

theorem Grows.trans {t u v : SymbolTable} (h : t.Grows u) (h' : u.Grows v) : t.Grows v :=
  fun k s hk => h' k s (h k s hk)

/-! ## Reading -/

theorem resolve_eq_ok_iff {t : SymbolTable} {k : Symbol} {s : String} :
    t.resolve k = .ok s ↔ t.resolve? k = some s := by
  unfold resolve
  cases t.resolve? k <;> simp

theorem Grows.resolve {t u : SymbolTable} (h : t.Grows u) {k : Symbol} {s : String} (hk : t.resolve k = .ok s) :
    u.resolve k = .ok s :=
  resolve_eq_ok_iff.mpr (h k s (resolve_eq_ok_iff.mp hk))

theorem lt_size_of_resolve? {t : SymbolTable} {k : Symbol} {s : String} (h : t.resolve? k = some s) :
    k.index < t.size := by
  obtain ⟨hk, -⟩ := Array.getElem?_eq_some_iff.mp h
  exact hk

theorem lt_size_of_resolve {t : SymbolTable} {k : Symbol} {s : String} (h : t.resolve k = .ok s) : k.index < t.size :=
  lt_size_of_resolve? (resolve_eq_ok_iff.mp h)

theorem resolve?_isSome_iff (t : SymbolTable) (k : Symbol) : (t.resolve? k).isSome ↔ k.index < t.size := by
  simp [resolve?, size]

theorem exists_resolve_of_lt {t : SymbolTable} {k : Symbol} (h : k.index < t.size) : ∃ s, t.resolve k = .ok s := by
  obtain ⟨s, hs⟩ := Option.isSome_iff_exists.mp ((resolve?_isSome_iff t k).mpr h)
  exact ⟨s, resolve_eq_ok_iff.mpr hs⟩

theorem Sound.find?_eq_some_iff {t : SymbolTable} (h : t.Sound) {s : String} {k : Symbol} :
    t.find? s = some k ↔ t.resolve? k = some s := by
  rw [resolve?, ← h s k.index, find?, Option.map_eq_some_iff]
  constructor
  · intro hk
    obtain ⟨i, hi, rfl⟩ := hk
    exact hi
  · intro hi
    exact ⟨k.index, hi, rfl⟩

/-- Two symbols of one string are one symbol. -/
theorem Sound.symbol_unique {t : SymbolTable} (h : t.Sound) {j k : Symbol} {s : String} (hj : t.resolve? j = some s)
    (hk : t.resolve? k = some s) : j = k :=
  Option.some.inj ((h.find?_eq_some_iff.mpr hj).symm.trans (h.find?_eq_some_iff.mpr hk))

/-! ## Interning -/

theorem sound_empty : ({} : SymbolTable).Sound := by
  intro s i
  simp

theorem intern_of_some {t : SymbolTable} {s : String} {k : Symbol} (h : t.find? s = some k) : t.intern s = (k, t) := by
  simp [intern, h]

theorem intern_of_none {t : SymbolTable} {s : String} (h : t.find? s = none) :
    t.intern s = (⟨t.size⟩, { strings := t.strings.push s, positions := t.positions.insert s t.size }) := by
  simp [intern, h]

theorem grows_intern (t : SymbolTable) (s : String) : t.Grows (t.intern s).2 := by
  intro k u hk
  unfold resolve?
  rw [strings_intern]
  split
  · exact hk
  · have hlt := lt_size_of_resolve? hk
    rw [Array.getElem?_push_lt hlt]
    exact Array.getElem?_eq_getElem hlt ▸ hk

theorem Sound.intern {t : SymbolTable} (h : t.Sound) (s : String) : (t.intern s).2.Sound := by
  cases hs : t.find? s with
  | some k => rwa [intern_of_some hs]
  | none =>
    rw [intern_of_none hs]
    have hnew : ∀ i, t.strings[i]? ≠ some s := fun i hi => by
      have : t.find? s = some ⟨i⟩ := h.find?_eq_some_iff.mpr hi
      rw [hs] at this
      cases this
    intro u i
    have hpos : (t.positions.insert s t.size)[u]? = if s = u then some t.size else t.positions[u]? := by
      simp [Std.ExtTreeMap.getElem?_insert]
    rw [hpos, Array.getElem?_push]
    by_cases hu : s = u
    · subst hu
      by_cases hi : i = t.strings.size
      · simp [hi, size]
      · simp [hi, hnew i, size, Ne.symm hi]
    · by_cases hi : i = t.strings.size
      · -- the new slot is past the end, so no older string has it
        have hold : t.positions[u]? ≠ some i := fun hp => by
          have := (h u i).mp hp
          simp [hi] at this
        simp [hi, hu] at hold ⊢
        exact hold
      · simp [hu, hi, h u i]

theorem Sound.resolve_intern {t : SymbolTable} (h : t.Sound) (s : String) :
    (t.intern s).2.resolve (t.intern s).1 = .ok s := by
  rw [resolve_eq_ok_iff, ← (h.intern s).find?_eq_some_iff, find?_intern, if_pos rfl]

/-! ## Interning a list -/

/-- Interns from left to right. -/
def internAll (t : SymbolTable) : List String → List Symbol × SymbolTable
  | [] => ([], t)
  | s :: rest =>
    let (symbol, t) := t.intern s
    let (symbols, t) := t.internAll rest
    (symbol :: symbols, t)

theorem grows_internAll (ss : List String) (t : SymbolTable) : t.Grows (t.internAll ss).2 := by
  induction ss generalizing t with
  | nil => exact .refl t
  | cons s ss ih => exact (grows_intern t s).trans (ih _)

theorem Sound.internAll {t : SymbolTable} (h : t.Sound) (ss : List String) : (t.internAll ss).2.Sound := by
  induction ss generalizing t with
  | nil => exact h
  | cons s ss ih => exact ih (h.intern s)

/-- The symbols of a list read back as the list, in the table that they leave and in
    every later one. -/
theorem Sound.forall₂_internAll {t u : SymbolTable} (h : t.Sound) (ss : List String)
    (hu : (t.internAll ss).2.Grows u) :
    List.Forall₂ (fun k s => u.resolve k = .ok s) (t.internAll ss).1 ss := by
  induction ss generalizing t with
  | nil => exact .nil
  | cons s ss ih =>
    refine .cons ?_ (ih (h.intern s) hu)
    exact ((grows_internAll ss _).trans hu).resolve (h.resolve_intern s)

/-- Strings that are there already leave the table as it is. -/
theorem Sound.internAll_of_resolve {t : SymbolTable} (h : t.Sound) {ks : List Symbol} {ss : List String}
    (hks : List.Forall₂ (fun k s => t.resolve k = .ok s) ks ss) : t.internAll ss = (ks, t) := by
  induction hks with
  | nil => rfl
  | cons hk _ ih =>
    have hfind := h.find?_eq_some_iff.mpr (resolve_eq_ok_iff.mp hk)
    rw [SymbolTable.internAll, intern_of_some hfind]
    simp only [ih]

/-! ## The strings seen -/

variable {t : SymbolTable} {ss : List String}

/-- The table has seen the strings of the list and no others, in that order. -/
def Lists (t : SymbolTable) (ss : List String) : Prop := t.strings.toList = ss.eraseDups

theorem lists_empty : ({} : SymbolTable).Lists [] := rfl

theorem Sound.find?_isSome_iff (h : t.Sound) (hl : t.Lists ss) (s : String) : (t.find? s).isSome ↔ s ∈ ss := by
  rw [← List.mem_eraseDups, ← show t.strings.toList = ss.eraseDups from hl, Array.mem_toList_iff, Option.isSome_iff_exists]
  constructor
  · intro hk
    obtain ⟨k, hk⟩ := hk
    exact Array.mem_of_getElem? (h.find?_eq_some_iff.mp hk)
  · intro hs
    obtain ⟨i, hi⟩ := Array.mem_iff_getElem?.mp hs
    exact ⟨⟨i⟩, h.find?_eq_some_iff.mpr hi⟩

theorem Sound.lists_intern (h : t.Sound) (hl : t.Lists ss) (s : String) : (t.intern s).2.Lists (ss ++ [s]) := by
  have hiff := h.find?_isSome_iff hl s
  rw [Lists, strings_intern, List.eraseDups_append, ← show t.strings.toList = ss.eraseDups from hl]
  by_cases hs : s ∈ ss
  · simp [hiff.mpr hs, List.removeAll, hs]
  · have hnone : (t.find? s).isSome = false := by
      rw [← Bool.not_eq_true, hiff]
      exact hs
    simp [hnone, List.removeAll, hs, List.eraseDups_cons]

theorem Sound.lists_internAll (h : t.Sound) (hl : t.Lists ss) (us : List String) :
    (t.internAll us).2.Lists (ss ++ us) := by
  induction us generalizing t ss with
  | nil =>
    rw [List.append_nil]
    exact hl
  | cons u us ih =>
    rw [List.append_cons]
    exact ih (h.intern u) (h.lists_intern hl u)

theorem internAll_append (t : SymbolTable) (us vs : List String) :
    (t.internAll (us ++ vs)).2 = ((t.internAll us).2.internAll vs).2 := by
  induction us generalizing t with
  | nil => rfl
  | cons u us ih => exact ih _

/-- No string has two symbols. -/
theorem Sound.nodup_strings (h : t.Sound) : t.strings.toList.Nodup := by
  rw [List.nodup_iff_getElem?_ne_getElem?]
  intro i j hij hj heq
  obtain ⟨s, hs⟩ : ∃ s, t.strings[j]? = some s := by
    rw [← Array.getElem?_toList]
    exact ⟨_, List.getElem?_eq_getElem hj⟩
  rw [Array.getElem?_toList, Array.getElem?_toList, hs] at heq
  have hsame : i = j := Option.some.inj (((h s i).mpr heq).symm.trans ((h s j).mpr hs))
  omega

/-- So the strings of a table are a list of which it has seen the strings. -/
theorem Sound.lists_strings (h : t.Sound) : t.Lists t.strings.toList := by
  have hnodup := h.nodup_strings
  rw [Lists]
  generalize t.strings.toList = us at hnodup
  induction us with
  | nil => rfl
  | cons u us ih =>
    obtain ⟨hu, hnodup⟩ := List.nodup_cons.mp hnodup
    have hother : us.filter (fun s => !s == u) = us := by
      refine List.filter_eq_self.mpr fun s hs => ?_
      have hne : s ≠ u := fun e => hu (e ▸ hs)
      simp [hne]
    rw [List.eraseDups_cons, hother, ← ih hnodup]

theorem Sound.size_eq_card (h : t.Sound) (hl : t.Lists ss) : t.size = ss.toFinset.card := by
  have hset : ss.toFinset = t.strings.toList.toFinset := by
    ext s
    rw [hl, List.mem_toFinset, List.mem_toFinset, List.mem_eraseDups]
  rw [hset, List.toFinset_card_of_nodup h.nodup_strings]
  rfl

end StateObject.SymbolTable
