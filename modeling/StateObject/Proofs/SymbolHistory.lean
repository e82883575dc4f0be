/-
  StateObject.Proofs.SymbolHistory — a symbol table and what it was told.

  A family of tables starts from an empty one. Its members are told strings, asked for
  strings and symbols, and copied, in any order.

  - `compare_idxOf_eraseDups`: leaving repeats out keeps the order of first sights, so
    symbols, which are places among the different strings (`Sound.index_eq_idxOf`), are
    ordered as the strings were first told.
  - `Numbers.call`: every call keeps table and history in step.
  - `symbols_number_first_sights`: every member, at any time, numbers the strings that it
    was told, and neither it nor a copy of it ever reads a symbol otherwise.
-/

import StateObject.Proofs.Lineages
import StateObject.Proofs.Numbering

namespace StateObject

inductive TableCall where
  | intern (s : String)
  | find (s : String)
  | resolve? (k : Symbol)
  | resolve (k : Symbol)

inductive TableReply where
  | symbol (k : Symbol)
  | found (k : Option Symbol)
  | read? (s : Option String)
  | read (s : Except Refusal String)

def TableCall.run : TableCall → SymbolTable → TableReply × SymbolTable
  | intern s, t => (.symbol (t.intern s).1, (t.intern s).2)
  | find s, t => (.found (t.find? s), t)
  | resolve? k, t => (.read? (t.resolve? k), t)
  | resolve k, t => (.read (t.resolve k), t)

abbrev TableLineage := Lineage SymbolTable TableCall TableReply

/-! ## Order of first sight -/

section

variable {α : Type} [BEq α] [LawfulBEq α]

theorem idxOf_eraseDups_lt {xs : List α} {a b : α} (ha : a ∈ xs) (hb : b ∈ xs) (hlt : xs.idxOf a < xs.idxOf b) :
    xs.eraseDups.idxOf a < xs.eraseDups.idxOf b := by
  induction xs using List.reverseRecOn with
  | nil => cases ha
  | append_singleton xs x ih =>
    -- what is met before `x` keeps its place on either side
    have hplace : ∀ {y : α}, y ∈ xs → (xs ++ [x]).idxOf y = xs.idxOf y := fun hy => List.idxOf_append_of_mem hy
    have hplace' : ∀ {y : α}, y ∈ xs → (xs ++ [x]).eraseDups.idxOf y = xs.eraseDups.idxOf y := fun hy => by
      rw [List.eraseDups_append, List.idxOf_append_of_mem (List.mem_eraseDups.mpr hy)]
    have hmem : ∀ {y : α}, y ∈ xs ++ [x] → y ∈ xs ∨ y = x := fun hy => by simpa using hy
    have hlast : ∀ {y : α}, y ∉ xs → xs.length ≤ (xs ++ [x]).idxOf y := fun hy => by
      rw [List.idxOf_append_of_notMem hy]
      omega
    by_cases hbx : b ∈ xs
    · have hax : a ∈ xs := by
        by_contra hax
        have hle := hlast hax
        have hbl := List.idxOf_lt_length_of_mem hbx
        rw [hplace hbx] at hlt
        omega
      rw [hplace hax, hplace hbx] at hlt
      rw [hplace' hax, hplace' hbx]
      exact ih hax hbx hlt
    · obtain rfl : b = x := (hmem hb).resolve_left hbx
      have hax : a ∈ xs := by
        rcases hmem ha with hax | rfl
        · exact hax
        · exact absurd hlt (Nat.lt_irrefl _)
      have hal := List.idxOf_lt_length_of_mem (List.mem_eraseDups.mpr hax)
      rw [hplace' hax, List.eraseDups_append, List.idxOf_append_of_notMem (mt List.mem_eraseDups.mp hbx)]
      omega

theorem compare_idxOf_eraseDups {xs : List α} {a b : α} (ha : a ∈ xs) (hb : b ∈ xs) :
    compare (xs.eraseDups.idxOf a) (xs.eraseDups.idxOf b) = compare (xs.idxOf a) (xs.idxOf b) := by
  rcases Nat.lt_trichotomy (xs.idxOf a) (xs.idxOf b) with hlt | heq | hgt
  · rw [Nat.compare_eq_lt.mpr hlt, Nat.compare_eq_lt.mpr (idxOf_eraseDups_lt ha hb hlt)]
  · rw [(List.idxOf_inj ha).mp heq, Nat.compare_eq_eq.mpr rfl, Nat.compare_eq_eq.mpr rfl]
  · rw [Nat.compare_eq_gt.mpr hgt, Nat.compare_eq_gt.mpr (idxOf_eraseDups_lt hb ha hgt)]

end

namespace SymbolTable

variable {t : SymbolTable}

/-- A symbol is the place of its string among the different strings seen. -/
theorem Sound.index_eq_idxOf (h : t.Sound) {ss : List String} (hl : t.Lists ss) {s : String} {k : Symbol}
    (hk : t.find? s = some k) : k.index = ss.eraseDups.idxOf s := by
  have hread : t.strings.toList[k.index]? = some s := by
    rw [Array.getElem?_toList]
    exact h.find?_eq_some_iff.mp hk
  obtain ⟨hlt, hs⟩ := List.getElem?_eq_some_iff.mp hread
  rw [← show t.strings.toList = ss.eraseDups from hl, ← hs, h.nodup_strings.idxOf_getElem]

theorem resolve_eq_error_iff {k : Symbol} : (∃ r, t.resolve k = .error r) ↔ t.resolve? k = none := by
  unfold resolve
  cases t.resolve? k <;> simp

/-! ## Histories -/

/-- The strings that were told, each with the symbol handed back for it. -/
def interned (history : List (TableCall × TableReply)) : List (String × Symbol) :=
  history.filterMap fun
    | (.intern s, .symbol k) => some (s, k)
    | _ => none

/-- The table has the strings that were told and no others, and each has the symbol that was
    handed back for it. -/
structure Numbers (t : SymbolTable) (pairs : List (String × Symbol)) : Prop where
  sound : t.Sound
  lists : t.Lists (pairs.map (·.1))
  found : ∀ p ∈ pairs, t.find? p.1 = some p.2

theorem numbers_empty : ({} : SymbolTable).Numbers [] := ⟨sound_empty, lists_empty, fun _ h => by cases h⟩

theorem Numbers.intern {pairs : List (String × Symbol)} (h : t.Numbers pairs) (s : String) :
    (t.intern s).2.Numbers (pairs ++ [(s, (t.intern s).1)]) := by
  refine ⟨h.sound.intern s, ?_, ?_⟩
  · rw [List.map_append]
    exact h.sound.lists_intern h.lists s
  · intro p hp
    rcases List.mem_append.mp hp with hp | hp
    · have hgrown := grows_intern t s p.2 p.1 (h.sound.find?_eq_some_iff.mp (h.found p hp))
      exact (h.sound.intern s).find?_eq_some_iff.mpr hgrown
    · rw [List.mem_singleton.mp hp, find?_intern, if_pos rfl]

theorem Numbers.call {l : TableLineage} (h : l.store.Numbers (interned l.history)) (c : TableCall) :
    (l.call TableCall.run c).store.Numbers (interned (l.call TableCall.run c).history) := by
  rw [Lineage.call, interned, List.filterMap_append]
  cases c with
  | intern s => exact h.intern s
  | _ =>
    simp only [List.filterMap_cons_none, List.filterMap_nil, List.append_nil]
    exact h

theorem Numbers.find?_eq_some_iff {pairs : List (String × Symbol)} (h : t.Numbers pairs) {s : String} {k : Symbol} :
    t.find? s = some k ↔ (s, k) ∈ pairs := by
  constructor
  · intro hk
    have hs : s ∈ pairs.map (·.1) := (h.sound.find?_isSome_iff h.lists s).mp (by rw [hk]; rfl)
    obtain ⟨p, hp, rfl⟩ := List.mem_map.mp hs
    obtain rfl := Option.some.inj (hk.symm.trans (h.found p hp))
    exact hp
  · intro hp
    exact h.found _ hp

theorem grows_call (t : SymbolTable) (c : TableCall) : t.Grows (c.run t).2 := by
  cases c with
  | intern s => exact grows_intern t s
  | _ => exact .refl t

/-- Whatever strings were told in whatever order, with look-ups and copies in between: the
    strings that a table has are those that it and the tables that it is a copy of were
    told, each at its first sight. Equal strings have equal symbols and different ones
    different symbols, ordered by first sight. A string is found exactly if it was told,
    with the symbol handed back then, and telling it again changes nothing. A symbol reads
    as a string if it lies below the number of strings, and is refused otherwise; one that
    was handed back reads as its string for good, in the table and in its copies. -/
theorem symbols_number_first_sights (turns : List (Turn TableCall)) {l : TableLineage}
    (hl : l ∈ Lineage.after TableCall.run [{ store := {} }] turns) :
    let pairs := interned l.history
    let told := pairs.map (·.1)
    l.store.strings.toList = told.eraseDups ∧
      (∀ s k s' k', (s, k) ∈ pairs → (s', k') ∈ pairs →
        (k = k' ↔ s = s') ∧ compare k k' = compare (told.idxOf s) (told.idxOf s')) ∧
      (∀ s k, l.store.find? s = some k ↔ (s, k) ∈ pairs) ∧
      (∀ s k, (s, k) ∈ pairs → l.store.intern s = (k, l.store)) ∧
      (∀ k, (l.store.resolve? k).isSome ↔ k.index < l.store.size) ∧
      (∀ k, (∃ r, l.store.resolve k = .error r) ↔ l.store.resolve? k = none) ∧
      ∀ s k, (s, k) ∈ pairs → ∀ later, ∀ l' ∈ Lineage.after TableCall.run [l] later,
        l'.store.resolve? k = some s ∧ l'.store.resolve k = .ok s := by
  intro pairs told
  have h : l.store.Numbers pairs := Lineage.of_mem_after (P := fun l => l.store.Numbers (interned l.history))
    (fun _ c h => h.call c) numbers_empty hl
  have hread : ∀ {s k}, (s, k) ∈ pairs → l.store.resolve? k = some s := fun hp =>
    h.sound.find?_eq_some_iff.mp (h.found _ hp)
  refine ⟨h.lists, ?_, fun _ _ => h.find?_eq_some_iff, ?_, resolve?_isSome_iff l.store, ?_, ?_⟩
  · intro s k s' k' hp hp'
    refine ⟨⟨?_, ?_⟩, ?_⟩
    · rintro rfl
      exact Option.some.inj ((hread hp).symm.trans (hread hp'))
    · rintro rfl
      exact h.sound.symbol_unique (hread hp) (hread hp')
    · show compare k.index k'.index = _
      rw [h.sound.index_eq_idxOf h.lists (h.found _ hp), h.sound.index_eq_idxOf h.lists (h.found _ hp')]
      exact compare_idxOf_eraseDups (List.mem_map_of_mem hp) (List.mem_map_of_mem hp')
  · intro s k hp
    exact intern_of_some (h.found _ hp)
  · intro k
    exact resolve_eq_error_iff
  · intro s k hp later l' hl'
    have hgrown : l.store.Grows l'.store := Lineage.of_mem_after (P := fun l' => l.store.Grows l'.store)
      (fun l' c h' => h'.trans (grows_call l'.store c)) (.refl l.store) hl'
    have hlater := hgrown k s (hread hp)
    exact ⟨hlater, resolve_eq_ok_iff.mpr hlater⟩

/-- The table is told two strings and copied, and then it is told a third and its copy a
    fourth; both are told the first again, and asked for what they were not told. -/
theorem symbols_of_table_and_copy :
    let turns : List (Turn TableCall) := [.call 0 (.intern "b"), .call 0 (.intern ""), .copy 0, .call 0 (.intern "c"),
      .call 1 (.find "c"), .call 1 (.intern "a"), .call 0 (.intern "b"), .call 1 (.intern "b")]
    ∃ l ∈ Lineage.after TableCall.run [{ store := {} }] turns,
      interned l.history = [("b", ⟨0⟩), ("", ⟨1⟩), ("a", ⟨2⟩), ("b", ⟨0⟩)] ∧
        l.store.strings.toList = ["b", "", "a"] ∧ l.store.find? "c" = none ∧ l.store.intern "a" = (⟨2⟩, l.store) := by
  intro turns
  let l := (Lineage.after TableCall.run [{ store := {} }] turns)[1]
  have hl : l ∈ Lineage.after TableCall.run [{ store := {} }] turns := List.getElem_mem _
  have hpairs : interned l.history = [("b", ⟨0⟩), ("", ⟨1⟩), ("a", ⟨2⟩), ("b", ⟨0⟩)] := by decide +kernel
  obtain ⟨hstrings, -, hfind, hagain, -⟩ := symbols_number_first_sights turns hl
  refine ⟨l, hl, hpairs, ?_, ?_, ?_⟩
  · rw [hstrings, hpairs]
    decide
  · refine Option.eq_none_iff_forall_not_mem.mpr ?_
    intro k hk
    have hmem := (hfind "c" k).mp hk
    rw [hpairs] at hmem
    simp at hmem
  · apply hagain
    rw [hpairs]
    simp

end SymbolTable

end StateObject
