/-
  StateObject.Proofs.Repeats — which items of a list are repeated, and in which order.

  - `Repeats xs ys`: `ys` has the items that occur at least twice in `xs`, in the order of
    their second places. There is one such list (`Repeats.unique`), and `repeated` finds it
    by counting (`repeats_repeated`).
  - `scan_eq_repeated`: so does the pass of the check, which keeps two sets, one of the items
    met before (`Marks.seen`) and one of those met twice (`Marks.reported`).
-/

import Mathlib.Data.List.Nodup
import StateObject.Catalog.Consistency
import Std.Data.ExtTreeSet.Lemmas

namespace StateObject

section

variable {α : Type} [BEq α]

/-- The items that occur more than once, each at its second place. -/
def repeated (items : List α) : List α :=
  go [] items
where
  go (seen : List α) : List α → List α
    | [] => []
    | x :: rest => if seen.count x = 1 then x :: go (x :: seen) rest else go (x :: seen) rest

/-- Where the item stands for the second time, if it does. -/
def secondPlace (xs : List α) (x : α) : Nat :=
  xs.idxOf x + 1 + (xs.drop (xs.idxOf x + 1)).idxOf x

/-- `ys` has what occurs more than once in `xs`, by its second place. -/
structure Repeats (xs ys : List α) : Prop where
  mem_iff : ∀ x, x ∈ ys ↔ 2 ≤ xs.count x
  ordered : ys.Pairwise fun x y => secondPlace xs x < secondPlace xs y

theorem Repeats.nodup {xs ys : List α} (h : Repeats xs ys) : ys.Nodup := by
  refine h.ordered.imp ?_
  intro x y hlt e
  rw [e] at hlt
  exact Nat.lt_irrefl _ hlt

theorem Repeats.unique {xs ys zs : List α} (hy : Repeats xs ys) (hz : Repeats xs zs) : ys = zs := by
  have hperm : ys.Perm zs := by
    rw [List.perm_ext_iff_of_nodup hy.nodup hz.nodup]
    intro x
    rw [hy.mem_iff, hz.mem_iff]
  refine hperm.eq_of_pairwise ?_ hy.ordered hz.ordered
  intro x y _ _ hxy hyx
  exact absurd hxy (Nat.lt_asymm hyx)

/-! ## Second places -/

variable [LawfulBEq α] {before rest : List α} {x : α}

/-- An item met once has its second place where it is met next. -/
theorem secondPlace_append (h : before.count x = 1) (rest : List α) :
    secondPlace (before ++ rest) x = before.length + rest.idxOf x := by
  have hmem : x ∈ before := List.count_pos_iff.mp (by omega)
  obtain ⟨as, bs, hbefore, has⟩ := List.eq_append_cons_of_mem hmem
  have hbs : x ∉ bs := by
    rw [hbefore, List.count_append, List.count_cons_self] at h
    exact List.count_eq_zero.mp (by omega)
  have hfirst : (before ++ rest).idxOf x = as.length := by
    rw [List.idxOf_append_of_mem hmem, hbefore, List.idxOf_append_of_notMem has, List.idxOf_cons_self]
    rfl
  have hdrop : (before ++ rest).drop (as.length + 1) = bs ++ rest := by
    rw [hbefore]
    simp
  have hlength : before.length = as.length + 1 + bs.length := by
    rw [hbefore, List.length_append, List.length_cons]
    omega
  rw [secondPlace, hfirst, hdrop, List.idxOf_append_of_notMem hbs, hlength]
  omega

/-- An item not met twice has its second place ahead. -/
theorem length_le_secondPlace (h : before.count x < 2) (rest : List α) :
    before.length ≤ secondPlace (before ++ rest) x := by
  by_cases hmem : x ∈ before
  · have hpos : 0 < before.count x := List.count_pos_iff.mpr hmem
    rw [secondPlace_append (by omega)]
    omega
  · rw [secondPlace, List.idxOf_append_of_notMem hmem]
    omega

/-! ## The repeated items -/

theorem mem_repeated_go_iff (seen rest : List α) (x : α) :
    x ∈ repeated.go seen rest ↔ seen.count x < 2 ∧ 2 ≤ seen.count x + rest.count x := by
  induction rest generalizing seen with
  | nil =>
    simp only [repeated.go, List.not_mem_nil, List.count_nil, false_iff]
    omega
  | cons y rest ih =>
    by_cases hx : y = x
    · subst hx
      by_cases hy : seen.count y = 1
      · simp only [repeated.go, hy, if_true, List.mem_cons, true_or, List.count_cons_self, true_iff]
        omega
      · simp only [repeated.go, hy, if_false, ih, List.count_cons_self]
        omega
    · have hseen : (y :: seen).count x = seen.count x := List.count_cons_of_ne hx
      have hrest : (y :: rest).count x = rest.count x := List.count_cons_of_ne hx
      by_cases hy : seen.count y = 1
      · simp only [repeated.go, hy, if_true, List.mem_cons, Ne.symm hx, false_or, ih, hseen, hrest]
      · simp only [repeated.go, hy, if_false, ih, hseen, hrest]

/-- What is reported now has its second place here, and the rest have theirs further on. -/
theorem pairwise_repeated_go (seen rest : List α) :
    (repeated.go seen rest).Pairwise fun x y =>
      secondPlace (seen.reverse ++ rest) x < secondPlace (seen.reverse ++ rest) y := by
  induction rest generalizing seen with
  | nil => exact .nil
  | cons y rest ih =>
    have hshift : seen.reverse ++ y :: rest = (y :: seen).reverse ++ rest := by simp
    rw [hshift]
    by_cases hy : seen.count y = 1
    · simp only [repeated.go, hy, if_true]
      refine .cons ?_ (ih (y :: seen))
      intro z hz
      have hhere : secondPlace ((y :: seen).reverse ++ rest) y = seen.length := by
        rw [← hshift, secondPlace_append (by rwa [List.count_reverse]), List.idxOf_cons_self, List.length_reverse]
        rfl
      have hcount : (y :: seen).reverse.count z < 2 := by
        rw [List.count_reverse]
        exact ((mem_repeated_go_iff _ _ _).mp hz).1
      have hahead := length_le_secondPlace hcount rest
      rw [List.length_reverse, List.length_cons] at hahead
      omega
    · simp only [repeated.go, hy, if_false]
      exact ih (y :: seen)

theorem repeats_repeated (xs : List α) : Repeats xs (repeated xs) := by
  refine ⟨?_, pairwise_repeated_go [] xs⟩
  intro x
  rw [repeated, mem_repeated_go_iff, List.count_nil]
  omega

end

/-! ## With two sets -/

/-- The one set holds what was met, the other what was met twice. -/
structure Marks (met : List String) (seen reported : Std.ExtTreeSet String) : Prop where
  seen : ∀ x, x ∈ seen ↔ 1 ≤ met.count x
  reported : ∀ x, x ∈ reported ↔ 2 ≤ met.count x

namespace Marks

variable {met : List String} {seen reported : Std.ExtTreeSet String} {x : String}

theorem mem_insert_iff {s : Std.ExtTreeSet String} {y : String} : y ∈ s.insert x ↔ x = y ∨ y ∈ s := by
  rw [Std.ExtTreeSet.mem_insert, Std.LawfulEqCmp.compare_eq_iff_eq]

/-- Meeting `x` once more takes it past no count but the next. -/
theorem le_count_cons_iff {n : Nat} (hx : met.count x + 1 ≠ n) (y : String) :
    n ≤ (x :: met).count y ↔ n ≤ met.count y := by
  by_cases hy : x = y
  · rw [← hy, List.count_cons_self]
    omega
  · rw [List.count_cons_of_ne hy]

theorem le_count_cons_self_iff {n : Nat} (hx : met.count x + 1 = n) (y : String) :
    n ≤ (x :: met).count y ↔ x = y ∨ n ≤ met.count y := by
  by_cases hy : x = y
  · rw [← hy, List.count_cons_self]
    simp [hx]
  · simp [hy]

theorem first (h : Marks met seen reported) (hx : met.count x = 0) : Marks (x :: met) (seen.insert x) reported := by
  constructor
  · intro y
    rw [mem_insert_iff, h.seen, le_count_cons_self_iff (by omega)]
  · intro y
    rw [h.reported, le_count_cons_iff (by omega)]

theorem second (h : Marks met seen reported) (hx : met.count x = 1) : Marks (x :: met) seen (reported.insert x) := by
  constructor
  · intro y
    rw [h.seen, le_count_cons_iff (by omega)]
  · intro y
    rw [mem_insert_iff, h.reported, le_count_cons_self_iff (by omega)]

theorem further (h : Marks met seen reported) (hx : 2 ≤ met.count x) : Marks (x :: met) seen reported := by
  constructor
  · intro y
    rw [h.seen, le_count_cons_iff (by omega)]
  · intro y
    rw [h.reported, le_count_cons_iff (by omega)]

theorem repeated_go_eq (h : Marks met seen reported) (xs : List String) :
    repeated.go met xs = scan seen reported xs := by
  induction xs generalizing met seen reported with
  | nil => rfl
  | cons x xs ih =>
    have hseen := h.seen x
    have hreported := h.reported x
    rcases Nat.lt_trichotomy (met.count x) 1 with hlt | hone | hgt
    · have hzero : met.count x = 0 := by omega
      have hx : x ∉ seen := by
        rw [hseen]
        omega
      simp only [repeated.go, scan, hx, hzero, Nat.zero_ne_one, if_false]
      exact ih (h.first hzero)
    · have hx : x ∈ seen := hseen.mpr (by omega)
      have hx' : x ∉ reported := by
        rw [hreported]
        omega
      simp only [repeated.go, scan, hx, hx', hone, if_true, if_false]
      rw [ih (h.second hone)]
    · have hx : x ∈ seen := hseen.mpr (by omega)
      have hx' : x ∈ reported := hreported.mpr hgt
      have hne : met.count x ≠ 1 := by omega
      simp only [repeated.go, scan, hx, hx', hne, if_true, if_false]
      exact ih (h.further hgt)

end Marks

theorem scan_eq_repeated (xs : List String) : scan ∅ ∅ xs = repeated xs := by
  have h : Marks [] ∅ ∅ := ⟨by simp, by simp⟩
  exact (h.repeated_go_eq xs).symm

end StateObject
