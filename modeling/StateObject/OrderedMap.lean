/-
  StateObject.OrderedMap — a map that remembers in which order its keys came.

  It does what is documented of two operations of an `IndexMap`. `insert` there puts a new
  key last, and gives a known key the new value at the place that it has. `shift_remove`,
  here `extract?`, takes a key out and moves up all that follow it, so that the others stay
  in their order.
-/

namespace StateObject

structure OrderedMap (κ ν : Type) where
  toList : List (κ × ν) := []

namespace OrderedMap

variable {κ ν : Type} [DecidableEq κ]

def size (m : OrderedMap κ ν) : Nat := m.toList.length

def isEmpty (m : OrderedMap κ ν) : Bool := m.toList.isEmpty

def keys (m : OrderedMap κ ν) : List κ := m.toList.map (·.1)

def values (m : OrderedMap κ ν) : List ν := m.toList.map (·.2)

def find? (m : OrderedMap κ ν) (k : κ) : Option ν := (m.toList.find? (·.1 = k)).map (·.2)

def contains (m : OrderedMap κ ν) (k : κ) : Bool := (m.find? k).isSome

def insert (m : OrderedMap κ ν) (k : κ) (v : ν) : OrderedMap κ ν :=
  if m.contains k then ⟨m.toList.map fun p => if p.1 = k then (k, v) else p⟩
  else ⟨m.toList ++ [(k, v)]⟩

/-- The value of a key, and the map without the key. -/
def extract? (m : OrderedMap κ ν) (k : κ) : Option (ν × OrderedMap κ ν) :=
  (m.find? k).map fun v => (v, ⟨m.toList.eraseP (·.1 = k)⟩)

/-! ## What each operation does to keys and values -/

theorem contains_iff_mem_keys {m : OrderedMap κ ν} {k : κ} : m.contains k = true ↔ k ∈ m.keys := by
  simp [contains, find?, keys, List.find?_isSome]

theorem keys_insert (m : OrderedMap κ ν) (k : κ) (v : ν) :
    (m.insert k v).keys = if m.contains k then m.keys else m.keys ++ [k] := by
  unfold insert
  split
  · simp only [keys, List.map_map]
    exact List.map_congr_left fun p _ => by by_cases h : p.1 = k <;> simp [h]
  · simp [keys]

theorem find?_map_replace (l : List (κ × ν)) (k j : κ) (v : ν) :
    (l.map fun p => if p.1 = k then (k, v) else p).find? (·.1 = j) =
      if j = k then (l.find? (·.1 = k)).map fun _ => (k, v) else l.find? (·.1 = j) := by
  induction l with
  | nil => simp
  | cons p l ih =>
    by_cases hj : j = k
    · subst hj
      by_cases hp : p.1 = j
      · simp [hp]
      · simpa [hp] using ih
    · by_cases hp : p.1 = k
      · simpa [hp, hj, Ne.symm hj] using ih
      · by_cases hpj : p.1 = j
        · simp [hpj, hj]
        · simpa [hp, hpj, hj] using ih

theorem find?_insert (m : OrderedMap κ ν) (k j : κ) (v : ν) :
    (m.insert k v).find? j = if j = k then some v else m.find? j := by
  unfold insert
  split
  · rename_i h
    simp only [contains, find?, Option.isSome_map] at h
    obtain ⟨p, hp⟩ := Option.isSome_iff_exists.mp h
    simp only [find?, find?_map_replace]
    by_cases hj : j = k <;> simp [hj, hp]
  · rename_i h
    simp only [contains, find?, Option.isSome_map, Bool.not_eq_true, Option.isSome_eq_false_iff,
      Option.isNone_iff_eq_none] at h
    simp only [find?, List.find?_append, List.find?_singleton]
    by_cases hj : j = k
    · simp [hj, h]
    · simp [hj, Ne.symm hj]

theorem extract?_eq_none_iff {m : OrderedMap κ ν} {k : κ} : m.extract? k = none ↔ m.contains k = false := by
  simp [extract?, contains]

theorem keys_extract? {m m' : OrderedMap κ ν} {k : κ} {v : ν} (h : m.extract? k = some (v, m')) :
    m'.keys = m.keys.erase k := by
  simp only [extract?, Option.map_eq_some_iff, Prod.mk.injEq] at h
  obtain ⟨_, _, _, rfl⟩ := h
  simp only [keys]
  induction m.toList with
  | nil => rfl
  | cons p l ih => by_cases hp : p.1 = k <;> simp [hp, ih]

theorem find?_eraseP {m : OrderedMap κ ν} (hd : m.keys.Nodup) {k : κ} (j : κ) :
    (⟨m.toList.eraseP (·.1 = k)⟩ : OrderedMap κ ν).find? j = if j = k then none else m.find? j := by
  obtain ⟨l⟩ := m
  simp only [find?, keys] at hd ⊢
  induction l with
  | nil => simp
  | cons p l ih =>
    obtain ⟨hp, hd⟩ := List.nodup_cons.mp hd
    by_cases hpk : p.1 = k
    · -- the other keys differ from the one taken out
      by_cases hj : j = k
      · have hnone : l.find? (fun q => decide (q.1 = k)) = none := by
          refine List.find?_eq_none.mpr fun q hq => ?_
          intro e
          have hqp : q.1 = p.1 := (of_decide_eq_true e).trans hpk.symm
          exact hp (List.mem_map.mpr ⟨q, hq, hqp⟩)
        simp [hpk, hj, hnone]
      · simp [hpk, hj, Ne.symm hj]
    · by_cases hpj : p.1 = j
      · simp [hpj, hpj ▸ hpk]
      · simpa [List.eraseP_cons, hpk, hpj] using ih hd

end OrderedMap

end StateObject
