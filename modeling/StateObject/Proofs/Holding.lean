/-
  StateObject.Proofs.Holding — which subobjects a catalog holds.

  `Holds c subs`: the pool of `c` is sound, its keys differ, and its entries read one
  by one as `subs`. From this,
  - every read of the catalog answers, and answers what the list says
    (`Holds.subobjects_eq`, `Holds.names_eq`, `Holds.contains_eq`, `Holds.find?_eq`);
  - a name is looked up with one of two results (`Holds.lookup`): a key, the entry under
    it and the subobject it reads as, or nothing on either side, whatever else the name
    may stand for;
  - the steps of the edits keep it: a pool that took something in (`Holds.grow`), an
    entry more at the end (`Holds.enter`), an entry less (`Holds.without`); and each leaves
    the entries of other names where they are (`Holds.entryOf?_withPool`,
    `Holds.entryOf?_entered`, `Holds.entryOf?_without`).
-/

import StateObject.Catalog.Edit
import StateObject.Proofs.Intake

namespace StateObject

/-- The entry is kept under its own name and reads in the pool as the subobject. -/
structure Pool.Shows (pool : Pool) (p : Symbol × Entry) (s : Subobject) : Prop where
  key : p.2.name = p.1
  name : pool.symbols.resolve p.1 = .ok s.name
  contents : pool.resolve p.2.payload = .ok s.contents

theorem Pool.Grows.shows {pool pool' : Pool} (h : pool.Grows pool') {p : Symbol × Entry} {s : Subobject}
    (hs : pool.Shows p s) : pool'.Shows p s :=
  ⟨hs.key, h.symbols.resolve hs.name, h.resolve hs.contents⟩

/-- No flag is set that is not defined. -/
def Contents.FlagsDefined (contents : Contents) : Prop :=
  ∀ flags, contents.configFlags? = some flags → ConfigFlags.unknownBits flags.bits = 0

theorem Spec.flagsDefined_of_accept {limit : Nat} {seen : Nat → Option Bytes} {spec : Spec} {contents : Contents}
    (h : spec.accept limit seen = .ok contents) : contents.FlagsDefined := by
  intro flags hflags
  cases spec with
  | stateObjectConfig raw =>
    simp only [accept, ConfigFlags.ofBits?] at h
    by_cases hraw : ConfigFlags.unknownBits raw = 0
    · simp only [hraw, if_true, Except.ok.injEq] at h
      subst h
      cases hflags
      exact hraw
    · simp [hraw] at h
  | rootSignature scope slice =>
    simp only [accept] at h
    split at h
    · cases h
      cases hflags
    · split at h
      · cases h
        cases hflags
      · cases h
  | _ =>
    simp only [accept, Except.ok.injEq] at h
    subst h
    cases hflags

namespace Catalog

structure Holds (c : Catalog) (subs : List Subobject) : Prop where
  pool : c.pool.Sound
  keys : c.entries.keys.Nodup
  entries : List.Forall₂ c.pool.Shows c.entries.toList subs
  flags : ∀ s ∈ subs, s.contents.FlagsDefined

theorem holds_ofLimit (limit : Nat) : (ofLimit limit).Holds [] :=
  ⟨Pool.sound_ofLimit limit, List.nodup_nil, .nil, fun _ h => by cases h⟩

variable {c : Catalog} {subs : List Subobject}

/-! ## Reading everything -/

theorem Holds.size_eq (h : c.Holds subs) : c.size = subs.length := h.entries.length_eq

theorem Holds.isEmpty_eq (h : c.Holds subs) : c.isEmpty = subs.isEmpty := by
  have := h.size_eq
  rw [Bool.eq_iff_iff, isEmpty, OrderedMap.isEmpty, List.isEmpty_iff_length_eq_zero, List.isEmpty_iff_length_eq_zero]
  rw [size, OrderedMap.size] at this
  rw [this]

theorem read_eq_of_shows {k : Symbol} {entry : Entry} {s : Subobject} (h : c.pool.Shows (k, entry) s) :
    (c.view entry).read = .ok s := by
  have hname : (c.view entry).name = .ok s.name := by
    rw [View.name, view, show entry.name = k from h.key]
    exact h.name
  exact bind_eq_ok_iff.mpr ⟨_, hname, bind_eq_ok_iff.mpr ⟨_, h.contents, rfl⟩⟩

theorem Holds.views (h : c.Holds subs) : List.Forall₂ (fun v s => View.read v = .ok s) c.views subs := by
  rw [Catalog.views, OrderedMap.values, List.map_map, List.forall₂_map_left_iff]
  exact h.entries.imp fun p s hs => read_eq_of_shows hs

theorem Holds.subobjects_eq (h : c.Holds subs) : c.subobjects = .ok subs :=
  mapM_eq_ok_iff_forall₂.mpr h.views

theorem Holds.names_eq (h : c.Holds subs) : c.names = .ok (subs.map (·.name)) := by
  rw [Catalog.names, mapM_eq_ok_iff_forall₂, OrderedMap.keys, List.forall₂_map_left_iff, List.forall₂_map_right_iff]
  exact h.entries.imp fun _ _ hs => hs.name

/-! ## Looking a name up -/

theorem Holds.key_eq_iff (h : c.Holds subs) {p : Symbol × Entry} {s : Subobject} (hs : c.pool.Shows p s) {k : Symbol}
    {name : String} (hk : c.pool.symbols.resolve k = .ok name) : p.1 = k ↔ s.name = name := by
  have hp := hs.name
  constructor
  · intro e
    rw [e, hk] at hp
    exact (Except.ok.inj hp).symm
  · intro e
    rw [e] at hp
    exact h.pool.symbols.symbol_unique (SymbolTable.resolve_eq_ok_iff.mp hp) (SymbolTable.resolve_eq_ok_iff.mp hk)

theorem Holds.rel_find? (h : c.Holds subs) {k : Symbol} {name : String} (hk : c.pool.symbols.resolve k = .ok name) :
    Option.Rel c.pool.Shows (c.entries.toList.find? (·.1 = k)) (subs.find? (·.name = name)) :=
  StateObject.rel_find? (fun _ _ hs => by simp [h.key_eq_iff hs hk]) h.entries

/-- The name is the key of an entry, and that of the subobject that it reads as. -/
structure Located (c : Catalog) (subs : List Subobject) (name : String) (k : Symbol) (entry : Entry) (s : Subobject) :
    Prop where
  symbol : c.symbolOf? name = some k
  kept : c.entries.find? k = some entry
  shows : c.pool.Shows (k, entry) s
  found : subs.find? (·.name = name) = some s

/-- A name is located, or it is that of no entry and no subobject: a symbol alone makes
    neither. -/
theorem Holds.lookup (h : c.Holds subs) (name : String) :
    (∃ k entry s, c.Located subs name k entry s) ∨
      (c.symbolOf? name = none ∧ subs.find? (·.name = name) = none) := by
  cases hk : c.pool.symbols.find? name with
  | none =>
    right
    refine ⟨by rw [symbolOf?, hk]; rfl, List.find?_eq_none.mpr ?_⟩
    intro s hs e
    obtain ⟨p, -, hp⟩ := forall₂_exists_right (h.entries.flip (R := flip c.pool.Shows)) hs
    have := h.pool.symbols.find?_eq_some_iff.mpr (SymbolTable.resolve_eq_ok_iff.mp hp.name)
    rw [decide_eq_true_eq.mp e, hk] at this
    cases this
  | some k =>
    have hr : c.pool.symbols.resolve k = .ok name :=
      SymbolTable.resolve_eq_ok_iff.mpr (h.pool.symbols.find?_eq_some_iff.mp hk)
    have hsym : c.symbolOf? name = if c.entries.contains k then some k else none := by
      rw [symbolOf?, hk]
      rfl
    have hrel := h.rel_find? hr
    cases hp : c.entries.toList.find? (·.1 = k) with
    | none =>
      right
      rw [hp] at hrel
      have hcontains : c.entries.contains k = false := by
        rw [OrderedMap.contains, OrderedMap.find?, hp]
        rfl
      refine ⟨by rw [hsym, hcontains]; rfl, ?_⟩
      cases hs : subs.find? (·.name = name) with
      | none => rfl
      | some s =>
        rw [hs] at hrel
        cases hrel
    | some p =>
      left
      obtain ⟨j, entry⟩ := p
      obtain rfl : j = k := by simpa using List.find?_some hp
      have hfind : c.entries.find? j = some entry := by
        rw [OrderedMap.find?, hp]
        rfl
      rw [hp] at hrel
      cases hs : subs.find? (·.name = name) with
      | none =>
        rw [hs] at hrel
        cases hrel
      | some s =>
        rw [hs] at hrel
        cases hrel with
        | some hshows =>
          refine ⟨j, entry, s, ?_, hfind, hshows, hs⟩
          rw [hsym, OrderedMap.contains, hfind]
          rfl

theorem Located.find?_symbol {name : String} {k : Symbol} {entry : Entry} {s : Subobject}
    (hl : c.Located subs name k entry s) : c.pool.symbols.find? name = some k :=
  (Option.filter_eq_some_iff.mp hl.symbol).1

theorem Holds.contains_eq (h : c.Holds subs) (name : String) :
    c.contains name = (subs.find? (·.name = name)).isSome := by
  rw [Catalog.contains]
  rcases h.lookup name with ⟨k, entry, s, hl⟩ | ⟨hk, hs⟩
  · rw [hl.symbol, hl.found]
    rfl
  · rw [hk, hs]
    rfl

/-- What a name finds reads as what the list finds. -/
theorem Holds.find?_eq (h : c.Holds subs) (name : String) :
    (c.find? name).mapM View.read = .ok (subs.find? (·.name = name)) := by
  rw [Catalog.find?]
  rcases h.lookup name with ⟨k, entry, s, hl⟩ | ⟨hk, hs⟩
  · rw [hl.symbol, hl.found]
    simp only [Option.bind_eq_bind, Option.bind_some, hl.kept, Option.pure_def, Option.mapM_some,
      read_eq_of_shows hl.shows]
    rfl
  · rw [hk, hs]
    rfl

/-! ## The steps of the edits -/

/-- The catalog with another pool. -/
def withPool (c : Catalog) (pool : Pool) : Catalog := { c with pool }

/-- The catalog with one entry more, at the end if its name is new. -/
def entered (c : Catalog) (name : String) (payload : Stored) : Catalog :=
  let (symbol, symbols) := c.pool.symbols.intern name
  { pool := { c.pool with symbols }, entries := c.entries.insert symbol { name := symbol, payload } }

/-- What a reader of the entry just made gets. -/
def enteredView (c : Catalog) (name : String) (payload : Stored) : View :=
  (c.entered name payload).view { name := (c.pool.symbols.intern name).1, payload }

/-- The catalog without the entry under the symbol. -/
def without (c : Catalog) (k : Symbol) : Catalog := { c with entries := ⟨c.entries.toList.eraseP (·.1 = k)⟩ }

theorem Holds.grow (h : c.Holds subs) {pool : Pool} (hgrows : c.pool.Grows pool) (hsound : pool.Sound) :
    (c.withPool pool).Holds subs :=
  ⟨hsound, h.keys, h.entries.imp fun _ _ hs => hgrows.shows hs, h.flags⟩

theorem Holds.shows_entered (h : c.Holds subs) (name : String) {payload : Stored} {contents : Contents}
    (hp : c.pool.resolve payload = .ok contents) :
    (c.entered name payload).pool.Shows
      ((c.pool.symbols.intern name).1, { name := (c.pool.symbols.intern name).1, payload }) ⟨name, contents⟩ :=
  ⟨rfl, h.pool.symbols.resolve_intern name,
    (Pool.grows_symbols (SymbolTable.grows_intern _ name)).resolve hp⟩

/-- The symbol of a vacant name is no key yet, even if the string was seen before. -/
theorem Holds.fresh_of_vacant (h : c.Holds subs) {name : String} (hv : subs.find? (·.name = name) = none) :
    c.entries.contains (c.pool.symbols.intern name).1 = false := by
  rw [← Bool.not_eq_true, OrderedMap.contains_iff_mem_keys]
  intro hk
  obtain ⟨p, hp, hpk⟩ := List.mem_map.mp hk
  obtain ⟨s, hs, hshows⟩ := forall₂_exists_right h.entries hp
  have hold := (SymbolTable.grows_intern c.pool.symbols name).resolve hshows.name
  rw [hpk, h.pool.symbols.resolve_intern name] at hold
  exact List.find?_eq_none.mp hv s hs (decide_eq_true (Except.ok.inj hold).symm)

theorem Holds.toList_entered (h : c.Holds subs) {name : String} (hv : subs.find? (·.name = name) = none)
    (payload : Stored) :
    (c.entered name payload).entries.toList = c.entries.toList ++
      [((c.pool.symbols.intern name).1, { name := (c.pool.symbols.intern name).1, payload })] := by
  have hfresh := h.fresh_of_vacant hv
  simp [entered, OrderedMap.insert, hfresh]

theorem Holds.enter (h : c.Holds subs) {name : String} (hv : subs.find? (·.name = name) = none) {payload : Stored}
    {contents : Contents} (hp : c.pool.resolve payload = .ok contents) (hf : contents.FlagsDefined) :
    (c.entered name payload).Holds (subs ++ [⟨name, contents⟩]) := by
  have hgrows : c.pool.Grows (c.entered name payload).pool :=
    Pool.grows_symbols (SymbolTable.grows_intern _ name)
  refine ⟨⟨h.pool.symbols.intern name, h.pool.buffers⟩, ?_, ?_, ?_⟩
  · have hfresh := h.fresh_of_vacant hv
    rw [entered, OrderedMap.keys_insert, hfresh, if_neg Bool.false_ne_true]
    refine List.nodup_append.mpr ⟨h.keys, by simp, ?_⟩
    intro k hk j hj e
    rw [List.mem_singleton.mp hj] at e
    rw [← e, ← Bool.not_eq_true, OrderedMap.contains_iff_mem_keys] at hfresh
    exact hfresh hk
  · rw [h.toList_entered hv]
    exact forall₂_append (h.entries.imp fun _ _ hs => hgrows.shows hs) (.cons (h.shows_entered name hp) .nil)
  · intro s hs
    rcases List.mem_append.mp hs with hs | hs
    · exact h.flags s hs
    · rw [List.mem_singleton.mp hs]
      exact hf

theorem Holds.read_enteredView (h : c.Holds subs) (name : String) {payload : Stored} {contents : Contents}
    (hp : c.pool.resolve payload = .ok contents) :
    (c.enteredView name payload).read = .ok ⟨name, contents⟩ :=
  read_eq_of_shows (h.shows_entered name hp)

theorem Holds.enteredView_mem_views (h : c.Holds subs) {name : String} (hv : subs.find? (·.name = name) = none)
    (payload : Stored) : c.enteredView name payload ∈ (c.entered name payload).views := by
  refine List.mem_map.mpr ⟨{ name := (c.pool.symbols.intern name).1, payload }, ?_, rfl⟩
  rw [OrderedMap.values, h.toList_entered hv]
  simp

/-- Taking one out makes no name taken. -/
theorem find?_eraseP_eq_none {name : String} (hv : subs.find? (·.name = name) = none) (source : String) :
    (subs.eraseP (·.name = source)).find? (·.name = name) = none := by
  refine List.find?_eq_none.mpr ?_
  intro s hs
  exact List.find?_eq_none.mp hv s (List.mem_of_mem_eraseP hs)

theorem Holds.without (h : c.Holds subs) {name : String} {k : Symbol} {entry : Entry} {s : Subobject}
    (hl : c.Located subs name k entry s) : (c.without k).Holds (subs.eraseP (·.name = name)) := by
  have hk : c.pool.symbols.resolve k = .ok name :=
    SymbolTable.resolve_eq_ok_iff.mpr (h.pool.symbols.find?_eq_some_iff.mp hl.find?_symbol)
  exact ⟨h.pool, (List.eraseP_sublist.map _).nodup h.keys,
    forall₂_eraseP (fun _ _ hs => by simp [h.key_eq_iff hs hk]) h.entries,
    fun s hs => h.flags s (List.mem_of_mem_eraseP hs)⟩

/-! ## Entries by name -/

/-- The entry that a name finds. -/
def entryOf? (c : Catalog) (name : String) : Option Entry := (c.find? name).map (·.entry)

theorem entryOf?_eq (c : Catalog) (name : String) :
    c.entryOf? name = (c.pool.symbols.find? name).bind c.entries.find? := by
  rw [entryOf?, Catalog.find?, symbolOf?]
  cases c.pool.symbols.find? name with
  | none => rfl
  | some k =>
    have hc : c.entries.contains k = (c.entries.find? k).isSome := rfl
    cases hk : c.entries.find? k <;> simp [Option.filter, hc, hk, view]

theorem find?_eq_map_entryOf? (c : Catalog) (name : String) : c.find? name = (c.entryOf? name).map c.view := by
  rw [entryOf?, Catalog.find?]
  cases c.symbolOf? name with
  | none => rfl
  | some k => cases hk : c.entries.find? k <;> simp [hk, view]

theorem Located.entryOf?_eq_some {name : String} {k : Symbol} {entry : Entry} {s : Subobject}
    (hl : c.Located subs name k entry s) : c.entryOf? name = some entry := by
  rw [entryOf?, Catalog.find?, hl.symbol]
  simp [hl.kept, view]

theorem Holds.entryOf?_eq_none (h : c.Holds subs) {name : String} (hv : subs.find? (·.name = name) = none) :
    c.entryOf? name = none := by
  rcases h.lookup name with ⟨k, entry, s, hl⟩ | ⟨hk, -⟩
  · have hfound := hl.found
    rw [hv] at hfound
    cases hfound
  · rw [entryOf?, Catalog.find?, hk]
    rfl

theorem Holds.located_of_find? (h : c.Holds subs) {name : String} {v : View} (hv : c.find? name = some v) :
    ∃ k entry s, c.Located subs name k entry s ∧ v = c.view entry := by
  rw [find?_eq_map_entryOf?] at hv
  rcases h.lookup name with ⟨k, entry, s, hl⟩ | ⟨-, hs⟩
  · rw [hl.entryOf?_eq_some] at hv
    exact ⟨k, entry, s, hl, (Option.some.inj hv).symm⟩
  · rw [h.entryOf?_eq_none hs] at hv
    cases hv

/-- A pool that took something in knows more strings, but no more entries. -/
theorem Holds.entryOf?_withPool (h : c.Holds subs) {pool : Pool} (hgrows : c.pool.Grows pool) (hsound : pool.Sound)
    (name : String) : (c.withPool pool).entryOf? name = c.entryOf? name := by
  rcases h.lookup name with ⟨k, entry, s, hl⟩ | ⟨-, hs⟩
  · have hk : pool.symbols.find? s.name = some k :=
      hsound.symbols.find?_eq_some_iff.mpr (SymbolTable.resolve_eq_ok_iff.mp (hgrows.symbols.resolve hl.shows.name))
    have hname : s.name = name := by simpa using List.find?_some hl.found
    rw [hl.entryOf?_eq_some, Catalog.entryOf?_eq, ← hname]
    show (pool.symbols.find? s.name).bind c.entries.find? = some entry
    rw [hk]
    exact hl.kept
  · rw [h.entryOf?_eq_none hs, (h.grow hgrows hsound).entryOf?_eq_none hs]

theorem Holds.entryOf?_entered (h : c.Holds subs) (name : String) (payload : Stored) (x : String) :
    (c.entered name payload).entryOf? x =
      if x = name then some { name := (c.pool.symbols.intern name).1, payload } else c.entryOf? x := by
  have hfind : (c.entered name payload).pool.symbols.find? x =
      if x = name then some (c.pool.symbols.intern name).1 else c.pool.symbols.find? x :=
    SymbolTable.find?_intern _ _ _
  rw [Catalog.entryOf?_eq, Catalog.entryOf?_eq, hfind]
  by_cases hx : x = name
  · simp [hx, entered, OrderedMap.find?_insert]
  · simp only [hx, if_false]
    cases hk : c.pool.symbols.find? x with
    | none => rfl
    | some k =>
      -- two strings have two symbols
      have hne : k ≠ (c.pool.symbols.intern name).1 := by
        intro e
        have hr : c.pool.symbols.resolve k = .ok x :=
          SymbolTable.resolve_eq_ok_iff.mpr (h.pool.symbols.find?_eq_some_iff.mp hk)
        have hr' := (SymbolTable.grows_intern c.pool.symbols name).resolve hr
        rw [e, h.pool.symbols.resolve_intern name] at hr'
        exact hx (Except.ok.inj hr').symm
      simp [entered, OrderedMap.find?_insert, hne]

theorem Holds.entryOf?_without (h : c.Holds subs) {name : String} {k : Symbol} (hk : c.pool.symbols.find? name = some k)
    (x : String) : (c.without k).entryOf? x = if x = name then none else c.entryOf? x := by
  rw [Catalog.entryOf?_eq, Catalog.entryOf?_eq]
  show (c.pool.symbols.find? x).bind (c.without k).entries.find? = _
  cases hj : c.pool.symbols.find? x with
  | none => simp
  | some j =>
    have hiff : j = k ↔ x = name := by
      have hr := h.pool.symbols.find?_eq_some_iff.mp hj
      have hr' := h.pool.symbols.find?_eq_some_iff.mp hk
      constructor
      · intro e
        rw [e, hr'] at hr
        exact (Option.some.inj hr).symm
      · intro e
        rw [e] at hr
        exact h.pool.symbols.symbol_unique hr hr'
    have herase : (c.without k).entries.find? j = if j = k then none else c.entries.find? j :=
      OrderedMap.find?_eraseP h.keys j
    simp only [Option.bind_some, herase, hiff]

end Catalog

end StateObject
