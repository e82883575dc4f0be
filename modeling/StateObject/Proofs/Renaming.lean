/-
  StateObject.Proofs.Renaming — a rename is a duplicate of which the first is taken out.

  - `Located.entered`: an entry more leaves what is located where it is.
  - `Holds.entered_without`: whether an entry goes before another one comes or after it,
    the same catalog is left, down to the number of every slot.
  - `Moved`: the subobject has gone to the end under its new name, and nothing else has
    changed.
  - `rename_is_duplicate_then_remove`: a rename is refused as the duplicate would be, or it
    ends as the duplicate and the removal do, with the subobject moved.
-/

import StateObject.Proofs.Simulation

namespace StateObject.Catalog

variable {c : Catalog} {subs : List Subobject} {source name : String} {k : Symbol} {entry : Entry} {s : Subobject}

/-! ## An entry more -/

theorem Located.ne_of_vacant (hl : c.Located subs source k entry s) (hv : subs.find? (·.name = name) = none) :
    source ≠ name := by
  intro e
  have hfound := hl.found
  rw [e, hv] at hfound
  cases hfound

theorem Located.mem_toList (hl : c.Located subs source k entry s) : (k, entry) ∈ c.entries.toList := by
  obtain ⟨p, hp, hentry⟩ := Option.map_eq_some_iff.mp hl.kept
  have hk : p.1 = k := by simpa using List.find?_some hp
  rw [← hk, ← hentry]
  exact List.mem_of_find?_eq_some hp

theorem Located.entered (h : c.Holds subs) (hl : c.Located subs source k entry s)
    (hv : subs.find? (·.name = name) = none) (payload : Stored) (t : Subobject) :
    (c.entered name payload).Located (subs ++ [t]) source k entry s := by
  have hfind : (c.entered name payload).pool.symbols.find? source = some k := by
    have hother := SymbolTable.find?_intern c.pool.symbols name source
    rw [if_neg (hl.ne_of_vacant hv), hl.find?_symbol] at hother
    exact hother
  have hne : k ≠ (c.pool.symbols.intern name).1 := by
    intro e
    have hfresh := h.fresh_of_vacant hv
    rw [← e, OrderedMap.contains, hl.kept] at hfresh
    cases hfresh
  have hkept : (c.entered name payload).entries.find? k = some entry := by
    have hother := OrderedMap.find?_insert c.entries (c.pool.symbols.intern name).1 k
      { name := (c.pool.symbols.intern name).1, payload }
    rw [if_neg hne, hl.kept] at hother
    exact hother
  refine ⟨?_, hkept, ?_, ?_⟩
  · rw [symbolOf?, hfind, Option.filter_eq_some_iff, OrderedMap.contains, hkept]
    exact ⟨rfl, rfl⟩
  · exact (Pool.grows_symbols (SymbolTable.grows_intern _ name)).shows hl.shows
  · rw [List.find?_append, hl.found]
    rfl

/-! ## An entry more and one less -/

/-- The entries that are left, and the one that came. -/
theorem Holds.toList_entered_without (h : c.Holds subs) (hl : c.Located subs source k entry s)
    (hv : subs.find? (·.name = name) = none) (payload : Stored) :
    ((c.without k).entered name payload).entries.toList = c.entries.toList.eraseP (·.1 = k) ++
      [((c.pool.symbols.intern name).1, { name := (c.pool.symbols.intern name).1, payload })] :=
  (h.without hl).toList_entered (find?_eraseP_eq_none hv source) payload

theorem Holds.entered_without (h : c.Holds subs) (hl : c.Located subs source k entry s)
    (hv : subs.find? (·.name = name) = none) (payload : Stored) :
    (c.without k).entered name payload = (c.entered name payload).without k := by
  have hbefore := h.toList_entered_without hl hv payload
  -- the entry that goes is among the older ones, so it goes from before the new one
  have hafter : ((c.entered name payload).without k).entries.toList = c.entries.toList.eraseP (·.1 = k) ++
      [((c.pool.symbols.intern name).1, { name := (c.pool.symbols.intern name).1, payload })] := by
    show (c.entered name payload).entries.toList.eraseP (·.1 = k) = _
    rw [h.toList_entered hv payload]
    exact List.eraseP_append_left (a := (k, entry)) (decide_eq_true rfl) _ hl.mem_toList
  have hentries : ((c.without k).entered name payload).entries = ((c.entered name payload).without k).entries :=
    congrArg OrderedMap.mk (hbefore.trans hafter.symm)
  show Catalog.mk _ _ = Catalog.mk _ _
  rw [Catalog.mk.injEq]
  exact ⟨rfl, hentries⟩

theorem Holds.run_remove_entered (h : c.Holds subs) (hl : c.Located subs source k entry s)
    (hv : subs.find? (·.name = name) = none) (payload : Stored) :
    (remove source).run (c.entered name payload) =
      ⟨.ok true, (c.without k).entered name payload, [.removed source]⟩ := by
  have hlater := hl.entered h hv payload s
  rw [run_remove_of_found hlater.symbol hlater.kept, h.entered_without hl hv payload]

/-! ## Rename -/

/-- The subobject `source` of `c` stands in `c'` at the end, as `name` and as the view shows
    it. -/
structure Moved (c c' : Catalog) (source name : String) (v : View) : Prop where
  /-- Its entry went, and another one with the same payload came. -/
  entries : ∃ k entry, c.symbolOf? source = some k ∧ (k, entry) ∈ c.entries.toList ∧
    v.entry.payload = entry.payload ∧
    c'.entries.toList = c.entries.toList.eraseP (·.1 = k) ++ [(v.entry.name, v.entry)]
  /-- All others read as they did and in the same order, those included that are
      associations to `source`. -/
  subobjects : ∃ subs s, c.subobjects = .ok subs ∧ s ∈ subs ∧ s.name = source ∧ v.read = .ok { s with name } ∧
    c'.subobjects = .ok (subs.eraseP (·.name = source) ++ [{ s with name }])
  others : ∀ x, x ≠ source → x ≠ name → c'.entryOf? x = c.entryOf? x
  buffers : c'.pool.buffers = c.pool.buffers

theorem Holds.moved (h : c.Holds subs) (hl : c.Located subs source k entry s)
    (hv : subs.find? (·.name = name) = none) :
    c.Moved ((c.without k).entered name entry.payload) source name (c.enteredView name entry.payload) := by
  have hs := List.mem_of_find?_eq_some hl.found
  have hname : s.name = source := by simpa using List.find?_some hl.found
  have hw := h.without hl
  have hleft := hw.enter (find?_eraseP_eq_none hv source) hl.shows.contents (h.flags s hs)
  refine ⟨⟨k, entry, hl.symbol, hl.mem_toList, rfl, h.toList_entered_without hl hv entry.payload⟩, ?_, ?_, rfl⟩
  · exact ⟨subs, s, h.subobjects_eq, hs, hname, h.read_enteredView name hl.shows.contents, hleft.subobjects_eq⟩
  · intro x hsource hx
    rw [hw.entryOf?_entered, if_neg hx, h.entryOf?_without hl.find?_symbol, if_neg hsource]

/-- A rename is refused exactly when the duplicate is, with the same words, and both leave
    the catalog as it was. Otherwise the two hand back the same view, and what the rename
    leaves is what the removal of the source leaves of the duplicate: every entry, slot,
    string, buffer and address. -/
theorem rename_is_duplicate_then_remove (h : Reachable c) (source name : String) :
    (∃ r, (duplicate source name).run c = ⟨.error r, c, []⟩ ∧ (rename source name).run c = ⟨.error r, c, []⟩) ∨
    ∃ v,
      let copied := (duplicate source name).run c
      let taken := (remove source).run copied.state
      let moved := (rename source name).run c
      copied.result = .ok v ∧ taken.result = .ok true ∧ moved.result = .ok v ∧ moved.state = taken.state ∧
        c.Moved moved.state source name v := by
  obtain ⟨inv, hm⟩ := h.matches
  have hh := hm.holds
  rcases hh.lookup source with ⟨k, entry, s, hl⟩ | ⟨hk, -⟩
  · cases hn : inv.subobjects.find? (·.name = name) with
    | some t =>
      have htaken := hh.contains_of_taken hn
      exact .inl ⟨_, run_duplicate_of_taken hl.symbol hl.kept htaken, run_rename_of_taken hl.symbol hl.kept htaken⟩
    | none =>
      have hvacant := hh.contains_of_vacant hn
      refine .inr ⟨c.enteredView name entry.payload, ?_⟩
      simp only [run_duplicate_of_found hl.symbol hl.kept hvacant, run_rename_of_found hl.symbol hl.kept hvacant,
        hh.run_remove_entered hl hn entry.payload, true_and]
      exact ⟨rfl, hh.moved hl hn⟩
  · exact .inl ⟨_, run_duplicate_of_unknown hk name, run_rename_of_unknown hk name⟩

/-- An association to itself goes from the middle to the end, to a name that is known as
    its export. It targets the old name still, and so does the other one. -/
theorem rename_of_self_association :
    let c := (make none).after [.create "rays" (.association ⟨"loop", []⟩),
      .create "loop" (.association ⟨"loop", ["x"]⟩), .create "depth" (.pipelineConfig ⟨1⟩)]
    let moved := (rename "loop" "x").run c
    Reachable c ∧ moved.state = ((remove "loop").run ((duplicate "loop" "x").run c).state).state ∧
      moved.state.subobjects = .ok [⟨"rays", .association ⟨"loop", []⟩⟩, ⟨"depth", .pipelineConfig ⟨1⟩⟩,
        ⟨"x", .association ⟨"loop", ["x"]⟩⟩] := by
  intro c moved
  have hc : Reachable c := (Reachable.make none).after (sourced_of_clones (by simp))
  have hsubs : c.subobjects = .ok [⟨"rays", .association ⟨"loop", []⟩⟩, ⟨"loop", .association ⟨"loop", ["x"]⟩⟩,
      ⟨"depth", .pipelineConfig ⟨1⟩⟩] := by decide +kernel
  rcases rename_is_duplicate_then_remove hc "loop" "x" with ⟨r, hr, -⟩ | ⟨v, -, -, -, hstate, hmoved⟩
  · have hok : ((duplicate "loop" "x").run c).result.isOk = true := by decide +kernel
    rw [hr] at hok
    cases hok
  · obtain ⟨subs, s, hread, hs, hname, -, hleft⟩ := hmoved.subobjects
    obtain rfl := Except.ok.inj (hsubs.symm.trans hread)
    obtain rfl : s = ⟨"loop", .association ⟨"loop", ["x"]⟩⟩ := by
      simp only [List.mem_cons, List.not_mem_nil, or_false] at hs
      rcases hs with rfl | rfl | rfl
      · exact absurd hname (by decide)
      · rfl
      · exact absurd hname (by decide)
    exact ⟨hc, hstate, hleft⟩

end StateObject.Catalog
