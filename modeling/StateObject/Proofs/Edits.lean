/-
  StateObject.Proofs.Edits — the edits as one type of call, and where they lead.

  `Edit` lists the calls that change a catalog, and `Reachable` the catalogs that runs
  of them make, each clone copying from a catalog that such a run made before. How each
  edit ends is one equation for each way it can go: the name is taken, what was asked
  for is refused, or it is entered or taken out.
-/

import StateObject.Proofs.Holding

namespace StateObject

/-- A call that changes a catalog. What a clone copies is an `ω`. -/
inductive Edit (ω : Type) where
  | create (name : String) (spec : Spec)
  | clone (source : ω) (name : String)
  | duplicate (source name : String)
  | rename (source name : String)
  | remove (name : String)

/-- What an edit hands back: the subobject as it now stands, or whether there was one to
    take out. -/
inductive Reply (ω : Type) where
  | subobject (s : ω)
  | removed (found : Bool)
  deriving DecidableEq, Repr

namespace Edit

def call : Edit View → Call Catalog (Reply View)
  | create name spec => .subobject <$> Catalog.create name spec
  | clone source name => .subobject <$> Catalog.clone source name
  | duplicate source name => .subobject <$> Catalog.duplicate source name
  | rename source name => .subobject <$> Catalog.rename source name
  | remove name => .removed <$> Catalog.remove name

/-- What the edit copies, if it is a clone, is a subobject of `s`. -/
def From (s : Catalog) : Edit View → Prop
  | clone source _ => source ∈ s.views
  | _ => True

end Edit

namespace Catalog

/-- A new catalog, with a limit of its own or the container's. -/
def make : Option Nat → Catalog
  | none => {}
  | some limit => ofLimit limit

/-- The catalogs that public calls make. -/
inductive Reachable : Catalog → Prop
  | make (limit : Option Nat) : Reachable (make limit)
  | edit {c s : Catalog} (e : Edit View) : Reachable c → Reachable s → e.From s → Reachable (e.call.run c).state

/-- The catalog after a run of edits, those that were refused included. -/
def after (c : Catalog) (edits : List (Edit View)) : Catalog := edits.foldl (fun c e => (e.call.run c).state) c

/-- Every clone of the run copies from a reachable catalog. -/
def Sourced (edits : List (Edit View)) : Prop := ∀ e ∈ edits, ∃ s, Reachable s ∧ e.From s

/-- Of all edits, clones alone have a source. -/
theorem sourced_of_clones {edits : List (Edit View)}
    (h : ∀ v name, .clone v name ∈ edits → ∃ s, Reachable s ∧ v ∈ s.views) : Sourced edits := by
  intro e he
  cases e with
  | clone v name => exact h v name he
  | _ => exact ⟨_, .make none, True.intro⟩

variable {c : Catalog} {name : String}

theorem Reachable.after (h : Reachable c) {edits : List (Edit View)} (hs : Sourced edits) :
    Reachable (c.after edits) := by
  induction edits generalizing c with
  | nil => exact h
  | cons e es ih =>
    obtain ⟨s, hreach, hfrom⟩ := hs e List.mem_cons_self
    exact ih (.edit e h hreach hfrom) fun e' he' => hs e' (List.mem_cons_of_mem e he')

/-! ## Steps -/

theorem run_inPool_of_ok {α : Type} {call : Call Pool α} {a : α} {pool : Pool} {l : List Record}
    (h : call.run c.pool = ⟨.ok a, pool, l⟩) : (inPool call).run c = ⟨.ok a, c.withPool pool, l⟩ := by
  rw [inPool, Call.run_within, h]
  rfl

theorem run_inPool_of_error {α : Type} {call : Call Pool α} {r : Refusal} {pool : Pool} {l : List Record}
    (h : call.run c.pool = ⟨.error r, pool, l⟩) : (inPool call).run c = ⟨.error r, c.withPool pool, l⟩ := by
  rw [inPool, Call.run_within, h]
  rfl

theorem run_requireVacant_of_vacant (h : c.contains name = false) : (requireVacant name).run c = ⟨.ok (), c, []⟩ := by
  rw [run_requireVacant, h, if_neg Bool.false_ne_true]

theorem run_requireVacant_of_taken (h : c.contains name = true) :
    (requireVacant name).run c = ⟨.error (.nameCollision name), c, []⟩ := by
  rw [run_requireVacant, h, if_pos rfl]

theorem run_enter_eq (name : String) (payload : Stored) (c : Catalog) :
    (enter name payload).run c =
      ⟨.ok (c.enteredView name payload), c.entered name payload, [.created payload.kind name]⟩ := rfl

theorem run_locate_of_some {k : Symbol} {entry : Entry} (hk : c.symbolOf? name = some k)
    (he : c.entries.find? k = some entry) : (locate name).run c = ⟨.ok (k, entry), c, []⟩ := by
  rw [locate, Call.run_bind_of_ok (Call.run_get c)]
  simp [hk, he]

theorem run_locate_of_none (hk : c.symbolOf? name = none) :
    (locate name).run c = ⟨.error (.unknownSubobject name), c, []⟩ := by
  rw [locate, Call.run_bind_of_ok (Call.run_get c)]
  simp [hk]

theorem run_extract_of_some {k : Symbol} {entry : Entry} (he : c.entries.find? k = some entry) :
    (extract k).run c = ⟨.ok (some entry), c.without k, []⟩ := by
  simp [extract, OrderedMap.extract?, he, without]

/-! ## Create -/

theorem run_create_of_taken (h : c.contains name = true) (spec : Spec) :
    (create name spec).run c = ⟨.error (.nameCollision name), c, []⟩ := by
  rw [create, Call.run_bind_of_error (run_requireVacant_of_taken h)]

theorem run_create_of_refused (h : c.contains name = false) {spec : Spec} {r : Refusal}
    (hr : (Pool.intern spec).run c.pool = ⟨.error r, c.pool, []⟩) : (create name spec).run c = ⟨.error r, c, []⟩ := by
  rw [create, Call.run_bind_of_ok (run_requireVacant_of_vacant h), Call.run_bind_of_error (run_inPool_of_error hr)]
  rfl

theorem run_create_of_accepted (h : c.contains name = false) {spec : Spec} {payload : Stored} {pool : Pool}
    {l : List Record} (hi : (Pool.intern spec).run c.pool = ⟨.ok payload, pool, l⟩) :
    (create name spec).run c =
      ⟨.ok ((c.withPool pool).enteredView name payload), (c.withPool pool).entered name payload,
        l ++ [.created payload.kind name]⟩ := by
  rw [create, Call.run_bind_of_ok (run_requireVacant_of_vacant h), Call.run_bind_of_ok (run_inPool_of_ok hi),
    run_enter_eq]
  rfl

/-! ## Clone -/

theorem run_clone_of_taken (h : c.contains name = true) (source : View) :
    (clone source name).run c = ⟨.error (.nameCollision name), c, []⟩ := by
  rw [clone, Call.run_bind_of_error (run_requireVacant_of_taken h)]

theorem run_clone_of_refused (h : c.contains name = false) {source : View} {r : Refusal}
    (hr : source.pool.checkAdoption c.pool source.entry.payload = .error r) :
    (clone source name).run c = ⟨.error r, c, []⟩ := by
  have hcheck : (Call.ofExcept (source.pool.checkAdoption c.pool source.entry.payload)).run c = ⟨.error r, c, []⟩ := by
    rw [Call.run_ofExcept, hr]
  rw [clone, Call.run_bind_of_ok (run_requireVacant_of_vacant h), Call.run_bind_of_ok (Call.run_get c),
    Call.run_bind_of_error hcheck]
  rfl

theorem run_clone_of_adopted (h : c.contains name = false) {source : View} {sourceName : String} {payload : Stored}
    {pool : Pool} (hcheck : source.pool.checkAdoption c.pool source.entry.payload = .ok ())
    (hname : source.name = .ok sourceName)
    (ha : (Pool.adopt source.pool source.entry.payload).run c.pool = ⟨.ok payload, pool, []⟩) :
    (clone source name).run c =
      ⟨.ok ((c.withPool pool).enteredView name payload), (c.withPool pool).entered name payload,
        [.cloned sourceName name, .created payload.kind name]⟩ := by
  have hchecked : (Call.ofExcept (source.pool.checkAdoption c.pool source.entry.payload)).run c = ⟨.ok (), c, []⟩ := by
    rw [Call.run_ofExcept, hcheck]
  have hnamed : (Call.ofExcept source.name).run (c.withPool pool) = ⟨.ok sourceName, c.withPool pool, []⟩ := by
    rw [Call.run_ofExcept, hname]
  rw [clone, Call.run_bind_of_ok (run_requireVacant_of_vacant h), Call.run_bind_of_ok (Call.run_get c),
    Call.run_bind_of_ok hchecked, Call.run_bind_of_ok (run_inPool_of_ok ha), Call.run_bind_of_ok hnamed,
    Call.run_bind_of_ok (Call.run_log _ _), run_enter_eq]
  rfl

/-! ## Duplicate, rename and remove -/

section Located

variable {source : String} {k : Symbol} {entry : Entry}

theorem run_duplicate_of_unknown (hk : c.symbolOf? source = none) (name : String) :
    (duplicate source name).run c = ⟨.error (.unknownSubobject source), c, []⟩ := by
  rw [duplicate, Call.run_bind_of_error (run_locate_of_none hk)]

theorem run_duplicate_of_taken (hk : c.symbolOf? source = some k) (he : c.entries.find? k = some entry)
    (h : c.contains name = true) : (duplicate source name).run c = ⟨.error (.nameCollision name), c, []⟩ := by
  rw [duplicate, Call.run_bind_of_ok (run_locate_of_some hk he), Call.run_bind_of_error (run_requireVacant_of_taken h)]
  rfl

theorem run_duplicate_of_found (hk : c.symbolOf? source = some k) (he : c.entries.find? k = some entry)
    (h : c.contains name = false) :
    (duplicate source name).run c =
      ⟨.ok (c.enteredView name entry.payload), c.entered name entry.payload,
        [.duplicated source name, .created entry.payload.kind name]⟩ := by
  rw [duplicate, Call.run_bind_of_ok (run_locate_of_some hk he), Call.run_bind_of_ok (run_requireVacant_of_vacant h),
    Call.run_bind_of_ok (Call.run_log _ _), run_enter_eq]
  rfl

theorem run_rename_of_unknown (hk : c.symbolOf? source = none) (name : String) :
    (rename source name).run c = ⟨.error (.unknownSubobject source), c, []⟩ := by
  rw [rename, Call.run_bind_of_error (run_locate_of_none hk)]

theorem run_rename_of_taken (hk : c.symbolOf? source = some k) (he : c.entries.find? k = some entry)
    (h : c.contains name = true) : (rename source name).run c = ⟨.error (.nameCollision name), c, []⟩ := by
  rw [rename, Call.run_bind_of_ok (run_locate_of_some hk he), Call.run_bind_of_error (run_requireVacant_of_taken h)]
  rfl

theorem run_rename_of_found (hk : c.symbolOf? source = some k) (he : c.entries.find? k = some entry)
    (h : c.contains name = false) :
    (rename source name).run c =
      ⟨.ok ((c.without k).enteredView name entry.payload), (c.without k).entered name entry.payload,
        [.renamed source name, .created entry.payload.kind name]⟩ := by
  rw [rename, Call.run_bind_of_ok (run_locate_of_some hk he), Call.run_bind_of_ok (run_requireVacant_of_vacant h),
    Call.run_bind_of_ok (run_extract_of_some he)]
  simp only [Call.run_bind_of_ok (Call.run_log _ _), run_enter_eq]
  rfl

theorem run_remove_of_unknown (hk : c.symbolOf? source = none) : (remove source).run c = ⟨.ok false, c, []⟩ := by
  rw [remove, Call.run_bind_of_ok (Call.run_get c)]
  simp [hk]

theorem run_remove_of_found (hk : c.symbolOf? source = some k) (he : c.entries.find? k = some entry) :
    (remove source).run c = ⟨.ok true, c.without k, [.removed source]⟩ := by
  rw [remove, Call.run_bind_of_ok (Call.run_get c)]
  simp only [hk, Call.run_bind_of_ok (run_extract_of_some he), Call.run_bind_of_ok (Call.run_log _ _)]
  rfl

end Located

end Catalog

end StateObject
