/-
  StateObject.Proofs.JournalText — reading a journal back from its texts.

  Names stand in the texts as they are, quotes, blanks and the words of other records
  included. What a record is can still be told, for what stands before the first name is
  different for each sort of record (`Apart`), and what stands before and after a name
  leaves only the name (`between?_eq_some_iff`). Where a text has two names, the second
  is known from the creation that follows, and then there is one way to read the first.

  - `created?_eq_some_iff`, `removed?_eq_some_iff`: a text is that of a creation or of a
    removal exactly if it reads so.
  - `replay` goes through the texts of a journal and keeps the list of names and kinds
    that they tell of. `step_created` and its neighbours say what it makes of each text,
    and `replay_append` how it goes on.
-/

import Mathlib.Data.List.Forall2
import StateObject.Record

namespace StateObject.JournalText

/-! ## Fronts and backs -/

/-- What stands between the front and the back of the text. -/
def between? (front back text : String) : Option String :=
  ((text.toList.dropPrefix? front.toList).bind (·.dropSuffix? back.toList)).map String.ofList

theorem between?_eq_some_iff {front back text s : String} :
    between? front back text = some s ↔ text = front ++ s ++ back := by
  simp only [between?, Option.map_eq_some_iff, Option.bind_eq_some_iff, List.dropPrefix?_eq_some_iff,
    List.dropSuffix?_eq_some_iff, beq_iff_eq]
  constructor
  · intro h
    obtain ⟨inner, ⟨tail, ⟨p, htext, rfl⟩, ⟨q, rfl, rfl⟩⟩, rfl⟩ := h
    rw [← String.toList_inj, htext]
    simp
  · intro h
    subst h
    exact ⟨s.toList, ⟨s.toList ++ back.toList, ⟨_, by simp, rfl⟩, ⟨_, rfl, rfl⟩⟩, String.ofList_toList⟩

/-- No text begins both ways. -/
def Apart (p q : String) : Prop := ¬ p.toList <+: q.toList ∧ ¬ q.toList <+: p.toList

instance (p q : String) : Decidable (Apart p q) := inferInstanceAs (Decidable (_ ∧ _))

theorem Apart.append {p q : String} (h : Apart p q) (x : String) : Apart (p ++ x) q := by
  rw [Apart, String.toList_append]
  constructor
  · intro hle
    exact h.1 ((List.prefix_append _ _).trans hle)
  · intro hle
    rcases List.prefix_or_prefix_of_prefix hle (List.prefix_append p.toList _) with hle | hle
    · exact h.2 hle
    · exact h.1 hle

theorem Apart.between?_eq_none {front p : String} (h : Apart front p) (back s rest : String) :
    between? front back (p ++ s ++ rest) = none := by
  rw [Option.eq_none_iff_forall_ne_some]
  intro t ht
  have htext := congrArg String.toList (between?_eq_some_iff.mp ht)
  simp only [String.toList_append, List.append_assoc] at htext
  rcases List.prefix_or_prefix_of_prefix (List.prefix_append front.toList _) ⟨_, htext⟩ with hle | hle
  · exact h.1 hle
  · exact h.2 hle

/-! ## Sorts of records -/

def creationFront (k : Kind) : String := "created " ++ k.name ++ " subobject '"

/-- The kind and the name in the text of a creation. -/
def created? (text : String) : Option (Kind × String) :=
  Kind.all.findSome? fun k => (between? (creationFront k) "'" text).map (k, ·)

/-- The name in the text of a removal. -/
def removed? (text : String) : Option String := between? "removed subobject '" "'" text

/-- The old name in the text of a renaming to `name`. -/
def renamed? (name text : String) : Option String := between? "renaming subobject '" ("' to '" ++ name ++ "'") text

/-- The source in the text of a copy with the name `name`. -/
def copied? (name text : String) : Option String :=
  between? "cloning subobject '" ("' as '" ++ name ++ "'") text <|>
    between? "duplicating subobject '" ("' as '" ++ name ++ "'") text

theorem append_regroup (a s b n c : String) : a ++ s ++ b ++ n ++ c = a ++ s ++ (b ++ n ++ c) := by
  simp only [String.append_assoc]

theorem text_renamed (source name : String) :
    (Record.renamed source name).text = "renaming subobject '" ++ source ++ ("' to '" ++ name ++ "'") :=
  append_regroup ..

theorem text_cloned (source name : String) :
    (Record.cloned source name).text = "cloning subobject '" ++ source ++ ("' as '" ++ name ++ "'") :=
  append_regroup ..

theorem text_duplicated (source name : String) :
    (Record.duplicated source name).text = "duplicating subobject '" ++ source ++ ("' as '" ++ name ++ "'") :=
  append_regroup ..

/-- The names of the kinds begin differently, so the kind is read before the name. -/
theorem creationFront_apart {j k : Kind} (h : j ≠ k) : Apart (creationFront j) (creationFront k) := by
  have hall : ∀ j ∈ Kind.all, ∀ k ∈ Kind.all, j ≠ k → Apart (creationFront j) (creationFront k) := by
    decide +kernel
  exact hall j j.mem_all k k.mem_all h

theorem created?_eq_some_iff {text : String} {kind : Kind} {name : String} :
    created? text = some (kind, name) ↔ text = (Record.created kind name).text := by
  have hsound : ∀ {k n}, created? text = some (k, n) → text = (Record.created k n).text := by
    intro k n h
    obtain ⟨j, -, hj⟩ := List.exists_of_findSome?_eq_some h
    obtain ⟨s, hs, heq⟩ := Option.map_eq_some_iff.mp hj
    cases heq
    exact between?_eq_some_iff.mp hs
  refine ⟨hsound, ?_⟩
  intro htext
  have hbetween : between? (creationFront kind) "'" text = some name := between?_eq_some_iff.mpr htext
  have hsome : (created? text).isSome := by
    rw [created?, List.findSome?_isSome_iff]
    exact ⟨kind, kind.mem_all, by rw [hbetween]; rfl⟩
  obtain ⟨⟨k, n⟩, hread⟩ := Option.isSome_iff_exists.mp hsome
  have htext' : text = creationFront k ++ n ++ "'" := hsound hread
  -- no text begins as the creations of two kinds do
  have hkind : k = kind := by
    by_contra hne
    have hnone := (creationFront_apart (Ne.symm hne)).between?_eq_none "'" n "'"
    rw [← htext', hbetween] at hnone
    cases hnone
  subst hkind
  have hname : between? (creationFront k) "'" text = some n := between?_eq_some_iff.mpr htext'
  rw [hread, Option.some.inj (hbetween.symm.trans hname)]

theorem removed?_eq_some_iff {text name : String} : removed? text = some name ↔ text = (Record.removed name).text :=
  between?_eq_some_iff

theorem created?_eq_none {front : String} (h : Apart "created " front) (s back : String) :
    created? (front ++ s ++ back) = none := by
  rw [created?, List.findSome?_eq_none_iff]
  intro k _
  have hk : Apart (creationFront k) front := (h.append k.name).append " subobject '"
  rw [hk.between?_eq_none]
  rfl

/-! ## Replay -/

/-- The names and the kinds after one more text. A copy or a renaming is only read along
    with the creation that has to come next. -/
def step (held : List (String × Kind)) (text : String) (next : Option String) : Option (List (String × Kind)) :=
  match created? text, removed? text with
  | some (kind, name), _ => some (held ++ [(name, kind)])
  | none, some name => some (held.eraseP (·.1 = name))
  | none, none => do
    let (_, name) ← next.bind created?
    match renamed? name text with
    | some source => some (held.eraseP (·.1 = source))
    | none => (copied? name text).map fun _ => held

/-- The names and the kinds after all of the texts, unless one of them cannot be read. -/
def replay (held : List (String × Kind)) : List String → Option (List (String × Kind))
  | [] => some held
  | text :: rest => do
    let held ← step held text rest.head?
    replay held rest

variable {held : List (String × Kind)}

theorem step_created (kind : Kind) (name : String) (next : Option String) :
    step held (Record.created kind name).text next = some (held ++ [(name, kind)]) := by
  rw [step, created?_eq_some_iff.mpr rfl]

theorem step_removed (name : String) (next : Option String) :
    step held (Record.removed name).text next = some (held.eraseP (·.1 = name)) := by
  have hcreated : created? (Record.removed name).text = none :=
    created?_eq_none (by decide +kernel) name "'"
  rw [step, hcreated, removed?_eq_some_iff.mpr rfl]

/-- A text that is neither a creation nor a removal is read with the name of the next. -/
theorem step_announced {front s back : String} (hc : Apart "created " front)
    (hr : Apart "removed subobject '" front) (kind : Kind) (name : String) :
    step held (front ++ s ++ back) (some (Record.created kind name).text) =
      match renamed? name (front ++ s ++ back) with
      | some source => some (held.eraseP (·.1 = source))
      | none => (copied? name (front ++ s ++ back)).map fun _ => held := by
  have hnext : created? (Record.created kind name).text = some (kind, name) := created?_eq_some_iff.mpr rfl
  have hremoved : removed? (front ++ s ++ back) = none := hr.between?_eq_none _ _ _
  rw [step, created?_eq_none hc, hremoved]
  simp only [Option.bind_some, hnext]
  rfl

theorem step_renamed (source : String) (kind : Kind) (name : String) :
    step held (Record.renamed source name).text (some (Record.created kind name).text) =
      some (held.eraseP (·.1 = source)) := by
  have hread : renamed? name (Record.renamed source name).text = some source :=
    between?_eq_some_iff.mpr (text_renamed source name)
  rw [text_renamed] at hread ⊢
  rw [step_announced (by decide +kernel) (by decide +kernel), hread]

theorem step_cloned (source : String) (kind : Kind) (name : String) :
    step held (Record.cloned source name).text (some (Record.created kind name).text) = some held := by
  have hread : between? "cloning subobject '" ("' as '" ++ name ++ "'") (Record.cloned source name).text = some source :=
    between?_eq_some_iff.mpr (text_cloned source name)
  have hrenamed : renamed? name (Record.cloned source name).text = none := by
    rw [text_cloned]
    exact Apart.between?_eq_none (by decide +kernel) _ _ _
  rw [text_cloned] at hread hrenamed ⊢
  rw [step_announced (by decide +kernel) (by decide +kernel), hrenamed, copied?, hread]
  rfl

theorem step_duplicated (source : String) (kind : Kind) (name : String) :
    step held (Record.duplicated source name).text (some (Record.created kind name).text) = some held := by
  have hread : between? "duplicating subobject '" ("' as '" ++ name ++ "'") (Record.duplicated source name).text =
      some source := between?_eq_some_iff.mpr (text_duplicated source name)
  have hother : ∀ (front back : String), Apart front "duplicating subobject '" →
      between? front back (Record.duplicated source name).text = none := by
    intro front back h
    rw [text_duplicated]
    exact h.between?_eq_none _ _ _
  have hrenamed : renamed? name (Record.duplicated source name).text = none := hother _ _ (by decide +kernel)
  have hcloned := hother "cloning subobject '" ("' as '" ++ name ++ "'") (by decide +kernel)
  rw [text_duplicated] at hread hrenamed hcloned ⊢
  rw [step_announced (by decide +kernel) (by decide +kernel), hrenamed, copied?, hread, hcloned]
  rfl

/-- A text that is read at the end of a journal is read so wherever it stands. -/
theorem step_of_last {held' : List (String × Kind)} {text : String} (h : step held text none = some held')
    (next : Option String) : step held text next = some held' := by
  rw [step] at h ⊢
  cases hc : created? text with
  | some _ =>
    rw [hc] at h
    exact h
  | none =>
    cases hr : removed? text with
    | some _ =>
      rw [hc, hr] at h
      exact h
    | none =>
      rw [hc, hr] at h
      cases h

theorem replay_append {held' : List (String × Kind)} {before : List String} (h : replay held before = some held')
    (rest : List String) : replay held (before ++ rest) = replay held' rest := by
  induction before generalizing held with
  | nil =>
    obtain rfl := Option.some.inj h
    rfl
  | cons text before ih =>
    obtain ⟨held₁, hstep, hreplay⟩ := Option.bind_eq_some_iff.mp h
    have hstep' : step held text (before ++ rest).head? = some held₁ := by
      cases before with
      -- the last text was read with nothing after it, so what follows makes no difference
      | nil => exact step_of_last hstep _
      | cons _ _ => exact hstep
    rw [List.cons_append, replay, hstep']
    exact ih hreplay

end StateObject.JournalText
