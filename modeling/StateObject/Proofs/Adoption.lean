/-
  StateObject.Proofs.Adoption — the check before a copy foretells the copy.

  A payload is `InBounds` of a pool if every slot that it has is one of the pool's. That is
  all it takes to be read there (`InBounds.exists_resolve`), so of the pool that a copy comes
  from nothing else is asked.

  - `Extends`: strings and buffers were put in at the end, and addresses have the slots that
    they had.
  - `adopt_cases`: check and copy measure the same bytes against the same limit. Both refuse,
    and the copy has left the target as it was, or the check passes and the target takes in
    what the payload reads as in the source.
  - `adoption_is_foretold`: what follows for every payload and every two pools.
-/

import StateObject.Proofs.Intake

namespace StateObject

theorem prefix_of_getElem? {α : Type} {xs ys : Array α} (h : ∀ (i : Nat) x, xs[i]? = some x → ys[i]? = some x) :
    xs.toList <+: ys.toList := by
  refine List.prefix_iff_getElem?.mpr ?_
  intro i hi
  rw [Array.getElem?_toList]
  refine h i _ ?_
  rw [← Array.getElem?_toList]
  exact List.getElem?_eq_getElem hi

theorem SymbolTable.Grows.prefix_strings {t u : SymbolTable} (h : t.Grows u) :
    t.strings.toList <+: u.strings.toList :=
  prefix_of_getElem? fun i s hs => h ⟨i⟩ s hs

theorem BufferStore.Grows.prefix_copies {b c : BufferStore} (h : b.Grows c) :
    b.copies.toList <+: c.copies.toList :=
  prefix_of_getElem? fun i bytes hb => h.copies ⟨i⟩ bytes hb

namespace Pool

variable {pool pool' source target : Pool} {payload : Stored} {contents : Contents}

/-- Every slot of the payload is one of the pool's. -/
structure InBounds (pool : Pool) (payload : Stored) : Prop where
  names : ∀ k ∈ payload.names, k.index < pool.symbols.size
  buffer : ∀ k ∈ payload.slot?, k.index < pool.buffers.size

/-- `pool'` is `pool` with strings and buffers put in at the end, and nothing else. -/
structure Extends (pool pool' : Pool) : Prop where
  strings : pool.symbols.strings.toList <+: pool'.symbols.strings.toList
  copies : pool.buffers.copies.toList <+: pool'.buffers.copies.toList
  /-- No address has lost its slot, and none has been given one. -/
  origins : pool'.buffers.origins = pool.buffers.origins
  limit : pool'.buffers.limit = pool.buffers.limit

/-! ## Slots in bounds -/

theorem InBounds.exists_resolve (h : pool.InBounds payload) : ∃ contents, pool.resolve payload = .ok contents := by
  obtain ⟨ss, hss⟩ := exists_forall₂ fun k hk => SymbolTable.exists_resolve_of_lt (h.names k hk)
  cases payload with
  | stateObjectConfig flags => exact ⟨.stateObjectConfig flags, rfl⟩
  | rootSignature scope r =>
    have hlt : r.data.index < pool.buffers.copies.size := h.buffer r.data rfl
    exact ⟨_, resolve_rootSignature (Array.getElem?_eq_getElem hlt)⟩
  | association a =>
    cases hss with
    | cons ht hes => exact ⟨.association ⟨_, _⟩, Payload.mapM_eq_ok_iff.mpr (.association ht hes)⟩
  | shaderConfig config => exact ⟨.shaderConfig config, rfl⟩
  | pipelineConfig config => exact ⟨.pipelineConfig config, rfl⟩
  | hitGroup g =>
    obtain _ | ⟨hi, _ | ⟨ha, _ | ⟨hc, -⟩⟩⟩ := hss
    exact ⟨.hitGroup ⟨_, _, _⟩, Payload.mapM_eq_ok_iff.mpr (.hitGroup hi ha hc)⟩

theorem inBounds_of_resolve (h : pool.resolve payload = .ok contents) : pool.InBounds payload := by
  have hrel := Payload.mapM_eq_ok_iff.mp h
  constructor
  · intro k hk
    obtain ⟨s, -, hs⟩ := forall₂_exists_right hrel.names hk
    exact SymbolTable.lt_size_of_resolve hs
  · intro k hk
    cases hrel with
    | rootSignature scope hr =>
      obtain ⟨hd, -⟩ := resolveSignature_eq_ok_iff.mp hr
      cases hk
      exact BufferStore.lt_size_of_resolve? hd
    | _ => cases hk

/-! ## Check and copy -/

theorem Takes.extends (h : pool.Takes payload contents pool')
    (hb : pool'.buffers = pool.buffers.copying contents) : pool.Extends pool' := by
  refine ⟨h.grows.symbols.prefix_strings, h.grows.buffers.prefix_copies, ?_, h.grows.buffers.limit⟩
  rw [hb, BufferStore.origins_copying]

theorem run_addSignature_of_long {r : RootSignature Bytes} (hl : ¬ r.data.length < pool.buffers.limit) :
    (addSignature r).run pool = ⟨.error (.sizeExceeded r.data.length pool.buffers.limit), pool, []⟩ := by
  have ha : (BufferStore.addCopy r.data).run pool.buffers =
      ⟨.error (.sizeExceeded r.data.length pool.buffers.limit), pool.buffers, []⟩ :=
    (BufferStore.run_addCopy _ _).trans (if_neg hl)
  rw [addSignature, Call.run_bind_of_error (run_inBuffers_of_error ha)]

/-- A copy that the check turns down would have been refused, before it put anything in. -/
theorem run_adopt_of_refused (hc : source.resolve payload = .ok contents) {r : Refusal}
    (hfits : contents.fits target.buffers.limit = .error r) :
    (adopt source payload).run target = ⟨.error r, target, []⟩ := by
  rw [adopt_eq_of_resolve hc]
  cases contents with
  | rootSignature scope s =>
    by_cases hl : s.data.length < target.buffers.limit
    · simp [Contents.fits, hl] at hfits
    · simp only [Contents.fits, hl, if_false, Except.error.injEq] at hfits
      rw [Payload.mapM, Call.run_bind_of_error (run_addSignature_of_long hl), hfits]
  | _ => cases hfits

theorem adopt_cases (ht : target.Sound) (hc : source.resolve payload = .ok contents) :
    (∃ r, source.checkAdoption target payload = .error r ∧
      (adopt source payload).run target = ⟨.error r, target, []⟩) ∨
    (source.checkAdoption target payload = .ok () ∧ ∃ copy pool',
      (adopt source payload).run target = ⟨.ok copy, pool', []⟩ ∧ target.Takes copy contents pool' ∧
        target.Extends pool') := by
  have hcheck : source.checkAdoption target payload = contents.fits target.buffers.limit :=
    checkAdoption_eq_of_resolve hc
  cases hfits : contents.fits target.buffers.limit with
  | error r => exact .inl ⟨r, hcheck.trans hfits, run_adopt_of_refused hc hfits⟩
  | ok _ =>
    obtain ⟨copy, pool', hrun, htakes, hb, -⟩ := run_adopt ht hc hfits
    exact .inr ⟨hcheck.trans hfits, copy, pool', hrun, htakes, htakes.extends hb⟩

/-- Of a payload whose slots the source has, the check says what the copy does: whether it
    is refused, and with what words. A refused copy changes nothing. Any other copy only
    puts strings and buffers in at the end, and hands back a payload of the same kind whose
    slots the target has by then; it reads there as the payload that was copied reads in the
    source, names, bytes and size alike. -/
theorem adoption_is_foretold (hp : source.InBounds payload) (ht : target.Sound) :
    let check := source.checkAdoption target payload
    let done := (adopt source payload).run target
    (check = .ok () ↔ ∃ copy, done.result = .ok copy) ∧ (∀ r, check = .error r ↔ done.result = .error r) ∧
      (∀ r, done.result = .error r → done.state = target) ∧
      (check = .ok () → ∃ copy, done.result = .ok copy ∧ target.Extends done.state ∧ done.state.Sound ∧
        copy.kind = payload.kind ∧ done.state.InBounds copy ∧
          ∃ contents, source.resolve payload = .ok contents ∧ done.state.resolve copy = .ok contents) := by
  intro check done
  obtain ⟨contents, hc⟩ := hp.exists_resolve
  rcases adopt_cases ht hc with ⟨r, hcheck, hrun⟩ | ⟨hcheck, copy, pool', hrun, htakes, hextends⟩
  · have hresult : done.result = .error r := by simp only [done, hrun]
    have hstate : done.state = target := by simp only [done, hrun]
    rw [show check = _ from hcheck, hresult]
    exact ⟨by simp, by simp, fun _ _ => hstate, by simp⟩
  · have hkind : copy.kind = payload.kind := (kind_of_resolve htakes.resolve).trans (kind_of_resolve hc).symm
    have hin : pool'.InBounds copy := inBounds_of_resolve htakes.resolve
    rw [show check = _ from hcheck, show done = _ from hrun]
    refine ⟨by simp, by simp, by simp, ?_⟩
    intro _
    exact ⟨copy, rfl, hextends, htakes.sound, hkind, hin, contents, hc, htakes.resolve⟩

/-- The target of "lights" has the first slot where it is read and the second where it is
    copied to, and the export that is listed twice is known there. Three bytes are too many
    for a limit of 3. -/
theorem adoption_of_association_and_signature :
    let given := ((intern (.association ⟨"lights", ["hit", "hit"]⟩)).run {}).state
    let source := ((intern (.rootSignature .globalScope ⟨64, [1, 2, 3]⟩)).run given).state
    let target := ((internName "hit").run (ofLimit 3)).state
    let a : Stored := .association ⟨⟨0⟩, [⟨1⟩, ⟨1⟩]⟩
    let r : Stored := .rootSignature .globalScope ⟨⟨0⟩, 3⟩
    source.InBounds a ∧ source.InBounds r ∧ target.Sound ∧
      target.Extends ((adopt source a).run target).state ∧
      ((adopt source a).run target).result = .ok (.association ⟨⟨1⟩, [⟨0⟩, ⟨0⟩]⟩) ∧
      ((adopt source r).run target).result = .error (.sizeExceeded 3 3) ∧
      ((adopt source r).run target).state = target := by
  intro given source target a r
  have ha : source.InBounds a := ⟨by decide +kernel, by decide +kernel⟩
  have hr : source.InBounds r := ⟨by decide +kernel, by decide +kernel⟩
  have ht : target.Sound := ⟨(sound_ofLimit 3).symbols.intern "hit", (sound_ofLimit 3).buffers⟩
  obtain ⟨-, -, -, hcopy⟩ := adoption_is_foretold ha ht
  obtain ⟨_, -, hextends, -⟩ := hcopy rfl
  obtain ⟨-, hsame, hstate, -⟩ := adoption_is_foretold hr ht
  have hlong : ((adopt source r).run target).result = .error (.sizeExceeded 3 3) :=
    (hsame _).mp (by decide +kernel)
  exact ⟨ha, hr, ht, hextends, by decide +kernel, hlong, hstate _ hlong⟩

end Pool

end StateObject
