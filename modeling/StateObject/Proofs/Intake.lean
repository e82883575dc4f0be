/-
  StateObject.Proofs.Intake — what a pool takes in.

  `Spec.accept` says what a request is taken in as, from the limit on buffers and the
  bytes that each address stands for; `Contents.fits` says whether a copy is refused.
  The calls on a pool do just that:
  - `run_intern`: a refused request leaves the pool as it was and makes no record. An
    accepted one is stored as a payload that reads as what was accepted, and the pool
    keeps all that it had (`Takes`).
  - `run_adopt`: copying from another pool is taking in what the payload reads as there.
    It makes no record, and the addresses stand for the same bytes as before.
-/

import StateObject.Proofs.Copies
import StateObject.Proofs.Numbering
import StateObject.Proofs.Traversal
import StateObject.Pool

namespace StateObject

/-- What a request is taken in as. A root signature has the bytes that its address
    stands for, if it stands for any, whatever the slice holds by now. -/
def Spec.accept (limit : Nat) (seen : Nat → Option Bytes) : Spec → Except Refusal Contents
  | .stateObjectConfig raw =>
    match ConfigFlags.ofBits? raw with
    | some flags => .ok (.stateObjectConfig flags)
    | none => .error (.invalidFlags raw (ConfigFlags.unknownBits raw))
  | .rootSignature scope slice =>
    match seen slice.address with
    | some bytes => .ok (.rootSignature scope { data := bytes, size := bytes.length.toUInt32 })
    | none =>
      if slice.bytes.length < limit then
        .ok (.rootSignature scope { data := slice.bytes, size := slice.bytes.length.toUInt32 })
      else .error (.sizeExceeded slice.bytes.length limit)
  | .association a => .ok (.association a)
  | .shaderConfig c => .ok (.shaderConfig c)
  | .pipelineConfig c => .ok (.pipelineConfig c)
  | .hitGroup g => .ok (.hitGroup g)

/-- What is taken in has the kind and the names that were asked for. -/
theorem Spec.alike_of_accept {spec : Spec} {contents : Contents} {limit : Nat} {seen : Nat → Option Bytes}
    (h : spec.accept limit seen = .ok contents) : contents.kind = spec.kind ∧ contents.names = spec.names := by
  cases spec with
  | stateObjectConfig raw =>
    rw [accept] at h
    split at h <;> cases h
    exact ⟨rfl, rfl⟩
  | rootSignature scope slice =>
    rw [accept] at h
    split at h
    · cases h
      exact ⟨rfl, rfl⟩
    · split at h <;> cases h
      exact ⟨rfl, rfl⟩
  | _ =>
    cases h
    exact ⟨rfl, rfl⟩

/-- What the addresses stand for once the request was accepted: an address stands for
    the first bytes accepted from it. -/
def Spec.note (seen : Nat → Option Bytes) : Spec → Nat → Option Bytes
  | .rootSignature _ slice, a => if a = slice.address then (seen a).or (some slice.bytes) else seen a
  | _, a => seen a

/-- Whether a copy is taken in: its buffer has to be shorter than the limit. -/
def Contents.fits (limit : Nat) : Contents → Except Refusal Unit
  | .rootSignature _ r =>
    if r.data.length < limit then .ok () else .error (.sizeExceeded r.data.length limit)
  | _ => .ok ()

/-- The slot of a stored root signature. -/
def Stored.slot? : Stored → Option BufferSlot
  | .rootSignature _ r => some r.data
  | _ => none

theorem Stored.slot?_eq_none {payload : Stored} {k : Kind} (hk : payload.kind = k) (h : k.isRootSignature = false) :
    payload.slot? = none := by
  cases payload with
  | rootSignature scope r =>
    rw [← hk] at h
    cases h
  | _ => rfl

/-- The slot that the request's address has, if it is for a root signature. -/
def Spec.slot? (b : BufferStore) : Spec → Option BufferSlot
  | .rootSignature _ slice => b.find? slice
  | _ => none

/-- The records made of taking the request in. -/
def Spec.records (b : BufferStore) : Spec → List Record
  | .rootSignature _ slice =>
    match b.find? slice with
    | some k => [.alreadyStored slice.address k.index]
    | none => []
  | _ => []

namespace BufferStore

/-- The store once the request was accepted. -/
def noting (b : BufferStore) : Spec → BufferStore
  | .rootSignature _ slice => if (b.find? slice).isSome then b else b.withSlice slice
  | _ => b

/-- The store once the copy was taken in. -/
def copying (b : BufferStore) : Contents → BufferStore
  | .rootSignature _ r => b.withCopy r.data
  | _ => b

theorem Sound.bytesAt?_noting {b : BufferStore} (h : b.Sound) (spec : Spec) :
    (b.noting spec).bytesAt? = spec.note b.bytesAt? := by
  cases spec with
  | rootSignature scope slice =>
    funext a
    cases hk : b.find? slice with
    | some k =>
      obtain ⟨bytes, -, hseen⟩ := h.resolve?_find? hk
      by_cases ha : a = slice.address <;> simp [noting, Spec.note, hk, ha, hseen]
    | none =>
      have hseen := bytesAt?_of_find?_none hk
      simp only [noting, hk, Option.isSome_none, Bool.false_eq_true, if_false, h.bytesAt?_withSlice, Spec.note]
      by_cases ha : a = slice.address <;> simp [ha, hseen]
  | _ => rfl

@[simp] theorem origins_copying (b : BufferStore) (contents : Contents) : (b.copying contents).origins = b.origins := by
  cases contents <;> rfl

theorem Sound.bytesAt?_copying {b : BufferStore} (h : b.Sound) (contents : Contents) :
    (b.copying contents).bytesAt? = b.bytesAt? := by
  cases contents with
  | rootSignature scope r => exact funext (h.bytesAt?_withCopy r.data)
  | _ => rfl

end BufferStore

namespace Pool

structure Sound (pool : Pool) : Prop where
  symbols : pool.symbols.Sound
  buffers : pool.buffers.Sound

structure Grows (pool pool' : Pool) : Prop where
  symbols : pool.symbols.Grows pool'.symbols
  buffers : pool.buffers.Grows pool'.buffers

theorem Grows.refl (pool : Pool) : pool.Grows pool := ⟨.refl _, .refl _⟩

theorem Grows.trans {p q r : Pool} (h : p.Grows q) (h' : q.Grows r) : p.Grows r :=
  ⟨h.symbols.trans h'.symbols, h.buffers.trans h'.buffers⟩

theorem sound_ofLimit (limit : Nat) : (ofLimit limit).Sound :=
  ⟨SymbolTable.sound_empty, BufferStore.sound_ofLimit _⟩

/-! ## Reading -/

theorem resolveSignature_eq_ok_iff {pool : Pool} {r : RootSignature BufferSlot} {r' : RootSignature Bytes} :
    pool.resolveSignature r = .ok r' ↔ pool.buffers.resolve? r.data = some r'.data ∧ r.size = r'.size := by
  simp only [resolveSignature, bind_eq_ok_iff, pure_eq_ok_iff, BufferStore.resolve_eq_ok_iff]
  constructor
  · intro h
    obtain ⟨data, hd, rfl⟩ := h
    exact ⟨hd, rfl⟩
  · intro h
    obtain ⟨hd, hs⟩ := h
    exact ⟨r'.data, hd, by rw [hs]⟩

/-- A payload that reads in a pool reads the same in every later one. -/
theorem Grows.resolve {pool pool' : Pool} (h : pool.Grows pool') {payload : Stored} {contents : Contents}
    (hp : pool.resolve payload = .ok contents) : pool'.resolve payload = .ok contents := by
  rw [Pool.resolve, Payload.mapM_eq_ok_iff] at hp ⊢
  refine hp.imp (fun _ _ hx => hx) (fun _ _ hk => h.symbols.resolve hk) ?_
  intro r r' hr
  rw [resolveSignature_eq_ok_iff] at hr ⊢
  exact ⟨h.buffers.copies _ _ hr.1, hr.2⟩

theorem kind_of_resolve {pool : Pool} {payload : Stored} {contents : Contents}
    (h : pool.resolve payload = .ok contents) : payload.kind = contents.kind :=
  (Payload.mapM_eq_ok_iff.mp h).kind_eq

/-! ## Taking in -/

/-- `pool'` has taken the payload in, which reads there as `contents`, and keeps all
    that `pool` had. -/
structure Takes (pool : Pool) (payload : Stored) (contents : Contents) (pool' : Pool) : Prop where
  grows : pool.Grows pool'
  sound : pool'.Sound
  resolve : pool'.resolve payload = .ok contents
  /-- No strings came in but the names of the contents, and those in order. -/
  symbols : pool'.symbols = (pool.symbols.internAll contents.names).2

/-- What is already there needs no room. -/
theorem Sound.takes {pool : Pool} (h : pool.Sound) {payload : Stored} {contents : Contents}
    (hp : pool.resolve payload = .ok contents) : pool.Takes payload contents pool := by
  refine ⟨.refl pool, h, hp, ?_⟩
  rw [h.symbols.internAll_of_resolve (Payload.mapM_eq_ok_iff.mp hp).names]

theorem grows_symbols {pool : Pool} {t : SymbolTable} (h : pool.symbols.Grows t) :
    pool.Grows { pool with symbols := t } := ⟨h, .refl _⟩

theorem grows_buffers {pool : Pool} {b : BufferStore} (h : pool.buffers.Grows b) :
    pool.Grows { pool with buffers := b } := ⟨.refl _, h⟩

@[simp] theorem run_internName (s : String) (pool : Pool) :
    (internName s).run pool =
      ⟨.ok (pool.symbols.intern s).1, { pool with symbols := (pool.symbols.intern s).2 }, []⟩ := rfl

theorem run_mapM_internName (ss : List String) (pool : Pool) :
    (ss.mapM internName).run pool =
      ⟨.ok (pool.symbols.internAll ss).1, { pool with symbols := (pool.symbols.internAll ss).2 }, []⟩ := by
  induction ss generalizing pool with
  | nil => rfl
  | cons s ss ih =>
    rw [List.mapM_cons, Call.run_bind, run_internName]
    simp only [Call.run_bind, ih, Call.run_pure, List.nil_append]
    rfl

section Names

/-! Associations and hit groups hold names alone, so they are taken in the same way
    whatever is done with flags and signatures. -/

variable {φ φ' ρ ρ' : Type} (f : φ → Call Pool φ') (g : ρ → Call Pool ρ')

theorem run_mapM_association {pool : Pool} (h : pool.Sound) (a : Association String) :
    ∃ (a' : Association Symbol) (pool' : Pool),
      ((Payload.association a).mapM f internName g).run pool = ⟨.ok (.association a'), pool', []⟩ ∧
        pool.Takes (.association a') (.association a) pool' ∧ pool'.buffers = pool.buffers := by
  let t := (pool.symbols.intern a.target).2
  have ht : t.Sound := h.symbols.intern a.target
  have hall : t.Grows (t.internAll a.exports).2 := SymbolTable.grows_internAll _ _
  refine ⟨⟨(pool.symbols.intern a.target).1, (t.internAll a.exports).1⟩,
    { pool with symbols := (t.internAll a.exports).2 }, ?_, ⟨?_, ?_, ?_, rfl⟩, rfl⟩
  · simp only [Payload.mapM, Call.run_bind, run_internName, run_mapM_internName, Call.run_pure, List.append_nil]
    rfl
  · exact grows_symbols ((SymbolTable.grows_intern _ _).trans hall)
  · exact ⟨ht.internAll _, h.buffers⟩
  · exact Payload.mapM_eq_ok_iff.mpr
      (.association (hall.resolve (h.symbols.resolve_intern _)) (ht.forall₂_internAll _ (.refl _)))

theorem run_mapM_hitGroup {pool : Pool} (h : pool.Sound) (group : HitGroup String) :
    ∃ (group' : HitGroup Symbol) (pool' : Pool),
      ((Payload.hitGroup group).mapM f internName g).run pool = ⟨.ok (.hitGroup group'), pool', []⟩ ∧
        pool.Takes (.hitGroup group') (.hitGroup group) pool' ∧ pool'.buffers = pool.buffers := by
  let t := (pool.symbols.intern group.intersection).2
  let u := (t.intern group.anyHit).2
  let v := (u.intern group.closestHit).2
  have ht : t.Sound := h.symbols.intern _
  have hu : u.Sound := ht.intern _
  have htu : t.Grows u := SymbolTable.grows_intern _ _
  have huv : u.Grows v := SymbolTable.grows_intern _ _
  refine ⟨⟨(pool.symbols.intern group.intersection).1, (t.intern group.anyHit).1, (u.intern group.closestHit).1⟩,
    { pool with symbols := v }, ?_, ⟨?_, ?_, ?_, rfl⟩, rfl⟩
  · simp only [Payload.mapM, Call.run_bind, run_internName, Call.run_pure, List.append_nil]
    rfl
  · exact grows_symbols ((SymbolTable.grows_intern _ _).trans (htu.trans huv))
  · exact ⟨hu.intern _, h.buffers⟩
  · exact Payload.mapM_eq_ok_iff.mpr
      (.hitGroup ((htu.trans huv).resolve (h.symbols.resolve_intern _)) (huv.resolve (ht.resolve_intern _))
        (hu.resolve_intern _))

end Names

/-! ## Requests -/

theorem run_inBuffers_of_ok {α : Type} {call : Call BufferStore α} {pool : Pool} {a : α} {b : BufferStore}
    {l : List Record} (h : call.run pool.buffers = ⟨.ok a, b, l⟩) :
    (inBuffers call).run pool = ⟨.ok a, { pool with buffers := b }, l⟩ := by
  rw [inBuffers, Call.run_within, h]

theorem run_inBuffers_of_error {α : Type} {call : Call BufferStore α} {pool : Pool} {r : Refusal} {b : BufferStore}
    {l : List Record} (h : call.run pool.buffers = ⟨.error r, b, l⟩) :
    (inBuffers call).run pool = ⟨.error r, { pool with buffers := b }, l⟩ := by
  rw [inBuffers, Call.run_within, h]

theorem run_internSignature_of_some {pool : Pool} {slice : Slice} {k : BufferSlot} {bytes : Bytes}
    (hk : pool.buffers.find? slice = some k) (hb : pool.buffers.resolve? k = some bytes) :
    (internSignature slice).run pool =
      ⟨.ok { data := k, size := bytes.length.toUInt32 }, pool, [.alreadyStored slice.address k.index]⟩ := by
  have hr : pool.buffers.resolve k = .ok bytes := BufferStore.resolve_eq_ok_iff.mpr hb
  rw [internSignature, Call.run_bind_of_ok (run_inBuffers_of_ok (BufferStore.run_intern_of_some hk)),
    Call.run_bind_of_ok (Call.run_get _), hr]
  rfl

theorem run_internSignature_of_none {pool : Pool} {slice : Slice} (hk : pool.buffers.find? slice = none)
    (hl : slice.bytes.length < pool.buffers.limit) :
    (internSignature slice).run pool =
      ⟨.ok { data := ⟨pool.buffers.size⟩, size := slice.bytes.length.toUInt32 },
        { pool with buffers := pool.buffers.withSlice slice }, []⟩ := by
  have hi : (BufferStore.intern slice).run pool.buffers =
      ⟨.ok ⟨pool.buffers.size⟩, pool.buffers.withSlice slice, []⟩ :=
    (BufferStore.run_intern_of_none hk).trans (if_pos hl)
  have hr : (pool.buffers.withSlice slice).resolve ⟨pool.buffers.size⟩ = .ok slice.bytes :=
    BufferStore.resolve_eq_ok_iff.mpr (BufferStore.resolve?_withSlice _ _)
  rw [internSignature, Call.run_bind_of_ok (run_inBuffers_of_ok hi), Call.run_bind_of_ok (Call.run_get _), hr]
  rfl

theorem run_internSignature_of_long {pool : Pool} {slice : Slice} (hk : pool.buffers.find? slice = none)
    (hl : ¬ slice.bytes.length < pool.buffers.limit) :
    (internSignature slice).run pool =
      ⟨.error (.sizeExceeded slice.bytes.length pool.buffers.limit), pool, []⟩ := by
  have hi : (BufferStore.intern slice).run pool.buffers =
      ⟨.error (.sizeExceeded slice.bytes.length pool.buffers.limit), pool.buffers, []⟩ :=
    (BufferStore.run_intern_of_none hk).trans (if_neg hl)
  rw [internSignature, Call.run_bind_of_error (run_inBuffers_of_error hi)]

theorem resolve_rootSignature {pool : Pool} {scope : Scope} {k : BufferSlot} {bytes : Bytes} {size : UInt32}
    (h : pool.buffers.resolve? k = some bytes) :
    pool.resolve (.rootSignature scope { data := k, size }) = .ok (.rootSignature scope { data := bytes, size }) :=
  Payload.mapM_eq_ok_iff.mpr (.rootSignature scope (resolveSignature_eq_ok_iff.mpr ⟨h, rfl⟩))

theorem run_intern_rootSignature {pool : Pool} {scope : Scope} {slice : Slice} {r : RootSignature BufferSlot}
    {pool' : Pool} {l : List Record} (h : (internSignature slice).run pool = ⟨.ok r, pool', l⟩) :
    (intern (.rootSignature scope slice)).run pool = ⟨.ok (.rootSignature scope r), pool', l⟩ := by
  rw [intern, Payload.mapM, Call.run_bind_of_ok h]
  simp

/-- A request is taken in as `Spec.accept` says; one that is refused changes nothing and
    makes no record. -/
theorem run_intern {pool : Pool} (h : pool.Sound) (spec : Spec) :
    match spec.accept pool.buffers.limit pool.buffers.bytesAt? with
    | .error r => (intern spec).run pool = ⟨.error r, pool, []⟩
    | .ok contents => ∃ payload pool', (intern spec).run pool = ⟨.ok payload, pool', spec.records pool.buffers⟩ ∧
        pool.Takes payload contents pool' ∧ pool'.buffers = pool.buffers.noting spec ∧
        payload.slot? = spec.slot? pool'.buffers := by
  cases spec with
  | stateObjectConfig raw =>
    cases hf : ConfigFlags.ofBits? raw with
    | none =>
      have hrun : (checkFlags raw).run pool = ⟨.error (.invalidFlags raw (ConfigFlags.unknownBits raw)), pool, []⟩ := by
        rw [checkFlags, hf, Call.run_refuse]
      simp only [Spec.accept, hf]
      rw [intern, Payload.mapM, Call.run_bind_of_error hrun]
    | some flags =>
      have hrun : (checkFlags raw).run pool = ⟨.ok flags, pool, []⟩ := by
        rw [checkFlags, hf, Call.run_pure]
      simp only [Spec.accept, hf]
      refine ⟨.stateObjectConfig flags, pool, ?_, h.takes rfl, rfl, rfl⟩
      rw [intern, Payload.mapM, Call.run_bind_of_ok hrun]
      rfl
  | rootSignature scope slice =>
    cases hk : pool.buffers.find? slice with
    | some k =>
      obtain ⟨bytes, hb, hseen⟩ := h.buffers.resolve?_find? hk
      simp only [Spec.accept, hseen, Spec.records, hk]
      exact ⟨_, pool, run_intern_rootSignature (run_internSignature_of_some hk hb),
        h.takes (resolve_rootSignature hb), by simp [BufferStore.noting, hk], hk.symm⟩
    | none =>
      simp only [Spec.accept, BufferStore.bytesAt?_of_find?_none hk, Spec.records, hk]
      by_cases hl : slice.bytes.length < pool.buffers.limit
      · simp only [hl, if_true]
        have hnew : (pool.buffers.withSlice slice).find? slice = some ⟨pool.buffers.size⟩ := by
          rw [BufferStore.find?_withSlice, if_pos rfl]
        exact ⟨_, _, run_intern_rootSignature (run_internSignature_of_none hk hl),
          ⟨grows_buffers (BufferStore.grows_withSlice hk), ⟨h.symbols, h.buffers.withSlice slice⟩,
            resolve_rootSignature (BufferStore.resolve?_withSlice _ _), rfl⟩,
          by simp [BufferStore.noting, hk], hnew.symm⟩
      · simp only [hl, if_false]
        rw [intern, Payload.mapM, Call.run_bind_of_error (run_internSignature_of_long hk hl)]
  | association a =>
    obtain ⟨a', pool', hrun, htakes, hb⟩ := run_mapM_association checkFlags internSignature h a
    exact ⟨_, pool', hrun, htakes, hb, rfl⟩
  | shaderConfig c => exact ⟨.shaderConfig c, pool, rfl, h.takes rfl, rfl, rfl⟩
  | pipelineConfig c => exact ⟨.pipelineConfig c, pool, rfl, h.takes rfl, rfl, rfl⟩
  | hitGroup g =>
    obtain ⟨g', pool', hrun, htakes, hb⟩ := run_mapM_hitGroup checkFlags internSignature h g
    exact ⟨_, pool', hrun, htakes, hb, rfl⟩

/-! ## Copies -/

/-- Takes bytes in as a copy, under a size that was written before. -/
def addSignature (r : RootSignature Bytes) : Call Pool (RootSignature BufferSlot) := do
  let data ← inBuffers (BufferStore.addCopy r.data)
  pure { data, size := r.size }

/-- Copying a payload is taking in what it reads as. -/
theorem adopt_eq_of_resolve {source : Pool} {payload : Stored} {contents : Contents}
    (h : source.resolve payload = .ok contents) :
    adopt source payload = contents.mapM pure internName addSignature := by
  refine (Payload.mapM_eq_ok_iff.mp h).mapM_eq ?_ ?_ ?_
  · intro x y hx
    rw [pure_eq_ok_iff.mp hx]
  · intro k s hk
    rw [adoptName, hk]
    rfl
  · intro r r' hr
    obtain ⟨hd, hs⟩ := resolveSignature_eq_ok_iff.mp hr
    rw [adoptSignature, BufferStore.resolve_eq_ok_iff.mpr hd, hs]
    rfl

/-- The check before a copy sees what the copy would read. -/
theorem checkAdoption_eq_of_resolve {source target : Pool} {payload : Stored} {contents : Contents}
    (h : source.resolve payload = .ok contents) :
    source.checkAdoption target payload = contents.fits target.buffers.limit := by
  cases Payload.mapM_eq_ok_iff.mp h with
  | rootSignature scope hr =>
    obtain ⟨hd, -⟩ := resolveSignature_eq_ok_iff.mp hr
    rw [checkAdoption, BufferStore.resolve_eq_ok_iff.mpr hd]
    rfl
  | _ => rfl

theorem run_addSignature {pool : Pool} {r : RootSignature Bytes} (hl : r.data.length < pool.buffers.limit) :
    (addSignature r).run pool =
      ⟨.ok { data := ⟨pool.buffers.size⟩, size := r.size },
        { pool with buffers := pool.buffers.withCopy r.data }, []⟩ := by
  have ha : (BufferStore.addCopy r.data).run pool.buffers =
      ⟨.ok ⟨pool.buffers.size⟩, pool.buffers.withCopy r.data, []⟩ :=
    (BufferStore.run_addCopy _ _).trans (if_pos hl)
  rw [addSignature, Call.run_bind_of_ok (run_inBuffers_of_ok ha)]
  rfl

theorem run_mapM_addSignature {pool : Pool} (scope : Scope) {r : RootSignature Bytes}
    (hl : r.data.length < pool.buffers.limit) :
    ((Payload.rootSignature scope r : Contents).mapM pure internName addSignature).run pool =
      ⟨.ok (.rootSignature scope { data := ⟨pool.buffers.size⟩, size := r.size }),
        { pool with buffers := pool.buffers.withCopy r.data }, []⟩ := by
  rw [Payload.mapM, Call.run_bind_of_ok (run_addSignature hl)]
  rfl

theorem lt_limit_of_fits {limit : Nat} {scope : Scope} {r : RootSignature Bytes}
    (h : Contents.fits limit (.rootSignature scope r) = .ok ()) : r.data.length < limit := by
  by_cases hl : r.data.length < limit
  · exact hl
  · simp [Contents.fits, hl] at h

/-- A copy that passed the check is taken in without a record; the buffer of a root
    signature gets a slot of its own. -/
theorem run_adopt {pool source : Pool} (h : pool.Sound) {payload : Stored} {contents : Contents}
    (hc : source.resolve payload = .ok contents) (hfits : contents.fits pool.buffers.limit = .ok ()) :
    ∃ payload' pool', (adopt source payload).run pool = ⟨.ok payload', pool', []⟩ ∧
      pool.Takes payload' contents pool' ∧ pool'.buffers = pool.buffers.copying contents ∧
      payload'.slot? = payload.slot?.map fun _ => ⟨pool.buffers.size⟩ := by
  have hkind := kind_of_resolve hc
  rw [adopt_eq_of_resolve hc]
  cases contents with
  | stateObjectConfig flags =>
    exact ⟨.stateObjectConfig flags, pool, rfl, h.takes rfl, rfl, Stored.slot?_eq_none hkind rfl ▸ rfl⟩
  | rootSignature scope r =>
    have hl := lt_limit_of_fits hfits
    refine ⟨_, _, run_mapM_addSignature scope hl,
      ⟨grows_buffers (BufferStore.grows_withCopy _ r.data), ⟨h.symbols, h.buffers.withCopy r.data⟩,
        resolve_rootSignature (BufferStore.resolve?_withCopy _ _), rfl⟩, rfl, ?_⟩
    cases payload <;> cases hkind
    rfl
  | association a =>
    obtain ⟨a', pool', hrun, htakes, hb⟩ := run_mapM_association pure addSignature h a
    exact ⟨_, pool', hrun, htakes, hb, Stored.slot?_eq_none hkind rfl ▸ rfl⟩
  | shaderConfig c => exact ⟨.shaderConfig c, pool, rfl, h.takes rfl, rfl, Stored.slot?_eq_none hkind rfl ▸ rfl⟩
  | pipelineConfig c => exact ⟨.pipelineConfig c, pool, rfl, h.takes rfl, rfl, Stored.slot?_eq_none hkind rfl ▸ rfl⟩
  | hitGroup g =>
    obtain ⟨g', pool', hrun, htakes, hb⟩ := run_mapM_hitGroup pure addSignature h g
    exact ⟨_, pool', hrun, htakes, hb, Stored.slot?_eq_none hkind rfl ▸ rfl⟩

end Pool

end StateObject
