/-
  StateObject.Proofs.BufferHistory — a buffer store and what was done to it.

  A family of stores starts from an empty one of any limit. Its members are called and
  copied in any order. A slice carries what its buffer holds when the call is made, so
  slices from one address may differ in length and in bytes.

  - `firstSlot?`: the slot that the first slice interned from an address was given.
  - `Captured`: a slot was made, in the course of a history, of these bytes.
  - `Ends`: the ways a call can end, and `Accounts.run`: each keeps store and history in
    step.
  - `Displaced.run`: a store with one copy more replies to every call as the store without
    it, but that slots made since are one further on.
  - `buffers_follow_history`: whatever was done, look-ups, checks and interning answer by
    the first slices alone, and every slot reads as what it was made of.
-/

import StateObject.Proofs.Copies
import StateObject.Proofs.Lineages

namespace StateObject

inductive StoreCall where
  | intern (slice : Slice)
  | addCopy (bytes : Bytes)
  | find (slice : Slice)
  | check (slice : Slice)
  | checkLength (length : Nat)
  deriving DecidableEq

inductive StoreReply where
  | slot (k : Except Refusal BufferSlot)
  | found (k : Option BufferSlot)
  | checked (result : Except Refusal Unit)
  deriving DecidableEq

def StoreCall.run : StoreCall → BufferStore → StoreReply × BufferStore
  | intern slice, b => (.slot ((BufferStore.intern slice).run b).result, ((BufferStore.intern slice).run b).state)
  | addCopy bytes, b => (.slot ((BufferStore.addCopy bytes).run b).result, ((BufferStore.addCopy bytes).run b).state)
  | find slice, b => (.found (b.find? slice), b)
  | check slice, b => (.checked (b.check slice), b)
  | checkLength length, b => (.checked (b.checkLength length), b)

/-- What the call would have stored. -/
def StoreCall.bytes? : StoreCall → Option Bytes
  | intern slice => some slice.bytes
  | addCopy bytes => some bytes
  | _ => none

/-- Where the slot is, once a copy has been put in at place `n`. -/
def Slot.past {α : Type} (n : Nat) (k : Slot α) : Slot α := if k.index < n then k else ⟨k.index + 1⟩

/-- The slot that is handed out. -/
def StoreReply.slot? : StoreReply → Option BufferSlot
  | slot (.ok k) => some k
  | found k => k
  | _ => none

def StoreReply.past (n : Nat) : StoreReply → StoreReply
  | slot k => slot (k.map (·.past n))
  | found k => found (k.map (·.past n))
  | checked result => checked result

abbrev StoreLineage := Lineage BufferStore StoreCall StoreReply

abbrev StoreHistory := List (StoreCall × StoreReply)

namespace BufferStore

variable {b c : BufferStore}

/-! ## Histories -/

/-- The slot handed out for the first slice that was interned from the address. -/
def firstSlot? (history : StoreHistory) (address : Nat) : Option BufferSlot :=
  history.findSome? fun
    | (.intern slice, .slot (.ok k)) => if slice.address = address then some k else none
    | _ => none

/-- In the course of the history the slot was made, when the bytes were these. -/
inductive Captured : StoreHistory → BufferSlot → Bytes → Prop
  | copy (history : StoreHistory) (bytes : Bytes) (k : BufferSlot) :
      Captured (history ++ [(.addCopy bytes, .slot (.ok k))]) k bytes
  /-- No slice from its address was interned before. -/
  | slice (history : StoreHistory) (slice : Slice) (k : BufferSlot) : firstSlot? history slice.address = none →
      Captured (history ++ [(.intern slice, .slot (.ok k))]) k slice.bytes
  | later (history : StoreHistory) (event : StoreCall × StoreReply) {k : BufferSlot} {bytes : Bytes} :
      Captured history k bytes → Captured (history ++ [event]) k bytes

theorem firstSlot?_append (history : StoreHistory) (event : StoreCall × StoreReply) (address : Nat) :
    firstSlot? (history ++ [event]) address = (firstSlot? history address).or (firstSlot? [event] address) :=
  List.findSome?_append

theorem firstSlot?_intern (slice : Slice) (k : BufferSlot) (address : Nat) :
    firstSlot? [(.intern slice, .slot (.ok k))] address = if slice.address = address then some k else none := by
  rw [firstSlot?, List.findSome?_singleton]

/-- A call that hands no slot out is not the first from any address. -/
theorem firstSlot?_of_quiet {reply : StoreReply} (h : reply.slot? = none) (call : StoreCall) (address : Nat) :
    firstSlot? [(call, reply)] address = none := by
  rcases reply with ⟨_ | k⟩ | _ | _
  · cases call <;> rfl
  · cases h
  · cases call <;> rfl
  · cases call <;> rfl

theorem mem_of_firstSlot? {history : StoreHistory} {address : Nat} {k : BufferSlot}
    (h : firstSlot? history address = some k) : ∃ slice, (.intern slice, .slot (.ok k)) ∈ history := by
  obtain ⟨⟨call, reply⟩, hmem, hevent⟩ := List.exists_of_findSome?_eq_some h
  split at hevent
  · rename_i slice j hpair
    split at hevent
    · obtain rfl := Option.some.inj hevent
      rw [hpair] at hmem
      exact ⟨slice, hmem⟩
    · cases hevent
  · cases hevent

/-- What the last call made, or what was made before it. -/
theorem Captured.cases_append {history : StoreHistory} {call : StoreCall} {reply : StoreReply} {k : BufferSlot}
    {bytes : Bytes} (h : Captured (history ++ [(call, reply)]) k bytes) :
    Captured history k bytes ∨ reply = .slot (.ok k) ∧ call.bytes? = some bytes ∧
      ∀ slice, call = .intern slice → firstSlot? history slice.address = none := by
  generalize hwhole : history ++ [(call, reply)] = whole at h
  cases h with
  | copy history' bytes k =>
    obtain ⟨rfl, hlast⟩ := List.append_inj' hwhole rfl
    obtain ⟨rfl, rfl⟩ := Prod.mk.inj (List.singleton_inj.mp hlast)
    exact .inr ⟨rfl, rfl, fun _ e => by cases e⟩
  | slice history' slice k hnone =>
    obtain ⟨rfl, hlast⟩ := List.append_inj' hwhole rfl
    obtain ⟨rfl, rfl⟩ := Prod.mk.inj (List.singleton_inj.mp hlast)
    refine .inr ⟨rfl, rfl, ?_⟩
    rintro _ ⟨⟩
    exact hnone
  | later history' event hk =>
    obtain ⟨rfl, -⟩ := List.append_inj' hwhole rfl
    exact .inl hk

/-! ## How a call ends -/

/-- `Ends b call reply c`: the call replies so and leaves the store `c`. -/
inductive Ends (b : BufferStore) : StoreCall → StoreReply → BufferStore → Prop
  | quiet (call : StoreCall) (reply : StoreReply) : reply.slot? = none → Ends b call reply b
  | found (slice : Slice) (k : BufferSlot) : b.find? slice = some k → Ends b (.find slice) (.found (some k)) b
  | hit (slice : Slice) (k : BufferSlot) : b.find? slice = some k → Ends b (.intern slice) (.slot (.ok k)) b
  | slice (slice : Slice) : b.find? slice = none → slice.bytes.length < b.limit →
      Ends b (.intern slice) (.slot (.ok ⟨b.size⟩)) (b.withSlice slice)
  | copy (bytes : Bytes) : bytes.length < b.limit →
      Ends b (.addCopy bytes) (.slot (.ok ⟨b.size⟩)) (b.withCopy bytes)

theorem ends_run (b : BufferStore) (call : StoreCall) : Ends b call (call.run b).1 (call.run b).2 := by
  cases call with
  | intern slice =>
    simp only [StoreCall.run]
    cases hk : b.find? slice with
    | some k =>
      rw [run_intern_of_some hk]
      exact .hit slice k hk
    | none =>
      rw [run_intern_of_none hk]
      split
      · exact .slice slice hk ‹_›
      · exact .quiet _ _ rfl
  | addCopy bytes =>
    simp only [StoreCall.run]
    rw [run_addCopy]
    split
    · exact .copy bytes ‹_›
    · exact .quiet _ _ rfl
  | find slice =>
    simp only [StoreCall.run]
    cases hk : b.find? slice with
    | some k => exact .found slice k hk
    | none => exact .quiet _ _ rfl
  | _ => exact .quiet _ _ rfl

theorem Ends.grows {call : StoreCall} {reply : StoreReply} (h : Ends b call reply c) : b.Grows c := by
  cases h with
  | slice slice hnone _ => exact grows_withSlice hnone
  | copy bytes _ => exact grows_withCopy b bytes
  | _ => exact .refl b

/-- What the store replies to the calls, made one after the other. -/
def replies (b : BufferStore) : List StoreCall → List StoreReply
  | [] => []
  | call :: calls => (call.run b).1 :: (call.run b).2.replies calls

/-! ## Store and history -/

/-- The store is what the history says. -/
structure Accounts (b : BufferStore) (limit : Nat) (history : StoreHistory) : Prop where
  sound : b.Sound
  limit_eq : b.limit = limit
  origins : ∀ address, b.origins[address]? = (firstSlot? history address).map (·.index)
  captured : ∀ k bytes, Captured history k bytes → b.resolve? k = some bytes
  /-- A slot that was handed out had been made, by that call or before it. -/
  handedOut : ∀ call reply k, (call, reply) ∈ history → reply.slot? = some k → ∃ bytes, Captured history k bytes

theorem accounts_ofLimit (limit : Nat) : (ofLimit limit).Accounts limit [] := by
  refine ⟨sound_ofLimit limit, rfl, ?_, ?_, ?_⟩
  · intro address
    simp [ofLimit, firstSlot?]
  · intro k bytes h
    generalize hnone : ([] : StoreHistory) = history at h
    cases h <;> simp at hnone
  · intro call reply k h
    cases h

namespace Accounts

variable {limit : Nat} {history : StoreHistory}

theorem find?_eq (h : b.Accounts limit history) (slice : Slice) : b.find? slice = firstSlot? history slice.address := by
  rw [find?, h.origins, Option.map_map]
  exact Option.map_id'

/-- The slot of an address was handed out for the first slice from it. -/
theorem captured_of_find? (h : b.Accounts limit history) {slice : Slice} {k : BufferSlot}
    (hk : b.find? slice = some k) : ∃ bytes, Captured history k bytes := by
  rw [h.find?_eq] at hk
  obtain ⟨first, hfirst⟩ := mem_of_firstSlot? hk
  exact h.handedOut _ _ k hfirst rfl

theorem handedOut_append (h : b.Accounts limit history) {call : StoreCall} {reply : StoreReply}
    (hlast : ∀ k, reply.slot? = some k → ∃ bytes, Captured (history ++ [(call, reply)]) k bytes) :
    ∀ call' reply' k, (call', reply') ∈ history ++ [(call, reply)] → reply'.slot? = some k →
      ∃ bytes, Captured (history ++ [(call, reply)]) k bytes := by
  intro call' reply' k hmem hk
  rcases List.mem_append.mp hmem with hmem | hmem
  · obtain ⟨bytes, hmade⟩ := h.handedOut call' reply' k hmem hk
    exact ⟨bytes, .later _ _ hmade⟩
  · obtain ⟨-, rfl⟩ := Prod.mk.inj (List.mem_singleton.mp hmem)
    exact hlast k hk

/-- A call that made no slot, and is the first from no address. -/
theorem same (h : b.Accounts limit history) {call : StoreCall} {reply : StoreReply}
    (hfirst : ∀ address, firstSlot? (history ++ [(call, reply)]) address = firstSlot? history address)
    (hmade : ∀ k bytes, Captured (history ++ [(call, reply)]) k bytes → Captured history k bytes)
    (hold : ∀ k, reply.slot? = some k → ∃ slice, b.find? slice = some k) :
    b.Accounts limit (history ++ [(call, reply)]) := by
  refine ⟨h.sound, h.limit_eq, ?_, ?_, h.handedOut_append ?_⟩
  · intro address
    rw [hfirst, h.origins]
  · intro k bytes hk
    exact h.captured k bytes (hmade k bytes hk)
  · intro k hk
    obtain ⟨slice, hfound⟩ := hold k hk
    obtain ⟨bytes, hbefore⟩ := h.captured_of_find? hfound
    exact ⟨bytes, .later _ _ hbefore⟩

theorem quiet (h : b.Accounts limit history) {reply : StoreReply} (hreply : reply.slot? = none) (call : StoreCall) :
    b.Accounts limit (history ++ [(call, reply)]) := by
  refine h.same ?_ ?_ ?_
  · intro address
    rw [firstSlot?_append, firstSlot?_of_quiet hreply, Option.or_none]
  · intro k bytes hk
    rcases hk.cases_append with hk | ⟨rfl, -⟩
    · exact hk
    · cases hreply
  · intro k hk
    rw [hreply] at hk
    cases hk

theorem found (h : b.Accounts limit history) {slice : Slice} {k : BufferSlot} (hk : b.find? slice = some k) :
    b.Accounts limit (history ++ [(.find slice, .found (some k))]) := by
  refine h.same ?_ ?_ ?_
  · intro address
    rw [firstSlot?_append]
    exact Option.or_none
  · intro j bytes hj
    rcases hj.cases_append with hj | ⟨hslot, -⟩
    · exact hj
    · cases hslot
  · intro j hj
    exact ⟨slice, hk.trans hj⟩

/-- A slice from an address that has a slot. -/
theorem hit (h : b.Accounts limit history) {slice : Slice} {k : BufferSlot} (hk : b.find? slice = some k) :
    b.Accounts limit (history ++ [(.intern slice, .slot (.ok k))]) := by
  have hfirst : firstSlot? history slice.address = some k := by rw [← h.find?_eq, hk]
  refine h.same ?_ ?_ ?_
  · intro address
    rw [firstSlot?_append, firstSlot?_intern]
    by_cases ha : slice.address = address
    · rw [← ha, hfirst]
      rfl
    · rw [if_neg ha, Option.or_none]
  · intro j bytes hj
    rcases hj.cases_append with hj | ⟨-, -, hnone⟩
    · exact hj
    · rw [hnone slice rfl] at hfirst
      cases hfirst
  · intro j hj
    exact ⟨slice, hk.trans hj⟩

/-- A call that made a slot, past all those that there were. -/
theorem made (h : b.Accounts limit history) {call : StoreCall} {bytes : Bytes} (hbytes : call.bytes? = some bytes)
    (hmade : Captured (history ++ [(call, .slot (.ok ⟨b.size⟩))]) ⟨b.size⟩ bytes) (hsound : c.Sound)
    (hgrown : b.Grows c) (hread : c.resolve? ⟨b.size⟩ = some bytes)
    (horigins : ∀ address, c.origins[address]? =
      b.origins[address]?.or ((firstSlot? [(call, .slot (.ok ⟨b.size⟩))] address).map (·.index))) :
    c.Accounts limit (history ++ [(call, .slot (.ok ⟨b.size⟩))]) := by
  refine ⟨hsound, hgrown.limit.trans h.limit_eq, ?_, ?_, h.handedOut_append ?_⟩
  · intro address
    rw [horigins, h.origins, firstSlot?_append, Option.map_or]
  · intro k bytes' hk
    rcases hk.cases_append with hk | ⟨hslot, hbytes', -⟩
    · exact hgrown.copies k bytes' (h.captured k bytes' hk)
    · cases hslot
      rw [hread, ← hbytes, hbytes']
  · intro k hk
    obtain rfl := Option.some.inj hk
    exact ⟨bytes, hmade⟩

theorem withCopy (h : b.Accounts limit history) (bytes : Bytes) :
    (b.withCopy bytes).Accounts limit (history ++ [(.addCopy bytes, .slot (.ok ⟨b.size⟩))]) := by
  refine h.made rfl (.copy history bytes ⟨b.size⟩) (h.sound.withCopy bytes) (grows_withCopy b bytes)
    (resolve?_withCopy b bytes) ?_
  intro address
  exact (Option.or_none).symm

theorem withSlice (h : b.Accounts limit history) {slice : Slice} (hnone : b.find? slice = none) :
    (b.withSlice slice).Accounts limit (history ++ [(.intern slice, .slot (.ok ⟨b.size⟩))]) := by
  have hfirst : firstSlot? history slice.address = none := by rw [← h.find?_eq, hnone]
  refine h.made rfl (.slice history slice ⟨b.size⟩ hfirst) (h.sound.withSlice slice) (grows_withSlice hnone)
    (resolve?_withSlice b slice) ?_
  intro address
  rw [origins_withSlice, firstSlot?_intern]
  by_cases ha : address = slice.address
  · rw [if_pos ha, if_pos ha.symm, ha, find?_eq_none_iff.mp hnone]
    rfl
  · rw [if_neg ha, if_neg (Ne.symm ha)]
    exact (Option.or_none).symm

theorem run {call : StoreCall} {reply : StoreReply} (h : b.Accounts limit history) (hends : Ends b call reply c) :
    c.Accounts limit (history ++ [(call, reply)]) := by
  cases hends with
  | quiet call reply hreply => exact h.quiet hreply call
  | found slice k hk => exact h.found hk
  | hit slice k hk => exact h.hit hk
  | slice slice hnone _ => exact h.withSlice hnone
  | copy bytes _ => exact h.withCopy bytes

end Accounts

/-! ## One copy more -/

/-- `c` has a copy at place `n` that `b` has not, which no address has. -/
structure Displaced (n : Nat) (b c : BufferStore) : Prop where
  size : c.size = b.size + 1
  le : n ≤ b.size
  limit : c.limit = b.limit
  find? : ∀ slice, c.find? slice = (b.find? slice).map (·.past n)

theorem Sound.displaced_withCopy (h : b.Sound) (bytes : Bytes) : Displaced b.size b (b.withCopy bytes) := by
  refine ⟨size_withCopy b bytes, Nat.le_refl _, rfl, ?_⟩
  intro slice
  show b.find? slice = _
  cases hk : b.find? slice with
  | none => rfl
  | some k =>
    have hlt : k.index < b.size := h.inBounds _ _ (find?_eq_some_iff.mp hk)
    rw [Option.map_some, Slot.past, if_pos hlt]

namespace Displaced

variable {n : Nat}

theorem past_size (h : Displaced n b c) : (⟨b.size⟩ : BufferSlot).past n = ⟨c.size⟩ := by
  rw [Slot.past, if_neg (Nat.not_lt.mpr h.le), h.size]

theorem checkLength (h : Displaced n b c) (length : Nat) : c.checkLength length = b.checkLength length := by
  rw [BufferStore.checkLength, h.limit, BufferStore.checkLength]

theorem check (h : Displaced n b c) (slice : Slice) : c.check slice = b.check slice := by
  rw [BufferStore.check, h.find?, BufferStore.check]
  cases b.find? slice with
  | none => exact h.checkLength _
  | some k => rfl

theorem withCopy (h : Displaced n b c) (bytes : Bytes) : Displaced n (b.withCopy bytes) (c.withCopy bytes) := by
  refine ⟨?_, ?_, h.limit, h.find?⟩
  · rw [size_withCopy, size_withCopy, h.size]
  · have hle := h.le
    rw [size_withCopy]
    omega

theorem withSlice (h : Displaced n b c) (slice : Slice) : Displaced n (b.withSlice slice) (c.withSlice slice) := by
  obtain ⟨hsize, hle, hlimit, -⟩ := h.withCopy slice.bytes
  refine ⟨hsize, hle, hlimit, ?_⟩
  intro slice'
  rw [find?_withSlice, find?_withSlice]
  split
  · rw [Option.map_some, h.past_size]
  · exact h.find? slice'

/-- Every call replies alike, and leaves the two stores as they were to one another. -/
theorem run (h : Displaced n b c) (call : StoreCall) :
    (call.run c).1 = (call.run b).1.past n ∧ Displaced n (call.run b).2 (call.run c).2 := by
  cases call with
  | intern slice =>
    simp only [StoreCall.run]
    cases hk : b.find? slice with
    | some k =>
      have hk' : c.find? slice = some (k.past n) := by rw [h.find?, hk, Option.map_some]
      rw [run_intern_of_some hk, run_intern_of_some hk']
      exact ⟨rfl, h⟩
    | none =>
      have hk' : c.find? slice = none := by rw [h.find?, hk, Option.map_none]
      rw [run_intern_of_none hk, run_intern_of_none hk', h.limit]
      split
      · refine ⟨?_, h.withSlice slice⟩
        show _ = StoreReply.slot (.ok (Slot.past n ⟨b.size⟩))
        rw [h.past_size]
      · exact ⟨rfl, h⟩
  | addCopy bytes =>
    simp only [StoreCall.run]
    rw [run_addCopy, run_addCopy, h.limit]
    split
    · refine ⟨?_, h.withCopy bytes⟩
      show _ = StoreReply.slot (.ok (Slot.past n ⟨b.size⟩))
      rw [h.past_size]
    · exact ⟨rfl, h⟩
  | find slice => exact ⟨congrArg StoreReply.found (h.find? slice), h⟩
  | check slice => exact ⟨congrArg StoreReply.checked (h.check slice), h⟩
  | checkLength length => exact ⟨congrArg StoreReply.checked (h.checkLength length), h⟩

theorem replies (h : Displaced n b c) (calls : List StoreCall) :
    c.replies calls = (b.replies calls).map (·.past n) := by
  induction calls generalizing b c with
  | nil => rfl
  | cons call calls ih =>
    obtain ⟨hreply, hnext⟩ := h.run call
    rw [BufferStore.replies, BufferStore.replies, List.map_cons, hreply, ih hnext]

end Displaced

/-! ## All histories -/

theorem check_eq_map_intern (b : BufferStore) (slice : Slice) :
    b.check slice = ((intern slice).run b).result.map fun _ => () := by
  cases hk : b.find? slice with
  | some k => rw [check, hk, run_intern_of_some hk]; rfl
  | none =>
    rw [check, hk, run_intern_of_none hk]
    show b.checkLength _ = _
    rw [checkLength]
    split <;> rfl

/-- Whatever was done to a store of any limit, and to the store that it is a copy of: a
    slice is found exactly if one was interned from its address, with the slot of the
    first, and interning it again hands that slot out and changes nothing, however long it
    is by now and whatever it holds. Any other slice is refused with nothing changed, if it
    is too long, or else appended as it is now and tied to its address. Checking a slice
    ends as interning it does. `addCopy` looks at the length alone and always makes a new
    slot; with the bytes that it added or without them, the store finds and checks alike,
    at once and after any calls, in slots that are the same but for those made since, which
    are one further on. A slot that was handed out had been made of some bytes, and it
    reads as them for good, in the store and in its copies. -/
theorem buffers_follow_history (limit : Nat) (turns : List (Turn StoreCall)) {l : StoreLineage}
    (hl : l ∈ Lineage.after StoreCall.run [{ store := ofLimit limit }] turns) :
    (∀ slice, l.store.find? slice = firstSlot? l.history slice.address) ∧
      (∀ slice, (intern slice).run l.store =
        match firstSlot? l.history slice.address with
        | some k => ⟨.ok k, l.store, [.alreadyStored slice.address k.index]⟩
        | none =>
          if slice.bytes.length < limit then
            ⟨.ok ⟨l.store.size⟩, { l.store with
              copies := l.store.copies.push slice.bytes
              origins := l.store.origins.insert slice.address l.store.size }, []⟩
          else ⟨.error (.sizeExceeded slice.bytes.length limit), l.store, []⟩) ∧
      (∀ slice, l.store.check slice = ((intern slice).run l.store).result.map fun _ => ()) ∧
      (∀ bytes, (addCopy bytes).run l.store =
        if bytes.length < limit then
          ⟨.ok ⟨l.store.size⟩, { l.store with copies := l.store.copies.push bytes }, []⟩
        else ⟨.error (.sizeExceeded bytes.length limit), l.store, []⟩) ∧
      (∀ bytes, let more := { l.store with copies := l.store.copies.push bytes }
        (∀ slice, more.find? slice = l.store.find? slice ∧ more.check slice = l.store.check slice) ∧
          ∀ calls, more.replies calls = (l.store.replies calls).map (·.past l.store.size)) ∧
      (∀ call reply k, (call, reply) ∈ l.history → reply.slot? = some k → ∃ bytes, Captured l.history k bytes) ∧
      ∀ k bytes, Captured l.history k bytes →
        ∀ later, ∀ l' ∈ Lineage.after StoreCall.run [l] later, l'.store.resolve? k = some bytes := by
  have h : l.store.Accounts limit l.history := Lineage.of_mem_after (P := fun l => l.store.Accounts limit l.history)
    (fun l c h => h.run (ends_run l.store c)) (accounts_ofLimit limit) hl
  refine ⟨h.find?_eq, ?_, check_eq_map_intern l.store, ?_, ?_, h.handedOut, ?_⟩
  · intro slice
    rw [← h.find?_eq, ← h.limit_eq]
    cases hk : l.store.find? slice with
    | some k => exact run_intern_of_some hk
    | none => exact run_intern_of_none hk
  · intro bytes
    rw [← h.limit_eq]
    exact run_addCopy bytes l.store
  · intro bytes more
    exact ⟨fun slice => ⟨rfl, rfl⟩, (h.sound.displaced_withCopy bytes).replies⟩
  · intro k bytes hk later l' hl'
    have hgrown : l.store.Grows l'.store := Lineage.of_mem_after (P := fun l' => l.store.Grows l'.store)
      (fun l' c h' => h'.trans (ends_run l'.store c).grows) (.refl l.store) hl'
    exact hgrown.copies k bytes (h.captured k bytes hk)

/-- A buffer of three bytes is interned, and the store copied; then the buffer is rewritten
    and lengthened up to the limit, and interned in the copy. -/
theorem buffers_of_store_and_copy :
    let turns : List (Turn StoreCall) := [.call 0 (.addCopy [3]), .call 0 (.intern ⟨64, [1, 2, 3]⟩), .copy 0,
      .call 0 (.addCopy [4]), .call 1 (.intern ⟨64, [5, 6, 7, 8]⟩)]
    ∃ l ∈ Lineage.after StoreCall.run [{ store := ofLimit 4 }] turns,
      l.history = [(.addCopy [3], .slot (.ok ⟨0⟩)), (.intern ⟨64, [1, 2, 3]⟩, .slot (.ok ⟨1⟩)),
          (.intern ⟨64, [5, 6, 7, 8]⟩, .slot (.ok ⟨1⟩))] ∧
        (intern ⟨64, [5, 6, 7, 8]⟩).run l.store = ⟨.ok ⟨1⟩, l.store, [.alreadyStored 64 1]⟩ ∧
        (intern ⟨65, [6, 7, 8, 9]⟩).run l.store = ⟨.error (.sizeExceeded 4 4), l.store, []⟩ ∧
        l.store.resolve? ⟨1⟩ = some [1, 2, 3] := by
  intro turns
  let l := (Lineage.after StoreCall.run [{ store := ofLimit 4 }] turns)[1]
  have hl : l ∈ Lineage.after StoreCall.run [{ store := ofLimit 4 }] turns := List.getElem_mem _
  have hhistory : l.history = [(.addCopy [3], .slot (.ok ⟨0⟩)), (.intern ⟨64, [1, 2, 3]⟩, .slot (.ok ⟨1⟩)),
      (.intern ⟨64, [5, 6, 7, 8]⟩, .slot (.ok ⟨1⟩))] := by decide +kernel
  obtain ⟨-, hintern, -, -, -, -, hread⟩ := buffers_follow_history 4 turns hl
  rw [hhistory] at hintern hread
  refine ⟨l, hl, hhistory, hintern _, hintern _, ?_⟩
  have hmade : Captured [(.addCopy [3], .slot (.ok ⟨0⟩)), (.intern ⟨64, [1, 2, 3]⟩, .slot (.ok ⟨1⟩)),
      (.intern ⟨64, [5, 6, 7, 8]⟩, .slot (.ok ⟨1⟩))] ⟨1⟩ [1, 2, 3] :=
    .later [_, _] _ (.slice [_] ⟨64, [1, 2, 3]⟩ ⟨1⟩ rfl)
  exact hread ⟨1⟩ [1, 2, 3] hmade [] l (List.mem_singleton.mpr rfl)

end BufferStore

end StateObject
