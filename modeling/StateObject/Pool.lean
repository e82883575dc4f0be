/-
  StateObject.Pool — the strings and byte buffers that one catalog owns.

  `intern` takes a caller's payload in, `resolve` reads a stored one, and `adopt`
  copies one that lives in another pool. Each visits the payload's parts in the
  order of `Payload.mapM`. `checkAdoption` foretells whether `adopt` would refuse.
-/

import StateObject.BufferStore
import StateObject.Payload
import StateObject.SymbolTable

namespace StateObject

structure Pool where
  symbols : SymbolTable := {}
  buffers : BufferStore := {}

namespace Pool

/-- A pool whose buffers are shorter than `limit`, and never too long for the
    container. -/
def ofLimit (limit : Nat) : Pool := { buffers := .ofLimit (min limit maxBufferLength) }

/-! ## Taking in -/

def internName (s : String) : Call Pool Symbol :=
  Call.update fun pool =>
    let (symbol, symbols) := pool.symbols.intern s
    (symbol, { pool with symbols })

def inBuffers {α : Type} : Call BufferStore α → Call Pool α :=
  Call.within (·.buffers) fun pool buffers => { pool with buffers }

/-- The size written is the length of the stored copy, in 32 bits. -/
def internSignature (slice : Slice) : Call Pool (RootSignature BufferSlot) := do
  let slot ← inBuffers (BufferStore.intern slice)
  let bytes ← Call.ofExcept ((← Call.get).buffers.resolve slot)
  pure { data := slot, size := bytes.length.toUInt32 }

def checkFlags (raw : UInt32) : Call Pool ConfigFlags :=
  match ConfigFlags.ofBits? raw with
  | some flags => pure flags
  | none => Call.refuse (.invalidFlags raw (ConfigFlags.unknownBits raw))

def intern (spec : Spec) : Call Pool Stored := spec.mapM checkFlags internName internSignature

/-! ## Reading -/

def resolveSignature (pool : Pool) (r : RootSignature BufferSlot) : Except Refusal (RootSignature Bytes) := do
  let data ← pool.buffers.resolve r.data
  pure { data, size := r.size }

def resolve (pool : Pool) (payload : Stored) : Except Refusal Contents :=
  payload.mapM pure pool.symbols.resolve pool.resolveSignature

/-! ## Copying from another pool -/

def adoptName (source : Pool) (symbol : Symbol) : Call Pool Symbol := do
  let s ← Call.ofExcept (source.symbols.resolve symbol)
  internName s

/-- The bytes are copied afresh; the size is kept as it was written. -/
def adoptSignature (source : Pool) (r : RootSignature BufferSlot) : Call Pool (RootSignature BufferSlot) := do
  let bytes ← Call.ofExcept (source.buffers.resolve r.data)
  let data ← inBuffers (BufferStore.addCopy bytes)
  pure { data, size := r.size }

def adopt (source : Pool) (payload : Stored) : Call Pool Stored :=
  payload.mapM pure (adoptName source) (adoptSignature source)

/-- Foretells, for a payload of the source's own, what `adopt` would refuse. -/
def checkAdoption (source target : Pool) : Stored → Except Refusal Unit
  | .rootSignature _ r => do
    let bytes ← source.buffers.resolve r.data
    target.buffers.checkLength bytes.length
  | _ => pure ()

end Pool

end StateObject
