/-
  StateObject.Memory — the memory of those who call.

  Buffers are placed one after the other and never moved. Every position in a buffer,
  its end included, has an address that no other buffer has; only the buffers of no
  bytes all lie at one address. A slice is a stretch of a buffer, as it reads now.
-/

import StateObject.Slot

namespace StateObject

structure Slice where
  address : Nat
  bytes : Bytes
  deriving DecidableEq, Repr

structure Buffer where
  address : Nat
  bytes : Bytes
  deriving DecidableEq, Repr

namespace Buffer

/-- The stretch of `length` bytes from `start`, if the buffer is that long. -/
def slice? (b : Buffer) (start length : Nat) : Option Slice :=
  if start + length ≤ b.bytes.length then
    some ⟨b.address + start, (b.bytes.drop start).take length⟩
  else none

def whole (b : Buffer) : Slice := ⟨b.address, b.bytes⟩

/-- The buffer with `bytes` written over its own from `start` on, if they fit. -/
def write? (b : Buffer) (start : Nat) (bytes : Bytes) : Option Buffer :=
  if start + bytes.length ≤ b.bytes.length then
    some { b with bytes := b.bytes.take start ++ bytes ++ b.bytes.drop (start + bytes.length) }
  else none

end Buffer

structure Memory where
  /-- No buffer lies at this address or above. -/
  next : Nat := 2

namespace Memory

/-- Where every buffer of no bytes lies. -/
def emptyAddress : Nat := 1

def place (m : Memory) (bytes : Bytes) : Buffer × Memory :=
  if bytes.isEmpty then (⟨emptyAddress, bytes⟩, m)
  else (⟨m.next, bytes⟩, ⟨m.next + bytes.length + 1⟩)

end Memory

end StateObject
