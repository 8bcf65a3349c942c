import DeclArchive.Error

/-!
# Streams

A stream is a run of bytes with a position. Writing replaces what is at the position. A growable
stream extends as far as needed; another one keeps its length, stores what fits and fails.
-/

namespace DeclArchive

/-- Bytes with a position to write at. -/
structure Stream where
  content : Array UInt8
  position : Nat
  growable : Bool
  deriving DecidableEq

/-- Computations that write to a stream and may stop. -/
abbrev Streaming (α : Type) := ExceptT Error (StateM Stream) α

namespace Stream

/-- An empty stream that grows. -/
def empty : Stream := ⟨#[], 0, true⟩

/-- A stream over a buffer of fixed length, positioned at its start. -/
def fixed (content : Array UInt8) : Stream := ⟨content, 0, false⟩

/-- How many of `n` bytes can be written at the position. -/
def room (s : Stream) (n : Nat) : Nat :=
  if s.growable then n else min n (s.content.size - s.position)

/-- Replaces what is at the position by as much of `data` as fits, and moves past it. -/
def put (s : Stream) (data : Array UInt8) : Stream :=
  let n := s.room data.size
  let before := s.content.extract 0 s.position
  let gap := Array.replicate (s.position - s.content.size) 0
  let after := s.content.extract (s.position + n) s.content.size
  { s with content := before ++ gap ++ data.extract 0 n ++ after, position := s.position + n }

/-- Writes all of `data`; where it does not fit, what fits is written and the write fails. -/
def write (data : Array UInt8) : Streaming Unit := do
  let s ← get
  set (s.put data)
  if s.room data.size < data.size then throw (.refused .streamFull)

/-- Moves the position. -/
def seek (position : Nat) : Streaming Unit :=
  modify fun s => { s with position }

/-- The position. -/
def tell : Streaming Nat := return (← get).position

end Stream

end DeclArchive
