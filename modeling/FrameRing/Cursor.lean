/-! # Ring cursors

Two positions walk around the slots of a ring, one step at a time and modulo its size.
-/

namespace FrameRing

structure RingCursor where
  writeIdx : Nat
  readIdx : Nat
  size : Nat
  deriving DecidableEq, Repr

namespace RingCursor

def ofSize (size : Nat) : RingCursor := ⟨0, 0, size⟩

def advanceWrite (c : RingCursor) : RingCursor :=
  { c with writeIdx := (c.writeIdx + 1) % c.size }

def advanceRead (c : RingCursor) : RingCursor :=
  { c with readIdx := (c.readIdx + 1) % c.size }

def outstanding (c : RingCursor) : Nat :=
  (c.writeIdx + c.size - c.readIdx) % c.size

def reset (c : RingCursor) : RingCursor :=
  { c with writeIdx := 0, readIdx := 0 }

end RingCursor

end FrameRing
