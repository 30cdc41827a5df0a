/-! # Registration flags

A ring is registered with a word of flags. Two bits have a meaning; the others are carried along.
-/

namespace FrameRing

structure RingFlags where
  lowThreshold : Bool
  pointerSwap : Bool
  /-- The bits above these two, shifted down. -/
  other : Nat
  deriving DecidableEq, Repr

namespace RingFlags

def empty : RingFlags := ⟨false, false, 0⟩

def ofBits (bits : Nat) : RingFlags :=
  ⟨bits % 2 == 1, bits / 2 % 2 == 1, bits / 4⟩

def toBits (f : RingFlags) : Nat :=
  f.lowThreshold.toNat + 2 * f.pointerSwap.toNat + 4 * f.other

def union (f g : RingFlags) : RingFlags :=
  ⟨f.lowThreshold || g.lowThreshold, f.pointerSwap || g.pointerSwap, f.other ||| g.other⟩

end RingFlags

end FrameRing
