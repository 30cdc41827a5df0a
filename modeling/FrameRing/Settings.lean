import FrameRing.Params

/-! # Settings of a receive ring

Settings that a user makes in any order. A value out of range is moved to the nearest bound
instead of being refused, so that every enabled setting gives parameters that a ring accepts.
-/

namespace FrameRing

structure RingSettings where
  enabled : Bool
  ringSize : Nat
  entrySize : Nat
  bufferSize : Nat
  reapThreshold : Nat
  pointerSwap : Bool
  deriving DecidableEq, Repr

namespace RingSettings

def minRingSize : Nat := 2

def maxRingSize : Nat := 4096

def minEntrySize : Nat := 8

def maxEntrySize : Nat := 64

def minBufferSize : Nat := 64

def maxBufferSize : Nat := 16384

/-- The ring starts out disabled. The buffers take the largest management frame and its header. -/
def default : RingSettings := ⟨false, 64, 16, 3520, 8, false⟩

def clamp (lo hi n : Nat) : Nat := min hi (max n lo)

def setEnabled (s : RingSettings) (enabled : Bool) : RingSettings :=
  { s with enabled }

/-- The threshold is pulled down with the ring if it no longer fits. -/
def setRingSize (s : RingSettings) (n : Nat) : RingSettings :=
  let ringSize := clamp minRingSize maxRingSize n
  { s with ringSize, reapThreshold := min s.reapThreshold (ringSize - 1) }

def setEntrySize (s : RingSettings) (n : Nat) : RingSettings :=
  { s with entrySize := alignUp (clamp minEntrySize maxEntrySize n) RingEntry.align }

def setBufferSize (s : RingSettings) (n : Nat) : RingSettings :=
  { s with bufferSize := clamp minBufferSize maxBufferSize n }

def setReapThreshold (s : RingSettings) (n : Nat) : RingSettings :=
  { s with reapThreshold := min n (s.ringSize - 1) }

def setPointerSwap (s : RingSettings) (swap : Bool) : RingSettings :=
  { s with pointerSwap := swap }

def ringParams? (s : RingSettings) : Option RingParams :=
  if s.enabled then
    some (((RingParams.ofSizes s.ringSize s.entrySize s.bufferSize).withReapThreshold
      s.reapThreshold).withFlags { RingFlags.empty with pointerSwap := s.pointerSwap })
  else none

end RingSettings

end FrameRing
