import FrameRing.Flags
import FrameRing.Layout
import FrameRing.Header

/-! # Ring parameters

What a ring is set up with, and which parameters a ring accepts.
-/

namespace FrameRing

inductive ParamError where
  | tooFewSlots
  | beyondCookies
  | badEntrySize
  | bufferTooSmall
  | thresholdTooHigh
  deriving DecidableEq, Repr

def ParamError.message : ParamError → String
  | .tooFewSlots => "capacity must be at least 2"
  | .beyondCookies => "capacity exceeds cookie range"
  | .badEntrySize => "unsupported entry size"
  | .bufferTooSmall => "buffer cannot hold a frame"
  | .thresholdTooHigh => "reap threshold exceeds ring"

structure RingParams where
  capacity : Nat
  entrySize : Nat
  bufferSize : Nat
  reapThreshold : Nat
  flags : RingFlags
  deriving DecidableEq, Repr

namespace RingParams

def ofSizes (capacity entrySize bufferSize : Nat) : RingParams :=
  ⟨capacity, entrySize, bufferSize, 0, .empty⟩

def withReapThreshold (p : RingParams) (threshold : Nat) : RingParams :=
  { p with
    reapThreshold := threshold
    flags := { p.flags with lowThreshold := decide (0 < threshold) } }

def withFlags (p : RingParams) (flags : RingFlags) : RingParams :=
  { p with flags := p.flags.union flags }

def validate (p : RingParams) : Except ParamError Unit :=
  if p.capacity < 2 then .error .tooFewSlots
  else if RingEntry.maxCookie < p.capacity - 1 then .error .beyondCookies
  else if ¬ RingLayout.StrideOk p.entrySize then .error .badEntrySize
  else if p.bufferSize ≤ FrameHeader.size then .error .bufferTooSmall
  else if p.capacity ≤ p.reapThreshold then .error .thresholdTooHigh
  else .ok ()

end RingParams

end FrameRing
