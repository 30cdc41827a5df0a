import FrameRing.Log.Level

/-! # Capturing log records

A log that keeps the records of the ring's own targets, in order, until it is cleared.
-/

namespace FrameRing

structure LogCall where
  level : LogLevel
  target : String
  message : String
  modulePath : Option String
  line : Option Nat
  deriving DecidableEq, Repr

structure CaptureLog where
  calls : Array LogCall

namespace CaptureLog

/-- Records are kept if their target starts like this. -/
def capturedTarget : String := "mgmt_rx_srng"

def empty : CaptureLog := ⟨#[]⟩

def enabled (_level : LogLevel) (target : String) : Bool :=
  target.startsWith capturedTarget

def log (c : CaptureLog) (call : LogCall) : CaptureLog :=
  if enabled call.level call.target then ⟨c.calls.push call⟩ else c

def count (c : CaptureLog) : Nat := c.calls.size

def get? (c : CaptureLog) (idx : Nat) : Option LogCall := c.calls[idx]?

def atLevel (c : CaptureLog) (level : LogLevel) : Array LogCall :=
  c.calls.filter (·.level = level)

def clear (_ : CaptureLog) : CaptureLog := empty

def takeAll (c : CaptureLog) : Array LogCall × CaptureLog := (c.calls, c.clear)

def flush (c : CaptureLog) : CaptureLog := c

end CaptureLog

end FrameRing
