import FrameRing.Log.Level
import FrameRing.Ring.Error

/-! # Log events

Everything that the ring and its parts report, each with its level and its text.
-/

namespace FrameRing

inductive LogEvent where
  | registering (base numEntries entrySize : Nat)
  | ringSetUp (capacity base bufferSize : Nat)
  | ringMemoryLeaked (base : Nat) (cause : AllocError)
  | attached (buffers : Nat)
  | attachFailed (armed : Nat) (cause : RingError)
  | ringReleased (buffers : Nat)
  | headNotPublished (head : Nat) (cause : SourceRingError)
  | entryUnreadable (index : Nat)
  | missingCompletion
  | poolExhausted (cause : AllocError) (remaining : Nat)
  | ringFaulted (readIdx : Nat) (cause : RingError)
  | frameDelivered (len busAddr : Nat)
  | frameDropped (busAddr : Nat) (cause : FrameError)
  | reapSkipped (cause : RingError)
  | reapFailed (cause : RingError)
  | bufferUnreadable (addr size : Nat)
  | bufferLeaked (addr : Nat) (cause : AllocError)
  deriving DecidableEq, Repr

namespace LogEvent

def level : LogEvent → LogLevel
  | .registering .. | .ringSetUp .. | .attached .. | .ringReleased .. | .poolExhausted .. => .debug
  | .ringMemoryLeaked .. | .attachFailed .. | .headNotPublished .. | .ringFaulted ..
  | .reapFailed .. | .bufferUnreadable .. | .bufferLeaked .. => .error
  | .entryUnreadable .. | .missingCompletion | .frameDropped .. | .reapSkipped .. => .warn
  | .frameDelivered .. => .trace

def message : LogEvent → String
  | .registering base numEntries entrySize =>
    s!"registering srng at {hexAddress base}: {numEntries} x {entrySize} bytes"
  | .ringSetUp capacity base bufferSize =>
    s!"mgmt rx ring set up: {capacity} entries at {hexAddress base}, {bufferSize} byte buffers"
  | .ringMemoryLeaked base cause =>
    s!"failed to free ring memory at {hexAddress base}: {cause.message}"
  | .attached buffers => s!"mgmt rx ring attached {buffers} buffers"
  | .attachFailed armed cause => s!"mgmt rx attach failed after {armed} buffers: {cause.message}"
  | .ringReleased buffers => s!"mgmt rx ring released {buffers} buffers"
  | .headNotPublished head cause => s!"failed to publish head pointer {head}: {cause.message}"
  | .entryUnreadable index => s!"failed to read completed entry {index}"
  | .missingCompletion => "mgmt rx ring reported a completion it cannot produce"
  | .poolExhausted cause remaining =>
    s!"mgmt rx buffer pool exhausted ({cause.message}), leaving {remaining} completions queued"
  | .ringFaulted readIdx cause => s!"mgmt rx ring faulted at read_idx {readIdx}: {cause.message}"
  | .frameDelivered len busAddr => s!"mgmt rx frame of {len} bytes at {hexAddress busAddr}"
  | .frameDropped busAddr cause =>
    s!"dropping mgmt rx frame at {hexAddress busAddr}: {cause.message}"
  | .reapSkipped cause => s!"mgmt rx reap skipped: {cause.message}"
  | .reapFailed cause => s!"mgmt rx reap failed: {cause.message}"
  | .bufferUnreadable addr size =>
    s!"failed to read DMA buffer at {hexAddress addr} ({size} bytes)"
  | .bufferLeaked addr cause => s!"leaking DMA buffer {hexAddress addr}: {cause.message}"

end LogEvent

end FrameRing
