import FrameRing.Platform
import FrameRing.Memory.Host

/-! # Source rings in shared memory

Three positions walk around the entries of a ring, all modulo its size `n`:

* `head`, the next entry that the host arms, published to the head word when a section closes;
* the tail, the next entry that the device consumes, taken over from the tail word when a section
  opens;
* `reapHead`, the last entry that the host took back.

Armed entries lie from the tail up to the head, completed ones behind `reapHead` up to the tail,
free ones from the head through `reapHead`. One entry always stays free, so that equal head and
tail mean that nothing is armed.
-/

namespace FrameRing

structure Reservation where
  index : Nat
  entry : RingEntry
  completed : Bool
  deriving DecidableEq, Repr

structure SourceRing where
  layout : RingLayout
  flags : RingFlags
  lowThreshold : Nat
  rbm : Nat
  head : Nat
  reapHead : Nat
  /-- The tail as of the last section opened. -/
  cachedTail : Nat
  inAccess : Bool
  deriving DecidableEq, Repr

namespace SourceRing

def numEntries (r : SourceRing) : Nat := r.layout.numEntries

def next (r : SourceRing) (idx : Nat) : Nat :=
  (idx + 1) % r.numEntries

def distance (r : SourceRing) (start stop : Nat) : Nat :=
  (stop + r.numEntries - start) % r.numEntries

def completed (r : SourceRing) (tail : Nat) : Nat :=
  r.distance (r.next r.reapHead) tail

def pointerWord (flags : RingFlags) (word : Nat) : Nat :=
  if flags.pointerSwap then LittleEndian.swapWord word else word

def storePointer (flags : RingFlags) (m : HostMemory) (addr position : Nat) :
    Except SourceRingError Unit × HostMemory :=
  match m.storeWord addr (pointerWord flags position) with
  | (.ok _, m) => (.ok (), m)
  | (.error _, m) => (.error .memoryError, m)

def create (reg : Registration) (rbm : Nat) (m : HostMemory) :
    Except SourceRingError SourceRing × HostMemory :=
  if reg.numEntries < 2 ∨ RingEntry.maxRbm < rbm then (.error .invalidLayout, m)
  else
    match RingLayout.ofBase reg.ringBase reg.numEntries reg.entrySize with
    | .error e => (.error e, m)
    | .ok layout =>
      match storePointer reg.flags m layout.headAddr 0 with
      | (.error e, m) => (.error e, m)
      | (.ok _, m) =>
        match storePointer reg.flags m layout.tailAddr 0 with
        | (.error e, m) => (.error e, m)
        | (.ok _, m) =>
          (.ok ⟨layout, reg.flags, reg.lowThreshold, rbm, 0, reg.numEntries - 1, 0, false⟩, m)

/-- The device's tail. It may only have moved over entries that the host published, from the
cached tail up to the head. -/
def loadTail (r : SourceRing) (m : HostMemory) : Except SourceRingError Nat :=
  match m.loadWord r.layout.tailAddr with
  | .error _ => .error .memoryError
  | .ok word =>
    let tail := pointerWord r.flags word
    if r.numEntries ≤ tail ∨ r.distance r.cachedTail r.head < r.distance r.cachedTail tail then
      .error (.invalidPointer tail)
    else .ok tail

/-- Enough completions are pending to be worth a reap. Never so for a ring that was registered
without the report or with threshold zero. -/
def thresholdReached (r : SourceRing) (m : HostMemory) : Except SourceRingError Bool :=
  if r.flags.lowThreshold = false ∨ r.lowThreshold = 0 then .ok false
  else
    match r.loadTail m with
    | .error e => .error e
    | .ok tail => .ok (decide (r.lowThreshold ≤ r.completed tail))

end SourceRing

end FrameRing
