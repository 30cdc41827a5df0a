import FrameRing.Firmware
import FrameRing.Ring.Attach
import FrameRing.Ring.Describe
import FrameRing.Ring.Reap

/-! # A scripted platform

Collaborators that answer as they are told: completions are moved by hand, reported without an
entry behind them, or given another cookie, and every call can be made to fail. They share one
state, the script, which also keeps what was asked of them.
-/

namespace FrameRing

inductive MemoryCall where
  | alloc (len : Nat)
  | dealloc (a : Allocation)
  deriving DecidableEq, Repr

structure ScriptedEntry where
  cookie : Nat
  completed : Bool
  deriving DecidableEq, Repr

structure Script where
  bufferBase : Nat
  memoryAddr : Nat
  contents : List (Nat × List UInt8)
  room : Nat
  /-- Completions reported without an entry behind them. -/
  phantom : Nat
  armed : List (Nat × Nat)
  completed : List (Nat × Nat)
  begins : Nat
  ends : Nat
  acquired : Nat
  beginError : Option SourceRingError
  /-- The failure of an arm, once so many more have succeeded. -/
  armError : Option (SourceRingError × Nat)
  registerError : Option SourceRingError
  /-- Buffers that the pool still has; none for a pool without end. -/
  budget : Option Nat
  budgetError : AllocError
  memoryError : Option AllocError
  memoryFreeError : Option AllocError
  released : List Nat
  memoryCalls : List MemoryCall
  registered : Option Registration
  frames : List TaggedBuffer
  journal : Array LogEvent

def SourceRingError.about (addr value : Nat) : SourceRingError → SourceRingError
  | .addrOutOfRange _ => .addrOutOfRange addr
  | .cookieOutOfRange _ => .cookieOutOfRange value
  | .staleEntry _ => .staleEntry value
  | .invalidPointer _ => .invalidPointer value
  | e => e

def AllocError.about (len : Nat) : AllocError → AllocError
  | .invalidAlign _ => .invalidAlign len
  | .invalidFree _ _ => .invalidFree len len
  | e => e

namespace Script

def create (bufferBase memoryAddr : Nat) (contents : List (Nat × List UInt8)) : Script where
  bufferBase
  memoryAddr
  contents
  room := 0
  phantom := 0
  armed := []
  completed := []
  begins := 0
  ends := 0
  acquired := 0
  beginError := none
  armError := none
  registerError := none
  budget := none
  budgetError := .outOfMemory
  memoryError := none
  memoryFreeError := none
  released := []
  memoryCalls := []
  registered := none
  frames := []
  journal := #[]

def complete (w : Script) (n : Nat) : Nat × Script :=
  let moved := w.armed.take n
  (moved.length, { w with armed := w.armed.drop n, completed := w.completed ++ moved })

def corrupt (w : Script) (idx cookie : Nat) : Script :=
  { w with completed := w.completed.modify idx fun (addr, _) => (addr, cookie) }

def forgetCalls (w : Script) : Script :=
  { w with released := [], memoryCalls := [], registered := none, journal := #[] }

/-- What buffer `tag` of `size` bytes shows: its planned contents, or a frame that holds the tag,
cut or padded to the size. -/
def contentsOf (w : Script) (tag size : Nat) : List UInt8 :=
  match w.contents.lookup tag with
  | some bytes => bytes
  | none =>
    let frame := (FrameHeader.ofPayload 8).toBytes ++ LittleEndian.encode 8 tag
    frame.take size ++ List.replicate (size - frame.length) 0

def acquire (size : Nat) (w : Script) : Except AllocError TaggedBuffer × Script :=
  match w.budget with
  | some 0 => (.error (w.budgetError.about size), w)
  | budget =>
    let tag := w.acquired
    let buf : TaggedBuffer := ⟨tag, w.bufferBase + tag * 4096, w.contentsOf tag size⟩
    (.ok buf, { w with acquired := tag + 1, budget := budget.map (· - 1) })

def release (buf : TaggedBuffer) (w : Script) : Script :=
  { w with released := w.released ++ [buf.tag] }

def register (reg : Registration) (w : Script) : Except SourceRingError Unit × Script :=
  match w.registerError with
  | some e => (.error (e.about reg.ringBase reg.numEntries), w)
  | none =>
    (.ok (),
      { w with registered := some reg, room := reg.numEntries - 1, armed := [], completed := [] })

def alloc (len : Nat) (w : Script) : Except AllocError Allocation × Script :=
  match w.memoryError with
  | some e => (.error (e.about len), w)
  | none =>
    (.ok ⟨w.memoryAddr, len⟩, { w with memoryCalls := w.memoryCalls ++ [MemoryCall.alloc len] })

def dealloc (a : Allocation) (w : Script) : Except AllocError Unit × Script :=
  let w := { w with memoryCalls := w.memoryCalls ++ [MemoryCall.dealloc a] }
  match w.memoryFreeError with
  | some e => (.error (e.about a.len), w)
  | none => (.ok (), w)

def accessBegin (w : Script) : Except SourceRingError Unit × Script :=
  match w.beginError with
  | some e => (.error (e.about 0 0), w)
  | none => (.ok (), { w with begins := w.begins + 1 })

def nextEntry (w : Script) : Option ScriptedEntry × Script :=
  if 0 < w.phantom then (none, { w with phantom := w.phantom - 1 })
  else (w.completed.head?.map fun (_, cookie) => ⟨cookie, true⟩, w)

def nextFreeEntry (w : Script) : Option ScriptedEntry :=
  if 0 < w.room then some ⟨0, false⟩ else none

def arm (entry : ScriptedEntry) (busAddr cookie : Nat) (w : Script) : Script :=
  let w := { w with armed := w.armed ++ [(busAddr, cookie)] }
  if entry.completed then { w with completed := w.completed.tail }
  else { w with room := w.room - 1 }

def setEntry (entry : ScriptedEntry) (busAddr cookie : Nat) (w : Script) :
    Except SourceRingError Unit × Script :=
  match w.armError with
  | some (e, 0) => (.error (e.about busAddr cookie), w)
  | armError =>
    (.ok (), { w with armError := armError.map fun (e, n) => (e, n - 1) }.arm entry busAddr cookie)

def hardware : HardwareRing Script Unit ScriptedEntry where
  accessBegin _ w :=
    let (result, w) := w.accessBegin
    (result, (), w)
  accessEnd _ w := ((), { w with ends := w.ends + 1 })
  availableCount _ w := w.completed.length + w.phantom
  nextEntry _ w :=
    let (entry, w) := w.nextEntry
    (entry, (), w)
  nextFreeEntry _ w := (w.nextFreeEntry, (), w)
  setEntry entry busAddr cookie _ w :=
    let (result, w) := w.setEntry entry busAddr cookie
    (result, (), w)
  cookieOf entry _ _ := entry.cookie

def platform : Platform Script Unit ScriptedEntry TaggedBuffer where
  hardware := hardware
  pool :=
    { acquire := acquire
      release := release
      syncForCpu := fun buf w => (buf, w) }
  memory :=
    { alloc := alloc
      dealloc := dealloc }
  hasTableRoom _ _ := true
  register := register
  deliver buf w := { w with frames := w.frames ++ [buf] }
  record event w := { w with journal := w.journal.push event }

end Script

end FrameRing
