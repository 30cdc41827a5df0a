import FrameRing.Cursor
import FrameRing.Platform
import FrameRing.SlotTable

/-! # Receive rings

A ring is set up (`ready`), attached (`active`) and released; a completion that does not belong to
the next slot makes it `faulted`. While attached, all slots but one are armed and the empty one is
at `writeIdx`: every completion arms that slot with a fresh buffer and then retires the slot at
`readIdx`, so the number of armed slots stays the same and `writeIdx = readIdx` never has to be
told apart from a full ring.
-/

namespace FrameRing

structure RingGeometry where
  capacity : Nat
  entrySize : Nat
  bufferSize : Nat
  align : Nat
  ringMem : Allocation
  deriving DecidableEq, Repr

inductive RingState where
  | ready
  | active
  | faulted
  | released
  deriving DecidableEq, Repr

structure RingStats where
  reaped : Nat
  delivered : Nat
  droppedMalformed : Nat
  backpressure : Nat
  missingEntries : Nat
  deriving DecidableEq, Repr

def RingStats.zero : RingStats := ⟨0, 0, 0, 0, 0⟩

structure Ring (η β : Type) where
  geometry : RingGeometry
  state : RingState
  table : SlotTable β
  cursor : RingCursor
  hw : Option η
  ringMem : Option Allocation
  stats : RingStats

/-- What an open access section works on. -/
structure Section (ω η β : Type) where
  hw : η
  table : SlotTable β
  cursor : RingCursor
  world : ω

variable {ω η ε β : Type}

def freeRingMemory (p : Platform ω η ε β) (a : Allocation) (w : ω) : ω :=
  match p.memory.dealloc a w with
  | (.ok _, w) => w
  | (.error e, w) => p.record (.ringMemoryLeaked a.addr e) w

namespace Section

def close (p : Platform ω η ε β) (s : Section ω η β) : Section ω η β :=
  let (hw, world) := p.hardware.accessEnd s.hw s.world
  { s with hw, world }

/-- Arm the reserved entry and the slot at `writeIdx` with `buf`. A buffer that cannot be armed is
released. -/
def place [RxBuffer β] (p : Platform ω η ε β) (entry : ε) (buf : β) (s : Section ω η β) :
    Except RingError Unit × Section ω η β :=
  let ⟨hw, table, cursor, w⟩ := s
  let idx := cursor.writeIdx
  match p.hardware.setEntry entry (RxBuffer.busAddr buf) idx hw w with
  | (.error e, hw, w) => (.error (.hardware e), ⟨hw, table, cursor, p.pool.release buf w⟩)
  | (.ok _, hw, w) =>
    match table.arm idx buf with
    | .error buf => (.error (.doubleArm idx), ⟨hw, table, cursor, p.pool.release buf w⟩)
    | .ok table => (.ok (), ⟨hw, table, cursor.advanceWrite, w⟩)

end Section

namespace Ring

def inUseCount (ring : Ring η β) : Nat := ring.table.inUseCount

def slot? (ring : Ring η β) (idx : Nat) : Option (Slot β) := ring.table.slot? idx

def enter (ring : Ring η β) (hw : η) (world : ω) : Section ω η β :=
  ⟨hw, ring.table, ring.cursor, world⟩

def leave (ring : Ring η β) (s : Section ω η β) : Ring η β :=
  { ring with hw := some s.hw, table := s.table, cursor := s.cursor }

/-- Make the slot table, allocate the ring memory and register the ring. All or nothing: what was
allocated is given back if a later step fails. -/
def setup (p : Platform ω η ε β) (params : RingParams) (w : ω) :
    Except RingError (Ring η β) × ω :=
  match params.validate with
  | .error e => (.error (.invalidConfig e), w)
  | .ok _ =>
    if p.hasTableRoom params.capacity w = false then (.error .outOfMemory, w)
    else
      match p.memory.alloc (RingLayout.querySize params.capacity params.entrySize) w with
      | (.error e, w) => (.error (.allocation e), w)
      | (.ok a, w) =>
        let guard := AllocGuard.hold a
        if a.addr % RingLayout.baseAlign ≠ 0 then
          (.error (.allocation (.invalidAlign a.addr)), guard.close (freeRingMemory p) w)
        else
          match p.register (params.registration a.addr) w with
          | (.error e, w) => (.error (.hardware e), guard.close (freeRingMemory p) w)
          | (.ok hw, w) =>
            let (ringMem, guard) := guard.dismiss
            let w := p.record (.ringSetUp params.capacity ringMem.addr params.bufferSize) w
            (.ok
              { geometry :=
                  { capacity := params.capacity
                    entrySize := params.entrySize
                    bufferSize := params.bufferSize
                    align := RingLayout.baseAlign
                    ringMem }
                state := .ready
                table := .withCapacity params.capacity
                cursor := .ofSize params.capacity
                hw := some hw
                ringMem := some ringMem
                stats := .zero },
              guard.close (freeRingMemory p) w)

/-- Release every armed buffer, lowest slot first, and then the ring memory. A released ring is
left alone. -/
def releaseAll (p : Platform ω η ε β) (ring : Ring η β) (w : ω) : Ring η β × ω :=
  if ring.state = .released then (ring, w)
  else
    let buffers := ring.table.buffers
    let w := buffers.foldl (fun w buf => p.pool.release buf w) w
    let w := ring.ringMem.elim w (freeRingMemory p · w)
    ({ ring with
        state := .released
        table := .empty
        cursor := ring.cursor.reset
        hw := none
        ringMem := none },
      p.record (.ringReleased buffers.length) w)

def teardown (p : Platform ω η ε β) (ring : Ring η β) (w : ω) : ω :=
  (ring.releaseAll p w).2

end Ring

end FrameRing
