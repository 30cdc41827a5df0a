import FrameRing.Buffer
import FrameRing.Log.Event

/-! # What a receive ring runs on

The ring drives five collaborators: a registered hardware ring, a pool of receive buffers, a
provider of ring memory, the consumer of its frames and a log. Its slot table is in the host's own
memory, which may be too full for it. All of their state, and the rest of the world, is one value
of type `ω`, passed through every call; a hardware ring has a handle of type `η` besides. Nothing is
assumed of them: a collaborator may answer anything and may change the world in any way.
-/

namespace FrameRing

structure Registration where
  ringBase : Nat
  numEntries : Nat
  entrySize : Nat
  lowThreshold : Nat
  flags : RingFlags
  deriving DecidableEq, Repr

def RingParams.registration (p : RingParams) (ringBase : Nat) : Registration :=
  ⟨ringBase, p.capacity, p.entrySize, p.reapThreshold, p.flags⟩

/-- The host's view of a hardware source ring. Except for `accessBegin`, an operation means
something only inside an access section. A reservation of type `ε` is used up only by `setEntry`;
one that is dropped leaves its entry queued. -/
structure HardwareRing (ω η ε : Type) where
  accessBegin : η → ω → Except SourceRingError Unit × η × ω
  accessEnd : η → ω → η × ω
  /-- Completed entries that are not reaped, as of `accessBegin`. -/
  availableCount : η → ω → Nat
  nextEntry : η → ω → Option ε × η × ω
  /-- Reserve an entry that was never armed; one entry always stays empty. -/
  nextFreeEntry : η → ω → Option ε × η × ω
  setEntry : ε → Nat → Nat → η → ω → Except SourceRingError Unit × η × ω
  cookieOf : ε → η → ω → Nat

structure BufferPool (ω β : Type) where
  acquire : Nat → ω → Except AllocError β × ω
  release : β → ω → ω
  syncForCpu : β → ω → β × ω

structure RingMemory (ω : Type) where
  alloc : Nat → ω → Except AllocError Allocation × ω
  dealloc : Allocation → ω → Except AllocError Unit × ω

structure Platform (ω η ε β : Type) where
  hardware : HardwareRing ω η ε
  pool : BufferPool ω β
  memory : RingMemory ω
  /-- The host's own memory can hold a table of so many slots. -/
  hasTableRoom : Nat → ω → Bool
  register : Registration → ω → Except SourceRingError η × ω
  deliver : β → ω → ω
  record : LogEvent → ω → ω

end FrameRing
