import FrameRing.Firmware
import FrameRing.Pool.DmaBuffer
import FrameRing.Ring.Attach
import FrameRing.Ring.Describe
import FrameRing.Ring.Reap
import FrameRing.SourceRing.Hardware

/-! # A receive ring over shared memory

The platform that a real ring runs on: a source ring in shared memory, one slab that serves both
ring memory and receive buffers, and a consumer that collects the frames delivered to it.
-/

namespace FrameRing

/-- The DMA memory of a stack, the frames that came out of it and the host's own memory. -/
structure DmaState where
  slab : Slab
  delivered : Array DmaBuffer
  /-- Slots of the largest table that the host's own memory can hold. -/
  tableRoom : Nat

abbrev World := Machine DmaState

namespace World

def fresh (window : Window) (slab : Slab) : World :=
  ⟨.ofWindow window, slab, #[], RingEntry.maxCookie + 1⟩

def create (window : Window) (slotSize base len : Nat) : Except AllocError World :=
  match Slab.create slotSize base len with
  | .error e => .error e
  | .ok slab => .ok (fresh window slab)

def setSlab (w : World) (slab : Slab) : World :=
  { w with rest := { w.rest with slab } }

def setTableRoom (w : World) (tableRoom : Nat) : World :=
  { w with rest := { w.rest with tableRoom } }

def alloc (len : Nat) (w : World) : Except AllocError Allocation × World :=
  let (result, slab) := w.rest.slab.alloc len
  (result, setSlab w slab)

def dealloc (a : Allocation) (w : World) : Except AllocError Unit × World :=
  let (result, slab) := w.rest.slab.dealloc a
  (result, setSlab w slab)

def acquire (size : Nat) (w : World) : Except AllocError DmaBuffer × World :=
  let (result, slab) := DmaBuffer.acquire w.rest.slab size
  (result, setSlab w slab)

def release (buf : DmaBuffer) (w : World) : World :=
  let (slab, host) := buf.discard w.rest.slab w.host
  { setSlab w slab with host }

def sync (buf : DmaBuffer) (w : World) : DmaBuffer × World :=
  let (buf, host) := buf.sync w.host
  (buf, { w with host })

def deliver (buf : DmaBuffer) (w : World) : World :=
  { w with rest := { w.rest with delivered := w.rest.delivered.push buf } }

def collect (w : World) : Array DmaBuffer × World :=
  (w.rest.delivered, { w with rest := { w.rest with delivered := #[] } })

def intoBytes (buf : DmaBuffer) (w : World) : List UInt8 × World :=
  (buf.data, release buf w)

/-- The platform over shared memory whose entries name return buffer manager `rbm`. -/
def platform (rbm : Nat) : Platform World SourceRing Reservation DmaBuffer where
  hardware := SourceRing.hardware
  pool :=
    { acquire := acquire
      release := release
      syncForCpu := sync }
  memory :=
    { alloc := alloc
      dealloc := dealloc }
  hasTableRoom capacity w := decide (capacity ≤ w.rest.tableRoom)
  register := SourceRing.registrar rbm
  deliver := deliver
  record event w := w.record event

end World

end FrameRing
