import FrameRing.Buffer
import FrameRing.Host
import FrameRing.Pool.Slab

/-! # Receive buffers carved from a slab

A buffer keeps its slots until it is given back. The host reads a copy of the device's bytes, made
by `sync`; a copy that cannot be made is left empty.
-/

namespace FrameRing

structure DmaBuffer where
  allocation : Allocation
  /-- Size asked for; the allocation is rounded up to whole slots. -/
  size : Nat
  data : List UInt8
  deriving DecidableEq, Repr

instance : RxBuffer DmaBuffer where
  busAddr b := b.allocation.addr
  data b := b.data
  pullHead b len := { b with data := b.data.drop len }
  trim b len := { b with data := b.data.take len }

namespace DmaBuffer

def acquire (slab : Slab) (size : Nat) : Except AllocError DmaBuffer × Slab :=
  match slab.alloc size with
  | (.error e, slab) => (.error e, slab)
  | (.ok allocation, slab) => (.ok ⟨allocation, size, []⟩, slab)

def sync (b : DmaBuffer) (h : Host) : DmaBuffer × Host :=
  match h.memory.read b.allocation.addr b.size with
  | .ok data => ({ b with data }, h)
  | .error _ =>
    ({ b with data := [] }, h.record (.bufferUnreadable b.allocation.addr b.size))

def discard (b : DmaBuffer) (slab : Slab) (h : Host) : Slab × Host :=
  match slab.dealloc b.allocation with
  | (.ok _, slab) => (slab, h)
  | (.error e, slab) => (slab, h.record (.bufferLeaked b.allocation.addr e))

end DmaBuffer

end FrameRing
