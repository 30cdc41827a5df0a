import FrameRing.Address

/-! # Allocations of device-visible memory -/

namespace FrameRing

structure Allocation where
  addr : Nat
  len : Nat
  deriving DecidableEq, Repr

inductive AllocError where
  | invalidAlign (addr : Nat)
  | invalidFree (addr len : Nat)
  | invalidArg
  | emptyRegion
  | outOfMemory
  | overflow
  deriving DecidableEq, Repr

def AllocError.message : AllocError → String
  | .invalidAlign addr => s!"Invalid region addr {hexAddress addr}"
  | .invalidFree addr len => s!"Invalid free addr {hexAddress addr} and size {len}"
  | .invalidArg => "Invalid argument"
  | .emptyRegion => "Empty region"
  | .outOfMemory => "Out of memory"
  | .overflow => "Overflow"

/-- An allocation whose cleanup is owed until the guard is dismissed. -/
structure AllocGuard where
  allocation : Allocation
  owed : Bool
  deriving DecidableEq, Repr

namespace AllocGuard

def hold (a : Allocation) : AllocGuard := ⟨a, true⟩

def dismiss (g : AllocGuard) : Allocation × AllocGuard :=
  (g.allocation, { g with owed := false })

def close {ω : Type} (g : AllocGuard) (cleanup : Allocation → ω → ω) (w : ω) : ω :=
  if g.owed then cleanup g.allocation w else w

end AllocGuard

end FrameRing
