import FrameRing.Entry

/-! # Layout of a source ring in device-visible memory

From an aligned base: the entries, one per stride, then the head word, then the tail word. The
space that a ring needs is rounded up to the base alignment, so that rings can be placed back to
back.
-/

namespace FrameRing

def alignUp (n unit : Nat) : Nat :=
  (n + unit - 1) / unit * unit

structure RingLayout where
  baseAddr : Nat
  numEntries : Nat
  entrySize : Nat
  headAddr : Nat
  tailAddr : Nat
  deriving DecidableEq, Repr

namespace RingLayout

def baseAlign : Nat := 32

def wordSize : Nat := 4

def headOffset (numEntries entrySize : Nat) : Nat :=
  alignUp (numEntries * entrySize) wordSize

/-- Bytes of device-visible memory that a ring needs. -/
def querySize (numEntries entrySize : Nat) : Nat :=
  alignUp (headOffset numEntries entrySize + 2 * wordSize) baseAlign

def StrideOk (entrySize : Nat) : Prop :=
  RingEntry.size ≤ entrySize ∧ entrySize % RingEntry.align = 0

instance (entrySize : Nat) : Decidable (StrideOk entrySize) :=
  inferInstanceAs (Decidable (_ ∧ _))

def ofBase (base numEntries entrySize : Nat) : Except SourceRingError RingLayout :=
  if base % baseAlign = 0 ∧ StrideOk entrySize then
    let headAddr := base + headOffset numEntries entrySize
    .ok ⟨base, numEntries, entrySize, headAddr, headAddr + wordSize⟩
  else .error .invalidLayout

def entryAddr? (l : RingLayout) (idx : Nat) : Option Nat :=
  let addr := l.baseAddr + idx * l.entrySize
  if idx < l.numEntries ∧ addr < addressLimit then some addr else none

end RingLayout

end FrameRing
