import FrameRing.LittleEndian
import FrameRing.Address

/-! # A window of shared memory

Host and device see the same bytes at the same bus addresses. The window is flat: an access is
granted exactly when all of its bytes lie inside (`Covers`), and a refused access changes nothing.
Pointer words are the little-endian view of the same bytes.
-/

namespace FrameRing

structure MemFault where
  addr : Nat
  deriving DecidableEq, Repr

def MemFault.message (fault : MemFault) : String :=
  s!"Bad shared memory access at {hexAddress fault.addr}"

/-- Bytes at consecutive bus addresses from `base` on. -/
structure Window where
  base : Nat
  bytes : Array UInt8

namespace Window

def zeroed (base size : Nat) : Window :=
  ⟨base, Array.replicate size 0⟩

def size (m : Window) : Nat :=
  m.bytes.size

/-- All of `len` bytes from `addr` on lie inside. An empty access may sit at either end. -/
def Covers (m : Window) (addr len : Nat) : Prop :=
  m.base ≤ addr ∧ addr - m.base + len ≤ m.size

instance (m : Window) (addr len : Nat) : Decidable (m.Covers addr len) :=
  inferInstanceAs (Decidable (_ ∧ _))

def byteAt? (m : Window) (addr : Nat) : Option UInt8 :=
  if m.base ≤ addr then m.bytes[addr - m.base]? else none

def overlay (cells : Array UInt8) (start : Nat) : List UInt8 → Array UInt8
  | [] => cells
  | b :: bs => overlay (cells.setIfInBounds start b) (start + 1) bs

@[simp] theorem size_overlay (cells : Array UInt8) (start : Nat) (src : List UInt8) :
    (overlay cells start src).size = cells.size := by
  induction src generalizing cells start with
  | nil => rfl
  | cons b bs ih => simp [overlay, ih]

theorem getElem?_overlay (cells : Array UInt8) (start i : Nat) (src : List UInt8)
    (fits : start + src.length ≤ cells.size) :
    (overlay cells start src)[i]? =
      if start ≤ i ∧ i < start + src.length then src[i - start]? else cells[i]? := by
  induction src generalizing cells start with
  | nil =>
    have outside : ¬ (start ≤ i ∧ i < start + ([] : List UInt8).length) := by
      rw [List.length_nil]
      omega
    rw [overlay, if_neg outside]
  | cons b bs ih =>
    simp only [List.length_cons] at fits ⊢
    have fits' : start + 1 + bs.length ≤ (cells.setIfInBounds start b).size := by
      rw [Array.size_setIfInBounds]
      omega
    rw [overlay, ih _ _ fits', Array.getElem?_setIfInBounds]
    by_cases at_start : start = i
    · subst at_start
      have inside : start < cells.size := by omega
      rw [if_neg (by omega), if_pos rfl, if_pos inside, if_pos (by omega)]
      simp
    · by_cases after : start + 1 ≤ i ∧ i < start + 1 + bs.length
      · have shift : i - start = (i - (start + 1)) + 1 := by omega
        rw [if_pos after, if_pos (by omega), shift, List.getElem?_cons_succ]
      · rw [if_neg after, if_neg at_start, if_neg (by omega)]

def read (m : Window) (addr len : Nat) : Except MemFault (List UInt8) :=
  if m.Covers addr len then
    .ok (m.bytes.extract (addr - m.base) (addr - m.base + len)).toList
  else .error ⟨addr⟩

def write (m : Window) (addr : Nat) (src : List UInt8) : Except MemFault Unit × Window :=
  if m.Covers addr src.length then
    (.ok (), { m with bytes := overlay m.bytes (addr - m.base) src })
  else (.error ⟨addr⟩, m)

/-- A granted write is seen at exactly the addresses that it covers. -/
theorem byteAt?_write {m : Window} {addr : Nat} {src : List UInt8}
    (granted : m.Covers addr src.length) (a : Nat) :
    (m.write addr src).2.byteAt? a =
      if addr ≤ a ∧ a < addr + src.length then src[a - addr]? else m.byteAt? a := by
  obtain ⟨low, high⟩ := granted
  rw [write, if_pos ⟨low, high⟩]
  simp only [byteAt?]
  by_cases inside : m.base ≤ a
  · have same : a - m.base - (addr - m.base) = a - addr := by omega
    have fits : addr - m.base + src.length ≤ m.bytes.size := high
    rw [if_pos inside, if_pos inside, getElem?_overlay _ _ _ _ fits, same]
    by_cases covered : addr ≤ a ∧ a < addr + src.length
    · rw [if_pos covered, if_pos (by omega)]
    · rw [if_neg covered, if_neg (by omega)]
  · rw [if_neg inside, if_neg inside, if_neg (by omega)]

def loadWord (m : Window) (addr : Nat) : Except MemFault Nat :=
  (m.read addr 4).map LittleEndian.decode

def storeWord (m : Window) (addr word : Nat) : Except MemFault Unit × Window :=
  m.write addr (LittleEndian.encode 4 word)

end Window

end FrameRing
