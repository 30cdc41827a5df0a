import FrameRing.Buffer

/-! # Slot table

The ring's buffers lie in numbered slots. The number of a slot is the cookie that the device hands
back, so a completion leads to its buffer without an address being trusted.
-/

namespace FrameRing

structure Slot (β : Type) where
  buffer : Option β
  /-- Bus address of the buffer armed here last. -/
  busAddr : Nat
  cookie : Nat

namespace Slot

variable {β : Type}

def empty (cookie : Nat) : Slot β := ⟨none, 0, cookie⟩

def inUse (s : Slot β) : Bool := s.buffer.isSome

def vacated (s : Slot β) : Slot β := { s with buffer := none }

end Slot

structure SlotTable (β : Type) where
  slots : Array (Slot β)

namespace SlotTable

variable {β : Type}

def withCapacity (capacity : Nat) : SlotTable β :=
  ⟨(Array.range capacity).map Slot.empty⟩

def empty : SlotTable β := ⟨#[]⟩

def capacity (t : SlotTable β) : Nat := t.slots.size

def slot? (t : SlotTable β) (idx : Nat) : Option (Slot β) := t.slots[idx]?

def isArmed (t : SlotTable β) (idx : Nat) : Bool :=
  (t.slot? idx).any Slot.inUse

def inUseCount (t : SlotTable β) : Nat := t.slots.countP Slot.inUse

def buffers (t : SlotTable β) : List β := t.slots.toList.filterMap Slot.buffer

theorem slot?_withCapacity (capacity idx : Nat) :
    (withCapacity capacity : SlotTable β).slot? idx =
      if idx < capacity then some (Slot.empty idx) else none := by
  by_cases h : idx < capacity <;> simp [slot?, withCapacity, h]

def arm [RxBuffer β] (t : SlotTable β) (idx : Nat) (buf : β) : Except β (SlotTable β) :=
  match t.slot? idx with
  | none => .error buf
  | some s =>
    if s.inUse then .error buf
    else .ok ⟨t.slots.setIfInBounds idx ⟨some buf, RxBuffer.busAddr buf, s.cookie⟩⟩

def retire (t : SlotTable β) (idx : Nat) : Option β × SlotTable β :=
  match t.slot? idx with
  | none => (none, t)
  | some s => (s.buffer, ⟨t.slots.setIfInBounds idx s.vacated⟩)

/-- Length of the shortest front of a row of slots that holds `k` buffers, or of the whole row if
it holds fewer. `passed` slots lie before the row. -/
def frontLength : Nat → List (Slot β) → Nat → Nat
  | 0, _, passed => passed
  | _ + 1, [], passed => passed
  | k + 1, s :: slots, passed => frontLength (if s.inUse then k else k + 1) slots (passed + 1)

theorem frontLength_passed (k : Nat) (slots : List (Slot β)) (passed : Nat) :
    frontLength k slots passed = passed + frontLength k slots 0 := by
  induction slots generalizing k passed with
  | nil => cases k <;> rfl
  | cons s slots ih =>
    cases k with
    | zero => rfl
    | succ k =>
      rw [frontLength, frontLength, ih _ (passed + 1), ih _ (0 + 1)]
      omega

/-- Take up to `k` buffers out, lowest slot first. The others stay armed. -/
def drain (t : SlotTable β) (k : Nat) : List β × SlotTable β :=
  let slots := t.slots.toList
  let cut := frontLength k slots 0
  let front := slots.take cut
  (front.filterMap Slot.buffer, ⟨(front.map Slot.vacated ++ slots.drop cut).toArray⟩)

end SlotTable

end FrameRing
