import FrameRing.Pool.Allocation

/-! # Slab allocator

A fixed region is carved into slots of one size. A request takes the run of slots freed last if it
is long enough, and otherwise the lowest run of free slots that is. The run freed last is
remembered until it is handed out or another allocation takes a part of it.
-/

namespace FrameRing

structure Slab where
  base : Nat
  slotSize : Nat
  busy : Array Bool
  /-- The run freed last, while all of it is still free. -/
  lastFreed : Option Allocation
  deriving DecidableEq, Repr

namespace Slab

/-- The `n` slots from `start` on exist and all carry `mark`. -/
def RunAt (busy : Array Bool) (mark : Bool) (start n : Nat) : Prop :=
  ∀ i, start ≤ i → i < start + n → busy[i]? = some mark

def isRun (busy : Array Bool) (mark : Bool) : Nat → Nat → Bool
  | 0, _ => true
  | n + 1, start => busy[start]? == some mark && isRun busy mark n (start + 1)

theorem isRun_iff (busy : Array Bool) (mark : Bool) (n start : Nat) :
    isRun busy mark n start = true ↔ RunAt busy mark start n := by
  induction n generalizing start with
  | zero => exact ⟨fun _ i low high => absurd low (by omega), fun _ => rfl⟩
  | succ n ih =>
    rw [isRun, Bool.and_eq_true, beq_iff_eq, ih]
    constructor
    · rintro ⟨first, rest⟩ i low high
      by_cases here : i = start
      · rw [here]
        exact first
      · exact rest i (by omega) (by omega)
    · exact fun run =>
        ⟨run start (Nat.le_refl start) (by omega), fun i low high => run i (by omega) (by omega)⟩

instance (busy : Array Bool) (mark : Bool) (start n : Nat) : Decidable (RunAt busy mark start n) :=
  decidable_of_iff _ (isRun_iff busy mark n start)

theorem RunAt.shorten {busy : Array Bool} {mark : Bool} {start n k : Nat}
    (run : RunAt busy mark start n) (short : k ≤ n) : RunAt busy mark start k :=
  fun i low high => run i low (by omega)

theorem RunAt.snoc {busy : Array Bool} {mark : Bool} {start n : Nat}
    (run : RunAt busy mark start n) (last : busy[start + n]? = some mark) :
    RunAt busy mark start (n + 1) := by
  intro i low high
  by_cases here : i = start + n
  · rw [here]
    exact last
  · exact run i low (by omega)

/-- Look on for `want` free slots in a row, where the `run` slots from `start` on are free and
`left` slots behind them are still to be seen. One pass is enough: a busy slot rules out every
start up to itself. -/
def scanFree (busy : Array Bool) (want : Nat) : Nat → Nat → Nat → Option Nat
  | 0, start, run => if want ≤ run then some start else none
  | left + 1, start, run =>
    if want ≤ run then some start
    else if busy[start + run]? = some false then scanFree busy want left start (run + 1)
    else scanFree busy want left (start + run + 1) 0

def firstFree (want : Nat) (busy : Array Bool) : Option Nat :=
  scanFree busy want busy.size 0 0

/-- A slot that is not free rules out the starts from which a run would have to cross it. -/
theorem not_runAt_behind {busy : Array Bool} {want start run : Nat} (short : run < want)
    (taken : busy[start + run]? ≠ some false)
    (earlier : ∀ i, i < start → ¬ RunAt busy false i want) (i : Nat) (hi : i < start + run + 1) :
    ¬ RunAt busy false i want := by
  by_cases before : i < start
  · exact earlier i before
  · exact fun free => taken (free (start + run) (by omega) (by omega))

theorem scanFree_eq_some {busy : Array Bool} {want left start run found : Nat}
    (free : RunAt busy false start run) (earlier : ∀ i, i < start → ¬ RunAt busy false i want)
    (h : scanFree busy want left start run = some found) :
    RunAt busy false found want ∧ ∀ i, i < found → ¬ RunAt busy false i want := by
  induction left generalizing start run with
  | zero =>
    rw [scanFree] at h
    split at h
    · rename_i enough
      cases h
      exact ⟨free.shorten enough, earlier⟩
    · cases h
  | succ left ih =>
    rw [scanFree] at h
    split at h
    · rename_i enough
      cases h
      exact ⟨free.shorten enough, earlier⟩
    · rename_i short
      split at h
      · rename_i next
        exact ih (free.snoc next) earlier h
      · rename_i taken
        exact ih (fun i low high => absurd low (by omega))
          (not_runAt_behind (Nat.lt_of_not_le short) taken earlier) h

theorem scanFree_eq_none {busy : Array Bool} {want left start run : Nat}
    (all : start + run + left = busy.size)
    (earlier : ∀ i, i < start → ¬ RunAt busy false i want)
    (h : scanFree busy want left start run = none) (i : Nat) : ¬ RunAt busy false i want := by
  induction left generalizing start run with
  | zero =>
    rw [scanFree] at h
    split at h
    · cases h
    · rename_i short
      have past : ∀ k, busy.size ≤ k → busy[k]? ≠ some false := by
        intro k hk free
        rw [Array.getElem?_eq_none hk] at free
        cases free
      by_cases inside : i < start + run + 1
      · exact not_runAt_behind (Nat.lt_of_not_le short) (past _ (by omega)) earlier i inside
      · exact fun free => past i (by omega) (free i (Nat.le_refl i) (by omega))
  | succ left ih =>
    rw [scanFree] at h
    split at h
    · cases h
    · rename_i short
      split at h
      · exact ih (by omega) earlier h
      · rename_i taken
        exact ih (by omega) (not_runAt_behind (Nat.lt_of_not_le short) taken earlier) h

/-- A run that is found is free, and no run starts before it. -/
theorem firstFree_eq_some {want start : Nat} {busy : Array Bool}
    (h : firstFree want busy = some start) :
    RunAt busy false start want ∧ ∀ i, i < start → ¬ RunAt busy false i want :=
  scanFree_eq_some (fun i low high => absurd low (by omega))
    (fun i hi => absurd hi (Nat.not_lt_zero i)) h

theorem firstFree_eq_none {want : Nat} {busy : Array Bool} (h : firstFree want busy = none)
    (i : Nat) : ¬ RunAt busy false i want :=
  scanFree_eq_none (by omega) (fun i hi => absurd hi (Nat.not_lt_zero i)) h i

def setRun (busy : Array Bool) (start : Nat) (mark : Bool) : Nat → Array Bool
  | 0 => busy
  | n + 1 => setRun (busy.setIfInBounds start mark) (start + 1) mark n

@[simp] theorem size_setRun (busy : Array Bool) (start : Nat) (mark : Bool) (n : Nat) :
    (setRun busy start mark n).size = busy.size := by
  induction n generalizing busy start with
  | zero => rfl
  | succ n ih => rw [setRun, ih, Array.size_setIfInBounds]

theorem getElem?_setRun {busy : Array Bool} {start n : Nat} (mark : Bool)
    (fits : start + n ≤ busy.size) (i : Nat) :
    (setRun busy start mark n)[i]? =
      if start ≤ i ∧ i < start + n then some mark else busy[i]? := by
  induction n generalizing busy start with
  | zero => rw [setRun, if_neg (by omega)]
  | succ n ih =>
    rw [setRun, ih (by rw [Array.size_setIfInBounds]; omega), Array.getElem?_setIfInBounds]
    by_cases here : start = i
    · rw [if_neg (by omega), if_pos here, if_pos (by omega), if_pos (by omega)]
    · by_cases inside : start + 1 ≤ i ∧ i < start + 1 + n
      · rw [if_pos inside, if_pos (by omega)]
      · rw [if_neg inside, if_neg here, if_neg (by omega)]

/-- A slab over `len` bytes from `base` on, rounded down to whole slots, all free. -/
def create (slotSize base len : Nat) : Except AllocError Slab :=
  if base % slotSize ≠ 0 then .error (.invalidAlign base)
  else if len / slotSize = 0 then .error .emptyRegion
  else .ok ⟨base, slotSize, Array.replicate (len / slotSize) false, none⟩

def freeBytes (s : Slab) : Nat :=
  s.busy.count false * s.slotSize

def capacity (s : Slab) : Nat :=
  s.busy.size * s.slotSize

def range (s : Slab) : Nat × Nat :=
  (s.base, s.base + s.capacity)

def contains (s : Slab) (addr : Nat) : Bool :=
  s.base ≤ addr && addr < s.base + s.capacity

def addrOf? (s : Slab) (slot : Nat) : Option Nat :=
  let addr := s.base + slot * s.slotSize
  if addr < addressLimit then some addr else none

def slotOf? (s : Slab) (addr : Nat) : Option Nat :=
  if s.base ≤ addr ∧ (addr - s.base) % s.slotSize = 0 then
    some ((addr - s.base) / s.slotSize)
  else none

def slotsFor (s : Slab) (len : Nat) : Nat :=
  (len + s.slotSize - 1) / s.slotSize

/-- Where `want` slots can be taken. Choosing the run freed last uses it up. -/
def findRun (s : Slab) (want : Nat) : Option Nat × Slab :=
  match s.lastFreed with
  | none => (firstFree want s.busy, s)
  | some run =>
    if want * s.slotSize ≤ run.len then (s.slotOf? run.addr, { s with lastFreed := none })
    else (firstFree want s.busy, s)

def Overlaps (a b : Allocation) : Prop :=
  a.addr < b.addr + b.len ∧ b.addr < a.addr + a.len

instance (a b : Allocation) : Decidable (Overlaps a b) :=
  inferInstanceAs (Decidable (_ ∧ _))

/-- The run freed last is no longer all free once `a` took a part of it. -/
def forgetOverlapping (s : Slab) (a : Allocation) : Slab :=
  match s.lastFreed with
  | none => s
  | some run => if Overlaps a run then { s with lastFreed := none } else s

def alloc (s : Slab) (len : Nat) : Except AllocError Allocation × Slab :=
  if len = 0 then (.error .invalidArg, s)
  else
    let want := s.slotsFor len
    if s.busy.size < want then (.error .outOfMemory, s)
    else
      match s.findRun want with
      | (none, s) => (.error .outOfMemory, s)
      | (some start, s) =>
        match s.addrOf? start with
        | none => (.error .overflow, s)
        | some addr =>
          let a : Allocation := ⟨addr, want * s.slotSize⟩
          (.ok a, { s with busy := setRun s.busy start true want }.forgetOverlapping a)

/-- Free a run of busy slots. Anything else is refused and changes nothing. -/
def dealloc (s : Slab) (a : Allocation) : Except AllocError Unit × Slab :=
  let refused := (.error (.invalidFree a.addr a.len), s)
  if a.len = 0 ∨ a.len % s.slotSize ≠ 0 then refused
  else
    match s.slotOf? a.addr with
    | none => refused
    | some start =>
      let count := a.len / s.slotSize
      if RunAt s.busy true start count then
        (.ok (), { s with busy := setRun s.busy start false count, lastFreed := some a })
      else refused

end Slab

end FrameRing
