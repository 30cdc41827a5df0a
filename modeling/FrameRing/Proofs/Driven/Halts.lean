import FrameRing.Proofs.Driven.Supply
import FrameRing.Proofs.SourceRing.Alike
import FrameRing.Proofs.SourceRing.Arming

/-! # Where a pass halts

A pass takes one completion after the other. Whether it gets past one of them is decided by what lay
in memory when the pass began, by the buffers that the pool is going to hand out and by where the
ring stands: the entries that it arms on its way are not the ones that it has yet to read. -/

namespace FrameRing

namespace SourceRing

variable {r r' : SourceRing} {t : Tally} {m m' m'' : HostMemory} {res : Reservation}

def readEntry? (r : SourceRing) (m : HostMemory) (idx : Nat) : Option RingEntry :=
  match r.layout.entryAddr? idx with
  | none => none
  | some addr =>
    match m.read addr RingEntry.size with
    | .ok bytes => some (.ofBytes bytes)
    | .error _ => none

theorem nextEntry_pending (hs : r.inAccess = true) (hne : r.next r.reapHead ≠ r.cachedTail)
    (h : Host) :
    (∃ entry, r.readEntry? h.memory (r.next r.reapHead) = some entry ∧
      r.nextEntry h = (some ⟨r.next r.reapHead, entry, true⟩, h)) ∨
    (r.readEntry? h.memory (r.next r.reapHead) = none ∧
      ∃ journal, r.nextEntry h = (none, ⟨h.memory, journal⟩)) := by
  have hopen : ¬ (r.inAccess = false ∨ r.next r.reapHead = r.cachedTail) := by
    rintro (hclosed | hnone)
    · cases hs.symm.trans hclosed
    · exact hne hnone
  simp only [nextEntry, readEntry?, if_neg hopen]
  cases r.layout.entryAddr? (r.next r.reapHead) with
  | none => exact .inr ⟨rfl, h.journal, rfl⟩
  | some addr =>
    simp only
    cases h.memory.read addr RingEntry.size with
    | ok bytes => exact .inl ⟨_, rfl, rfl⟩
    | error e => exact .inr ⟨rfl, _, rfl⟩

def turned (r : SourceRing) (k : Nat) : SourceRing :=
  { r with head := (r.head + k) % r.numEntries, reapHead := (r.reapHead + k) % r.numEntries }

theorem Tracks.turned_zero (h : Tracks r t) : r.turned 0 = r := by
  have hpos : 0 < r.numEntries := Nat.lt_of_lt_of_le (by decide) h.size
  have hhead : r.head % r.numEntries = r.head := by
    rw [h.head, Nat.mod_mod]
  simp only [SourceRing.turned, Nat.add_zero, hhead, Nat.mod_eq_of_lt h.reapHead_lt]

theorem Tracks.turned (h : Tracks r t) {k : Nat} (hk : t.reaped + k ≤ t.accepted) :
    Tracks (r.turned k) ⟨t.armed + k, t.accepted, t.reaped + k⟩ := by
  have hpos : 0 < r.numEntries := Nat.lt_of_lt_of_le (by decide) h.size
  have haccepted := h.accepted_le
  have harmed := h.armed_lt
  constructor
  case size => exact h.size
  case stride => exact h.stride
  case reaped_le => exact hk
  case accepted_le => exact Nat.le_trans haccepted (Nat.le_add_right _ _)
  case armed_lt =>
    change t.armed + k < t.reaped + k + r.numEntries
    omega
  case head =>
    change (r.head + k) % r.numEntries = (t.armed + k) % r.numEntries
    rw [h.head, Nat.mod_add_mod]
  case cachedTail => exact h.cachedTail
  case reapHead_lt => exact Nat.mod_lt _ hpos
  case reapHead =>
    have hnext : (r.reapHead + 1) % r.numEntries = t.reaped % r.numEntries := h.reapHead
    change ((r.reapHead + k) % r.numEntries + 1) % r.numEntries = (t.reaped + k) % r.numEntries
    rw [Nat.mod_add_mod, Nat.add_right_comm, ← Nat.mod_add_mod, hnext, Nat.mod_add_mod]

theorem turned_armed (r : SourceRing) (k : Nat) (hdone : res.completed = true)
    (hidx : res.index = (r.turned k).next (r.turned k).reapHead) :
    (r.turned k).armed res = r.turned (k + 1) := by
  have hhead : (r.turned k).next (r.turned k).head = (r.head + (k + 1)) % r.numEntries :=
    Nat.mod_add_mod ..
  have hreap : (r.turned k).reapHeadAfter res = (r.reapHead + (k + 1)) % r.numEntries := by
    rw [reapHeadAfter, if_pos hdone, hidx]
    exact Nat.mod_add_mod ..
  rw [SourceRing.armed, hhead, hreap]
  rfl

/-- In `m'` the same accesses fail as in `m`, and the entries that completed and are not reaped
read the same. -/
structure SameEntries (r : SourceRing) (t : Tally) (m m' : HostMemory) : Prop where
  alike : m.Alike m'
  entries : ∀ k, t.reaped ≤ k → k < t.accepted →
    r.readEntry? m' (k % r.numEntries) = r.readEntry? m (k % r.numEntries)

theorem SameEntries.refl (r : SourceRing) (t : Tally) (m : HostMemory) : SameEntries r t m m where
  alike := .refl m
  entries _ _ _ := rfl

/-- An arm leaves the entries alone that are still to be read. -/
theorem SameEntries.arm (h : SameEntries r t m m') (ht : Tracks r t) {busAddr cookie : Nat}
    (ho : r.setEntry m' res busAddr cookie = (.ok (), r', m'')) :
    SameEntries r' (t.arm res) m m'' := by
  rcases r.setEntry_cases m' res busAddr cookie with
    ⟨e, he⟩ | ⟨entry, addr, -, hcur, hroom, -, haddr, -, he⟩
  · cases ho.symm.trans he
  · cases ho.symm.trans he
    have harmed := (ht.arm hcur hroom).armed_lt
    have hle := ht.accepted_le
    have hlater : t.reaped ≤ (t.arm res).reaped := Nat.le_add_right _ _
    have hwritten := m'.alike_write addr entry.toBytes
    refine ⟨h.alike.trans hwritten, ?_⟩
    intro k hk hka
    have hk : (t.arm res).reaped ≤ k := hk
    have hka : k < t.accepted := hka
    change r.readEntry? _ (k % r.numEntries) = r.readEntry? m (k % r.numEntries)
    rw [← h.entries k (Nat.le_trans hlater hk) hka]
    have hne : k % r.numEntries ≠ r.head := by
      rw [ht.head]
      apply position_ne
      · omega
      · have harmed : t.armed + 1 < (t.arm res).reaped + r.numEntries := harmed
        omega
    unfold readEntry?
    cases hat : r.layout.entryAddr? (k % r.numEntries) with
    | none => rfl
    | some at' =>
      have hapart := RingLayout.entries_apart ht.stride hne hat haddr
      have hspared : (m'.window.write addr entry.toBytes).2.read at' RingEntry.size =
          m'.window.read at' RingEntry.size :=
        Window.read_write_of_apart (by rwa [RingEntry.length_toBytes])
      have hsame := hwritten.read hspared.symm
      simp only [hsame]

end SourceRing

/-- Why a pass does not get past a completion. -/
inductive Halt where
  | unreadable
  | mismatch (cookie : Nat)
  | dry (cause : AllocError)
  | refused (cause : SourceRingError)
  deriving DecidableEq, Repr

variable {σ β : Type} [RxBuffer β]

/-- What a section sets out from when it is open. -/
structure Outset (σ β : Type) where
  supply : Supply σ β
  size : Nat
  ring : SourceRing
  memory : HostMemory
  rest : σ
  table : SlotTable β
  cursor : RingCursor
  stats : RingStats

def Ring.outset (ring : Ring SourceRing β) (supply : Supply σ β) (r : SourceRing) (tail : Nat)
    (w : Machine σ) : Outset σ β where
  supply
  size := ring.geometry.bufferSize
  ring := { r with cachedTail := tail, inAccess := true }
  memory := w.host.memory
  rest := w.rest
  table := ring.table
  cursor := ring.cursor
  stats := ring.stats

namespace Outset

/-- The slot that the completion behind `i` others belongs to. -/
def due (o : Outset σ β) (i : Nat) : Nat := (o.cursor.readIdx + i) % o.cursor.size

def free (o : Outset σ β) (i : Nat) : Nat := (o.cursor.writeIdx + i) % o.cursor.size

/-- What stops the pass at the completion behind `i` others, all of which it got past. -/
def haltAt (o : Outset σ β) (i : Nat) : Option Halt :=
  match o.ring.readEntry? o.memory (o.due i) with
  | none => some .unreadable
  | some entry =>
    if entry.cookie ≠ o.due i then some (.mismatch entry.cookie)
    else
      match o.supply.nth o.size o.rest i with
      | .error e => some (.dry e)
      | .ok b =>
        match ((o.ring.turned i).setEntry o.memory ⟨o.due i, entry, true⟩ (RxBuffer.busAddr b)
          (o.free i)).1 with
        | .error e => some (.refused e)
        | .ok _ => none

end Outset

end FrameRing
