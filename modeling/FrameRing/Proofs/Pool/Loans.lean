import FrameRing.Proofs.Pool.Marks

/-! # Slots on loan

Whoever takes slots from a slab and gives all of them back leaves the marks as they were, in
whatever order the slots come back. -/

namespace FrameRing.Slab

variable {s s' s₀ : Slab} {a b : Allocation} {start count len i : Nat}
  {held held' : List Allocation}

def SlotIn (s : Slab) (a : Allocation) (i : Nat) : Prop :=
  a.addr ≤ s.base + i * s.slotSize ∧ s.base + i * s.slotSize < a.addr + a.len

instance (s : Slab) (a : Allocation) (i : Nat) : Decidable (s.SlotIn a i) :=
  inferInstanceAs (Decidable (_ ∧ _))

theorem Spans.slotIn_iff (h : s.Spans a start count) (hp : 0 < s.slotSize) :
    s.SlotIn a i ↔ start ≤ i ∧ i < start + count := by
  rw [SlotIn, h.bytes, h.addr, Nat.add_le_add_iff_left, Nat.add_lt_add_iff_left,
    Nat.mul_le_mul_right_iff hp, Nat.mul_lt_mul_right hp]

theorem Marked.busy_dealloc (h : s.Marked a) (hs : s.Sound) (i : Nat) :
    (s.dealloc a).2.busy[i]? = if s.SlotIn a i then some false else s.busy[i]? := by
  obtain ⟨start, count, hspan, hmark⟩ := h
  rw [dealloc_ok hs.slot_pos hspan hmark]
  simp only [getElem?_setRun false hspan.fits, hspan.slotIn_iff hs.slot_pos]

/-- Which run was freed last makes no difference to what can be freed. -/
theorem busy_dealloc_congr (hbase : s.base = s'.base) (hslot : s.slotSize = s'.slotSize)
    (hbusy : s.busy = s'.busy) (a : Allocation) :
    (s.dealloc a).2.busy = (s'.dealloc a).2.busy := by
  simp only [dealloc, slotOf?, hbase, hslot, hbusy]
  split
  · exact hbusy
  · split
    · exact hbusy
    · split
      · rfl
      · exact hbusy

/-- `held` was taken from slots that were free in `s₀`, and the others are marked as they were. -/
structure Lent (s₀ s : Slab) (held : List Allocation) : Prop extends s.Sound where
  base : s.base = s₀.base
  slotSize : s.slotSize = s₀.slotSize
  lent : ∀ a ∈ held, ∃ start count, s.Spans a start count ∧ RunAt s.busy true start count ∧
    RunAt s₀.busy false start count
  apart : held.Pairwise fun a b => ¬ Overlaps a b
  others : ∀ i, (∀ a ∈ held, ¬ s.SlotIn a i) → s.busy[i]? = s₀.busy[i]?

theorem Sound.lent (hs : s.Sound) : s.Lent s [] :=
  ⟨hs, rfl, rfl, by simp, .nil, fun _ _ => rfl⟩

namespace Lent

theorem perm (h : s₀.Lent s held) (hp : held.Perm held') : s₀.Lent s held' where
  toSound := h.toSound
  base := h.base
  slotSize := h.slotSize
  lent a ha := h.lent a (hp.mem_iff.mpr ha)
  apart := (hp.pairwise_iff fun hab hba => hab ⟨hba.2, hba.1⟩).mp h.apart
  others i hi := h.others i fun a ha => hi a (hp.mem_iff.mp ha)

/-- A request is served from slots that were free before the first of the loans. -/
theorem acquire (h : s₀.Lent s held) (ha : s.alloc len = (.ok a, s')) :
    s₀.Lent s' (a :: held) := by
  rcases alloc_cases h.toSound len with ⟨e, he, -⟩ | ⟨a', start, last, hspan, hfree, he, hlast⟩
  · cases ha.symm.trans he
  · cases ha.symm.trans he
    have hp := h.slot_pos
    have hsize := size_setRun s.busy start true (s.slotsFor len)
    have hbefore {b : Allocation} (hb : b ∈ held) : ¬ Overlaps a b := by
      obtain ⟨i, n, hspan', hmark, -⟩ := h.lent b hb
      rw [hspan.overlaps_iff hp hspan']
      exact hfree.apart hmark hspan.pos hspan'.pos
    have hslotIn (b : Allocation) (i : Nat) :
        SlotIn { s with busy := setRun s.busy start true (s.slotsFor len), lastFreed := last } b i ↔
          s.SlotIn b i := Iff.rfl
    constructor
    case toSound => exact h.toSound.take hspan hlast
    case base => exact h.base
    case slotSize => exact h.slotSize
    case apart => exact .cons (fun b hb => hbefore hb) h.apart
    case lent =>
      intro b hb
      rcases List.mem_cons.mp hb with rfl | hb
      · refine ⟨start, _, hspan.remark hsize last, runAt_setRun true hspan.fits, ?_⟩
        intro i hlow hhigh
        rw [← h.others i, hfree i hlow hhigh]
        intro c hc hin
        obtain ⟨j, n, hspan', hmark, -⟩ := h.lent c hc
        obtain ⟨hlow', hhigh'⟩ := (hspan'.slotIn_iff hp).mp hin
        cases (hfree i hlow hhigh).symm.trans (hmark i hlow' hhigh')
      · obtain ⟨j, n, hspan', hmark, hwas⟩ := h.lent b hb
        have hapart := hbefore hb
        rw [hspan.overlaps_iff hp hspan'] at hapart
        exact ⟨j, n, hspan'.remark hsize last,
          hmark.setRun true hspan.fits fun hboth => hapart hboth, hwas⟩
    case others =>
      intro i hi
      have hout : ¬ (start ≤ i ∧ i < start + s.slotsFor len) := fun hin =>
        hi a List.mem_cons_self ((hslotIn a i).mpr ((hspan.slotIn_iff hp).mpr hin))
      rw [getElem?_setRun true hspan.fits, if_neg hout]
      exact h.others i fun b hb hin => hi b (List.mem_cons_of_mem a hb) hin

theorem release (h : s₀.Lent s (a :: held)) : s₀.Lent (s.dealloc a).2 held := by
  obtain ⟨start, count, hspan, hmark, hwas⟩ := h.lent a List.mem_cons_self
  have hp := h.slot_pos
  have hsize := size_setRun s.busy start false count
  have hapart := List.pairwise_cons.mp h.apart
  rw [dealloc_ok hp hspan hmark]
  constructor
  case toSound => exact h.toSound.give hspan
  case base => exact h.base
  case slotSize => exact h.slotSize
  case apart => exact hapart.2
  case lent =>
    intro b hb
    obtain ⟨j, n, hspan', hmark', hwas'⟩ := h.lent b (List.mem_cons_of_mem a hb)
    have hno := hapart.1 b hb
    rw [hspan.overlaps_iff hp hspan'] at hno
    exact ⟨j, n, hspan'.remark hsize _, hmark'.setRun false hspan.fits fun hboth => hno hboth,
      hwas'⟩
  case others =>
    intro i hi
    rw [getElem?_setRun false hspan.fits]
    by_cases hin : start ≤ i ∧ i < start + count
    · rw [if_pos hin, hwas i hin.1 hin.2]
    · rw [if_neg hin]
      apply h.others
      intro b hb hslot
      rcases List.mem_cons.mp hb with rfl | hb
      · exact hin ((hspan.slotIn_iff hp).mp hslot)
      · exact hi b hb hslot

/-- When nothing is on loan any more, the marks are as they were. -/
theorem settled (h : s₀.Lent s []) : s.busy = s₀.busy := by
  apply Array.ext_getElem?
  intro i
  exact h.others i (by simp)

end Lent

end FrameRing.Slab
