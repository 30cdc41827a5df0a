import FrameRing.Proofs.Pool.Marks
import Mathlib.Algebra.Order.Floor.Div
import Mathlib.GroupTheory.GroupAction.Ring

/-! # Where a request goes

Whatever was taken and given back before, a request is served whenever enough slots in a row are
free. It goes to the run freed last if that one is long enough, and otherwise as low as it can. -/

namespace FrameRing.Slab

variable {s : Slab} {want first len : Nat}

/-- The slot from which on `want` slots are taken. -/
inductive Chosen (s : Slab) (want : Nat) : Nat → Prop
  | again {run : Allocation} {first : Nat} (freed : s.lastFreed = some run)
      (enough : want * s.slotSize ≤ run.len) (starts : run.addr = s.base + first * s.slotSize) :
      Chosen s want first
  | lowest {first : Nat}
      (short : ∀ run, s.lastFreed = some run → run.len < want * s.slotSize)
      (free : RunAt s.busy false first want)
      (least : ∀ i, i < first → ¬ RunAt s.busy false i want) : Chosen s want first

theorem Chosen.free (hs : s.Sound) (h : s.Chosen want first) : RunAt s.busy false first want := by
  cases h with
  | lowest short free least => exact free
  | again freed enough starts =>
    obtain ⟨start, count, hspan, hfree⟩ := hs.cached _ freed
    have haddr := hspan.addr
    rw [starts] at haddr
    have hstart : first = start := Nat.eq_of_mul_eq_mul_right hs.slot_pos (by omega)
    rw [hspan.len] at enough
    rw [hstart]
    exact hfree.shorten (Nat.le_of_mul_le_mul_right enough hs.slot_pos)

theorem findRun_scan (short : ∀ run, s.lastFreed = some run → run.len < want * s.slotSize) :
    s.findRun want = (firstFree want s.busy, s) := by
  unfold findRun
  cases hl : s.lastFreed with
  | none => rfl
  | some run => exact if_neg (Nat.not_le_of_lt (short run hl))

/-- The search misses no run: it names the slots to take, or nowhere are enough free. -/
theorem findRun_complete (hs : s.Sound) (want : Nat) :
    (s.findRun want = (none, s) ∧ ∀ i, ¬ RunAt s.busy false i want) ∨
      ∃ first last, s.findRun want = (some first, { s with lastFreed := last }) ∧
        s.Chosen want first := by
  by_cases hcached : ∃ run, s.lastFreed = some run ∧ want * s.slotSize ≤ run.len
  · right
    obtain ⟨run, freed, enough⟩ := hcached
    obtain ⟨start, count, hspan, -⟩ := hs.cached run freed
    refine ⟨start, none, ?_, .again freed enough hspan.addr⟩
    simp only [findRun, freed, if_pos enough, hspan.slotOf? hs.slot_pos]
  · have short : ∀ run, s.lastFreed = some run → run.len < want * s.slotSize := by
      intro run freed
      apply Nat.lt_of_not_le
      intro enough
      exact hcached ⟨run, freed, enough⟩
    rw [findRun_scan short]
    cases hf : firstFree want s.busy with
    | none => exact .inl ⟨rfl, firstFree_eq_none hf⟩
    | some first =>
      obtain ⟨free, least⟩ := firstFree_eq_some hf
      exact .inr ⟨first, s.lastFreed, rfl, .lowest short free least⟩

theorem slotsFor_eq_ceilDiv (s : Slab) (len : Nat) : s.slotsFor len = len ⌈/⌉ s.slotSize :=
  (Nat.ceilDiv_eq_add_pred_div _ _).symm

/-- In a slab that was used in any way, a request for some bytes is served exactly if enough slots
in a row are free. Free slots are taken, the run freed last or else the lowest, and all others keep
their marks. A request that is not served changes nothing. -/
theorem alloc_complete {slotSize base size : Nat} {slab : Slab}
    (hc : create slotSize base size = .ok slab)
    (hl : base + size / slotSize * slotSize < addressLimit) (calls : List Call) (len : Nat) :
    let s := ((Tenancy.start slab).run calls).slab
    let want := len ⌈/⌉ slotSize
    let room := 0 < len ∧ ∃ i, RunAt s.busy false i want
    (room → ∃ first s',
      s.alloc len = (.ok ⟨base + first * slotSize, want * slotSize⟩, s') ∧
      s.Chosen want first ∧ RunAt s.busy false first want ∧
      ∀ i, s'.busy[i]? = if first ≤ i ∧ i < first + want then some true else s.busy[i]?) ∧
    (¬ room → s.alloc len = (.error (if len = 0 then .invalidArg else .outOfMemory), s)) := by
  intro s want room
  have h : s.Over slotSize base (size / slotSize * slotSize) := Tenancy.run_over hc hl calls
  have hs := h.toSound
  have hwant : s.slotsFor len = want := by rw [slotsFor_eq_ceilDiv, h.slotSize_eq]
  by_cases hlen : len = 0
  · constructor
    · intro hroom
      exact absurd hlen (Nat.ne_of_gt hroom.1)
    · intro _
      rw [if_pos hlen, hlen]
      exact s.alloc_empty
  rcases findRun_complete hs (s.slotsFor len) with ⟨hdry, hnone⟩ | ⟨first, last, hfound, hchosen⟩
  · rw [hwant] at hnone
    constructor
    · rintro ⟨-, i, hfree⟩
      exact absurd hfree (hnone i)
    · intro _
      rw [if_neg hlen]
      exact alloc_dry hlen hdry
  · have hfree := hchosen.free hs
    obtain ⟨hspan, kept, hgranted, -⟩ := alloc_found hs hlen hfound hfree
    have hmarks := fun i => getElem?_setRun true hspan.fits i
    rw [hwant] at hchosen hfree hgranted hmarks
    rw [h.base_eq, h.slotSize_eq] at hgranted
    constructor
    · intro _
      exact ⟨first, _, hgranted, hchosen, hfree, hmarks⟩
    · intro hfull
      exact absurd ⟨Nat.pos_of_ne_zero hlen, first, hfree⟩ hfull

/-- Six slots, the second and the last busy: two slots do not fit in the run freed last and go to
the lowest place that has them, one slot does, and four in a row are not there. -/
theorem alloc_complete_fragmented :
    let slab : Slab := ⟨64, 16, Array.replicate 6 false, none⟩
    let calls : List Call := [.alloc 96, .dealloc ⟨64, 16⟩, .dealloc ⟨96, 32⟩, .alloc 1,
      .dealloc ⟨96, 16⟩, .dealloc ⟨128, 16⟩, .dealloc ⟨64, 16⟩]
    let s := ((Tenancy.start slab).run calls).slab
    create 16 64 100 = .ok slab ∧ 64 + 100 / 16 * 16 < addressLimit ∧
      s.busy.toList = [false, true, false, false, false, true] ∧ s.lastFreed = some ⟨128, 16⟩ ∧
      (∃ first s', s.alloc 17 = (.ok ⟨96, 32⟩, s') ∧ s.Chosen (17 ⌈/⌉ 16) first ∧
        s'.busy.toList = [false, true, true, true, false, true]) ∧
      (s.alloc 16).1 = .ok ⟨128, 16⟩ ∧ s.alloc 49 = (.error .outOfMemory, s) := by
  intro slab calls s
  have hc : create 16 64 100 = .ok slab := rfl
  have hl : 64 + 100 / 16 * 16 < addressLimit := by decide
  have hbusy : s.busy = #[false, true, false, false, false, true] := by decide
  refine ⟨hc, hl, congrArg Array.toList hbusy, by decide, ?_, by decide, ?_⟩
  · have hroom : 0 < 17 ∧ ∃ i, RunAt s.busy false i (17 ⌈/⌉ 16) := by
      rw [hbusy]
      exact ⟨by decide, 2, by decide⟩
    obtain ⟨first, s', hgranted, hchosen, -, -⟩ := (alloc_complete hc hl calls 17).1 hroom
    have hanswer : (s.alloc 17).1 = .ok ⟨96, 32⟩ := by decide
    have hafter : (s.alloc 17).2.busy.toList = [false, true, true, true, false, true] := by decide
    have hslab : (s.alloc 17).2 = s' := congrArg Prod.snd hgranted
    rw [hslab] at hafter
    exact ⟨first, s', Prod.ext hanswer hslab, hchosen, hafter⟩
  · refine (alloc_complete hc hl calls 49).2 ?_
    rw [hbusy]
    rintro ⟨-, i, hfree⟩
    have hlast : i + 3 < 6 := hfree.lt_size (by omega) (Nat.add_lt_add_left (by decide) i)
    have hnone : ∀ i < 3,
        ¬ RunAt #[false, true, false, false, false, true] false i (49 ⌈/⌉ 16) := by decide
    exact hnone i (by omega) hfree

end FrameRing.Slab
