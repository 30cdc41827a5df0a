import FrameRing.Proofs.Pool.Loans

/-! # What can be given back

Busy slots can be freed, by whoever names exactly them. Anything else that is given back, wherever
it points and however long it is, is refused and changes nothing. -/

namespace FrameRing.Slab

variable {s s' : Slab} {a b : Allocation} {i len : Nat}

structure Returnable (s : Slab) (a : Allocation) : Prop where
  pos : 0 < a.len
  whole : s.slotSize ∣ a.len
  above : s.base ≤ a.addr
  aligned : s.slotSize ∣ a.addr - s.base
  below : a.addr + a.len ≤ s.base + s.capacity
  busy : ∀ i, s.SlotIn a i → s.busy[i]? = some true

theorem Returnable.spans (h : s.Returnable a) (hp : 0 < s.slotSize) :
    s.Spans a ((a.addr - s.base) / s.slotSize) (a.len / s.slotSize) := by
  have hlen : a.len / s.slotSize * s.slotSize = a.len := Nat.div_mul_cancel h.whole
  have hoff : (a.addr - s.base) / s.slotSize * s.slotSize = a.addr - s.base :=
    Nat.div_mul_cancel h.aligned
  have habove := h.above
  have hbelow := h.below
  constructor
  case pos => exact Nat.div_pos (Nat.le_of_dvd h.pos h.whole) hp
  case fits =>
    apply Nat.le_of_mul_le_mul_right _ hp
    rw [Nat.add_mul, hlen, hoff]
    rw [capacity] at hbelow
    omega
  case addr => omega
  case len => exact hlen.symm

theorem returnable_iff_marked (hp : 0 < s.slotSize) : s.Returnable a ↔ s.Marked a := by
  constructor
  · intro h
    have hspan := h.spans hp
    refine ⟨_, _, hspan, ?_⟩
    intro i hlow hhigh
    exact h.busy i ((hspan.slotIn_iff hp).mpr ⟨hlow, hhigh⟩)
  · rintro ⟨start, count, hspan, hmark⟩
    constructor
    case pos =>
      rw [hspan.len]
      exact Nat.mul_pos hspan.pos hp
    case whole => exact ⟨count, by rw [hspan.len, Nat.mul_comm]⟩
    case above => exact hspan.within.1
    case aligned => exact ⟨start, by rw [hspan.addr, Nat.add_sub_cancel_left, Nat.mul_comm]⟩
    case below => exact hspan.within.2
    case busy =>
      intro i hin
      obtain ⟨hlow, hhigh⟩ := (hspan.slotIn_iff hp).mp hin
      exact hmark i hlow hhigh

theorem dealloc_refused (h : ¬ s.Marked a) :
    s.dealloc a = (.error (.invalidFree a.addr a.len), s) := by
  rcases s.dealloc_cases a with hrefused | ⟨start, count, hspan, hmark, -⟩
  · exact hrefused
  · exact absurd ⟨start, count, hspan, hmark⟩ h

/-- What has a free slot in it is refused: nothing is freed twice. -/
theorem Sound.dealloc_free (hs : s.Sound) (hin : s.SlotIn a i) (hfree : s.busy[i]? = some false) :
    s.dealloc a = (.error (.invalidFree a.addr a.len), s) := by
  apply dealloc_refused
  intro hmarked
  have hbusy := ((returnable_iff_marked hs.slot_pos).mpr hmarked).busy i hin
  rw [hfree] at hbusy
  cases hbusy

theorem Sound.busy_dealloc_outside (hs : s.Sound) (hout : ¬ s.SlotIn a i) :
    (s.dealloc a).2.busy[i]? = s.busy[i]? := by
  by_cases hmarked : s.Marked a
  · rw [hmarked.busy_dealloc hs, if_neg hout]
  · rw [dealloc_refused hmarked]

theorem Marked.freeBytes_dealloc (h : s.Marked a) (hs : s.Sound) :
    (s.dealloc a).2.freeBytes = s.freeBytes + a.len := by
  obtain ⟨start, count, hspan, hmark⟩ := h
  rw [dealloc_ok hs.slot_pos hspan hmark, freeBytes, freeBytes, count_setRun hmark, hspan.len,
    Nat.add_mul]

/-- Slots of two bytes or more: no address and no length that fits a word counts so many of them
that the sum does not fit. -/
theorem slot_index_lt {slotSize x y : Nat} (hn : 2 ≤ slotSize) (hx : x < addressLimit)
    (hy : y < addressLimit) : x / slotSize + y / slotSize < addressLimit := by
  have hxs : x / slotSize ≤ x / 2 := Nat.div_le_div_left hn (by decide)
  have hys : y / slotSize ≤ y / 2 := Nat.div_le_div_left hn (by decide)
  have heven : addressLimit = 2 * (addressLimit / 2) := by decide
  omega

/-- In a slab that was used in any way, exactly the busy ranges of whole slots can be freed. Then
their slots are free and no others change; everything else is refused and changes nothing. So what
was just taken can be given back, nothing is freed twice, and an index that is computed for a free
fits a word. -/
theorem dealloc_exact {slotSize base size : Nat} {slab : Slab}
    (hc : create slotSize base size = .ok slab)
    (hl : base + size / slotSize * slotSize < addressLimit) (hn : 2 ≤ slotSize)
    (calls : List Call) (a : Allocation) :
    let t := (Tenancy.start slab).run calls
    let s := t.slab
    let capacity := size / slotSize * slotSize
    let accepted := 0 < a.len ∧ slotSize ∣ a.len ∧ base ≤ a.addr ∧ slotSize ∣ a.addr - base ∧
      a.addr + a.len ≤ base + capacity ∧ ∀ i, s.SlotIn a i → s.busy[i]? = some true
    (accepted → ∃ s', s.dealloc a = (.ok (), s') ∧
      (∀ i, s'.busy[i]? = if s.SlotIn a i then some false else s.busy[i]?) ∧
      s'.freeBytes = s.freeBytes + a.len) ∧
    (¬ accepted → s.dealloc a = (.error (.invalidFree a.addr a.len), s)) ∧
    (∀ i, ¬ s.SlotIn a i → (s.dealloc a).2.busy[i]? = s.busy[i]?) ∧
    (∀ len b s', s.alloc len = (.ok b, s') →
      ∃ s'', s'.dealloc b = (.ok (), s'') ∧ s''.busy = s.busy) ∧
    (accepted → ∀ more,
      let s' := ((t.step (.dealloc a)).run more).slab
      ∀ i, s'.SlotIn a i → s'.busy[i]? = some false →
        s'.dealloc a = (.error (.invalidFree a.addr a.len), s')) ∧
    (a.addr < addressLimit → a.len < addressLimit →
      (a.addr - base) / slotSize + a.len / slotSize < addressLimit) := by
  intro t s capacity accepted
  have h : s.Over slotSize base capacity := Tenancy.run_over hc hl calls
  have hs := h.toSound
  have haccepted : accepted ↔ s.Marked a := by
    rw [← returnable_iff_marked hs.slot_pos]
    constructor
    · rintro ⟨pos, whole, above, aligned, below, busy⟩
      rw [← h.slotSize_eq] at whole aligned
      rw [← h.base_eq] at above aligned below
      rw [← h.capacity_eq] at below
      exact ⟨pos, whole, above, aligned, below, busy⟩
    · rintro ⟨pos, whole, above, aligned, below, busy⟩
      rw [h.slotSize_eq] at whole aligned
      rw [h.base_eq] at above aligned below
      rw [h.capacity_eq] at below
      exact ⟨pos, whole, above, aligned, below, busy⟩
  refine ⟨?_, ?_, ?_, ?_, ?_, ?_⟩
  · intro hok
    have hmarked := haccepted.mp hok
    exact ⟨_, Prod.ext (hmarked.freed hs) rfl, hmarked.busy_dealloc hs,
      hmarked.freeBytes_dealloc hs⟩
  · intro hbad
    exact dealloc_refused (mt haccepted.mpr hbad)
  · intro i hout
    exact hs.busy_dealloc_outside hout
  · intro len b s' ha
    obtain ⟨hsound, hmarked, -, -⟩ := hs.alloc ha
    exact ⟨_, Prod.ext (hmarked.freed hsound) rfl, hs.alloc_undo ha⟩
  · intro _ more s' i hin hfree
    have hnext := (Tenancy.step_sound hs (.dealloc a)).1
    exact (Tenancy.run_sound hnext more).1.dealloc_free hin hfree
  · intro haddr hlen
    exact slot_index_lt hn (by omega) hlen

/-- Three slots and one are taken from six. The last of the three can be freed together with the
one, but not again, and not with a free slot behind them. -/
theorem dealloc_exact_straddling :
    let slab : Slab := ⟨64, 16, Array.replicate 6 false, none⟩
    let calls : List Call := [.alloc 40, .alloc 16]
    let t := (Tenancy.start slab).run calls
    let s := t.slab
    let s' := (t.step (.dealloc ⟨96, 32⟩)).slab
    create 16 64 100 = .ok slab ∧ 64 + 100 / 16 * 16 < addressLimit ∧ 2 ≤ 16 ∧
      t.live = [⟨112, 16⟩, ⟨64, 48⟩] ∧
      s'.busy.toList = [true, true, false, false, false, false] ∧
      s'.freeBytes = s.freeBytes + 32 ∧
      s'.dealloc ⟨96, 32⟩ = (.error (.invalidFree 96 32), s') ∧
      s.dealloc ⟨96, 48⟩ = (.error (.invalidFree 96 48), s) := by
  intro slab calls t s s'
  have hc : create 16 64 100 = .ok slab := rfl
  have hl : 64 + 100 / 16 * 16 < addressLimit := by decide
  have hbase : s.base = 64 := by decide
  have hslot : s.slotSize = 16 := by decide
  have hbusy : s.busy = #[true, true, true, true, false, false] := by decide
  have hmarked : ∀ i, s.SlotIn ⟨96, 32⟩ i → s.busy[i]? = some true := by
    intro i hin
    rw [SlotIn, hbase, hslot] at hin
    have hi : i = 2 ∨ i = 3 := by
      simp only at hin
      omega
    rw [hbusy]
    rcases hi with rfl | rfl <;> rfl
  have haccepted : 0 < 32 ∧ 16 ∣ 32 ∧ 64 ≤ 96 ∧ 16 ∣ 96 - 64 ∧ 96 + 32 ≤ 64 + 100 / 16 * 16 ∧
      ∀ i, s.SlotIn ⟨96, 32⟩ i → s.busy[i]? = some true :=
    ⟨by decide, by decide, by decide, by decide, by decide, hmarked⟩
  obtain ⟨hok, -, -, -, htwice, -⟩ := dealloc_exact hc hl (by decide) calls ⟨96, 32⟩
  obtain ⟨s₁, hfreed, -, hmore⟩ := hok haccepted
  have hs₁ : s' = s₁ := by
    have hstep : s' = (s.dealloc ⟨96, 32⟩).2 := by decide
    rw [hstep]
    exact congrArg Prod.snd hfreed
  refine ⟨hc, hl, by decide, by decide, by decide, ?_, ?_, ?_⟩
  · rw [hs₁]
    exact hmore
  · exact htwice haccepted [] 2 (by decide) (by decide)
  · refine (dealloc_exact hc hl (by decide) calls ⟨96, 48⟩).2.1 ?_
    rintro ⟨-, -, -, -, -, hall⟩
    have hfree := hall 4 (by decide)
    rw [hbusy] at hfree
    cases hfree

end FrameRing.Slab
