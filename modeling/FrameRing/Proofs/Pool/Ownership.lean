import FrameRing.Pool.Slab
import Mathlib.Data.Bool.Count
import Mathlib.Data.List.Perm.Basic

/-! # Who owns a slab's slots

Live allocations are runs of busy slots, no two of them share a byte, and what they do not take is
free. An allocation takes slots that nobody owns, and its owner can always give them back. -/

namespace FrameRing.Slab

variable {s s' : Slab} {a b : Allocation} {start count i n : Nat}

theorem RunAt.lt_size {busy : Array Bool} {mark : Bool} (h : RunAt busy mark start count)
    (hi : start ≤ i) (hn : i < start + count) : i < busy.size := by
  have hget := h i hi hn
  exact (Array.getElem?_eq_some_iff.mp hget).1

theorem RunAt.apart {busy : Array Bool} {mark : Bool} (h : RunAt busy mark start count)
    (h' : RunAt busy (!mark) i n) (hc : 0 < count) (hn : 0 < n) :
    ¬ (start < i + n ∧ i < start + count) := by
  rintro ⟨hsi, his⟩
  have hmark := h (max start i) (by omega) (by omega)
  rw [h' (max start i) (by omega) (by omega)] at hmark
  cases mark <;> cases hmark

theorem RunAt.setRun {busy : Array Bool} {mark : Bool} (value : Bool)
    (h : RunAt busy mark start count) (fits : i + n ≤ busy.size)
    (ho : ¬ (i < start + count ∧ start < i + n)) :
    RunAt (setRun busy i value n) mark start count := by
  intro k hlow hhigh
  rw [getElem?_setRun value fits, if_neg (by omega)]
  exact h k hlow hhigh

theorem runAt_setRun {busy : Array Bool} (mark : Bool) (fits : i + n ≤ busy.size) :
    RunAt (setRun busy i mark n) mark i n := by
  intro k hlow hhigh
  rw [getElem?_setRun mark fits, if_pos ⟨hlow, hhigh⟩]

theorem count_setIfInBounds {busy : Array Bool} {mark : Bool} (h : busy[i]? = some (!mark)) :
    (busy.setIfInBounds i mark).count mark = busy.count mark + 1 := by
  obtain ⟨hlt, hget⟩ := Array.getElem?_eq_some_iff.mp h
  rw [Array.setIfInBounds, dif_pos hlt, Array.count_set hlt, hget]
  cases mark <;> simp

theorem count_setRun {busy : Array Bool} {mark : Bool} (h : RunAt busy (!mark) start count) :
    (setRun busy start mark count).count mark = busy.count mark + count := by
  induction count generalizing busy start with
  | zero => rfl
  | succ count ih =>
    have hfirst := h start (Nat.le_refl start) (by omega)
    have hrest : RunAt (busy.setIfInBounds start mark) (!mark) (start + 1) count := by
      intro k hlow hhigh
      rw [Array.getElem?_setIfInBounds, if_neg (by omega)]
      exact h k (by omega) (by omega)
    rw [Slab.setRun, ih hrest, count_setIfInBounds hfirst]
    omega

theorem count_free_add_busy (busy : Array Bool) :
    busy.count false + busy.count true = busy.size := by
  rw [← Array.count_toList, ← Array.count_toList]
  exact List.count_false_add_count_true busy.toList

theorem count_free_setRun {busy : Array Bool} (h : RunAt busy false start count) :
    (setRun busy start true count).count false + count = busy.count false := by
  have htaken : (setRun busy start true count).count true = busy.count true + count :=
    count_setRun h
  have hbefore := count_free_add_busy busy
  have hafter := count_free_add_busy (setRun busy start true count)
  rw [size_setRun] at hafter
  omega

structure Spans (s : Slab) (a : Allocation) (start count : Nat) : Prop where
  pos : 0 < count
  fits : start + count ≤ s.busy.size
  addr : a.addr = s.base + start * s.slotSize
  len : a.len = count * s.slotSize

/-- No address of the region is too high, and the run freed last is free. -/
structure Sound (s : Slab) : Prop where
  slot_pos : 0 < s.slotSize
  limit : s.base + s.capacity ≤ addressLimit
  cached : ∀ run, s.lastFreed = some run →
    ∃ start count, s.Spans run start count ∧ RunAt s.busy false start count

theorem Spans.remark (h : s.Spans a start count) {busy : Array Bool}
    (hb : busy.size = s.busy.size) (last : Option Allocation) :
    Spans { s with busy, lastFreed := last } a start count :=
  ⟨h.pos, hb.symm ▸ h.fits, h.addr, h.len⟩

theorem Spans.bytes (h : s.Spans a start count) :
    a.addr + a.len = s.base + (start + count) * s.slotSize := by
  rw [h.addr, h.len, Nat.add_mul]
  omega

theorem Spans.overlaps_iff (hp : 0 < s.slotSize) (ha : s.Spans a start count)
    (hb : s.Spans b i n) : Overlaps a b ↔ start < i + n ∧ i < start + count := by
  rw [Overlaps, ha.bytes, hb.bytes, ha.addr, hb.addr, Nat.add_lt_add_iff_left,
    Nat.add_lt_add_iff_left, Nat.mul_lt_mul_right hp, Nat.mul_lt_mul_right hp]

theorem Spans.within (h : s.Spans a start count) :
    s.base ≤ a.addr ∧ a.addr + a.len ≤ s.base + s.capacity := by
  have hm := Nat.mul_le_mul_right s.slotSize h.fits
  rw [h.bytes, h.addr, capacity]
  omega

theorem Spans.slotOf? (hp : 0 < s.slotSize) (h : s.Spans a start count) :
    s.slotOf? a.addr = some start := by
  rw [Slab.slotOf?, h.addr, Nat.add_sub_cancel_left, Nat.mul_mod_left, if_pos ⟨by omega, rfl⟩,
    Nat.mul_div_cancel _ hp]

theorem slotsFor_bounds (hp : 0 < s.slotSize) (len : Nat) :
    len ≤ s.slotsFor len * s.slotSize ∧ s.slotsFor len * s.slotSize < len + s.slotSize := by
  have hd := Nat.div_add_mod (len + s.slotSize - 1) s.slotSize
  have hm := Nat.mod_lt (len + s.slotSize - 1) hp
  rw [slotsFor, Nat.mul_comm]
  omega

theorem slotsFor_pos (hp : 0 < s.slotSize) {len : Nat} (hl : 0 < len) : 0 < s.slotsFor len := by
  have hb := (slotsFor_bounds hp len).1
  rcases Nat.eq_zero_or_pos (s.slotsFor len) with hz | hpos
  · rw [hz, Nat.zero_mul] at hb
    omega
  · exact hpos

theorem findRun_cases (hs : s.Sound) (want : Nat) :
    s.findRun want = (none, s) ∨
      ∃ start last, s.findRun want = (some start, { s with lastFreed := last }) ∧
        RunAt s.busy false start want ∧ (last = none ∨ last = s.lastFreed) := by
  have hfirst : (firstFree want s.busy, s) = (none, s) ∨
      ∃ start last, (firstFree want s.busy, s) = (some start, { s with lastFreed := last }) ∧
        RunAt s.busy false start want ∧ (last = none ∨ last = s.lastFreed) := by
    cases hf : firstFree want s.busy with
    | none => exact .inl rfl
    | some start => exact .inr ⟨start, _, rfl, (firstFree_eq_some hf).1, .inr rfl⟩
  unfold findRun
  cases hl : s.lastFreed with
  | none => simpa only [hl] using hfirst
  | some run =>
    simp only
    split
    · rename_i enough
      obtain ⟨start, count, hspan, hfree⟩ := hs.cached run hl
      rw [hspan.len] at enough
      rw [hspan.slotOf? hs.slot_pos]
      exact .inr ⟨start, none, rfl,
        hfree.shorten (Nat.le_of_mul_le_mul_right enough hs.slot_pos), .inl rfl⟩
    · simpa only [hl] using hfirst

theorem forgetOverlapping_eq (s : Slab) (a : Allocation) :
    ∃ last, s.forgetOverlapping a = { s with lastFreed := last } ∧
      ∀ run, last = some run → s.lastFreed = some run ∧ ¬ Overlaps a run := by
  unfold forgetOverlapping
  cases hl : s.lastFreed with
  | none => exact ⟨none, by simp only [← hl], by simp⟩
  | some run =>
    by_cases ho : Overlaps a run
    · exact ⟨none, if_pos ho, by simp⟩
    · refine ⟨some run, (if_neg ho).trans (by rw [← hl]), ?_⟩
      intro run' hr
      cases hr
      exact ⟨rfl, ho⟩

theorem alloc_found (hs : s.Sound) {len : Nat} (hlen : len ≠ 0) {last : Option Allocation}
    (hfound : s.findRun (s.slotsFor len) = (some start, { s with lastFreed := last }))
    (hfree : RunAt s.busy false start (s.slotsFor len)) :
    let a : Allocation := ⟨s.base + start * s.slotSize, s.slotsFor len * s.slotSize⟩
    s.Spans a start (s.slotsFor len) ∧ ∃ kept,
      s.alloc len =
        (.ok a, { s with busy := setRun s.busy start true (s.slotsFor len), lastFreed := kept }) ∧
      ∀ run, kept = some run → last = some run ∧ ¬ Overlaps a run := by
  intro a
  have hpos := slotsFor_pos hs.slot_pos (Nat.pos_of_ne_zero hlen)
  have hlt : start + (s.slotsFor len - 1) < s.busy.size := hfree.lt_size (by omega) (by omega)
  have hspan : s.Spans a start (s.slotsFor len) := ⟨hpos, by omega, rfl, rfl⟩
  refine ⟨hspan, ?_⟩
  have hin : s.base + start * s.slotSize + s.slotsFor len * s.slotSize ≤ s.base + s.capacity :=
    hspan.within.2
  have hlim := hs.limit
  have hlpos := Nat.mul_pos hpos hs.slot_pos
  have haddr : addrOf? { s with lastFreed := last } start =
      some (s.base + start * s.slotSize) := if_pos (by simp only; omega)
  obtain ⟨kept, hkept, hforget⟩ := forgetOverlapping_eq
    { s with lastFreed := last, busy := setRun s.busy start true (s.slotsFor len) } a
  refine ⟨kept, ?_, hforget⟩
  have henough : ¬ s.busy.size < s.slotsFor len := by omega
  simp only [alloc, if_neg hlen, if_neg henough, hfound, haddr]
  exact congrArg (Prod.mk _) hkept

theorem alloc_dry {len : Nat} (hlen : len ≠ 0)
    (hdry : s.findRun (s.slotsFor len) = (none, s)) : s.alloc len = (.error .outOfMemory, s) := by
  simp only [alloc, if_neg hlen, hdry, ite_self]

theorem alloc_empty (s : Slab) : s.alloc 0 = (.error .invalidArg, s) :=
  if_pos rfl

/-- A request is refused without a change, unless it is empty only for want of free slots, or it
is served from slots that were free. -/
theorem alloc_cases (hs : s.Sound) (len : Nat) :
    (∃ e, s.alloc len = (.error e, s) ∧ (len = 0 ∨ e = .outOfMemory)) ∨
      ∃ a start last, s.Spans a start (s.slotsFor len) ∧
        RunAt s.busy false start (s.slotsFor len) ∧
        s.alloc len =
          (.ok a, { s with busy := setRun s.busy start true (s.slotsFor len), lastFreed := last }) ∧
        ∀ run, last = some run → s.lastFreed = some run ∧ ¬ Overlaps a run := by
  by_cases hlen : len = 0
  · rw [hlen]
    exact .inl ⟨_, s.alloc_empty, .inl rfl⟩
  rcases findRun_cases hs (s.slotsFor len) with hdry | ⟨start, last, hfound, hfree, hlast⟩
  · exact .inl ⟨_, alloc_dry hlen hdry, .inr rfl⟩
  · obtain ⟨hspan, kept, hgranted, hforget⟩ := alloc_found hs hlen hfound hfree
    refine .inr ⟨_, start, kept, hspan, hfree, hgranted, ?_⟩
    intro run hr
    obtain ⟨hrun, hno⟩ := hforget run hr
    rcases hlast with hlast | hlast
    · rw [hlast] at hrun
      cases hrun
    · exact ⟨hlast ▸ hrun, hno⟩

/-- A free is refused without a change, or it frees a busy run. -/
theorem dealloc_cases (s : Slab) (a : Allocation) :
    s.dealloc a = (.error (.invalidFree a.addr a.len), s) ∨
      ∃ start count, s.Spans a start count ∧ RunAt s.busy true start count ∧
        s.dealloc a =
          (.ok (), { s with busy := setRun s.busy start false count, lastFreed := some a }) := by
  unfold dealloc
  simp only
  split
  · exact .inl rfl
  rename_i hlen
  cases hslot : s.slotOf? a.addr with
  | none => exact .inl rfl
  | some start =>
    simp only
    split
    · rename_i hrun
      have hmul : a.len / s.slotSize * s.slotSize = a.len :=
        Nat.div_mul_cancel (Nat.dvd_of_mod_eq_zero (by omega))
      have hpos : 0 < a.len / s.slotSize := by
        rcases Nat.eq_zero_or_pos (a.len / s.slotSize) with hz | hpos
        · rw [hz, Nat.zero_mul] at hmul
          omega
        · exact hpos
      have hlt : start + (a.len / s.slotSize - 1) < s.busy.size :=
        hrun.lt_size (by omega) (by omega)
      simp only [Slab.slotOf?] at hslot
      split at hslot
      · rename_i haligned
        cases hslot
        have haddr := Nat.div_mul_cancel (Nat.dvd_of_mod_eq_zero haligned.2)
        exact .inr ⟨_, _, ⟨hpos, by omega, by omega, hmul.symm⟩, hrun, rfl⟩
      · cases hslot
    · exact .inl rfl

theorem dealloc_ok (hp : 0 < s.slotSize) (h : s.Spans a start count)
    (hb : RunAt s.busy true start count) :
    s.dealloc a =
      (.ok (), { s with busy := setRun s.busy start false count, lastFreed := some a }) := by
  have hlen : ¬ (a.len = 0 ∨ a.len % s.slotSize ≠ 0) := by
    have hpos := Nat.mul_pos h.pos hp
    rw [h.len, Nat.mul_mod_left]
    omega
  simp only [dealloc, if_neg hlen, h.slotOf? hp]
  rw [h.len, Nat.mul_div_cancel _ hp, if_pos hb]

theorem Sound.take (hs : s.Sound) (h : s.Spans a start count) {last : Option Allocation}
    (hlast : ∀ run, last = some run → s.lastFreed = some run ∧ ¬ Overlaps a run) :
    Sound { s with busy := setRun s.busy start true count, lastFreed := last } := by
  have hsize := size_setRun s.busy start true count
  have hcap : { s with busy := setRun s.busy start true count, lastFreed := last }.capacity =
      s.capacity := congrArg (· * s.slotSize) hsize
  refine ⟨hs.slot_pos, hcap ▸ hs.limit, ?_⟩
  intro run hr
  obtain ⟨hcached, hno⟩ := hlast run hr
  obtain ⟨i, n, hrun, hfree⟩ := hs.cached run hcached
  rw [h.overlaps_iff hs.slot_pos hrun] at hno
  exact ⟨i, n, hrun.remark hsize last, hfree.setRun true h.fits hno⟩

theorem Sound.give (hs : s.Sound) (h : s.Spans a start count) :
    Sound { s with busy := setRun s.busy start false count, lastFreed := some a } := by
  have hsize := size_setRun s.busy start false count
  have hcap : { s with busy := setRun s.busy start false count, lastFreed := some a }.capacity =
      s.capacity := congrArg (· * s.slotSize) hsize
  refine ⟨hs.slot_pos, hcap ▸ hs.limit, ?_⟩
  intro run hr
  cases hr
  exact ⟨start, count, h.remark hsize _, runAt_setRun false h.fits⟩

theorem Sound.alloc_error {len : Nat} {e : AllocError} (h : s.Sound)
    (ha : s.alloc len = (.error e, s')) : s' = s ∧ (len = 0 ∨ e = .outOfMemory) := by
  rcases alloc_cases h len with ⟨e, he, hdry⟩ | ⟨a', start, last, -, -, he, -⟩
  · rw [ha] at he
    cases he
    exact ⟨rfl, hdry⟩
  · rw [ha] at he
    cases he

structure Owns (s : Slab) (live : List Allocation) : Prop extends s.Sound where
  held : ∀ a ∈ live, ∃ start count, s.Spans a start count ∧ RunAt s.busy true start count
  apart : live.Pairwise fun a b => ¬ Overlaps a b
  balance : s.freeBytes + (live.map Allocation.len).sum = s.capacity

variable {live live' : List Allocation}

theorem Owns.perm (h : s.Owns live) (hp : live.Perm live') : s.Owns live' :=
  { h with
    held := fun a ha => h.held a (hp.mem_iff.mpr ha)
    apart := (hp.pairwise_iff fun hab hba => hab ⟨hba.2, hba.1⟩).mp h.apart
    balance := by
      rw [← (hp.map Allocation.len).sum_nat]
      exact h.balance }

theorem Owns.within (h : s.Owns live) (ha : a ∈ live) :
    s.base ≤ a.addr ∧ a.addr + a.len ≤ s.base + s.capacity := by
  obtain ⟨start, count, hspan, -⟩ := h.held a ha
  exact hspan.within

theorem owns_create {slotSize base len : Nat} (hc : create slotSize base len = .ok s)
    (hl : base + len / slotSize * slotSize ≤ addressLimit) :
    s.base = base ∧ s.capacity = len / slotSize * slotSize ∧ s.Owns [] := by
  unfold create at hc
  split at hc
  · cases hc
  split at hc
  · cases hc
  rename_i hne
  cases hc
  have hp : 0 < slotSize := by
    rcases Nat.eq_zero_or_pos slotSize with hz | hp
    · rw [hz, Nat.div_zero] at hne
      omega
    · exact hp
  have hcap : capacity ⟨base, slotSize, Array.replicate (len / slotSize) false, none⟩ =
      len / slotSize * slotSize := by rw [capacity, Array.size_replicate]
  refine ⟨rfl, hcap, ⟨hp, hcap ▸ hl, by simp⟩, by simp, .nil, ?_⟩
  simp [freeBytes, capacity]

/-- What is handed out was nobody's, and holds as many bytes as were asked for. -/
theorem Owns.alloc {len : Nat} (h : s.Owns live) (ha : s.alloc len = (.ok a, s')) :
    s'.Owns (a :: live) ∧ s'.range = s.range ∧ len ≤ a.len ∧ a.len < len + s.slotSize := by
  rcases alloc_cases h.toSound len with ⟨e, he, -⟩ | ⟨a', start, last, hspan, hfree, he, hlast⟩
  · rw [ha] at he
    cases he
  · rw [ha] at he
    cases he
    have hlen := slotsFor_bounds h.slot_pos len
    rw [← hspan.len] at hlen
    have hsize := size_setRun s.busy start true (s.slotsFor len)
    have hcap : { s with busy := _, lastFreed := last }.capacity = s.capacity :=
      congrArg (· * s.slotSize) hsize
    refine ⟨⟨h.take hspan hlast, ?_, ?_, ?_⟩,
      Prod.ext rfl (congrArg (s.base + ·) hcap), hlen⟩
    · intro b hb
      rcases List.mem_cons.mp hb with rfl | hb
      · exact ⟨start, _, hspan.remark hsize last, runAt_setRun true hspan.fits⟩
      · obtain ⟨i, n, hrun, hmark⟩ := h.held b hb
        exact ⟨i, n, hrun.remark hsize last,
          hmark.setRun true hspan.fits (hfree.apart hmark hspan.pos hrun.pos)⟩
    · apply List.pairwise_cons.mpr
      refine ⟨?_, h.apart⟩
      intro b hb
      obtain ⟨i, n, hrun, hmark⟩ := h.held b hb
      rw [hspan.overlaps_iff h.slot_pos hrun]
      exact hfree.apart hmark hspan.pos hrun.pos
    · rw [hcap, ← h.balance, freeBytes, freeBytes, List.map_cons, List.sum_cons, hspan.len,
        ← count_free_setRun hfree, Nat.add_mul, Nat.add_assoc]

theorem Owns.dealloc (h : s.Owns (a :: live)) :
    ∃ s', s.dealloc a = (.ok (), s') ∧ s'.Owns live ∧ s'.range = s.range := by
  obtain ⟨start, count, hspan, hbusy⟩ := h.held a List.mem_cons_self
  refine ⟨_, dealloc_ok h.slot_pos hspan hbusy, ?_⟩
  have hsize := size_setRun s.busy start false count
  have hcap : { s with busy := setRun s.busy start false count, lastFreed := some a }.capacity =
      s.capacity := congrArg (· * s.slotSize) hsize
  obtain ⟨hhead, htail⟩ := List.pairwise_cons.mp h.apart
  refine ⟨⟨h.give hspan, ?_, htail, ?_⟩, Prod.ext rfl (congrArg (s.base + ·) hcap)⟩
  · intro b hb
    obtain ⟨i, n, hrun, hmark⟩ := h.held b (List.mem_cons_of_mem a hb)
    have hno := hhead b hb
    rw [hspan.overlaps_iff h.slot_pos hrun] at hno
    exact ⟨i, n, hrun.remark hsize _, hmark.setRun false hspan.fits hno⟩
  · have hbal := h.balance
    rw [List.map_cons, List.sum_cons, hspan.len] at hbal
    rw [hcap, ← hbal, freeBytes, freeBytes, count_setRun hbusy, Nat.add_mul, Nat.add_assoc]

end FrameRing.Slab
