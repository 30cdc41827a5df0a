import FrameRing.Proofs.Pool.Tenancy

/-! # Marks of a slab

Users may free any run of busy slots, also a part of what was handed out or what another one holds.
Whatever they do, requests are served from free slots only, and an allocation whose slots stay busy
shares none of them with a later one. -/

namespace FrameRing.Slab

variable {s s' : Slab} {a b : Allocation} {start count n len : Nat}

theorem setRun_restore {busy : Array Bool} {mark : Bool} (h : RunAt busy mark start n)
    (fits : start + n ≤ busy.size) :
    setRun (setRun busy start (!mark) n) start mark n = busy := by
  apply Array.ext_getElem?
  intro i
  rw [getElem?_setRun mark (by rwa [size_setRun]), getElem?_setRun _ fits]
  by_cases hin : start ≤ i ∧ i < start + n
  · rw [if_pos hin, h i hin.1 hin.2]
  · rw [if_neg hin, if_neg hin]

def Marked (s : Slab) (a : Allocation) : Prop :=
  ∃ start count, s.Spans a start count ∧ RunAt s.busy true start count

def Took (s s' : Slab) (a : Allocation) (len : Nat) : Prop :=
  ∃ start, s.Spans a start (s.slotsFor len) ∧ RunAt s.busy false start (s.slotsFor len) ∧
    s'.busy = setRun s.busy start true (s.slotsFor len)

theorem Sound.alloc (hs : s.Sound) (ha : s.alloc len = (.ok a, s')) :
    s'.Sound ∧ s'.Marked a ∧ s.Took s' a len ∧ s'.slotSize = s.slotSize := by
  rcases alloc_cases hs len with ⟨e, he, -⟩ | ⟨b, start, last, hspan, hfree, he, hlast⟩
  · rw [ha] at he
    cases he
  · rw [ha] at he
    cases he
    exact ⟨hs.take hspan hlast,
      ⟨start, _, hspan.remark (size_setRun ..) last, runAt_setRun true hspan.fits⟩,
      ⟨start, hspan, hfree, rfl⟩, rfl⟩

theorem Took.length (h : s.Took s' a len) (hp : 0 < s.slotSize) :
    len ≤ a.len ∧ a.len < len + s.slotSize := by
  obtain ⟨start, hspan, -⟩ := h
  rw [hspan.len]
  exact slotsFor_bounds hp len

/-- What was taken can be freed again at once, and then the marks are as before. -/
theorem Sound.alloc_undo (hs : s.Sound) (ha : s.alloc len = (.ok a, s')) :
    (s'.dealloc a).2.busy = s.busy := by
  rcases alloc_cases hs len with ⟨e, he, -⟩ | ⟨b, start, last, hspan, hfree, he, hlast⟩
  · rw [ha] at he
    cases he
  · rw [ha] at he
    cases he
    have hsound := hs.take hspan hlast
    have hspan' := hspan.remark (size_setRun s.busy start true (s.slotsFor len)) last
    rw [dealloc_ok hsound.slot_pos hspan' (runAt_setRun true hspan.fits)]
    exact setRun_restore hfree hspan.fits

theorem Marked.alloc (h : s.Marked a) (hs : s.Sound) (ha : s.alloc len = (.ok b, s')) :
    s'.Marked a ∧ ¬ Overlaps a b := by
  obtain ⟨i, n, hspan, hmark⟩ := h
  rcases alloc_cases hs len with ⟨e, he, -⟩ | ⟨b', start, last, hspan', hfree, he, -⟩
  · rw [ha] at he
    cases he
  · rw [ha] at he
    cases he
    have hapart := hfree.apart hmark hspan'.pos hspan.pos
    refine ⟨⟨i, n, hspan.remark (size_setRun ..) last, hmark.setRun true hspan'.fits hapart⟩, ?_⟩
    rw [hspan.overlaps_iff hs.slot_pos hspan']
    exact fun ho => hapart ho.symm

theorem Marked.dealloc (h : s.Marked a) (hs : s.Sound) (ho : ¬ Overlaps a b) :
    (s.dealloc b).2.Marked a := by
  obtain ⟨i, n, hspan, hmark⟩ := h
  rcases s.dealloc_cases b with he | ⟨start, count, hspan', -, he⟩
  · rw [he]
    exact ⟨i, n, hspan, hmark⟩
  · rw [he]
    rw [hspan.overlaps_iff hs.slot_pos hspan'] at ho
    exact ⟨i, n, hspan.remark (size_setRun ..) _,
      hmark.setRun false hspan'.fits fun hboth => ho hboth.symm⟩

theorem Marked.freed (h : s.Marked a) (hs : s.Sound) : (s.dealloc a).1 = .ok () := by
  obtain ⟨i, n, hspan, hmark⟩ := h
  rw [dealloc_ok hs.slot_pos hspan hmark]

theorem Sound.dealloc (hs : s.Sound) (b : Allocation) :
    (s.dealloc b).2.Sound := by
  rcases s.dealloc_cases b with he | ⟨start, count, hspan, -, he⟩
  · rw [he]
    exact hs
  · rw [he]
    exact hs.give hspan

structure Over (slotSize base capacity : Nat) (s : Slab) : Prop extends s.Sound where
  slotSize_eq : s.slotSize = slotSize
  base_eq : s.base = base
  capacity_eq : s.capacity = capacity

namespace Tenancy

variable {t : Tenancy}

theorem step_sound (hs : t.slab.Sound) (c : Call) :
    (t.step c).slab.Sound ∧ (t.step c).slab.slotSize = t.slab.slotSize := by
  cases c with
  | alloc len =>
    simp only [step]
    rcases ha : t.slab.alloc len with ⟨e | a, slab⟩
    · obtain ⟨rfl, -⟩ := hs.alloc_error ha
      exact ⟨hs, rfl⟩
    · obtain ⟨hsound, -, -, hslot⟩ := hs.alloc ha
      exact ⟨hsound, hslot⟩
  | dealloc a =>
    have hsound := hs.dealloc a
    simp only [step]
    rcases t.slab.dealloc_cases a with he | ⟨start, count, -, -, he⟩
    · rw [he] at hsound ⊢
      exact ⟨hsound, rfl⟩
    · rw [he] at hsound ⊢
      exact ⟨hsound, rfl⟩

/-- A slab stays sound under all calls, honest or not. -/
theorem run_sound (hs : t.slab.Sound) (calls : List Call) :
    (t.run calls).slab.Sound ∧ (t.run calls).slab.slotSize = t.slab.slotSize := by
  induction calls generalizing t with
  | nil => exact ⟨hs, rfl⟩
  | cons c calls ih =>
    obtain ⟨hsound, hslot⟩ := step_sound hs c
    obtain ⟨hend, hkept⟩ := ih hsound
    exact ⟨hend, hkept.trans hslot⟩

theorem step_range (hs : t.slab.Sound) (c : Call) : (t.step c).slab.range = t.slab.range := by
  cases c with
  | alloc len =>
    rcases alloc_cases hs len with ⟨e, he, -⟩ | ⟨a, start, last, -, -, he, -⟩
    · simp only [step, he]
    · simp only [step, he, range, capacity, size_setRun]
  | dealloc a =>
    rcases t.slab.dealloc_cases a with he | ⟨start, count, -, -, he⟩
    · simp only [step, he]
    · simp only [step, he, range, capacity, size_setRun]

theorem run_range (hs : t.slab.Sound) (calls : List Call) :
    (t.run calls).slab.range = t.slab.range := by
  induction calls generalizing t with
  | nil => rfl
  | cons c calls ih => exact (ih (step_sound hs c).1).trans (step_range hs c)

theorem run_over {slotSize base len : Nat} {slab : Slab} (hc : create slotSize base len = .ok slab)
    (hl : base + len / slotSize * slotSize < addressLimit) (calls : List Call) :
    ((Tenancy.start slab).run calls).slab.Over slotSize base (len / slotSize * slotSize) := by
  have hstart := kept_start hc (Nat.le_of_lt hl)
  obtain ⟨hsound, hslot⟩ := run_sound hstart.toSound calls
  obtain ⟨hbase, hstop⟩ := Prod.mk.inj (run_range hstart.toSound calls)
  have hb := hstart.base_eq
  have hcap := hstart.capacity_eq
  exact ⟨hsound, hslot.trans hstart.slotSize_eq, hbase.trans hb, by omega⟩

end Tenancy

end FrameRing.Slab
