import FrameRing.Proofs.Pool.Ownership
import FrameRing.Proofs.SharedBytes
import FrameRing.Stack

/-! # Live memory of a stack

Every live allocation is mapped and no two of them share a byte, so a write into one is not seen
in another. -/

namespace FrameRing

namespace World

/-- `live` is allocated, memory is healthy and all of the pool is mapped and within reach of ring
entries. -/
structure Owns (w : World) (live : List Allocation) : Prop
    extends w.rest.slab.Owns live where
  faults : w.host.memory.faults = []
  mapped : w.window.Covers w.rest.slab.base w.rest.slab.capacity
  reach : w.rest.slab.base + w.rest.slab.capacity ≤ 1 <<< 40

variable {w w' : World} {live live' : List Allocation} {a b : Allocation}

theorem Owns.perm (h : w.Owns live) (hp : live.Perm live') : w.Owns live' :=
  { h with toOwns := h.toOwns.perm hp }

theorem Owns.covers (h : w.Owns live) (ha : a ∈ live) : w.window.Covers a.addr a.len := by
  have hin := h.within ha
  obtain ⟨hb, hs⟩ := h.mapped
  exact ⟨by omega, by omega⟩

theorem Owns.stop_le (h : w.Owns live) (ha : a ∈ live) : a.addr + a.len ≤ 1 <<< 40 := by
  have hin := h.within ha
  have hr := h.reach
  omega

theorem Owns.apart_of_cons (h : w.Owns (a :: live)) (hb : b ∈ live) :
    a.addr + a.len ≤ b.addr ∨ b.addr + b.len ≤ a.addr := by
  have hno := (List.pairwise_cons.mp h.apart).1 b hb
  rw [Slab.Overlaps] at hno
  omega

theorem Owns.addr_lt (h : w.Owns live) (ha : a ∈ live) : a.addr < 1 <<< 40 := by
  obtain ⟨start, count, hspan, -⟩ := h.held a ha
  have hpos := Nat.mul_pos hspan.pos h.slot_pos
  have hlen := hspan.len
  have hstop := h.stop_le ha
  omega

theorem Owns.setSlab (h : w.Owns live) {slab : Slab} (hs : slab.Owns live')
    (hr : slab.range = w.rest.slab.range) : (w.setSlab slab).Owns live' := by
  obtain ⟨hb, hstop⟩ := Prod.mk.inj hr
  have hcap : slab.capacity = w.rest.slab.capacity := by omega
  have hm := h.mapped
  have hreach := h.reach
  rw [← hb, ← hcap] at hm hreach
  exact ⟨hs, h.faults, hm, hreach⟩

theorem Owns.setWindow (h : w.Owns live) {window : Window} (hb : window.base = w.window.base)
    (hs : window.size = w.window.size) : Owns (w.setWindow window) live := by
  have hm := h.mapped
  rw [Window.Covers, ← hb, ← hs] at hm
  exact ⟨h.toOwns, h.faults, hm, h.reach⟩

theorem Owns.record (h : w.Owns live) (event : LogEvent) : Owns (w.record event) live :=
  ⟨h.toOwns, h.faults, h.mapped, h.reach⟩

theorem Owns.deliver (h : w.Owns live) (buf : DmaBuffer) : (w.deliver buf).Owns live :=
  ⟨h.toOwns, h.faults, h.mapped, h.reach⟩

theorem Owns.collect (h : w.Owns live) : w.collect.2.Owns live :=
  ⟨h.toOwns, h.faults, h.mapped, h.reach⟩

section Pool

variable {size len : Nat} {e : AllocError} {buf : DmaBuffer}

theorem alloc_eq_ok (h : w.rest.slab.Owns live) (ha : World.alloc len w = (.ok a, w')) :
    ∃ slab, w' = w.setSlab slab ∧ slab.Owns (a :: live) ∧ slab.range = w.rest.slab.range ∧
      len ≤ a.len := by
  unfold World.alloc at ha
  rcases hs : w.rest.slab.alloc len with ⟨e | a', slab⟩ <;> rw [hs] at ha <;> cases ha
  obtain ⟨howns, hrange, hlen, -⟩ := h.alloc hs
  exact ⟨slab, rfl, howns, hrange, hlen⟩

theorem alloc_eq_error (h : w.rest.slab.Owns live) (ha : World.alloc len w = (.error e, w')) :
    w' = w := by
  unfold World.alloc at ha
  rcases hs : w.rest.slab.alloc len with ⟨e | a', slab⟩ <;> rw [hs] at ha <;> cases ha
  rw [(h.alloc_error hs).1]
  rfl

theorem dealloc_eq (h : w.rest.slab.Owns (a :: live)) :
    ∃ slab, World.dealloc a w = (.ok (), w.setSlab slab) ∧ slab.Owns live ∧
      slab.range = w.rest.slab.range := by
  obtain ⟨slab, hs, howns, hrange⟩ := h.dealloc
  refine ⟨slab, ?_, howns, hrange⟩
  rw [World.dealloc, hs]

theorem acquire_eq_ok (h : w.rest.slab.Owns live) (ha : World.acquire size w = (.ok buf, w')) :
    ∃ slab, w' = w.setSlab slab ∧ slab.Owns (buf.allocation :: live) ∧
      slab.range = w.rest.slab.range ∧ buf.size = size ∧ size ≤ buf.allocation.len := by
  unfold World.acquire DmaBuffer.acquire at ha
  rcases hs : w.rest.slab.alloc size with ⟨e | a, slab⟩ <;> rw [hs] at ha <;> cases ha
  obtain ⟨howns, hrange, hlen, -⟩ := h.alloc hs
  exact ⟨slab, rfl, howns, hrange, rfl, hlen⟩

theorem acquire_eq_error (h : w.rest.slab.Sound)
    (ha : World.acquire size w = (.error e, w')) : w' = w ∧ (size = 0 ∨ e = .outOfMemory) := by
  unfold World.acquire DmaBuffer.acquire at ha
  rcases hs : w.rest.slab.alloc size with ⟨e | a, slab⟩ <;> rw [hs] at ha <;> cases ha
  obtain ⟨rfl, hdry⟩ := h.alloc_error hs
  exact ⟨rfl, hdry⟩

theorem release_eq (h : w.rest.slab.Owns (buf.allocation :: live)) :
    ∃ slab, release buf w = w.setSlab slab ∧ slab.Owns live ∧
      slab.range = w.rest.slab.range := by
  obtain ⟨slab, hs, howns, hrange⟩ := h.dealloc
  refine ⟨slab, ?_, howns, hrange⟩
  rw [World.release, DmaBuffer.discard, hs]
  rfl

theorem Owns.alloc (h : w.Owns live) (ha : World.alloc len w = (.ok a, w')) :
    w'.Owns (a :: live) ∧ (∃ slab, w' = w.setSlab slab) ∧ len ≤ a.len := by
  obtain ⟨slab, rfl, howns, hrange, hlen⟩ := alloc_eq_ok h.toOwns ha
  exact ⟨h.setSlab howns hrange, ⟨slab, rfl⟩, hlen⟩

theorem Owns.acquire (h : w.Owns live) (ha : World.acquire size w = (.ok buf, w')) :
    w'.Owns (buf.allocation :: live) ∧ (∃ slab, w' = w.setSlab slab) ∧ buf.size = size ∧
      size ≤ buf.allocation.len := by
  obtain ⟨slab, rfl, howns, hrange, hbuf⟩ := acquire_eq_ok h.toOwns ha
  exact ⟨h.setSlab howns hrange, ⟨slab, rfl⟩, hbuf⟩

theorem Owns.acquire_error (h : w.Owns live) (ha : World.acquire size w = (.error e, w')) :
    w' = w :=
  (acquire_eq_error h.toSound ha).1

theorem Owns.release (h : w.Owns (buf.allocation :: live)) :
    ∃ slab, release buf w = w.setSlab slab ∧ (w.setSlab slab).Owns live := by
  obtain ⟨slab, hs, howns, hrange⟩ := release_eq h.toOwns
  exact ⟨slab, hs, h.setSlab howns hrange⟩

end Pool

end World

theorem World.release_memory (b : DmaBuffer) (w : World) :
    (World.release b w).host.memory = w.host.memory := by
  simp only [World.release, DmaBuffer.discard]
  split <;> rfl

theorem DmaBuffer.sync_memory (b : DmaBuffer) (h : Host) : (b.sync h).2.memory = h.memory := by
  simp only [sync]
  split <;> rfl

theorem DmaBuffer.sync_allocation (b : DmaBuffer) (h : Host) :
    (b.sync h).1.allocation = b.allocation := by
  unfold sync
  split <;> rfl

inductive PoolMove where
  | alloc (len : Nat)
  | free (idx : Nat)
  deriving DecidableEq, Repr

def PoolMove.apply (s : World × List Allocation) : PoolMove → World × List Allocation
  | .alloc len =>
    match World.alloc len s.1 with
    | (.error _, w) => (w, s.2)
    | (.ok a, w) => (w, a :: s.2)
  | .free idx =>
    match s.2[idx]? with
    | none => s
    | some a => ((World.dealloc a s.1).2, s.2.eraseIdx idx)

theorem perm_eraseIdx {α : Type} {l : List α} {i : Nat} {x : α} (h : l[i]? = some x) :
    l.Perm (x :: l.eraseIdx i) := by
  obtain ⟨hlt, rfl⟩ := List.getElem?_eq_some_iff.mp h
  exact (List.getElem_cons_eraseIdx_perm hlt).symm

/-- Whatever other users do, they own what they hold and nobody loses anything. -/
theorem PoolMove.apply_eq {w : World} {held rest : List Allocation}
    (h : w.rest.slab.Owns (held ++ rest)) (move : PoolMove) :
    ∃ slab, (move.apply (w, held)).1 = w.setSlab slab ∧
      slab.Owns ((move.apply (w, held)).2 ++ rest) ∧ slab.range = w.rest.slab.range := by
  cases move with
  | alloc len =>
    simp only [apply]
    rcases ha : World.alloc len w with ⟨e | a, w'⟩
    · obtain rfl := World.alloc_eq_error h ha
      exact ⟨w'.rest.slab, rfl, h, rfl⟩
    · obtain ⟨slab, rfl, howns, hrange, -⟩ := World.alloc_eq_ok h ha
      exact ⟨slab, rfl, howns, hrange⟩
  | free idx =>
    simp only [apply]
    cases hidx : held[idx]? with
    | none => exact ⟨w.rest.slab, rfl, h, rfl⟩
    | some a =>
      have hperm := (perm_eraseIdx hidx).append_right rest
      obtain ⟨slab, hfreed, howns, hrange⟩ := World.dealloc_eq (h.perm hperm)
      simp only [hfreed]
      exact ⟨slab, rfl, howns, hrange⟩

end FrameRing
