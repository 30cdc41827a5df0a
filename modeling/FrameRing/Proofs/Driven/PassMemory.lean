import FrameRing.Proofs.Driven.Halts

/-! # What a pass leaves behind

A pass writes one entry for every completion that it gets past, and the head word when its section
is closed. It asks the pool for one buffer per completion, the one that it stops at included, and a
buffer that cannot be armed goes back. -/

namespace FrameRing

namespace SourceRing

variable {r : SourceRing}

def headStored (r : SourceRing) (head : Nat) (m : HostMemory) : HostMemory :=
  if m.Blocked .store r.layout.headAddr 4 ∨ ¬ m.window.Covers r.layout.headAddr 4 then m
  else { m with window := (m.window.write r.layout.headAddr (pointerBytes r.flags head)).2 }

theorem accessEnd_memory (hs : r.inAccess = true) (h : Host) :
    (r.accessEnd h).2.memory = r.headStored r.head h.memory := by
  rw [accessEnd, if_pos hs]
  simp only [storePointer_eq, headStored]
  by_cases hrefused : h.memory.Blocked .store r.layout.headAddr 4 ∨
      ¬ h.memory.window.Covers r.layout.headAddr 4
  · rw [if_pos hrefused, if_pos hrefused]
    rfl
  · rw [if_neg hrefused, if_neg hrefused]

theorem headStored_alike (r : SourceRing) (head : Nat) (m : HostMemory) :
    m.Alike (r.headStored head m) := by
  unfold headStored
  split
  · exact .refl m
  · exact m.alike_write _ _

theorem headStored_writes (r : SourceRing) (head : Nat) (m : HostMemory) :
    m.window.WritesOnly (r.headStored head m).window r.layout.headWord.Contains := by
  unfold headStored
  split
  · exact .refl _
  · have hwrite := m.window.writesOnly_write r.layout.headAddr (pointerBytes r.flags head)
    rwa [length_pointerBytes] at hwrite

end SourceRing

namespace Outset

variable {σ β : Type} [RxBuffer β]

def rearm (o : Outset σ β) (i : Nat) (m : HostMemory) : HostMemory :=
  match o.supply.nth o.size o.rest i with
  | .error _ => m
  | .ok b =>
    match RingEntry.ofFields (RxBuffer.busAddr b) (o.free i) o.ring.rbm with
    | .error _ => m
    | .ok entry =>
      { m with window := (m.window.write (o.ring.layout.positionAddr (o.free i)) entry.toBytes).2 }

/-- Memory when the first `i` completions are behind the pass. -/
def rearmed (o : Outset σ β) : Nat → HostMemory
  | 0 => o.memory
  | i + 1 => o.rearm i (o.rearmed i)

theorem rearmed_succ {o : Outset σ β} {i : Nat} {b : β} {entry : RingEntry}
    (hb : o.supply.nth o.size o.rest i = .ok b)
    (fields : RingEntry.ofFields (RxBuffer.busAddr b) (o.free i) o.ring.rbm = .ok entry) :
    o.rearmed (i + 1) =
      let addr := o.ring.layout.positionAddr (o.free i)
      { o.rearmed i with window := ((o.rearmed i).window.write addr entry.toBytes).2 } := by
  rw [rearmed, rearm, hb]
  simp only [fields]

theorem rearm_kept (o : Outset σ β) (i : Nat) (m : HostMemory) :
    m.Alike (o.rearm i m) ∧
      m.window.WritesOnly (o.rearm i m).window (o.ring.layout.entryBytes (o.free i)).Contains := by
  unfold rearm
  split
  · exact ⟨.refl m, .refl _⟩
  split
  · exact ⟨.refl m, .refl _⟩
  · rename_i entry _
    have hwrite := m.window.writesOnly_write (o.ring.layout.positionAddr (o.free i)) entry.toBytes
    rw [RingEntry.length_toBytes] at hwrite
    exact ⟨m.alike_write _ _, hwrite⟩

theorem rearmed_kept (o : Outset σ β) (i : Nat) :
    o.memory.Alike (o.rearmed i) ∧
      o.memory.window.WritesOnly (o.rearmed i).window fun addr =>
        ∃ k, k < i ∧ (o.ring.layout.entryBytes (o.free k)).Contains addr := by
  induction i with
  | zero => exact ⟨.refl _, .refl _⟩
  | succ i ih =>
    obtain ⟨halike, hwrites⟩ := ih
    obtain ⟨hnext, hentry⟩ := o.rearm_kept i (o.rearmed i)
    refine ⟨halike.trans hnext, (hwrites.mono ?_).trans (hentry.mono ?_)⟩
    · rintro addr ⟨k, hk, hc⟩
      exact ⟨k, Nat.lt_succ_of_lt hk, hc⟩
    · intro addr hc
      exact ⟨i, Nat.lt_succ_self i, hc⟩

structure Progress (o : Outset σ β) (armed asked : Nat) (w : Machine σ) : Prop where
  memory : w.host.memory = o.rearmed armed
  rest : w.rest = o.supply.after o.size o.rest asked

/-- The world as the pass leaves it to its section's end. -/
def Leaves (o : Outset σ β) (p : Platform (Machine σ) SourceRing Reservation β) (m : Nat)
    (halt : Option Halt) (w : Machine σ) : Prop :=
  match halt with
  | none | some .unreadable | some (.mismatch _) => o.Progress m m w
  | some (.dry _) => o.Progress m (m + 1) w
  | some (.refused _) => ∃ b before, o.supply.nth o.size o.rest m = .ok b ∧
    o.Progress m (m + 1) before ∧ w = p.pool.release b before

variable {o : Outset σ β} {rbm : Nat} {inbox : σ → List β}
  {p : Platform (Machine σ) SourceRing Reservation β} {m asked : Nat} {w : Machine σ}

theorem Progress.inbox_eq (hp : OverSharedMemory rbm o.supply inbox p)
    (h : o.Progress m asked w) : inbox w.rest = inbox o.rest := by
  rw [h.rest]
  exact hp.inbox_after o.size o.rest asked

theorem Leaves.inbox_eq (hp : OverSharedMemory rbm o.supply inbox p) {halt : Option Halt}
    (h : o.Leaves p m halt w) : inbox w.rest = inbox o.rest := by
  rcases halt with _ | ⟨_ | cookie | cause | cause⟩
  case none => exact Progress.inbox_eq hp h
  case some.unreadable => exact Progress.inbox_eq hp h
  case some.mismatch => exact Progress.inbox_eq hp h
  case some.dry => exact Progress.inbox_eq hp h
  case some.refused =>
    obtain ⟨b, before, -, hbefore, rfl⟩ := h
    exact (hp.inbox_release b before).trans (hbefore.inbox_eq hp)

/-- A pool that leaves memory alone leaves it as the arms did. -/
theorem Leaves.memory_eq {halt : Option Halt} (h : o.Leaves p m halt w)
    (hkeeps : ∀ cause b v, halt = some (.refused cause) →
      (p.pool.release b v).host.memory = v.host.memory) : w.host.memory = o.rearmed m := by
  rcases halt with _ | ⟨_ | cookie | cause | cause⟩
  case none => exact h.memory
  case some.unreadable => exact h.memory
  case some.mismatch => exact h.memory
  case some.dry => exact h.memory
  case some.refused =>
    obtain ⟨b, before, -, hbefore, rfl⟩ := h
    exact (hkeeps cause b before rfl).trans hbefore.memory

end Outset

end FrameRing
