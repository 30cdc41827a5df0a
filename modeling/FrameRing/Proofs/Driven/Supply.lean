import FrameRing.Stack
import FrameRing.Proofs.Driven.Lockstep

/-! # Over shared memory, with any pool and any consumer

A receive ring may be given any pool of buffers and any consumer of frames. All that is assumed is
that the pool answers from a state of its own and leaves shared memory to host and device, and that
it can be told what the consumer was handed. -/

namespace FrameRing

variable {σ β : Type}

/-- What a pool answers when it is asked for so many bytes, and what becomes of its state. -/
abbrev Supply (σ β : Type) := Nat → σ → Except AllocError β × σ

namespace Supply

def after (supply : Supply σ β) (size : Nat) (s : σ) : Nat → σ
  | 0 => s
  | i + 1 => (supply size (supply.after size s i)).2

def nth (supply : Supply σ β) (size : Nat) (s : σ) (i : Nat) : Except AllocError β :=
  (supply size (supply.after size s i)).1

end Supply

/-- The platform drives a source ring in the host's memory. Buffers come from `supply`, and `inbox`
lists the frames that the consumer was handed. -/
structure OverSharedMemory (rbm : Nat) (supply : Supply σ β) (inbox : σ → List β)
    (p : Platform (Machine σ) SourceRing Reservation β) : Prop where
  hardware : p.hardware = SourceRing.hardware
  register : p.register = SourceRing.registrar rbm
  acquire (size : Nat) (w : Machine σ) :
    ∃ journal, p.pool.acquire size w =
      ((supply size w.rest).1, ⟨⟨w.host.memory, journal⟩, (supply size w.rest).2⟩)
  record (event : LogEvent) (w : Machine σ) :
    ∃ journal, p.record event w = ⟨⟨w.host.memory, journal⟩, w.rest⟩
  inbox_supply (size : Nat) (s : σ) : inbox (supply size s).2 = inbox s
  inbox_release (b : β) (w : Machine σ) : inbox (p.pool.release b w).rest = inbox w.rest
  inbox_sync (b : β) (w : Machine σ) : inbox (p.pool.syncForCpu b w).2.rest = inbox w.rest
  inbox_deliver (b : β) (w : Machine σ) :
    inbox (p.deliver b w).rest = inbox w.rest ++ [b]

namespace World

def supply : Supply DmaState DmaBuffer := fun size s =>
  let (result, slab) := DmaBuffer.acquire s.slab size
  (result, { s with slab })

def inbox (s : DmaState) : List DmaBuffer := s.delivered.toList

theorem overSharedMemory (rbm : Nat) :
    OverSharedMemory rbm supply inbox (World.platform rbm) where
  hardware := rfl
  register := rfl
  acquire _ w := ⟨w.host.journal, rfl⟩
  record event w := ⟨w.host.journal.push event, rfl⟩
  inbox_supply _ _ := rfl
  inbox_release b w := by
    change inbox (World.release b w).rest = inbox w.rest
    unfold World.release
    rfl
  inbox_sync _ _ := rfl
  inbox_deliver _ _ := Array.toList_push

end World

namespace OverSharedMemory

variable {rbm : Nat} {supply : Supply σ β} {inbox : σ → List β}
  {p : Platform (Machine σ) SourceRing Reservation β}

theorem drives (hp : OverSharedMemory rbm supply inbox p) : DrivesSourceRing p where
  accessBegin _ w := by rw [hp.hardware]; exact ⟨w.host.memory, rfl, rfl⟩
  accessEnd r w := by rw [hp.hardware]; exact SourceRing.accessEnd_ring r w.host
  nextEntry _ w := by rw [hp.hardware]; exact ⟨w.host, rfl, rfl⟩
  nextFreeEntry _ _ := by rw [hp.hardware]; exact ⟨rfl, rfl⟩
  setEntry _ _ _ _ w := by rw [hp.hardware]; exact ⟨w.host.memory, rfl, rfl⟩
  register _ w := by rw [hp.register]; exact ⟨rbm, w.host.memory, rfl⟩

theorem record_memory (hp : OverSharedMemory rbm supply inbox p) (event : LogEvent)
    (w : Machine σ) :
    (p.record event w).host.memory = w.host.memory ∧ (p.record event w).rest = w.rest := by
  obtain ⟨journal, hrecord⟩ := hp.record event w
  rw [hrecord]
  exact ⟨rfl, rfl⟩

theorem accessBegin_unopened (hp : OverSharedMemory rbm supply inbox p) {r : SourceRing}
    {w : Machine σ} (hclosed : r.inAccess = false) {e : SourceRingError}
    (hl : r.loadTail w.host.memory = .error e) :
    p.hardware.accessBegin r w = (.error e, r, w) := by
  rw [hp.hardware]
  simp only [SourceRing.hardware, SourceRing.accessBegin, hclosed, hl, Bool.false_eq_true, if_false]

theorem accessBegin_opened (hp : OverSharedMemory rbm supply inbox p) {r : SourceRing}
    {w : Machine σ} (hclosed : r.inAccess = false) {tail : Nat}
    (hl : r.loadTail w.host.memory = .ok tail) :
    p.hardware.accessBegin r w = (.ok (), { r with cachedTail := tail, inAccess := true }, w) := by
  rw [hp.hardware]
  simp only [SourceRing.hardware, SourceRing.accessBegin, hclosed, hl, Bool.false_eq_true, if_false]

theorem nextEntry_eq (hp : OverSharedMemory rbm supply inbox p) (r : SourceRing)
    (w : Machine σ) :
    p.hardware.nextEntry r w =
      ((r.nextEntry w.host).1, r, { w with host := (r.nextEntry w.host).2 }) := by
  rw [hp.hardware]
  rfl

theorem nextFreeEntry_eq (hp : OverSharedMemory rbm supply inbox p) (r : SourceRing)
    (w : Machine σ) : p.hardware.nextFreeEntry r w = (r.nextFreeEntry, r, w) := by
  rw [hp.hardware]
  rfl

theorem setEntry_eq (hp : OverSharedMemory rbm supply inbox p) (res : Reservation)
    (busAddr cookie : Nat) (r : SourceRing) (w : Machine σ) :
    let out := r.setEntry w.host.memory res busAddr cookie
    p.hardware.setEntry res busAddr cookie r w = (out.1, out.2.1, w.setMemory out.2.2) := by
  rw [hp.hardware]
  rfl

theorem inbox_after (hp : OverSharedMemory rbm supply inbox p) (size : Nat) (s : σ) (i : Nat) :
    inbox (supply.after size s i) = inbox s := by
  induction i with
  | zero => rfl
  | succ i ih => exact (hp.inbox_supply size _).trans ih

end OverSharedMemory

variable [RxBuffer β]

def Delivery.views {ω η ε : Type} (p : Platform ω η ε β) : List β → Delivery ω → List β
  | [], _ => []
  | b :: bufs, d => (p.pool.syncForCpu b d.world).1 :: Delivery.views p bufs (d.one p b)

def frame? (view : β) : Option β :=
  match stripHeader view with
  | (.ok _, frame) => some frame
  | (.error _, _) => none

namespace OverSharedMemory

variable {rbm : Nat} {supply : Supply σ β} {inbox : σ → List β}
  {p : Platform (Machine σ) SourceRing Reservation β}

theorem deliver_one (hp : OverSharedMemory rbm supply inbox p) (d : Delivery (Machine σ))
    (b : β) :
    let view := (p.pool.syncForCpu b d.world).1
    let next := d.one p b
    inbox next.world.rest = inbox d.world.rest ++ (frame? view).toList ∧
      next.delivered = d.delivered + (frame? view).toList.length ∧
      next.delivered + next.dropped = d.delivered + d.dropped + 1 := by
  intro view next
  have hhandled : Delivery.Handled p d b next := Delivery.handled p d b
  have hsync : inbox (p.pool.syncForCpu b d.world).2.rest = inbox d.world.rest :=
    hp.inbox_sync b d.world
  generalize next = out at hhandled ⊢
  cases hhandled with
  | @delivered view' w len frame sync strip =>
    have hview : view = view' := congrArg Prod.fst sync
    rw [sync] at hsync
    have hframe : frame? view = some frame := by rw [frame?, hview, strip]
    refine ⟨?_, ?_, ?_⟩
    · rw [hp.inbox_deliver, (hp.record_memory _ _).2, hsync, hframe]
      rfl
    · rw [hframe]
      rfl
    · simp only
      omega
  | @dropped view' w e frame sync strip =>
    have hview : view = view' := congrArg Prod.fst sync
    rw [sync] at hsync
    have hnone : frame? view = none := by rw [frame?, hview, strip]
    refine ⟨?_, ?_, ?_⟩
    · rw [hp.inbox_release, (hp.record_memory _ _).2, hsync, hnone]
      exact (List.append_nil _).symm
    · rw [hnone]
      rfl
    · simp only
      omega

/-- Exactly the frames among the retired buffers are handed over, in their order. -/
theorem deliver_all (hp : OverSharedMemory rbm supply inbox p) (bufs : List β)
    (d : Delivery (Machine σ)) :
    let frames := (Delivery.views p bufs d).filterMap frame?
    let done := bufs.foldl (Delivery.one p) d
    inbox done.world.rest = inbox d.world.rest ++ frames ∧
      done.delivered = d.delivered + frames.length ∧
      done.delivered + done.dropped = d.delivered + d.dropped + bufs.length := by
  induction bufs generalizing d with
  | nil => exact ⟨(List.append_nil _).symm, rfl, rfl⟩
  | cons b bufs ih =>
    intro frames done
    obtain ⟨hbox, hcount, hsum⟩ := hp.deliver_one d b
    obtain ⟨hbox', hcount', hsum'⟩ := ih (d.one p b)
    have hframes : frames = (frame? (p.pool.syncForCpu b d.world).1).toList ++
        (Delivery.views p bufs (d.one p b)).filterMap frame? := by
      change ((p.pool.syncForCpu b d.world).1 :: _).filterMap frame? = _
      rw [List.filterMap_cons]
      cases frame? (p.pool.syncForCpu b d.world).1 <;> rfl
    have hdone : done = bufs.foldl (Delivery.one p) (d.one p b) := rfl
    refine ⟨?_, ?_, ?_⟩
    · rw [hdone, hbox', hbox, hframes, List.append_assoc]
    · rw [hdone, hcount', hcount, hframes, List.length_append, Nat.add_assoc]
    · rw [hdone, List.length_cons]
      omega

end OverSharedMemory

end FrameRing
