import FrameRing.Proofs.Ring.SectionInvariant

/-! # What a ring answers for

The host keeps account of the ring memory and of the buffers that a ring has in its hands. The
rules say what each call of a platform does to the account; what they say of single calls holds of
everything that a ring does. -/

namespace FrameRing

variable {ω η ε β : Type}

variable [RxBuffer β]

/-- `C w held` says that in world `w` the host answers for the buffers `held`. -/
structure BufferCustody (p : Platform ω η ε β) (C : ω → List β → Prop) : Prop where
  perm {w held held'} (h : C w held) (hp : held.Perm held') : C w held'
  acquire {w size b w' held} (h : C w held) (ha : p.pool.acquire size w = (.ok b, w')) :
    C w' (b :: held)
  acquire_error {w size e w' held} (h : C w held)
    (ha : p.pool.acquire size w = (.error e, w')) : C w' held
  release {w b held} (h : C w (b :: held)) : C (p.pool.release b w) held
  sync {w b b' w' held} (h : C w (b :: held)) (hs : p.pool.syncForCpu b w = (b', w')) :
    C w' (b' :: held)
  narrow {w b held} (h : C w (b :: held)) (front back : Nat) :
    C w (RxBuffer.trim (RxBuffer.pullHead b front) back :: held)
  deliver {w b held} (h : C w (b :: held)) : C (p.deliver b w) held
  record {w held event} (h : C w held) (he : event.reportsLeak = false) :
    C (p.record event w) held

/-- `C w mem held` says the same of the ring memory `mem` besides. -/
structure Custody (p : Platform ω η ε β) (C : ω → Option Allocation → List β → Prop) : Prop where
  buffers (mem : Option Allocation) : BufferCustody p (C · mem)
  accessBegin {hw w result hw' w' mem held} (h : C w mem held)
    (ha : p.hardware.accessBegin hw w = (result, hw', w')) : C w' mem held
  accessEnd {w mem held} (h : C w mem held) (hw : η) :
    C (p.hardware.accessEnd hw w).2 mem held
  nextEntry {hw w entry hw' w' mem held} (h : C w mem held)
    (hn : p.hardware.nextEntry hw w = (entry, hw', w')) : C w' mem held
  nextFreeEntry {hw w entry hw' w' mem held} (h : C w mem held)
    (hn : p.hardware.nextFreeEntry hw w = (entry, hw', w')) : C w' mem held
  setEntry {entry busAddr cookie hw w result hw' w' mem held} (h : C w mem held)
    (hs : p.hardware.setEntry entry busAddr cookie hw w = (result, hw', w')) : C w' mem held
  alloc {len w a w' held} (h : C w none held) (ha : p.memory.alloc len w = (.ok a, w')) :
    C w' (some a) held
  alloc_error {len w e w' held} (h : C w none held)
    (ha : p.memory.alloc len w = (.error e, w')) : C w' none held
  free {w a held} (h : C w (some a) held) : C (freeRingMemory p a w) none held
  register {reg w result w' mem held} (h : C w mem held)
    (hr : p.register reg w = (result, w')) : C w' mem held

/-- The rules that a ring needs once it is set up. -/
structure RingCustody (p : Platform ω η ε β) (C : ω → Option Allocation → List β → Prop) :
    Prop where
  buffers (mem : Option Allocation) : BufferCustody p (C · mem)
  accessBegin {hw w result hw' w' mem held} (h : C w mem held)
    (ha : p.hardware.accessBegin hw w = (result, hw', w')) : C w' mem held
  accessEnd {w mem held} (h : C w mem held) (hw : η) :
    C (p.hardware.accessEnd hw w).2 mem held
  nextEntry {hw w entry hw' w' mem held} (h : C w mem held)
    (hn : p.hardware.nextEntry hw w = (entry, hw', w')) : C w' mem held
  nextFreeEntry {hw w entry hw' w' mem held} (h : C w mem held)
    (hn : p.hardware.nextFreeEntry hw w = (entry, hw', w')) : C w' mem held
  setEntry {entry busAddr cookie hw w result hw' w' mem held} (h : C w mem held)
    (hs : p.hardware.setEntry entry busAddr cookie hw w = (result, hw', w')) : C w' mem held
  free {w a held} (h : C w (some a) held) : C (freeRingMemory p a w) none held

theorem Custody.atWork {p : Platform ω η ε β} {C : ω → Option Allocation → List β → Prop}
    (K : Custody p C) : RingCustody p C where
  buffers := K.buffers
  accessBegin := K.accessBegin
  accessEnd := K.accessEnd
  nextEntry := K.nextEntry
  nextFreeEntry := K.nextFreeEntry
  setEntry := K.setEntry
  free := K.free

section Delivery

variable {p : Platform ω η ε β} {C : ω → List β → Prop}

theorem BufferCustody.strip (K : BufferCustody p C) {w : ω} {b b' : β} {held : List β}
    {result : Except FrameError Nat} (h : C w (b :: held))
    (hs : stripHeader b = (result, b')) : C w (b' :: held) := by
  unfold stripHeader at hs
  split at hs
  · cases hs
    exact h
  · cases hs
    exact K.narrow h _ _

theorem Delivery.Handled.custody (K : BufferCustody p C) {d out : Delivery ω} {b : β}
    {held : List β} (h : C d.world (b :: held)) (ho : Handled p d b out) : C out.world held := by
  cases ho with
  | delivered sync strip => exact K.deliver (K.record (K.strip (K.sync h sync) strip) rfl)
  | dropped sync strip => exact K.release (K.record (K.strip (K.sync h sync) strip) rfl)

theorem Delivery.all_custody (K : BufferCustody p C) {w : ω} {bufs held : List β}
    (h : C w (bufs ++ held)) : C (Delivery.all p bufs w).world held := by
  have hall {d : Delivery ω} (hd : C d.world (bufs ++ held)) :
      C (bufs.foldl (one p) d).world held := by
    clear h
    induction bufs generalizing d with
    | nil => exact hd
    | cons b bufs ih => exact ih ((handled p d b).custody K hd)
  exact hall h

theorem BufferCustody.releaseAll (K : BufferCustody p C) {w : ω} {bufs held : List β}
    (h : C w (bufs ++ held)) : C (bufs.foldl (fun w b => p.pool.release b w) w) held := by
  induction bufs generalizing w with
  | nil => exact h
  | cons b bufs ih => exact ih (K.release h)

end Delivery

variable {p : Platform ω η ε β} {C : ω → Option Allocation → List β → Prop}
  {mem : Option Allocation}

theorem RingCustody.invariant (K : RingCustody p C) (mem : Option Allocation) (size : Nat) :
    SectionInvariant p size fun _ w held => C w mem held where
  perm := (K.buffers mem).perm
  acquire := (K.buffers mem).acquire
  acquire_error := (K.buffers mem).acquire_error
  release := (K.buffers mem).release
  record := (K.buffers mem).record
  nextEntry := K.nextEntry
  nextFreeEntry := K.nextFreeEntry
  setEntry h hs := K.setEntry h hs

namespace Section

/-- Filling a ring holds on to what it acquired, also where it fails. -/
theorem fill_custody (K : RingCustody p C) (size count : Nat) {s : Section ω η β}
    (h : C s.world mem s.table.buffers) :
    C (s.fill p size count).2.world mem (s.fill p size count).2.table.buffers := by
  unfold fill
  rcases hb : p.hardware.accessBegin s.hw s.world with ⟨_ | _, hw, w⟩
  · exact K.accessBegin h hb
  · have hmany := armMany_invariant (s := { s with hw, world := w }) (K.invariant mem size) count
      (K.accessBegin h hb)
    exact K.accessEnd hmany _

end Section

namespace Ring

variable {ring : Ring η β} {w : ω}

def Emptied (ring : Ring η β) : Prop :=
  ring.state = .released → ring.ringMem = none ∧ ring.table = .empty

structure InCustody (C : ω → Option Allocation → List β → Prop) (ring : Ring η β) (w : ω) :
    Prop where
  account : C w ring.ringMem ring.table.buffers
  emptied : ring.Emptied

theorem releaseAll_custody (K : RingCustody p C) (h : C w ring.ringMem ring.table.buffers)
    (hs : ring.state ≠ .released) :
    InCustody C (ring.releaseAll p w).1 (ring.releaseAll p w).2 := by
  rw [releaseAll, if_neg hs]
  refine ⟨(K.buffers none).record ?_ rfl, fun _ => ⟨rfl, rfl⟩⟩
  rw [SlotTable.buffers_empty]
  cases hm : ring.ringMem with
  | none =>
    rw [hm, ← List.append_nil ring.table.buffers] at h
    exact (K.buffers none).releaseAll h
  | some a =>
    rw [hm, ← List.append_nil ring.table.buffers] at h
    exact K.free ((K.buffers (some a)).releaseAll h)

theorem InCustody.releaseAll (K : RingCustody p C) (h : ring.InCustody C w) :
    InCustody C (ring.releaseAll p w).1 (ring.releaseAll p w).2 := by
  by_cases hs : ring.state = .released
  · rw [Ring.releaseAll, if_pos hs]
    exact h
  · exact releaseAll_custody K h.account hs

theorem InCustody.attach (K : RingCustody p C) (h : ring.InCustody C w) :
    InCustody C (ring.attach p w).2.1 (ring.attach p w).2.2 := by
  have hfill (hw : η) := Section.fill_custody K (s := ring.enter hw w) ring.geometry.bufferSize
    (ring.table.capacity - 1) h.account
  have hout := attached p ring w
  generalize ring.attach p w = out at hout ⊢
  cases hout with
  | again => exact h
  | refused => exact h
  | @failed hw e s ready held fill =>
    have hs := hfill hw
    rw [fill] at hs
    refine releaseAll_custody K ((K.buffers _).record hs rfl) ?_
    simp [leave, ready]
  | @filled hw s ready held fill =>
    have hs := hfill hw
    rw [fill] at hs
    exact ⟨(K.buffers _).record hs rfl, fun h => by cases h⟩

theorem concluded_custody {C : ω → List β → Prop} (K : BufferCustody p C)
    {closed ring' : Ring η β} {result : Except RingError Unit} {s : Pass ω η β} {w out : ω}
    {n : Nat} (h : C s.world s.held) (conclude : ring.conclude p result s = (closed, w))
    (deliver : closed.deliver p s.retired w = (n, ring', out)) : C out s.table.buffers := by
  have hheld := K.perm h List.perm_append_comm
  cases deliver
  cases result with
  | ok =>
    cases conclude
    exact Delivery.all_custody K hheld
  | error e =>
    cases conclude
    exact Delivery.all_custody K (K.record hheld rfl)

theorem InCustody.tryReap (K : RingCustody p C) (h : ring.InCustody C w) :
    InCustody C (ring.tryReap p w).2.1 (ring.tryReap p w).2.2 := by
  have hout := reaped p ring w
  generalize ring.tryReap p w = out at hout ⊢
  cases hout with
  | refused => exact h
  | unopened active held access => exact ⟨K.accessBegin h.account access, h.emptied⟩
  | @drained hw hw' w' result pass closed w'' n ring' out active held access drain hc hd =>
    have hdrain := Pass.drain_invariant (s := ⟨ring.enter hw' w', ring.stats, []⟩)
      (K.invariant ring.ringMem ring.geometry.bufferSize) (p.hardware.availableCount hw' w')
      ((K.buffers _).perm (K.accessBegin h.account access) (by simp [Pass.held, enter]))
    rw [drain] at hdrain
    have hclosed := concluded_custody (K.buffers _) (K.accessEnd hdrain pass.hw) hc hd
    cases hd
    cases result with
    | ok =>
      cases hc
      exact ⟨hclosed, fun hr => by simp only [leave, active] at hr; cases hr⟩
    | error e =>
      cases hc
      exact ⟨hclosed, fun hr => by cases hr⟩

/-- Whatever a ring does, the host answers for what it holds. -/
theorem InCustody.perform (K : RingCustody p C) (h : ring.InCustody C w) (op : Operation) :
    InCustody C (ring.perform p w op).1 (ring.perform p w op).2 := by
  cases op with
  | attach => exact h.attach K
  | tryReap => exact h.tryReap K
  | reap =>
    have hreap := h.tryReap K
    rw [Ring.perform, Ring.reap]
    generalize ring.tryReap p w = out at hreap ⊢
    obtain ⟨e | n, ring', w'⟩ := out
    · refine ⟨(K.buffers _).record hreap.account ?_, hreap.emptied⟩
      split <;> rfl
    · exact hreap
  | release => exact h.releaseAll K

/-- A setup that fails gives back what it allocated. -/
theorem setup_custody (K : Custody p C) {params : RingParams} {w' : ω}
    {result : Except RingError (Ring η β)} (h : C w none [])
    (hs : Ring.setup p params w = (result, w')) :
    (∃ e, result = .error e ∧ C w' none []) ∨
      ∃ ring, result = .ok ring ∧ ring.InCustody C w' := by
  cases result with
  | error e =>
    refine .inl ⟨e, rfl, ?_⟩
    cases unbuilt hs with
    | invalid | crowded => exact h
    | unallocated alloc => exact K.alloc_error h alloc
    | unaligned alloc => exact K.free (K.alloc h alloc)
    | unregistered alloc register => exact K.free (K.register (K.alloc h alloc) register)
  | ok ring =>
    obtain ⟨-, -, a, w₁, hw, w₂, alloc, -, register, rfl, rfl⟩ := setup_eq_ok hs
    refine .inr ⟨_, rfl, ?_, fun hs => by cases hs⟩
    simp only [SlotTable.buffers_withCapacity]
    exact (K.buffers _).record (K.register (K.alloc h alloc) register) rfl

end Ring

end FrameRing
