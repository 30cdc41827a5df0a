import FrameRing.Ring.Attach
import FrameRing.Ring.Reap
import FrameRing.Proofs.SlotTable

/-! # What setup, attaching and reaping can do

Each relation lists the ways in which a step can end, with the answers of the collaborators that
lead there. Invariants are proved by cases on these relations; the other way round, answers that
fit one of the ways say what the step does. -/

namespace FrameRing

variable {ω η ε β : Type} [RxBuffer β]

namespace Section

variable (p : Platform ω η ε β)

inductive Placed (entry : ε) (buf : β) (s : Section ω η β) :
    Except RingError Unit × Section ω η β → Prop where
  | rejected {e hw w}
      (set : p.hardware.setEntry entry (RxBuffer.busAddr buf) s.cursor.writeIdx s.hw s.world =
        (.error e, hw, w)) :
      Placed entry buf s (.error (.hardware e), ⟨hw, s.table, s.cursor, p.pool.release buf w⟩)
  | occupied {hw w}
      (set : p.hardware.setEntry entry (RxBuffer.busAddr buf) s.cursor.writeIdx s.hw s.world =
        (.ok (), hw, w))
      (taken : s.table.capacity ≤ s.cursor.writeIdx ∨ s.table.isArmed s.cursor.writeIdx = true) :
      Placed entry buf s
        (.error (.doubleArm s.cursor.writeIdx), ⟨hw, s.table, s.cursor, p.pool.release buf w⟩)
  | armed {hw w table}
      (set : p.hardware.setEntry entry (RxBuffer.busAddr buf) s.cursor.writeIdx s.hw s.world =
        (.ok (), hw, w))
      (arm : s.table.arm s.cursor.writeIdx buf = .ok table) :
      Placed entry buf s (.ok (), ⟨hw, table, s.cursor.advanceWrite, w⟩)

theorem placed (entry : ε) (buf : β) (s : Section ω η β) :
    Placed p entry buf s (s.place p entry buf) := by
  unfold place
  obtain ⟨hw, table, cursor, w⟩ := s
  simp only
  split
  · rename_i set
    exact .rejected set
  · rename_i set
    split
    · rename_i harm
      obtain ⟨rfl, taken⟩ := SlotTable.arm_error_eq harm
      exact .occupied set taken
    · rename_i harm
      exact .armed set harm

variable {p} in
theorem Placed.eq {entry : ε} {buf : β} {s : Section ω η β} {out}
    (h : Placed p entry buf s out) : s.place p entry buf = out := by
  cases h with
  | rejected set => simp only [place, set]
  | occupied set taken => simp only [place, set, SlotTable.arm_eq_error taken]
  | armed set arm => simp only [place, set, arm]

inductive ArmedNext (size : Nat) (s : Section ω η β) :
    Except RingError Unit × Section ω η β → Prop where
  | occupied (taken : s.table.isArmed s.cursor.writeIdx = true) :
      ArmedNext size s (.error (.doubleArm s.cursor.writeIdx), s)
  | starved {e w} (idle : s.table.isArmed s.cursor.writeIdx = false)
      (acquire : p.pool.acquire size s.world = (.error e, w)) :
      ArmedNext size s (.error (.allocation e), { s with world := w })
  | full {buf w hw w'} (idle : s.table.isArmed s.cursor.writeIdx = false)
      (acquire : p.pool.acquire size s.world = (.ok buf, w))
      (free : p.hardware.nextFreeEntry s.hw w = (none, hw, w')) :
      ArmedNext size s
        (.error (.hardware .ringFull), { s with hw, world := p.pool.release buf w' })
  | placed {buf w entry hw w' out} (idle : s.table.isArmed s.cursor.writeIdx = false)
      (acquire : p.pool.acquire size s.world = (.ok buf, w))
      (free : p.hardware.nextFreeEntry s.hw w = (some entry, hw, w'))
      (place : Placed p entry buf { s with hw, world := w' } out) :
      ArmedNext size s out

theorem armedNext (size : Nat) (s : Section ω η β) : ArmedNext p size s (s.armNext p size) := by
  unfold armNext
  simp only
  split
  · rename_i taken
    exact .occupied taken
  · rename_i idle
    have idle := Bool.eq_false_iff.mpr idle
    split
    · rename_i acquire
      exact .starved idle acquire
    · rename_i acquire
      split
      · rename_i free
        exact .full idle acquire free
      · rename_i free
        exact .placed idle acquire free (placed p _ _ _)

variable {p} in
theorem ArmedNext.eq {size : Nat} {s : Section ω η β} {out} (h : ArmedNext p size s out) :
    s.armNext p size = out := by
  cases h with
  | occupied taken => simp only [armNext, taken, if_true]
  | starved idle acquire => simp only [armNext, idle, acquire, Bool.false_eq_true, if_false]
  | full idle acquire free =>
    simp only [armNext, idle, acquire, free, Bool.false_eq_true, if_false]
  | placed idle acquire free place =>
    simp only [armNext, idle, acquire, free, place.eq, Bool.false_eq_true, if_false]

end Section

namespace Pass

variable (p : Platform ω η ε β)

structure Due (entry : ε) (s : Pass ω η β) : Prop where
  cookie : p.hardware.cookieOf entry s.hw s.world = s.cursor.readIdx
  armed : s.table.isArmed s.cursor.readIdx = true

omit [RxBuffer β] in
variable {p} in
theorem due_iff {entry : ε} {s : Pass ω η β} :
    Due p entry s ↔ ¬ (p.hardware.cookieOf entry s.hw s.world ≠ s.cursor.readIdx ∨
      s.table.isArmed s.cursor.readIdx = false) := by
  rw [not_or, Decidable.not_not, Bool.not_eq_false]
  exact ⟨fun h => ⟨h.cookie, h.armed⟩, fun h => ⟨h.1, h.2⟩⟩

inductive Recycled (size remaining : Nat) (entry : ε) (s : Pass ω η β) :
    PassStep × Pass ω η β → Prop where
  | desync
      (wrong : p.hardware.cookieOf entry s.hw s.world ≠ s.cursor.readIdx ∨
        s.table.isArmed s.cursor.readIdx = false) :
      Recycled size remaining entry s
        (.fail (.desync (p.hardware.cookieOf entry s.hw s.world) s.cursor.readIdx), s)
  | occupied (due : Due p entry s) (taken : s.table.isArmed s.cursor.writeIdx = true) :
      Recycled size remaining entry s (.fail (.doubleArm s.cursor.writeIdx), s)
  | starved {e w} (due : Due p entry s) (idle : s.table.isArmed s.cursor.writeIdx = false)
      (acquire : p.pool.acquire size s.world = (.error e, w)) :
      Recycled size remaining entry s
        (.stop,
          { s with
            world := p.record (.poolExhausted e remaining) w
            stats := { s.stats with backpressure := s.stats.backpressure + 1 } })
  | refused {buf w e armed} (due : Due p entry s)
      (idle : s.table.isArmed s.cursor.writeIdx = false)
      (acquire : p.pool.acquire size s.world = (.ok buf, w))
      (place : Section.Placed p entry buf { s.toSection with world := w } (.error e, armed)) :
      Recycled size remaining entry s (.fail e, { s with toSection := armed })
  | lost {buf w armed} (due : Due p entry s)
      (idle : s.table.isArmed s.cursor.writeIdx = false)
      (acquire : p.pool.acquire size s.world = (.ok buf, w))
      (place : Section.Placed p entry buf { s.toSection with world := w } (.ok (), armed))
      (gone : armed.table.isArmed armed.cursor.readIdx = false) :
      Recycled size remaining entry s
        (.fail (.desync s.cursor.readIdx armed.cursor.readIdx), { s with toSection := armed })
  | renewed {buf w armed old table} (due : Due p entry s)
      (idle : s.table.isArmed s.cursor.writeIdx = false)
      (acquire : p.pool.acquire size s.world = (.ok buf, w))
      (place : Section.Placed p entry buf { s.toSection with world := w } (.ok (), armed))
      (retire : armed.table.retire armed.cursor.readIdx = (some old, table)) :
      Recycled size remaining entry s
        (.proceed,
          { toSection := { armed with table, cursor := armed.cursor.advanceRead }
            stats := { s.stats with reaped := s.stats.reaped + 1 }
            retired := s.retired ++ [old] })

theorem recycled (size remaining : Nat) (entry : ε) (s : Pass ω η β) :
    Recycled p size remaining entry s (s.recycle p size remaining entry) := by
  unfold recycle
  simp only
  split
  · rename_i wrong
    exact .desync wrong
  rename_i right
  have due : Due p entry s := due_iff.mpr right
  split
  · rename_i taken
    exact .occupied due taken
  rename_i idle
  have idle := Bool.eq_false_iff.mpr idle
  obtain ⟨⟨hw, table, cursor, w⟩, stats, retired⟩ := s
  simp only
  split
  · rename_i acquire
    exact .starved due idle acquire
  · rename_i buf w' acquire
    have place := Section.placed p entry buf ⟨hw, table, cursor, w'⟩
    split
    · rename_i refused
      exact .refused due idle acquire (refused ▸ place)
    · rename_i armed accepted
      rw [accepted] at place
      unfold retireOldest
      simp only
      split
      · rename_i retire
        have gone := SlotTable.retire_none (congrArg Prod.fst retire)
        rw [due.cookie]
        exact .lost due idle acquire place gone
      · rename_i retire
        exact .renewed due idle acquire place retire

variable {p} in
theorem Recycled.eq {size remaining : Nat} {entry : ε} {s : Pass ω η β} {out}
    (h : Recycled p size remaining entry s out) : s.recycle p size remaining entry = out := by
  cases h with
  | desync wrong => simp only [recycle, if_pos wrong]
  | occupied due taken => simp only [recycle, if_neg (due_iff.mp due), if_pos taken]
  | starved due idle acquire =>
    simp only [recycle, if_neg (due_iff.mp due), idle, acquire]
    rfl
  | refused due idle acquire place =>
    simp only [recycle, if_neg (due_iff.mp due), idle, acquire, place.eq]
    rfl
  | lost due idle acquire place gone =>
    obtain ⟨table, retire⟩ := SlotTable.exists_retire_none gone
    simp only [recycle, if_neg (due_iff.mp due), idle, acquire, place.eq, retireOldest, retire]
    rw [due.cookie]
    rfl
  | renewed due idle acquire place retire =>
    simp only [recycle, if_neg (due_iff.mp due), idle, acquire, place.eq, retireOldest, retire]
    rfl

inductive Stepped (size remaining : Nat) (s : Pass ω η β) : PassStep × Pass ω η β → Prop where
  | missing {hw w} (next : p.hardware.nextEntry s.hw s.world = (none, hw, w)) :
      Stepped size remaining s
        (.proceed,
          { s with
            hw
            world := p.record .missingCompletion w
            stats := { s.stats with missingEntries := s.stats.missingEntries + 1 } })
  | found {entry hw w out} (next : p.hardware.nextEntry s.hw s.world = (some entry, hw, w))
      (recycle : Recycled p size remaining entry { s with hw, world := w } out) :
      Stepped size remaining s out

theorem stepped (size remaining : Nat) (s : Pass ω η β) :
    Stepped p size remaining s (s.step p size remaining) := by
  unfold step
  split
  · rename_i next
    exact .missing next
  · rename_i next
    exact .found next (recycled p size remaining _ _)

variable {p} in
theorem Stepped.eq {size remaining : Nat} {s : Pass ω η β} {out}
    (h : Stepped p size remaining s out) : s.step p size remaining = out := by
  cases h with
  | missing next => simp only [step, next]
  | found next recycle => simp only [step, next, recycle.eq]

end Pass

namespace Delivery

variable (p : Platform ω η ε β)

inductive Handled (d : Delivery ω) (buf : β) : Delivery ω → Prop where
  | delivered {buf' w len frame} (sync : p.pool.syncForCpu buf d.world = (buf', w))
      (strip : stripHeader buf' = (.ok len, frame)) :
      Handled d buf
        { d with
          delivered := d.delivered + 1
          world := p.deliver frame (p.record (.frameDelivered len (RxBuffer.busAddr frame)) w) }
  | dropped {buf' w e frame} (sync : p.pool.syncForCpu buf d.world = (buf', w))
      (strip : stripHeader buf' = (.error e, frame)) :
      Handled d buf
        { d with
          dropped := d.dropped + 1
          world :=
            p.pool.release frame (p.record (.frameDropped (RxBuffer.busAddr frame) e) w) }

theorem handled (d : Delivery ω) (buf : β) : Handled p d buf (one p d buf) := by
  unfold one
  rcases sync : p.pool.syncForCpu buf d.world with ⟨buf', w⟩
  rcases strip : stripHeader buf' with ⟨_ | _, frame⟩
  · simp only [strip]
    exact .dropped sync strip
  · simp only [strip]
    exact .delivered sync strip

variable {p} in
theorem Handled.eq {d : Delivery ω} {buf : β} {out} (h : Handled p d buf out) :
    one p d buf = out := by
  cases h with
  | delivered sync strip => simp only [one, sync, strip]
  | dropped sync strip => simp only [one, sync, strip]

end Delivery

namespace Ring

variable (p : Platform ω η ε β)

inductive Attached (ring : Ring η β) (w : ω) : Except RingError Unit × Ring η β × ω → Prop where
  | again (active : ring.state = .active) : Attached ring w (.error .alreadyAttached, ring, w)
  | refused {e} (refusal : e.isRefusal = true) (unreaped : e ≠ .notAttached) :
      Attached ring w (.error e, ring, w)
  | failed {hw e s} (ready : ring.state = .ready) (held : ring.hw = some hw)
      (fill : (ring.enter hw w).fill p ring.geometry.bufferSize (ring.table.capacity - 1) =
        (.error e, s)) :
      Attached ring w
        (.error e,
          (ring.leave s).releaseAll p (p.record (.attachFailed s.cursor.writeIdx e) s.world))
  | filled {hw s} (ready : ring.state = .ready) (held : ring.hw = some hw)
      (fill : (ring.enter hw w).fill p ring.geometry.bufferSize (ring.table.capacity - 1) =
        (.ok (), s)) :
      Attached ring w
        (.ok (), { ring.leave s with state := .active },
          p.record (.attached (ring.leave s).inUseCount) s.world)

theorem attached (ring : Ring η β) (w : ω) : Attached p ring w (ring.attach p w) := by
  unfold attach
  split
  · rename_i active
    exact .again active
  · exact .refused rfl (by simp)
  · exact .refused rfl (by simp)
  · exact .refused rfl (by simp)
  · rename_i hw ready held
    rcases fill : (ring.enter hw w).fill p ring.geometry.bufferSize (ring.table.capacity - 1) with
      ⟨_ | _, s⟩
    · exact .failed ready held fill
    · exact .filled ready held fill

inductive Reaped (ring : Ring η β) (w : ω) : Except RingError Nat × Ring η β × ω → Prop where
  | refused {e} (refusal : e.isRefusal = true) : Reaped ring w (.error e, ring, w)
  | unopened {hw e hw' w'} (active : ring.state = .active) (held : ring.hw = some hw)
      (access : p.hardware.accessBegin hw w = (.error e, hw', w')) :
      Reaped ring w (.error (.hardware e), { ring with hw := some hw' }, w')
  | drained {hw hw' w' result pass closed w'' n ring' out} (active : ring.state = .active)
      (held : ring.hw = some hw)
      (access : p.hardware.accessBegin hw w = (.ok (), hw', w'))
      (drain : Pass.drain p ring.geometry.bufferSize (p.hardware.availableCount hw' w')
        ⟨ring.enter hw' w', ring.stats, []⟩ = (result, pass))
      (conclude : ring.conclude p result { pass with toSection := pass.toSection.close p } =
        (closed, w''))
      (deliver : closed.deliver p pass.retired w'' = (n, ring', out)) :
      Reaped ring w (result.map fun _ => n, ring', out)

variable {p} in
theorem concluded {ring closed ring' : Ring η β} {result : Except RingError Unit} {s : Pass ω η β}
    {bufs : List β} {w out : ω} {n : Nat} (conclude : ring.conclude p result s = (closed, w))
    (deliver : closed.deliver p bufs w = (n, ring', out)) :
    ∃ state stats, ring' = { ring.leave s.toSection with state, stats } := by
  cases deliver
  cases result with
  | ok =>
    cases conclude
    exact ⟨_, _, rfl⟩
  | error e =>
    cases conclude
    exact ⟨_, _, rfl⟩

theorem reaped (ring : Ring η β) (w : ω) : Reaped p ring w (ring.tryReap p w) := by
  unfold tryReap
  split
  · exact .refused rfl
  · exact .refused rfl
  · exact .refused rfl
  · exact .refused rfl
  · rename_i hw active held
    split
    · rename_i access
      exact .unopened active held access
    · rename_i hw' w' access
      rcases drain : Pass.drain p ring.geometry.bufferSize (p.hardware.availableCount hw' w')
        ⟨ring.enter hw' w', ring.stats, []⟩ with ⟨result, pass⟩
      simp only [drain]
      exact .drained active held access drain rfl rfl

/-- A setup that fails gives the ring memory back if it had got as far as allocating it. -/
inductive Unbuilt (params : RingParams) (w : ω) : RingError → ω → Prop where
  | invalid {e} (valid : params.validate = .error e) : Unbuilt params w (.invalidConfig e) w
  | crowded (valid : params.validate = .ok ()) (room : p.hasTableRoom params.capacity w = false) :
      Unbuilt params w .outOfMemory w
  | unallocated {e w'}
      (alloc : p.memory.alloc (RingLayout.querySize params.capacity params.entrySize) w =
        (.error e, w')) :
      Unbuilt params w (.allocation e) w'
  | unaligned {a w'}
      (alloc : p.memory.alloc (RingLayout.querySize params.capacity params.entrySize) w =
        (.ok a, w'))
      (askew : a.addr % RingLayout.baseAlign ≠ 0) :
      Unbuilt params w (.allocation (.invalidAlign a.addr)) (freeRingMemory p a w')
  | unregistered {a w' e w''}
      (alloc : p.memory.alloc (RingLayout.querySize params.capacity params.entrySize) w =
        (.ok a, w'))
      (register : p.register (params.registration a.addr) w' = (.error e, w'')) :
      Unbuilt params w (.hardware e) (freeRingMemory p a w'')

omit [RxBuffer β] in
variable {p} in
theorem unbuilt {params : RingParams} {w w' : ω} {e : RingError}
    (h : Ring.setup p params w = (.error e, w')) : Unbuilt p params w e w' := by
  unfold setup at h
  split at h
  · rename_i valid
    cases h
    exact .invalid valid
  rename_i valid
  split at h
  · rename_i room
    cases h
    exact .crowded valid room
  split at h
  · rename_i alloc
    cases h
    exact .unallocated alloc
  rename_i alloc
  simp only at h
  split at h
  · rename_i askew
    cases h
    exact .unaligned alloc askew
  split at h
  · rename_i register
    cases h
    exact .unregistered alloc register
  · cases h

omit [RxBuffer β] in
variable {p} in
/-- A setup that finds no room for the slot table changes nothing. -/
theorem setup_outOfMemory {params : RingParams} {w : ω}
    (h : (Ring.setup p params w : Except RingError (Ring η β) × ω).1 = .error .outOfMemory) :
    (Ring.setup p params w : Except RingError (Ring η β) × ω).2 = w := by
  rcases hs : (Ring.setup p params w : Except RingError (Ring η β) × ω) with ⟨result, w'⟩
  rw [hs] at h
  obtain rfl : result = .error .outOfMemory := h
  cases unbuilt hs
  rfl

omit [RxBuffer β] in
variable {p} in
theorem setup_outOfMemory_iff {params : RingParams} {w : ω} :
    (Ring.setup p params w : Except RingError (Ring η β) × ω).1 = .error .outOfMemory ↔
      params.validate = .ok () ∧ p.hasTableRoom params.capacity w = false := by
  constructor
  · intro h
    rcases hs : (Ring.setup p params w : Except RingError (Ring η β) × ω) with ⟨result, w'⟩
    rw [hs] at h
    obtain rfl : result = .error .outOfMemory := h
    cases unbuilt hs with
    | crowded valid room => exact ⟨valid, room⟩
  · rintro ⟨valid, room⟩
    simp only [setup, valid, if_pos room]

end Ring

end FrameRing
