import FrameRing.Proofs.Notices
import FrameRing.Proofs.Ring.Growth
import FrameRing.Proofs.Ring.Ledger
import FrameRing.Scripted

/-! # Counters, log and effects

A ring counts what it reaps, delivers, drops, misses and leaves queued, in two phases and on every
way out of a pass. After each operation the counters are what an audited platform wrote down
meanwhile: buffers retired, buffers delivered, and the records that the ring left in the log. -/

namespace FrameRing

variable {ω η ε β : Type}

namespace Ledger

def count (l : Ledger) (n : Notice) : Nat := l.reported.countP fun e => decide (e.Reads n)

def report (l : Ledger) (e : LogEvent) : Ledger := { l with reported := l.reported ++ [e] }

theorem count_report (l : Ledger) (e : LogEvent) (n : Notice) :
    (l.report e).count n = l.count n + if e.notice? = some n then 1 else 0 := by
  simp only [count, report, List.countP_append, List.countP_singleton, LogEvent.reads_iff,
    decide_eq_true_eq]

/-- The same deliveries and the same records, whatever was acquired and released. -/
structure Agrees (l l' : Ledger) : Prop where
  delivered : l'.delivered = l.delivered
  reported : l'.reported = l.reported

theorem Agrees.of_eq {l l' : Ledger} (h : l' = l) : l.Agrees l' := by
  subst h
  exact ⟨rfl, rfl⟩

theorem Agrees.trans {l l' l'' : Ledger} (h : l.Agrees l') (h' : l'.Agrees l'') : l.Agrees l'' :=
  ⟨h'.delivered.trans h.delivered, h'.reported.trans h.reported⟩

end Ledger

namespace RingStats

def counter (stats : RingStats) (faults : Nat) : Notice → Nat
  | .frame => stats.delivered
  | .dropped => stats.droppedMalformed
  | .missing => stats.missingEntries
  | .exhausted => stats.backpressure
  | .faulted => faults

/-- The counters are those of the ledger; `pending` buffers are retired and not handed on yet. -/
structure Balanced (stats : RingStats) (l : Ledger) (pending faults : Nat) : Prop where
  reaped : stats.reaped = stats.delivered + stats.droppedMalformed + pending
  delivered : stats.delivered = l.delivered.length
  counted : ∀ n, l.count n = stats.counter faults n

variable {stats : RingStats} {l l' : Ledger} {pending faults : Nat}

theorem Balanced.agree (h : stats.Balanced l pending faults) (ha : l.Agrees l') :
    stats.Balanced l' pending faults := by
  constructor
  · exact h.reaped
  · rw [ha.delivered]
    exact h.delivered
  · intro n
    rw [Ledger.count, ha.reported]
    exact h.counted n

theorem Balanced.report (h : stats.Balanced l pending faults) {e : LogEvent}
    (he : e.notice? = none) : stats.Balanced (l.report e) pending faults := by
  constructor
  · exact h.reaped
  · exact h.delivered
  · intro n
    rw [Ledger.count_report, he]
    exact h.counted n

end RingStats

variable [RxBuffer β] {p : Platform ω η ε β} {size remaining faults : Nat}

theorem Section.Placed.agrees {entry : ε} {b : Tagged β} {s : Section (Audited ω) η (Tagged β)}
    {out} (h : Placed p.audited entry b s out) :
    s.world.ledger.Agrees out.2.world.ledger := by
  cases h with
  | rejected set =>
    rw [← (audited_setEntry set).2]
    exact ⟨rfl, rfl⟩
  | occupied set taken =>
    rw [← (audited_setEntry set).2]
    exact ⟨rfl, rfl⟩
  | armed set arm => exact .of_eq (audited_setEntry set).2

omit [RxBuffer β] in
theorem audited_acquire_agrees {b : Tagged β} {w w' : Audited ω}
    (h : p.audited.pool.acquire size w = (.ok b, w')) : w.ledger.Agrees w'.ledger := by
  obtain ⟨-, -, hledger⟩ := audited_acquire_ok h
  rw [hledger]
  exact ⟨rfl, rfl⟩

theorem Section.ArmedNext.agrees {s : Section (Audited ω) η (Tagged β)} {out}
    (h : ArmedNext p.audited size s out) : s.world.ledger.Agrees out.2.world.ledger := by
  cases h with
  | occupied taken => exact .of_eq rfl
  | starved idle acquire => exact .of_eq (audited_acquire_error acquire).2
  | full idle acquire free =>
    have hacquired := audited_acquire_agrees acquire
    rw [← (audited_nextFreeEntry free).2] at hacquired
    exact ⟨hacquired.delivered, hacquired.reported⟩
  | placed idle acquire free place =>
    have hacquired := audited_acquire_agrees acquire
    rw [← (audited_nextFreeEntry free).2] at hacquired
    exact hacquired.trans place.agrees

theorem Section.fill_agrees (size count : Nat) (s : Section (Audited ω) η (Tagged β)) :
    s.world.ledger.Agrees (s.fill p.audited size count).2.world.ledger := by
  unfold fill
  rcases hb : p.audited.hardware.accessBegin s.hw s.world with ⟨_ | _, hw, w⟩
  · exact .of_eq (audited_accessBegin hb).2
  · have hopen : s.world.ledger.Agrees w.ledger := .of_eq (audited_accessBegin hb).2
    have hmany := armMany_rule (p := p.audited) size count
      (P := fun _ s' => s.world.ledger.Agrees s'.world.ledger)
      (F := fun _ s' => s.world.ledger.Agrees s'.world.ledger)
      (by
        intro k s' out hs ho
        have hout := hs.trans ho.agrees
        obtain ⟨result, s''⟩ := out
        cases result with
        | ok => exact .inl ⟨rfl, hout⟩
        | error e => exact .inr ⟨e, rfl, hout⟩)
      (s := { s with hw, world := w }) hopen
    rcases hmany with ⟨-, hfilled⟩ | ⟨e, -, hfilled⟩
    · exact hfilled
    · exact hfilled

namespace Pass

def Balanced (s : Pass (Audited ω) η (Tagged β)) (faults : Nat) : Prop :=
  s.stats.Balanced s.world.ledger s.retired.length faults

variable {s : Pass (Audited ω) η (Tagged β)} {out : PassStep × Pass (Audited ω) η (Tagged β)}

theorem Recycled.balanced {entry : ε} (hs : s.Balanced faults)
    (h : Recycled p.audited size remaining entry s out) : out.2.Balanced faults := by
  cases h with
  | desync => exact hs
  | occupied => exact hs
  | @starved e w due idle acquire =>
    have hledger : w.ledger = s.world.ledger := (audited_acquire_error acquire).2
    constructor
    · exact hs.reaped
    · change s.stats.delivered = w.ledger.delivered.length
      rw [hledger]
      exact hs.delivered
    · intro n
      change (w.ledger.report (.poolExhausted e remaining)).count n = _
      rw [hledger, Ledger.count_report, hs.counted]
      cases n <;> rfl
  | refused due idle acquire place =>
    exact hs.agree ((audited_acquire_agrees acquire).trans place.agrees)
  | lost due idle acquire place gone =>
    exact hs.agree ((audited_acquire_agrees acquire).trans place.agrees)
  | @renewed b w armed old table due idle acquire place retire =>
    have hplaced := hs.agree ((audited_acquire_agrees acquire).trans place.agrees)
    constructor
    · have hreaped := hplaced.reaped
      simp only [List.length_append, List.length_singleton]
      omega
    · exact hplaced.delivered
    · intro n
      refine (hplaced.counted n).trans ?_
      cases n <;> rfl

theorem Stepped.balanced (hs : s.Balanced faults) (h : Stepped p.audited size remaining s out) :
    out.2.Balanced faults := by
  cases h with
  | @missing hw w next =>
    have hledger : w.ledger = s.world.ledger := (audited_nextEntry next).2
    constructor
    · exact hs.reaped
    · change s.stats.delivered = w.ledger.delivered.length
      rw [hledger]
      exact hs.delivered
    · intro n
      change (w.ledger.report .missingCompletion).count n = _
      rw [hledger, Ledger.count_report, hs.counted]
      cases n <;> rfl
  | @found entry hw w out next recycle =>
    apply recycle.balanced
    exact RingStats.Balanced.agree hs (.of_eq (audited_nextEntry next).2)

theorem drain_balanced (size count : Nat) (hs : s.Balanced faults) :
    (s.drain p.audited size count).2.Balanced faults := by
  have hdrain := drain_rule (p := p.audited) size count (P := fun s => s.Balanced faults)
    (F := fun _ => True) (fun _ _ _ hs ho => ⟨ho.balanced hs, fun _ _ => trivial⟩) hs
  exact hdrain.1

end Pass

namespace Delivery

def tally {ω : Type} (d : Delivery ω) (stats : RingStats) : RingStats :=
  { stats with
    delivered := stats.delivered + d.delivered
    droppedMalformed := stats.droppedMalformed + d.dropped }

variable {d out : Delivery (Audited ω)} {stats : RingStats} {pending : Nat}

theorem Handled.balanced {b : Tagged β}
    (hd : (d.tally stats).Balanced d.world.ledger (pending + 1) faults)
    (h : Handled p.audited d b out) :
    (out.tally stats).Balanced out.world.ledger pending faults := by
  have hreaped := hd.reaped
  cases h with
  | @delivered b' w len frame sync strip =>
    have hledger : w.ledger = d.world.ledger := (audited_sync sync).2.2
    constructor
    · simp only [tally] at hreaped ⊢
      omega
    · change stats.delivered + (d.delivered + 1) = (w.ledger.delivered ++ [frame.tag]).length
      rw [hledger, List.length_append, ← hd.delivered]
      exact (Nat.add_assoc _ _ _).symm
    · intro n
      change (w.ledger.report (.frameDelivered len (RxBuffer.busAddr frame))).count n = _
      rw [hledger, Ledger.count_report, hd.counted]
      cases n <;> rfl
  | @dropped b' w e frame sync strip =>
    have hledger : w.ledger = d.world.ledger := (audited_sync sync).2.2
    constructor
    · simp only [tally] at hreaped ⊢
      omega
    · change stats.delivered + d.delivered = w.ledger.delivered.length
      rw [hledger]
      exact hd.delivered
    · intro n
      change (w.ledger.report (.frameDropped (RxBuffer.busAddr frame) e)).count n = _
      rw [hledger, Ledger.count_report, hd.counted]
      cases n <;> rfl

theorem all_balanced {bufs : List (Tagged β)} {w : Audited ω}
    (h : stats.Balanced w.ledger bufs.length faults) :
    ((all p.audited bufs w).tally stats).Balanced (all p.audited bufs w).world.ledger 0 faults := by
  have hfold (d : Delivery (Audited ω))
      (hd : (d.tally stats).Balanced d.world.ledger bufs.length faults) :
      ((bufs.foldl (one p.audited) d).tally stats).Balanced
        (bufs.foldl (one p.audited) d).world.ledger 0 faults := by
    clear h
    induction bufs generalizing d with
    | nil => exact hd
    | cons b bufs ih => exact ih _ ((handled p.audited d b).balanced hd)
  exact hfold ⟨0, 0, w⟩ h

end Delivery

namespace Ring

/-- Counters, log and effects of a ring agree, and a fault was reported if it is faulted. -/
def Booked (ring : Ring η (Tagged β)) (w : Audited ω) : Prop :=
  ring.stats.Balanced w.ledger 0 (if ring.state = .faulted then 1 else 0)

variable {ring : Ring η (Tagged β)} {w w' : Audited ω} {stats : RingStats}

omit [RxBuffer β] in
theorem releaseAll_balanced (h : stats.Balanced w.ledger 0 faults) :
    stats.Balanced (ring.releaseAll p.audited w).2.ledger 0 faults := by
  have hfold (bufs : List (Tagged β)) (w : Audited ω) (h : stats.Balanced w.ledger 0 faults) :
      stats.Balanced (bufs.foldl (fun w b => p.audited.pool.release b w) w).ledger 0 faults := by
    induction bufs generalizing w with
    | nil => exact h
    | cons b bufs ih =>
      apply ih
      exact h.agree ⟨rfl, rfl⟩
  have hfree (a : Allocation) (w : Audited ω) (h : stats.Balanced w.ledger 0 faults) :
      stats.Balanced (freeRingMemory p.audited a w).ledger 0 faults := by
    unfold freeRingMemory
    rcases hd : p.audited.memory.dealloc a w with ⟨_ | e, w'⟩
    · have hkept := h.agree (.of_eq (audited_dealloc hd).2)
      exact hkept.report (e := .ringMemoryLeaked a.addr _) rfl
    · exact h.agree (.of_eq (audited_dealloc hd).2)
  unfold releaseAll
  split
  · exact h
  · have hbuffers := hfold ring.table.buffers w h
    cases ring.ringMem with
    | none => exact hbuffers.report (e := .ringReleased _) rfl
    | some a => exact (hfree a _ hbuffers).report (e := .ringReleased _) rfl

theorem Booked.attach (h : ring.Booked w) :
    (ring.attach p.audited w).2.1.Booked (ring.attach p.audited w).2.2 := by
  have hattached := attached p.audited ring w
  generalize ring.attach p.audited w = out at hattached ⊢
  cases hattached with
  | again active => exact h
  | refused refusal unreaped => exact h
  | @failed hw e s ready held fill =>
    have hfill := Section.fill_agrees (p := p) ring.geometry.bufferSize (ring.table.capacity - 1)
      (ring.enter hw w)
    rw [fill] at hfill
    have hfilled := (RingStats.Balanced.agree h hfill).report
      (e := .attachFailed s.cursor.writeIdx e) rfl
    simp only [Booked, releaseAll_state, releaseAll_stats, reduceCtorEq, if_false]
    rw [ready] at hfilled
    exact releaseAll_balanced hfilled
  | @filled hw s ready held fill =>
    have hfill := Section.fill_agrees (p := p) ring.geometry.bufferSize (ring.table.capacity - 1)
      (ring.enter hw w)
    rw [fill] at hfill
    have hfilled := (RingStats.Balanced.agree h hfill).report
      (e := .attached (ring.leave s).inUseCount) rfl
    rw [ready] at hfilled
    exact hfilled

theorem Booked.tryReap (h : ring.Booked w) :
    (ring.tryReap p.audited w).2.1.Booked (ring.tryReap p.audited w).2.2 := by
  have hreaped := reaped p.audited ring w
  generalize ring.tryReap p.audited w = out at hreaped ⊢
  cases hreaped with
  | refused refusal => exact h
  | unopened active held access =>
    exact RingStats.Balanced.agree h (.of_eq (audited_accessBegin access).2)
  | @drained hw hw' w' result pass closed w'' n ring' out active held access drain conclude
      deliver =>
    have hopen := RingStats.Balanced.agree h (.of_eq (audited_accessBegin access).2)
    rw [active] at hopen
    have hdrain := Pass.drain_balanced (p := p) (s := ⟨ring.enter hw' w', ring.stats, []⟩)
      ring.geometry.bufferSize (p.audited.hardware.availableCount hw' w') hopen
    rw [drain] at hdrain
    cases deliver
    cases result with
    | ok =>
      cases conclude
      simp only [Booked, leave, active, reduceCtorEq, if_false]
      exact Delivery.all_balanced hdrain
    | error e =>
      cases conclude
      refine Delivery.all_balanced ?_
      constructor
      · exact hdrain.reaped
      · exact hdrain.delivered
      · intro n
        change (pass.world.ledger.report (.ringFaulted _ e)).count n = _
        rw [Ledger.count_report, hdrain.counted]
        cases n <;> rfl

theorem Booked.reap (h : ring.Booked w) :
    (ring.reap p.audited w).1.Booked (ring.reap p.audited w).2 := by
  have htry := h.tryReap (p := p)
  unfold Ring.reap
  generalize ring.tryReap p.audited w = out at htry ⊢
  obtain ⟨_ | e, ring', w'⟩ := out
  · rename_i e
    refine RingStats.Balanced.report htry
      (e := if e.isRefusal then .reapSkipped e else .reapFailed e) ?_
    split <;> rfl
  · exact htry

theorem Booked.perform (h : ring.Booked w) {op : Operation} (hop : op ≠ .release) :
    (ring.perform p.audited w op).1.Booked (ring.perform p.audited w op).2 := by
  cases op with
  | attach => exact h.attach
  | tryReap => exact h.tryReap
  | reap => exact h.reap
  | release => exact absurd rfl hop

theorem run_booked (h : ring.Booked w) {moves : List (Move ω)}
    (hkept : ∀ move ∈ moves, move ≠ .operate .release) :
    let s := Ring.run p.audited (ring, w) (moves.map Move.audited)
    s.1.Booked s.2 := by
  induction moves generalizing ring w with
  | nil => exact h
  | cons move moves ih =>
    have hrest := fun m hm => hkept m (List.mem_cons_of_mem _ hm)
    cases move with
    | operate op =>
      have hop : op ≠ .release := by
        intro hrelease
        exact hkept _ List.mem_cons_self (congrArg Move.operate hrelease)
      exact ih (h.perform hop) hrest
    | disturb change => exact ih (w := { w with world := change w.world }) h hrest

omit [RxBuffer β] in
theorem setup_booked {params : RingParams} {start : Ring η (Tagged β)}
    (h : Ring.setup p.audited params w = (.ok start, w')) (hempty : w.ledger = .empty) :
    start.Booked w' ∧ start.stats = .zero := by
  obtain ⟨-, -, a, w₁, hw, w₂, alloc, -, register, rfl, rfl⟩ := setup_eq_ok h
  have hledger : w₂.ledger = .empty := by
    rw [(audited_register register).2, (audited_alloc alloc).2, hempty]
  have hzero : RingStats.zero.Balanced w₂.ledger 0 0 := by
    rw [hledger]
    constructor
    · rfl
    · rfl
    · intro n
      cases n <;> rfl
  exact ⟨hzero.report (e := .ringSetUp params.capacity a.addr params.bufferSize) rfl, rfl⟩

/-- After any run of attaching and reaping, whatever the collaborators answer, the counters of a
ring are what came of its buffers and what its log shows: each retired buffer was delivered or
dropped, each delivery, drop, missing completion and dry pool left one record, and one error is on
record if the ring is faulted and none if it is not. A pass counts every completion that it was told
of, unless it was cut short. -/
theorem run_keeps_books {params : RingParams} {w w' : ω} {ring : Ring η β}
    (hs : Ring.setup p params w = (.ok ring, w')) :
    ∃ (start : Ring η (Tagged β)) (l : Ledger),
      Ring.setup p.audited params ⟨w, .empty⟩ = (.ok start, ⟨w', l⟩) ∧
      ∀ moves : List (Move ω), (∀ move ∈ moves, move ≠ .operate .release) →
        let audit := Ring.run p.audited (start, ⟨w', l⟩) (moves.map Move.audited)
        let ledger := audit.2.ledger
        let s := Ring.run p (ring, w') moves
        let stats := s.1.stats
        (audit.1.erase, audit.2.world) = s ∧
        (stats.reaped = stats.delivered + stats.droppedMalformed ∧
          stats.reaped = (retiredDuring p (ring, w') moves).length) ∧
        (stats.delivered = ledger.delivered.length ∧ stats.delivered = ledger.count .frame) ∧
        (stats.droppedMalformed = ledger.count .dropped ∧
          stats.missingEntries = ledger.count .missing ∧
          stats.backpressure = ledger.count .exhausted) ∧
        ledger.count .faulted = (if s.1.state = .faulted then 1 else 0) ∧
        ∀ hw hw' w'', s.1.state = .active → s.1.hw = some hw →
          p.hardware.accessBegin hw s.2 = (.ok (), hw', w'') →
          stats.Advances (p.hardware.availableCount hw' w'') (s.1.tryReap p s.2).1.isOk
              (s.1.tryReap p s.2).2.1.stats ∧
            (s.1.reap p s.2).1 = (s.1.tryReap p s.2).2.1 := by
  obtain ⟨start, l, hstart, rfl, -, -⟩ := setup_audited .empty hs
  obtain ⟨hbooked, hzero⟩ := setup_booked hstart rfl
  refine ⟨start, l, hstart, ?_⟩
  intro moves hkept audit ledger s stats
  have hend : audit.1.Booked audit.2 := run_booked hbooked hkept
  have herase : s = (audit.1.erase, audit.2.world) := run_erase start ⟨w', l⟩ moves
  have hstats : audit.1.stats = stats := (congrArg (fun s => s.1.stats) herase).symm
  have hstate : audit.1.state = s.1.state := (congrArg (fun s => s.1.state) herase).symm
  rw [Booked, hstats, hstate] at hend
  have hretired := run_retired (p := p) (start.erase, w') moves
  refine ⟨herase.symm, ⟨hend.reaped, ?_⟩, ⟨hend.delivered, (hend.counted .frame).symm⟩,
    ⟨(hend.counted .dropped).symm, (hend.counted .missing).symm, (hend.counted .exhausted).symm⟩,
    hend.counted .faulted, ?_⟩
  · have hfresh : start.erase.stats.reaped = 0 := congrArg RingStats.reaped hzero
    rw [hfresh, Nat.zero_add] at hretired
    exact hretired
  · intro hw hw' w'' active held access
    exact ⟨tryReap_advances active held access, reap_ring _ _⟩

/-- A phantom completion, a malformed frame, a dry pool and a forged cookie, one after the other. -/
theorem run_keeps_books_faulted :
    ∃ ring w, Ring.setup Script.platform (.ofSizes 4 8 64) (Script.create 65536 4096 [(1, [])]) =
        (.ok ring, w) ∧
      let moves : List (Move Script) :=
        [.operate .attach, .disturb fun w => { (w.complete 3).2 with phantom := 1 },
          .operate .tryReap, .disturb fun w => { (w.complete 2).2 with budget := some 1 },
          .operate .reap, .disturb fun w => { (w.complete 1).2.corrupt 1 9 with budget := none },
          .operate .reap]
      ∃ start l, Ring.setup Script.platform.audited (.ofSizes 4 8 64)
          ⟨Script.create 65536 4096 [(1, [])], .empty⟩ = (.ok start, ⟨w, l⟩) ∧
        (∀ move ∈ moves, move ≠ .operate .release) ∧
        let ledger := (Ring.run Script.platform.audited (start, ⟨w, l⟩)
          (moves.map Move.audited)).2.ledger
        let s := Ring.run Script.platform (ring, w) moves
        s.1.stats = ⟨5, 4, 1, 1, 1⟩ ∧ s.1.state = .faulted ∧ ledger.delivered = [0, 2, 3, 4] ∧
          s.1.stats.reaped = (retiredDuring Script.platform (ring, w) moves).length ∧
          ledger.count .faulted = (if s.1.state = .faulted then 1 else 0) := by
  have hs : Ring.setup Script.platform (.ofSizes 4 8 64) (Script.create 65536 4096 [(1, [])]) =
      (.ok _, _) := rfl
  obtain ⟨start, l, hstart, hrun⟩ := run_keeps_books hs
  refine ⟨_, _, hs, start, l, hstart, ?_⟩
  have hlit : Ring.setup Script.platform.audited (.ofSizes 4 8 64)
      ⟨Script.create 65536 4096 [(1, [])], .empty⟩ = (.ok _, _) := rfl
  rw [hlit] at hstart
  cases hstart
  have hkept : ∀ move ∈ ([.operate .attach,
      .disturb fun w => { (w.complete 3).2 with phantom := 1 }, .operate .tryReap,
      .disturb fun w => { (w.complete 2).2 with budget := some 1 }, .operate .reap,
      .disturb fun w => { (w.complete 1).2.corrupt 1 9 with budget := none },
      .operate .reap] : List (Move Script)), move ≠ .operate .release := by
    simp
  have hbooks := hrun _ hkept
  refine ⟨hkept, ?_, ?_, ?_, hbooks.2.1.2, hbooks.2.2.2.2.1⟩
  all_goals decide +kernel

end Ring

end FrameRing
