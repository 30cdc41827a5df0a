import FrameRing.Proofs.SourceRing.Threshold
import FrameRing.Proofs.Stack.HeadWord

/-! # When a ring is due for a reap

A ring is due when enough completions are pending. A poll says what a section would find, and a
threshold that a setup accepts is within reach: a device that has nothing left to consume has
completed all that the ring can hold. -/

namespace FrameRing

open SourceRing (SameSetup Session)

theorem SourceRing.SameSetup.reports {r₀ r : SourceRing} (h : SameSetup r₀ r)
    (hr : r₀.Reports) : r.Reports := by
  constructor
  · rw [h.flags]
    exact hr.1
  · rw [h.lowThreshold]
    exact hr.2

namespace Ring

variable {ω β : Type} {p : Platform ω SourceRing Reservation β} [DrivesSourceRing p]
  {ring : Ring SourceRing β} {r : SourceRing} {n : Nat}

/-- A threshold is reported once it is set, whatever flags are added to it, and no setup accepts one
that the ring cannot reach. -/
theorem setup_reports {params : RingParams} {k : Nat} (hk : 0 < k) {flags : RingFlags} {w w' : ω}
    (h : Ring.setup p ((params.withReapThreshold k).withFlags flags) w = (.ok ring, w'))
    (hr : ring.hw = some r) : r.Reports ∧ r.lowThreshold < params.capacity := by
  obtain ⟨valid, -⟩ := setup_eq_ok h
  obtain ⟨-, -, -, -, hreap⟩ := RingParams.validate_eq_ok valid
  obtain ⟨hflags, hlow⟩ := setup_registered h hr
  refine ⟨⟨?_, ?_⟩, ?_⟩
  · rw [hflags]
    simp only [RingParams.withReapThreshold, RingParams.withFlags, RingFlags.union, hk,
      decide_true, Bool.true_or]
  · rw [hlow]
    exact hk
  · rw [hlow]
    exact hreap

theorem Paced.head_lt (h : ring.Paced n) (hs : ring.state = .active) (hr : ring.hw = some r) :
    r.head < n := by
  rw [(h.lockstep r hr).next]
  exact (h.disciplined.rotation hs).write_lt

theorem Paced.completed_head (h : ring.Paced n) (hs : ring.state = .active)
    (hr : ring.hw = some r) : r.completed r.head = n - 1 := by
  have hlock := h.lockstep r hr
  rw [← (h.disciplined.rotation hs).outstanding_eq, RingCursor.outstanding, SourceRing.completed,
    SourceRing.distance, hlock.oldest, hlock.next, hlock.entries, hlock.slots]

/-- However little of it was reaped before, with all of its entries consumed a ring is due. -/
theorem Paced.due_when_consumed (h : ring.Paced n) (hs : ring.state = .active)
    (hr : ring.hw = some r) (hreports : r.Reports) (hlow : r.lowThreshold < n) {m : HostMemory}
    (hf : m.faults = []) {size : Nat} (ht : (Firmware.behind r size).tail m.window = .ok r.head) :
    r.thresholdReached m = .ok true := by
  obtain ⟨word, hload, hword⟩ := Firmware.loadPointer_eq_ok ht
  rw [← HostMemory.loadWord_healthy hf] at hload
  have hhead : r.head < r.numEntries := by
    rw [(h.lockstep r hr).entries]
    exact h.head_lt hs hr
  have hreached : r.lowThreshold ≤ n - 1 := by omega
  rw [SourceRing.thresholdReached_consumed hreports hload hword hhead, h.completed_head hs hr,
    decide_eq_true hreached]

end Ring

/-- A poll outside of a section, at any time and over any memory, says what a section opened then
would find, and changes nothing. A ring that was set up with a positive threshold is due once the
device's tail has come up to its head, whatever came before. In a run without faults that is once
the device has consumed all that was published to it. -/
theorem poll_foresees_section :
    (∀ (reg : Registration) (rbm : Nat) (m : HostMemory) (r : SourceRing),
      (SourceRing.create reg rbm m).1 = .ok r →
      ∀ (h : Host) (calls : List SourceRing.Call),
      let s := (Session.start r h).run calls
      (∀ more, (Session.start r h).run (calls ++ .thresholdReached :: more) =
        (Session.start r h).run (calls ++ more)) ∧
      (s.ring.inAccess = false → ∀ memory : HostMemory,
        let opening := s.ring.accessBegin memory
        s.ring.thresholdReached memory =
          if reg.flags.lowThreshold = true ∧ 0 < reg.lowThreshold then
            opening.1.map fun _ => decide (reg.lowThreshold ≤ opening.2.availableCount)
          else .ok false)) ∧
    ∀ (rbm : Nat) (p : RingParams) (k : Nat) (flags : RingFlags) (s s' : Scene)
      (ring : Ring SourceRing DmaBuffer) (r₀ : SourceRing), 0 < k →
      Ring.setup (Scene.platform rbm) ((p.withReapThreshold k).withFlags flags) s =
        (.ok ring, s') → ring.hw = some r₀ → ∀ moves : List (Move Scene),
      let out := Ring.run (Scene.platform rbm) (ring, s') moves
      let m := out.2.world.host.memory
      out.1.state = .active → ∃ r, out.1.hw = some r ∧
        let fw := Firmware.behind r p.bufferSize
        (m.faults = [] → fw.tail m.window = .ok r.head → r.thresholdReached m = .ok true) ∧
        (s'.Faultless r₀.layout → Ring.FaultlessRun rbm r₀.layout (ring, s') moves →
          fw.head m.window = .ok r.head ∧
            (fw.tail m.window = fw.head m.window → r.thresholdReached m = .ok true)) := by
  constructor
  · intro reg rbm m r hcreate h calls s
    obtain ⟨-, -, hshape⟩ := SourceRing.create_shape hcreate
    have hsame : SameSetup r s.ring := SourceRing.run_fixed (Session.start r h) calls
    have hflags : s.ring.flags = reg.flags := by rw [hsame.flags, hshape]
    have hlow : s.ring.lowThreshold = reg.lowThreshold := by rw [hsame.lowThreshold, hshape]
    constructor
    · intro more
      exact SourceRing.poll_idle _ calls more
    · intro hclosed memory opening
      rw [SourceRing.thresholdReached_accessBegin hclosed, hlow]
      simp only [SourceRing.Reports, hflags, hlow, opening]
  · intro rbm p k flags s s' ring r₀ hk hs hr₀ moves out m hactive
    obtain ⟨hreports, hlow⟩ := Ring.setup_reports hk hs hr₀
    obtain ⟨hn, hpaced⟩ := Ring.setup_paced hs
    have hout : out.1.Paced p.capacity := Ring.run_paced hpaced hn moves
    obtain ⟨r, hr⟩ := hout.held (by simp [hactive])
    have hsetup : ∀ r, ring.hw = some r → SameSetup r₀ r := by
      intro r hr
      cases hr₀.symm.trans hr
      exact .refl r₀
    have hsame : SameSetup r₀ r := Ring.run_sameSetup hsetup moves r hr
    refine ⟨r, hr, ?_⟩
    intro fw
    have hdue (hf : m.faults = []) (ht : fw.tail m.window = .ok r.head) :
        r.thresholdReached m = .ok true :=
      hout.due_when_consumed hactive hr (hsame.reports hreports) (hsame.lowThreshold ▸ hlow) hf ht
    refine ⟨hdue, ?_⟩
    intro hf hm
    have hword := Ring.run_announced hsetup (Ring.setup_announced hs hr₀ hf) rbm hm r hr
    have hcapacity := RingParams.capacity_le (Ring.setup_eq_ok hs).1
    have hsmall : r.head < 1 <<< 21 := Nat.lt_of_lt_of_le (hout.head_lt hactive hr) hcapacity
    have hpublished := hword.head_eq (Nat.lt_trans hsmall (by decide)) p.bufferSize
    refine ⟨hpublished, ?_⟩
    intro hconsumed
    exact hdue hword.healthy (hconsumed.trans hpublished)

/-- A ring registered to report at one completion polls after one arm, and a ring that reaped one
completion and left another queued is due at the highest threshold that it accepts. -/
theorem poll_foresees_section_backpressured :
    (let reg : Registration := ⟨0, 3, 8, 1, ⟨true, false, 0⟩⟩
    let window := Window.zeroed 0 64
    let calls : List SourceRing.Call := [.accessBegin, .setEntry ⟨0, .zero, false⟩ 32 0, .accessEnd]
    ∃ r m, SourceRing.create reg 3 ⟨window, []⟩ = (.ok r, m) ∧
      let s := (Session.start r ⟨m, #[]⟩).run calls
      s.ring.thresholdReached ⟨(window.storeWord 28 1).2, []⟩ = .ok true ∧
        s.ring.thresholdReached ⟨(window.storeWord 28 2).2, []⟩ = .error (.invalidPointer 2) ∧
        s.ring.thresholdReached ⟨window, [⟨.load, 28, 1⟩]⟩ = .error .memoryError) ∧
    let w : World := .fresh (.zeroed 0 512) ⟨0, 64, Array.replicate 8 false, none⟩
    let scene := (Scene.start w).acts [.pool (.alloc 192)]
    let fw : Firmware := ⟨⟨192, 3, 8, 216, 220⟩, ⟨true, true, 0⟩, 64⟩
    let moves : List (Move Scene) :=
      [.operate .attach,
        .disturb (·.act (.store 256 ((FrameHeader.ofPayload 2).toBytes ++ [7, 8]))),
        .disturb (·.expect [[.device fw (.advance 1)]]), .operate .tryReap,
        .disturb (·.act (.pool (.alloc 64))), .disturb (·.act (.device fw (.advance 1))),
        .operate .reap, .disturb (·.act (.device fw (.advance 1)))]
    ∃ ring s, Ring.setup (Scene.platform 3)
        (((RingParams.ofSizes 3 8 64).withReapThreshold 2).withFlags ⟨false, true, 0⟩) scene =
          (.ok ring, s) ∧
      let out := Ring.run (Scene.platform 3) (ring, s) moves
      out.1.stats = ⟨1, 1, 0, 1, 0⟩ ∧
        ∃ r, out.1.hw = some r ∧ r.thresholdReached out.2.world.host.memory = .ok true := by
  constructor
  · intro reg window calls
    have hup : ∃ r m, SourceRing.create reg 3 ⟨window, []⟩ = (.ok r, m) ∧
        (((Session.start r ⟨m, #[]⟩).run calls).ring =
          ⟨⟨0, 3, 8, 24, 28⟩, reg.flags, 1, 3, 1, 2, 0, false⟩) := by
      decide +kernel
    obtain ⟨r, m, hc, hring⟩ := hup
    obtain ⟨-, hpoll⟩ := poll_foresees_section.1 reg 3 _ r (congrArg Prod.fst hc) ⟨m, #[]⟩ calls
    refine ⟨r, m, hc, ?_⟩
    intro s
    replace hpoll := hpoll (by rw [hring])
    refine ⟨?_, ?_, ?_⟩
    · rw [hpoll, hring]
      decide +kernel
    · rw [hpoll, hring]
      decide +kernel
    · rw [hpoll, hring]
      decide +kernel
  · intro w scene fw moves
    have hup : ∃ ring s, Ring.setup (Scene.platform 3)
          (((RingParams.ofSizes 3 8 64).withReapThreshold 2).withFlags ⟨false, true, 0⟩) scene =
            (.ok ring, s) ∧
        (ring.hw = some ⟨fw.layout, fw.flags, 2, 3, 0, 2, 0, false⟩ ∧
          s.world.host.memory.faults = [] ∧ s.agenda.length = 0) ∧
        let out := Ring.run (Scene.platform 3) (ring, s) moves
        out.1.state = .active ∧ out.1.stats = ⟨1, 1, 0, 1, 0⟩ ∧
          out.1.hw = some ⟨fw.layout, fw.flags, 2, 3, 0, 0, 2, false⟩ ∧
          (fw.tail out.2.world.window).toOption = some 0 ∧
          (fw.head out.2.world.window).toOption = some 0 := by
      decide +kernel
    obtain ⟨ring, s, hs, ⟨hr₀, hhealthy, hagenda⟩, hactive, hstats, hr, htail, hhead⟩ := hup
    have hf : s.Faultless fw.layout := by
      refine ⟨hhealthy, ?_⟩
      rw [List.length_eq_zero_iff.mp hagenda]
      simp
    have hadvance : (Act.device fw (.advance 1)).SparesHead fw.layout :=
      Act.sparesHead_advance rfl 1
    have hquiet : (Act.pool (.alloc 64)).Orderly none := trivial
    have hstore : (Act.store 256 ((FrameHeader.ofPayload 2).toBytes ++ [7, 8])).SparesHead
        fw.layout := Act.sparesHead_store (.inl (by decide))
    have hmeanwhile : ∀ todo ∈ [[Act.device fw (.advance 1)]], ∀ act ∈ todo,
        act.SparesHead fw.layout := by
      simpa using hadvance
    have hm : Ring.FaultlessRun 3 fw.layout (ring, s) moves :=
      ⟨trivial, Move.faultless_act hstore _, Move.faultless_expect hmeanwhile _, trivial,
        Move.faultless_act (hquiet.sparesHead _) _, Move.faultless_act hadvance _, trivial,
        Move.faultless_act hadvance _, trivial⟩
    obtain ⟨r, hr', -, hpublished⟩ := poll_foresees_section.2 3 (.ofSizes 3 8 64) 2 _ scene s ring
      _ (by decide) hs hr₀ moves hactive
    cases hr.symm.trans hr'
    obtain ⟨-, hdue⟩ := hpublished hf hm
    refine ⟨ring, s, hs, hstats, _, hr, hdue ?_⟩
    exact (eq_ok_of_toOption htail).trans (eq_ok_of_toOption hhead).symm

end FrameRing
