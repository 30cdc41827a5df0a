import FrameRing.Proofs.Ring.SlotsInOrder
import FrameRing.Proofs.Stack.Orderly

/-! # A ring over orderly entries

With an orderly device, slots, entries and memory agree: a pass finds each completion in the
slot that is due and never fails. -/

namespace FrameRing

variable {site : Site} {published rbm : Nat} {hand : List DmaBuffer} {t : Tally}
  {posted : List DmaBuffer}

namespace Section

structure Consistent (site : Site) (published : Nat) (hand : List DmaBuffer) (t : Tally)
    (posted : List DmaBuffer) (s : Section Scene SourceRing DmaBuffer) : Prop where
  inAccess : s.hw.inAccess = true
  scene : s.world.Consistent site published hand s.hw t posted
  slotsInOrder : SlotsInOrder site.entries t.reaped posted s.table s.cursor

variable {s : Section Scene SourceRing DmaBuffer}
  {out : Except RingError Unit × Section Scene SourceRing DmaBuffer}

structure Settled (site : Site) (hand : List DmaBuffer) (t : Tally) (posted : List DmaBuffer)
    (s : Section Scene SourceRing DmaBuffer) : Prop where
  closed : s.hw.inAccess = false
  scene : s.world.Consistent site t.armed hand s.hw t posted
  slotsInOrder : SlotsInOrder site.entries t.reaped posted s.table s.cursor

theorem Settled.open (h : s.Settled site hand t posted) (rbm : Nat) :
    ∃ hw world accepted,
      (Scene.platform rbm).hardware.accessBegin s.hw s.world = (.ok (), hw, world) ∧
      Consistent site t.armed hand { t with accepted } posted { s with hw, world } := by
  obtain ⟨tail, hopen, hscene⟩ := h.scene.accessBegin rbm h.closed
  exact ⟨_, _, tail, hopen, rfl, hscene, h.slotsInOrder⟩

theorem Consistent.close (h : s.Consistent site published hand t posted) (rbm : Nat) :
    (s.close (Scene.platform rbm)).Settled site hand t posted := by
  obtain ⟨world, hclose, hscene⟩ := h.scene.accessEnd rbm h.inAccess
  rw [Section.close, hclose]
  exact ⟨rfl, hscene, h.slotsInOrder⟩

theorem Consistent.writeIdx_eq (h : s.Consistent site published hand t posted) :
    s.cursor.writeIdx = posted.length % s.hw.numEntries := by
  rw [h.slotsInOrder.writeIdx_eq, h.scene.entries_eq]

theorem ArmedNext.consistent (ho : ArmedNext (Scene.platform rbm) site.firmware.bufferSize s out)
    (h : s.Consistent site published hand t posted)
    (hroom : posted.length + 1 < t.reaped + site.entries) :
    (out.1 = .ok () ∧ ∃ b,
        out.2.Consistent site published hand { t with armed := t.armed + 1 } (posted ++ [b])) ∨
      (∃ e, out.1 = .error (.allocation e)) ∧ out.2.Consistent site published hand t posted := by
  have hfree : s.hw.head ≠ s.hw.reapHead := by
    apply h.scene.holds.free_of_room
    rw [h.scene.entries_eq, ← h.scene.length_posted]
    exact hroom
  obtain ⟨hnext, hcur⟩ := SourceRing.nextFreeEntry_eq_some h.inAccess hfree
  have hanswer (sc : Scene) : (Scene.platform rbm).hardware.nextFreeEntry s.hw sc =
      (some ⟨s.hw.head, .zero, false⟩, s.hw, sc.turn) := by
    simp only [Scene.platform, SourceRing.hardware, hnext]
  cases ho with
  | occupied taken =>
    rw [h.slotsInOrder.idle (by omega)] at taken
    cases taken
  | starved idle acquire =>
    have hscene := (Scene.Consistent.custody rbm site published s.hw t posted).acquire_error h.scene
      acquire
    exact .inr ⟨⟨_, rfl⟩, h.inAccess, hscene, h.slotsInOrder⟩
  | full _ acquire free =>
    rw [hanswer] at free
    cases free
  | @placed b sc _ _ _ _ _ acquire free place =>
    rw [hanswer] at free
    cases free
    obtain ⟨hacquired, hlen⟩ := h.scene.acquire acquire
    obtain ⟨s', hset, hscene⟩ := hacquired.turn.setEntry rbm h.inAccess hcur hfree hlen
    rw [← h.writeIdx_eq] at hset
    obtain ⟨table, rfl, horder⟩ :=
      place.slotsInOrder (s := { s with world := sc.turn }) h.slotsInOrder (by omega) hset
    exact .inl ⟨rfl, b, h.inAccess, hscene, horder⟩

/-- Also where the pool runs dry, the device finds all that was armed. -/
theorem Settled.fill (h : s.Settled site hand ⟨0, 0, 0⟩ []) (rbm : Nat) :
    let filled := s.fill (Scene.platform rbm) site.firmware.bufferSize (site.entries - 1)
    ∃ t posted, t.reaped = 0 ∧ filled.2.Settled site hand t posted := by
  obtain ⟨hw, world, accepted, hopen, hin⟩ := h.open rbm
  have hpos := h.slotsInOrder.pos
  have hmany := armMany_rule (p := Scene.platform rbm) site.firmware.bufferSize (site.entries - 1)
    (P := fun k s => ∃ t posted, t.reaped = 0 ∧ posted.length + k + 1 = site.entries ∧
      s.Consistent site 0 hand t posted)
    (F := fun _ s => ∃ t posted, t.reaped = 0 ∧ s.Consistent site 0 hand t posted)
    (by
      rintro k s out ⟨t, posted, hr, hk, hin⟩ ho
      rcases ho.consistent hin (by omega) with ⟨hok, b, hnext⟩ | ⟨⟨e, hdry⟩, hkept⟩
      · refine .inl ⟨hok, { t with armed := t.armed + 1 }, posted ++ [b], hr, ?_, hnext⟩
        rw [List.length_append, List.length_singleton]
        omega
      · exact .inr ⟨_, hdry, t, posted, hr, hkept⟩)
    (s := { s with hw, world })
    ⟨_, [], rfl, by rw [List.length_nil]; omega, hin⟩
  intro filled
  have hfilled : filled = s.fill (Scene.platform rbm) site.firmware.bufferSize
    (site.entries - 1) := rfl
  simp only [Section.fill, hopen] at hfilled
  rw [hfilled]
  rcases hmany with ⟨-, t, posted, hr, -, hin⟩ | ⟨e, -, t, posted, hr, hin⟩
  · exact ⟨t, posted, hr, hin.close rbm⟩
  · exact ⟨t, posted, hr, hin.close rbm⟩

end Section

namespace Pass

variable {s : Pass Scene SourceRing DmaBuffer} {out : PassStep × Pass Scene SourceRing DmaBuffer}

def Consistent (site : Site) (published : Nat) (s : Pass Scene SourceRing DmaBuffer) : Prop :=
  ∃ t posted, s.toSection.Consistent site published s.retired t posted

theorem Recycled.consistent {remaining : Nat} {entry : RingEntry}
    (ho : Recycled (Scene.platform rbm) site.firmware.bufferSize remaining
      ⟨t.reaped % s.hw.numEntries, entry, true⟩ s out)
    (h : s.toSection.Consistent site published s.retired t posted) (hlt : t.reaped < t.accepted)
    (hcookie : entry.cookie = t.reaped % s.hw.numEntries) :
    out.2.Consistent site published ∧ ∀ e, out.1 ≠ .fail e := by
  have hacc := h.scene.holds.accepted_le
  have harm := h.scene.holds.armed_lt
  have hlen := h.scene.length_posted
  have hcur := h.scene.holds.current_completed hlt entry
  have hroom := h.scene.holds.room_of_completed hcur rfl
  have harms {b : DmaBuffer} {sc : Scene}
      (acquire : (Scene.platform rbm).pool.acquire site.firmware.bufferSize s.world =
        (.ok b, sc)) :=
    (h.scene.acquire acquire).1.setEntry rbm h.inAccess hcur hroom (h.scene.acquire acquire).2
  rw [← h.writeIdx_eq] at harms
  rw [h.scene.entries_eq] at harm hcookie
  have hrenewed := ho.slotsInOrder h.slotsInOrder (by omega) (by omega) hcookie
    fun b sc acquire => by
      obtain ⟨s', hset, -⟩ := harms acquire
      exact ⟨_, s', hset⟩
  have K := Scene.Consistent.custody rbm site published
  cases hrenewed with
  | @starved e sc acquire =>
    have hscene := (K s.hw t posted).record ((K s.hw t posted).acquire_error h.scene acquire)
      (show (LogEvent.poolExhausted e remaining).reportsLeak = false from rfl)
    exact ⟨⟨t, posted, h.inAccess, hscene, h.slotsInOrder⟩, by simp⟩
  | @renewed b sc hw _ old table acquire set oldest slotsInOrder =>
    obtain ⟨s', hset, hscene⟩ := harms acquire
    rw [hset] at set
    cases set
    have hmoved : ((posted.drop t.reaped).take 1 ++ s.retired).Perm (s.retired ++ [old]) := by
      rw [List.take_one, List.head?_drop, oldest]
      exact List.perm_append_comm
    refine ⟨⟨{ t with armed := t.armed + 1, reaped := t.reaped + 1 }, posted ++ [b], h.inAccess,
      ?_, slotsInOrder⟩, by simp⟩
    exact (K _ _ _).perm hscene hmoved

theorem Stepped.consistent {remaining : Nat}
    (ho : Stepped (Scene.platform rbm) site.firmware.bufferSize remaining s out)
    (h : s.Consistent site published) : out.2.Consistent site published ∧ ∀ e, out.1 ≠ .fail e := by
  obtain ⟨t, posted, hin⟩ := h
  have hturn := hin.scene.turn
  rcases hin.scene.nextEntry rbm hin.inAccess with ⟨-, hnone⟩ | ⟨entry, hlt, hcookie, hsome⟩
  · cases ho with
    | missing next =>
      rw [hnone] at next
      cases next
      have K := Scene.Consistent.custody rbm site published s.hw t posted
      have hscene := K.record hturn (show LogEvent.missingCompletion.reportsLeak = false from rfl)
      exact ⟨⟨t, posted, hin.inAccess, hscene, hin.slotsInOrder⟩, by simp⟩
    | found next recycle =>
      rw [hnone] at next
      cases next
  · cases ho with
    | missing next =>
      rw [hsome] at next
      cases next
    | found next recycle =>
      rw [hsome] at next
      cases next
      exact recycle.consistent (s := { s with world := s.world.turn })
        ⟨hin.inAccess, hturn, hin.slotsInOrder⟩ hlt hcookie

/-- No pass over orderly entries fails. -/
theorem drain_consistent (h : s.Consistent site published) (rbm count : Nat) :
    ∃ s', s.drain (Scene.platform rbm) site.firmware.bufferSize count = (.ok (), s') ∧
      s'.Consistent site published := by
  have hdrain := drain_rule (p := Scene.platform rbm) site.firmware.bufferSize count
    (P := fun s => s.Consistent site published) (F := fun _ => False)
    (fun k s out hs ho => ho.consistent hs) h
  generalize s.drain (Scene.platform rbm) site.firmware.bufferSize count = out at hdrain ⊢
  obtain ⟨result, s'⟩ := out
  obtain ⟨hin, hfail⟩ := hdrain
  cases result with
  | ok => exact ⟨s', rfl, hin⟩
  | error e => exact (hfail e rfl).elim

end Pass

namespace Ring

/-- A ring that is set up and not released, between its operations. -/
structure AtWork (site : Site) (r : SourceRing) (t : Tally) (posted : List DmaBuffer)
    (ring : Ring SourceRing DmaBuffer) (s : Scene) : Prop where
  hw : ring.hw = some r
  size_eq : ring.geometry.bufferSize = site.firmware.bufferSize
  settled : (ring.enter r s).Settled site [] t posted

/-- Nothing is armed before a ring is attached, and nothing is asked of it once it is released. -/
inductive Consistent (site : Site) (ring : Ring SourceRing DmaBuffer) (s : Scene) : Prop where
  | ready {r} (state : ring.state = .ready) (work : ring.AtWork site r ⟨0, 0, 0⟩ [] s)
  | active {r t posted} (state : ring.state = .active) (work : ring.AtWork site r t posted s)
  | released (state : ring.state = .released)

variable {ring : Ring SourceRing DmaBuffer} {s s' : Scene} {r : SourceRing}

theorem AtWork.scene (h : ring.AtWork site r t posted s) :
    s.Consistent site t.armed [] r t posted :=
  h.settled.scene

theorem AtWork.slotsInOrder (h : ring.AtWork site r t posted s) :
    SlotsInOrder site.entries t.reaped posted ring.table ring.cursor :=
  h.settled.slotsInOrder

theorem AtWork.through (h : ring.AtWork site r t posted s)
    (hs : s.Consistent site t.armed [] r t posted → s'.Consistent site t.armed [] r t posted) :
    ring.AtWork site r t posted s' :=
  ⟨h.hw, h.size_eq, h.settled.closed, hs h.scene, h.slotsInOrder⟩

theorem Consistent.through (h : ring.Consistent site s)
    (hs : ∀ {published r t posted}, s.Consistent site published [] r t posted →
      s'.Consistent site published [] r t posted) : ring.Consistent site s' := by
  cases h with
  | ready state work => exact .ready state (work.through hs)
  | active state work => exact .active state (work.through hs)
  | released state => exact .released state

theorem Consistent.record (h : ring.Consistent site s) {event : LogEvent}
    (he : event.reportsLeak = false) (rbm : Nat) :
    ring.Consistent site ((Scene.platform rbm).record event s) :=
  h.through fun hs => (Scene.Consistent.custody rbm site _ _ _ _).record hs he

theorem AtWork.attach (h : ring.AtWork site r ⟨0, 0, 0⟩ [] s) (hready : ring.state = .ready)
    (rbm : Nat) :
    Consistent site (ring.attach (Scene.platform rbm) s).2.1
      (ring.attach (Scene.platform rbm) s).2.2 := by
  have hfill := h.settled.fill rbm
  have hout := attached (Scene.platform rbm) ring s
  generalize ring.attach (Scene.platform rbm) s = out at hout ⊢
  cases hout with
  | again => exact .ready hready h
  | refused => exact .ready hready h
  | @failed hw e s' ready held fill =>
    exact .released (releaseAll_state _ _)
  | @filled hw s' ready held fill =>
    cases h.hw.symm.trans held
    rw [h.size_eq, h.slotsInOrder.capacity] at fill
    simp only [fill] at hfill
    obtain ⟨t, posted, -, hsettled⟩ := hfill
    have hattached : Consistent site { ring.leave s' with state := .active } s'.world :=
      .active rfl ⟨rfl, h.size_eq, hsettled⟩
    exact hattached.record rfl rbm

/-- Reaping an attached ring succeeds. -/
theorem AtWork.tryReap (h : ring.AtWork site r t posted s) (hactive : ring.state = .active)
    (rbm : Nat) :
    ∃ n ring' s', ring.tryReap (Scene.platform rbm) s = (.ok n, ring', s') ∧
      ring'.Consistent site s' := by
  obtain ⟨hw, world, accepted, hopen, hin⟩ := h.settled.open rbm
  have hopen' : (Scene.platform rbm).hardware.accessBegin r s = (.ok (), hw, world) := hopen
  obtain ⟨pass, hdrain, t', posted', hpass⟩ := Pass.drain_consistent
    (s := ⟨ring.enter hw world, ring.stats, []⟩) ⟨_, _, hin⟩ rbm
    ((Scene.platform rbm).hardware.availableCount hw world)
  obtain ⟨hclosed, hscene, horder⟩ := hpass.close rbm
  rw [← List.append_nil pass.retired] at hscene
  have hgiven :=
    Delivery.all_custody (Scene.Consistent.custody rbm site t'.armed _ t' posted') hscene
  have htry : ring.tryReap (Scene.platform rbm) s =
      let closed := pass.toSection.close (Scene.platform rbm)
      let d := Delivery.all (Scene.platform rbm) pass.retired closed.world
      (.ok d.delivered,
        { ring.leave closed with
          stats :=
            { pass.stats with
              delivered := pass.stats.delivered + d.delivered
              droppedMalformed := pass.stats.droppedMalformed + d.dropped } },
        d.world) := by
    unfold Ring.tryReap
    simp only [hactive, h.hw, hopen', h.size_eq, hdrain, conclude, deliver, leave, Except.map]
  exact ⟨_, _, _, htry, .active hactive ⟨rfl, h.size_eq, hclosed, hgiven, horder⟩⟩

theorem Consistent.attach (h : ring.Consistent site s) (rbm : Nat) :
    Consistent site (ring.attach (Scene.platform rbm) s).2.1
      (ring.attach (Scene.platform rbm) s).2.2 := by
  cases h with
  | ready state work => exact work.attach state rbm
  | active state work =>
    simp only [Ring.attach, state]
    exact .active state work
  | released state =>
    simp only [Ring.attach, state]
    exact .released state

theorem Consistent.tryReap (h : ring.Consistent site s) (rbm : Nat) :
    let out := ring.tryReap (Scene.platform rbm) s
    out.2.1.Consistent site out.2.2 ∧
      ((ring.state = .active ∧ ∃ n, out.1 = .ok n) ∨
        ring.state ≠ .active ∧ ∃ e, out.1 = .error e ∧ e.isRefusal = true) := by
  intro out
  cases h with
  | ready state work =>
    have hout : out = (.error .notAttached, ring, s) := by simp only [out, Ring.tryReap, state]
    rw [hout]
    exact ⟨.ready state work, .inr ⟨by simp [state], _, rfl, rfl⟩⟩
  | active state work =>
    obtain ⟨n, ring', s', hreap, hin⟩ := work.tryReap state rbm
    have hout : out = (.ok n, ring', s') := hreap
    rw [hout]
    exact ⟨hin, .inl ⟨state, n, rfl⟩⟩
  | released state =>
    have hout : out = (.error .released, ring, s) := by simp only [out, Ring.tryReap, state]
    rw [hout]
    exact ⟨.released state, .inr ⟨by simp [state], _, rfl, rfl⟩⟩

/-- Whatever it is asked for, a ring stays consistent. -/
theorem Consistent.perform (h : ring.Consistent site s) (rbm : Nat) (op : Operation) :
    Consistent site (ring.perform (Scene.platform rbm) s op).1
      (ring.perform (Scene.platform rbm) s op).2 := by
  cases op with
  | attach => exact h.attach rbm
  | tryReap => exact (h.tryReap rbm).1
  | reap =>
    have hreap := (h.tryReap rbm).1
    rw [Ring.perform, Ring.reap]
    generalize ring.tryReap (Scene.platform rbm) s = out at hreap ⊢
    obtain ⟨e | n, ring', s'⟩ := out
    · refine hreap.record ?_ rbm
      split <;> rfl
    · exact hreap
  | release => exact .released (releaseAll_state _ _)

end Ring

inductive Move.Orderly (fw : Firmware) : Move Scene → Prop where
  | operate (op : Operation) : Orderly fw (.operate op)
  | act {act : Act} (orderly : act.Orderly (some fw)) : Orderly fw (.disturb (·.act act))
  | expect {agenda : List (List Act)} (orderly : OrderlyAgenda (some fw) agenda) :
    Orderly fw (.disturb (·.expect agenda))

namespace Ring

variable {ring : Ring SourceRing DmaBuffer} {s s' : Scene} {r : SourceRing}

theorem Consistent.move (h : ring.Consistent site s) (rbm : Nat) {move : Move Scene}
    (ho : move.Orderly site.firmware) :
    Consistent site (move.apply (Scene.platform rbm) (ring, s)).1
      (move.apply (Scene.platform rbm) (ring, s)).2 := by
  cases ho with
  | operate op => exact h.perform rbm op
  | act orderly => exact h.through fun hs => hs.act orderly
  | expect orderly => exact h.through fun hs => hs.expect orderly

theorem run_consistent (h : ring.Consistent site s) (rbm : Nat) {moves : List (Move Scene)}
    (ho : ∀ move ∈ moves, move.Orderly site.firmware) :
    Consistent site (Ring.run (Scene.platform rbm) (ring, s) moves).1
      (Ring.run (Scene.platform rbm) (ring, s) moves).2 := by
  induction moves generalizing ring s with
  | nil => exact h
  | cons move moves ih =>
    have hnext := h.move rbm (ho move List.mem_cons_self)
    exact ih hnext fun m hm => ho m (List.mem_cons_of_mem move hm)

end Ring

end FrameRing
