import FrameRing.Proofs.Stack.Passes

/-! # A ring in service

Between two calls of its operations an attached ring has closed its section, all that it armed is
published and every frame that it reaped is with the consumer. -/

namespace FrameRing.Ring

variable {fw : Firmware} {a : Allocation} {rbm : Nat} {sent : List (List UInt8)}
  {live : List Allocation} {r : SourceRing} {t : Tally} {posted : List DmaBuffer}
  {ring : Ring SourceRing DmaBuffer} {w : World}

structure InService (fw : Firmware) (a : Allocation) (sent : List (List UInt8))
    (live : List Allocation) (r : SourceRing) (t : Tally) (posted : List DmaBuffer)
    (ring : Ring SourceRing DmaBuffer) (w : World) : Prop where
  active : ring.state = .active
  hw : ring.hw = some r
  closed : r.inAccess = false
  flow : Flow fw a ring.geometry.bufferSize sent live t.reaped r w t posted
  slotsInOrder : SlotsInOrder r.numEntries t.reaped posted ring.table ring.cursor
  published :
    SourceRing.PointsTo r.flags w.window r.layout.headAddr (t.armed % r.numEntries)
  quiet : w.rest.delivered = #[]

/-- The buffers that a pass retired carry the payloads sent into them. -/
theorem retired_carry {size first reaped : Nat}
    (h : Flow fw a size sent live first r w t posted) (hr : reaped ≤ sent.length) :
    List.Forall₂ (fun b payload => b.Carries w.window payload)
      ((posted.drop first).take (reaped - first)) ((sent.drop first).take (reaped - first)) := by
  have hsent := h.sent_le
  have hlen := h.length_posted
  apply List.forall₂_iff_get.mpr
  constructor
  · simp only [List.length_take, List.length_drop]
    omega
  · intro i hb hp
    have hi : i < reaped - first := by
      rw [List.length_take] at hb
      omega
    have hbuf := List.getElem?_eq_getElem hb
    have hpay := List.getElem?_eq_getElem hp
    rw [List.getElem?_take_of_lt hi, List.getElem?_drop] at hbuf hpay
    have hsized := h.sized _ _ (Nat.le_add_right first i) hbuf
    have hfits := h.fits _ (List.mem_of_getElem? hpay)
    exact ⟨h.filled _ _ _ (Nat.le_add_right first i) hbuf hpay, hsized.1 ▸ hfits,
      hsized.1 ▸ hsized.2⟩

theorem drop_eq_retired {first reaped : Nat} (hle : first ≤ reaped) :
    posted.drop first = (posted.drop first).take (reaped - first) ++ posted.drop reaped := by
  conv => lhs; rw [← List.take_append_drop (reaped - first) (posted.drop first)]
  rw [List.drop_drop, Nat.add_sub_of_le hle]

/-- A reap succeeds. It delivers the payloads of all completions that it takes, and takes all that
there are unless it counts backpressure. -/
theorem InService.tryReap (h : ring.InService fw a sent live r t posted w) (rbm : Nat) :
    ∃ n ring' w' r' t' posted' frames,
      ring.tryReap (World.platform rbm) w = (.ok n, ring', w') ∧
      w'.rest.delivered.toList = frames ∧
      frames.map DmaBuffer.data =
        ((sent.drop t.reaped).take (t'.reaped - t.reaped)).filter (· ≠ []) ∧
      t.reaped ≤ t'.reaped ∧
      (ring'.stats.backpressure = ring.stats.backpressure → t'.reaped = sent.length) ∧
      ring'.InService fw a sent (frames.map DmaBuffer.allocation ++ live) r' t' posted'
        w'.collect.2 := by
  obtain ⟨hopen, hflow⟩ := h.flow.accessBegin h.closed
  have hready : Pass.InStep fw a ring.geometry.bufferSize sent live t.reaped
      { t with accepted := sent.length } posted
      ⟨ring.enter { r with cachedTail := sent.length % r.numEntries, inAccess := true } w,
        ring.stats, []⟩ :=
    ⟨⟨rfl, hflow, h.slotsInOrder, h.quiet⟩, by simp⟩
  have hbegin : (World.platform rbm).hardware.accessBegin r w =
      (.ok (), { r with cachedTail := sent.length % r.numEntries, inAccess := true }, w) := by
    change SourceRing.hardware.accessBegin r w = _
    simp only [SourceRing.hardware, hopen]
  have hcount : (World.platform rbm).hardware.availableCount
      { r with cachedTail := sent.length % r.numEntries, inAccess := true } w =
      sent.length - t.reaped :=
    hflow.holds.availableCount_eq rfl
  have hreaped := hflow.holds.reaped_le
  obtain ⟨pass, t', posted', hdrain, hin, hacc, hall⟩ :=
    Pass.drain_inStep rbm (sent.length - t.reaped) hready
      (Nat.add_sub_of_le hreaped)
  obtain ⟨window, hclose, hclosed, hpublished⟩ := hin.toInStep.close rbm
  have hr' := hclosed.holds.reaped_le
  have hacc' := hclosed.accepted_le
  have hcarry := retired_carry hclosed (Nat.le_trans hr' hacc')
  rw [← hin.retired_eq] at hcarry
  have howns : World.Owns (pass.world.setWindow window)
      (pass.retired.map DmaBuffer.allocation ++
        (a :: ((posted'.drop t'.reaped).map DmaBuffer.allocation ++ live))) := by
    refine hclosed.owns.perm ?_
    rw [drop_eq_retired hclosed.first_le, ← hin.retired_eq, List.map_append, List.append_assoc]
    exact List.perm_middle.symm
  obtain ⟨hwindow, frames, hframes, hdata, howns'⟩ := Delivery.all_frames rbm howns hcarry
  have hgiven : (Delivery.all (World.platform rbm) pass.retired
      (pass.world.setWindow window)).world.collect.2.Owns
      (a :: ((posted'.drop t'.reaped).map DmaBuffer.allocation ++
        (frames.map DmaBuffer.allocation ++ live))) :=
    howns'.collect.perm (List.perm_middle.trans ((List.perm_append_comm_assoc ..).cons a))
  have htry : ring.tryReap (World.platform rbm) w =
      let d := Delivery.all (World.platform rbm) pass.retired (pass.world.setWindow window)
      (.ok d.delivered,
        { ring with
          hw := some { pass.hw with inAccess := false }
          table := pass.table
          cursor := pass.cursor
          stats :=
            { pass.stats with
              delivered := pass.stats.delivered + d.delivered
              droppedMalformed := pass.stats.droppedMalformed + d.dropped } },
        d.world) := by
    unfold Ring.tryReap
    simp only [h.active, h.hw, hbegin, hcount, hdrain, hclose, conclude, deliver, leave, Except.map]
  refine ⟨_, _, _, _, t', posted', frames, htry, ?_, hdata, hclosed.first_le, ?_,
    h.active, rfl, rfl, hclosed.giveAway hwindow hgiven, hin.slotsInOrder, ?_, rfl⟩
  · rw [hframes]
    change pass.world.rest.delivered.toList ++ frames = frames
    rw [hin.quiet]
    rfl
  · intro hsame
    exact (hall hsame).trans hacc
  · change SourceRing.PointsTo _ (Delivery.all (World.platform rbm) pass.retired
      (pass.world.setWindow window)).world.window _ _
    rw [hwindow]
    exact hpublished

theorem register_eq (reg : Registration) (w : World) :
    (World.platform rbm).register reg w =
      ((SourceRing.create reg rbm w.host.memory).1,
        { w with
          host :=
            { w.host.record (.registering reg.ringBase reg.numEntries reg.entrySize) with
              memory := (SourceRing.create reg rbm w.host.memory).2 } }) :=
  rfl

theorem setup_flow {params : RingParams} {w' : World} {capacity : Nat} (ho : w.Owns live)
    (hcap : capacity ≤ params.bufferSize)
    (hs : Ring.setup (World.platform rbm) params w = (.ok ring, w')) :
    ∃ a r, ring.hw = some r ∧ ring.state = .ready ∧ r.inAccess = false ∧
      ring.geometry.bufferSize = params.bufferSize ∧ ring.table.capacity = r.numEntries ∧
      Flow (Firmware.behind r capacity) a params.bufferSize [] live 0 r w' ⟨0, 0, 0⟩ [] ∧
      SlotsInOrder r.numEntries 0 [] ring.table ring.cursor ∧
      w'.rest.delivered = w.rest.delivered := by
  obtain ⟨valid, -, a, w₁, r, w₂, alloc, aligned, register, rfl, rfl⟩ := setup_eq_ok hs
  obtain ⟨htwo, hcookies, -⟩ := RingParams.validate_eq_ok valid
  obtain ⟨howns, ⟨slab, rfl⟩, hlen⟩ := ho.alloc alloc
  rcases hcreate : SourceRing.create (params.registration a.addr) rbm
    (w.setSlab slab).host.memory with ⟨result, memory⟩
  rw [register_eq, hcreate] at register
  cases register
  have hstop := howns.stop_le List.mem_cons_self
  obtain ⟨window, rfl, hbase, hsize, hn, hclosed, hinside, hholds, htail⟩ :=
    SourceRing.create_healthy hcreate howns.faults (howns.covers List.mem_cons_self) rfl hlen
      (by rw [addressLimit]; omega)
  have hn' : r.numEntries = params.capacity := hn
  refine ⟨a, r, rfl, rfl, hclosed, rfl, ?_, ?_, ?_, rfl⟩
  · rw [hn']
    exact SlotTable.capacity_withCapacity params.capacity
  · refine
      { wired := rfl
        capacity := hcap
        holds := hholds
        inside := hinside
        small := ?_
        tail := by
          rw [List.length_nil, Nat.zero_mod]
          exact htail
        accepted_le := Nat.le_refl 0
        sent_le := Nat.le_refl 0
        first_le := Nat.le_refl 0
        owns := ?_
        sized := fun k b _ hb => by cases hb
        fits := by simp
        filled := fun k b payload _ hb => by cases hb }
    · have hmax : RingEntry.maxCookie = (1 <<< 21) - 1 := rfl
      omega
    · have hmoved := World.Owns.setWindow howns hbase hsize
      exact ⟨hmoved.toOwns, hmoved.faults, hmoved.mapped, hmoved.reach⟩
  · rw [hn']
    exact SlotsInOrder.start (by omega)

/-- A ring that was set up and attached is in service, with a device behind it. -/
theorem attach_inService {params : RingParams} {w₁ w₂ : World} {ring' : Ring SourceRing DmaBuffer}
    {capacity : Nat} (ho : w.Owns live) (hq : w.rest.delivered = #[])
    (hcap : capacity ≤ params.bufferSize)
    (hs : Ring.setup (World.platform rbm) params w = (.ok ring, w₁))
    (ha : ring.attach (World.platform rbm) w₁ = (.ok (), ring', w₂))
    (hr : ring'.hw = some r) :
    ∃ a t posted, ring'.InService (Firmware.behind r capacity) a [] live r t posted w₂ := by
  obtain ⟨a, r₀, hhw, hready, hclosed, hsize, htable, hflow, horder, hquiet⟩ :=
    setup_flow ho hcap hs
  obtain ⟨hopen, hflow₁⟩ := hflow.accessBegin hclosed
  have hbegin : (World.platform rbm).hardware.accessBegin r₀ w₁ =
      (.ok (), { r₀ with cachedTail := 0 % r₀.numEntries, inAccess := true }, w₁) := by
    change SourceRing.hardware.accessBegin r₀ w₁ = _
    simp only [SourceRing.hardware, hopen, List.length_nil]
  have htwo := hflow.holds.size
  rw [← hsize] at hflow₁
  have hmany := Section.armMany_rule (p := World.platform rbm) ring.geometry.bufferSize
    (ring.table.capacity - 1)
    (P := fun k s => ∃ t posted, s.hw.numEntries = r₀.numEntries ∧
      posted.length + k + 1 = r₀.numEntries ∧
      s.InStep (Firmware.behind r₀ capacity) a ring.geometry.bufferSize [] live 0 t posted)
    (F := fun _ _ => True)
    (by
      rintro k s out ⟨t, posted, hn, hk, hin⟩ ho
      rcases ho.inStep hin (by omega) with ⟨hok, b, hlayout, hnext⟩ | ⟨e, hdry⟩
      · exact .inl ⟨hok, _, _, (congrArg RingLayout.numEntries hlayout).trans hn,
          by rw [List.length_append, List.length_singleton]; omega, hnext⟩
      · exact .inr ⟨_, hdry, trivial⟩)
    (s := ⟨{ r₀ with cachedTail := 0 % r₀.numEntries, inAccess := true }, ring.table,
      ring.cursor, w₁⟩)
    ⟨⟨0, 0, 0⟩, [], rfl, by rw [List.length_nil]; omega, rfl, hflow₁, horder,
      hquiet.trans hq⟩
  simp only [attach, hready, hhw, Section.fill, enter, hbegin] at ha
  generalize Section.armMany (World.platform rbm) ring.geometry.bufferSize
    (ring.table.capacity - 1) _ = out at hmany ha
  obtain ⟨result, s⟩ := out
  cases result with
  | error e => cases ha
  | ok =>
    rcases hmany with ⟨-, t, posted, hn, hlen, hin⟩ | ⟨e, hfailed, -⟩
    · obtain ⟨window, hclose, hclosed', hpublished⟩ := hin.close rbm
      simp only [hclose] at ha
      cases ha
      cases hr
      have hreaped := hin.flow.holds.reaped_le
      have haccepted := hin.flow.accepted_le
      have hzero : t.reaped = 0 := by
        rw [List.length_nil] at haccepted
        omega
      have hwired : Firmware.behind r₀ capacity =
          Firmware.behind { s.hw with inAccess := false } capacity := hclosed'.wired
      rw [hwired] at hclosed'
      refine ⟨a, t, posted, rfl, rfl, rfl, ?_, hin.slotsInOrder, hpublished, hin.quiet⟩
      rw [hzero]
      exact hclosed'.record _
    · cases hfailed

end FrameRing.Ring
