import FrameRing.Proofs.Stack.SlotsMatchEntries
import FrameRing.Proofs.Stack.Confinement

/-! # What a released ring leaves behind

A release gives the armed buffers back to the pool and does not touch memory. The pointer words and
the entries stay as the device knows them, so that what was armed stays armed. -/

namespace FrameRing

variable {base capacity rbm : Nat} {rest : List Allocation} {site : Site} {r : SourceRing}
  {t : Tally} {posted : List DmaBuffer}

theorem Rotation.last {β : Type} {n : Nat} {table : SlotTable β} {cursor : RingCursor}
    (h : Rotation n table cursor) : (cursor.readIdx + (n - 1)) % n = cursor.writeIdx := by
  have htwo := h.two_le
  have hturn : cursor.writeIdx + 1 + (n - 1) = cursor.writeIdx + n := by omega
  rw [h.read, Nat.mod_add_mod, hturn, Nat.add_mod_right, Nat.mod_eq_of_lt h.write_lt]

/-- Filling leaves the tail word to the device. -/
theorem Section.fill_tail_kept {s : Section World SourceRing DmaBuffer} {a : Allocation}
    {position : Nat} (ht : s.hw.Tracks t) (hl : s.hw.layout.Inside a)
    (h : SourceRing.PointsTo s.hw.flags s.world.window s.hw.layout.tailAddr position)
    (rbm size count : Nat) :
    SourceRing.PointsTo s.hw.flags (s.fill (World.platform rbm) size count).2.world.window
      s.hw.layout.tailAddr position := by
  have hwrites := (fill_writes ht rbm size count).2
  have htwo := ht.size
  exact h.tail_kept hwrites hl (by omega)

namespace Ring

theorem attach_eq_error {ω η ε β : Type} [RxBuffer β] {p : Platform ω η ε β} {ring : Ring η β}
    {hw : η} {w : ω} {e : RingError} (ready : ring.state = .ready) (held : ring.hw = some hw)
    (h : (ring.attach p w).1 = .error e) :
    ∃ s, (ring.enter hw w).fill p ring.geometry.bufferSize (ring.table.capacity - 1) =
        (.error e, s) ∧
      ring.attach p w = (.error e,
        (ring.leave s).releaseAll p (p.record (.attachFailed s.cursor.writeIdx e) s.world)) := by
  simp only [attach, ready, held] at h ⊢
  generalize (ring.enter hw w).fill p ring.geometry.bufferSize (ring.table.capacity - 1) = out
    at h ⊢
  obtain ⟨_ | _, s⟩ := out
  · cases h
    exact ⟨s, rfl, rfl⟩
  · cases h

variable {ring : Ring SourceRing DmaBuffer} {s s' : Scene}

theorem releaseAll_armed (rbm : Nat) (ring : Ring SourceRing DmaBuffer) (w : World)
    (fw : Firmware) :
    fw.armed (ring.releaseAll (World.platform rbm) w).2.window = fw.armed w.window := by
  simp only [Machine.window, releaseAll_memory]

/-- A release reports how many buffers it gave back, and the ring holds none of them any longer. -/
theorem releaseAll_reports (rbm : Nat) (hs : ring.state ≠ .released)
    (h : s.world.rest.slab.Owns (ring.holdings ++ (rest ++ s.elsewhere))) :
    let after := (ring.releaseAll (World.platform rbm) s.world).2
    after.host.journal = s.world.host.journal.push (.ringReleased ring.table.buffers.length) ∧
      after.rest.slab.Owns (rest ++ Scene.elsewhere ⟨after, s.others, []⟩) := by
  obtain ⟨slab, hreleased, howns, -⟩ := releaseAll_owned rbm hs h
  rw [hreleased]
  exact ⟨rfl, howns⟩

/-- The device sees all entries armed but those that wait to be reaped. -/
theorem AtWork.armed (h : ring.AtWork site r t posted s)
    (hrot : Rotation site.entries ring.table ring.cursor) :
    ∃ waiting, waiting < site.entries ∧
      site.firmware.tail s.world.window =
        .ok ((ring.cursor.readIdx + waiting) % site.entries) ∧
      site.firmware.armed s.world.window = .ok (site.entries - 1 - waiting) := by
  have hscene := h.scene
  have hfull := h.full hrot
  have hlen := hscene.length_posted
  have hreaped := hscene.holds.reaped_le
  have hsmall := hscene.small
  have hentries := hscene.entries_eq
  obtain ⟨consumed, hlow, hhigh, hshared⟩ := hscene.shared
  have htail := Firmware.tail_eq hshared hscene.holds hscene.inside hscene.covers (by omega)
    site.firmware.bufferSize
  have harmed := Firmware.armed_eq hshared hscene.holds hscene.inside hscene.covers (by omega)
    (Nat.le_trans hreaped hlow) hhigh hscene.published_le site.firmware.bufferSize
  rw [← hscene.wired] at htail harmed
  refine ⟨consumed - t.reaped, by omega, ?_, ?_⟩
  · have hsum : t.reaped + (consumed - t.reaped) = consumed := by omega
    rw [htail, h.slotsInOrder.readIdx_eq, Nat.mod_add_mod, hsum, hentries]
  · rw [harmed]
    congr 1
    omega

theorem AtWork.armed_eq_zero_iff (h : ring.AtWork site r t posted s)
    (hrot : Rotation site.entries ring.table ring.cursor) :
    site.firmware.armed s.world.window = .ok 0 ↔
      site.firmware.tail s.world.window = .ok ring.cursor.writeIdx := by
  obtain ⟨waiting, hlt, htail, harmed⟩ := h.armed hrot
  rw [htail, harmed, ← hrot.last]
  constructor
  · intro hnone
    have hzero : site.entries - 1 - waiting = 0 := Except.ok.inj hnone
    have hall : waiting = site.entries - 1 := by omega
    rw [hall]
  · intro hsame
    have hall : waiting = site.entries - 1 := by
      by_contra hne
      apply position_ne (n := site.entries) (a := ring.cursor.readIdx + waiting)
        (b := ring.cursor.readIdx + (site.entries - 1))
      · omega
      · omega
      · exact Except.ok.inj hsame
    rw [hall, Nat.sub_self]

/-- While nobody else acts, the device finds just what a ring armed that fills up, wherever that
ended. -/
theorem AtWork.filled (h : ring.AtWork site r ⟨0, 0, 0⟩ [] s) {result : Except RingError Unit}
    {s₁ : Section World SourceRing DmaBuffer}
    (fill : (ring.enter r s.world).fill (World.platform rbm) ring.geometry.bufferSize
      (ring.table.capacity - 1) = (result, s₁)) :
    site.firmware.armed s₁.world.window = .ok s₁.cursor.writeIdx := by
  have hquiet := Scene.fill_quiet fill s.others
  have hstart : ring.AtWork site r ⟨0, 0, 0⟩ [] ⟨s.world, s.others, []⟩ :=
    h.through fun hs => hs.expect fun _ hg => by cases hg
  obtain ⟨t, posted, hreaped, hsettled⟩ := hstart.settled.fill rbm
  rw [← h.size_eq, ← h.slotsInOrder.capacity, hquiet] at hsettled
  obtain ⟨-, hscene, horder⟩ := hsettled
  obtain ⟨consumed, -, hnone, hbefore⟩ := h.scene.shared
  obtain rfl := Nat.le_zero.mp hnone
  have htail := Section.fill_tail_kept (s := ring.enter r s.world) h.scene.holds.toTracks
    h.scene.inside hbefore.tail rbm ring.geometry.bufferSize (ring.table.capacity - 1)
  rw [fill] at htail
  have hsame : Firmware.behind r site.firmware.bufferSize =
      Firmware.behind s₁.hw site.firmware.bufferSize := h.scene.wired.symm.trans hscene.wired
  obtain ⟨hlayout, hflags, -⟩ := Firmware.mk.inj hsame
  have htail' : SourceRing.PointsTo s₁.hw.flags s₁.world.window s₁.hw.layout.tailAddr
      (0 % s₁.hw.numEntries) := by
    rw [SourceRing.numEntries, ← hflags, ← hlayout]
    exact htail
  have hroom := hscene.holds.armed_lt
  have hlen := hscene.length_posted
  have hentries := hscene.entries_eq
  have hsmall := hscene.small
  have hwrite : s₁.cursor.writeIdx = t.armed := by
    rw [horder.writeIdx_eq, hlen]
    exact Nat.mod_eq_of_lt (by omega)
  obtain ⟨consumed, -, -, hshared⟩ := hscene.shared
  have harmed := Firmware.armed_eq ⟨hshared.head, htail'⟩ hscene.holds hscene.inside hscene.covers
    (by omega) (Nat.le_of_eq hreaped) (Nat.zero_le _) (Nat.le_refl _) site.firmware.bufferSize
  rw [← hscene.wired] at harmed
  rw [hwrite]
  exact harmed

theorem AtWork.attach_failed (h : ring.AtWork site r ⟨0, 0, 0⟩ [] s)
    (ready : ring.state = .ready) (hf : Filling site.entries 0 ring.table ring.cursor)
    (hc : ring.InCustody (Scene.Account base capacity rest) s) {e : RingError}
    (failed : (ring.attach (World.platform rbm) s.world).1 = .error e) :
    let after := (ring.attach (World.platform rbm) s.world).2.2
    ∃ (journal : Array LogEvent) (k : Nat),
      after.host.journal = (journal.push (.attachFailed k e)).push (.ringReleased k) ∧
      site.firmware.armed after.window = .ok k ∧
      after.rest.slab.Owns (rest ++ Scene.elsewhere ⟨after, s.others, []⟩) := by
  obtain ⟨s₁, fill, hattach⟩ := attach_eq_error ready h.hw failed
  rw [hattach]
  have hquiet := Scene.fill_quiet fill s.others
  obtain ⟨k, hfilled⟩ := Section.fill_filling (p := Scene.platform rbm) ring.geometry.bufferSize
    (s := ring.enter r ⟨s.world, s.others, []⟩) hf
  have hkept := Section.fill_custody (Scene.platform_custody rbm base capacity rest).atWork
    (s := ring.enter r ⟨s.world, s.others, []⟩) ring.geometry.bufferSize
    (ring.table.capacity - 1) hc.account
  rw [← h.slotsInOrder.capacity] at hfilled
  rw [hquiet] at hfilled hkept
  have hne : (ring.leave s₁).state ≠ .released := by simp [leave, ready]
  have haccount : Scene.Account base capacity rest ⟨s₁.world, s.others, []⟩
      (ring.leave s₁).ringMem (ring.leave s₁).table.buffers := hkept
  have howns := owns_of_account haccount
  obtain ⟨hjournal, hfree⟩ := releaseAll_reports
    (s := { s with world := s₁.world.record (.attachFailed s₁.cursor.writeIdx e) }) rbm hne howns
  have hcount : (ring.leave s₁).table.buffers.length = s₁.cursor.writeIdx := by
    rw [← SlotTable.inUseCount_eq_length]
    exact hfilled.count.trans (congrArg RingCursor.writeIdx hfilled.cursor_eq).symm
  rw [hcount] at hjournal
  refine ⟨s₁.world.host.journal, s₁.cursor.writeIdx, hjournal, ?_, hfree⟩
  rw [releaseAll_armed]
  exact h.filled fill

theorem run_inCustody {fw : Firmware} {moves : List (Move Scene)}
    (h : ring.InCustody (Scene.Account base capacity rest) s) (rbm : Nat)
    (ho : ∀ move ∈ moves, move.Orderly fw) :
    InCustody (Scene.Account base capacity rest) (Ring.run (Scene.platform rbm) (ring, s) moves).1
      (Ring.run (Scene.platform rbm) (ring, s) moves).2 := by
  induction moves generalizing ring s with
  | nil => exact h
  | cons move moves ih =>
    have hrest : ∀ m ∈ moves, m.Orderly fw := fun m hm => ho m (List.mem_cons_of_mem move hm)
    cases ho move List.mem_cons_self with
    | operate op =>
      exact ih (h.perform (Scene.platform_custody rbm base capacity rest).atWork op) hrest
    | @act act => exact ih ⟨Scene.Keeps.act h.account act, h.emptied⟩ hrest
    | expect => exact ih ⟨h.account, h.emptied⟩ hrest

/-- A release takes nothing back from the device: it sees as many entries armed as before. With an
orderly device over healthy memory, an active ring leaves all of them armed but those that wait to
be reaped, none just when the device has used up whatever was published, and an attach that fails
leaves armed what it armed. The entries name buffers that nobody holds any longer. -/
theorem run_release_leaves_armed {params : RingParams}
    (hs : Ring.setup (Scene.platform rbm) params s = (.ok ring, s')) (hr : ring.hw = some r)
    (moves : List (Move Scene)) :
    let n := params.capacity
    let fw := Firmware.behind r params.bufferSize
    let p := World.platform rbm
    let out := Ring.run (Scene.platform rbm) (ring, s') moves
    (∀ w, fw.armed (out.1.releaseAll p w).2.window = fw.armed w.window) ∧
    (s.Undisturbed → (∀ move ∈ moves, move.Orderly fw) →
      let w := out.2.world
      (out.1.state = .active →
        let after := (out.1.releaseAll p w).2
        (fw.armed after.window = .ok 0 ↔ fw.tail w.window = .ok out.1.cursor.writeIdx) ∧
        (∃ waiting, waiting < n ∧
          fw.tail w.window = .ok ((out.1.cursor.readIdx + waiting) % n) ∧
          fw.armed after.window = .ok (n - 1 - waiting)) ∧
        out.1.SlotsMatchEntries n rbm fw after.window ∧
        after.rest.slab.Owns (Scene.elsewhere ⟨after, out.2.others, []⟩)) ∧
      (out.1.state = .ready → ∀ e, (out.1.attach p w).1 = .error e →
        let after := (out.1.attach p w).2.2
        ∃ (journal : Array LogEvent) (k : Nat),
          after.host.journal = (journal.push (.attachFailed k e)).push (.ringReleased k) ∧
          fw.armed after.window = .ok k ∧
          after.rest.slab.Owns (Scene.elsewhere ⟨after, out.2.others, []⟩))) := by
  intro n fw p out
  refine ⟨fun w => releaseAll_armed rbm out.1 w fw, ?_⟩
  intro hquiet horderly w
  obtain ⟨hn, hpaced⟩ := setup_paced hs
  have hentries : r.numEntries = n := (hpaced.lockstep r hr).entries
  have hdisciplined : Disciplined n out.1 := (run_paced hpaced hn moves).disciplined
  obtain ⟨base, capacity, hk, hf, hm, hreach, ha⟩ := hquiet.setting
  obtain ⟨a, hin⟩ := setup_consistent hk hf hm hreach ha hs hr
  have hconsistent := run_consistent hin rbm horderly
  have hcustody : out.1.InCustody (Scene.Account base capacity []) out.2 := by
    rcases setup_custody (Scene.platform_custody rbm base capacity []) hk hs with
      ⟨e, he, -⟩ | ⟨ring', hok, hheld⟩
    · cases he
    · cases hok
      exact run_inCustody hheld rbm horderly
  constructor
  · intro hactive after
    have hrot := hdisciplined.rotation hactive
    have hsame : after.window = w.window :=
      congrArg HostMemory.window (releaseAll_memory rbm out.1 w)
    rw [← hentries] at hrot ⊢
    rw [hsame]
    cases hconsistent with
    | ready state => cases state.symm.trans hactive
    | released state => cases state.symm.trans hactive
    | active state work =>
      refine ⟨work.armed_eq_zero_iff hrot, work.armed hrot, work.slotsMatchEntries hrot, ?_⟩
      exact (releaseAll_reports rbm (by simp [hactive]) (owns_of_account hcustody.account)).2
  · intro hready e hfail
    have hfilling := hdisciplined.filling hready
    rw [← hentries] at hfilling
    cases hconsistent with
    | ready state work => exact work.attach_failed hready hfilling hcustody hfail
    | active state => cases state.symm.trans hready
    | released state => cases state.symm.trans hready

/-- The pool hands out again what an active ring gave back, and the next frame lies in it. -/
theorem run_release_leaves_armed_stray :
    let w : World := .fresh (.zeroed 0 256) ⟨0, 64, Array.replicate 4 false, none⟩
    let fw : Firmware := ⟨⟨0, 3, 8, 24, 28⟩, .empty, 64⟩
    let moves : List (Move Scene) :=
      [.operate .attach, .disturb (·.act (.device fw (.advance 1)))]
    ∃ ring s, Ring.setup (Scene.platform 3) (.ofSizes 3 8 64) (.start w) = (.ok ring, s) ∧
      let out := Ring.run (Scene.platform 3) (ring, s) moves
      let after := (out.1.releaseAll (World.platform 3) out.2.world).2
      let taken := World.alloc 256 after
      let hit := fw.deliverFrame taken.2.window [7, 8]
      taken.1 = .ok ⟨0, 256⟩ ∧ hit.1.map RingEntry.busAddr = .ok 128 ∧
        hit.2.read 132 2 = .ok [7, 8] ∧ fw.armed after.window ≠ .ok 0 := by
  intro w fw moves
  have hup : ∃ ring s,
      Ring.setup (Scene.platform 3) (.ofSizes 3 8 64) (.start w) = (.ok ring, s) ∧
      ring.hw = some ⟨fw.layout, .empty, 0, 3, 0, 2, 0, false⟩ ∧
      let out := Ring.run (Scene.platform 3) (ring, s) moves
      let after := (out.1.releaseAll (World.platform 3) out.2.world).2
      let taken := World.alloc 256 after
      let hit := fw.deliverFrame taken.2.window [7, 8]
      out.1.state = .active ∧ fw.tail out.2.world.window ≠ .ok out.1.cursor.writeIdx ∧
        taken.1 = .ok ⟨0, 256⟩ ∧ hit.1.map RingEntry.busAddr = .ok 128 ∧
        hit.2.read 132 2 = .ok [7, 8] := by
    decide +kernel
  have hquiet : (((Scene.start w).acts []).expect []).Undisturbed := by
    apply Scene.Undisturbed.mk (show World.create (.zeroed 0 256) 64 0 256 = .ok w from rfl)
    all_goals decide +kernel
  have hmoves : ∀ move ∈ moves, move.Orderly fw := by
    simp only [moves, List.forall_mem_cons]
    exact ⟨.operate _, .act rfl, by simp⟩
  obtain ⟨ring, s, hs, hr, hactive, htail, htaken, hbus, hread⟩ := hup
  refine ⟨ring, s, hs, htaken, hbus, hread, ?_⟩
  intro hnone
  exact htail ((((run_release_leaves_armed hs hr moves).2 hquiet hmoves).1 hactive).1.mp hnone)

end Ring

end FrameRing
