import FrameRing.Proofs.SourceRing.Aim
import FrameRing.Proofs.Stack.Confinement
import FrameRing.Proofs.Stack.RingMemory

/-! # Buffers beside the ring memory

While the slots of the ring memory stay busy, every buffer that the pool hands out lies beside it.
So does what the entries name that a ring has armed, in whatever operation and however it ended. -/

namespace FrameRing

variable {l : RingLayout} {a : Allocation} {size rbm : Nat} {t : Tally} {r : SourceRing}
  {held : List DmaBuffer} {w w' : World}

namespace World

structure Aiming (l : RingLayout) (a : Allocation) (size : Nat) (t : Tally) (r : SourceRing)
    (w : World) (held : List DmaBuffer) : Prop where
  layout : r.layout = l
  tracks : r.Tracks t
  aimed : l.Aimed a size t.armed w.window
  secured : w.rest.slab.Secures (some a) held
  fits : ∀ b ∈ held, b.Fits size

theorem acquire_fits (hs : w.rest.slab.Sound) {b : DmaBuffer}
    (h : World.acquire size w = (.ok b, w')) : b.Fits size := by
  obtain ⟨-, -, htook, -⟩ := hs.alloc (acquire_slab h)
  refine ⟨?_, (htook.length hs.slot_pos).1⟩
  unfold World.acquire DmaBuffer.acquire at h
  rcases ha : w.rest.slab.alloc size with ⟨e | a, slab⟩
  · rw [ha] at h
    cases h
  · rw [ha] at h
    cases h
    rfl

namespace Aiming

theorem outside (h : Aiming l a size t r w held) {b : DmaBuffer} (hb : b ∈ held) :
    a.Outside b.allocation.addr size := by
  have hapart := h.secured.apart a rfl b hb
  have hlen := (h.fits b hb).2
  rw [Slab.Overlaps] at hapart
  rw [Allocation.Outside]
  omega

theorem entries_pos (h : Aiming l a size t r w held) : 0 < r.layout.numEntries :=
  Nat.lt_of_lt_of_le (by decide) h.tracks.size

theorem accessBegin (h : Aiming l a size t r w held) {result : Except SourceRingError Unit}
    {r' : SourceRing} (hb : (platform rbm).hardware.accessBegin r w = (result, r', w')) :
    r'.head = r.head ∧ ∃ t' : Tally, t'.armed = t.armed ∧ Aiming l a size t' r' w' held := by
  obtain ⟨rfl, hlayout, hhead, t', ht, harmed⟩ := accessBegin_tracks h.tracks hb
  refine ⟨hhead, t', harmed, hlayout.trans h.layout, ht, ?_, h.secured, h.fits⟩
  rw [harmed]
  exact h.aimed

theorem accessEnd (h : Aiming l a size t r w held) (hl : l.Inside a) (rbm : Nat) :
    Aiming l a size t ((platform rbm).hardware.accessEnd r w).1
      ((platform rbm).hardware.accessEnd r w).2 held := by
  obtain ⟨rfl, ht, haimed, hsecured, hfits⟩ := h
  have hn : 0 < r.layout.numEntries := Nat.lt_of_lt_of_le (by decide) ht.size
  have hring : ((platform rbm).hardware.accessEnd r w).1 = { r with inAccess := false } :=
    SourceRing.accessEnd_ring r w.host
  rw [hring]
  exact ⟨rfl, { ht with }, haimed.accessEnd hl hn, hsecured, hfits⟩

theorem distance_eq (h : Aiming l a size t r w held) {t' : Tally} {r' : SourceRing}
    {held' : List DmaBuffer} (h' : Aiming l a size t' r' w' held')
    (haccepted : t'.accepted ≤ t.armed) (hle : t.armed ≤ t'.armed) :
    t'.armed = t.armed + r.distance r.head r'.head := by
  have hreaped := h'.tracks.reaped_le
  have harmed := h'.tracks.armed_lt
  have hsize : r'.numEntries = r.numEntries := by
    rw [SourceRing.numEntries, SourceRing.numEntries, h.layout, h'.layout]
  have hsteps : r.distance r.head r'.head = t'.armed - t.armed := by
    rw [SourceRing.distance, h.tracks.head, h'.tracks.head, hsize]
    exact steps_between hle (by omega)
  omega

end Aiming

theorem aiming_invariant (rbm size first : Nat) (hl : l.Inside a) :
    SectionInvariant (platform rbm) size fun r w held =>
      ∃ t : Tally, t.accepted ≤ first ∧ first ≤ t.armed ∧ Aiming l a size t r w held := by
  have B := (secured_custody rbm).buffers (some a)
  constructor
  case perm =>
    rintro r w held held' ⟨t, haccepted, hfirst, h⟩ hp
    exact ⟨t, haccepted, hfirst, h.layout, h.tracks, h.aimed, h.secured.perm hp,
      fun b hb => h.fits b (hp.mem_iff.mpr hb)⟩
  case acquire =>
    rintro r w b w' held ⟨t, haccepted, hfirst, h⟩ ha
    have haimed : l.Aimed a size t.armed w'.window := by
      rw [Machine.window, acquire_memory ha]
      exact h.aimed
    refine ⟨t, haccepted, hfirst, h.layout, h.tracks, haimed, B.acquire h.secured ha, ?_⟩
    intro b' hb
    rcases List.mem_cons.mp hb with rfl | hb
    · exact acquire_fits h.secured.toSound ha
    · exact h.fits b' hb
  case acquire_error =>
    rintro r w e w' held ⟨t, haccepted, hfirst, h⟩ ha
    obtain rfl := (acquire_eq_error h.secured.toSound ha).1
    exact ⟨t, haccepted, hfirst, h⟩
  case release =>
    rintro r w b held ⟨t, haccepted, hfirst, h⟩
    have haimed : l.Aimed a size t.armed ((platform rbm).pool.release b w).window := by
      have hmemory : ((platform rbm).pool.release b w).host.memory = _ := release_memory b w
      rw [Machine.window, hmemory]
      exact h.aimed
    exact ⟨t, haccepted, hfirst, h.layout, h.tracks, haimed, B.release h.secured,
      fun b' hb => h.fits b' (List.mem_cons_of_mem b hb)⟩
  case record =>
    rintro r w held event ⟨t, haccepted, hfirst, h⟩ he
    exact ⟨t, haccepted, hfirst, h.layout, h.tracks, h.aimed, h.secured, h.fits⟩
  case nextEntry =>
    rintro r w entry r' w' held ⟨t, haccepted, hfirst, h⟩ hn
    cases hn
    have haimed : l.Aimed a size t.armed (r.nextEntry w.host).2.memory.window := by
      rw [SourceRing.nextEntry_memory]
      exact h.aimed
    exact ⟨t, haccepted, hfirst, h.layout, h.tracks, haimed, h.secured, h.fits⟩
  case nextFreeEntry =>
    rintro r w entry r' w' held ⟨t, haccepted, hfirst, h⟩ hn
    cases hn
    exact ⟨t, haccepted, hfirst, h⟩
  case setEntry =>
    rintro entry b cookie r w result r' w' held ⟨t, haccepted, hfirst, h⟩ hs
    cases hs
    have hout := h.outside List.mem_cons_self
    obtain ⟨rfl, ht, haimed, hsecured, hfits⟩ := h
    obtain ⟨hlayout, t', ht', hsame, hle, haimed'⟩ :=
      RingLayout.Aimed.setEntry ht hl haimed entry hout cookie
    exact ⟨t', hsame ▸ haccepted, Nat.le_trans hfirst hle, hlayout, ht', haimed', hsecured, hfits⟩

end World

theorem Section.fill_aiming {s : Section World SourceRing DmaBuffer} (hl : l.Inside a)
    (h : World.Aiming l a size t s.hw s.world s.table.buffers) (rbm count : Nat) :
    let out := (s.fill (World.platform rbm) size count).2
    ∃ t' : Tally, t'.armed = t.armed + s.hw.distance s.hw.head out.hw.head ∧
      World.Aiming l a size t' out.hw out.world out.table.buffers := by
  simp only [fill]
  rcases hb : (World.platform rbm).hardware.accessBegin s.hw s.world with ⟨result, r, w⟩
  obtain ⟨-, t', harmed, hopened⟩ := h.accessBegin hb
  have haccepted : t'.accepted ≤ t.armed := harmed ▸ hopened.tracks.accepted_le
  cases result with
  | error e => exact ⟨t', h.distance_eq hopened haccepted (Nat.le_of_eq harmed.symm), hopened⟩
  | ok =>
    obtain ⟨t'', haccepted'', hle, hmany⟩ := armMany_invariant (s := { s with hw := r, world := w })
      (World.aiming_invariant rbm size t.armed hl) count
      ⟨t', haccepted, Nat.le_of_eq harmed.symm, hopened⟩
    have hclosed := hmany.accessEnd hl rbm
    exact ⟨t'', h.distance_eq hclosed haccepted'' hle, hclosed⟩

/-- So does a pass, and what it retires lies outside as well. -/
theorem Pass.drain_aiming {s : Pass World SourceRing DmaBuffer} (hl : l.Inside a)
    (h : World.Aiming l a size t r w s.held)
    (hb : (World.platform rbm).hardware.accessBegin r w = (.ok (), s.hw, s.world)) (count : Nat) :
    let out := (s.drain (World.platform rbm) size count).2
    ∃ t' : Tally, t'.accepted ≤ t.armed ∧ t.armed ≤ t'.armed ∧
      World.Aiming l a size t' out.hw out.world out.held := by
  obtain ⟨-, t', harmed, hopened⟩ := h.accessBegin hb
  have haccepted : t'.accepted ≤ t.armed := harmed ▸ hopened.tracks.accepted_le
  exact drain_invariant (World.aiming_invariant rbm size t.armed hl) count
    ⟨t', haccepted, Nat.le_of_eq harmed.symm, hopened⟩

namespace Ring

variable {ring : Ring SourceRing DmaBuffer} {armed : Nat}

def headway (ring ring' : Ring SourceRing DmaBuffer) : Nat :=
  match ring.hw, ring'.hw with
  | some r, some r' => r.distance r.head r'.head
  | _, _ => 0

structure Supplied (l : RingLayout) (a : Allocation) (size armed : Nat)
    (ring : Ring SourceRing DmaBuffer) (w : World) : Prop where
  size_eq : ring.geometry.bufferSize = size
  aimed : l.Aimed a size armed w.window
  hardware : ∀ r, ring.hw = some r → ∃ t : Tally, t.armed = armed ∧
    World.Aiming l a size t r w ring.table.buffers

theorem Supplied.of_aiming (hsize : ring.geometry.bufferSize = size) {r' : SourceRing}
    (held : ring.hw = some r') {t : Tally} (harmed : t.armed = armed)
    (h : World.Aiming l a size t r' w ring.table.buffers) : ring.Supplied l a size armed w := by
  refine ⟨hsize, harmed ▸ h.aimed, ?_⟩
  intro r hr
  cases held.symm.trans hr
  exact ⟨t, harmed, h⟩

theorem headway_self (ring : Ring SourceRing DmaBuffer) : ring.headway ring = 0 := by
  rw [headway]
  cases ring.hw with
  | none => rfl
  | some r =>
    simp only [SourceRing.distance, Nat.add_sub_cancel_left, Nat.mod_self]

theorem headway_of_none (ring : Ring SourceRing DmaBuffer) {ring' : Ring SourceRing DmaBuffer}
    (h : ring'.hw = none) :
    ring.headway ring' = 0 := by
  rw [headway, h]
  cases ring.hw with
  | none => rfl
  | some r => rfl

theorem Supplied.of_release (hs : ring.state ≠ .released)
    (hsize : ring.geometry.bufferSize = size) (h : l.Aimed a size armed w.window) (rbm : Nat)
    (before : Ring SourceRing DmaBuffer) :
    let out := ring.releaseAll (World.platform rbm) w
    out.1.Supplied l a size (armed + before.headway out.1) out.2 := by
  have hmemory := releaseAll_memory rbm ring w
  rw [Ring.releaseAll, if_neg hs] at hmemory ⊢
  have hnone : before.headway { ring with
      state := .released
      table := .empty
      cursor := ring.cursor.reset
      hw := none
      ringMem := none } = 0 :=
    headway_of_none before rfl
  simp only [hnone]
  refine ⟨hsize, ?_, fun r hr => by cases hr⟩
  rw [Machine.window, hmemory]
  exact h

theorem Supplied.releaseAll (h : ring.Supplied l a size armed w) (rbm : Nat) :
    let out := ring.releaseAll (World.platform rbm) w
    out.1.Supplied l a size (armed + ring.headway out.1) out.2 := by
  by_cases hs : ring.state = .released
  · rw [Ring.releaseAll, if_pos hs]
    simp only [headway_self]
    exact h
  · exact of_release hs h.size_eq h.aimed rbm ring

theorem Supplied.attach (h : ring.Supplied l a size armed w) (hl : l.Inside a) (rbm : Nat) :
    let out := (ring.attach (World.platform rbm) w).2
    out.1.Supplied l a size (armed + ring.headway out.1) out.2 := by
  have hout := attached (World.platform rbm) ring w
  obtain rfl := h.size_eq
  have hfill {r : SourceRing} {t : Tally}
      (haiming : World.Aiming l a ring.geometry.bufferSize t r w ring.table.buffers) :=
    Section.fill_aiming (s := ring.enter r w) hl haiming rbm (ring.table.capacity - 1)
  generalize ring.attach (World.platform rbm) w = out at hout ⊢
  cases hout with
  | again =>
    simp only [headway_self]
    exact h
  | refused =>
    simp only [headway_self]
    exact h
  | @failed r e s ready held fill =>
    obtain ⟨t, rfl, haiming⟩ := h.hardware r held
    obtain ⟨t', harmed, hend⟩ := hfill haiming
    rw [fill] at harmed hend
    have hne : (ring.leave s).state ≠ .released := by simp [leave, ready]
    have hle : t.armed ≤ t'.armed := harmed ▸ Nat.le_add_right _ _
    exact of_release (w := s.world.record _) hne rfl (hend.aimed.mono hle) rbm ring
  | @filled r s ready held fill =>
    obtain ⟨t, rfl, haiming⟩ := h.hardware r held
    obtain ⟨t', harmed, hend⟩ := hfill haiming
    rw [fill] at harmed hend
    have hheadway : ring.headway { ring.leave s with state := .active } =
        r.distance r.head s.hw.head := by
      rw [headway, held]
      rfl
    simp only [hheadway]
    refine of_aiming (by rfl) (by rfl) harmed ?_
    exact ⟨hend.layout, hend.tracks, hend.aimed, hend.secured, hend.fits⟩

theorem Supplied.tryReap (h : ring.Supplied l a size armed w) (hl : l.Inside a) (rbm : Nat) :
    let out := (ring.tryReap (World.platform rbm) w).2
    out.1.Supplied l a size (armed + ring.headway out.1) out.2 := by
  have hout := reaped (World.platform rbm) ring w
  obtain rfl := h.size_eq
  generalize ring.tryReap (World.platform rbm) w = out at hout ⊢
  cases hout with
  | refused =>
    simp only [headway_self]
    exact h
  | @unopened r e r' w' active held access =>
    obtain ⟨t, rfl, haiming⟩ := h.hardware r held
    obtain ⟨hhead, t', harmed, hopened⟩ := haiming.accessBegin access
    have hheadway : ring.headway { ring with hw := some r' } = 0 := by
      rw [headway, held]
      simp only [hhead, SourceRing.distance, Nat.add_sub_cancel_left, Nat.mod_self]
    simp only [hheadway]
    exact of_aiming rfl rfl harmed hopened
  | @drained r r' w' result pass closed w'' n ring' out active held access drain hc hd =>
    obtain ⟨t, rfl, haiming⟩ := h.hardware r held
    have hdrain := Pass.drain_aiming (s := ⟨ring.enter r' w', ring.stats, []⟩) hl
      (by simpa [Pass.held, enter] using haiming) access
      ((World.platform rbm).hardware.availableCount r' w')
    rw [drain] at hdrain
    obtain ⟨t', haccepted, hle, hend⟩ := hdrain
    have hclosed := hend.accessEnd hl rbm
    have harmed := haiming.distance_eq hclosed haccepted hle
    have hsecured := concluded_custody ((World.secured_custody rbm).buffers _)
      (s := { pass with toSection := pass.toSection.close (World.platform rbm) })
      hclosed.secured hc hd
    have hmemory := concluded_memory hc hd
    obtain ⟨state, stats, rfl⟩ := concluded hc hd
    have hheadway : ring.headway { ring.leave (pass.toSection.close (World.platform rbm)) with
        state, stats } = r.distance r.head (pass.toSection.close (World.platform rbm)).hw.head := by
      rw [headway, held]
      rfl
    simp only [hheadway]
    refine of_aiming (by rfl) (by rfl) harmed ?_
    refine ⟨hclosed.layout, hclosed.tracks, ?_, hsecured, ?_⟩
    · rw [Machine.window, hmemory]
      exact hclosed.aimed
    · intro b hb
      exact hend.fits b (List.mem_append_left _ hb)

theorem Supplied.reap (h : ring.Supplied l a size armed w) (hl : l.Inside a) (rbm : Nat) :
    let out := ring.reap (World.platform rbm) w
    out.1.Supplied l a size (armed + ring.headway out.1) out.2 := by
  have htry := h.tryReap hl rbm
  simp only [Ring.reap]
  generalize ring.tryReap (World.platform rbm) w = out at htry ⊢
  obtain ⟨result, ring', w'⟩ := out
  cases result with
  | ok n => exact htry
  | error e =>
    refine ⟨htry.size_eq, htry.aimed, ?_⟩
    intro r hr
    obtain ⟨t, harmed, haiming⟩ := htry.hardware r hr
    exact ⟨t, harmed, haiming.layout, haiming.tracks, haiming.aimed, haiming.secured, haiming.fits⟩

theorem Supplied.setWindow (h : ring.Supplied l a size armed w) {window : Window}
    (hm : l.Aimed a size armed window) :
    ring.Supplied l a size armed (w.setWindow window) := by
  refine ⟨h.size_eq, hm, ?_⟩
  intro r hr
  obtain ⟨t, rfl, haiming⟩ := h.hardware r hr
  exact ⟨t, rfl, haiming.layout, haiming.tracks, hm, haiming.secured, haiming.fits⟩

theorem setup_supplied {params : RingParams} (hs : w.rest.slab.Sound)
    (h : Ring.setup (World.platform rbm) params w = (.ok ring, w')) :
    ∃ a r, ring.hw = some r ∧ r.layout.Inside a ∧
      ring.Supplied r.layout a params.bufferSize 0 w' := by
  obtain ⟨-, -, a, w₁, r, w₂, alloc, aligned, register, rfl, rfl⟩ := setup_eq_ok h
  obtain ⟨hsound, hmarked, htook, -⟩ := hs.alloc (World.alloc_slab alloc)
  have hrest := World.register_rest register
  have hanswer : (SourceRing.create (params.registration a.addr) rbm w₁.host.memory).1 = .ok r :=
    congrArg Prod.fst register
  have hlimit : a.addr + a.len ≤ addressLimit := by
    obtain ⟨start, count, hspan, -⟩ := hmarked
    exact Nat.le_trans hspan.within.2 hsound.limit
  obtain ⟨-, hinside, t, ht⟩ := SourceRing.sound_created hanswer rfl
    (htook.length hs.slot_pos).1 hlimit
  refine ⟨a, r, rfl, hinside, rfl, fun k hk => absurd hk (Nat.not_lt_zero k), ?_⟩
  intro r' hr
  cases hr
  rw [← hrest] at hsound hmarked
  have htracks := (SourceRing.Tracks.of_create hanswer).1
  refine ⟨_, rfl, rfl, htracks, fun k hk => absurd hk (Nat.not_lt_zero k),
    ⟨hsound, ?_, ?_⟩, ?_⟩
  · intro b hb
    cases hb
    exact hmarked
  · simp
  · simp

/-- What a pass retires lies outside of the ring memory. -/
theorem Supplied.retired_outside (h : ring.Supplied l a size armed w) (hl : l.Inside a)
    (held : ring.hw = some r) {r' : SourceRing} {w' : World}
    (access : (World.platform rbm).hardware.accessBegin r w = (.ok (), r', w')) (count : Nat)
    {b : DmaBuffer}
    (hb : b ∈ (Pass.drain (World.platform rbm) ring.geometry.bufferSize count
      ⟨ring.enter r' w', ring.stats, []⟩).2.retired) :
    a.Outside b.allocation.addr b.size := by
  obtain rfl := h.size_eq
  obtain ⟨t, rfl, haiming⟩ := h.hardware r held
  obtain ⟨t', -, -, hend⟩ := Pass.drain_aiming (s := ⟨ring.enter r' w', ring.stats, []⟩) hl
    (by simpa [Pass.held, enter] using haiming) access count
  have hheld : b ∈ (Pass.drain (World.platform rbm) ring.geometry.bufferSize count
      ⟨ring.enter r' w', ring.stats, []⟩).2.held := List.mem_append_right _ hb
  rw [(hend.fits b hheld).1]
  exact hend.outside hheld

end Ring

end FrameRing
