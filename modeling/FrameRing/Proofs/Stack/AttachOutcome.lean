import FrameRing.Proofs.Driven.Fill
import FrameRing.Proofs.Pool.Loans
import FrameRing.Proofs.SourceRing.Mirror
import FrameRing.Proofs.Stack.RingMemory

/-! # The outcome of an attach

A ring that is ready attaches exactly if the tail word says that nothing completed, the pool has a
buffer within reach for every slot but one and no entry faults. Otherwise it ends released, and the
pool is left with what it had marked before, less the ring memory. -/

namespace FrameRing

variable {rbm size n : Nat} {s₀ : Slab} {w w' : World}

namespace World

/-- What a section acquires and does not release is on loan. -/
theorem lent_invariant (rbm size : Nat) (s₀ : Slab) :
    SectionInvariant (platform rbm) size fun _ w held =>
      s₀.Lent w.rest.slab (held.map DmaBuffer.allocation) := by
  constructor
  case perm => exact fun h hp => h.perm (hp.map _)
  case acquire => exact fun h ha => h.acquire (acquire_slab ha)
  case acquire_error => exact fun h ha => (acquire_eq_error h.toSound ha).1 ▸ h
  case release =>
    intro r w b held h
    have hslab : (World.release b w).rest.slab = _ := release_slab b w
    change s₀.Lent (World.release b w).rest.slab _
    rw [hslab]
    exact h.release
  case record => exact fun h _ => h
  case nextEntry =>
    intro r w entry r' w' held h hn
    cases hn
    exact h
  case nextFreeEntry =>
    intro r w entry r' w' held h hn
    cases hn
    exact h
  case setEntry =>
    intro entry b cookie r w result r' w' held h hs
    cases hs
    exact h

theorem release_lent (bufs : List DmaBuffer)
    (h : s₀.Lent w.rest.slab (bufs.map DmaBuffer.allocation)) :
    s₀.Lent (bufs.foldl (fun w b => World.release b w) w).rest.slab [] := by
  induction bufs generalizing w with
  | nil => exact h
  | cons b bufs ih =>
    apply ih
    rw [release_slab]
    exact h.release

end World

/-- However a filling ends, what it holds of the pool is what lies in the slots. -/
theorem Section.fill_lent (s : Section World SourceRing DmaBuffer)
    (h : s₀.Lent s.world.rest.slab (s.table.buffers.map DmaBuffer.allocation))
    (rbm size count : Nat) :
    let out := (s.fill (World.platform rbm) size count).2
    s₀.Lent out.world.rest.slab (out.table.buffers.map DmaBuffer.allocation) := by
  simp only [fill]
  rcases hbegin : (World.platform rbm).hardware.accessBegin s.hw s.world with ⟨result, r, w⟩
  have hopened : s₀.Lent w.rest.slab (s.table.buffers.map DmaBuffer.allocation) := by
    cases hbegin
    exact h
  cases result with
  | error e => exact hopened
  | ok =>
    have hmany := armMany_invariant (s := { s with hw := r, world := w })
      (World.lent_invariant rbm size s₀) count hopened
    exact hmany

namespace Ring

variable {ring : Ring SourceRing DmaBuffer} {a : Allocation}

/-- A release gives back all that is on loan, and then the ring memory. -/
theorem releaseAll_busy (hs : ring.state ≠ .released) (hmem : ring.ringMem = some a)
    (h : s₀.Lent w.rest.slab (ring.table.buffers.map DmaBuffer.allocation)) (rbm : Nat) :
    (ring.releaseAll (World.platform rbm) w).2.rest.slab.busy = (s₀.dealloc a).2.busy := by
  have hback := World.release_lent ring.table.buffers h
  have hfreed := World.freeRingMemory_slab rbm a
    (ring.table.buffers.foldl (fun w b => World.release b w) w)
  rw [releaseAll, if_neg hs, hmem]
  change (freeRingMemory (World.platform rbm) a
    (ring.table.buffers.foldl (fun w b => World.release b w) w)).rest.slab.busy = _
  rw [hfreed]
  exact Slab.busy_dealloc_congr hback.base hback.slotSize hback.settled a

/-- A ring whose attach failed with `e`: it holds nothing any more, and the pool has back what it
lent, the ring memory included. -/
structure Unwound (a : Allocation) (w : World) (e : RingError)
    (out : Except RingError Unit × Ring SourceRing DmaBuffer × World) : Prop where
  result : out.1 = .error e
  state : out.2.1.state = .released
  hw : out.2.1.hw = none
  empty : ∀ i, out.2.1.table.isArmed i = false
  busy : out.2.2.rest.slab.busy = (w.rest.slab.dealloc a).2.busy

/-- A ring that got the buffers `acquired`, one for each slot but the last. -/
structure FullyArmed (n rbm : Nat) (r : SourceRing) (acquired : Nat → Except AllocError DmaBuffer)
    (out : Except RingError Unit × Ring SourceRing DmaBuffer × World) : Prop where
  result : out.1 = .ok ()
  state : out.2.1.state = .active
  cursor : out.2.1.cursor = ⟨n - 1, 0, n⟩
  armed : ∀ i, i + 1 < n → ∃ b bytes, acquired i = .ok b ∧
    out.2.1.table.buffer? i = some b ∧
    out.2.2.window.read (r.layout.positionAddr i) RingEntry.size = .ok bytes ∧
    (RingEntry.ofBytes bytes).busAddr = b.allocation.addr ∧
    (RingEntry.ofBytes bytes).cookie = i ∧ (RingEntry.ofBytes bytes).rbm = rbm

structure Fresh (n rbm : Nat) (a : Allocation) (r : SourceRing)
    (ring : Ring SourceRing DmaBuffer) : Prop where
  two_le : 2 ≤ n
  cookies : n - 1 ≤ RingEntry.maxCookie
  memory : ring.ringMem = some a
  held : ring.hw = some r
  ready : ring.state = .ready
  table : ring.table = .withCapacity n
  cursor : ring.cursor = .ofSize n
  inside : r.layout.Inside a
  entries : r.layout.numEntries = n
  rbm_lt : rbm < 1 <<< 3
  shape : ∃ flags threshold, r = ⟨r.layout, flags, threshold, rbm, 0, n - 1, 0, false⟩

theorem setup_fresh {params : RingParams} (hs : w.rest.slab.Sound)
    (h : Ring.setup (World.platform rbm) params w = (.ok ring, w')) :
    ∃ a r, ring.Fresh params.capacity rbm a r := by
  obtain ⟨valid, -, a, w₁, r, w₂, alloc, -, register, -, rfl⟩ := setup_eq_ok h
  obtain ⟨hn, hcookies, -⟩ := RingParams.validate_eq_ok valid
  obtain ⟨-, -, htook, -⟩ := hs.alloc (World.alloc_slab alloc)
  have hanswer : (SourceRing.create (params.registration a.addr) rbm w₁.host.memory).1 = .ok r :=
    congrArg Prod.fst register
  obtain ⟨hrbm, hlayout, hshape⟩ := SourceRing.create_shape hanswer
  obtain ⟨-, hentries⟩ := SourceRing.Tracks.of_create hanswer
  have hlen := (htook.length hs.slot_pos).1
  obtain ⟨start, hspan, -⟩ := htook
  have hlimit := hs.limit
  have hwithin := hspan.within.2
  refine ⟨a, r, hn, hcookies, rfl, rfl, rfl, rfl, rfl, ?_, hentries, ?_, _, _, hshape⟩
  · exact RingLayout.inside_of_ofBase hlayout hlen (Nat.le_trans hwithin hlimit)
  · exact Nat.lt_of_le_of_lt hrbm (by decide)

namespace Fresh

variable {r : SourceRing}

theorem blank (h : ring.Fresh n rbm a r) (w : World) :
    (ring.outset World.supply r 0 w).Blank n := by
  obtain ⟨flags, threshold, hshape⟩ := h.shape
  have hn := h.two_le
  constructor
  case filling =>
    change Filling n 0 ring.table ring.cursor
    rw [h.table, h.cursor]
    exact Filling.start (by omega)
  case entries => exact h.entries
  case inside => exact h.inside.extent
  case head =>
    change r.head = 0
    rw [hshape]
  case reapHead =>
    change r.reapHead + 1 = n
    rw [hshape]
    simp only
    omega
  case inAccess => rfl

theorem closed (h : ring.Fresh n rbm a r) : r.inAccess = false := by
  obtain ⟨flags, threshold, hshape⟩ := h.shape
  rw [hshape]

/-- The tail of a fresh ring is taken over exactly if its word is zero. -/
theorem loadTail_iff (h : ring.Fresh n rbm a r) (m : HostMemory) {tail : Nat} :
    r.loadTail m = .ok tail ↔ tail = 0 ∧ m.loadWord r.layout.tailAddr = .ok 0 := by
  obtain ⟨flags, threshold, hshape⟩ := h.shape
  have hn := h.two_le
  have hentries : r.numEntries = n := h.entries
  have hcached : r.cachedTail = 0 := by rw [hshape]
  have hhead : r.head = 0 := by rw [hshape]
  have hzero : SourceRing.pointerWord r.flags 0 = 0 := by
    rw [SourceRing.pointerWord]
    split
    · decide
    · rfl
  have hdistance (stop : Nat) (hstop : stop < n) : r.distance 0 stop = stop := by
    rw [SourceRing.distance, hentries, Nat.sub_zero, Nat.add_mod_right, Nat.mod_eq_of_lt hstop]
  rw [SourceRing.loadTail_eq_ok_iff, hcached, hhead, hentries]
  constructor
  · rintro ⟨word, hload, rfl, hlt, hle⟩
    rw [hdistance _ hlt, hdistance 0 (by omega)] at hle
    have htail : SourceRing.pointerWord r.flags word = 0 := by omega
    have hword := SourceRing.pointerWord_pointerWord r.flags (HostMemory.loadWord_lt hload)
    rw [htail, hzero] at hword
    exact ⟨htail, hword ▸ hload⟩
  · rintro ⟨rfl, hload⟩
    exact ⟨0, hload, hzero, by omega, Nat.le_refl _⟩

theorem refusalAt_eq_none (h : ring.Fresh n rbm a r) {i : Nat} (hi : i + 1 < n) :
    (ring.outset World.supply r 0 w).refusalAt i = none ↔
      ∃ b, World.supply.nth ring.geometry.bufferSize w.rest i = .ok b ∧
        b.allocation.addr ≤ RingEntry.maxBusAddr ∧
        w.host.memory.Writable (r.layout.positionAddr i) RingEntry.size := by
  have hcookies := h.cookies
  simp only [Outset.refusalAt, outset]
  cases hb : World.supply.nth ring.geometry.bufferSize w.rest i with
  | error cause => simp
  | ok b =>
    simp only [Option.map_eq_none_iff, SourceRing.obstacle_eq_none, Except.ok.injEq,
      exists_eq_left']
    constructor
    · rintro ⟨haddr, -, hwritable⟩
      exact ⟨haddr, hwritable⟩
    · rintro ⟨haddr, hwritable⟩
      exact ⟨haddr, by omega, hwritable⟩

theorem attach_failed (h : ring.Fresh n rbm a r) (hs : w.rest.slab.Sound) {e : RingError}
    {s : Section World SourceRing DmaBuffer}
    (fill : (ring.enter r w).fill (World.platform rbm) ring.geometry.bufferSize (n - 1) =
      (.error e, s)) : Unwound a w e (ring.attach (World.platform rbm) w) := by
  have hcapacity : ring.table.capacity = n := by rw [h.table, SlotTable.capacity_withCapacity]
  have hout : ring.attach (World.platform rbm) w =
      (.error e, (ring.leave s).releaseAll (World.platform rbm)
        ((World.platform rbm).record (.attachFailed s.cursor.writeIdx e) s.world)) := by
    simp only [attach, h.ready, h.held, hcapacity, fill]
    rfl
  have hne : (ring.leave s).state ≠ .released := by simp [leave, h.ready]
  have hbuffers : ring.table.buffers = [] := by rw [h.table, SlotTable.buffers_withCapacity]
  have hstart : w.rest.slab.Lent w.rest.slab (ring.table.buffers.map DmaBuffer.allocation) := by
    rw [hbuffers]
    exact hs.lent
  have hheld := Section.fill_lent (ring.enter r w) hstart rbm ring.geometry.bufferSize (n - 1)
  rw [fill] at hheld
  have hbusy := releaseAll_busy
    (w := (World.platform rbm).record (.attachFailed s.cursor.writeIdx e) s.world)
    hne h.memory hheld rbm
  rw [hout]
  constructor
  case result => rfl
  case state => exact releaseAll_state _ _
  case hw => simp only [Ring.releaseAll, if_neg hne]
  case empty => simp only [Ring.releaseAll, if_neg hne, SlotTable.isArmed_empty, implies_true]
  case busy => exact hbusy

/-- A filling that gets through leaves an active ring that the memory agrees with. -/
theorem attach_filled (h : ring.Fresh n rbm a r) {s : Section World SourceRing DmaBuffer}
    (fill : (ring.enter r w).fill (World.platform rbm) ring.geometry.bufferSize (n - 1) =
      (.ok (), s.close (World.platform rbm)))
    (filled : (ring.outset World.supply r 0 w).Filled n (n - 1) s) :
    FullyArmed n rbm r (World.supply.nth ring.geometry.bufferSize w.rest)
      (ring.attach (World.platform rbm) w) := by
  have hcapacity : ring.table.capacity = n := by rw [h.table, SlotTable.capacity_withCapacity]
  have hrbm : r.rbm = rbm := by
    obtain ⟨flags, threshold, hshape⟩ := h.shape
    rw [hshape]
  have hout : ring.attach (World.platform rbm) w =
      (.ok (), { ring.leave (s.close (World.platform rbm)) with state := .active },
        (World.platform rbm).record
          (.attached (ring.leave (s.close (World.platform rbm))).inUseCount)
          (s.close (World.platform rbm)).world) := by
    simp only [attach, h.ready, h.held, hcapacity, fill]
  rw [hout]
  refine ⟨rfl, rfl, filled.filling.cursor_eq, ?_⟩
  intro i hi
  obtain ⟨b, entry, hb, hbuffer, hfields, hread⟩ :=
    filled.close (World.overSharedMemory rbm) (h.blank w) (j := i) (by omega)
  obtain ⟨haddr, hcookie, hmanager⟩ := RingEntry.ofFields_eq_ok hfields
  refine ⟨b, entry.toBytes, hb, hbuffer, hread, ?_⟩
  rw [RingEntry.ofBytes_toBytes]
  refine ⟨haddr, hcookie, hmanager.trans ?_⟩
  change r.rbm % _ = rbm
  rw [hrbm, Nat.mod_eq_of_lt h.rbm_lt]

/-- An attach arms every slot but one, or fails with what stood in the way first. -/
theorem attach_cases (h : ring.Fresh n rbm a r) (hs : w.rest.slab.Sound) :
    let refusalAt := (ring.outset World.supply r 0 w).refusalAt
    let out := ring.attach (World.platform rbm) w
    (r.loadTail w.host.memory = .ok 0 ∧ (∀ i, i + 1 < n → refusalAt i = none) ∧
      FullyArmed n rbm r (World.supply.nth ring.geometry.bufferSize w.rest) out) ∨
    ∃ e, Unwound a w e out ∧
      ((∃ cause, r.loadTail w.host.memory = .error cause ∧ e = .hardware cause) ∨
        (r.loadTail w.host.memory = .ok 0 ∧ ∃ m, m + 1 < n ∧ (∀ i, i < m → refusalAt i = none) ∧
          refusalAt m = some e)) := by
  intro refusalAt out
  rcases hload : r.loadTail w.host.memory with cause | tail
  · exact .inr ⟨.hardware cause, h.attach_failed hs
      (Section.fill_unopened (World.overSharedMemory rbm) h.closed hload _ _),
      .inl ⟨cause, rfl, rfl⟩⟩
  · obtain ⟨rfl, -⟩ := (h.loadTail_iff _).mp hload
    rcases Section.fill_outcome (World.overSharedMemory rbm) h.closed hload (h.blank w) with
      ⟨hnone, hok, s, hfilled, hs'⟩ | ⟨m, e, hm, hnone, he, hfail⟩
    · exact .inl ⟨rfl, hnone, h.attach_filled (Prod.ext hok hs') hfilled⟩
    · exact .inr ⟨e, h.attach_failed hs (Prod.ext hfail rfl), .inr ⟨rfl, m, hm, hnone, he⟩⟩

end Fresh

/-- Whatever the memory, the faults and the state of the pool are when a ring that is ready is
attached: it is attached exactly if the tail word is zero and every slot but one gets a buffer that
its entry can name and be written for, and then slots and entries hold these buffers in order.
Otherwise the first refusal is reported, the ring is released, and the pool has the slots marked
that it had before, less those of the ring memory unless somebody else freed that already. -/
theorem attach_outcome {slotSize base len : Nat} {slab : Slab}
    (hc : Slab.create slotSize base len = .ok slab)
    (hl : base + len / slotSize * slotSize < addressLimit) (before : List Slab.Call)
    {host : Host} {delivered : Array DmaBuffer} {room : Nat} {params : RingParams}
    {ring₀ : Ring SourceRing DmaBuffer} {w₁ : World}
    (hs : Ring.setup (World.platform rbm) params
      ⟨host, ((Slab.Tenancy.start slab).run before).slab, delivered, room⟩ = (.ok ring₀, w₁))
    (moves : List (Move World))
    (ready : (Ring.run (World.platform rbm) (ring₀, w₁) moves).1.state = .ready)
    (calls : List Slab.Call)
    (hpool : (Ring.run (World.platform rbm) (ring₀, w₁) moves).2.rest.slab =
      ((Slab.Tenancy.start slab).run calls).slab) :
    let ring := (Ring.run (World.platform rbm) (ring₀, w₁) moves).1
    let w := (Ring.run (World.platform rbm) (ring₀, w₁) moves).2
    let n := params.capacity
    let out := ring.attach (World.platform rbm) w
    let acquired := World.supply.nth ring.geometry.bufferSize w.rest
    ∃ a r, (ring.ringMem = some a ∧ ring.hw = some r) ∧
      (out.1 = .ok () ↔
        w.host.memory.loadWord r.layout.tailAddr = .ok 0 ∧
        ∀ i, i + 1 < n → ∃ b, acquired i = .ok b ∧
          b.allocation.addr ≤ RingEntry.maxBusAddr ∧
          w.host.memory.Writable (r.layout.positionAddr i) RingEntry.size) ∧
      (out.1 = .ok () →
        out.2.1.state = .active ∧ out.2.1.cursor = ⟨n - 1, 0, n⟩ ∧
        ∀ i, i + 1 < n → ∃ b bytes, acquired i = .ok b ∧
          out.2.1.table.buffer? i = some b ∧
          out.2.2.window.read (r.layout.positionAddr i) RingEntry.size = .ok bytes ∧
          (RingEntry.ofBytes bytes).busAddr = b.allocation.addr ∧
          (RingEntry.ofBytes bytes).cookie = i ∧ (RingEntry.ofBytes bytes).rbm = rbm) ∧
      ∀ e, out.1 = .error e →
        ((∀ cause, r.loadTail w.host.memory = .error cause → e = .hardware cause) ∧
          (∀ tail, r.loadTail w.host.memory = .ok tail →
            ∃ m, m + 1 < n ∧
              (∀ i, i < m → (ring.outset World.supply r 0 w).refusalAt i = none) ∧
              (ring.outset World.supply r 0 w).refusalAt m = some e)) ∧
        (out.2.1.state = .released ∧ out.2.1.hw = none ∧
          ∀ i, out.2.1.table.isArmed i = false) ∧
        out.2.2.rest.slab.busy = (w.rest.slab.dealloc a).2.busy ∧
        (w.rest.slab.Marked a → ∀ i, out.2.2.rest.slab.busy[i]? =
          if w.rest.slab.SlotIn a i then some false else w.rest.slab.busy[i]?) := by
  intro ring w n out acquired
  have hcreated : slab.Sound := (Slab.owns_create hc (Nat.le_of_lt hl)).2.2.toSound
  have hbefore := (Slab.Tenancy.run_sound (t := .start slab) hcreated before).1
  have hsound : w.rest.slab.Sound := by
    have hrun := (Slab.Tenancy.run_sound (t := .start slab) hcreated calls).1
    rwa [← hpool] at hrun
  obtain ⟨a, r, hfresh⟩ := setup_fresh hbefore hs
  have hsame : ring = ring₀ := run_ready ring₀ w₁ moves ready
  rw [← hsame] at hfresh
  refine ⟨a, r, ⟨hfresh.memory, hfresh.held⟩, ?_⟩
  rcases hfresh.attach_cases hsound with ⟨hload, hnone, hfull⟩ | ⟨e, hunwound, hcause⟩
  · refine ⟨⟨?_, ?_⟩, ?_, ?_⟩
    · intro
      exact ⟨((hfresh.loadTail_iff _).mp hload).2,
        fun i hi => (hfresh.refusalAt_eq_none hi).mp (hnone i hi)⟩
    · intro
      exact hfull.result
    · intro
      exact ⟨hfull.state, hfull.cursor, hfull.armed⟩
    · intro e he
      cases hfull.result.symm.trans he
  · have hnot : ¬ out.1 = .ok () := by
      intro hok
      cases hok.symm.trans hunwound.result
    refine ⟨⟨fun hok => absurd hok hnot, ?_⟩, fun hok => absurd hok hnot, ?_⟩
    · rintro ⟨hword, hall⟩
      have htail := (hfresh.loadTail_iff w.host.memory).mpr ⟨rfl, hword⟩
      rcases hcause with ⟨cause, hload, -⟩ | ⟨-, m, hm, -, hrefused⟩
      · cases hload.symm.trans htail
      · cases ((hfresh.refusalAt_eq_none hm).mpr (hall m hm)).symm.trans hrefused
    · intro e' he'
      obtain rfl : e' = e := Except.error.inj (he'.symm.trans hunwound.result)
      refine ⟨⟨?_, ?_⟩, ⟨hunwound.state, hunwound.hw, hunwound.empty⟩, hunwound.busy, ?_⟩
      · intro cause hload
        rcases hcause with ⟨cause', hload', rfl⟩ | ⟨hload', -⟩
        · rw [Except.error.inj (hload.symm.trans hload')]
        · cases hload.symm.trans hload'
      · intro tail hload
        rcases hcause with ⟨cause, hload', -⟩ | ⟨-, hfirst⟩
        · cases hload.symm.trans hload'
        · exact hfirst
      · intro hmarked i
        rw [hunwound.busy]
        exact hmarked.busy_dealloc hsound i

/-- Another user has left buffers for two of three slots. -/
theorem attach_outcome_dry :
    let slab : Slab := ⟨0, 64, Array.replicate 6 false, none⟩
    let moves : List (Move World) := [.disturb fun w => (World.alloc 192 w).2]
    ∃ ring₀ w₁, Ring.setup (World.platform 3) (.ofSizes 4 8 12)
        ⟨.ofWindow (.zeroed 0 384), slab, #[], 8⟩ = (.ok ring₀, w₁) ∧
      let s := Ring.run (World.platform 3) (ring₀, w₁) moves
      let out := s.1.attach (World.platform 3) s.2
      s.1.state = .ready ∧
        s.2.rest.slab = ((Slab.Tenancy.start slab).run [.alloc 64, .alloc 192]).slab ∧
        out.1 = .error (.allocation .outOfMemory) ∧ out.2.1.state = .released ∧
        ∀ i, out.2.2.rest.slab.busy[i]? =
          if s.2.rest.slab.SlotIn ⟨0, 64⟩ i then some false else s.2.rest.slab.busy[i]? := by
  intro slab moves
  have hup : ∃ ring₀ w₁, Ring.setup (World.platform 3) (.ofSizes 4 8 12)
        ⟨.ofWindow (.zeroed 0 384), slab, #[], 8⟩ = (.ok ring₀, w₁) ∧
      let s := Ring.run (World.platform 3) (ring₀, w₁) moves
      let r : SourceRing := ⟨⟨0, 4, 8, 32, 36⟩, .empty, 0, 3, 0, 3, 0, false⟩
      let o := s.1.outset World.supply r 0 s.2
      s.1.state = .ready ∧
        s.2.rest.slab = ((Slab.Tenancy.start slab).run [.alloc 64, .alloc 192]).slab ∧
        s.1.ringMem = some ⟨0, 64⟩ ∧ s.1.hw = some r ∧
        (r.loadTail s.2.host.memory).toOption = some 0 ∧
        o.refusalAt 0 = none ∧ o.refusalAt 1 = none ∧
        o.refusalAt 2 = some (.allocation .outOfMemory) ∧
        (s.1.attach (World.platform 3) s.2).2.1.state = .released := by
    decide +kernel
  obtain ⟨ring₀, w₁, hs, ready, hpool, hmem, held, htail, hfirst, hsecond, hthird, hend⟩ := hup
  have hc : Slab.create 64 0 384 = .ok slab := rfl
  have hlimit : 0 + 384 / 64 * 64 < addressLimit := by decide
  obtain ⟨a, r, ⟨ha, hr⟩, -, hok, hfail⟩ :=
    attach_outcome hc hlimit [] hs moves ready [.alloc 64, .alloc 192] hpool
  obtain rfl : ⟨0, 64⟩ = a := Option.some.inj (hmem.symm.trans ha)
  obtain rfl := Option.some.inj (held.symm.trans hr)
  have hl : SourceRing.loadTail ⟨⟨0, 4, 8, 32, 36⟩, .empty, 0, 3, 0, 3, 0, false⟩
      (Ring.run (World.platform 3) (ring₀, w₁) moves).2.host.memory = .ok 0 :=
    eq_ok_of_toOption htail
  have hmarked : (Ring.run (World.platform 3) (ring₀, w₁) moves).2.rest.slab.Marked ⟨0, 64⟩ := by
    rw [hpool]
    exact ⟨0, 1, ⟨by decide, by decide, by decide, by decide⟩, by decide⟩
  rcases hresult : (attach (World.platform 3) (Ring.run (World.platform 3) (ring₀, w₁) moves).1
    (Ring.run (World.platform 3) (ring₀, w₁) moves).2).1 with e | _
  · obtain ⟨⟨-, hrefused⟩, -, -, hbusy⟩ := hfail e hresult
    obtain ⟨m, hm, hpast, hat⟩ := hrefused 0 hl
    obtain rfl : m = 2 := by
      have hm : m + 1 < 4 := hm
      have hne₀ : m ≠ 0 := by
        rintro rfl
        cases hfirst.symm.trans hat
      have hne₁ : m ≠ 1 := by
        rintro rfl
        cases hsecond.symm.trans hat
      omega
    obtain rfl : e = .allocation .outOfMemory := Option.some.inj (hat.symm.trans hthird)
    exact ⟨ring₀, w₁, hs, ready, hpool, hresult, hend, hbusy hmarked⟩
  · cases (hok hresult).1.symm.trans hend

end Ring

end FrameRing
