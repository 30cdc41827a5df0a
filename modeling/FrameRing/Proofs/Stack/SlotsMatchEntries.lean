import FrameRing.Proofs.Stack.Consistent

/-! # Slots and entries match

A ring's cursors and the pointers of its hardware ring agree in any surroundings. With an orderly
device over healthy memory, the entries say what the slots say, and no reap makes a ring faulted. -/

namespace FrameRing

variable {base capacity rbm : Nat}

theorem Act.Orderly.of_none {act : Act} (h : act.Orderly none) (fw : Option Firmware) :
    act.Orderly fw := by
  cases act with
  | pool move => trivial
  | drop idx => trivial
  | intoBytes idx => trivial
  | device fw' move => cases h
  | store addr bytes =>
    obtain ⟨fw', hfw, -⟩ := h
    cases hfw
  | memory change => cases h
  | heap room => trivial

theorem OrderlyAgenda.of_none {agenda : List (List Act)} (h : OrderlyAgenda none agenda)
    (fw : Option Firmware) : OrderlyAgenda fw agenda :=
  fun todo ht act ha => (h todo ht act ha).of_none fw

namespace Scene

variable {s s' : Scene} {live : List Allocation}

theorem acts_quiet {todo : List Act} (h : ∀ act ∈ todo, act.Orderly none) :
    (s.acts todo).world.host.memory = s.world.host.memory ∧ (s.acts todo).agenda = s.agenda := by
  induction todo generalizing s with
  | nil => exact ⟨rfl, rfl⟩
  | cons act todo ih =>
    obtain ⟨hmemory, hagenda⟩ := ih (s := s.act act) fun a ha => h a (List.mem_cons_of_mem act ha)
    exact ⟨hmemory.trans (s.act_memory (h act List.mem_cons_self)),
      hagenda.trans (s.act_agenda act)⟩

theorem turn_quiet (h : OrderlyAgenda none s.agenda) :
    s.turn.world.host.memory = s.world.host.memory ∧ OrderlyAgenda none s.turn.agenda := by
  unfold Scene.turn
  split
  · exact ⟨rfl, h⟩
  · rename_i todo agenda heq
    rw [heq] at h
    obtain ⟨hmemory, hagenda⟩ := acts_quiet (s := { s with agenda }) (h todo List.mem_cons_self)
    refine ⟨hmemory, ?_⟩
    rw [hagenda]
    exact fun group hg => h group (List.mem_cons_of_mem todo hg)

theorem alloc_quiet (hk : s.Keeps base capacity live) (ha : OrderlyAgenda none s.agenda)
    {len : Nat} {a : Allocation} (h : s.call (World.alloc len) = (.ok a, s')) :
    s'.world.host.memory = s.world.host.memory ∧ OrderlyAgenda none s'.agenda ∧ len ≤ a.len := by
  obtain ⟨hmemory, hagenda⟩ := turn_quiet ha
  simp only [call] at h
  rcases hw : World.alloc len s.turn.world with ⟨result, world⟩
  rw [hw] at h
  cases h
  obtain ⟨slab, rfl, -, -, hlen⟩ := World.alloc_eq_ok hk.turn.toOwns hw
  exact ⟨hmemory, hagenda, hlen⟩

theorem register_quiet (ha : OrderlyAgenda none s.agenda) {reg : Registration} {r : SourceRing}
    (h : s.call (SourceRing.registrar rbm reg) = (.ok r, s')) :
    SourceRing.create reg rbm s.world.host.memory = (.ok r, s'.world.host.memory) ∧
      OrderlyAgenda none s'.agenda := by
  obtain ⟨hmemory, hagenda⟩ := turn_quiet ha
  have hcreate := register_eq_ok h
  obtain rfl : (s.call (SourceRing.registrar rbm reg)).2 = s' := congrArg Prod.snd h
  rw [hmemory] at hcreate
  exact ⟨hcreate, hagenda⟩

theorem consistent_created {m : HostMemory} {reg : Registration} {r : SourceRing} {a : Allocation}
    (hcreate : SourceRing.create reg rbm m = (.ok r, s.world.host.memory)) (hf : m.faults = [])
    (hm : m.window.Covers base capacity) (hreach : base + capacity ≤ 1 <<< 40)
    (hk : s.Account base capacity [] (some a) []) (ha : OrderlyAgenda none s.agenda)
    (haddr : reg.ringBase = a.addr)
    (hlen : RingLayout.querySize reg.numEntries reg.entrySize ≤ a.len)
    (hn : reg.numEntries ≤ 1 <<< 21) (size : Nat) :
    s.Consistent ⟨Firmware.behind r size, a, base, capacity, rbm⟩ 0 [] r ⟨0, 0, 0⟩ [] := by
  obtain ⟨hrbm, hlayout, hshape⟩ := SourceRing.create_shape (congrArg Prod.fst hcreate)
  have hentries : r.numEntries = reg.numEntries := (RingLayout.ofBase_eq_ok hlayout).2
  have hin : base ≤ a.addr ∧ a.addr + a.len ≤ base + capacity := by
    have hwithin := hk.toOwns.within (a := a) (by simp)
    rwa [hk.base_eq, hk.capacity_eq] at hwithin
  have hinside := RingLayout.inside_of_ofBase (haddr ▸ hlayout) hlen
    (by rw [addressLimit]; omega)
  obtain ⟨window, hwindow, hbase, hsize, hholds, hhead, htail⟩ :=
    SourceRing.create_holds hcreate hf (hm.sub hin.1 hin.2) hinside
  have hw : s.world.window = window := congrArg HostMemory.window hwindow
  have hmax : RingEntry.maxRbm = (1 <<< 3) - 1 := rfl
  have hr : r.rbm % (1 <<< 3) = rbm := by
    rw [hshape]
    exact Nat.mod_eq_of_lt (show rbm < 1 <<< 3 by omega)
  have hzero : 0 % r.numEntries = 0 := Nat.zero_mod _
  exact
    { wired := rfl
      rbm_eq := hr
      holds := hw ▸ hholds
      inside := hinside
      small := hentries ▸ hn
      shared := ⟨0, Nat.le_refl 0, Nat.le_refl 0, by rw [hw, hzero]; exact hhead,
        by rw [hw, hzero]; exact htail⟩
      published_le := Nat.le_refl 0
      sized := fun k b _ hb => by cases hb
      account := hk
      healthy := by rw [hwindow, hf]
      mapped := by
        rw [hw, Window.Covers, hbase, hsize]
        exact hm
      reach := hreach
      agenda := ha.of_none _ }

/-- A fresh scene over healthy memory, with all of the pool mapped and within reach of ring
entries. Other users may have been at work in it, but nobody writes to memory. -/
inductive Undisturbed : Scene → Prop where
  | mk {window : Window} {slotSize base len : Nat} {w : World} {before : List Act}
    {meanwhile : List (List Act)} (create : World.create window slotSize base len = .ok w)
    (mapped : window.Covers base (len / slotSize * slotSize))
    (reach : base + len / slotSize * slotSize ≤ 1 <<< 40)
    (quiet : ∀ act ∈ before, act.Orderly none) (agenda : OrderlyAgenda none meanwhile) :
    Undisturbed (((start w).acts before).expect meanwhile)

theorem Undisturbed.setting (h : s.Undisturbed) :
    ∃ base capacity, s.Keeps base capacity [] ∧ s.world.host.memory.faults = [] ∧
      s.world.window.Covers base capacity ∧ base + capacity ≤ 1 <<< 40 ∧
      OrderlyAgenda none s.agenda := by
  cases h with
  | @mk window slotSize base len w before meanwhile create mapped reach quiet agenda =>
    have hstart : (start w).world.host.memory = ⟨window, []⟩ := by
      unfold World.create at create
      split at create
      · cases create
      · cases create
        rfl
    have hmemory := (acts_quiet quiet).1.trans hstart
    have hkept : (start w).Keeps base (len / slotSize * slotSize) [] :=
      start_keeps create (by rw [addressLimit]; omega)
    refine ⟨base, len / slotSize * slotSize, hkept.acts before, ?_, ?_, reach, agenda⟩
    · change ((start w).acts before).world.host.memory.faults = []
      rw [hmemory]
    · change ((start w).acts before).world.host.memory.window.Covers _ _
      rw [hmemory]
      exact mapped

end Scene

namespace Ring

variable {ring : Ring SourceRing DmaBuffer} {s s' : Scene} {r : SourceRing}

/-- A ring that was set up where nobody writes to memory agrees with it. -/
theorem setup_consistent {params : RingParams} (hk : s.Keeps base capacity [])
    (hf : s.world.host.memory.faults = []) (hm : s.world.window.Covers base capacity)
    (hreach : base + capacity ≤ 1 <<< 40) (ha : OrderlyAgenda none s.agenda)
    (hs : Ring.setup (Scene.platform rbm) params s = (.ok ring, s')) (hr : ring.hw = some r) :
    ∃ a, ring.Consistent ⟨Firmware.behind r params.bufferSize, a, base, capacity, rbm⟩ s' := by
  have haccount : Scene.Account base capacity [] s' ring.ringMem ring.table.buffers := by
    rcases setup_custody (Scene.platform_custody rbm base capacity []) hk hs with
      ⟨e, he, -⟩ | ⟨ring', hok, hheld⟩
    · cases he
    · cases hok
      exact hheld.account
  obtain ⟨valid, -, a, s₁, r', s₂, alloc, aligned, register, hs', rfl⟩ := setup_eq_ok hs
  cases hr
  rw [SlotTable.buffers_withCapacity] at haccount
  obtain ⟨htwo, -⟩ := RingParams.validate_eq_ok valid
  obtain ⟨hmemory, hagenda, hlen⟩ := Scene.alloc_quiet hk ha alloc
  obtain ⟨hcreate, hagenda'⟩ := Scene.register_quiet hagenda register
  rw [hmemory] at hcreate
  obtain ⟨-, hlayout, hshape⟩ := SourceRing.create_shape (congrArg Prod.fst hcreate)
  have hentries : r.layout.numEntries = params.capacity := (RingLayout.ofBase_eq_ok hlayout).2
  have hsame : s'.world.host.memory = s₂.world.host.memory := by rw [hs']; rfl
  have hsame' : s'.agenda = s₂.agenda := by rw [hs']; rfl
  rw [← hsame] at hcreate
  rw [← hsame'] at hagenda'
  refine ⟨a, .ready rfl ⟨rfl, rfl, ?_, ?_, ?_⟩⟩
  · change r.inAccess = false
    rw [hshape]
  · exact Scene.consistent_created hcreate hf hm hreach haccount hagenda' rfl hlen
      (RingParams.capacity_le valid) params.bufferSize
  · change SlotsInOrder r.layout.numEntries 0 [] (SlotTable.withCapacity params.capacity)
      (.ofSize params.capacity)
    rw [hentries]
    exact SlotsInOrder.start (by omega)

/-- The head word says where the ring arms next, and the entries from the oldest on name the
buffers in their slots. -/
structure SlotsMatchEntries (n rbm : Nat) (fw : Firmware) (ring : Ring SourceRing DmaBuffer)
    (m : Window) : Prop where
  head : m.loadWord fw.layout.headAddr = .ok (SourceRing.pointerWord fw.flags ring.cursor.writeIdx)
  entries : ∀ k, k < n - 1 →
    let i := (ring.cursor.readIdx + k) % n
    ∃ slot b addr bytes, ring.slot? i = some slot ∧ slot.buffer = some b ∧
      fw.layout.entryAddr? i = some addr ∧ m.read addr RingEntry.size = .ok bytes ∧
      (RingEntry.ofBytes bytes).busAddr = RxBuffer.busAddr b ∧
      (RingEntry.ofBytes bytes).cookie = i ∧ (RingEntry.ofBytes bytes).rbm = rbm

variable {site : Site} {t : Tally} {posted : List DmaBuffer}

theorem AtWork.full (h : ring.AtWork site r t posted s)
    (hrot : Rotation site.entries ring.table ring.cursor) :
    posted.length + 1 = t.reaped + site.entries := by
  have hle := h.slotsInOrder.reaped_le
  have harm := h.scene.holds.armed_lt
  rw [← h.scene.length_posted, h.scene.entries_eq] at harm
  by_contra hne
  apply position_ne (n := site.entries) (a := t.reaped) (b := posted.length + 1)
  · omega
  · omega
  · rw [← h.slotsInOrder.readIdx_eq, hrot.read, h.slotsInOrder.writeIdx_eq, Nat.mod_add_mod]

theorem AtWork.slotsMatchEntries (h : ring.AtWork site r t posted s)
    (hrot : Rotation site.entries ring.table ring.cursor) :
    SlotsMatchEntries site.entries site.rbm site.firmware ring s.world.window := by
  have hfull := h.full hrot
  have hscene := h.scene
  have hentries := hscene.entries_eq
  have hlayout : site.firmware.layout = r.layout := congrArg Firmware.layout hscene.wired
  have hflags : site.firmware.flags = r.flags := congrArg Firmware.flags hscene.wired
  have hcov := hscene.covers
  have hw := hscene.inside.words
  constructor
  · obtain ⟨consumed, -, -, hshared⟩ := hscene.shared
    have hsmall := hscene.small
    have hlt : t.armed % r.numEntries < r.numEntries := hscene.holds.position_lt t.armed
    have hwrite : ring.cursor.writeIdx = t.armed % r.numEntries := by
      rw [hentries, ← hscene.length_posted, h.slotsInOrder.writeIdx_eq]
    rw [hlayout, hflags, hwrite]
    exact (Window.loadWord_eq_ok_iff (SourceRing.pointerWord_lt (by omega))).mpr
      ⟨hcov.sub (by omega) (by omega), hshared.head⟩
  · intro k hk i
    have hi : i = (t.reaped + k) % r.numEntries := by
      rw [hentries, ← Nat.mod_add_mod, ← h.slotsInOrder.readIdx_eq]
    obtain ⟨b, hb⟩ : ∃ b, posted[t.reaped + k]? = some b :=
      ⟨_, List.getElem?_eq_getElem (show t.reaped + k < posted.length by omega)⟩
    obtain ⟨slot, hslot, hbuf⟩ := h.slotsInOrder.slots _ b (Nat.le_add_right _ _) hb
    obtain ⟨entry, hfields, hshown⟩ := hscene.holds.shown (t.reaped + k) b.allocation.addr
      ((t.reaped + k) % r.numEntries) (Nat.le_add_right _ _) (by rw [getElem?_armedAs, hb]; rfl)
    obtain ⟨haddr, hcookie, hrbm⟩ := RingEntry.ofFields_eq_ok hfields
    have hlt := hscene.holds.position_lt (t.reaped + k)
    have hin := hscene.inside.entry hlt
    have hread := Window.read_eq_ok_iff.mpr
      ⟨hcov.sub hin.1 (by omega), RingEntry.length_toBytes entry, hshown⟩
    rw [hi]
    refine ⟨slot, b, _, entry.toBytes, ?_, hbuf, ?_, hread, ?_⟩
    · rw [hentries]
      exact hslot
    · rw [hlayout]
      exact hscene.inside.entryAddr? hlt
    · rw [RingEntry.ofBytes_toBytes]
      exact ⟨haddr, hcookie, hrbm.trans hscene.rbm_eq⟩

theorem Consistent.not_faulted (h : ring.Consistent site s) : ring.state ≠ .faulted := by
  cases h with
  | ready state => simp [state]
  | active state => simp [state]
  | released state => simp [state]

/-- Whatever is written and whichever accesses fail, a ring arms and reaps the same slots and
entries. With an orderly device over healthy memory, what it armed lies in memory as its slots say,
and no reap takes host and device to disagree. -/
theorem run_keeps_slots_matched {params : RingParams}
    (hs : Ring.setup (Scene.platform rbm) params s = (.ok ring, s')) (moves : List (Move Scene)) :
    let n := params.capacity
    let out := Ring.run (Scene.platform rbm) (ring, s') moves
    (out.1.state = .active ∨ out.1.state = .faulted →
      ∃ r, out.1.hw = some r ∧ r.head = out.1.cursor.writeIdx ∧
        (r.reapHead + 1) % n = out.1.cursor.readIdx) ∧
    ∀ r, ring.hw = some r → s.Undisturbed →
      let fw := Firmware.behind r params.bufferSize
      (∀ move ∈ moves, move.Orderly fw) →
      (out.1.state = .active → out.1.SlotsMatchEntries n rbm fw out.2.world.window) ∧
      out.1.state ≠ .faulted ∧
      ∀ meanwhile, OrderlyAgenda (some fw) meanwhile →
        let reap := out.1.tryReap (Scene.platform rbm) (out.2.expect meanwhile)
        (∀ cookie expected, reap.1 ≠ .error (.desync cookie expected)) ∧
          reap.2.1.state ≠ .faulted := by
  intro n out
  obtain ⟨hn, hpaced⟩ := setup_paced hs
  have hout : out.1.Paced n := run_paced hpaced hn moves
  constructor
  · intro hstate
    have hne : out.1.state ≠ .released := by
      rcases hstate with h | h <;> simp [h]
    obtain ⟨r, hr⟩ := hout.held hne
    have hlock := hout.lockstep r hr
    refine ⟨r, hr, hlock.next, ?_⟩
    rw [← hlock.oldest, SourceRing.next, hlock.entries]
  · intro r hr hquiet fw horderly
    have hentries : r.numEntries = n := (hpaced.lockstep r hr).entries
    obtain ⟨a, base, capacity, hin⟩ : ∃ a base capacity,
        ring.Consistent ⟨fw, a, base, capacity, rbm⟩ s' := by
      obtain ⟨base, capacity, hk, hf, hm, hreach, ha⟩ := hquiet.setting
      obtain ⟨a, hin⟩ := setup_consistent hk hf hm hreach ha hs hr
      exact ⟨a, base, capacity, hin⟩
    have hconsistent := run_consistent hin rbm horderly
    refine ⟨?_, hconsistent.not_faulted, ?_⟩
    · intro hactive
      have hrot := hout.disciplined.rotation hactive
      rw [← hentries] at hrot ⊢
      cases hconsistent with
      | ready state => cases state.symm.trans hactive
      | active state work => exact work.slotsMatchEntries hrot
      | released state => cases state.symm.trans hactive
    · intro meanwhile hmeanwhile reap
      obtain ⟨hnext, hanswer⟩ :=
        Consistent.tryReap (hconsistent.through fun hs => hs.expect hmeanwhile) rbm
      refine ⟨?_, hnext.not_faulted⟩
      intro cookie expected hdesync
      rcases hanswer with ⟨-, k, hok⟩ | ⟨-, e, he, hrefusal⟩
      · cases hdesync.symm.trans hok
      · cases hdesync.symm.trans he
        cases hrefusal

/-- A completion that waits while the pool is dry and is renewed once it is not. -/
theorem run_keeps_slots_matched_refill :
    let w : World := .fresh (.zeroed 0 512) ⟨0, 64, Array.replicate 8 false, none⟩
    let scene := ((Scene.start w).acts [.pool (.alloc 100)]).expect [[.pool (.alloc 64)]]
    let fw : Firmware := ⟨⟨192, 3, 8, 216, 220⟩, .empty, 64⟩
    let moves : List (Move Scene) :=
      [.operate .attach, .disturb (·.act (.device fw (.fill 0 0 [7, 8]))),
        .disturb (·.expect [[.device fw (.advance 1), .store 256 [9], .pool (.alloc 128)]]),
        .operate .tryReap,
        .disturb (·.act (.pool (.free 0))), .operate .reap]
    ∃ ring s, Ring.setup (Scene.platform 3) (.ofSizes 3 8 64) scene = (.ok ring, s) ∧
      let out := Ring.run (Scene.platform 3) (ring, s) moves
      out.1.state = .active ∧ out.1.cursor = ⟨0, 1, 3⟩ ∧ out.1.stats.backpressure = 1 ∧
        out.1.SlotsMatchEntries 3 3 fw out.2.world.window := by
  intro w scene fw moves
  have hup : ∃ ring s, Ring.setup (Scene.platform 3) (.ofSizes 3 8 64) scene = (.ok ring, s) ∧
      ring.hw = some ⟨fw.layout, .empty, 0, 3, 0, 2, 0, false⟩ ∧
      let out := Ring.run (Scene.platform 3) (ring, s) moves
      out.1.state = .active ∧ out.1.cursor = ⟨0, 1, 3⟩ ∧ out.1.stats.backpressure = 1 := by
    decide +kernel
  have hquiet : scene.Undisturbed := by
    apply Scene.Undisturbed.mk (show World.create (.zeroed 0 512) 64 0 512 = .ok w from rfl)
    all_goals decide +kernel
  have hmoves : ∀ move ∈ moves, move.Orderly fw := by
    simp only [moves, List.forall_mem_cons]
    exact ⟨.operate _, .act rfl, .expect (by decide), .operate _, .act trivial, .operate _,
      by simp⟩
  obtain ⟨ring, s, hs, hr, hactive, hcursor, hdry⟩ := hup
  refine ⟨ring, s, hs, hactive, hcursor, hdry, ?_⟩
  exact ((run_keeps_slots_matched hs moves).2 _ hr hquiet hmoves).1 hactive

end Ring

end FrameRing
