import FrameRing.Proofs.SourceRing.Alike
import FrameRing.Proofs.Stack.Beside
import FrameRing.Proofs.Stack.Confinement
import FrameRing.Proofs.Stack.Pending

/-! # What a reap looks at

Of shared memory, a reap looks at the tail word, at the cookies of the entries that completed and at
the bytes of the buffers in their slots. Whatever else lies in memory, in the same entries or
elsewhere, makes no difference to it. -/

namespace FrameRing

variable {rbm : Nat} {a : Allocation} {seen : DmaBuffer → Prop} {r r' : SourceRing} {w w' : World}

namespace World

/-- Two worlds that differ only in bytes that nobody is going to look at. -/
structure Alike (seen : DmaBuffer → Prop) (w w' : World) : Prop where
  rest : w.rest = w'.rest
  journal : w.host.journal = w'.host.journal
  memory : w.host.memory.Alike w'.host.memory
  frames : ∀ b, seen b →
    w.window.read b.allocation.addr b.size = w'.window.read b.allocation.addr b.size

structure AlikeInSection (a : Allocation) (seen : DmaBuffer → Prop) (r : SourceRing) (w : World)
    (r' : SourceRing) (w' : World) : Prop extends Alike seen w w' where
  same : r = r'
  inside : r.layout.Inside a
  cookies : ∃ t, r.Tracks t ∧ r.SameCookies t w.window w'.window

structure AlikeAtStart (a : Allocation) (seen : DmaBuffer → Prop) (r : SourceRing) (w : World)
    (r' : SourceRing) (w' : World) : Prop extends Alike seen w w' where
  same : r = r'
  inside : r.layout.Inside a
  tracks : ∃ t, r.Tracks t
  tail : w.window.loadWord r.layout.tailAddr = w'.window.loadWord r.layout.tailAddr
  cookies : ∀ tail, r.loadTail w.host.memory = .ok tail → ∀ k, k < r.completed tail →
    r.layout.cookieAt w.window ((r.next r.reapHead + k) % r.numEntries) =
      r.layout.cookieAt w'.window ((r.next r.reapHead + k) % r.numEntries)

theorem alike_iff :
    Alike seen w w' ↔ Beside (fun m m' => m.Alike m' ∧ ∀ b, seen b →
      m.window.read b.allocation.addr b.size = m'.window.read b.allocation.addr b.size) w w' :=
  ⟨fun h => ⟨h.rest, h.journal, h.memory, h.frames⟩,
    fun h => ⟨h.rest, h.journal, h.memory.1, h.memory.2⟩⟩

namespace Alike

theorem keep (h : Alike seen w w') {w₁ w₁' : World} (hrest : w₁.rest = w₁'.rest)
    (hjournal : w₁.host.journal = w₁'.host.journal) (hm : w₁.host.memory = w.host.memory)
    (hm' : w₁'.host.memory = w'.host.memory) : Alike seen w₁ w₁' :=
  alike_iff.mpr ((alike_iff.mp h).keep hrest hjournal hm hm')

theorem record (h : Alike seen w w') (event : LogEvent) :
    Alike seen (w.record event) (w'.record event) :=
  alike_iff.mpr ((alike_iff.mp h).record event)

theorem acquire (h : Alike seen w w') (size : Nat) :
    (World.acquire size w).1 = (World.acquire size w').1 ∧
      Alike seen (World.acquire size w).2 (World.acquire size w').2 :=
  ((alike_iff.mp h).acquire size).imp_right alike_iff.mpr

theorem release (h : Alike seen w w') (b : DmaBuffer) :
    Alike seen (World.release b w) (World.release b w') :=
  alike_iff.mpr ((alike_iff.mp h).release b)

theorem callSimulation (rbm : Nat) (seen : DmaBuffer → Prop) :
    CallSimulation (platform rbm) (platform rbm) (Alike seen) seen := by
  have hsame : Alike seen = Beside (fun m m' => m.Alike m' ∧ ∀ b, seen b →
      m.window.read b.allocation.addr b.size = m'.window.read b.allocation.addr b.size) :=
    funext fun w => funext fun w' => propext alike_iff
  rw [hsame]
  exact beside_callSimulation rbm fun m m' hm b hb => hm.1.read (hm.2 b hb)

theorem together (h : Alike seen w w')
    (hapart : ∀ b, seen b →
      b.allocation.addr + b.size ≤ a.addr ∨ a.addr + a.len ≤ b.allocation.addr)
    {w₁ w₁' : World} (hrest : w₁.rest = w₁'.rest) (hjournal : w₁.host.journal = w₁'.host.journal)
    (ht : HostMemory.Together a w.host.memory w'.host.memory w₁.host.memory w₁'.host.memory) :
    Alike seen w₁ w₁' := by
  refine ⟨hrest, hjournal, ht.alike h.memory, ?_⟩
  intro b hb
  obtain ⟨hread, hread'⟩ := ht.spares (hapart b hb)
  exact hread.trans ((h.frames b hb).trans hread'.symm)

end Alike

theorem AlikeInSection.keep (h : AlikeInSection a seen r w r' w') {w₁ w₁' : World}
    (halike : Alike seen w₁ w₁') (hm : w₁.host.memory = w.host.memory)
    (hm' : w₁'.host.memory = w'.host.memory) : AlikeInSection a seen r w₁ r' w₁' := by
  obtain ⟨t, ht, hcookies⟩ := h.cookies
  refine ⟨halike, h.same, h.inside, t, ht, ?_⟩
  simp only [Machine.window, hm, hm']
  exact hcookies

/-- The platform does not tell the two worlds apart. -/
theorem alike_simulation (rbm : Nat)
    (hapart : ∀ b, seen b →
      b.allocation.addr + b.size ≤ a.addr ∨ a.addr + a.len ≤ b.allocation.addr) :
    Simulation (platform rbm) (platform rbm) (AlikeAtStart a seen) (AlikeInSection a seen) Eq
      (Alike seen) Reservation.Like seen where
  toCallSimulation := Alike.callSimulation rbm seen
  accessBegin := by
    rintro r w r' w' ⟨halike, rfl, hinside, ⟨t, ht⟩, htail, hcookies⟩
    obtain ⟨-, hbegin⟩ := SourceRing.accessBegin_alike halike.memory htail
    simp only [platform, SourceRing.hardware, ← hbegin]
    rcases r.accessBegin_cases w.host.memory with ⟨e, he⟩ | ⟨tail, -, hl, he⟩
    · rw [he]
      refine ⟨trivial, fun hok => ?_, fun _ _ => ⟨trivial, halike⟩⟩
      cases hok
    · rw [he]
      obtain ⟨t', ht', hsame⟩ := SourceRing.sameCookies_opened ht hl (hcookies tail hl)
      exact ⟨trivial, fun _ => ⟨halike, rfl, hinside, t', ht', hsame⟩,
        fun _ _ => ⟨trivial, halike⟩⟩
  accessEnd := by
    rintro r w r' w' ⟨halike, rfl, hinside, -⟩
    obtain ⟨⟨m, journal⟩, rest⟩ := w
    obtain ⟨⟨m', journal'⟩, rest'⟩ := w'
    cases halike.journal
    obtain ⟨hjournal, htogether⟩ := r.accessEnd_alike halike.memory journal
    have hwords := hinside.words
    refine ⟨?_, halike.together hapart halike.rest hjournal (htogether.mono hwords.1 ?_)⟩
    · exact (r.accessEnd_ring _).trans (r.accessEnd_ring _).symm
    · change r.layout.headAddr + 4 ≤ a.addr + a.len
      omega
  availableCount := by
    rintro r w r' w' ⟨-, rfl, -, -⟩
    rfl
  nextEntry := by
    rintro r w r' w' h
    obtain ⟨t, ht, hcookies⟩ := h.cookies
    have hmemory := r.nextEntry_memory w.host
    have hmemory' := r.nextEntry_memory w'.host
    have halike := h.toAlike
    obtain rfl := h.same
    obtain ⟨⟨m, journal⟩, rest⟩ := w
    obtain ⟨⟨m', journal'⟩, rest'⟩ := w'
    cases halike.journal
    obtain ⟨hfound, hjournal⟩ := SourceRing.nextEntry_alike ht halike.memory journal hcookies
    exact ⟨hfound, h.keep (halike.keep halike.rest hjournal hmemory hmemory') hmemory hmemory'⟩
  nextFreeEntry := by
    rintro r w r' w' h
    obtain rfl := h.same
    refine ⟨?_, h⟩
    simp only [platform, SourceRing.hardware]
    cases r.nextFreeEntry with
    | none => exact .none
    | some res => exact .some ⟨rfl, rfl, rfl⟩
  setEntry := by
    rintro r w r' w' res res' h he busAddr cookie
    obtain ⟨t, ht, hcookies⟩ := h.cookies
    obtain ⟨halike, rfl, hinside, -⟩ := h
    obtain ⟨⟨m, journal⟩, rest⟩ := w
    obtain ⟨⟨m', journal'⟩, rest'⟩ := w'
    obtain ⟨hresult, hring, htogether, hlayout, hkept⟩ :=
      SourceRing.setEntry_alike ht hinside halike.memory he hcookies busAddr cookie
    refine ⟨hresult, halike.together hapart halike.rest halike.journal htogether, hring, ?_, hkept⟩
    change (r.setEntry m res busAddr cookie).2.1.layout.Inside a
    rwa [hlayout]
  cookieOf := by
    rintro r w r' w' res res' h he
    exact he.cookie
  acquire := by
    rintro r w r' w' h size
    obtain ⟨hresult, halike⟩ := h.toAlike.acquire size
    exact ⟨hresult, h.keep halike rfl rfl⟩
  giveBack := by
    rintro r w r' w' h b
    exact h.keep (h.toAlike.release b) (release_memory b w) (release_memory b w')
  report := by
    rintro r w r' w' h event
    exact h.keep (h.toAlike.record event) rfl rfl

end World

namespace Ring

variable {ring : Ring SourceRing DmaBuffer} {m m' : HostMemory} {base capacity : Nat}
  {rest others : List Allocation}

/-- A buffer in the slot of a completion that a reap on `m` would find pending. -/
def PendingBuffer (ring : Ring SourceRing DmaBuffer) (r : SourceRing) (m : HostMemory)
    (b : DmaBuffer) : Prop :=
  ∃ tail k slot, r.loadTail m = .ok tail ∧ k < r.completed tail ∧
    ring.table.slot? ((ring.cursor.readIdx + k) % ring.geometry.capacity) = some slot ∧
    slot.buffer = some b

/-- Two memories that agree on the tail word, on the cookies of the completions that are pending
and on the bytes of the buffers in their slots. -/
structure Agree (ring : Ring SourceRing DmaBuffer) (r : SourceRing) (m m' : HostMemory) :
    Prop where
  alike : m.Alike m'
  tail : m.window.loadWord r.layout.tailAddr = m'.window.loadWord r.layout.tailAddr
  cookies : ∀ tail, r.loadTail m = .ok tail → ∀ k, k < r.completed tail →
    r.layout.cookieAt m.window ((r.next r.reapHead + k) % r.numEntries) =
      r.layout.cookieAt m'.window ((r.next r.reapHead + k) % r.numEntries)
  frames : ∀ b, ring.PendingBuffer r m b →
    m.window.read b.allocation.addr ring.geometry.bufferSize =
      m'.window.read b.allocation.addr ring.geometry.bufferSize

theorem agree_iff {r : SourceRing} :
    ring.Agree r m m' ↔
      (m.window.base = m'.window.base ∧ m.window.size = m'.window.size ∧ m.faults = m'.faults) ∧
      m.window.loadWord r.layout.tailAddr = m'.window.loadWord r.layout.tailAddr ∧
      ∀ tail ∈ (r.loadTail m).toOption, ∀ k, k < r.completed tail →
        r.layout.cookieAt m.window ((r.next r.reapHead + k) % r.numEntries) =
            r.layout.cookieAt m'.window ((r.next r.reapHead + k) % r.numEntries) ∧
          ∀ b ∈ (ring.table.slot? ((ring.cursor.readIdx + k) % ring.geometry.capacity)).bind
              Slot.buffer,
            m.window.read b.allocation.addr ring.geometry.bufferSize =
              m'.window.read b.allocation.addr ring.geometry.bufferSize := by
  constructor
  · intro h
    refine ⟨⟨h.alike.base, h.alike.size, h.alike.faults⟩, h.tail, ?_⟩
    intro tail htail k hk
    have hl : r.loadTail m = .ok tail := by
      cases hload : r.loadTail m with
      | error e =>
        rw [hload] at htail
        cases htail
      | ok tail' =>
        rw [hload] at htail
        cases htail
        rfl
    refine ⟨h.cookies tail hl k hk, ?_⟩
    intro b hb
    obtain ⟨slot, hslot, hbuffer⟩ := Option.bind_eq_some_iff.mp hb
    exact h.frames b ⟨tail, k, slot, hl, hk, hslot, hbuffer⟩
  · rintro ⟨⟨hbase, hsize, hfaults⟩, htail, hpending⟩
    refine ⟨⟨hbase, hsize, hfaults⟩, htail, ?_, ?_⟩
    · intro tail hl k hk
      exact (hpending tail (by rw [hl]; rfl) k hk).1
    · rintro b ⟨tail, k, slot, hl, hk, hslot, hb⟩
      exact (hpending tail (by rw [hl]; rfl) k hk).2 b (by rw [hslot]; exact hb)

instance (ring : Ring SourceRing DmaBuffer) (r : SourceRing) (m m' : HostMemory) :
    Decidable (ring.Agree r m m') :=
  decidable_of_iff _ agree_iff.symm

theorem PendingBuffer.armed {b : DmaBuffer} (h : ring.PendingBuffer r m b) :
    b ∈ ring.table.buffers := by
  obtain ⟨tail, k, slot, -, -, hslot, hb⟩ := h
  exact SlotTable.mem_buffers_iff.mpr ⟨_, (SlotTable.buffer?_eq hslot).trans hb⟩

/-- What a pass retires was pending when the pass began. -/
theorem WellFormed.retired_pending (h : ring.WellFormed) (active : ring.state = .active)
    (held : ring.hw = some r) {w₁ : World} {r₁ : SourceRing}
    (access : (World.platform rbm).hardware.accessBegin r w = (.ok (), r₁, w₁)) (count : Nat)
    {b : DmaBuffer}
    (hb : b ∈ (Pass.drain (World.platform rbm) ring.geometry.bufferSize count
      ⟨ring.enter r₁ w₁, ring.stats, []⟩).2.retired) :
    ring.PendingBuffer r w.host.memory b := by
  obtain ⟨-, a, -, hsound⟩ := h.hardware r held
  obtain ⟨t, ht⟩ := hsound.tracks
  have hlock := h.paced.lockstep r held
  have hrot := h.paced.disciplined.rotation active
  rcases r.accessBegin_cases w.host.memory with ⟨e, he⟩ | ⟨tail, -, hl, he⟩
  · simp only [World.platform, SourceRing.hardware, he] at access
    cases access
  simp only [World.platform, SourceRing.hardware, he] at access
  cases access
  have hopened := ht.accept hl
  have hstart : Pass.Pending ring.geometry.capacity t.reaped
      (t.accepted + r.distance r.cachedTail tail) ring.table
      ⟨⟨{ r with cachedTail := tail, inAccess := true }, ring.table, ring.cursor,
        ⟨w, [], []⟩⟩, ring.stats, []⟩ :=
    ⟨hrot, hlock.open_close _ _, ⟨_, hopened, Nat.le_refl _, rfl, fun _ _ _ => rfl⟩,
      fun b hb => by cases hb⟩
  have hend := Pass.drain_pending rbm ring.geometry.bufferSize count hstart
  change b ∈ (Pass.drain (World.platform rbm) ring.geometry.bufferSize count
    ⟨⟨_, ring.table, ring.cursor, w⟩, ring.stats, []⟩).2.retired at hb
  rw [← Scene.drain_quiet []] at hb
  obtain ⟨k, slot, hk, hka, hslot, hold⟩ := hend.retired b hb
  have hcompleted : r.completed tail = t.accepted + r.distance r.cachedTail tail - t.reaped :=
    hopened.completed_eq
  refine ⟨tail, k - t.reaped, slot, hl, by omega, ?_, hold⟩
  rw [← hlock.oldest, ht.reapHead, hlock.entries, Nat.mod_add_mod, Nat.add_sub_of_le hk]
  exact hslot

/-- On two memories that agree, a reap does the same. -/
theorem WellFormed.tryReap_alike (h : ring.WellFormed) (active : ring.state = .active)
    (held : ring.hw = some r) (rbm : Nat)
    (ha : Scene.Account base capacity rest ⟨w, others, []⟩ ring.ringMem ring.table.buffers)
    (hagree : ring.Agree r m m') :
    let out := ring.tryReap (World.platform rbm) (w.setMemory m)
    let out' := ring.tryReap (World.platform rbm) (w.setMemory m')
    out.1 = out'.1 ∧ out.2.1 = out'.2.1 ∧
      World.Alike (ring.PendingBuffer r m) out.2.2 out'.2.2 := by
  obtain ⟨-, a, hm, hsound⟩ := h.hardware r held
  rw [hm] at ha
  have hsize {b : DmaBuffer} (hb : ring.PendingBuffer r m b) := h.fits b hb.armed
  have hapart (b : DmaBuffer) (hb : ring.PendingBuffer r m b) :
      b.allocation.addr + b.size ≤ a.addr ∨ a.addr + a.len ≤ b.allocation.addr := by
    have hno := Scene.Account.apart ha b hb.armed
    have hlen := (hsize hb).2
    rw [Slab.Overlaps] at hno
    have hsame := (hsize hb).1
    omega
  have halike : World.Alike (ring.PendingBuffer r m) (w.setMemory m) (w.setMemory m') := by
    refine ⟨rfl, rfl, hagree.alike, ?_⟩
    intro b hb
    rw [(hsize hb).1]
    exact hagree.frames b hb
  have hpaired : Ring.Paired Eq ring ring := ⟨rfl, optionRel_refl _⟩
  have hreap := Ring.tryReap_simulation (World.alike_simulation rbm hapart) hpaired halike
    (by
      intro r₁ r₁' held₁ held₁'
      cases held.symm.trans held₁
      cases held.symm.trans held₁'
      exact ⟨halike, rfl, hsound.inside, hsound.tracks, hagree.tail, hagree.cookies⟩)
    (by
      intro r₁ r₂ w₂ held₁ access b hb
      cases held.symm.trans held₁
      exact h.retired_pending active held access _ hb)
  exact ⟨hreap.1, hreap.2.1.eq, hreap.2.2⟩

end Ring

namespace MultiRing

/-- The device cannot lead a reap astray. On two memories that agree on the tail word, on the
cookies of the completed entries and on what lies in the buffers of their slots, the result, the
ring and its statistics, the pool, the frames delivered and all reports are the same, whatever else
the entries say and whatever else lies in memory. -/
theorem run_reaps_by_cookie {window : Window} {slotSize base len : Nat} {w₀ : World}
    (hw : World.create window slotSize base len = .ok w₀)
    (hl : base + len / slotSize * slotSize < addressLimit) (rbm : Nat) (actions : List RingAction) :
    let e := (start w₀).run rbm actions
    ∀ ring ∈ e.rings, ring.state = .active →
      ∃ r, ring.hw = some r ∧ ∀ m m', ring.Agree r m m' →
        let out := ring.tryReap (World.platform rbm) (e.scene.world.setMemory m)
        let out' := ring.tryReap (World.platform rbm) (e.scene.world.setMemory m')
        out.1 = out'.1 ∧ out.2.1 = out'.2.1 ∧ out.2.2.rest = out'.2.2.rest ∧
          out.2.2.host.journal = out'.2.2.host.journal := by
  intro e ring hr active
  have h : e.InOrder base (len / slotSize * slotSize) :=
    run_inOrder (start_inOrder hw (Nat.le_of_lt hl)) actions
  have hwellFormed := h.wellFormed ring hr
  obtain ⟨idx, hidx⟩ := List.getElem?_of_mem hr
  obtain ⟨r, held⟩ := hwellFormed.paced.held (by rw [active]; decide)
  refine ⟨r, held, ?_⟩
  intro m m' hagree
  obtain ⟨hresult, hring, halike⟩ :=
    hwellFormed.tryReap_alike active held rbm (h.account hidx []) hagree
  exact ⟨hresult, hring, halike.rest, halike.journal⟩

/-- The first of two completed entries has lost its address and names another buffer manager. -/
theorem run_reaps_by_cookie_redirected :
    let w₀ : World := .fresh (.zeroed 0 384) ⟨0, 64, Array.replicate 6 false, none⟩
    let fw : Firmware := ⟨⟨0, 4, 8, 32, 36⟩, .empty, 12⟩
    let actions : List RingAction :=
      [.setup (.ofSizes 4 8 12) [], .operate 0 .attach [],
        .act (.device fw (.fill 0 0 ((FrameHeader.ofPayload 2).toBytes ++ [7, 8]))),
        .act (.device fw (.advance 2))]
    let e := (start w₀).run 3 actions
    let m := e.scene.world.host.memory
    let astray := ((m.window.write 0 [255, 255, 255, 255, 255, 7]).2.write 32 [99]).2
    let m' : HostMemory := ⟨(astray.write 300 [1, 2, 3]).2, m.faults⟩
    ∀ ring ∈ e.rings, ring.state = .active ∧ (∀ r ∈ ring.hw, ring.Agree r m m') ∧
      (ring.tryReap (World.platform 3) (e.scene.world.setMemory m)).1 = .ok 1 ∧
      (ring.tryReap (World.platform 3) (e.scene.world.setMemory m)).1 =
        (ring.tryReap (World.platform 3) (e.scene.world.setMemory m')).1 := by
  intro w₀ fw actions e m astray m' ring hr
  have hw : World.create (.zeroed 0 384) 64 0 384 = .ok w₀ := rfl
  have hl : 0 + 384 / 64 * 64 < addressLimit := by decide
  have hagree : ∀ ring ∈ e.rings, ring.state = .active ∧ (∀ r ∈ ring.hw, ring.Agree r m m') ∧
      (ring.tryReap (World.platform 3) (e.scene.world.setMemory m)).1 = .ok 1 := by
    decide +kernel
  obtain ⟨active, hsame, hok⟩ := hagree ring hr
  obtain ⟨r, held, hreap⟩ := run_reaps_by_cookie hw hl 3 actions ring hr active
  exact ⟨active, hsame, hok, (hreap m m' (hsame r held)).1⟩

end MultiRing

end FrameRing
