import FrameRing.Proofs.SourceRing.Footprint
import FrameRing.Proofs.Stack.Failures
import FrameRing.Proofs.Stack.Quiet

/-! # Where the host writes

Whatever lies in memory and whichever accesses fail, a setup writes only the pointer words of its
own ring, and an attach or a reap only the head word and the entries that it arms. Nothing else that
a ring or its consumer does writes to shared memory. -/

namespace FrameRing

variable {base capacity rbm size : Nat} {live rest : List Allocation} {a b : Allocation}

theorem Allocation.Contains.overlaps {addr : Nat} (ha : a.Contains addr) (hb : b.Contains addr) :
    Slab.Overlaps a b := by
  obtain ⟨hlow, hhigh⟩ := ha
  obtain ⟨hlow', hhigh'⟩ := hb
  exact ⟨by omega, by omega⟩

theorem Slab.Owns.apart_of_ne {slab : Slab} (h : slab.Owns live) (ha : a ∈ live) (hb : b ∈ live)
    (hne : b ≠ a) {addr : Nat} (hc : a.Contains addr) : ¬ b.Contains addr := by
  intro hc'
  obtain ⟨i, hi⟩ := List.getElem?_of_mem ha
  have hperm := perm_eraseIdx hi
  have hapart := (List.pairwise_cons.mp (h.perm hperm).apart).1
  rcases List.mem_cons.mp (hperm.mem_iff.mp hb) with hsame | hother
  · exact hne hsame
  · exact hapart b hother (hc.overlaps hc')

namespace World

variable {w w' : World}

theorem acquire_memory {result : Except AllocError DmaBuffer}
    (h : World.acquire size w = (result, w')) : w'.host.memory = w.host.memory :=
  (congrArg (fun out => out.2.host.memory) h).symm

theorem alloc_memory {len : Nat} {result : Except AllocError Allocation}
    (h : World.alloc len w = (result, w')) : w'.host.memory = w.host.memory :=
  (congrArg (fun out => out.2.host.memory) h).symm

theorem register_memory {reg : Registration} {result : Except SourceRingError SourceRing}
    (h : SourceRing.registrar rbm reg w = (result, w')) :
    w'.host.memory = (SourceRing.create reg rbm w.host.memory).2 :=
  (congrArg (fun out => out.2.host.memory) h).symm

theorem intoBytes_memory (buf : DmaBuffer) (w : World) :
    (World.intoBytes buf w).2.host.memory = w.host.memory :=
  release_memory buf w

def Unwritten (m : HostMemory) (w : World) (_ : List DmaBuffer) : Prop := w.host.memory = m

/-- Buffers are acquired, synced, delivered and released without a write. -/
theorem unwritten_custody (rbm : Nat) (m : HostMemory) :
    BufferCustody (platform rbm) (Unwritten m) where
  perm h _ := h
  acquire h ha := (acquire_memory ha).trans h
  acquire_error h ha := (acquire_memory ha).trans h
  release {w b held} h := (release_memory b w).trans h
  sync {w b b' w' held} h hs := by
    cases hs
    exact (b.sync_memory w.host).trans h
  narrow h _ _ := h
  deliver h := h
  record h _ := h

theorem freeRingMemory_memory (rbm : Nat) (a : Allocation) (w : World) :
    (freeRingMemory (platform rbm) a w).host.memory = w.host.memory := by
  have hdealloc : ((platform rbm).memory.dealloc a w).2.host = w.host := rfl
  unfold freeRingMemory
  split
  · rename_i hfreed
    rw [hfreed] at hdealloc
    rw [← hdealloc]
  · rename_i hfreed
    rw [hfreed] at hdealloc
    rw [← hdealloc]
    rfl

/-- What a section of a ring in layout `l` has written since its counter of arms was `first`. -/
theorem armedSince_invariant (rbm size : Nat) (l : RingLayout) (first : Nat) (before : Window) :
    SectionInvariant (platform rbm) size
      fun r w _ => SourceRing.ArmedSince l first before r w.host.memory.window := by
  constructor
  case perm =>
    intro r w held held' h hp
    exact h
  case acquire =>
    intro r w buf w' held h ha
    rwa [acquire_memory ha]
  case acquire_error =>
    intro r w e w' held h ha
    rwa [acquire_memory ha]
  case release =>
    intro r w buf held h
    change SourceRing.ArmedSince l first before r (World.release buf w).host.memory.window
    rwa [release_memory]
  case record =>
    intro r w held event h he
    exact h
  case nextEntry =>
    intro r w entry r' w' held h hn
    cases hn
    change SourceRing.ArmedSince l first before r (r.nextEntry w.host).2.memory.window
    rwa [SourceRing.nextEntry_memory]
  case nextFreeEntry =>
    intro r w entry r' w' held h hn
    cases hn
    exact h
  case setEntry =>
    intro entry b cookie r w result r' w' held h hs
    cases hs
    exact h.setEntry entry (RxBuffer.busAddr b) cookie

theorem accessBegin_tracks {r r' : SourceRing} {w w' : World} {t : Tally}
    {result : Except SourceRingError Unit} (ht : r.Tracks t)
    (h : (platform rbm).hardware.accessBegin r w = (result, r', w')) :
    w' = w ∧ r'.layout = r.layout ∧ r'.head = r.head ∧
      ∃ t', r'.Tracks t' ∧ t'.armed = t.armed := by
  simp only [platform, SourceRing.hardware] at h
  rcases r.accessBegin_cases w.host.memory with ⟨e, he⟩ | ⟨tail, -, hl, he⟩
  · rw [he] at h
    cases h
    exact ⟨rfl, rfl, rfl, t, ht, rfl⟩
  · rw [he] at h
    cases h
    exact ⟨rfl, rfl, rfl, _, ht.accept hl, rfl⟩

end World

/-- What a section wrote, once it is closed. -/
theorem SourceRing.ArmedSince.published {r r₀ : SourceRing} {w : World} {first : Nat}
    {before : Window} (h : ArmedSince r₀.layout first before r w.window)
    (hfirst : r₀.head = first % r₀.numEntries) (rbm : Nat) :
    let out := (World.platform rbm).hardware.accessEnd r w
    out.1.layout = r₀.layout ∧ before.WritesOnly out.2.window (r₀.Rewrites out.1.head) := by
  have hclosed := h.close hfirst w.host.journal
  have hring : ((World.platform rbm).hardware.accessEnd r w).1 = { r with inAccess := false } :=
    SourceRing.accessEnd_ring r w.host
  simp only [hring]
  exact ⟨h.layout, hclosed⟩

/-- Filling writes what it arms, and publishes it. -/
theorem Section.fill_writes {s : Section World SourceRing DmaBuffer} {t : Tally}
    (ht : s.hw.Tracks t) (rbm size count : Nat) :
    let out := (s.fill (World.platform rbm) size count).2
    out.hw.layout = s.hw.layout ∧
      s.world.window.WritesOnly out.world.window (s.hw.Rewrites out.hw.head) := by
  simp only [fill]
  rcases hb : (World.platform rbm).hardware.accessBegin s.hw s.world with ⟨_ | _, r, w⟩
  · obtain ⟨rfl, hlayout, -⟩ := World.accessBegin_tracks ht hb
    exact ⟨hlayout, .refl _⟩
  · obtain ⟨rfl, hlayout, hhead, t', ht', harmed⟩ := World.accessBegin_tracks ht hb
    have K := World.armedSince_invariant rbm size s.hw.layout t.armed s.world.window
    have hopened := SourceRing.armedSince_opened ht' s.world.window
    rw [hlayout, harmed] at hopened
    have hmany := armMany_invariant (s := { s with hw := r }) K count hopened
    exact SourceRing.ArmedSince.published hmany ht.head rbm

theorem Pass.drain_writes {s : Pass World SourceRing DmaBuffer} {r : SourceRing} {t : Tally}
    (ht : r.Tracks t) {w : World}
    (hb : (World.platform rbm).hardware.accessBegin r w = (.ok (), s.hw, s.world))
    (size count : Nat) :
    let out := (s.drain (World.platform rbm) size count).2.close (World.platform rbm)
    out.hw.layout = r.layout ∧ w.window.WritesOnly out.world.window (r.Rewrites out.hw.head) := by
  obtain ⟨hworld, hlayout, hhead, t', ht', harmed⟩ := World.accessBegin_tracks ht hb
  have K := World.armedSince_invariant rbm size r.layout t.armed w.window
  have hopened := SourceRing.armedSince_opened ht' w.window
  rw [hlayout, harmed] at hopened
  have hdrain := drain_invariant K count (s := s) (by rw [hworld]; exact hopened)
  exact SourceRing.ArmedSince.published hdrain ht.head rbm

namespace Ring

variable {ring : Ring SourceRing DmaBuffer} {w : World}

theorem releaseAll_memory (rbm : Nat) (ring : Ring SourceRing DmaBuffer) (w : World) :
    (ring.releaseAll (World.platform rbm) w).2.host.memory = w.host.memory := by
  by_cases hs : ring.state = .released
  · rw [releaseAll, if_pos hs]
  rw [releaseAll, if_neg hs]
  have hstart : World.Unwritten w.host.memory w (ring.table.buffers ++ []) := rfl
  have hbuffers := (World.unwritten_custody rbm w.host.memory).releaseAll hstart
  cases ring.ringMem with
  | none => exact hbuffers
  | some a => exact (World.freeRingMemory_memory rbm a _).trans hbuffers

theorem releaseBuffers_owned {bufs : List DmaBuffer}
    (h : w.rest.slab.Owns (bufs.map DmaBuffer.allocation ++ rest)) :
    ∃ slab, bufs.foldl (fun w b => World.release b w) w = w.setSlab slab ∧ slab.Owns rest ∧
      slab.range = w.rest.slab.range := by
  induction bufs generalizing w with
  | nil => exact ⟨w.rest.slab, rfl, h, rfl⟩
  | cons b bufs ih =>
    obtain ⟨slab, hreleased, howns, hrange⟩ := World.release_eq h
    have hnext : (w.setSlab slab).rest.slab.Owns (bufs.map DmaBuffer.allocation ++ rest) := howns
    obtain ⟨slab', hall, howns', hrange'⟩ := ih hnext
    refine ⟨slab', ?_, howns', hrange'.trans hrange⟩
    rw [List.foldl_cons, hreleased, hall]
    rfl

/-- A release gives all that the ring holds back to the pool and reports it. -/
theorem releaseAll_owned (rbm : Nat) (hs : ring.state ≠ .released)
    (h : w.rest.slab.Owns (ring.holdings ++ rest)) :
    ∃ slab, (ring.releaseAll (World.platform rbm) w).2 =
        (w.setSlab slab).record (.ringReleased ring.table.buffers.length) ∧
      slab.Owns rest ∧ slab.range = w.rest.slab.range := by
  rw [holdings, List.append_assoc] at h
  obtain ⟨slab, hall, howns, hrange⟩ := releaseBuffers_owned h
  rw [releaseAll, if_neg hs]
  have hbuffers : ring.table.buffers.foldl (fun w b => (World.platform rbm).pool.release b w) w =
      w.setSlab slab := hall
  simp only [hbuffers]
  cases hmem : ring.ringMem with
  | none =>
    rw [hmem] at howns
    exact ⟨slab, rfl, howns, hrange⟩
  | some a =>
    rw [hmem] at howns
    have hheld : (w.setSlab slab).rest.slab.Owns (a :: rest) := howns
    obtain ⟨slab', hfreed, howns', hrange'⟩ := World.dealloc_eq hheld
    have hfree : freeRingMemory (World.platform rbm) a (w.setSlab slab) = w.setSlab slab' := by
      have hdealloc : (World.platform rbm).memory.dealloc a (w.setSlab slab) =
          (.ok (), (w.setSlab slab).setSlab slab') := hfreed
      rw [freeRingMemory, hdealloc]
      rfl
    refine ⟨slab', ?_, howns', hrange'.trans hrange⟩
    simp only [Option.elim_some, hfree]
    rfl

/-- The head that a ring reached: that of its hardware ring, or where a failed attach reported to
have stopped before it released the ring. -/
def Reached (ring : Ring SourceRing DmaBuffer) (w : World) (head : Nat) : Prop :=
  match ring.hw with
  | some r => r.head = head
  | none => ∃ (journal : Array LogEvent) (e : RingError) (count : Nat),
      w.host.journal = (journal.push (.attachFailed head e)).push (.ringReleased count)

variable {r : SourceRing} {t : Tally} {others : List Allocation}

theorem reached_of_held (held : ring.hw = some r) (w : World) : ring.Reached w r.head := by
  rw [Reached, held]

theorem reached_of_failed (rbm : Nat) (hs : ring.state ≠ .released)
    (h : w.rest.slab.Owns (ring.holdings ++ rest)) (head : Nat) (e : RingError) :
    (ring.releaseAll (World.platform rbm) (w.record (.attachFailed head e))).1.Reached
      (ring.releaseAll (World.platform rbm) (w.record (.attachFailed head e))).2 head := by
  have howns : (w.record (.attachFailed head e)).rest.slab.Owns (ring.holdings ++ rest) := h
  obtain ⟨slab, hreleased, -⟩ := releaseAll_owned rbm hs howns
  rw [hreleased, releaseAll, if_neg hs]
  exact ⟨w.host.journal, e, ring.table.buffers.length, rfl⟩

theorem owns_of_account {s : Scene}
    (h : Scene.Account base capacity rest s ring.ringMem ring.table.buffers) :
    s.world.rest.slab.Owns (ring.holdings ++ (rest ++ s.elsewhere)) := by
  have hkeeps := MultiRing.account_iff.mp h
  rw [← List.append_assoc]
  exact World.Keeps.toOwns hkeeps

/-- However filling ends, it has armed as many slots as entries, and holds them. -/
theorem WellFormed.fill (h : ring.WellFormed) (ready : ring.state = .ready)
    (held : ring.hw = some r)
    (ha : Scene.Account base capacity rest ⟨w, others, []⟩ ring.ringMem ring.table.buffers)
    {result : Except RingError Unit} {s : Section World SourceRing DmaBuffer}
    (fill : (ring.enter r w).fill (World.platform rbm) ring.geometry.bufferSize
      (ring.table.capacity - 1) = (result, s)) :
    s.hw.head = s.cursor.writeIdx ∧
      Scene.Account base capacity rest ⟨s.world, others, []⟩ (ring.leave s).ringMem
        (ring.leave s).table.buffers := by
  have hquiet := Scene.fill_quiet fill others
  have hf := h.paced.disciplined.filling ready
  have hlock := Section.fill_lockstep (p := Scene.platform rbm)
    (s := ring.enter r ⟨w, others, []⟩) ring.geometry.bufferSize hf (h.paced.lockstep r held)
  have hkept := Section.fill_custody (Scene.platform_custody rbm base capacity rest).atWork
    (s := ring.enter r ⟨w, others, []⟩) ring.geometry.bufferSize (ring.table.capacity - 1) ha
  rw [← hf.capacity, hquiet] at hlock
  rw [hquiet] at hkept
  exact ⟨hlock.next, hkept⟩

theorem WellFormed.attach_writes (h : ring.WellFormed) (held : ring.hw = some r) (rbm : Nat)
    (ha : Scene.Account base capacity rest ⟨w, others, []⟩ ring.ringMem ring.table.buffers) :
    ∃ head, (ring.attach (World.platform rbm) w).2.1.Reached
        (ring.attach (World.platform rbm) w).2.2 head ∧
      w.window.WritesOnly (ring.attach (World.platform rbm) w).2.2.window (r.Rewrites head) := by
  obtain ⟨-, a, -, -, t, ht⟩ := h.hardware r held
  have hout := attached (World.platform rbm) ring w
  generalize ring.attach (World.platform rbm) w = out at hout ⊢
  cases hout with
  | again => exact ⟨r.head, reached_of_held held w, .refl _⟩
  | refused => exact ⟨r.head, reached_of_held held w, .refl _⟩
  | @failed r' e s ready held' fill =>
    obtain rfl : r = r' := Option.some.inj (held.symm.trans held')
    have hwrites := Section.fill_writes (s := ring.enter r w) ht rbm ring.geometry.bufferSize
      (ring.table.capacity - 1)
    rw [fill] at hwrites
    obtain ⟨hhead, hkept⟩ := h.fill ready held ha fill
    have hne : (ring.leave s).state ≠ .released := by simp [leave, ready]
    refine ⟨s.hw.head, ?_, ?_⟩
    · rw [hhead]
      exact reached_of_failed rbm hne (owns_of_account hkept) _ e
    · change w.window.WritesOnly (Machine.host _).memory.window _
      rw [releaseAll_memory]
      exact hwrites.2
  | @filled r' s ready held' fill =>
    obtain rfl : r = r' := Option.some.inj (held.symm.trans held')
    have hwrites := Section.fill_writes (s := ring.enter r w) ht rbm ring.geometry.bufferSize
      (ring.table.capacity - 1)
    rw [fill] at hwrites
    exact ⟨s.hw.head, reached_of_held rfl _, hwrites.2⟩

theorem concluded_memory {closed ring' : Ring SourceRing DmaBuffer}
    {result : Except RingError Unit} {s : Pass World SourceRing DmaBuffer} {w out : World} {n : Nat}
    (hc : ring.conclude (World.platform rbm) result s = (closed, w))
    (hd : closed.deliver (World.platform rbm) s.retired w = (n, ring', out)) :
    out.host.memory = s.world.host.memory :=
  concluded_custody (World.unwritten_custody rbm _) (s := s) rfl hc hd

theorem WellFormed.tryReap_writes (h : ring.WellFormed) (held : ring.hw = some r) (rbm : Nat)
    (w : World) :
    ∃ r', (ring.tryReap (World.platform rbm) w).2.1.hw = some r' ∧
      w.window.WritesOnly (ring.tryReap (World.platform rbm) w).2.2.window
        (r.Rewrites r'.head) := by
  obtain ⟨-, a, -, -, t, ht⟩ := h.hardware r held
  have hout := reaped (World.platform rbm) ring w
  generalize ring.tryReap (World.platform rbm) w = out at hout ⊢
  cases hout with
  | refused => exact ⟨r, held, .refl _⟩
  | @unopened r' e r₁ w' active held' access =>
    obtain rfl : r = r' := Option.some.inj (held.symm.trans held')
    obtain ⟨rfl, -, hhead, -⟩ := World.accessBegin_tracks ht access
    exact ⟨r₁, rfl, .refl _⟩
  | @drained r' r₁ w' result pass closed w'' n ring' out active held' access drain hc hd =>
    obtain rfl : r = r' := Option.some.inj (held.symm.trans held')
    have hwrites := Pass.drain_writes (s := ⟨ring.enter r₁ w', ring.stats, []⟩) ht access
      ring.geometry.bufferSize ((World.platform rbm).hardware.availableCount r₁ w')
    rw [drain] at hwrites
    have hmemory := concluded_memory hc hd
    obtain ⟨state, stats, rfl⟩ := concluded hc hd
    refine ⟨_, rfl, ?_⟩
    simp only [Machine.window, hmemory]
    exact hwrites.2

theorem reap_memory (rbm : Nat) (ring : Ring SourceRing DmaBuffer) (w : World) :
    (ring.reap (World.platform rbm) w).2.host.memory =
      (ring.tryReap (World.platform rbm) w).2.2.host.memory := by
  rw [reap]
  split
  · rename_i hreap
    rw [hreap]
  · rename_i hreap
    rw [hreap]
    rfl

/-- A ring without a hardware ring writes nothing, and neither does a release. -/
theorem perform_memory (rbm : Nat) (ring : Ring SourceRing DmaBuffer) (w : World) {op : Operation}
    (h : ring.hw = none ∨ op = .release) :
    (ring.perform (World.platform rbm) w op).2.host.memory = w.host.memory := by
  have hreap (hnone : ring.hw = none) :
      (ring.tryReap (World.platform rbm) w).2.2.host.memory = w.host.memory := by
    have hout := reaped (World.platform rbm) ring w
    generalize ring.tryReap (World.platform rbm) w = out at hout ⊢
    cases hout with
    | refused => rfl
    | unopened active held => cases hnone.symm.trans held
    | drained active held => cases hnone.symm.trans held
  rcases h with hnone | rfl
  · cases op with
    | attach =>
      have hout := attached (World.platform rbm) ring w
      rw [perform]
      generalize ring.attach (World.platform rbm) w = out at hout ⊢
      cases hout with
      | again => rfl
      | refused => rfl
      | failed ready held => cases hnone.symm.trans held
      | filled ready held => cases hnone.symm.trans held
    | tryReap => exact hreap hnone
    | reap => exact (reap_memory rbm ring w).trans (hreap hnone)
    | release => exact releaseAll_memory rbm ring w
  · exact releaseAll_memory rbm ring w

theorem attach_ringMem {ω η ε β : Type} [RxBuffer β] (p : Platform ω η ε β) (ring : Ring η β)
    (w : ω) :
    (ring.attach p w).2.1.ringMem = ring.ringMem ∨ (ring.attach p w).2.1.table = .empty := by
  have hout := attached p ring w
  generalize ring.attach p w = out at hout ⊢
  cases hout with
  | again => exact .inl rfl
  | refused => exact .inl rfl
  | @failed hw e s ready held fill =>
    have hne : (ring.leave s).state ≠ .released := by simp [leave, ready]
    rw [releaseAll, if_neg hne]
    exact .inr rfl
  | filled => exact .inl rfl

theorem tryReap_ringMem {ω η ε β : Type} [RxBuffer β] (p : Platform ω η ε β) (ring : Ring η β)
    (w : ω) : (ring.tryReap p w).2.1.ringMem = ring.ringMem := by
  have hout := reaped p ring w
  generalize ring.tryReap p w = out at hout ⊢
  cases hout with
  | refused => rfl
  | unopened => rfl
  | @drained hw hw' w' result pass closed w'' n ring' out active held access drain hc hd =>
    obtain ⟨state, stats, rfl⟩ := concluded hc hd
    rfl

/-- What an operation of the ring in `a` with hardware ring `r` wrote on the way from `w` to `w'`:
no more than the entries up to `head` and the head word. They lie in the ring memory, which nobody
else held before and in which no buffer is armed now. -/
structure Confined (live : List Allocation) (a : Allocation) (r : SourceRing) (w w' : World)
    (ring' : Ring SourceRing DmaBuffer) (head : Nat) : Prop where
  reached : ring'.Reached w' head
  writes : w.window.WritesOnly w'.window (r.Rewrites head)
  inside : ∀ addr, r.Rewrites head addr → a.Contains addr ∧ ¬ r.layout.tailWord.Contains addr
  spared : ∀ addr, a.Contains addr → (∀ c ∈ live, c ≠ a → ¬ c.Contains addr) ∧
    ∀ b ∈ ring'.table.buffers, ¬ b.allocation.Contains addr

end Ring

def RingParams.Resets (params : RingParams) (w : World) (addr : Nat) : Prop :=
  ∃ a l, (World.alloc (RingLayout.querySize params.capacity params.entrySize) w).1 = .ok a ∧
    RingLayout.ofBase a.addr params.capacity params.entrySize = .ok l ∧
    (l.headWord.Contains addr ∨ l.tailWord.Contains addr)

/-- A setup writes pointer words only, also where it gives up. -/
theorem Ring.setup_writes (rbm : Nat) (params : RingParams) (w : World) :
    w.window.WritesOnly (Ring.setup (World.platform rbm) params w).2.window
      (params.Resets w) := by
  unfold Ring.setup
  split
  · exact .refl _
  split
  · exact .refl _
  split
  · rename_i halloc
    simp only [Machine.window, World.alloc_memory halloc]
    exact .refl _
  rename_i a w₁ halloc
  have ha : (World.alloc (RingLayout.querySize params.capacity params.entrySize) w).1 = .ok a :=
    congrArg Prod.fst halloc
  have hmemory := World.alloc_memory halloc
  have hcreated := (SourceRing.create_writes (params.registration a.addr) rbm
    w₁.host.memory).mono
      fun addr ⟨l, hl, hc⟩ => show params.Resets w addr from ⟨a, l, ha, hl, hc⟩
  rw [hmemory] at hcreated
  simp only
  split
  · simp only [AllocGuard.hold, AllocGuard.close, if_true, Machine.window,
      World.freeRingMemory_memory, hmemory]
    exact .refl _
  split
  · rename_i hrefused
    simp only [AllocGuard.hold, AllocGuard.close, if_true, Machine.window,
      World.freeRingMemory_memory, World.register_memory hrefused, hmemory]
    exact hcreated
  · rename_i r w₂ hregistered
    have hkept : w₂.host.memory = _ := World.register_memory hregistered
    rw [hmemory] at hkept
    rw [← hkept] at hcreated
    exact hcreated

/-- The ring that is set up is the one whose pointer words were written. -/
theorem Ring.setup_resets {params : RingParams} {w w' : World} {ring : Ring SourceRing DmaBuffer}
    (h : Ring.setup (World.platform rbm) params w = (.ok ring, w')) :
    ∃ a r, (World.alloc (RingLayout.querySize params.capacity params.entrySize) w).1 = .ok a ∧
      ring.ringMem = some a ∧ ring.hw = some r ∧
      RingLayout.ofBase a.addr params.capacity params.entrySize = .ok r.layout := by
  obtain ⟨-, -, a, w₁, r, w₂, alloc, -, register, -, rfl⟩ := setup_eq_ok h
  have hcreated : (SourceRing.create (params.registration a.addr) rbm w₁.host.memory).1 = .ok r :=
    congrArg Prod.fst register
  obtain ⟨-, hlayout, -⟩ := SourceRing.create_shape hcreated
  exact ⟨a, r, congrArg Prod.fst alloc, rfl, rfl, hlayout⟩

theorem RingParams.Resets.spared {params : RingParams} {w : World} {addr : Nat}
    (h : params.Resets w addr) (howns : w.rest.slab.Owns live) :
    ∃ a, (World.alloc (RingLayout.querySize params.capacity params.entrySize) w).1 = .ok a ∧
      a.Contains addr ∧ ∀ c ∈ live, ¬ c.Contains addr := by
  obtain ⟨a, l, ha, hl, hc⟩ := h
  have halloc : World.alloc (RingLayout.querySize params.capacity params.entrySize) w =
      (.ok a, _) := Prod.ext ha rfl
  obtain ⟨slab, -, howns', hrange, hlen⟩ := World.alloc_eq_ok howns halloc
  have hin := howns'.within List.mem_cons_self
  have hinside := RingLayout.inside_of_ofBase hl hlen (Nat.le_trans hin.2 howns'.limit)
  have hcontains : a.Contains addr := by
    rcases hc with hc | hc
    · exact (hinside.headWord hc).1
    · exact hinside.tailWord hc
  refine ⟨a, ha, hcontains, ?_⟩
  intro c hmem hc'
  exact (List.pairwise_cons.mp howns'.apart).1 c hmem (hcontains.overlaps hc')

theorem Scene.Account.apart {s : Scene} {held : List DmaBuffer}
    (h : s.Account base capacity rest (some a) held) :
    ∀ b ∈ held, ¬ Slab.Overlaps a b.allocation := by
  intro b hb
  have hkeeps := Scene.Keeps.perm h List.perm_middle
  have hapart := (List.pairwise_cons.mp (World.Keeps.toOwns hkeeps).apart).1
  apply hapart b.allocation
  exact List.mem_append_left _ (List.mem_append_left _ (List.mem_map_of_mem hb))

namespace MultiRing

variable {e : MultiRing} {ring : Ring SourceRing DmaBuffer} {r : SourceRing}

theorem ringMem_mem_live (hr : ring ∈ e.rings) (hm : ring.ringMem = some a) : a ∈ e.live := by
  refine List.mem_append_left _ (List.mem_flatMap.mpr ⟨ring, hr, List.mem_append_right _ ?_⟩)
  rw [hm]
  exact List.mem_singleton_self a

/-- What a ring holds before and after an operation is what it holds beside its own memory. -/
theorem InOrder.spared (h : e.InOrder base capacity) (hr : ring ∈ e.rings)
    (hm : ring.ringMem = some a) {ring' : Ring SourceRing DmaBuffer} {s : Scene}
    (hc : Ring.InCustody (Scene.Account base capacity rest) ring' s)
    (hm' : ring'.ringMem = ring.ringMem ∨ ring'.table = .empty) (addr : Nat)
    (hin : a.Contains addr) :
    (∀ c ∈ e.live, c ≠ a → ¬ c.Contains addr) ∧
      ∀ b ∈ ring'.table.buffers, ¬ b.allocation.Contains addr := by
  constructor
  · intro c hc hne
    exact (World.Keeps.toOwns h.keeps).apart_of_ne (ringMem_mem_live hr hm) hc hne hin
  · intro b hb
    rcases hm' with hsame | hempty
    · have haccount := hc.account
      rw [hsame, hm] at haccount
      exact fun hin' => Scene.Account.apart haccount b hb (hin.overlaps hin')
    · rw [hempty, SlotTable.buffers_empty] at hb
      cases hb

theorem InOrder.confined (h : e.InOrder base capacity) (rbm : Nat) (hr : ring ∈ e.rings)
    (held : ring.hw = some r) {op : Operation} (hop : op ≠ .release) :
    ∃ a, ring.ringMem = some a ∧
      let out := ring.perform (World.platform rbm) e.scene.world op
      ∃ head, Ring.Confined e.live a r e.scene.world out.2 out.1 head := by
  have hwellFormed := h.wellFormed ring hr
  obtain ⟨-, a, hm, hsound⟩ := hwellFormed.hardware r held
  have hinside {head addr : Nat} (hw : r.Rewrites head addr) :=
    hw.inside hsound.inside (Nat.zero_lt_of_lt hsound.head_lt)
  obtain ⟨idx, hidx⟩ := List.getElem?_of_mem hr
  have haccount : Scene.Account base capacity ((e.rings.eraseIdx idx).flatMap Ring.holdings)
      ⟨e.scene.world, e.scene.others, []⟩ ring.ringMem ring.table.buffers := h.account hidx []
  have K := Scene.platform_custody rbm base capacity
    ((e.rings.eraseIdx idx).flatMap Ring.holdings)
  have hcustody := Ring.InCustody.mk haccount (h.emptied ring hr)
  have hreap := hcustody.tryReap K.atWork
  rw [Scene.tryReap_quiet] at hreap
  obtain ⟨r', held', hwrites⟩ := hwellFormed.tryReap_writes held rbm e.scene.world
  refine ⟨a, hm, ?_⟩
  cases op with
  | attach =>
    obtain ⟨head, hreached, hwrites⟩ := hwellFormed.attach_writes held rbm haccount
    have hattach := hcustody.attach K.atWork
    rw [Scene.attach_quiet] at hattach
    exact ⟨head, hreached, hwrites, fun _ hw => hinside hw,
      h.spared hr hm hattach (Ring.attach_ringMem _ ring _)⟩
  | tryReap =>
    exact ⟨r'.head, Ring.reached_of_held held' _, hwrites, fun _ hw => hinside hw,
      h.spared hr hm hreap (.inl (Ring.tryReap_ringMem _ ring _))⟩
  | reap =>
    refine ⟨r'.head, ?_, ?_, fun _ hw => hinside hw, ?_⟩
    · apply Ring.reached_of_held
      simp only [Ring.perform, Ring.reap_ring]
      exact held'
    · simp only [Ring.perform, Machine.window, Ring.reap_memory]
      exact hwrites
    · simp only [Ring.perform, Ring.reap_ring]
      exact h.spared hr hm hreap (.inl (Ring.tryReap_ringMem _ ring _))
  | release => exact absurd rfl hop

/-- Whatever lies in memory and whichever accesses fail, a setup writes only the head word and the
tail word of its own ring, in memory that nobody holds. A ring at work writes only its head word and
the entries from its old head up to the new one: never its tail word, never a byte of a buffer and
never one outside its ring memory. Without a hardware ring it writes nothing, and neither does a
release, nor a consumer who lets go of a frame. -/
theorem run_confines_writes {window : Window} {slotSize len : Nat} {w₀ : World}
    (hw : World.create window slotSize base len = .ok w₀)
    (hl : base + len / slotSize * slotSize < addressLimit) (rbm : Nat) (actions : List RingAction)
    (memory : HostMemory) :
    let e := (start w₀).run rbm actions
    let w := e.scene.world.setMemory memory
    let p := World.platform rbm
    (∀ params,
      let out := Ring.setup p params w
      let taken := (World.alloc (RingLayout.querySize params.capacity params.entrySize) w).1
      w.window.WritesOnly out.2.window (params.Resets w) ∧
      (∀ ring, out.1 = .ok ring → ∃ a r, taken = .ok a ∧ ring.ringMem = some a ∧
        ring.hw = some r ∧
        RingLayout.ofBase a.addr params.capacity params.entrySize = .ok r.layout) ∧
      ∀ addr, params.Resets w addr →
        ∃ a, taken = .ok a ∧ a.Contains addr ∧ ∀ c ∈ e.live, ¬ c.Contains addr) ∧
    (∀ ring ∈ e.rings, ∀ op,
      let out := ring.perform p w op
      (∀ r, ring.hw = some r → op ≠ .release → ∃ a, ring.ringMem = some a ∧
        ∃ head, Ring.Confined e.live a r w out.2 out.1 head) ∧
      (ring.hw = none ∨ op = .release → out.2.host.memory = w.host.memory)) ∧
    ∀ b, (World.release b w).host.memory = w.host.memory ∧
      (World.intoBytes b w).2.host.memory = w.host.memory := by
  intro e w p
  have hstart : (start w₀).InOrder base (len / slotSize * slotSize) :=
    start_inOrder hw (Nat.le_of_lt hl)
  have h : (e.step rbm (.act (.memory fun _ => memory))).InOrder base
      (len / slotSize * slotSize) := step_inOrder (run_inOrder hstart actions) _
  refine ⟨?_, ?_, ?_⟩
  · intro params out taken
    refine ⟨Ring.setup_writes rbm params w, ?_, ?_⟩
    · intro ring hok
      exact Ring.setup_resets (Prod.ext hok rfl)
    · intro addr hresets
      exact hresets.spared (World.Keeps.toOwns h.keeps)
  · intro ring hr op out
    constructor
    · intro r held hop
      exact h.confined rbm hr held hop
    · intro hstill
      exact Ring.perform_memory rbm ring w hstill
  · intro b
    exact ⟨World.release_memory b w, World.intoBytes_memory b w⟩

/-- A reap around the end of the ring whose head cannot be published. The strides are wider than the
entries. -/
theorem run_confines_writes_wrap :
    let w₀ : World := .fresh (.zeroed 0 384) ⟨0, 64, Array.replicate 6 false, none⟩
    let fw : Firmware := ⟨⟨0, 4, 12, 48, 52⟩, .empty, 64⟩
    let actions : List RingAction :=
      [.setup (.ofSizes 4 12 64) [], .operate 0 .attach [],
        .act (.device fw (.fill 0 0 ((FrameHeader.ofPayload 2).toBytes ++ [7, 8]))),
        .act (.device fw (.advance 2))]
    let e := (start w₀).run 3 actions
    let w := e.scene.world.setMemory ⟨e.scene.world.window, [⟨.store, 48, 1⟩]⟩
    let after := fun ring : Ring SourceRing DmaBuffer => ring.perform (World.platform 3) w .tryReap
    (e.rings.map fun ring =>
      (((after ring).2.window.bytes.toList.zip w.window.bytes.toList).zipIdx.filter
        fun (cell, _) => cell.1 ≠ cell.2).map Prod.snd) = [[1, 37, 41]] ∧
      ∀ ring ∈ e.rings, ∀ r, ring.hw = some r → ∃ a, ring.ringMem = some a ∧
        ∃ head, Ring.Confined e.live a r w (after ring).2 (after ring).1 head := by
  intro w₀ fw actions e w after
  have hw : World.create (.zeroed 0 384) 64 0 384 = .ok w₀ := rfl
  have hl : 0 + 384 / 64 * 64 < addressLimit := by decide
  refine ⟨by decide +kernel, ?_⟩
  intro ring hr r held
  have hconfined := run_confines_writes hw hl 3 actions
    ⟨e.scene.world.window, [⟨.store, 48, 1⟩]⟩
  exact (hconfined.2.1 ring hr .tryReap).1 r held (by decide)

end MultiRing

end FrameRing
