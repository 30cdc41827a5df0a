import FrameRing.Proofs.Driven.Setup
import FrameRing.Proofs.Stack.Confinement
import FrameRing.Proofs.Stack.Orderly
import FrameRing.Proofs.Stack.RingMemory

/-! # The head word

A section that closes stores in the head word where the ring arms next. As long as no access of the
host fails and nobody else writes to that word, it says so between any two operations, also after a
pass that was cut short or failed. -/

namespace FrameRing

structure RingLayout.HeadKept (l : RingLayout) (m m' : HostMemory) : Prop where
  healthy : m.faults = [] → m'.faults = []
  word : m'.window.read l.headAddr 4 = m.window.read l.headAddr 4

/-- Whenever the act takes place, it makes no access fail and leaves the head word as it is. -/
def Act.SparesHead (l : RingLayout) (act : Act) : Prop :=
  ∀ s : Scene, l.HeadKept s.world.host.memory (s.act act).world.host.memory

theorem Firmware.setTail_window (fw : Firmware) (m : Window) (tail : Nat) :
    (fw.setTail m tail).2 =
      (m.write fw.layout.tailAddr (SourceRing.pointerBytes fw.flags tail)).2 := by
  rw [setTail, Window.storeWord, SourceRing.pointerBytes]
  split
  · rename_i hstored
    rw [hstored]
  · rename_i hstored
    rw [hstored]

namespace Act

variable {l : RingLayout} {act : Act}

theorem Orderly.sparesHead (h : act.Orderly none) (l : RingLayout) : act.SparesHead l := by
  intro s
  rw [s.act_memory h]
  exact ⟨id, rfl⟩

theorem sparesHead_store {addr : Nat} {bytes : List UInt8}
    (h : l.headAddr + 4 ≤ addr ∨ addr + bytes.length ≤ l.headAddr) :
    (store addr bytes).SparesHead l :=
  fun _ => ⟨id, Window.read_write_of_apart h⟩

/-- A device that consumes entries stores the tail word only. -/
theorem sparesHead_advance {fw : Firmware} (htail : fw.layout.tailAddr = l.headAddr + 4)
    (count : Nat) : (device fw (.advance count)).SparesHead l := by
  intro s
  have hset (tail : Nat) :
      (fw.setTail s.world.window tail).2.read l.headAddr 4 = s.world.window.read l.headAddr 4 := by
    rw [Firmware.setTail_window]
    exact Window.read_write_of_apart (.inl (Nat.le_of_eq htail.symm))
  refine ⟨id, ?_⟩
  change (fw.move s.world.window (.advance count)).read l.headAddr 4 = _
  simp only [Firmware.move]
  split
  · split
    · exact hset _
    · rfl
  · rfl

end Act

structure Scene.Faultless (l : RingLayout) (s : Scene) : Prop where
  healthy : s.world.host.memory.faults = []
  agenda : ∀ todo ∈ s.agenda, ∀ act ∈ todo, act.SparesHead l

theorem Scene.Faultless.act {l : RingLayout} {s : Scene} (h : s.Faultless l) {act : Act}
    (ha : act.SparesHead l) : (s.act act).Faultless l := by
  refine ⟨(ha s).healthy h.healthy, ?_⟩
  rw [act_agenda]
  exact h.agenda

structure Scene.HeadWord (l : RingLayout) (bytes : List UInt8) (s : Scene) : Prop
    extends s.Faultless l where
  shown : s.world.window.read l.headAddr 4 = .ok bytes

namespace Scene.HeadWord

variable {l : RingLayout} {bytes : List UInt8} {s s' : Scene} {todo : List Act}

theorem act (h : s.HeadWord l bytes) {act : Act} (ha : act.SparesHead l) :
    (s.act act).HeadWord l bytes :=
  ⟨h.toFaultless.act ha, (ha s).word.trans h.shown⟩

theorem acts (h : s.HeadWord l bytes) (ht : ∀ act ∈ todo, act.SparesHead l) :
    (s.acts todo).HeadWord l bytes := by
  induction todo generalizing s with
  | nil => exact h
  | cons act todo ih =>
    have hnext := h.act (ht act List.mem_cons_self)
    exact ih hnext fun a ha => ht a (List.mem_cons_of_mem act ha)

theorem turn (h : s.HeadWord l bytes) : s.turn.HeadWord l bytes := by
  unfold Scene.turn
  split
  · exact h
  · rename_i todo agenda heq
    have hagenda := h.agenda
    rw [heq] at hagenda
    have hrest : HeadWord l bytes { s with agenda } :=
      ⟨⟨h.healthy, fun group hg => hagenda group (List.mem_cons_of_mem todo hg)⟩, h.shown⟩
    exact hrest.acts (hagenda todo List.mem_cons_self)

theorem through (h : s.HeadWord l bytes)
    (hm : s'.world.host.memory = s.turn.world.host.memory) (hg : s'.agenda = s.turn.agenda) :
    s'.HeadWord l bytes := by
  have ht := h.turn
  refine ⟨⟨?_, ?_⟩, ?_⟩
  · rw [hm]
    exact ht.healthy
  · rw [hg]
    exact ht.agenda
  · rw [Machine.window, hm]
    exact ht.shown

theorem record (h : s.HeadWord l bytes) (event : LogEvent) :
    HeadWord l bytes { s with world := s.world.record event } :=
  ⟨⟨h.healthy, h.agenda⟩, h.shown⟩

theorem custody (rbm : Nat) (l : RingLayout) (bytes : List UInt8) :
    BufferCustody (platform rbm) fun s _ => s.HeadWord l bytes := by
  constructor
  case perm => exact fun h _ => h
  case acquire =>
    intro s size b s' held h ha
    obtain rfl : (s.call (World.acquire size)).2 = s' := congrArg Prod.snd ha
    exact h.through rfl rfl
  case acquire_error =>
    intro s size e s' held h ha
    obtain rfl : (s.call (World.acquire size)).2 = s' := congrArg Prod.snd ha
    exact h.through rfl rfl
  case release =>
    intro s b held h
    exact h.through (World.release_memory b s.turn.world) rfl
  case sync =>
    intro s b b' s' held h hs
    obtain rfl : (s.call (World.sync b)).2 = s' := congrArg Prod.snd hs
    exact h.through (b.sync_memory s.turn.world.host) rfl
  case narrow => exact fun h _ _ => h
  case deliver => exact fun h => h.through rfl rfl
  case record => exact fun h _ => h.record _

theorem covers (h : s.HeadWord l bytes) : s.world.window.Covers l.headAddr 4 :=
  (Window.read_eq_ok_iff.mp h.shown).1

theorem write (h : s.HeadWord l bytes) (addr : Nat) (src : List UInt8) :
    ∃ bytes', HeadWord l bytes'
      { s with world := s.world.setWindow (s.world.window.write addr src).2 } := by
  obtain ⟨bytes', hread⟩ := Window.exists_read (Window.covers_write.mpr h.covers)
  exact ⟨bytes', ⟨h.healthy, h.agenda⟩, hread⟩

end Scene.HeadWord

namespace Scene

variable {r r' : SourceRing} {s s' : Scene}

def Announces (r : SourceRing) (s : Scene) : Prop :=
  s.HeadWord r.layout (SourceRing.pointerBytes r.flags r.head)

/-- Inside a section the word may lag behind the head, but it can be stored. -/
structure MayAnnounce (r : SourceRing) (s : Scene) : Prop where
  opened : r.inAccess = true
  word : ∃ bytes, s.HeadWord r.layout bytes

theorem Announces.head_eq (h : s.Announces r) (hr : r.head < 1 <<< 32) (size : Nat) :
    (Firmware.behind r size).head s.world.window = .ok r.head := by
  obtain ⟨hc, -, hshows⟩ := Window.read_eq_ok_iff.mp h.shown
  exact Firmware.loadPointer_eq hshows hc hr

theorem Announces.unopened (h : s.Announces r) {rbm : Nat} {e : SourceRingError}
    (hb : (platform rbm).hardware.accessBegin r s = (.error e, r', s')) : s'.Announces r' := by
  obtain rfl : s.turn = s' := congrArg (fun out => out.2.2) hb
  rcases DrivesSourceRing.accessBegin_answer hb with ⟨e, -, rfl⟩ | ⟨m, tail, hok, -⟩
  · exact h.turn
  · cases hok

theorem Announces.opened (h : s.Announces r) {rbm : Nat}
    (hb : (platform rbm).hardware.accessBegin r s = (.ok (), r', s')) : s'.MayAnnounce r' := by
  obtain rfl : s.turn = s' := congrArg (fun out => out.2.2) hb
  rcases DrivesSourceRing.accessBegin_answer hb with ⟨e, he, -⟩ | ⟨m, tail, -, -, -, rfl⟩
  · cases he
  · exact ⟨rfl, _, h.turn⟩

theorem MayAnnounce.accessEnd (h : s.MayAnnounce r) (rbm : Nat) :
    ((platform rbm).hardware.accessEnd r s).2.Announces
      ((platform rbm).hardware.accessEnd r s).1 := by
  obtain ⟨bytes, hword⟩ := h.word
  have ht := hword.turn
  have hcov : s.turn.world.window.Covers r.layout.headAddr
      (SourceRing.pointerBytes r.flags r.head).length := by
    rw [SourceRing.length_pointerBytes]
    exact ht.covers
  rw [accessEnd_healthy rbm h.opened ht.healthy ht.covers]
  exact ⟨⟨ht.healthy, ht.agenda⟩, Window.read_write_self hcov⟩

theorem MayAnnounce.through (h : s.MayAnnounce r)
    (hm : s'.world.host.memory = s.turn.world.host.memory) (hg : s'.agenda = s.turn.agenda) :
    s'.MayAnnounce r := by
  obtain ⟨bytes, hword⟩ := h.word
  exact ⟨h.opened, bytes, hword.through hm hg⟩

theorem mayAnnounce_invariant (rbm size : Nat) :
    SectionInvariant (platform rbm) size fun r s (_ : List DmaBuffer) => s.MayAnnounce r := by
  constructor
  case perm => exact fun h _ => h
  case acquire =>
    intro r s b s' held h ha
    obtain rfl : (s.call (World.acquire size)).2 = s' := congrArg Prod.snd ha
    exact h.through rfl rfl
  case acquire_error =>
    intro r s e s' held h ha
    obtain rfl : (s.call (World.acquire size)).2 = s' := congrArg Prod.snd ha
    exact h.through rfl rfl
  case release =>
    intro r s b held h
    exact h.through (World.release_memory b s.turn.world) rfl
  case record =>
    intro r s held event h he
    obtain ⟨bytes, hword⟩ := h.word
    exact ⟨h.opened, bytes, hword.record event⟩
  case nextEntry =>
    intro r s entry r' s' held h hn
    obtain ⟨rfl, -⟩ := DrivesSourceRing.nextEntry_answer hn
    cases hn
    exact h.through (SourceRing.nextEntry_memory _ s.turn.world.host) rfl
  case nextFreeEntry =>
    intro r s entry r' s' held h hn
    obtain ⟨rfl, -⟩ := DrivesSourceRing.nextFreeEntry_answer hn
    cases hn
    exact h.through rfl rfl
  case setEntry =>
    intro res b cookie r s result r' s' held h hs
    obtain ⟨bytes, hword⟩ := h.word
    rcases r.setEntry_cases s.turn.world.host.memory res (RxBuffer.busAddr b) cookie with
      ⟨e, he⟩ | ⟨entry, addr, -, -, -, -, -, -, he⟩
    · simp only [platform, SourceRing.hardware, he] at hs
      cases hs
      exact ⟨h.opened, bytes, hword.turn⟩
    · simp only [platform, SourceRing.hardware, he] at hs
      cases hs
      exact ⟨h.opened, hword.turn.write addr entry.toBytes⟩

/-- Every section that closes, however its pass ended, publishes the head. -/
theorem announces_rest (rbm : Nat) :
    RestInvariant (platform rbm) (fun r s => s.Announces r) (fun r s => s.MayAnnounce r) where
  opened h hb := h.opened hb
  unopened h hb := h.unopened hb
  inside size := mayAnnounce_invariant rbm size
  closed h := h.accessEnd rbm
  buffers r := HeadWord.custody rbm r.layout _

end Scene

def Move.Faultless (l : RingLayout) (s : Scene) : Move Scene → Prop
  | .operate _ => True
  | .disturb change =>
    (s.Faultless l → (change s).Faultless l) ∧
      (change s).world.window.read l.headAddr 4 = s.world.window.read l.headAddr 4

theorem Move.faultless_act {l : RingLayout} {act : Act} (ha : act.SparesHead l) (s : Scene) :
    Move.Faultless l s (.disturb (·.act act)) :=
  ⟨fun h => h.act ha, (ha s).word⟩

theorem Move.faultless_expect {l : RingLayout} {agenda : List (List Act)}
    (ha : ∀ todo ∈ agenda, ∀ act ∈ todo, act.SparesHead l) (s : Scene) :
    Move.Faultless l s (.disturb (·.expect agenda)) :=
  ⟨fun h => ⟨h.healthy, ha⟩, rfl⟩

namespace Ring

variable {ring : Ring SourceRing DmaBuffer} {s : Scene} {r₀ : SourceRing}

def FaultlessRun (rbm : Nat) (l : RingLayout) (s : Ring SourceRing DmaBuffer × Scene) :
    List (Move Scene) → Prop
  | [] => True
  | move :: moves =>
    move.Faultless l s.2 ∧ FaultlessRun rbm l (move.apply (Scene.platform rbm) s) moves

abbrev Announced : Ring SourceRing DmaBuffer → Scene → Prop :=
  AtRest fun r s => s.Announces r

/-- As long as nothing goes wrong around a ring, all that it arms is published. -/
theorem run_announced (hl : ∀ r, ring.hw = some r → SourceRing.SameSetup r₀ r)
    (h : ring.Announced s) (rbm : Nat) {moves : List (Move Scene)}
    (hm : FaultlessRun rbm r₀.layout (ring, s) moves) :
    Announced (Ring.run (Scene.platform rbm) (ring, s) moves).1
      (Ring.run (Scene.platform rbm) (ring, s) moves).2 := by
  induction moves generalizing ring s with
  | nil => exact h
  | cons move moves ih =>
    obtain ⟨hfirst, hrest⟩ := hm
    cases move with
    | operate op =>
      have hl' := run_sameSetup (p := Scene.platform rbm) (w := s) hl [.operate op]
      exact ih hl' (h.perform (Scene.announces_rest rbm) op) hrest
    | disturb change =>
      obtain ⟨hfaultless, hkept⟩ := hfirst
      apply ih (s := change s) hl ?_ hrest
      intro r hr
      have hword := h r hr
      rw [← (hl r hr).layout] at hfaultless hkept
      exact ⟨hfaultless hword.toFaultless, hkept.trans hword.shown⟩

theorem setup_announced {rbm : Nat} {params : RingParams} {s' : Scene}
    (hs : Ring.setup (Scene.platform rbm) params s = (.ok ring, s')) (hr : ring.hw = some r₀)
    (hf : s'.Faultless r₀.layout) : ring.Announced s' := by
  obtain ⟨-, -, a, s₁, r, s₂, -, -, register, rfl, rfl⟩ := setup_eq_ok hs
  cases hr
  have hcreate := Scene.register_eq_ok register
  obtain ⟨hzero, -⟩ := SourceRing.create_resets hcreate
  obtain ⟨-, -, hshape⟩ := SourceRing.create_shape (congrArg Prod.fst hcreate)
  obtain ⟨hc, hshows⟩ := (Window.loadWord_eq_ok_iff (by decide)).mp hzero
  have hhead : r₀.head = 0 := by rw [hshape]
  refine .of_hw rfl ⟨hf, ?_⟩
  rw [hhead, SourceRing.pointerBytes_zero]
  exact Window.read_eq_ok_iff.mpr ⟨hc, LittleEndian.length_encode 4 0, hshows⟩

end Ring

end FrameRing
