import FrameRing.Proofs.SourceRing.MirrorDevice
import FrameRing.Proofs.Stack.Aiming
import FrameRing.Proofs.Stack.Beside

/-! # Byte order of the pointer words

Two stacks that differ in the byte order of their pointer words, each with its own device, are
driven by the same calls. They answer alike and stay the same but for the bytes of the pointer
words. The device may set any tail, but not deliver into an entry that was never armed: what lies
there could name the pointer words themselves. -/

namespace FrameRing

def RingParams.flipSwap (p : RingParams) : RingParams := { p with flags := p.flags.flipSwap }

def Ring.flipSwap {β : Type} (ring : Ring SourceRing β) : Ring SourceRing β :=
  { ring with hw := ring.hw.map SourceRing.flipSwap }

variable {l : RingLayout} {a : Allocation} {size rbm : Nat} {w w' : World}

theorem Ring.paired_flipSwap_iff {β : Type} {ring ring' : Ring SourceRing β} :
    Ring.Paired (fun r r' => r' = r.flipSwap) ring ring' ↔ ring' = ring.flipSwap := by
  constructor
  · rintro ⟨hsame, hhw⟩
    obtain ⟨geometry, state, table, cursor, hw, ringMem, stats⟩ := ring
    obtain ⟨geometry', state', table', cursor', hw', ringMem', stats'⟩ := ring'
    cases hsame
    cases hhw with
    | none => rfl
    | some h =>
      cases h
      rfl
  · rintro rfl
    refine ⟨rfl, ?_⟩
    rw [Ring.flipSwap]
    cases ring.hw with
    | none => exact .none
    | some r => exact .some rfl

namespace World

structure Mirrored (l : RingLayout) (a : Allocation) (r : SourceRing) (w : World) (r' : SourceRing)
    (w' : World) : Prop extends Beside (HostMemory.Mirrors l) w w' where
  flipped : r' = r.flipSwap
  layout : r.layout = l
  sound : r.Sound a

/-- The platform does the same in both byte orders. -/
theorem mirrored_simulation (rbm : Nat) (hl : l.Inside a) :
    Simulation (platform rbm) (platform rbm) (Mirrored l a) (Mirrored l a)
      (fun r r' => r' = r.flipSwap) (Beside (HostMemory.Mirrors l)) Eq
      (fun b : DmaBuffer => a.Outside b.allocation.addr b.size) where
  toCallSimulation :=
    beside_callSimulation rbm fun m m' hm b hb => hm.read hl.words.2.1 (hl.sparesWords hb)
  accessBegin := by
    rintro r w r' w' ⟨hbeside, rfl, rfl, hsound⟩
    have hbegin := r.accessBegin_flipSwap hbeside.memory
    simp only [platform, SourceRing.hardware, hbegin]
    rcases r.accessBegin_cases w.host.memory with ⟨e, he⟩ | ⟨tail, -, -, he⟩
    · rw [he]
      refine ⟨trivial, fun hok => ?_, fun _ _ => ⟨trivial, hbeside⟩⟩
      cases hok
    · rw [he]
      refine ⟨trivial, fun _ => ⟨hbeside, rfl, rfl, (hsound.open_ok he).2⟩, ?_⟩
      intro e herror
      cases herror
  accessEnd := by
    rintro r w r' w' ⟨hbeside, rfl, rfl, hsound⟩
    obtain ⟨⟨m, journal⟩, rest⟩ := w
    obtain ⟨⟨m', journal'⟩, rest'⟩ := w'
    cases hbeside.journal
    obtain ⟨hring, hjournal, hmemory⟩ := r.accessEnd_flipSwap hbeside.memory hl.words.2.1 journal
    exact ⟨hring, hbeside.rest, hjournal, hmemory⟩
  availableCount := by
    rintro r w r' w' ⟨-, rfl, -, -⟩
    rfl
  nextEntry := by
    rintro r w r' w' ⟨hbeside, rfl, rfl, hsound⟩
    have hmemory := r.nextEntry_memory w.host
    have hmemory' := r.flipSwap.nextEntry_memory w'.host
    obtain ⟨⟨m, journal⟩, rest⟩ := w
    obtain ⟨⟨m', journal'⟩, rest'⟩ := w'
    cases hbeside.journal
    obtain ⟨hfound, hjournal⟩ := r.nextEntry_flipSwap hbeside.memory hl journal
    refine ⟨?_, hbeside.keep hbeside.rest hjournal hmemory hmemory', rfl, rfl, hsound⟩
    simp only [platform, SourceRing.hardware, hfound]
    exact optionRel_refl _
  nextFreeEntry := by
    rintro r w r' w' h
    obtain rfl := h.flipped
    exact ⟨optionRel_refl _, h⟩
  setEntry := by
    rintro r w r' w' res res' ⟨hbeside, rfl, rfl, hsound⟩ rfl busAddr cookie
    obtain ⟨⟨m, journal⟩, rest⟩ := w
    obtain ⟨⟨m', journal'⟩, rest'⟩ := w'
    obtain ⟨hresult, hring, hmemory⟩ :=
      SourceRing.setEntry_flipSwap hbeside.memory hsound res busAddr cookie
    obtain ⟨-, hsound'⟩ := hsound.setEntry (m := m) res busAddr cookie
    have hlayout : (r.setEntry m res busAddr cookie).2.1.layout = r.layout := by
      rcases r.setEntry_cases m res busAddr cookie with
        ⟨e, he⟩ | ⟨entry, addr, -, -, -, -, -, -, he⟩
      · rw [he]
      · rw [he]
    exact ⟨hresult, ⟨hbeside.rest, hbeside.journal, hmemory⟩, hring, hlayout, hsound'⟩
  cookieOf := by
    rintro r w r' w' res res' - rfl
    rfl
  acquire := by
    rintro r w r' w' ⟨hbeside, hflipped, hlayout, hsound⟩ size
    obtain ⟨hresult, hbeside'⟩ := hbeside.acquire size
    exact ⟨hresult, hbeside', hflipped, hlayout, hsound⟩
  giveBack := by
    rintro r w r' w' ⟨hbeside, hflipped, hlayout, hsound⟩ b
    exact ⟨hbeside.release b, hflipped, hlayout, hsound⟩
  report := by
    rintro r w r' w' ⟨hbeside, hflipped, hlayout, hsound⟩ event
    exact ⟨hbeside.record event, hflipped, hlayout, hsound⟩

end World

theorem SourceRing.registrar_flipSwap (rbm : Nat) (reg : Registration) (w : World) :
    registrar rbm reg.flipSwap w =
      ((registrar rbm reg w).1.map flipSwap, (registrar rbm reg w).2) := by
  have hcreated := create_flipSwap reg rbm w.host.memory
  simp only [registrar, register, Host.record, hcreated]
  rfl

/-- Both rings are set up, in the same world, or neither. -/
theorem Ring.setup_flipSwap (rbm : Nat) (params : RingParams) (w : World) :
    Ring.setup (World.platform rbm) params.flipSwap w =
      ((Ring.setup (World.platform rbm) params w).1.map Ring.flipSwap,
        (Ring.setup (World.platform rbm) params w).2) := by
  have hregister (addr : Nat) (w : World) :
      (World.platform rbm).register (params.flipSwap.registration addr) w =
        (((World.platform rbm).register (params.registration addr) w).1.map SourceRing.flipSwap,
          ((World.platform rbm).register (params.registration addr) w).2) :=
    SourceRing.registrar_flipSwap rbm (params.registration addr) w
  have hvalid : params.flipSwap.validate = params.validate := rfl
  have hcapacity : params.flipSwap.capacity = params.capacity := rfl
  have hstride : params.flipSwap.entrySize = params.entrySize := rfl
  have hsize : params.flipSwap.bufferSize = params.bufferSize := rfl
  simp only [Ring.setup, hregister, hvalid, hcapacity, hstride, hsize]
  cases params.validate with
  | error e => rfl
  | ok =>
    simp only
    by_cases hroom : (World.platform rbm).hasTableRoom params.capacity w = false
    · simp only [if_pos hroom]
      rfl
    simp only [if_neg hroom]
    rcases (World.platform rbm).memory.alloc (RingLayout.querySize params.capacity
      params.entrySize) w with ⟨_ | a, w₁⟩
    · rfl
    simp only
    by_cases haligned : a.addr % RingLayout.baseAlign ≠ 0
    · simp only [if_pos haligned]
      rfl
    simp only [if_neg haligned]
    rcases (World.platform rbm).register (params.registration a.addr) w₁ with ⟨_ | r, w₂⟩
    · rfl
    · rfl

/-- A ring and the device behind it. -/
structure RingAndDevice where
  ring : Ring SourceRing DmaBuffer
  world : World
  device : Firmware
  /-- Positions armed since the ring was set up. They are armed in order, so that a position was
  armed if it is less than that. -/
  armed : Nat

namespace RingAndDevice

inductive Step where
  | attach
  | tryReap
  | reap
  | release
  | thresholdReached
  | deliverFrame (payload : List UInt8)
  | deliverRaw (bytes : List UInt8)
  | rewriteCookie (cookie : Nat)
  | setTail (tail : Nat)
  | peek
  deriving DecidableEq, Repr

inductive Reply where
  | nothing
  | attached (result : Except RingError Unit)
  | reaped (result : Except RingError Nat)
  | threshold (result : Option (Except SourceRingError Bool))
  | entry (result : Except FirmwareError RingEntry)
  | stored (result : Except FirmwareError Unit)
  deriving DecidableEq

def goOn (b : RingAndDevice) (out : Ring SourceRing DmaBuffer × World) : RingAndDevice :=
  { b with ring := out.1, world := out.2, armed := b.armed + b.ring.headway out.1 }

def setWindow (b : RingAndDevice) (window : Window) : RingAndDevice :=
  { b with world := b.world.setWindow window }

def step (rbm : Nat) (b : RingAndDevice) : Step → Reply × RingAndDevice
  | .attach =>
    let (result, out) := b.ring.attach (World.platform rbm) b.world
    (.attached result, b.goOn out)
  | .tryReap =>
    let (result, out) := b.ring.tryReap (World.platform rbm) b.world
    (.reaped result, b.goOn out)
  | .reap => (.nothing, b.goOn (b.ring.reap (World.platform rbm) b.world))
  | .release => (.nothing, b.goOn (b.ring.releaseAll (World.platform rbm) b.world))
  | .thresholdReached =>
    (.threshold (b.ring.hw.map fun r => r.thresholdReached b.world.host.memory), b)
  | .deliverFrame payload =>
    let (result, window) := b.device.deliverFrame b.world.window payload
    (.entry result, b.setWindow window)
  | .deliverRaw bytes =>
    let (result, window) := b.device.deliverRaw b.world.window bytes
    (.entry result, b.setWindow window)
  | .rewriteCookie cookie =>
    let (result, window) := b.device.rewriteCookie b.world.window cookie
    (.stored result, b.setWindow window)
  | .setTail tail =>
    let (result, window) := b.device.setTail b.world.window tail
    (.stored result, b.setWindow window)
  | .peek => (.entry (b.device.peek b.world.window), b)

def run (rbm : Nat) (b : RingAndDevice) : List Step → List Reply × RingAndDevice
  | [] => ([], b)
  | step :: steps =>
    let (reply, b) := b.step rbm step
    let (replies, b) := b.run rbm steps
    (reply :: replies, b)

/-- No delivery consumes a position that was never armed. -/
def Admits (b : RingAndDevice) : Step → Prop
  | .deliverFrame payload =>
    b.device.ConsumesBelow b.world.window b.armed
      (b.device.deliverFrame b.world.window payload).1
  | .deliverRaw bytes =>
    b.device.ConsumesBelow b.world.window b.armed (b.device.deliverRaw b.world.window bytes).1
  | _ => True

instance (b : RingAndDevice) (step : Step) : Decidable (b.Admits step) := by
  unfold Admits
  split <;> infer_instance

def AdmitsAll (rbm : Nat) (b : RingAndDevice) : List Step → Prop
  | [] => True
  | step :: steps => b.Admits step ∧ (b.step rbm step).2.AdmitsAll rbm steps

instance (rbm : Nat) : (b : RingAndDevice) → (steps : List Step) → Decidable (b.AdmitsAll rbm steps)
  | _, [] => .isTrue trivial
  | b, step :: steps =>
    have := instDecidableAdmitsAll rbm (b.step rbm step).2 steps
    inferInstanceAs (Decidable (b.Admits step ∧ (b.step rbm step).2.AdmitsAll rbm steps))

structure Matches (l : RingLayout) (a : Allocation) (size : Nat) (b b' : RingAndDevice) : Prop where
  ring : b'.ring = b.ring.flipSwap
  beside : World.Beside (HostMemory.Mirrors l) b.world b'.world
  device : b'.device = b.device.flipSwap
  armed : b'.armed = b.armed
  layout : b.device.layout = l
  fits : b.device.bufferSize ≤ size
  supplied : b.ring.Supplied l a size b.armed b.world

variable {b b' : RingAndDevice}

namespace Matches

theorem mirrored (h : Matches l a size b b') (hl : l.Inside a) (r r' : SourceRing)
    (hr : b.ring.hw = some r) (hr' : b'.ring.hw = some r') :
    World.Mirrored l a r b.world r' b'.world := by
  obtain ⟨t, -, haiming⟩ := h.supplied.hardware r hr
  have hlayout := haiming.layout
  rw [h.ring, Ring.flipSwap, hr] at hr'
  cases hr'
  exact ⟨h.beside, rfl, hlayout, hlayout ▸ hl, t, haiming.tracks⟩

theorem goOn (h : Matches l a size b b') {out out' : Ring SourceRing DmaBuffer × World}
    (hpaired : Ring.Paired (fun r r' => r' = r.flipSwap) out.1 out'.1)
    (hbeside : World.Beside (HostMemory.Mirrors l) out.2 out'.2)
    (hsupplied : out.1.Supplied l a size (b.armed + b.ring.headway out.1) out.2) :
    Matches l a size (b.goOn out) (b'.goOn out') := by
  have hring := Ring.paired_flipSwap_iff.mp hpaired
  have hheadway : b'.ring.headway out'.1 = b.ring.headway out.1 := by
    rw [h.ring, hring, Ring.headway, Ring.headway, Ring.flipSwap, Ring.flipSwap]
    cases b.ring.hw with
    | none => rfl
    | some r =>
      cases out.1.hw with
      | none => rfl
      | some r' => rfl
  refine ⟨hring, hbeside, h.device, ?_, h.layout, h.fits, hsupplied⟩
  simp only [RingAndDevice.goOn, h.armed, hheadway]

theorem setWindow (h : Matches l a size b b') {window window' : Window}
    (hm : window.Mirrors l window') (haimed : l.Aimed a size b.armed window) :
    Matches l a size (b.setWindow window) (b'.setWindow window') :=
  ⟨h.ring, ⟨h.beside.rest, h.beside.journal, hm, h.beside.memory.faults⟩, h.device, h.armed,
    h.layout, h.fits, h.supplied.setWindow haimed⟩

end Matches

/-- Each step is answered alike, and rings and devices still match. -/
theorem step_matches (hl : l.Inside a) (hn : 0 < l.numEntries) (h : Matches l a size b b')
    (rbm : Nat) {step : Step} (hs : b.Admits step) :
    (b.step rbm step).1 = (b'.step rbm step).1 ∧
      Matches l a size (b.step rbm step).2 (b'.step rbm step).2 := by
  have K := World.mirrored_simulation rbm hl
  have hpaired := Ring.paired_flipSwap_iff.mpr h.ring
  have hbefore := h.mirrored hl
  have hseen (r r' : SourceRing) (w' : World) (held : b.ring.hw = some r)
      (access : (World.platform rbm).hardware.accessBegin r b.world = (.ok (), r', w')) :=
    fun buf => h.supplied.retired_outside (b := buf) hl held access
      ((World.platform rbm).hardware.availableCount r' w')
  have hmirrors : b.world.window.Mirrors l b'.world.window := h.beside.memory.toMirrors
  have haimed := h.supplied.aimed
  obtain rfl := h.layout
  cases step with
  | attach =>
    obtain ⟨hresult, hring, hbeside⟩ := Ring.attach_simulation K hpaired h.beside hbefore
    exact ⟨congrArg Reply.attached hresult, h.goOn hring hbeside (h.supplied.attach hl rbm)⟩
  | tryReap =>
    obtain ⟨hresult, hring, hbeside⟩ := Ring.tryReap_simulation K hpaired h.beside hbefore hseen
    exact ⟨congrArg Reply.reaped hresult, h.goOn hring hbeside (h.supplied.tryReap hl rbm)⟩
  | reap =>
    obtain ⟨hring, hbeside⟩ := Ring.reap_simulation K hpaired h.beside hbefore hseen
    exact ⟨rfl, h.goOn hring hbeside (h.supplied.reap hl rbm)⟩
  | release =>
    obtain ⟨hring, hbeside⟩ := hpaired.releaseAll K.toCallSimulation h.beside
    exact ⟨rfl, h.goOn hring hbeside (h.supplied.releaseAll rbm)⟩
  | thresholdReached =>
    refine ⟨congrArg Reply.threshold ?_, h⟩
    rw [h.ring, Ring.flipSwap]
    cases hr : b.ring.hw with
    | none => rfl
    | some r =>
      obtain ⟨t, -, haiming⟩ := h.supplied.hardware r hr
      exact congrArg some (r.thresholdReached_flipSwap (haiming.layout ▸ h.beside.memory)).symm
  | deliverFrame payload =>
    obtain ⟨hresult, hwindow⟩ := Firmware.deliverFrame_mirrors hmirrors hl haimed h.fits hs
    have haimed' := haimed.deliverFrame hl hn h.fits hs
    simp only [RingAndDevice.step, h.device]
    exact ⟨congrArg Reply.entry hresult, h.setWindow hwindow haimed'⟩
  | deliverRaw bytes =>
    obtain ⟨hresult, hwindow⟩ := Firmware.deliverRaw_mirrors hmirrors hl haimed h.fits hs
    have haimed' := haimed.deliverRaw hl hn h.fits hs
    simp only [RingAndDevice.step, h.device]
    exact ⟨congrArg Reply.entry hresult, h.setWindow hwindow haimed'⟩
  | rewriteCookie cookie =>
    obtain ⟨hresult, hwindow⟩ := Firmware.rewriteCookie_flipSwap hmirrors hl cookie
    simp only [RingAndDevice.step, h.device]
    exact ⟨congrArg Reply.stored hresult, h.setWindow hwindow (haimed.rewriteCookie hl hn cookie)⟩
  | setTail tail =>
    obtain ⟨hresult, hwindow⟩ := Firmware.setTail_flipSwap hmirrors hl tail
    simp only [RingAndDevice.step, h.device]
    exact ⟨congrArg Reply.stored hresult, h.setWindow hwindow (haimed.setTail hl hn tail)⟩
  | peek =>
    refine ⟨congrArg Reply.entry ?_, h⟩
    rw [h.device]
    exact (Firmware.peek_flipSwap hmirrors hl).symm

theorem run_matches (hl : l.Inside a) (hn : 0 < l.numEntries) (h : Matches l a size b b')
    (rbm : Nat) {steps : List Step} (hs : b.AdmitsAll rbm steps) :
    (b.run rbm steps).1 = (b'.run rbm steps).1 ∧
      Matches l a size (b.run rbm steps).2 (b'.run rbm steps).2 := by
  induction steps generalizing b b' with
  | nil => exact ⟨rfl, h⟩
  | cons step steps ih =>
    obtain ⟨hfirst, hrest⟩ := hs
    obtain ⟨hreply, hnext⟩ := step_matches hl hn h rbm hfirst
    obtain ⟨hreplies, hend⟩ := ih hnext hrest
    refine ⟨?_, hend⟩
    simp only [run, hreply, hreplies]

/-- The byte order of the pointer words makes no difference. Two stacks that are set up in the same
world, one with swapped pointer words and one without, whatever is in memory and in the pool and
whichever accesses fail, are both set up or refused alike. From then on the same calls of the ring
and of its device return the same, deliver the same frames and report the same, as long as the
device does not deliver into a position that was never armed. The rings, the pools and the memories
stay the same, but for the flag and for the bytes of the head word and of the tail word, which are
in reverse order. -/
theorem swapped_pointers_are_transparent {slotSize base len : Nat} {slab : Slab}
    (hc : Slab.create slotSize base len = .ok slab)
    (hl : base + len / slotSize * slotSize ≤ addressLimit) (calls : List Slab.Call)
    (host : Host) (delivered : Array DmaBuffer) (room rbm : Nat) (params : RingParams) :
    let w : World := ⟨host, ((Slab.Tenancy.start slab).run calls).slab, delivered, room⟩
    let out := Ring.setup (World.platform rbm) params w
    Ring.setup (World.platform rbm) params.flipSwap w = (out.1.map Ring.flipSwap, out.2) ∧
    ∀ ring r, out.1 = .ok ring → ring.hw = some r → ∀ size, size ≤ params.bufferSize →
      let b : RingAndDevice := ⟨ring, out.2, .behind r size, 0⟩
      let b' : RingAndDevice := ⟨ring.flipSwap, out.2, .behind r.flipSwap size, 0⟩
      ∀ steps, b.AdmitsAll rbm steps →
        let s := b.run rbm steps
        let s' := b'.run rbm steps
        s.1 = s'.1 ∧ s'.2.ring = s.2.ring.flipSwap ∧
          s.2.world.rest = s'.2.world.rest ∧
          s.2.world.host.journal = s'.2.world.host.journal ∧
          s.2.world.window.Mirrors r.layout s'.2.world.window := by
  intro w out
  refine ⟨Ring.setup_flipSwap rbm params w, ?_⟩
  intro ring r hok hr size hsize b b' steps hsteps
  obtain ⟨-, -, howns⟩ := Slab.owns_create hc hl
  have hsound := (Slab.Tenancy.run_sound (t := .start slab) howns.toSound calls).1
  have hs : Ring.setup (World.platform rbm) params w = (.ok ring, out.2) := Prod.ext hok rfl
  obtain ⟨a, r', hr', hinside, hsupplied⟩ := Ring.setup_supplied (w := w) hsound hs
  cases hr.symm.trans hr'
  obtain ⟨-, r', -, -, -, -, -, hr', hhead, htail⟩ := Ring.setup_holds (w := w) hsound hs
  cases hr.symm.trans hr'
  obtain ⟨t, -, haiming⟩ := hsupplied.hardware r hr
  have hstart : Matches r.layout a params.bufferSize b b' :=
    ⟨rfl, ⟨rfl, rfl, .reset hhead htail, rfl⟩, rfl, rfl, rfl, hsize, hsupplied⟩
  obtain ⟨hreplies, hend⟩ := run_matches hinside haiming.entries_pos hstart rbm hsteps
  exact ⟨hreplies, hend.ring, hend.beside.rest, hend.beside.journal, hend.beside.memory.toMirrors⟩

/-- A tail that is set back, a cookie that is forged, and the reap that finds out. The stack that
swaps holds its last tail, 2, the other way round. -/
theorem swapped_pointers_are_transparent_forged :
    let slab : Slab := ⟨0, 64, Array.replicate 8 false, none⟩
    let params : RingParams := (RingParams.ofSizes 4 8 64).withReapThreshold 1
    let steps : List Step := [.attach, .deliverFrame [7, 8], .thresholdReached, .tryReap,
      .deliverRaw [1], .setTail 1, .rewriteCookie 9, .peek, .setTail 2, .reap]
    ∃ ring w r, Ring.setup (World.platform 3) params
        ⟨.ofWindow (.zeroed 0 512), slab, #[], 8⟩ = (.ok ring, w) ∧ ring.hw = some r ∧
      let b : RingAndDevice := ⟨ring, w, .behind r 64, 0⟩
      let b' : RingAndDevice := ⟨ring.flipSwap, w, .behind r.flipSwap 64, 0⟩
      b.AdmitsAll 3 steps ∧ (b.run 3 steps).1 = (b'.run 3 steps).1 ∧
        (b'.run 3 steps).2.ring.state = .faulted ∧
        (b'.run 3 steps).2.world.window.read 36 4 = .ok [0, 0, 0, 2] := by
  intro slab params steps
  have hc : Slab.create 64 0 512 = .ok slab := rfl
  have hstart : ∃ ring w, Ring.setup (World.platform 3) params
        ⟨.ofWindow (.zeroed 0 512), slab, #[], 8⟩ = (.ok ring, w) ∧ ring.hw.isSome ∧
      ∀ r ∈ ring.hw,
        let b : RingAndDevice := ⟨ring, w, .behind r 64, 0⟩
        b.AdmitsAll 3 steps ∧ (b.run 3 steps).2.ring.state = .faulted ∧
          r.layout.tailAddr = 36 ∧
          (b.run 3 steps).2.world.window.read 36 4 = .ok [2, 0, 0, 0] := by
    decide +kernel
  obtain ⟨ring, w, hs, hset, hrun⟩ := hstart
  obtain ⟨r, hr⟩ := Option.isSome_iff_exists.mp hset
  obtain ⟨hadmits, hfaulted, htail, hword⟩ := hrun r hr
  refine ⟨ring, w, r, hs, hr, hadmits, ?_⟩
  obtain ⟨-, htransparent⟩ := swapped_pointers_are_transparent hc (by decide) []
    (.ofWindow (.zeroed 0 512)) #[] 8 3 params
  have hidle : ((Slab.Tenancy.start slab).run []).slab = slab := rfl
  rw [hidle] at htransparent
  obtain rfl : (Ring.setup (World.platform 3) params
    ⟨.ofWindow (.zeroed 0 512), slab, #[], 8⟩).2 = w := congrArg Prod.snd hs
  obtain ⟨hreplies, hring, -, -, hmirrors⟩ := htransparent ring r (congrArg Prod.fst hs) hr 64
    (by decide) steps hadmits
  have hmirrored := hmirrors.words r.layout.tailAddr (.inr rfl)
  rw [htail] at hmirrored
  refine ⟨hreplies, ?_, hmirrored.trans ?_⟩
  · rw [hring]
    exact hfaulted
  · rw [hword]
    rfl

end RingAndDevice

end FrameRing
