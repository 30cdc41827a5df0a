import FrameRing.Proofs.Stack.Service

/-! # Traffic through a stack

A device, a ring, its consumer and other users of the pool take turns in any order. What the
consumer got is always a front part of what the device sent, byte for byte. -/

namespace FrameRing

inductive Event where
  | frame (payload : List UInt8)
  | tryReap
  | reap
  | pool (move : PoolMove)
  | drop (idx : Nat)
  deriving DecidableEq, Repr

/-- An attached ring over shared memory, with a device, a consumer and other users of the pool. -/
structure Stack where
  ring : Ring SourceRing DmaBuffer
  world : World
  firmware : Firmware
  sent : List (List UInt8)
  received : List (List UInt8)
  kept : List DmaBuffer
  others : List Allocation

namespace Stack

def collect (s : Stack) : Stack :=
  let (frames, world) := s.world.collect
  { s with
    world
    received := s.received ++ frames.toList.map DmaBuffer.data
    kept := frames.toList ++ s.kept }

def start (ring : Ring SourceRing DmaBuffer) (world : World) (firmware : Firmware)
    (others : List Allocation) : Stack :=
  ⟨ring, world, firmware, [], [], [], others⟩

/-- Lay a pool over a part of memory, let other users take from it and bring a ring into service,
with a device behind it that puts up to `capacity` bytes into a buffer. -/
def bringUp (window : Window) (slotSize base len : Nat) (before : List PoolMove)
    (params : RingParams) (rbm capacity : Nat) : Option Stack :=
  match World.create window slotSize base len with
  | .error _ => none
  | .ok w =>
    let (w, others) := before.foldl PoolMove.apply (w, [])
    match Ring.setup (World.platform rbm) params w with
    | (.error _, _) => none
    | (.ok ring, w) =>
      match ring.attach (World.platform rbm) w with
      | (.error _, _, _) => none
      | (.ok _, ring, w) => ring.hw.map fun r => start ring w (.behind r capacity) others

variable (rbm : Nat)

def step (s : Stack) : Event → Stack
  | .frame payload =>
    match s.firmware.deliverFrame s.world.window payload with
    | (.error _, window) => { s with world := s.world.setWindow window }
    | (.ok _, window) =>
      { s with world := s.world.setWindow window, sent := s.sent ++ [payload] }
  | .tryReap =>
    let (_, ring, world) := s.ring.tryReap (World.platform rbm) s.world
    { s with ring, world }.collect
  | .reap =>
    let (ring, world) := s.ring.reap (World.platform rbm) s.world
    { s with ring, world }.collect
  | .pool move =>
    let (world, others) := move.apply (s.world, s.others)
    { s with world, others }
  | .drop idx =>
    match s.kept[idx]? with
    | none => s
    | some b => { s with world := World.release b s.world, kept := s.kept.eraseIdx idx }

def run (s : Stack) (events : List Event) : Stack := events.foldl (step rbm) s

end Stack

theorem PoolMove.apply_owns {w : World} {held rest : List Allocation}
    (h : w.Owns (held ++ rest)) (move : PoolMove) :
    let s := move.apply (w, held)
    s.1.Owns (s.2 ++ rest) ∧ s.1.window = w.window ∧ s.1.rest.delivered = w.rest.delivered := by
  obtain ⟨slab, hmoved, howns, hrange⟩ := move.apply_eq h.toOwns
  simp only [hmoved]
  exact ⟨h.setSlab howns hrange, rfl, rfl⟩

theorem PoolMove.run_owns {w : World} {held rest : List Allocation}
    (h : w.Owns (held ++ rest)) (moves : List PoolMove) :
    let s := moves.foldl PoolMove.apply (w, held)
    s.1.Owns (s.2 ++ rest) ∧ s.1.window = w.window ∧ s.1.rest.delivered = w.rest.delivered := by
  induction moves generalizing w held with
  | nil => exact ⟨h, rfl, rfl⟩
  | cons move moves ih =>
    obtain ⟨howns, hwindow, hquiet⟩ := apply_owns h move
    obtain ⟨howns', hwindow', hquiet'⟩ := ih howns
    exact ⟨howns', hwindow'.trans hwindow, hquiet'.trans hquiet⟩

namespace Stack

/-- The ring is in service, and the consumer got the payloads of all frames that were reaped. -/
structure Faithful (a : Allocation) (r : SourceRing) (t : Tally) (posted : List DmaBuffer)
    (s : Stack) : Prop where
  service : s.ring.InService s.firmware a s.sent
    (s.kept.map DmaBuffer.allocation ++ s.others) r t posted s.world
  received_eq : s.received = (s.sent.take t.reaped).filter (· ≠ [])

variable {a : Allocation} {rbm : Nat} {r : SourceRing} {t : Tally} {posted : List DmaBuffer}
  {s : Stack}

theorem Faithful.frame (h : s.Faithful a r t posted) (payload : List UInt8) :
    (s.step rbm (.frame payload)).Faithful a r t posted := by
  have hreaped := Nat.le_trans h.service.flow.holds.reaped_le h.service.flow.accepted_le
  rcases h.service.flow.deliverFrame h.service.published payload with
    ⟨e, hrefused⟩ | ⟨entry, window, hsent, hflow, hpublished⟩
  · simp only [step, hrefused]
    exact h
  · simp only [step, hsent]
    refine ⟨⟨h.service.active, h.service.hw, h.service.closed, hflow, h.service.slotsInOrder,
      hpublished, h.service.quiet⟩, ?_⟩
    rw [List.take_append_of_le_length hreaped]
    exact h.received_eq

/-- A reap hands on the payloads of the completions that it takes, all of them unless it counts
backpressure. -/
theorem Faithful.tryReap (h : s.Faithful a r t posted) (rbm : Nat) :
    let s' := s.step rbm .tryReap
    (∃ n, (s.ring.tryReap (World.platform rbm) s.world).1 = .ok n) ∧
      ∃ r' t' posted', s'.Faithful a r' t' posted' ∧
        (s'.ring.stats.backpressure = s.ring.stats.backpressure → t'.reaped = s'.sent.length) := by
  obtain ⟨n, ring', w', r', t', posted', frames, htry, hframes, hdata, hle, hall, hservice⟩ :=
    h.service.tryReap rbm
  simp only [step, htry]
  subst hframes
  refine ⟨⟨n, rfl⟩, r', t', posted', ⟨?_, ?_⟩, hall⟩
  · change Ring.InService s.firmware a s.sent
      ((w'.rest.delivered.toList ++ s.kept).map DmaBuffer.allocation ++ s.others) r' t' posted'
      ring' w'.collect.2
    rw [List.map_append, List.append_assoc]
    exact hservice
  · change s.received ++ w'.rest.delivered.toList.map DmaBuffer.data =
      (s.sent.take t'.reaped).filter (· ≠ [])
    rw [h.received_eq, hdata, ← List.filter_append, ← List.take_add, Nat.add_sub_of_le hle]

theorem Faithful.reap_eq (h : s.Faithful a r t posted) :
    s.step rbm .reap = s.step rbm .tryReap := by
  obtain ⟨⟨n, hok⟩, -⟩ := h.tryReap rbm
  simp only [step, Ring.reap]
  rcases htry : s.ring.tryReap (World.platform rbm) s.world with ⟨_ | _, ring, world⟩
  · rw [htry] at hok
    cases hok
  · rfl

theorem Faithful.owns (h : s.Faithful a r t posted) :
    s.world.Owns ((s.kept.map DmaBuffer.allocation ++ s.others) ++
      (a :: (posted.drop t.reaped).map DmaBuffer.allocation)) := by
  refine h.service.flow.owns.perm ?_
  rw [← List.cons_append]
  exact List.perm_append_comm

theorem Faithful.share (h : s.Faithful a r t posted) {world : World} {kept : List DmaBuffer}
    {others : List Allocation} (hw : world.window = s.world.window)
    (hq : world.rest.delivered = s.world.rest.delivered)
    (ho : world.Owns ((kept.map DmaBuffer.allocation ++ others) ++
      (a :: (posted.drop t.reaped).map DmaBuffer.allocation))) :
    Faithful a r t posted { s with world, kept, others } where
  service :=
    { h.service with
      flow := h.service.flow.share hw (ho.perm List.perm_append_comm)
      published := hw ▸ h.service.published
      quiet := hq.trans h.service.quiet }
  received_eq := h.received_eq

theorem step_faithful (h : s.Faithful a r t posted) (rbm : Nat) (event : Event) :
    ∃ r' t' posted', (s.step rbm event).Faithful a r' t' posted' := by
  cases event with
  | frame payload => exact ⟨r, t, posted, h.frame payload⟩
  | tryReap =>
    obtain ⟨-, r', t', posted', hstep, -⟩ := h.tryReap rbm
    exact ⟨r', t', posted', hstep⟩
  | reap =>
    obtain ⟨-, r', t', posted', hstep, -⟩ := h.tryReap rbm
    rw [h.reap_eq]
    exact ⟨r', t', posted', hstep⟩
  | pool move =>
    have howns := h.owns
    rw [List.append_assoc] at howns
    obtain ⟨hmoved, hwindow, hquiet⟩ :=
      move.apply_owns (howns.perm (List.perm_append_comm_assoc ..))
    refine ⟨r, t, posted, h.share hwindow hquiet ?_⟩
    rw [List.append_assoc]
    exact hmoved.perm (List.perm_append_comm_assoc ..)
  | drop idx =>
    simp only [step]
    cases hidx : s.kept[idx]? with
    | none => exact ⟨r, t, posted, h⟩
    | some b =>
      have hperm := (perm_eraseIdx hidx).map DmaBuffer.allocation
      obtain ⟨slab, hreleased, howns⟩ := World.Owns.release
        (h.owns.perm ((hperm.append_right s.others).append_right _))
      simp only [hreleased]
      exact ⟨r, t, posted, h.share rfl rfl howns⟩

theorem run_faithful (h : s.Faithful a r t posted) (rbm : Nat) (events : List Event) :
    ∃ r' t' posted', (s.run rbm events).Faithful a r' t' posted' := by
  induction events generalizing s r t posted with
  | nil => exact ⟨r, t, posted, h⟩
  | cons event events ih =>
    obtain ⟨r', t', posted', hstep⟩ := step_faithful h rbm event
    exact ih hstep

theorem owns_before {window : Window} {slotSize base len : Nat} {w : World}
    (hw : World.create window slotSize base len = .ok w)
    (hregion : window.Covers base (len / slotSize * slotSize))
    (hlimit : base + len / slotSize * slotSize ≤ 1 <<< 40) (before : List PoolMove) :
    let s := before.foldl PoolMove.apply (w, [])
    s.1.Owns s.2 ∧ s.1.rest.delivered = #[] := by
  unfold World.create at hw
  split at hw
  · cases hw
  rename_i slab hslab
  cases hw
  obtain ⟨hbase, hcapacity, hslab⟩ := Slab.owns_create hslab (by rw [addressLimit]; omega)
  rw [← hbase, ← hcapacity] at hregion hlimit
  have hfresh : (World.fresh window slab).Owns ([] ++ []) :=
    ⟨hslab, rfl, hregion, hlimit⟩
  obtain ⟨howns, -, hquiet⟩ := PoolMove.run_owns hfresh before
  rw [List.append_nil] at howns
  exact ⟨howns, hquiet⟩

theorem bringUp_faithful {window : Window} {slotSize base len capacity : Nat}
    {before : List PoolMove} {params : RingParams}
    (hup : bringUp window slotSize base len before params rbm capacity = some s)
    (hregion : window.Covers base (len / slotSize * slotSize))
    (hlimit : base + len / slotSize * slotSize ≤ 1 <<< 40) (hcap : capacity ≤ params.bufferSize) :
    ∃ a r t posted, s.Faithful a r t posted := by
  unfold bringUp at hup
  split at hup
  · cases hup
  rename_i w hw
  obtain ⟨howns, hquiet⟩ := owns_before hw hregion hlimit before
  generalize before.foldl PoolMove.apply (w, []) = held at hup howns hquiet
  simp only at hup
  split at hup
  · cases hup
  rename_i ring w₁ hs
  split at hup
  · cases hup
  rename_i ring' w₂ ha
  obtain ⟨r, hr, rfl⟩ := Option.map_eq_some_iff.mp hup
  obtain ⟨a, t, posted, hservice⟩ := Ring.attach_inService howns hquiet hcap hs ha hr
  exact ⟨a, r, t, posted, hservice, by simp [start]⟩

/-- Frames arrive in the order in which they were sent, byte for byte. The consumer is behind the
device only by what was not reaped yet, and after a reap without backpressure by nothing. -/
theorem frames_arrive_in_order {window : Window} {slotSize base len rbm capacity : Nat}
    {before : List PoolMove} {params : RingParams} {s₀ : Stack}
    (hup : bringUp window slotSize base len before params rbm capacity = some s₀)
    (hregion : window.Covers base (len / slotSize * slotSize))
    (hlimit : base + len / slotSize * slotSize ≤ 1 <<< 40) (hcap : capacity ≤ params.bufferSize)
    (events : List Event) :
    let s := s₀.run rbm events
    s.received <+: s.sent.filter (· ≠ []) ∧
      (∃ n, (s.ring.tryReap (World.platform rbm) s.world).1 = .ok n) ∧
      ∀ event, event = .tryReap ∨ event = .reap →
        let s' := s.step rbm event
        s'.ring.stats.backpressure = s.ring.stats.backpressure →
        s'.received = s'.sent.filter (· ≠ []) := by
  intro s
  obtain ⟨a, r₀, t₀, posted₀, hstart⟩ := bringUp_faithful hup hregion hlimit hcap
  obtain ⟨r, t, posted, h⟩ := run_faithful hstart rbm events
  obtain ⟨hok, r', t', posted', hnext, hall⟩ := h.tryReap rbm
  refine ⟨?_, hok, ?_⟩
  · rw [h.received_eq]
    exact (List.take_prefix _ _).filter _
  · intro event hevent s' hsame
    have hreap : s.step rbm event = s.step rbm .tryReap := by
      rcases hevent with rfl | rfl
      · rfl
      · exact h.reap_eq
    simp only [s', hreap] at hsame ⊢
    rw [hnext.received_eq, hall hsame, List.take_length]

theorem frames_arrive_after_dry_pool :
    let up := bringUp (.zeroed 0 256) 64 0 256 [.alloc 64] (.ofSizes 2 8 16) 3 16
    ∃ h : up.isSome,
      let s := (up.get h).run 3
        [.frame [7], .pool (.alloc 64), .tryReap, .pool (.free 0), .reap, .drop 0, .frame [],
          .tryReap, .frame [8, 9], .tryReap, .frame [1]]
      s.ring.stats.backpressure = 1 ∧ s.sent = [[7], [], [8, 9], [1]] ∧
        s.received = [[7], [8, 9]] ∧ s.received <+: s.sent.filter (· ≠ []) :=
  ⟨by decide +kernel, by decide +kernel, by decide +kernel, by decide +kernel,
    (frames_arrive_in_order (Option.some_get _).symm (by decide +kernel) (by decide) (by decide)
      _).1⟩

end Stack

end FrameRing
