import FrameRing.Proofs.Stack.Flow
import FrameRing.Proofs.Stack.Holdings

/-! # A ring and an orderly device

The device keeps to the entries that were published, and nobody else writes to the ring. Then each
call of the ring finds its entries as they were armed, whatever took place before it. -/

namespace FrameRing

/-- The device keeps to its ring, once there is one, and what is stored does not touch the ring. -/
def Act.Orderly (fw : Option Firmware) : Act → Prop
  | .pool _ | .drop _ | .intoBytes _ | .heap _ => True
  | .device fw' _ => fw = some fw'
  | .store addr bytes => ∃ fw' ∈ fw,
    addr + bytes.length ≤ fw'.layout.extent.addr ∨
      fw'.layout.extent.addr + fw'.layout.extent.len ≤ addr
  | .memory _ => False

instance (fw : Option Firmware) : (act : Act) → Decidable (act.Orderly fw)
  | .pool _ | .drop _ | .intoBytes _ | .heap _ => isTrue trivial
  | .device _ _ => inferInstanceAs (Decidable (_ = _))
  | .store _ _ => inferInstanceAs (Decidable (∃ _ ∈ fw, _))
  | .memory _ => isFalse id

def OrderlyAgenda (fw : Option Firmware) (agenda : List (List Act)) : Prop :=
  ∀ todo ∈ agenda, ∀ act ∈ todo, act.Orderly fw

instance (fw : Option Firmware) (agenda : List (List Act)) : Decidable (OrderlyAgenda fw agenda) :=
  inferInstanceAs (Decidable (∀ todo ∈ agenda, ∀ act ∈ todo, act.Orderly fw))

theorem PoolMove.apply_memory (w : World) (held : List Allocation) (move : PoolMove) :
    (move.apply (w, held)).1.host.memory = w.host.memory := by
  cases move with
  | alloc len =>
    simp only [apply, World.alloc]
    rcases w.rest.slab.alloc len with ⟨_ | _, slab⟩ <;> rfl
  | free idx =>
    simp only [apply]
    cases held[idx]? <;> rfl

theorem perm_rearm {α : Type} (l hand : List α) (b : α) (c : Nat) :
    (l ++ b :: hand).Perm ((l.drop c ++ [b]) ++ (l.take c ++ hand)) := by
  have hcut : (l.take c ++ l.drop c).Perm (l.drop c ++ l.take c) := List.perm_append_comm
  rw [List.take_append_drop] at hcut
  refine (hcut.append_right (b :: hand)).trans ?_
  rw [List.append_assoc, List.append_assoc]
  exact List.perm_middle.append_left (l.drop c)

namespace Scene

theorem act_agenda (s : Scene) (act : Act) : (s.act act).agenda = s.agenda := by
  cases act with
  | pool move => rfl
  | drop idx =>
    simp only [Scene.act]
    cases s.world.takeFrame idx <;> rfl
  | intoBytes idx =>
    simp only [Scene.act]
    cases s.world.takeFrame idx <;> rfl
  | device fw move => rfl
  | store addr bytes => rfl
  | memory change => rfl
  | heap room => rfl

/-- The pool and its users do not write to memory, and neither does the consumer. -/
theorem act_memory (s : Scene) {act : Act} (h : act.Orderly none) :
    (s.act act).world.host.memory = s.world.host.memory := by
  have hrelease (idx : Nat) {b : DmaBuffer} {world : World}
      (ht : s.world.takeFrame idx = some (b, world)) :
      (World.release b world).host.memory = s.world.host.memory := by
    rw [World.release_memory, (takeFrame_eq_some ht).1]
  cases act with
  | pool move => exact move.apply_memory s.world s.others
  | drop idx =>
    simp only [Scene.act]
    cases ht : s.world.takeFrame idx with
    | none => rfl
    | some taken => exact hrelease idx ht
  | intoBytes idx =>
    simp only [Scene.act]
    cases ht : s.world.takeFrame idx with
    | none => rfl
    | some taken => exact hrelease idx ht
  | device fw move => cases h
  | store addr bytes =>
    obtain ⟨fw, hfw, -⟩ := h
    cases hfw
  | memory change => cases h
  | heap room => rfl

theorem accessEnd_healthy (rbm : Nat) {r : SourceRing} {s : Scene} (hs : r.inAccess = true)
    (hf : s.turn.world.host.memory.faults = [])
    (hc : s.turn.world.window.Covers r.layout.headAddr 4) :
    (platform rbm).hardware.accessEnd r s =
      ({ r with inAccess := false },
        { s.turn with world := s.turn.world.setWindow (s.turn.world.window.write
          r.layout.headAddr (SourceRing.pointerBytes r.flags r.head)).2 }) := by
  have hend : r.accessEnd s.turn.world.host = _ :=
    SourceRing.accessEnd_healthy s.turn.world.host.journal hs hf hc
  change s.call (SourceRing.hardware.accessEnd r) = _
  simp only [call, SourceRing.hardware, hend]
  rfl

end Scene

/-- Where a ring is at work: the device behind it, the memory it lies in, the region of the pool
and the return buffer manager of its entries. -/
structure Site where
  firmware : Firmware
  ringMem : Allocation
  base : Nat
  capacity : Nat
  rbm : Nat

def Site.entries (site : Site) : Nat := site.firmware.layout.numEntries

/-- The device consumed some of the `published` entries, and all that were armed and not reaped
lie in memory as they were armed. The host holds the buffers armed and those in `hand`. -/
structure Scene.Consistent (site : Site) (published : Nat) (hand : List DmaBuffer) (r : SourceRing)
    (t : Tally) (posted : List DmaBuffer) (s : Scene) : Prop where
  wired : site.firmware = Firmware.behind r site.firmware.bufferSize
  rbm_eq : r.rbm % (1 <<< 3) = site.rbm
  holds : r.Holds s.world.window t (armedAs r.numEntries posted)
  inside : r.layout.Inside site.ringMem
  small : r.numEntries ≤ 1 <<< 21
  shared : ∃ consumed, t.accepted ≤ consumed ∧ consumed ≤ published ∧
    r.Shared s.world.window published consumed
  published_le : published ≤ t.armed
  sized : ∀ k b, t.reaped ≤ k → posted[k]? = some b →
    site.firmware.bufferSize ≤ b.allocation.len
  account : s.Account site.base site.capacity [] (some site.ringMem)
    (posted.drop t.reaped ++ hand)
  healthy : s.world.host.memory.faults = []
  mapped : s.world.window.Covers site.base site.capacity
  reach : site.base + site.capacity ≤ 1 <<< 40
  agenda : OrderlyAgenda (some site.firmware) s.agenda

namespace Scene.Consistent

variable {site : Site} {published rbm : Nat} {hand hand' : List DmaBuffer} {r : SourceRing}
  {t : Tally} {posted : List DmaBuffer} {s s' : Scene} {b : DmaBuffer}

theorem length_posted (h : s.Consistent site published hand r t posted) :
    posted.length = t.armed := by
  rw [← h.holds.length, length_armedAs]

theorem entries_eq (h : s.Consistent site published hand r t posted) :
    r.numEntries = site.entries :=
  congrArg (fun fw => fw.layout.numEntries) h.wired.symm

theorem owns (h : s.Consistent site published hand r t posted) :
    s.world.Owns (site.ringMem ::
      ((posted.drop t.reaped ++ hand).map DmaBuffer.allocation ++ s.elsewhere)) := by
  have hkeeps : s.world.Keeps site.base site.capacity (site.ringMem ::
      ((posted.drop t.reaped ++ hand).map DmaBuffer.allocation ++ s.elsewhere)) :=
    World.Keeps.perm h.account ((List.perm_append_singleton _ _).append_right s.elsewhere)
  refine ⟨hkeeps.toOwns, h.healthy, ?_, ?_⟩
  · rw [hkeeps.base_eq, hkeeps.capacity_eq]
    exact h.mapped
  · rw [hkeeps.base_eq, hkeeps.capacity_eq]
    exact h.reach

theorem covers (h : s.Consistent site published hand r t posted) :
    s.world.window.Covers site.ringMem.addr site.ringMem.len :=
  h.owns.covers List.mem_cons_self

theorem buffer_apart (h : s.Consistent site published hand r t posted) {k busAddr cookie : Nat}
    (hk : t.reaped ≤ k) (hp : (armedAs r.numEntries posted)[k]? = some (busAddr, cookie)) :
    busAddr + site.firmware.bufferSize ≤ site.ringMem.addr ∨
      site.ringMem.addr + site.ringMem.len ≤ busAddr := by
  rw [getElem?_armedAs, Option.map_eq_some_iff] at hp
  obtain ⟨b, hb, heq⟩ := hp
  cases heq
  have hlen := h.sized k b hk hb
  have hmem : b ∈ posted.drop t.reaped ++ hand := by
    refine List.mem_append_left _ (List.mem_of_getElem? (i := k - t.reaped) ?_)
    rw [List.getElem?_drop, Nat.add_sub_of_le hk, hb]
  have hap := h.owns.apart_of_cons (List.mem_append_left _ (List.mem_map_of_mem hmem))
  omega

theorem share (h : s.Consistent site published hand r t posted)
    (hm : s'.world.host.memory = s.world.host.memory) (hg : s'.agenda = s.agenda)
    (ha : s'.Account site.base site.capacity [] (some site.ringMem)
      (posted.drop t.reaped ++ hand')) : s'.Consistent site published hand' r t posted := by
  have hw : s'.world.window = s.world.window := congrArg HostMemory.window hm
  exact
    { wired := h.wired
      rbm_eq := h.rbm_eq
      holds := hw ▸ h.holds
      inside := h.inside
      small := h.small
      shared := hw ▸ h.shared
      published_le := h.published_le
      sized := h.sized
      account := ha
      healthy := hm ▸ h.healthy
      mapped := hw ▸ h.mapped
      reach := h.reach
      agenda := hg ▸ h.agenda }

theorem setWindow (h : s.Consistent site published hand r t posted) {window : Window}
    (hbase : window.base = s.world.window.base) (hsize : window.size = s.world.window.size)
    (hholds : r.Holds window t (armedAs r.numEntries posted))
    (hshared : ∃ consumed, t.accepted ≤ consumed ∧ consumed ≤ published ∧
      r.Shared window published consumed) :
    Consistent site published hand r t posted { s with world := s.world.setWindow window } :=
  { h with
    holds := hholds
    shared := hshared
    account := World.Keeps.setMemory h.account _
    mapped := by
      have hmapped := h.mapped
      rw [Window.Covers, ← hbase, ← hsize] at hmapped
      exact hmapped }

theorem device (h : s.Consistent site published hand r t posted) (move : DeviceMove) :
    (s.act (.device site.firmware move)).Consistent site published hand r t posted := by
  obtain ⟨consumed, hlow, hhigh, hshared⟩ := h.shared
  have hsmall := h.small
  obtain ⟨hbase, hsize, hholds, consumed', hlow', hhigh', hshared'⟩ :=
    Firmware.move_spares hshared h.holds h.inside h.covers (by omega)
      (Nat.le_trans h.holds.reaped_le hlow) hhigh h.published_le
      (fun k busAddr cookie hk hp => h.buffer_apart hk hp) move
  rw [← h.wired] at hbase hsize hholds hshared'
  exact h.setWindow hbase hsize hholds ⟨consumed', Nat.le_trans hlow hlow', hhigh', hshared'⟩

theorem store (h : s.Consistent site published hand r t posted) {addr : Nat} {bytes : List UInt8}
    (ho : (Act.store addr bytes).Orderly (some site.firmware)) :
    (s.act (.store addr bytes)).Consistent site published hand r t posted := by
  obtain ⟨fw, hfw, hout⟩ := ho
  cases hfw
  obtain ⟨consumed, hlow, hhigh, hshared⟩ := h.shared
  have hinside := h.inside.extent
  have hlayout : site.firmware.layout = r.layout := congrArg Firmware.layout h.wired
  rw [hlayout] at hout
  have hw := hinside.words
  exact h.setWindow Window.base_write Window.size_write (h.holds.write hinside (by omega))
    ⟨consumed, hlow, hhigh, hshared.write hinside hout⟩

theorem act (h : s.Consistent site published hand r t posted) {act : Act}
    (ho : act.Orderly (some site.firmware)) :
    (s.act act).Consistent site published hand r t posted := by
  have hquiet (hq : act.Orderly none) : (s.act act).Consistent site published hand r t posted :=
    h.share (s.act_memory hq) (s.act_agenda act) (Keeps.act h.account act)
  cases act with
  | pool move => exact hquiet trivial
  | drop idx => exact hquiet trivial
  | intoBytes idx => exact hquiet trivial
  | device fw move =>
    cases ho
    exact h.device move
  | store addr bytes => exact h.store ho
  | memory change => cases ho
  | heap room => exact hquiet trivial

theorem acts (h : s.Consistent site published hand r t posted) {todo : List Act}
    (ho : ∀ act ∈ todo, act.Orderly (some site.firmware)) :
    (s.acts todo).Consistent site published hand r t posted := by
  induction todo generalizing s with
  | nil => exact h
  | cons act todo ih =>
    exact ih (h.act (ho act List.mem_cons_self)) fun a ha => ho a (List.mem_cons_of_mem act ha)

theorem expect (h : s.Consistent site published hand r t posted) {agenda : List (List Act)}
    (ha : OrderlyAgenda (some site.firmware) agenda) :
    (s.expect agenda).Consistent site published hand r t posted :=
  { h with agenda := ha }

theorem turn (h : s.Consistent site published hand r t posted) :
    s.turn.Consistent site published hand r t posted := by
  have hagenda := h.agenda
  unfold Scene.turn
  split
  · exact h
  · rename_i todo agenda heq
    rw [heq] at hagenda
    have hrest : OrderlyAgenda (some site.firmware) agenda := fun group hg =>
      hagenda group (List.mem_cons_of_mem todo hg)
    exact (h.expect hrest).acts (hagenda todo List.mem_cons_self)

theorem accessBegin (h : s.Consistent site published hand r t posted) (rbm : Nat)
    (hs : r.inAccess = false) :
    ∃ tail, (platform rbm).hardware.accessBegin r s =
        (.ok (), { r with cachedTail := tail % r.numEntries, inAccess := true }, s.turn) ∧
      s.turn.Consistent site published hand
        { r with cachedTail := tail % r.numEntries, inAccess := true }
        { t with accepted := tail } posted := by
  have ht := h.turn
  obtain ⟨consumed, hlow, hhigh, hshared⟩ := ht.shared
  have hw := ht.inside.words
  have hsmall := ht.small
  obtain ⟨hopen, htracks⟩ := ht.holds.accessBegin_healthy hs ht.healthy
    (ht.covers.sub (by omega) (by omega)) hshared.tail (by omega) hlow
    (Nat.le_trans hhigh ht.published_le)
  refine ⟨consumed, ?_, ?_⟩
  · simp only [platform, SourceRing.hardware, hopen]
  · exact
      { ht with
        holds := ⟨htracks, ht.holds.length, ht.holds.shown⟩
        shared := ⟨consumed, Nat.le_refl _, hhigh, hshared.head, hshared.tail⟩ }

theorem accessEnd (h : s.Consistent site published hand r t posted) (rbm : Nat)
    (hs : r.inAccess = true) :
    ∃ s', (platform rbm).hardware.accessEnd r s = ({ r with inAccess := false }, s') ∧
      s'.Consistent site t.armed hand { r with inAccess := false } t posted := by
  have ht := h.turn
  obtain ⟨consumed, hlow, hhigh, hshared⟩ := ht.shared
  have hw := ht.inside.words
  have hlen := SourceRing.length_pointerBytes r.flags r.head
  have hcov : s.turn.world.window.Covers r.layout.headAddr
      (SourceRing.pointerBytes r.flags r.head).length :=
    ht.covers.sub (by omega) (by omega)
  have hcall := Scene.accessEnd_healthy rbm hs ht.healthy (hlen ▸ hcov)
  refine ⟨_, hcall, ?_⟩
  exact
    { ht with
      holds := ⟨{ ht.holds.toTracks with }, ht.holds.length,
        (ht.holds.write ht.inside (.inr (Nat.le_refl _))).shown⟩
      shared := by
        refine ⟨consumed, hlow, Nat.le_trans hhigh ht.published_le, ?_, ?_⟩
        · change SourceRing.PointsTo r.flags _ r.layout.headAddr (t.armed % r.numEntries)
          rw [← ht.holds.head]
          exact Window.shows_write hcov
        · exact hshared.tail.write (.inr (by omega))
      published_le := Nat.le_refl _
      account := World.Keeps.setMemory ht.account _
      mapped := Window.covers_write.mpr ht.mapped }

theorem nextEntry (h : s.Consistent site published hand r t posted) (rbm : Nat)
    (hs : r.inAccess = true) :
    (t.reaped = t.accepted ∧ (platform rbm).hardware.nextEntry r s = (none, r, s.turn)) ∨
      ∃ entry, t.reaped < t.accepted ∧ entry.cookie = t.reaped % r.numEntries ∧
        (platform rbm).hardware.nextEntry r s =
          (some ⟨t.reaped % r.numEntries, entry, true⟩, r, s.turn) := by
  have ht := h.turn
  have hr := ht.holds.reaped_le
  have ha := ht.holds.accepted_le
  have hlen := ht.length_posted
  by_cases hlt : t.reaped < t.accepted
  · obtain ⟨b, hb⟩ : ∃ b, posted[t.reaped]? = some b :=
      ⟨_, List.getElem?_eq_getElem (show t.reaped < posted.length by omega)⟩
    have harmed : (armedAs r.numEntries posted)[t.reaped]? =
        some (b.allocation.addr, t.reaped % r.numEntries) := by
      rw [getElem?_armedAs, hb]
      rfl
    obtain ⟨entry, he, hfound⟩ := ht.holds.nextEntry_healthy s.turn.world.host.journal ht.inside
      hs ht.healthy ht.covers hlt harmed
    refine .inr ⟨entry, hlt, (RingEntry.ofFields_eq_ok he).2.1, ?_⟩
    have hhost : r.nextEntry s.turn.world.host = _ := hfound
    simp only [platform, SourceRing.hardware, hhost]
  · have heq : t.reaped = t.accepted := by omega
    have hdone : r.next r.reapHead = r.cachedTail := by
      rw [ht.holds.reapHead, ht.holds.cachedTail, heq]
    refine .inl ⟨heq, ?_⟩
    simp only [platform, SourceRing.hardware, SourceRing.nextEntry, hdone, or_true, if_true]

/-- A fresh buffer is armed behind all others. What its reservation reaps is in hand then. -/
theorem setEntry (h : s.Consistent site published (b :: hand) r t posted) (rbm : Nat)
    {res : Reservation} (hs : r.inAccess = true) (hcur : r.Current res)
    (hroom : r.head ≠ r.reapHeadAfter res) (hb : site.firmware.bufferSize ≤ b.allocation.len) :
    let r' := { r with reapHead := r.reapHeadAfter res, head := r.next r.head }
    ∃ s', (platform rbm).hardware.setEntry res (RxBuffer.busAddr b)
        (posted.length % r.numEntries) r s = (.ok (), r', s') ∧
      s'.Consistent site published ((posted.drop t.reaped).take res.completed.toNat ++ hand) r'
        (t.arm res) (posted ++ [b]) := by
  intro r'
  have ht := h.turn
  obtain ⟨consumed, hlow, hhigh, hshared⟩ := ht.shared
  have hw := ht.inside.words
  have hsmall := ht.small
  have hlen := ht.length_posted
  have hlt : posted.length % r.numEntries < r.numEntries := ht.holds.position_lt _
  have haddr := ht.owns.addr_lt (a := b.allocation) (by simp)
  obtain ⟨entry, he⟩ : ∃ entry, RingEntry.ofFields b.allocation.addr
      (posted.length % r.numEntries) r.rbm = .ok entry := by
    rw [RingEntry.ofFields, dif_pos haddr, dif_pos (by omega)]
    exact ⟨_, rfl⟩
  obtain ⟨hset, hholds⟩ := ht.holds.setEntry_healthy ht.inside hs ht.healthy ht.covers hcur hroom
    he
  have hin := ht.inside.entry (ht.holds.head ▸ ht.holds.position_lt t.armed)
  have hsize : entry.toBytes.length = 8 := RingEntry.length_toBytes entry
  have hentry : RingEntry.size = 8 := rfl
  have hreaped : t.reaped + res.completed.toNat ≤ posted.length := by
    have hr := ht.holds.reaped_le
    have ha := ht.holds.accepted_le
    cases hd : res.completed with
    | true =>
      have hlt := ht.holds.reaped_lt hcur hd
      simp only [Bool.toNat_true]
      omega
    | false =>
      simp only [Bool.toNat_false]
      omega
  have hcall : (platform rbm).hardware.setEntry res (RxBuffer.busAddr b)
      (posted.length % r.numEntries) r s = (.ok (), r',
        { s.turn with world := s.turn.world.setWindow (s.turn.world.window.write
          (r.layout.positionAddr r.head) entry.toBytes).2 }) := by
    change (platform rbm).hardware.setEntry res b.allocation.addr _ r s = _
    simp only [platform, SourceRing.hardware, hset]
    rfl
  refine ⟨_, hcall, ?_⟩
  refine
    { wired := ht.wired
      rbm_eq := ht.rbm_eq
      holds := armedAs_concat r.numEntries posted b ▸ hholds
      inside := ht.inside
      small := ht.small
      shared := ⟨consumed, hlow, hhigh, hshared.head.write (.inr ?_),
        hshared.tail.write (.inr ?_)⟩
      published_le := Nat.le_succ_of_le ht.published_le
      sized := ?_
      account := ?_
      healthy := ht.healthy
      mapped := Window.covers_write.mpr ht.mapped
      reach := ht.reach
      agenda := ht.agenda }
  · omega
  · omega
  · intro k c hk hc
    rcases getElem?_concat_cases hc with hold | ⟨-, rfl⟩
    · exact ht.sized k c (Nat.le_trans (Nat.le_add_right _ _) hk) hold
    · exact hb
  · refine World.Keeps.setMemory (Keeps.perm ht.account ?_) _
    refine List.Perm.append_right _ (List.Perm.map _ ?_)
    change (posted.drop t.reaped ++ b :: hand).Perm
      ((posted ++ [b]).drop (t.reaped + res.completed.toNat) ++
        ((posted.drop t.reaped).take res.completed.toNat ++ hand))
    rw [List.drop_append_of_le_length hreaped, ← List.drop_drop]
    exact perm_rearm _ _ _ _

theorem through (h : s.Consistent site published hand r t posted)
    (hm : s'.world.host.memory = s.turn.world.host.memory) (hg : s'.agenda = s.turn.agenda)
    (ha : s'.Account site.base site.capacity [] (some site.ringMem)
      (posted.drop t.reaped ++ hand')) : s'.Consistent site published hand' r t posted :=
  h.turn.share hm hg ha

theorem custody (rbm : Nat) (site : Site) (published : Nat) (r : SourceRing) (t : Tally)
    (posted : List DmaBuffer) :
    BufferCustody (platform rbm) fun s hand => s.Consistent site published hand r t posted :=
  let K := (platform_custody rbm site.base site.capacity []).buffers (some site.ringMem)
  { perm := fun h hp => h.share rfl rfl (K.perm h.account (hp.append_left _))
    acquire := fun {s size b s' held} h ha => by
      have hkept := K.perm (K.acquire h.account ha) List.perm_middle.symm
      obtain rfl : (s.call (World.acquire size)).2 = s' := congrArg Prod.snd ha
      exact h.through rfl rfl hkept
    acquire_error := fun {s size e s' held} h ha => by
      have hkept := K.acquire_error h.account ha
      obtain rfl : (s.call (World.acquire size)).2 = s' := congrArg Prod.snd ha
      exact h.through rfl rfl hkept
    release := fun {s b held} h =>
      h.through (World.release_memory b s.turn.world) rfl
        (K.release (K.perm h.account List.perm_middle))
    sync := fun {s b b' s' held} h hs => by
      have hkept := K.perm (K.sync (K.perm h.account List.perm_middle) hs) List.perm_middle.symm
      obtain rfl : (s.call (World.sync b)).2 = s' := congrArg Prod.snd hs
      refine h.through ?_ rfl hkept
      exact b.sync_memory s.turn.world.host
    narrow := fun h _ _ =>
      h.share rfl rfl (K.perm (K.narrow (K.perm h.account List.perm_middle) _ _)
        List.perm_middle.symm)
    deliver := fun {s b held} h =>
      h.through rfl rfl (K.deliver (K.perm h.account List.perm_middle))
    record := fun h he => h.share rfl rfl (K.record h.account he) }

theorem acquire (h : s.Consistent site published hand r t posted) {size : Nat}
    (ha : (platform rbm).pool.acquire size s = (.ok b, s')) :
    s'.Consistent site published (b :: hand) r t posted ∧ size ≤ b.allocation.len := by
  refine ⟨(custody rbm site published r t posted).acquire h ha, ?_⟩
  have hcall : (World.acquire size s.turn.world).1 = .ok b := congrArg Prod.fst ha
  obtain ⟨slab, -, -, -, -, hlen⟩ := World.acquire_eq_ok h.turn.owns.toOwns (Prod.ext hcall rfl)
  exact hlen

end Scene.Consistent

end FrameRing
