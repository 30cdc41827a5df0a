import FrameRing.Proofs.Driven.PassMemory

/-! # The outcome of a pass

A pass gets past the completions in front of the first halt. Their slots are exchanged: each gives
up the buffer that it held, and the slot before it takes a fresh one. What lies behind the halt is
left alone, and the halt alone decides whether the pass fails and what is counted. -/

namespace FrameRing

variable {σ β : Type} [RxBuffer β]

namespace Outset

variable {o : Outset σ β} {t : Tally} {i j k : Nat}

structure Poised (o : Outset σ β) (t : Tally) : Prop where
  tracks : o.ring.Tracks t
  inAccess : o.ring.inAccess = true
  rotation : Rotation o.cursor.size o.table o.cursor
  lockstep : Lockstep o.cursor.size o.ring o.cursor

omit [RxBuffer β] in
theorem free_ne (hjk : j < k) (hk : k < j + o.cursor.size) : o.free j ≠ o.free k := by
  apply position_ne
  · omega
  · omega

namespace Poised

omit [RxBuffer β]

theorem due_eq (h : o.Poised t) (i : Nat) : o.due i = o.free (i + 1) := by
  rw [due, free, h.rotation.read, Nat.mod_add_mod, Nat.add_assoc, Nat.add_comm 1 i]

theorem oldest_turned (h : o.Poised t) (i : Nat) :
    (o.ring.turned i).next (o.ring.turned i).reapHead = o.due i := by
  have holdest : (o.ring.reapHead + 1) % o.ring.numEntries = o.cursor.readIdx := h.lockstep.oldest
  change ((o.ring.reapHead + i) % o.ring.numEntries + 1) % o.ring.numEntries = o.due i
  rw [Nat.mod_add_mod, Nat.add_right_comm, ← Nat.mod_add_mod, holdest, h.lockstep.entries, due]

theorem head_turned (h : o.Poised t) (i : Nat) : (o.ring.turned i).head = o.free i := by
  change (o.ring.head + i) % o.ring.numEntries = (o.cursor.writeIdx + i) % o.cursor.size
  rw [h.lockstep.next, h.lockstep.entries]

theorem due_position (h : o.Poised t) (i : Nat) :
    o.due i = (t.reaped + i) % o.ring.numEntries := by
  have holdest : o.ring.next o.ring.reapHead = o.cursor.readIdx := h.lockstep.oldest
  rw [due, ← holdest, h.tracks.reapHead, h.lockstep.entries, Nat.mod_add_mod]

/-- A pass never gets once around the ring. -/
theorem succ_lt (h : o.Poised t) (hi : t.reaped + i < t.accepted) : i + 1 < o.cursor.size := by
  have haccepted := h.tracks.accepted_le
  have harmed := h.tracks.armed_lt
  rw [h.lockstep.entries] at harmed
  omega

theorem pending (h : o.Poised t) (hi : t.reaped + i < t.accepted) :
    (o.ring.turned i).next (o.ring.turned i).reapHead ≠ (o.ring.turned i).cachedTail := by
  have haccepted := h.tracks.accepted_le
  have harmed := h.tracks.armed_lt
  rw [h.oldest_turned, h.due_position]
  change _ ≠ o.ring.cachedTail
  rw [h.tracks.cachedTail]
  exact position_ne hi (by omega)

end Poised

/-- From the outset to the end of the section only the entries that are armed and the head word are
written. -/
theorem Poised.closed_kept (h : o.Poised t) {m : Nat} (hm : m < o.ring.numEntries) :
    let after := (o.ring.turned m).headStored (o.ring.turned m).head (o.rearmed m)
    o.memory.Alike after ∧
      o.memory.window.WritesOnly after.window (o.ring.Rewrites (o.ring.turned m).head) := by
  intro after
  obtain ⟨halike, hwrites⟩ := o.rearmed_kept m
  have hsteps : o.ring.distance o.ring.head (o.ring.turned m).head = m := by
    have hhead : o.ring.head % o.ring.numEntries = o.ring.head := by
      rw [h.tracks.head, Nat.mod_mod]
    have hbetween := steps_between (Nat.le_add_right o.ring.head m) (Nat.add_lt_add_left hm _)
    rw [hhead, Nat.add_sub_cancel_left] at hbetween
    exact hbetween
  refine ⟨halike.trans (SourceRing.headStored_alike _ _ _), ?_⟩
  refine (hwrites.mono ?_).trans ((SourceRing.headStored_writes _ _ _).mono fun _ hc => .inl hc)
  rintro addr ⟨k, hk, hc⟩
  refine .inr ⟨k, hsteps.symm ▸ hk, ?_⟩
  rw [← h.head_turned] at hc
  exact hc

/-- The first `i` slots that were due gave their buffers up, and as many took fresh ones. -/
structure Exchanged (o : Outset σ β) (i : Nat) (table : SlotTable β) (cursor : RingCursor)
    (retired : List β) : Prop where
  positions : cursor = ⟨o.free i, o.due i, o.cursor.size⟩
  rotation : Rotation o.cursor.size table cursor
  renewed : ∀ j, j < i → ∃ b, o.supply.nth o.size o.rest j = .ok b ∧
    table.buffer? (o.free j) = some b
  kept : ∀ j, i < j → j < o.cursor.size → table.slot? (o.free j) = o.table.slot? (o.free j)
  length : retired.length = i
  given : ∀ j, j < i → retired[j]? = o.table.buffer? (o.due j)

omit [RxBuffer β] in
theorem Poised.start (h : o.Poised t) : o.Exchanged 0 o.table o.cursor [] where
  positions := by
    rw [due, free, Nat.add_zero, Nat.add_zero, Nat.mod_eq_of_lt h.rotation.write_lt,
      Nat.mod_eq_of_lt h.rotation.read_lt]
  rotation := h.rotation
  renewed j hj := absurd hj (Nat.not_lt_zero j)
  kept _ _ _ := rfl
  length := rfl
  given j hj := absurd hj (Nat.not_lt_zero j)

theorem Exchanged.next {table armed table' : SlotTable β} {cursor : RingCursor} {retired : List β}
    {b old : β} (h : o.Exchanged i table cursor retired) (ho : o.Poised t)
    (hi : i + 1 < o.cursor.size) (hb : o.supply.nth o.size o.rest i = .ok b)
    (arm : table.arm cursor.writeIdx b = .ok armed)
    (retire : armed.retire cursor.readIdx = (some old, table')) :
    o.Exchanged (i + 1) table' cursor.advanceWrite.advanceRead (retired ++ [old]) := by
  have hrotation := h.rotation.renew arm retire
  obtain ⟨-, -, -, ⟨fresh, hfresh, hheld⟩, hother, -⟩ := SlotTable.of_arm arm
  obtain ⟨-, -, -, ⟨oldest, holdest, hgone⟩, hother', -⟩ := SlotTable.of_retire retire
  rw [h.positions] at hfresh hother holdest hother'
  simp only [ho.due_eq] at holdest hother'
  constructor
  case positions =>
    rw [h.positions]
    simp only [RingCursor.advanceWrite, RingCursor.advanceRead, RingCursor.mk.injEq]
    exact ⟨Nat.mod_add_mod .., Nat.mod_add_mod .., trivial⟩
  case rotation => exact hrotation
  case renewed =>
    intro j hj
    have hspared : table'.buffer? (o.free j) = armed.buffer? (o.free j) :=
      SlotTable.buffer?_congr (hother' _ (free_ne hj (by omega)))
    rw [hspared]
    by_cases hlast : j = i
    · subst hlast
      exact ⟨b, hb, (SlotTable.buffer?_eq hfresh).trans hheld⟩
    · have hj : j < i := by omega
      rw [SlotTable.buffer?_congr (hother _ (free_ne hj (by omega)))]
      exact h.renewed j hj
  case kept =>
    intro j hj hn
    rw [hother' _ (Ne.symm (free_ne hj (by omega))),
      hother _ (Ne.symm (free_ne (Nat.lt_of_succ_lt hj) (by omega)))]
    exact h.kept j (Nat.lt_of_succ_lt hj) hn
  case length => rw [List.length_append, h.length, List.length_singleton]
  case given =>
    intro j hj
    by_cases hlast : j = i
    · subst hlast
      have hkept := h.kept (j + 1) (Nat.lt_succ_self j) hi
      have hdue : armed.slot? (o.free (j + 1)) = o.table.slot? (o.free (j + 1)) := by
        rw [hother _ (Ne.symm (free_ne (Nat.lt_succ_self j) (by omega))), hkept]
      rw [List.getElem?_append_right (Nat.le_of_eq h.length), h.length, Nat.sub_self, ho.due_eq,
        ← SlotTable.buffer?_congr hdue, SlotTable.buffer?_eq holdest, hgone]
      rfl
    · have hj : j < i := by omega
      rw [List.getElem?_append_left (by rw [h.length]; exact hj)]
      exact h.given j hj

/-- What a pass has done when it got past `i` completions and found `missed` entries unreadable. -/
structure Covered (o : Outset σ β) (p : Platform (Machine σ) SourceRing Reservation β) (i : Nat)
    (halt : Option Halt) (missed starved : Nat) (s : Pass (Machine σ) SourceRing β) : Prop where
  hw : s.hw = o.ring.turned i
  slots : o.Exchanged i s.table s.cursor s.retired
  leaves : o.Leaves p i halt s.world
  stats : s.stats =
    { o.stats with
      reaped := o.stats.reaped + i
      backpressure := o.stats.backpressure + starved
      missingEntries := o.stats.missingEntries + missed }

structure Underway (o : Outset σ β) (p : Platform (Machine σ) SourceRing Reservation β) (t : Tally)
    (i missed : Nat) (s : Pass (Machine σ) SourceRing β) : Prop
    extends Covered o p i none missed 0 s where
  entries : SourceRing.SameEntries (o.ring.turned i) ⟨t.armed + i, t.accepted, t.reaped + i⟩
    o.memory s.world.host.memory

inductive Next (o : Outset σ β) (p : Platform (Machine σ) SourceRing Reservation β) (t : Tally)
    (i missed : Nat) : PassStep × Pass (Machine σ) SourceRing β → Prop where
  | past {s'} (free : o.haltAt i = none) (next : o.Underway p t (i + 1) missed s') :
      Next o p t i missed (.proceed, s')
  | unreadable {s'} (halt : o.haltAt i = some .unreadable)
      (next : o.Underway p t i (missed + 1) s') : Next o p t i missed (.proceed, s')
  | mismatch {cookie s'} (halt : o.haltAt i = some (.mismatch cookie))
      (next : o.Covered p i (some (.mismatch cookie)) missed 0 s') :
      Next o p t i missed (.fail (.desync cookie (o.due i)), s')
  | dry {cause s'} (halt : o.haltAt i = some (.dry cause))
      (next : o.Covered p i (some (.dry cause)) missed 1 s') : Next o p t i missed (.stop, s')
  | refused {cause s'} (halt : o.haltAt i = some (.refused cause))
      (next : o.Covered p i (some (.refused cause)) missed 0 s') :
      Next o p t i missed (.fail (.hardware cause), s')

variable {rbm : Nat} {inbox : σ → List β} {p : Platform (Machine σ) SourceRing Reservation β}
  {s : Pass (Machine σ) SourceRing β} {missed : Nat}

namespace Underway

theorem progress (h : o.Underway p t i missed s) : o.Progress i i s.world := h.leaves

theorem nextEntry (hp : OverSharedMemory rbm o.supply inbox p) (ho : o.Poised t)
    (h : o.Underway p t i missed s) (hi : t.reaped + i < t.accepted) :
    (∃ entry, o.ring.readEntry? o.memory (o.due i) = some entry ∧
      p.hardware.nextEntry s.hw s.world = (some ⟨o.due i, entry, true⟩, s.hw, s.world)) ∨
    (o.ring.readEntry? o.memory (o.due i) = none ∧
      ∃ journal, p.hardware.nextEntry s.hw s.world =
        (none, s.hw, ⟨⟨s.world.host.memory, journal⟩, s.world.rest⟩)) := by
  have hsame : o.ring.readEntry? s.world.host.memory (o.due i) =
      o.ring.readEntry? o.memory (o.due i) := by
    have hentries := h.entries.entries (t.reaped + i) (Nat.le_refl _) hi
    rw [ho.due_position]
    exact hentries
  rw [hp.nextEntry_eq, ← hsame, h.hw]
  have hfound := SourceRing.nextEntry_pending (r := o.ring.turned i) ho.inAccess (ho.pending hi)
    s.world.host
  rw [ho.oldest_turned] at hfound
  rcases hfound with ⟨entry, hread, hnext⟩ | ⟨hread, journal, hnext⟩
  · refine .inl ⟨entry, hread, ?_⟩
    rw [hnext]
  · refine .inr ⟨hread, journal, ?_⟩
    rw [hnext]

theorem setEntry (hp : OverSharedMemory rbm o.supply inbox p) (ho : o.Poised t)
    (h : o.Underway p t i missed s) (hi : t.reaped + i < t.accepted) (entry : RingEntry) {b : β}
    (hb : o.supply.nth o.size o.rest i = .ok b) (journal : Array LogEvent) :
    let res : Reservation := ⟨o.due i, entry, true⟩
    let answer := (o.ring.turned i).setEntry o.memory res (RxBuffer.busAddr b) (o.free i)
    let out := p.hardware.setEntry res (RxBuffer.busAddr b) s.cursor.writeIdx s.hw
      ⟨⟨s.world.host.memory, journal⟩, o.supply.after o.size o.rest (i + 1)⟩
    out.1 = answer.1 ∧
      ((∃ e, answer.1 = .error e ∧ out.2.1 = o.ring.turned i ∧ o.Progress i (i + 1) out.2.2) ∨
        (answer.1 = .ok () ∧ out.2.1 = o.ring.turned (i + 1) ∧
          o.Progress (i + 1) (i + 1) out.2.2 ∧
          SourceRing.SameEntries (o.ring.turned (i + 1))
            ⟨t.armed + (i + 1), t.accepted, t.reaped + (i + 1)⟩ o.memory
            out.2.2.host.memory)) := by
  intro res answer out
  have hwrite : s.cursor.writeIdx = o.free i := by rw [h.slots.positions]
  have hlike : res.Like res := ⟨rfl, rfl, rfl⟩
  have htogether := (o.ring.turned i).setEntry_together h.entries.alike hlike
    (RxBuffer.busAddr b) (o.free i)
  have hout : out = _ := hp.setEntry_eq ..
  rw [hwrite, h.hw] at hout
  rw [hout]
  obtain ⟨hresult, -, -⟩ := htogether
  refine ⟨hresult.symm, ?_⟩
  rcases (o.ring.turned i).setEntry_cases s.world.host.memory res (RxBuffer.busAddr b)
      (o.free i) with ⟨e, he⟩ | ⟨fields, addr, -, -, -, hfields, haddr, -, he⟩
  · refine .inl ⟨e, hresult.trans (congrArg Prod.fst he), ?_, ?_, rfl⟩
    · exact congrArg (fun out => out.2.1) he
    · simp only [he]
      exact h.progress.memory
  · have hturned : (o.ring.turned i).armed res = o.ring.turned (i + 1) :=
      SourceRing.turned_armed o.ring i rfl (ho.oldest_turned i).symm
    refine .inr ⟨hresult.trans (congrArg Prod.fst he), ?_, ⟨?_, rfl⟩, ?_⟩
    · rw [← hturned]
      exact congrArg (fun out => out.2.1) he
    · obtain ⟨-, rfl⟩ := RingLayout.entryAddr?_eq_some haddr
      rw [rearmed_succ hb hfields, ← h.progress.memory]
      refine (congrArg (fun out => out.2.2) he).trans ?_
      rw [ho.head_turned]
      rfl
    · have harmed := h.entries.arm (ho.tracks.turned (Nat.le_of_lt hi)) he
      change SourceRing.SameEntries ((o.ring.turned i).armed res) _ _ _ at harmed
      rw [hturned] at harmed
      simp only [he]
      exact harmed

omit [RxBuffer β] in
theorem cookieOf_eq (hp : OverSharedMemory rbm o.supply inbox p) (res : Reservation)
    (r : SourceRing) (w : Machine σ) : p.hardware.cookieOf res r w = res.entry.cookie := by
  rw [hp.hardware]
  rfl

theorem due (hp : OverSharedMemory rbm o.supply inbox p)
    (h : o.Underway p t i missed s) {entry : RingEntry} (hmatch : entry.cookie = o.due i) :
    Pass.Due p ⟨o.due i, entry, true⟩ s where
  cookie := by rw [cookieOf_eq hp, h.slots.positions, hmatch]
  armed := (h.slots.rotation.armed _).mpr
    ⟨h.slots.rotation.read_lt, h.slots.rotation.read_ne_write⟩

theorem acquire (hp : OverSharedMemory rbm o.supply inbox p)
    (h : o.Underway p t i missed s) :
    ∃ journal, p.pool.acquire o.size s.world =
        (o.supply.nth o.size o.rest i,
          ⟨⟨s.world.host.memory, journal⟩, o.supply.after o.size o.rest (i + 1)⟩) := by
  obtain ⟨journal, hacquire⟩ := hp.acquire o.size s.world
  rw [h.progress.rest] at hacquire
  exact ⟨journal, hacquire⟩

theorem recycle_supplied (hp : OverSharedMemory rbm o.supply inbox p) (ho : o.Poised t)
    (h : o.Underway p t i missed s) (hi : t.reaped + i < t.accepted) {entry : RingEntry}
    (hentry : o.ring.readEntry? o.memory (o.due i) = some entry) (hmatch : entry.cookie = o.due i)
    {b : β} (hb : o.supply.nth o.size o.rest i = .ok b) (remaining : Nat) :
    o.Next p t i missed (s.recycle p o.size remaining ⟨o.due i, entry, true⟩) := by
  have hrotation := h.slots.rotation
  have hidle := hrotation.write_idle
  obtain ⟨journal, hacquire⟩ := h.acquire hp
  rw [hb] at hacquire
  obtain ⟨hresult, hring⟩ := h.setEntry hp ho hi entry hb journal
  rcases hset : p.hardware.setEntry ⟨o.due i, entry, true⟩ (RxBuffer.busAddr b)
    s.cursor.writeIdx s.hw ⟨⟨s.world.host.memory, journal⟩,
      o.supply.after o.size o.rest (i + 1)⟩ with ⟨result, ring, world⟩
  rw [hset] at hresult hring
  rcases hring with ⟨e, he, hring, hprogress⟩ | ⟨hok, hring, hprogress, hentries⟩
  · obtain rfl : result = .error e := hresult.trans he
    have hout : s.recycle p o.size remaining ⟨o.due i, entry, true⟩ = _ :=
      (Pass.Recycled.refused (h.due hp hmatch) hidle hacquire (.rejected hset)).eq
    rw [hout]
    apply Next.refused
    · simp only [haltAt, hentry, hmatch, hb, he, ne_eq, not_true_eq_false, if_false]
    · exact ⟨hring, h.slots, ⟨b, world, hb, hprogress, rfl⟩, h.stats⟩
  · obtain rfl : result = .ok () := hresult.trans hok
    have hroom : s.cursor.writeIdx < s.table.capacity :=
      hrotation.capacity.symm ▸ hrotation.write_lt
    obtain ⟨armed, harm⟩ := SlotTable.exists_arm hroom hidle b
    obtain ⟨old, table, hretire⟩ := SlotTable.exists_retire (hrotation.due_of_arm harm)
    have hout : s.recycle p o.size remaining ⟨o.due i, entry, true⟩ = _ :=
      (Pass.Recycled.renewed (h.due hp hmatch) hidle hacquire (.armed hset harm) hretire).eq
    rw [hout]
    apply Next.past
    · simp only [haltAt, hentry, hmatch, hb, hok, ne_eq, not_true_eq_false, if_false]
    · refine ⟨⟨hring, ?_, hprogress, ?_⟩, hentries⟩
      · exact h.slots.next ho (ho.succ_lt hi) hb harm hretire
      · simp only [h.stats]
        rfl

theorem recycle (hp : OverSharedMemory rbm o.supply inbox p) (ho : o.Poised t)
    (h : o.Underway p t i missed s) (hi : t.reaped + i < t.accepted) {entry : RingEntry}
    (hentry : o.ring.readEntry? o.memory (o.due i) = some entry) (remaining : Nat) :
    o.Next p t i missed (s.recycle p o.size remaining ⟨o.due i, entry, true⟩) := by
  by_cases hmatch : entry.cookie = o.due i
  · rcases hsupply : o.supply.nth o.size o.rest i with cause | b
    · obtain ⟨journal, hacquire⟩ := h.acquire hp
      rw [hsupply] at hacquire
      have hout : s.recycle p o.size remaining ⟨o.due i, entry, true⟩ = _ :=
        (Pass.Recycled.starved (h.due hp hmatch) h.slots.rotation.write_idle hacquire).eq
      have halt : o.haltAt i = some (.dry cause) := by
        simp only [haltAt, hentry, hmatch, hsupply, ne_eq, not_true_eq_false, if_false]
      rw [hout]
      apply Next.dry halt
      obtain ⟨hmemory, hrest⟩ := hp.record_memory (.poolExhausted cause remaining)
        ⟨⟨s.world.host.memory, journal⟩, o.supply.after o.size o.rest (i + 1)⟩
      refine ⟨h.hw, h.slots, ⟨hmemory.trans h.progress.memory, hrest⟩, ?_⟩
      simp only [h.stats]
    · exact h.recycle_supplied hp ho hi hentry hmatch hsupply remaining
  · have hread : s.cursor.readIdx = o.due i := by rw [h.slots.positions]
    have hwrong : p.hardware.cookieOf ⟨o.due i, entry, true⟩ s.hw s.world ≠
        s.cursor.readIdx ∨ s.table.isArmed s.cursor.readIdx = false := by
      rw [cookieOf_eq hp, hread]
      exact .inl hmatch
    have hout : s.recycle p o.size remaining ⟨o.due i, entry, true⟩ = _ :=
      (Pass.Recycled.desync hwrong).eq
    rw [hout, cookieOf_eq hp, hread]
    apply Next.mismatch
    · simp only [haltAt, hentry, hmatch, ne_eq, not_false_eq_true, if_true]
    · exact ⟨h.hw, h.slots, h.leaves, h.stats⟩

/-- A step gets past the completion that is due, or ends in the way that the halt there tells. -/
theorem step (hp : OverSharedMemory rbm o.supply inbox p) (ho : o.Poised t)
    (h : o.Underway p t i missed s) (hi : t.reaped + i < t.accepted) (remaining : Nat) :
    o.Next p t i missed (s.step p o.size remaining) := by
  rcases h.nextEntry hp ho hi with ⟨entry, hentry, hnext⟩ | ⟨hentry, journal, hnext⟩
  · have hout : s.step p o.size remaining =
        s.recycle p o.size remaining ⟨o.due i, entry, true⟩ := by
      simp only [Pass.step, hnext]
    rw [hout]
    exact h.recycle hp ho hi hentry remaining
  · have hout : s.step p o.size remaining = _ := (Pass.Stepped.missing hnext).eq
    rw [hout]
    obtain ⟨hmemory, hrest⟩ := hp.record_memory .missingCompletion
      ⟨⟨s.world.host.memory, journal⟩, s.world.rest⟩
    apply Next.unreadable
    · simp only [haltAt, hentry]
    · refine ⟨⟨h.hw, h.slots, ⟨hmemory.trans h.progress.memory, hrest.trans h.progress.rest⟩, ?_⟩,
        ?_⟩
      · simp only [h.stats]
        rfl
      · simp only [hmemory]
        exact h.entries

/-- Faults last: a pass that finds an entry unreadable finds it so until it ends. -/
theorem drain_unreadable (hp : OverSharedMemory rbm o.supply inbox p) (ho : o.Poised t)
    (hi : t.reaped + i < t.accepted) (halt : o.haltAt i = some .unreadable) (count : Nat)
    (h : o.Underway p t i missed s) :
    (s.drain p o.size count).1 = .ok () ∧
      o.Covered p i (some .unreadable) (missed + count) 0 (s.drain p o.size count).2 := by
  induction count generalizing s missed with
  | zero => exact ⟨rfl, h.hw, h.slots, h.leaves, h.stats⟩
  | succ count ih =>
    have hnext := h.step hp ho hi (count + 1)
    unfold Pass.drain
    generalize s.step p o.size (count + 1) = out at hnext ⊢
    cases hnext with
    | past free => cases halt.symm.trans free
    | unreadable _ next =>
      have hrest := ih next
      rw [Nat.add_assoc, Nat.add_comm 1 count] at hrest
      exact hrest
    | mismatch other => cases halt.symm.trans other
    | dry other => cases halt.symm.trans other
    | refused other => cases halt.symm.trans other

end Underway

/-- The ways in which a pass over `pending` completions ends that got past `m` of them. -/
inductive Ended (o : Outset σ β) (p : Platform (Machine σ) SourceRing Reservation β)
    (pending m : Nat) : Except RingError Unit × Pass (Machine σ) SourceRing β → Prop where
  | through {s'} (all : m = pending) (left : o.Covered p m none 0 0 s') :
      Ended o p pending m (.ok (), s')
  | unreadable {s'} (more : m < pending) (halt : o.haltAt m = some .unreadable)
      (left : o.Covered p m (some .unreadable) (pending - m) 0 s') :
      Ended o p pending m (.ok (), s')
  | mismatch {cookie s'} (more : m < pending) (halt : o.haltAt m = some (.mismatch cookie))
      (left : o.Covered p m (some (.mismatch cookie)) 0 0 s') :
      Ended o p pending m (.error (.desync cookie (o.due m)), s')
  | dry {cause s'} (more : m < pending) (halt : o.haltAt m = some (.dry cause))
      (left : o.Covered p m (some (.dry cause)) 0 1 s') : Ended o p pending m (.ok (), s')
  | refused {cause s'} (more : m < pending) (halt : o.haltAt m = some (.refused cause))
      (left : o.Covered p m (some (.refused cause)) 0 0 s') :
      Ended o p pending m (.error (.hardware cause), s')

theorem Ended.covered {pending m : Nat} {out} (h : o.Ended p pending m out) :
    ∃ missed starved,
      o.Covered p m (if m < pending then o.haltAt m else none) missed starved out.2 := by
  cases h with
  | through all left =>
    rw [if_neg (Nat.not_lt.mpr (Nat.le_of_eq all.symm))]
    exact ⟨_, _, left⟩
  | unreadable more halt left | mismatch more halt left | dry more halt left
  | refused more halt left =>
    rw [if_pos more, halt]
    exact ⟨_, _, left⟩

theorem Ended.halted {pending m : Nat} {out} (h : o.Ended p pending m out)
    (hm : m < pending) : o.haltAt m ≠ none := by
  cases h with
  | through all => exact absurd all (Nat.ne_of_lt hm)
  | unreadable _ halt => simp [halt]
  | mismatch _ halt => simp [halt]
  | dry _ halt => simp [halt]
  | refused _ halt => simp [halt]

/-- A pass gets past completions up to the first halt, and ends as the halt tells. -/
theorem Underway.drain (hp : OverSharedMemory rbm o.supply inbox p) (ho : o.Poised t)
    (count : Nat) (h : o.Underway p t i 0 s) (hcount : t.reaped + (i + count) = t.accepted)
    (hpast : ∀ j, j < i → o.haltAt j = none) :
    ∃ m, m ≤ i + count ∧ (∀ j, j < m → o.haltAt j = none) ∧
      o.Ended p (i + count) m (s.drain p o.size count) := by
  induction count generalizing s i with
  | zero => exact ⟨i, Nat.le_refl i, hpast, .through rfl h.toCovered⟩
  | succ count ih =>
    have hi : t.reaped + i < t.accepted := by omega
    have hmore : i < i + (count + 1) := by omega
    have hnext := h.step hp ho hi (count + 1)
    unfold Pass.drain
    generalize s.step p o.size (count + 1) = out at hnext ⊢
    cases hnext with
    | past free next =>
      have hstretch : i + (count + 1) = i + 1 + count := by omega
      rw [hstretch] at hcount ⊢
      apply ih next hcount
      intro j hj
      by_cases hlast : j = i
      · rw [hlast, free]
      · exact hpast j (by omega)
    | @unreadable s' halt next =>
      obtain ⟨hok, hleft⟩ := next.drain_unreadable hp ho hi halt count
      refine ⟨i, Nat.le_of_lt hmore, hpast, ?_⟩
      change o.Ended p _ i (s'.drain p o.size count)
      have hmissed : 0 + 1 + count = i + (count + 1) - i := by omega
      rw [hmissed] at hleft
      generalize s'.drain p o.size count = out at hok hleft ⊢
      obtain ⟨result, s''⟩ := out
      obtain rfl : result = .ok () := hok
      exact .unreadable hmore halt hleft
    | mismatch halt next => exact ⟨i, Nat.le_of_lt hmore, hpast, .mismatch hmore halt next⟩
    | dry halt next => exact ⟨i, Nat.le_of_lt hmore, hpast, .dry hmore halt next⟩
    | refused halt next => exact ⟨i, Nat.le_of_lt hmore, hpast, .refused hmore halt next⟩

end Outset

def RingStats.afterPass (s : RingStats) (reaped delivered missing starved : Nat) : RingStats where
  reaped := s.reaped + reaped
  delivered := s.delivered + delivered
  droppedMalformed := s.droppedMalformed + (reaped - delivered)
  backpressure := s.backpressure + starved
  missingEntries := s.missingEntries + missing

theorem Outset.Covered.stats_settled {o : Outset σ β} {rbm : Nat} {inbox : σ → List β}
    {p : Platform (Machine σ) SourceRing Reservation β} {m missed starved : Nat}
    {halt : Option Halt} {s : Pass (Machine σ) SourceRing β}
    (h : o.Covered p m halt missed starved s)
    (hp : OverSharedMemory rbm o.supply inbox p) (closed : Machine σ) :
    let d := Delivery.all p s.retired closed
    { s.stats with
      delivered := s.stats.delivered + d.delivered
      droppedMalformed := s.stats.droppedMalformed + d.dropped } =
    o.stats.afterPass m d.delivered missed starved := by
  intro d
  obtain ⟨-, -, hsum⟩ := hp.deliver_all s.retired ⟨0, 0, closed⟩
  simp only [Nat.zero_add] at hsum
  have hall : d.delivered + d.dropped = s.retired.length := hsum
  rw [h.slots.length] at hall
  have hdropped : d.dropped = m - d.delivered := by omega
  rw [h.stats, hdropped]
  rfl

namespace Ring

variable {rbm : Nat} {supply : Supply σ β} {inbox : σ → List β}
  {p : Platform (Machine σ) SourceRing Reservation β} {ring : Ring SourceRing β}

omit [RxBuffer β] in
theorem outset_poised {n : Nat} (h : ring.Paced n) (active : ring.state = .active)
    {r : SourceRing} (held : ring.hw = some r) {t : Tally} (ht : r.Tracks t)
    (supply : Supply σ β) {w : Machine σ} {tail : Nat}
    (hl : r.loadTail w.host.memory = .ok tail) :
    (ring.outset supply r tail w).Poised
      { t with accepted := t.accepted + r.distance r.cachedTail tail } := by
  have hrotation := h.disciplined.rotation active
  have hsize : ring.cursor.size = n := hrotation.size
  constructor
  case tracks => exact ht.accept hl
  case inAccess => rfl
  case rotation =>
    change Rotation ring.cursor.size ring.table ring.cursor
    rwa [hsize]
  case lockstep =>
    change Lockstep ring.cursor.size _ ring.cursor
    rw [hsize]
    exact (h.lockstep r held).open_close _ _

def settled (ring : Ring SourceRing β) (result : Except RingError Unit)
    (s : Pass (Machine σ) SourceRing β) (d : Delivery (Machine σ)) :
    Except RingError Nat × Ring SourceRing β × Machine σ :=
  (result.map fun _ => d.delivered,
    { ring with
      state := match result with | .ok _ => .active | .error _ => .faulted
      table := s.table
      cursor := s.cursor
      hw := some { s.hw with inAccess := false }
      stats :=
        { s.stats with
          delivered := s.stats.delivered + d.delivered
          droppedMalformed := s.stats.droppedMalformed + d.dropped } },
    d.world)

theorem tryReap_settled (hp : OverSharedMemory rbm supply inbox p) {w w' : Machine σ}
    {r r' : SourceRing} {result : Except RingError Unit} {s : Pass (Machine σ) SourceRing β}
    (active : ring.state = .active) (held : ring.hw = some r)
    (access : p.hardware.accessBegin r w = (.ok (), r', w'))
    (drain : Pass.drain p ring.geometry.bufferSize (p.hardware.availableCount r' w')
      ⟨ring.enter r' w', ring.stats, []⟩ = (result, s)) (hopen : s.hw.inAccess = true) :
    ∃ closed : Machine σ,
      closed.host.memory = s.hw.headStored s.hw.head s.world.host.memory ∧
      closed.rest = s.world.rest ∧
      ring.tryReap p w = ring.settled result s (Delivery.all p s.retired closed) := by
  have := hp.drives
  have hhw : (s.toSection.close p).hw = { s.hw with inAccess := false } :=
    DrivesSourceRing.accessEnd s.hw s.world
  have hrest : (s.toSection.close p).world.rest = s.world.rest := by
    simp only [Section.close, hp.hardware]
    rfl
  have hmemory : (s.toSection.close p).world.host.memory =
      s.hw.headStored s.hw.head s.world.host.memory := by
    rw [← SourceRing.accessEnd_memory hopen]
    simp only [Section.close, hp.hardware]
    rfl
  cases result with
  | ok =>
    refine ⟨(s.toSection.close p).world, hmemory, hrest, ?_⟩
    simp only [tryReap, active, held, access, drain, conclude, deliver, leave, hhw,
      Section.close_table, Section.close_cursor, settled]
  | error e =>
    obtain ⟨hmemory', hrest'⟩ := hp.record_memory (.ringFaulted s.cursor.readIdx e)
      (s.toSection.close p).world
    refine ⟨p.record (.ringFaulted s.cursor.readIdx e) (s.toSection.close p).world,
      hmemory'.trans hmemory, hrest'.trans hrest, ?_⟩
    simp only [tryReap, active, held, access, drain, conclude, deliver, leave, hhw,
      Section.close_table, Section.close_cursor, settled]

/-- A pass of a ring that is at rest gets past some of the pending completions and leaves the
others. -/
theorem tryReap_ended {n : Nat} (hp : OverSharedMemory rbm supply inbox p) (h : ring.Paced n)
    (active : ring.state = .active) {r : SourceRing} (held : ring.hw = some r) {w : Machine σ}
    {tail : Nat} (hl : r.loadTail w.host.memory = .ok tail) :
    let o := ring.outset supply r tail w
    ∃ m result s closed,
      (m ≤ r.completed tail ∧ ∀ i, i < m → o.haltAt i = none) ∧
      o.Ended p (r.completed tail) m (result, s) ∧
      (o.ring.turned m).completed tail = r.completed tail - m ∧
      (closed.host.memory = s.hw.headStored s.hw.head s.world.host.memory ∧
        closed.rest = s.world.rest) ∧
      ring.tryReap p w = ring.settled result s (Delivery.all p s.retired closed) := by
  intro o
  have := hp.drives
  obtain ⟨hclosed, t, ht⟩ := h.resting r held
  have ho := outset_poised h active held ht supply hl
  change o.Poised _ at ho
  have hopened := ht.accept hl
  have hpending : r.completed tail = t.accepted + r.distance r.cachedTail tail - t.reaped :=
    hopened.completed_eq
  have hordered : t.reaped ≤ t.accepted + r.distance r.cachedTail tail := hopened.reaped_le
  have haccess : p.hardware.accessBegin r w = _ := hp.accessBegin_opened hclosed hl
  have hcount : p.hardware.availableCount { r with cachedTail := tail, inAccess := true } w =
      r.completed tail := by
    rw [hp.hardware]
    rfl
  have hunder : o.Underway p
      { t with accepted := t.accepted + r.distance r.cachedTail tail } 0 0
      ⟨ring.enter { r with cachedTail := tail, inAccess := true } w, ring.stats, []⟩ :=
    ⟨⟨hopened.turned_zero.symm, ho.start, ⟨rfl, rfl⟩, rfl⟩, .refl _ _ _⟩
  obtain ⟨m, hm, hpast, hended⟩ := hunder.drain hp ho (r.completed tail) (by simp only; omega)
    fun j hj => absurd hj (Nat.not_lt_zero j)
  rw [Nat.zero_add] at hm hended
  rcases hdrain : Pass.drain p o.size (r.completed tail)
    ⟨ring.enter { r with cachedTail := tail, inAccess := true } w, ring.stats, []⟩ with ⟨result, s⟩
  rw [hdrain] at hended
  rw [← hcount] at hdrain
  obtain ⟨missed, starved, hleft⟩ := hended.covered
  have hopen : s.hw.inAccess = true := hleft.hw ▸ ho.inAccess
  obtain ⟨closed, hmemory, hrest, hout⟩ := tryReap_settled hp active held haccess hdrain hopen
  have hturned := hopened.turned (k := m) (by simp only; omega)
  refine ⟨m, result, s, closed, ⟨hm, hpast⟩, hended, ?_, ⟨hmemory, hrest⟩, hout⟩
  rw [hpending, Nat.sub_sub]
  exact hturned.completed_eq

/-- Whatever lies in the entries, whatever the pool answers and whichever accesses fail: a pass over
the pending completions gets past exactly those in front of the first halt. It retires the buffers
of their slots in order and hands over the frames among them, arms as many slots afresh, and leaves
the other completions pending. The frames are read from memory as the pass found it, but for the
entries that it armed and the head word. The halt decides whether the ring is faulted and what is
counted. -/
theorem tryReap_outcome {params : RingParams} {w₀ w₁ : Machine σ} {ring₀ : Ring SourceRing β}
    (hp : OverSharedMemory rbm supply inbox p) (hs : Ring.setup p params w₀ = (.ok ring₀, w₁))
    (moves : List (Move (Machine σ))) {r : SourceRing} {tail : Nat}
    (active : (Ring.run p (ring₀, w₁) moves).1.state = .active)
    (held : (Ring.run p (ring₀, w₁) moves).1.hw = some r)
    (hl : r.loadTail (Ring.run p (ring₀, w₁) moves).2.host.memory = .ok tail) :
    let ring := (Ring.run p (ring₀, w₁) moves).1
    let w := (Ring.run p (ring₀, w₁) moves).2
    let n := params.capacity
    let o := ring.outset supply r tail w
    let pending := r.completed tail
    let out := ring.tryReap p w
    ∃ (m : Nat) (bufs : List β) (closed : Machine σ) (r' : SourceRing),
      let d := Delivery.all p bufs closed
      let halt := if m < pending then o.haltAt m else none
      (m ≤ pending ∧ (∀ i, i < m → o.haltAt i = none) ∧ (m < pending → o.haltAt m ≠ none)) ∧
      (bufs.length = m ∧
        ∀ i, i < m → bufs[i]? = ring.table.buffer? ((ring.cursor.readIdx + i) % n)) ∧
      (out.2.1.cursor =
        ⟨(ring.cursor.writeIdx + m) % n, (ring.cursor.readIdx + m) % n, n⟩ ∧
        out.2.1.hw = some r' ∧
        r' =
          { r with
            head := (r.head + m) % n
            reapHead := (r.reapHead + m) % n
            cachedTail := tail } ∧
        r'.completed tail = pending - m) ∧
      ((∀ i, i < m → ∃ b, supply.nth ring.geometry.bufferSize w.rest i = .ok b ∧
          out.2.1.table.buffer? ((ring.cursor.writeIdx + i) % n) = some b) ∧
        ∀ i, m < i → i < n →
          out.2.1.slot? ((ring.cursor.writeIdx + i) % n) =
            ring.slot? ((ring.cursor.writeIdx + i) % n)) ∧
      ((∃ left, o.Leaves p m halt left ∧
          closed.host.memory = r'.headStored r'.head left.host.memory ∧
          closed.rest = left.rest) ∧
        ((∀ cause b v, halt = some (.refused cause) →
            (p.pool.release b v).host.memory = v.host.memory) →
          w.host.memory.Alike closed.host.memory ∧
            w.window.WritesOnly closed.window (r.Rewrites r'.head))) ∧
      (out.2.2 = d.world ∧ inbox closed.rest = inbox w.rest ∧
        inbox out.2.2.rest =
          inbox w.rest ++ (Delivery.views p bufs ⟨0, 0, closed⟩).filterMap frame? ∧
        d.delivered = ((Delivery.views p bufs ⟨0, 0, closed⟩).filterMap frame?).length) ∧
      match halt with
      | none =>
        out.1 = .ok d.delivered ∧ out.2.1.state = .active ∧
          out.2.1.stats = ring.stats.afterPass m d.delivered 0 0
      | some .unreadable =>
        out.1 = .ok d.delivered ∧ out.2.1.state = .active ∧
          out.2.1.stats = ring.stats.afterPass m d.delivered (pending - m) 0
      | some (.dry _) =>
        out.1 = .ok d.delivered ∧ out.2.1.state = .active ∧
          out.2.1.stats = ring.stats.afterPass m d.delivered 0 1
      | some (.mismatch cookie) =>
        out.1 = .error (.desync cookie ((ring.cursor.readIdx + m) % n)) ∧
          out.2.1.state = .faulted ∧ out.2.1.stats = ring.stats.afterPass m d.delivered 0 0
      | some (.refused cause) =>
        out.1 = .error (.hardware cause) ∧ out.2.1.state = .faulted ∧
          out.2.1.stats = ring.stats.afterPass m d.delivered 0 0 := by
  intro ring w n o pending out
  have := hp.drives
  obtain ⟨hn, hpaced₀⟩ := setup_paced hs
  have hpaced : ring.Paced n := run_paced hpaced₀ hn moves
  have hsize : ring.cursor.size = n := (hpaced.lockstep r held).slots
  have hentries : r.numEntries = n := (hpaced.lockstep r held).entries
  obtain ⟨hclosed, -⟩ := hpaced.resting r held
  obtain ⟨t, ht⟩ := (hpaced.resting r held).2
  have ho : o.Poised _ := outset_poised hpaced active held ht supply hl
  obtain ⟨m, result, s, closed, ⟨hm, hpast⟩, hended, hremain, ⟨hmemory, hrest⟩, hout⟩ :=
    tryReap_ended hp hpaced active held hl
  change out = _ at hout
  obtain ⟨missed, starved, hleft⟩ := hended.covered
  obtain ⟨hbox, hdelivered, -⟩ := hp.deliver_all s.retired ⟨0, 0, closed⟩
  have hboxes : inbox closed.rest = inbox w.rest :=
    (congrArg inbox hrest).trans (hleft.leaves.inbox_eq hp)
  have hlap : m < o.ring.numEntries :=
    Nat.lt_of_le_of_lt hm (Nat.mod_lt _ (Nat.lt_of_lt_of_le (by decide) ho.tracks.size))
  rw [Nat.zero_add] at hdelivered
  have hshape : { r with
        head := (r.head + m) % n, reapHead := (r.reapHead + m) % n, cachedTail := tail } =
      { o.ring.turned m with inAccess := false } := by
    rw [← hclosed, ← hentries]
    rfl
  refine ⟨m, s.retired, closed,
    { r with head := (r.head + m) % n, reapHead := (r.reapHead + m) % n, cachedTail := tail },
    ⟨hm, hpast, hended.halted⟩, ⟨hleft.slots.length, hsize ▸ hleft.slots.given⟩,
    ⟨?_, ?_, rfl, ?_⟩, ?_, ⟨⟨s.world, hleft.leaves, ?_, hrest⟩, ?_⟩,
    ⟨?_, hboxes, ?_, hdelivered⟩, ?_⟩
  · rw [hout, ← hsize]
    exact hleft.slots.positions
  · rw [hout, hshape, ← hleft.hw]
    rfl
  · rw [hshape]
    exact hremain
  · rw [hout, ← hsize]
    exact ⟨hleft.slots.renewed, hleft.slots.kept⟩
  · rw [hmemory, hleft.hw, hshape]
    rfl
  · intro hkeeps
    have hafter := hmemory
    rw [hleft.leaves.memory_eq hkeeps, hleft.hw] at hafter
    change w.host.memory.Alike closed.host.memory ∧
      w.host.memory.window.WritesOnly closed.host.memory.window _
    rw [hafter, hshape]
    exact ho.closed_kept hlap
  · rw [hout]
    rfl
  · rw [hout, ← hboxes]
    exact hbox
  · rw [hout]
    cases hended with
    | through all left =>
      rw [if_neg (Nat.not_lt.mpr (Nat.le_of_eq all.symm))]
      exact ⟨rfl, rfl, left.stats_settled hp closed⟩
    | unreadable more halt left =>
      rw [if_pos more, halt]
      exact ⟨rfl, rfl, left.stats_settled hp closed⟩
    | mismatch more halt left =>
      rw [if_pos more, halt, ← hsize]
      exact ⟨rfl, rfl, left.stats_settled hp closed⟩
    | dry more halt left =>
      rw [if_pos more, halt]
      exact ⟨rfl, rfl, left.stats_settled hp closed⟩
    | refused more halt left =>
      rw [if_pos more, halt]
      exact ⟨rfl, rfl, left.stats_settled hp closed⟩

/-- The second of two completions names the slot behind its own. The frame of the first is handed
over all the same. -/
theorem tryReap_outcome_mismatch :
    let w₀ : World := .fresh (.zeroed 0 384) ⟨0, 64, Array.replicate 6 false, none⟩
    let moves : List (Move World) :=
      [.operate .attach,
        .disturb fun w =>
          let filled := (w.window.write 64 ((FrameHeader.ofPayload 2).toBytes ++ [7, 8])).2
          w.setWindow ((filled.write 13 [19]).2.write 36 [2]).2]
    ∃ ring₀ w₁, Ring.setup (World.platform 3) (.ofSizes 4 8 12) w₀ = (.ok ring₀, w₁) ∧
      let s := Ring.run (World.platform 3) (ring₀, w₁) moves
      let out := s.1.tryReap (World.platform 3) s.2
      s.1.state = .active ∧ out.1 = .error (.desync 2 1) ∧ out.2.1.state = .faulted ∧
        out.2.1.cursor = ⟨0, 1, 4⟩ ∧ World.inbox out.2.2.rest = [⟨⟨64, 64⟩, 12, [7, 8]⟩] := by
  intro w₀ moves
  have hup : ∃ ring₀ w₁, Ring.setup (World.platform 3) (.ofSizes 4 8 12) w₀ = (.ok ring₀, w₁) ∧
      let s := Ring.run (World.platform 3) (ring₀, w₁) moves
      let r : SourceRing := ⟨⟨0, 4, 8, 32, 36⟩, .empty, 0, 3, 3, 3, 0, false⟩
      let o := s.1.outset World.supply r 2 s.2
      s.1.state = .active ∧ s.1.hw = some r ∧ s.1.cursor = ⟨3, 0, 4⟩ ∧
        (r.loadTail s.2.host.memory).toOption = some 2 ∧ r.completed 2 = 2 ∧
        o.haltAt 0 = none ∧ o.haltAt 1 = some (.mismatch 2) ∧
        s.1.table.buffer? 0 = some ⟨⟨64, 64⟩, 12, []⟩ ∧ World.inbox s.2.rest = [] ∧
        ((r.headStored 0 (o.rearmed 1)).read 64 12).toOption =
          some [2, 0, 0, 0, 7, 8, 0, 0, 0, 0, 0, 0] := by
    decide +kernel
  obtain ⟨ring₀, w₁, hs, active, held, hcursor, htail, hpending, hpast, hhalt, hfirst, hempty,
    hread⟩ := hup
  have hl : SourceRing.loadTail ⟨⟨0, 4, 8, 32, 36⟩, .empty, 0, 3, 3, 3, 0, false⟩
      (Ring.run (World.platform 3) (ring₀, w₁) moves).2.host.memory = .ok 2 :=
    eq_ok_of_toOption htail
  obtain ⟨m, bufs, closed, r', ⟨hm, hfree, hmore⟩, ⟨hlength, hgiven⟩, ⟨hcur, -, rfl, -⟩, -,
    ⟨⟨left, hleft, hclosed, -⟩, -⟩, ⟨-, -, hinbox, -⟩, hend⟩ :=
    tryReap_outcome (World.overSharedMemory 3) hs moves active held hl
  rw [hpending] at hm hmore hend hleft
  obtain rfl : m = 1 := by
    have hne : m ≠ 0 := by
      rintro rfl
      exact hmore (by decide) hpast
    have hle : ¬ 1 < m := by
      intro hlt
      cases hhalt.symm.trans (hfree 1 hlt)
    omega
  rw [if_pos (by decide), hhalt] at hend hleft
  rw [hcursor] at hcur hend
  obtain ⟨buf, rfl⟩ := List.length_eq_one_iff.mp hlength
  have hbuf : some buf = some ⟨⟨64, 64⟩, 12, []⟩ := by
    have hheld := hgiven 0 (by decide)
    rw [hcursor] at hheld
    exact hheld.trans hfirst
  cases hbuf
  have hframe : closed.host.memory.read 64 12 = .ok [2, 0, 0, 0, 7, 8, 0, 0, 0, 0, 0, 0] := by
    rw [hclosed, hleft.memory]
    exact eq_ok_of_toOption hread
  refine ⟨ring₀, w₁, hs, active, hend.1, hend.2.1, hcur, ?_⟩
  rw [hinbox, hempty, Delivery.views]
  have hview : ((World.platform 3).pool.syncForCpu ⟨⟨64, 64⟩, 12, []⟩ closed).1 =
      ⟨⟨64, 64⟩, 12, [2, 0, 0, 0, 7, 8, 0, 0, 0, 0, 0, 0]⟩ := by
    simp only [World.platform, World.sync, DmaBuffer.sync, hframe]
  rw [hview]
  rfl

end Ring

end FrameRing
