import FrameRing.Proofs.Driven.Halts

/-! # The outcome of filling a ring

A ring is filled slot by slot. Whether a slot is armed is decided by the buffer that the pool is
going to hand out for it and by the memory that the section began with; the first slot that is not
armed decides the error. -/

namespace FrameRing

namespace HostMemory.Alike

variable {m m' : HostMemory} {addr len : Nat}

theorem writable (h : m.Alike m') : m.Writable addr len ↔ m'.Writable addr len := by
  rw [Writable, Writable, h.blocked, h.covers]

theorem obstacle (h : m.Alike m') (r : SourceRing) (idx busAddr cookie : Nat) :
    r.obstacle m idx busAddr cookie = r.obstacle m' idx busAddr cookie := by
  simp only [SourceRing.obstacle, h.writable]

end HostMemory.Alike

variable {σ β : Type} [RxBuffer β]

namespace Outset

variable {o : Outset σ β} {n i : Nat}

/-- Why the slot behind `i` others is not armed when a ring is filled, if it is not. -/
def refusalAt (o : Outset σ β) (i : Nat) : Option RingError :=
  match o.supply.nth o.size o.rest i with
  | .error cause => some (.allocation cause)
  | .ok b => (o.ring.obstacle o.memory i (RxBuffer.busAddr b) i).map .hardware

structure Blank (o : Outset σ β) (n : Nat) : Prop where
  filling : Filling n 0 o.table o.cursor
  entries : o.ring.numEntries = n
  inside : o.ring.layout.Inside o.ring.layout.extent
  head : o.ring.head = 0
  reapHead : o.ring.reapHead + 1 = n
  inAccess : o.ring.inAccess = true

structure Filled (o : Outset σ β) (n i : Nat) (s : Section (Machine σ) SourceRing β) : Prop where
  hw : s.hw = { o.ring with head := i }
  filling : Filling n i s.table s.cursor
  armed : ∀ j, j < i → ∃ b entry, o.supply.nth o.size o.rest j = .ok b ∧
    s.table.buffer? j = some b ∧
    RingEntry.ofFields (RxBuffer.busAddr b) j o.ring.rbm = .ok entry ∧
    s.world.window.read (o.ring.layout.positionAddr j) RingEntry.size = .ok entry.toBytes
  rest : s.world.rest = o.supply.after o.size o.rest i
  alike : o.memory.Alike s.world.host.memory

omit [RxBuffer β] in
theorem Blank.numEntries (h : o.Blank n) : o.ring.layout.numEntries = n := h.entries

omit [RxBuffer β] in
theorem Blank.reach (h : o.Blank n) (hi : i < n) :
    o.ring.layout.entryAddr? i = some (o.ring.layout.positionAddr i) :=
  h.inside.entryAddr? (h.numEntries.symm ▸ hi)

variable {rbm : Nat} {supply : Supply σ β} {inbox : σ → List β}
  {p : Platform (Machine σ) SourceRing Reservation β} {s : Section (Machine σ) SourceRing β}

namespace Filled

theorem setEntry (hp : OverSharedMemory rbm o.supply inbox p) (ho : o.Blank n)
    (h : o.Filled n i s) (hi : i + 1 < n) (busAddr : Nat) (journal : Array LogEvent) (rest : σ) :
    let addr := o.ring.layout.positionAddr i
    let m := s.world.host.memory
    let out := p.hardware.setEntry ⟨i, .zero, false⟩ busAddr s.cursor.writeIdx s.hw
      ⟨⟨m, journal⟩, rest⟩
    (∃ e, o.ring.obstacle o.memory i busAddr i = some e ∧
      out = (.error e, s.hw, ⟨⟨m, journal⟩, rest⟩)) ∨
    ∃ entry, o.ring.obstacle o.memory i busAddr i = none ∧
      RingEntry.ofFields busAddr i o.ring.rbm = .ok entry ∧
      m.window.Covers addr RingEntry.size ∧
      out = (.ok (), { o.ring with head := i + 1 },
        ⟨⟨{ m with window := (m.window.write addr entry.toBytes).2 }, journal⟩, rest⟩) := by
  intro addr m out
  have hlast := ho.reapHead
  have hwrite : s.cursor.writeIdx = i := by rw [h.filling.cursor_eq]
  have hcurrent : SourceRing.Current { o.ring with head := i } ⟨i, .zero, false⟩ := by
    simp [SourceRing.Current]
  have hroom : i ≠ SourceRing.reapHeadAfter { o.ring with head := i } ⟨i, .zero, false⟩ := by
    simp only [SourceRing.reapHeadAfter, Bool.false_eq_true, if_false]
    omega
  have harmed := SourceRing.setEntry_armed (r := { o.ring with head := i })
    (ho.reach (Nat.lt_of_succ_lt hi)) ho.inAccess hcurrent hroom m busAddr i
  have hobstacle : SourceRing.obstacle { o.ring with head := i } m i busAddr i =
      o.ring.obstacle o.memory i busAddr i := (h.alike.obstacle o.ring i busAddr i).symm
  have hout : out = _ := hp.setEntry_eq ⟨i, .zero, false⟩ busAddr s.cursor.writeIdx s.hw
    ⟨⟨m, journal⟩, rest⟩
  rw [hwrite, h.hw] at hout
  simp only at hout
  generalize SourceRing.setEntry { o.ring with head := i } m ⟨i, .zero, false⟩ busAddr i = answer
    at harmed hout
  cases harmed with
  | @refused e obstacle =>
    refine .inl ⟨e, hobstacle.symm.trans obstacle, ?_⟩
    rw [hout, h.hw]
    rfl
  | @granted entry clear fields =>
    have hcov := (SourceRing.obstacle_eq_none.mp clear).2.2.2
    refine .inr ⟨entry, hobstacle.symm.trans clear, fields, hcov, ?_⟩
    rw [hout]
    simp only [SourceRing.armed, SourceRing.reapHeadAfter, SourceRing.next,
      SourceRing.numEntries, Bool.false_eq_true, if_false, ho.numEntries, Nat.mod_eq_of_lt hi]
    rfl

theorem next (h : o.Filled n i s) (ho : o.Blank n) (hi : i + 1 < n) {b : β}
    (hb : o.supply.nth o.size o.rest i = .ok b) {entry : RingEntry}
    (fields : RingEntry.ofFields (RxBuffer.busAddr b) i o.ring.rbm = .ok entry)
    (hc : s.world.window.Covers (o.ring.layout.positionAddr i) RingEntry.size)
    {table : SlotTable β} (arm : s.table.arm s.cursor.writeIdx b = .ok table)
    (journal : Array LogEvent) :
    let window := (s.world.window.write (o.ring.layout.positionAddr i) entry.toBytes).2
    o.Filled n (i + 1)
      ⟨{ o.ring with head := i + 1 }, table, s.cursor.advanceWrite,
        ⟨⟨{ s.world.host.memory with window }, journal⟩,
          o.supply.after o.size o.rest (i + 1)⟩⟩ := by
  intro window
  have hwrite : s.cursor.writeIdx = i := by rw [h.filling.cursor_eq]
  obtain ⟨-, -, -, ⟨slot, hslot, hheld⟩, hother, -⟩ := SlotTable.of_arm arm
  rw [hwrite] at hslot hother
  have hlen := entry.length_toBytes
  constructor
  case hw => rfl
  case filling => exact h.filling.arm hi arm
  case armed =>
    intro j hj
    by_cases hlast : j = i
    · subst hlast
      refine ⟨b, entry, hb, (SlotTable.buffer?_eq hslot).trans hheld, fields, ?_⟩
      have hself := Window.read_write_self (hlen.symm ▸ hc)
      rwa [hlen] at hself
    · have hj : j < i := by omega
      obtain ⟨b', entry', hb', hbuffer, hfields, hread⟩ := h.armed j hj
      refine ⟨b', entry', hb', (SlotTable.buffer?_congr (hother j hlast)).trans hbuffer, hfields,
        ?_⟩
      have hi := Nat.lt_of_succ_lt hi
      have hapart := RingLayout.entries_apart ho.inside.stride hlast
        (ho.reach (Nat.lt_trans hj hi)) (ho.reach hi)
      exact (Window.read_write_of_apart (by rwa [hlen])).trans hread
  case rest => rfl
  case alike => exact h.alike.trans (s.world.host.memory.alike_write _ _)

theorem step (hp : OverSharedMemory rbm o.supply inbox p) (ho : o.Blank n) (h : o.Filled n i s)
    (hi : i + 1 < n) :
    let out := s.armNext p o.size
    (o.refusalAt i = none ∧ out.1 = .ok () ∧ o.Filled n (i + 1) out.2) ∨
      ∃ e, o.refusalAt i = some e ∧ out.1 = .error e := by
  intro out
  have hwrite : s.cursor.writeIdx = i := by rw [h.filling.cursor_eq]
  have hidle : s.table.isArmed s.cursor.writeIdx = false := by
    rw [Bool.eq_false_iff, Ne, h.filling.armed, hwrite]
    exact Nat.lt_irrefl i
  obtain ⟨journal, hacquire⟩ := hp.acquire o.size s.world
  rw [h.rest] at hacquire
  rcases hsupply : o.supply.nth o.size o.rest i with cause | b
  · have hanswer : (o.supply o.size (o.supply.after o.size o.rest i)).1 = .error cause := hsupply
    rw [hanswer] at hacquire
    have hout : out = _ := (Section.ArmedNext.starved hidle hacquire).eq
    refine .inr ⟨.allocation cause, ?_, ?_⟩
    · rw [refusalAt, hsupply]
    · rw [hout]
  · have hanswer : (o.supply o.size (o.supply.after o.size o.rest i)).1 = .ok b := hsupply
    rw [hanswer] at hacquire
    have hfree : s.hw.nextFreeEntry = some ⟨i, .zero, false⟩ := by
      have hlast := ho.reapHead
      rw [h.hw]
      refine (SourceRing.nextFreeEntry_eq_some (r := { o.ring with head := i }) ho.inAccess ?_).1
      simp only
      omega
    have hnextFree := hp.nextFreeEntry_eq s.hw
      ⟨⟨s.world.host.memory, journal⟩, o.supply.after o.size o.rest (i + 1)⟩
    rw [hfree] at hnextFree
    rcases h.setEntry hp ho hi (RxBuffer.busAddr b) journal (o.supply.after o.size o.rest (i + 1))
      with ⟨e, hobstacle, hset⟩ | ⟨entry, hclear, hfields, hcov, hset⟩
    · have hout : out = _ :=
        (Section.ArmedNext.placed hidle hacquire hnextFree (.rejected hset)).eq
      refine .inr ⟨.hardware e, ?_, ?_⟩
      · simp only [refusalAt, hsupply, hobstacle, Option.map_some]
      · rw [hout]
    · have hroom : s.cursor.writeIdx < s.table.capacity := by
        rw [hwrite, h.filling.capacity]
        omega
      obtain ⟨table, harm⟩ := SlotTable.exists_arm hroom hidle b
      have hout : out = _ :=
        (Section.ArmedNext.placed hidle hacquire hnextFree (.armed hset harm)).eq
      refine .inl ⟨?_, ?_, ?_⟩
      · simp only [refusalAt, hsupply, hclear, Option.map_none]
      · rw [hout]
      · rw [hout]
        exact h.next ho hi hsupply hfields hcov harm journal

theorem armMany (hp : OverSharedMemory rbm o.supply inbox p) (ho : o.Blank n)
    (h : o.Filled n 0 s) :
    let out := s.armMany p o.size (n - 1)
    ((∀ j, j + 1 < n → o.refusalAt j = none) ∧ out.1 = .ok () ∧ o.Filled n (n - 1) out.2) ∨
      ∃ m e, m + 1 < n ∧ (∀ j, j < m → o.refusalAt j = none) ∧ o.refusalAt m = some e ∧
        out.1 = .error e := by
  intro out
  have hroom := h.filling.room
  have hmany := Section.armMany_rule (p := p) o.size (n - 1) (s := s)
    (P := fun k s => ∃ i, i + k + 1 = n ∧ o.Filled n i s ∧ ∀ j, j < i → o.refusalAt j = none)
    (F := fun e _ => ∃ m, m + 1 < n ∧ (∀ j, j < m → o.refusalAt j = none) ∧
      o.refusalAt m = some e)
    (by
      rintro k s out ⟨i, hk, hf, hnone⟩ hstep
      have hout := hf.step hp ho (by omega)
      rw [hstep.eq] at hout
      rcases hout with ⟨hclear, hok, hnext⟩ | ⟨e, he, hfail⟩
      · refine .inl ⟨hok, i + 1, by omega, hnext, ?_⟩
        intro j hj
        by_cases hlast : j = i
        · rw [hlast, hclear]
        · exact hnone j (by omega)
      · exact .inr ⟨e, hfail, i, by omega, hnone, he⟩)
    ⟨0, by omega, h, fun j hj => absurd hj (Nat.not_lt_zero j)⟩
  rcases hmany with ⟨hok, i, hi, hf, hnone⟩ | ⟨e, hfail, m, hm, hnone, he⟩
  · obtain rfl : i = n - 1 := by omega
    exact .inl ⟨fun j hj => hnone j (by omega), hok, hf⟩
  · exact .inr ⟨m, e, hm, hnone, he, hfail⟩

end Filled

theorem Filled.close (hp : OverSharedMemory rbm o.supply inbox p) (ho : o.Blank n)
    (h : o.Filled n i s) {j : Nat} (hj : j < i) :
    ∃ b entry, o.supply.nth o.size o.rest j = .ok b ∧ s.table.buffer? j = some b ∧
      RingEntry.ofFields (RxBuffer.busAddr b) j o.ring.rbm = .ok entry ∧
      (s.close p).world.window.read (o.ring.layout.positionAddr j) RingEntry.size =
        .ok entry.toBytes := by
  obtain ⟨b, entry, hb, hbuffer, hfields, hread⟩ := h.armed j hj
  refine ⟨b, entry, hb, hbuffer, hfields, ?_⟩
  have hroom := h.filling.room
  have hj : j < o.ring.layout.numEntries := by
    rw [ho.numEntries]
    omega
  have hend : (s.close p).world.host.memory = (s.hw.accessEnd s.world.host).2.memory := by
    simp only [Section.close, hp.hardware]
    rfl
  have hword := (SourceRing.accessEnd_alike s.hw (m := s.world.host.memory) ⟨rfl, rfl, rfl⟩
    s.world.host.journal).2
  rw [h.hw] at hword hend
  rw [Machine.window, hend]
  exact (hword.spares (.inl (ho.inside.entry hj).2)).1.trans hread

end Outset

variable {rbm : Nat} {supply : Supply σ β} {inbox : σ → List β}
  {p : Platform (Machine σ) SourceRing Reservation β} {ring : Ring SourceRing β} {n : Nat}
  {r : SourceRing} {w : Machine σ}

theorem Section.fill_unopened (hp : OverSharedMemory rbm supply inbox p)
    (hclosed : r.inAccess = false) {e : SourceRingError}
    (hl : r.loadTail w.host.memory = .error e) (size count : Nat) :
    (ring.enter r w).fill p size count = (.error (.hardware e), ring.enter r w) := by
  simp only [fill, Ring.enter, hp.accessBegin_unopened hclosed hl]

/-- All slots but one are armed, or the first refusal is the error. -/
theorem Section.fill_outcome (hp : OverSharedMemory rbm supply inbox p)
    (hclosed : r.inAccess = false) {tail : Nat} (hl : r.loadTail w.host.memory = .ok tail)
    (ho : (ring.outset supply r tail w).Blank n) :
    let o := ring.outset supply r tail w
    let out := (ring.enter r w).fill p ring.geometry.bufferSize (n - 1)
    ((∀ i, i + 1 < n → o.refusalAt i = none) ∧ out.1 = .ok () ∧
      ∃ s, o.Filled n (n - 1) s ∧ out.2 = s.close p) ∨
    ∃ m e, m + 1 < n ∧ (∀ i, i < m → o.refusalAt i = none) ∧ o.refusalAt m = some e ∧
      out.1 = .error e := by
  intro o out
  have hout : out =
      let many := (ring.enter { r with cachedTail := tail, inAccess := true } w).armMany p
        ring.geometry.bufferSize (n - 1)
      (many.1, many.2.close p) := by
    simp only [out, fill, Ring.enter, hp.accessBegin_opened hclosed hl]
  have hstart : o.Filled n 0 (ring.enter { r with cachedTail := tail, inAccess := true } w) := by
    refine ⟨?_, ho.filling, fun j hj => absurd hj (Nat.not_lt_zero j), rfl, ⟨rfl, rfl, rfl⟩⟩
    rw [← ho.head]
    rfl
  rw [hout]
  rcases hstart.armMany hp ho with ⟨hnone, hok, hfilled⟩ | ⟨m, e, hm, hnone, he, hfail⟩
  · exact .inl ⟨hnone, hok, _, hfilled, rfl⟩
  · exact .inr ⟨m, e, hm, hnone, he, hfail⟩

end FrameRing
