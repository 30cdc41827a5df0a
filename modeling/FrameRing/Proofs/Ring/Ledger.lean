import FrameRing.Proofs.Ring.Runs

/-! # Ledgers

An audited platform numbers the buffers that it hands out and writes down which numbers come back
and which are delivered. The ring sees buffers only through what they show, so it does the same on
the audited platform as on the platform itself: `run_erase`. -/

namespace FrameRing

variable {ω η ε β : Type}

/-- A buffer with the number under which it was acquired. -/
structure Tagged (β : Type) where
  tag : Nat
  buf : β

instance [RxBuffer β] : RxBuffer (Tagged β) where
  busAddr b := RxBuffer.busAddr b.buf
  data b := RxBuffer.data b.buf
  pullHead b len := { b with buf := RxBuffer.pullHead b.buf len }
  trim b len := { b with buf := RxBuffer.trim b.buf len }

structure Ledger where
  acquired : Nat
  released : List Nat
  delivered : List Nat
  reported : List LogEvent
  deriving DecidableEq, Repr

def Ledger.empty : Ledger := ⟨0, [], [], []⟩

structure Audited (ω : Type) where
  world : ω
  ledger : Ledger

def Platform.audited (p : Platform ω η ε β) : Platform (Audited ω) η ε (Tagged β) where
  hardware :=
    { accessBegin := fun hw w =>
        let (result, hw, world) := p.hardware.accessBegin hw w.world
        (result, hw, { w with world })
      accessEnd := fun hw w =>
        let (hw, world) := p.hardware.accessEnd hw w.world
        (hw, { w with world })
      availableCount := fun hw w => p.hardware.availableCount hw w.world
      nextEntry := fun hw w =>
        let (entry, hw, world) := p.hardware.nextEntry hw w.world
        (entry, hw, { w with world })
      nextFreeEntry := fun hw w =>
        let (entry, hw, world) := p.hardware.nextFreeEntry hw w.world
        (entry, hw, { w with world })
      setEntry := fun entry busAddr cookie hw w =>
        let (result, hw, world) := p.hardware.setEntry entry busAddr cookie hw w.world
        (result, hw, { w with world })
      cookieOf := fun entry hw w => p.hardware.cookieOf entry hw w.world }
  pool :=
    { acquire := fun size w =>
        match p.pool.acquire size w.world with
        | (.error e, world) => (.error e, { w with world })
        | (.ok buf, world) =>
          (.ok ⟨w.ledger.acquired, buf⟩,
            ⟨world, { w.ledger with acquired := w.ledger.acquired + 1 }⟩)
      release := fun b w =>
        ⟨p.pool.release b.buf w.world,
          { w.ledger with released := w.ledger.released ++ [b.tag] }⟩
      syncForCpu := fun b w =>
        let (buf, world) := p.pool.syncForCpu b.buf w.world
        ({ b with buf }, { w with world }) }
  memory :=
    { alloc := fun len w =>
        let (result, world) := p.memory.alloc len w.world
        (result, { w with world })
      dealloc := fun a w =>
        let (result, world) := p.memory.dealloc a w.world
        (result, { w with world }) }
  hasTableRoom capacity w := p.hasTableRoom capacity w.world
  register reg w :=
    let (result, world) := p.register reg w.world
    (result, { w with world })
  deliver b w :=
    ⟨p.deliver b.buf w.world, { w.ledger with delivered := w.ledger.delivered ++ [b.tag] }⟩
  record event w :=
    ⟨p.record event w.world, { w.ledger with reported := w.ledger.reported ++ [event] }⟩

variable {β' : Type} {f : β → β'}

def Slot.map (f : β → β') (s : Slot β) : Slot β' := { s with buffer := s.buffer.map f }

def SlotTable.map (f : β → β') (t : SlotTable β) : SlotTable β' := ⟨t.slots.map (Slot.map f)⟩

namespace SlotTable

variable {t : SlotTable β} {idx : Nat}

@[simp] theorem slot?_map : (t.map f).slot? idx = (t.slot? idx).map (Slot.map f) := by
  simp [slot?, map]

@[simp] theorem capacity_map : (t.map f).capacity = t.capacity := by
  simp [capacity, map]

@[simp] theorem isArmed_map : (t.map f).isArmed idx = t.isArmed idx := by
  simp only [isArmed, slot?_map]
  cases t.slot? idx <;> simp [Slot.inUse, Slot.map]

@[simp] theorem buffers_map : (t.map f).buffers = t.buffers.map f := by
  simp only [buffers, map, Array.toList_map, List.filterMap_map, List.map_filterMap]
  rfl

@[simp] theorem inUseCount_map : (t.map f).inUseCount = t.inUseCount := by
  rw [inUseCount_eq_length, inUseCount_eq_length, buffers_map, List.length_map]

@[simp] theorem map_withCapacity (n : Nat) :
    (withCapacity n : SlotTable β).map f = withCapacity n := by
  simp [map, withCapacity, Slot.map, Slot.empty, Function.comp_def]

@[simp] theorem map_empty : (empty : SlotTable β).map f = empty := by simp [map, empty]

theorem arm_map [RxBuffer β] [RxBuffer β'] {buf : β}
    (hb : RxBuffer.busAddr (f buf) = RxBuffer.busAddr buf) :
    (t.map f).arm idx (f buf) =
      match t.arm idx buf with
      | .error buf => .error (f buf)
      | .ok t => .ok (t.map f) := by
  simp only [arm, slot?_map]
  cases t.slot? idx with
  | none => rfl
  | some s =>
    have hu : (s.map f).inUse = s.inUse := by simp [Slot.inUse, Slot.map]
    simp only [Option.map_some, hu]
    split
    · rfl
    · simp [map, Slot.map, hb]

theorem retire_map :
    (t.map f).retire idx = ((t.retire idx).1.map f, (t.retire idx).2.map f) := by
  simp only [retire, slot?_map]
  cases t.slot? idx with
  | none => rfl
  | some s => simp [map, Slot.map, Slot.vacated]

theorem frontLength_map (k : Nat) (slots : List (Slot β)) :
    frontLength k (slots.map (Slot.map f)) 0 = frontLength k slots 0 := by
  induction slots generalizing k with
  | nil => cases k <;> rfl
  | cons s slots ih =>
    cases k with
    | zero => rfl
    | succ k =>
      have hu : (s.map f).inUse = s.inUse := by simp [Slot.inUse, Slot.map]
      rw [List.map_cons, frontLength, frontLength, frontLength_passed, hu, ih,
        ← frontLength_passed]

theorem drain_map (k : Nat) :
    (t.map f).drain k = ((t.drain k).1.map f, (t.drain k).2.map f) := by
  have hbuffer (slots : List (Slot β)) :
      (slots.map (Slot.map f)).filterMap Slot.buffer = (slots.filterMap Slot.buffer).map f := by
    rw [List.filterMap_map, List.map_filterMap]
    rfl
  simp only [drain, map, Array.toList_map, frontLength_map, ← List.map_take, ← List.map_drop,
    hbuffer, List.map_map, List.map_append, List.map_toArray]
  rfl

end SlotTable

def Section.erase (s : Section (Audited ω) η (Tagged β)) : Section ω η β :=
  ⟨s.hw, s.table.map Tagged.buf, s.cursor, s.world.world⟩

def Pass.erase (s : Pass (Audited ω) η (Tagged β)) : Pass ω η β :=
  { toSection := s.toSection.erase, stats := s.stats, retired := s.retired.map Tagged.buf }

def Ring.erase (ring : Ring η (Tagged β)) : Ring η β :=
  { ring with table := ring.table.map Tagged.buf }

variable {p : Platform ω η ε β}

section Answers

variable {hw hw' : η} {w w' : Audited ω}

theorem audited_accessBegin {result : Except SourceRingError Unit}
    (h : p.audited.hardware.accessBegin hw w = (result, hw', w')) :
    p.hardware.accessBegin hw w.world = (result, hw', w'.world) ∧ w'.ledger = w.ledger := by
  cases h
  exact ⟨rfl, rfl⟩

theorem audited_nextEntry {entry : Option ε}
    (h : p.audited.hardware.nextEntry hw w = (entry, hw', w')) :
    p.hardware.nextEntry hw w.world = (entry, hw', w'.world) ∧ w'.ledger = w.ledger := by
  cases h
  exact ⟨rfl, rfl⟩

theorem audited_nextFreeEntry {entry : Option ε}
    (h : p.audited.hardware.nextFreeEntry hw w = (entry, hw', w')) :
    p.hardware.nextFreeEntry hw w.world = (entry, hw', w'.world) ∧ w'.ledger = w.ledger := by
  cases h
  exact ⟨rfl, rfl⟩

theorem audited_setEntry {entry : ε} {busAddr cookie : Nat} {result : Except SourceRingError Unit}
    (h : p.audited.hardware.setEntry entry busAddr cookie hw w = (result, hw', w')) :
    p.hardware.setEntry entry busAddr cookie hw w.world = (result, hw', w'.world) ∧
      w'.ledger = w.ledger := by
  cases h
  exact ⟨rfl, rfl⟩

theorem audited_alloc {len : Nat} {result : Except AllocError Allocation}
    (h : p.audited.memory.alloc len w = (result, w')) :
    p.memory.alloc len w.world = (result, w'.world) ∧ w'.ledger = w.ledger := by
  cases h
  exact ⟨rfl, rfl⟩

theorem audited_dealloc {a : Allocation} {result : Except AllocError Unit}
    (h : p.audited.memory.dealloc a w = (result, w')) :
    p.memory.dealloc a w.world = (result, w'.world) ∧ w'.ledger = w.ledger := by
  cases h
  exact ⟨rfl, rfl⟩

theorem audited_register {reg : Registration} {result : Except SourceRingError η}
    (h : p.audited.register reg w = (result, w')) :
    p.register reg w.world = (result, w'.world) ∧ w'.ledger = w.ledger := by
  cases h
  exact ⟨rfl, rfl⟩

theorem audited_acquire_error {size : Nat} {e : AllocError}
    (h : p.audited.pool.acquire size w = (.error e, w')) :
    p.pool.acquire size w.world = (.error e, w'.world) ∧ w'.ledger = w.ledger := by
  simp only [Platform.audited] at h
  split at h
  · rename_i acquire
    cases h
    exact ⟨acquire, rfl⟩
  · cases h

theorem audited_acquire_ok {size : Nat} {b : Tagged β}
    (h : p.audited.pool.acquire size w = (.ok b, w')) :
    p.pool.acquire size w.world = (.ok b.buf, w'.world) ∧ b.tag = w.ledger.acquired ∧
      w'.ledger = { w.ledger with acquired := w.ledger.acquired + 1 } := by
  simp only [Platform.audited] at h
  split at h
  · cases h
  · rename_i acquire
    cases h
    exact ⟨acquire, rfl, rfl⟩

theorem audited_sync {b b' : Tagged β} (h : p.audited.pool.syncForCpu b w = (b', w')) :
    p.pool.syncForCpu b.buf w.world = (b'.buf, w'.world) ∧ b'.tag = b.tag ∧
      w'.ledger = w.ledger := by
  cases h
  exact ⟨rfl, rfl, rfl⟩

end Answers

variable [RxBuffer β]

theorem Section.Placed.erase {entry : ε} {b : Tagged β} {s : Section (Audited ω) η (Tagged β)}
    {out : Except RingError Unit × Section (Audited ω) η (Tagged β)}
    (h : Placed p.audited entry b s out) :
    Placed p entry b.buf s.erase (out.1, out.2.erase) := by
  cases h with
  | rejected set => exact .rejected (audited_setEntry set).1
  | occupied set taken =>
    exact .occupied (audited_setEntry set).1 (by simpa [Section.erase] using taken)
  | armed set arm =>
    refine .armed (audited_setEntry set).1 ?_
    simp only [Section.erase]
    rw [SlotTable.arm_map (f := Tagged.buf) rfl, arm]

theorem Section.ArmedNext.erase {size : Nat} {s : Section (Audited ω) η (Tagged β)}
    {out : Except RingError Unit × Section (Audited ω) η (Tagged β)}
    (h : ArmedNext p.audited size s out) : ArmedNext p size s.erase (out.1, out.2.erase) := by
  have harmed : s.erase.table.isArmed s.erase.cursor.writeIdx =
      s.table.isArmed s.cursor.writeIdx := SlotTable.isArmed_map
  cases h with
  | occupied taken => exact .occupied (harmed.trans taken)
  | starved idle acquire =>
    exact .starved (harmed.trans idle) (audited_acquire_error acquire).1
  | full idle acquire free =>
    exact .full (harmed.trans idle) (audited_acquire_ok acquire).1 (audited_nextFreeEntry free).1
  | placed idle acquire free place =>
    exact .placed (harmed.trans idle) (audited_acquire_ok acquire).1
      (audited_nextFreeEntry free).1 place.erase

theorem Pass.Recycled.erase {size remaining : Nat} {entry : ε}
    {s : Pass (Audited ω) η (Tagged β)} {out : PassStep × Pass (Audited ω) η (Tagged β)}
    (h : Recycled p.audited size remaining entry s out) :
    Recycled p size remaining entry s.erase (out.1, out.2.erase) := by
  have harmed (i : Nat) : s.erase.table.isArmed i = s.table.isArmed i := SlotTable.isArmed_map
  have hdue (due : Due p.audited entry s) : Due p entry s.erase :=
    ⟨due.cookie, (harmed _).trans due.armed⟩
  cases h with
  | desync wrong => exact .desync (wrong.imp_right (harmed _).trans)
  | occupied due taken => exact .occupied (hdue due) ((harmed _).trans taken)
  | starved due idle acquire =>
    exact .starved (hdue due) ((harmed _).trans idle) (audited_acquire_error acquire).1
  | refused due idle acquire place =>
    exact .refused (hdue due) ((harmed _).trans idle) (audited_acquire_ok acquire).1 place.erase
  | lost due idle acquire place gone =>
    exact .lost (hdue due) ((harmed _).trans idle) (audited_acquire_ok acquire).1 place.erase
      (SlotTable.isArmed_map.trans gone)
  | @renewed buf w armed old table due idle acquire place retire =>
    have hretire : (armed.table.map Tagged.buf).retire armed.cursor.readIdx =
        (some old.buf, table.map Tagged.buf) := by
      rw [SlotTable.retire_map, retire]
      rfl
    have hout : Recycled p size remaining entry s.erase _ := .renewed (hdue due)
      ((harmed _).trans idle) (audited_acquire_ok acquire).1 place.erase hretire
    simpa [Pass.erase, Section.erase] using hout

theorem Pass.Stepped.erase {size remaining : Nat} {s : Pass (Audited ω) η (Tagged β)}
    {out : PassStep × Pass (Audited ω) η (Tagged β)} (h : Stepped p.audited size remaining s out) :
    Stepped p size remaining s.erase (out.1, out.2.erase) := by
  cases h with
  | missing next => exact .missing (audited_nextEntry next).1
  | found next recycle => exact .found (audited_nextEntry next).1 recycle.erase

theorem Section.armMany_erase (size count : Nat) (s : Section (Audited ω) η (Tagged β)) :
    s.erase.armMany p size count =
      ((s.armMany p.audited size count).1, (s.armMany p.audited size count).2.erase) := by
  induction count generalizing s with
  | zero => rfl
  | succ k ih =>
    have hstep := (armedNext p.audited size s).erase.eq
    unfold armMany
    rw [hstep]
    generalize s.armNext p.audited size = out
    obtain ⟨_ | _, s'⟩ := out
    · rfl
    · exact ih s'

theorem Section.fill_erase (size count : Nat) (s : Section (Audited ω) η (Tagged β)) :
    s.erase.fill p size count =
      ((s.fill p.audited size count).1, (s.fill p.audited size count).2.erase) := by
  unfold fill
  rcases hb : p.audited.hardware.accessBegin s.hw s.world with ⟨_ | _, hw, w⟩
  · have hb' := (audited_accessBegin hb).1
    simp only [erase, hb']
  · have hb' := (audited_accessBegin hb).1
    have hfill := armMany_erase (p := p) size count { s with hw, world := w }
    simp only [erase] at hb' hfill ⊢
    simp only [hb', hfill]
    rfl

theorem Pass.drain_erase (size count : Nat) (s : Pass (Audited ω) η (Tagged β)) :
    s.erase.drain p size count =
      ((s.drain p.audited size count).1, (s.drain p.audited size count).2.erase) := by
  induction count generalizing s with
  | zero => rfl
  | succ k ih =>
    have hstep := (stepped p.audited size (k + 1) s).erase.eq
    unfold drain
    rw [hstep]
    generalize s.step p.audited size (k + 1) = out
    obtain ⟨_ | _ | _, s'⟩ := out
    · exact ih s'
    · rfl
    · rfl

theorem stripHeader_tagged {b frame : Tagged β} {result : Except FrameError Nat}
    (h : stripHeader b = (result, frame)) :
    stripHeader b.buf = (result, frame.buf) ∧ frame.tag = b.tag := by
  unfold stripHeader at h ⊢
  have hdata : RxBuffer.data b = RxBuffer.data b.buf := rfl
  rw [hdata] at h
  cases hp : FrameHeader.parse (RxBuffer.data b.buf) <;> rw [hp] at h <;> cases h <;>
    exact ⟨rfl, rfl⟩

def Delivery.erase (d : Delivery (Audited ω)) : Delivery ω :=
  ⟨d.delivered, d.dropped, d.world.world⟩

theorem Delivery.Handled.erase {d out : Delivery (Audited ω)} {b : Tagged β}
    (h : Handled p.audited d b out) : Handled p d.erase b.buf out.erase := by
  cases h with
  | delivered sync strip => exact .delivered (audited_sync sync).1 (stripHeader_tagged strip).1
  | dropped sync strip => exact .dropped (audited_sync sync).1 (stripHeader_tagged strip).1

theorem Delivery.all_erase (bufs : List (Tagged β)) (w : Audited ω) :
    Delivery.all p (bufs.map Tagged.buf) w.world = (Delivery.all p.audited bufs w).erase := by
  have hfold (d : Delivery (Audited ω)) :
      (bufs.map Tagged.buf).foldl (one p) d.erase = (bufs.foldl (one p.audited) d).erase := by
    induction bufs generalizing d with
    | nil => rfl
    | cons b bufs ih =>
      rw [List.map_cons, List.foldl_cons, List.foldl_cons, (handled p.audited d b).erase.eq, ih]
  exact hfold ⟨0, 0, w⟩

namespace Ring

variable (ring : Ring η (Tagged β)) (w : Audited ω)

omit [RxBuffer β] in
theorem releaseAll_erase :
    ring.erase.releaseAll p w.world =
      ((ring.releaseAll p.audited w).1.erase, (ring.releaseAll p.audited w).2.world) := by
  have hfold (bufs : List (Tagged β)) (w : Audited ω) :
      (bufs.map Tagged.buf).foldl (fun w b => p.pool.release b w) w.world =
        (bufs.foldl (fun w b => p.audited.pool.release b w) w).world := by
    induction bufs generalizing w with
    | nil => rfl
    | cons b bufs ih =>
      rw [List.map_cons, List.foldl_cons, List.foldl_cons, ← ih]
      rfl
  have hfree (a : Allocation) (w : Audited ω) :
      freeRingMemory p a w.world = (freeRingMemory p.audited a w).world := by
    unfold freeRingMemory
    rcases hd : p.audited.memory.dealloc a w with ⟨_ | _, w'⟩ <;>
      simp only [(audited_dealloc hd).1]
    rfl
  unfold releaseAll
  by_cases hs : ring.state = .released
  · rw [if_pos hs, if_pos (show ring.erase.state = .released from hs)]
  · rw [if_neg hs, if_neg (show ring.erase.state ≠ .released from hs)]
    have hbufs : ring.erase.table.buffers = ring.table.buffers.map Tagged.buf :=
      SlotTable.buffers_map
    have hmem : ring.erase.ringMem = ring.ringMem := rfl
    simp only [hbufs, hfold, List.length_map, hmem]
    cases ring.ringMem with
    | none => simp only [Option.elim_none]; exact Prod.ext (by simp [erase]) rfl
    | some a => simp only [Option.elim_some, hfree]; exact Prod.ext (by simp [erase]) rfl

theorem attach_erase :
    ring.erase.attach p w.world =
      ((ring.attach p.audited w).1, (ring.attach p.audited w).2.1.erase,
        (ring.attach p.audited w).2.2.world) := by
  obtain ⟨geometry, state, table, cursor, hw, ringMem, stats⟩ := ring
  cases state with
  | active => rfl
  | faulted => rfl
  | released => rfl
  | ready =>
    cases hw with
    | none => rfl
    | some hw =>
      have hfill := Section.fill_erase (p := p) geometry.bufferSize (table.capacity - 1)
        ⟨hw, table, cursor, w⟩
      simp only [Section.erase] at hfill
      simp only [attach, erase, enter, SlotTable.capacity_map, hfill]
      generalize Section.fill p.audited geometry.bufferSize (table.capacity - 1)
        ⟨hw, table, cursor, w⟩ = out
      obtain ⟨_ | _, s⟩ := out
      · have hrel := releaseAll_erase (p := p)
          (leave ⟨geometry, .ready, table, cursor, some hw, ringMem, stats⟩ s)
        simp only [leave, erase] at hrel ⊢
        rw [← hrel]
        rfl
      · simp only [leave, inUseCount, SlotTable.inUseCount_map]
        rfl

omit [RxBuffer β] in
theorem conclude_erase (result : Except RingError Unit) (s : Pass (Audited ω) η (Tagged β)) :
    ring.erase.conclude p result s.erase =
      ((ring.conclude p.audited result s).1.erase, (ring.conclude p.audited result s).2.world) := by
  cases result <;> rfl

theorem deliver_erase (retired : List (Tagged β)) :
    ring.erase.deliver p (retired.map Tagged.buf) w.world =
      ((ring.deliver p.audited retired w).1, (ring.deliver p.audited retired w).2.1.erase,
        (ring.deliver p.audited retired w).2.2.world) := by
  simp only [deliver, Delivery.all_erase]
  rfl

theorem tryReap_erase :
    ring.erase.tryReap p w.world =
      ((ring.tryReap p.audited w).1, (ring.tryReap p.audited w).2.1.erase,
        (ring.tryReap p.audited w).2.2.world) := by
  have hstate : ring.erase.state = ring.state := rfl
  have hhw : ring.erase.hw = ring.hw := rfl
  unfold tryReap
  rw [hstate, hhw]
  split
  · rfl
  · rfl
  · rfl
  · rfl
  · rename_i hw _ _
    rcases hb : p.audited.hardware.accessBegin hw w with ⟨_ | _, hw', w'⟩
    · simp only [(audited_accessBegin hb).1]
      rfl
    · have hdrain := Pass.drain_erase (p := p) ring.geometry.bufferSize
        (p.audited.hardware.availableCount hw' w') ⟨ring.enter hw' w', ring.stats, []⟩
      have hstart : (⟨ring.erase.enter hw' w'.world, ring.erase.stats, []⟩ : Pass ω η β) =
          Pass.erase ⟨ring.enter hw' w', ring.stats, []⟩ := rfl
      have hcount : p.hardware.availableCount hw' w'.world =
          p.audited.hardware.availableCount hw' w' := rfl
      have hsize : ring.erase.geometry = ring.geometry := rfl
      simp only [(audited_accessBegin hb).1, hstart, hcount, hsize, hdrain]
      generalize Pass.drain p.audited ring.geometry.bufferSize _ _ = out
      obtain ⟨result, s⟩ := out
      have hclose : (⟨s.erase.toSection.close p, s.erase.stats, s.erase.retired⟩ : Pass ω η β) =
          Pass.erase ⟨s.toSection.close p.audited, s.stats, s.retired⟩ := rfl
      simp only [hclose, conclude_erase]
      have hretired : s.erase.retired = s.retired.map Tagged.buf := rfl
      rw [hretired, deliver_erase]

theorem reap_erase :
    ring.erase.reap p w.world =
      ((ring.reap p.audited w).1.erase, (ring.reap p.audited w).2.world) := by
  unfold reap
  rw [tryReap_erase]
  generalize ring.tryReap p.audited w = out
  obtain ⟨_ | _, ring', w'⟩ := out <;> rfl

theorem perform_erase (op : Operation) :
    ring.erase.perform p w.world op =
      ((ring.perform p.audited w op).1.erase, (ring.perform p.audited w op).2.world) := by
  cases op with
  | attach => simp only [perform, attach_erase]
  | tryReap => simp only [perform, tryReap_erase]
  | reap => exact reap_erase ring w
  | release => exact releaseAll_erase ring w

end Ring

def Move.audited : Move ω → Move (Audited ω)
  | .operate op => .operate op
  | .disturb change => .disturb fun w => { w with world := change w.world }

namespace Ring

theorem run_erase (ring : Ring η (Tagged β)) (w : Audited ω) (moves : List (Move ω)) :
    Ring.run p (ring.erase, w.world) moves =
      ((Ring.run p.audited (ring, w) (moves.map Move.audited)).1.erase,
        (Ring.run p.audited (ring, w) (moves.map Move.audited)).2.world) := by
  induction moves generalizing ring w with
  | nil => rfl
  | cons move moves ih =>
    cases move with
    | operate op =>
      have hstep := perform_erase (p := p) ring w op
      have hrun := ih (ring.perform p.audited w op).1 (ring.perform p.audited w op).2
      simp only [run, List.map_cons, List.foldl_cons, Move.apply, Move.audited] at hrun ⊢
      rw [hstep]
      exact hrun
    | disturb change => exact ih ring { w with world := change w.world }

omit [RxBuffer β] in
/-- A setup goes the same way on the audited platform, and acquires no buffer. -/
theorem setup_audited {params : RingParams} {w w' : ω} {ring : Ring η β} (l : Ledger)
    (h : Ring.setup p params w = (.ok ring, w')) :
    ∃ (start : Ring η (Tagged β)) (l' : Ledger),
      Ring.setup p.audited params ⟨w, l⟩ = (.ok start, ⟨w', l'⟩) ∧ start.erase = ring ∧
        start.table = .withCapacity params.capacity ∧
        l' = { l with reported := l'.reported } := by
  obtain ⟨valid, room, a, w₁, hw, w₂, alloc, aligned, register, rfl, rfl⟩ := setup_eq_ok h
  refine ⟨⟨⟨params.capacity, params.entrySize, params.bufferSize, RingLayout.baseAlign, a⟩, .ready,
    .withCapacity params.capacity, .ofSize params.capacity, some hw, some a, .zero⟩,
    { l with
      reported := l.reported ++ [.ringSetUp params.capacity a.addr params.bufferSize] },
    ?_, ?_, rfl, rfl⟩
  · simp only [setup, valid, Platform.audited, room, alloc, aligned, register, ne_eq,
      not_true_eq_false, if_false, AllocGuard.hold, AllocGuard.dismiss, AllocGuard.close,
      Bool.false_eq_true, Bool.true_eq_false]
  · simp only [erase, SlotTable.map_withCapacity]

end Ring

end FrameRing
