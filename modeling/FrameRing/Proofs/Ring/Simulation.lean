import FrameRing.Ring.Attach
import FrameRing.Ring.Reap
import FrameRing.Proofs.Ring.Runs

/-! # Two rings, call by call

The same ring is run on two platforms. As long as single calls answer alike and keep the two worlds
related, whole operations answer alike, leave the ring alike and keep the worlds related. Inside an
access section hardware rings and worlds are related jointly, outside of it each by themselves. -/

namespace FrameRing

variable {ω ω' η ε β : Type}

/-- Calls outside of a section keep `W`. Only buffers that are `seen` need to be synced alike. -/
structure CallSimulation (p : Platform ω η ε β) (p' : Platform ω' η ε β) (W : ω → ω' → Prop)
    (seen : β → Prop) : Prop where
  release {w w'} (h : W w w') (b : β) : W (p.pool.release b w) (p'.pool.release b w')
  sync {w w' b} (h : W w w') (hb : seen b) :
    (p.pool.syncForCpu b w).1 = (p'.pool.syncForCpu b w').1 ∧
      W (p.pool.syncForCpu b w).2 (p'.pool.syncForCpu b w').2
  deliver {w w'} (h : W w w') (b : β) : W (p.deliver b w) (p'.deliver b w')
  record {w w'} (h : W w w') (event : LogEvent) : W (p.record event w) (p'.record event w')
  dealloc {w w'} (h : W w w') (a : Allocation) :
    (p.memory.dealloc a w).1 = (p'.memory.dealloc a w').1 ∧
      W (p.memory.dealloc a w).2 (p'.memory.dealloc a w').2

/-- A section that starts from `before` is `opened` on both sides and ends with `H` between the
hardware rings; `E` relates the reservations. -/
structure Simulation (p : Platform ω η ε β) (p' : Platform ω' η ε β)
    (before opened : η → ω → η → ω' → Prop) (H : η → η → Prop) (W : ω → ω' → Prop)
    (E : ε → ε → Prop) (seen : β → Prop) : Prop extends CallSimulation p p' W seen where
  accessBegin {hw w hw' w'} (h : before hw w hw' w') :
    let out := p.hardware.accessBegin hw w
    let out' := p'.hardware.accessBegin hw' w'
    out.1 = out'.1 ∧ (out.1 = .ok () → opened out.2.1 out.2.2 out'.2.1 out'.2.2) ∧
      ∀ e, out.1 = .error e → H out.2.1 out'.2.1 ∧ W out.2.2 out'.2.2
  accessEnd {hw w hw' w'} (h : opened hw w hw' w') :
    H (p.hardware.accessEnd hw w).1 (p'.hardware.accessEnd hw' w').1 ∧
      W (p.hardware.accessEnd hw w).2 (p'.hardware.accessEnd hw' w').2
  availableCount {hw w hw' w'} (h : opened hw w hw' w') :
    p.hardware.availableCount hw w = p'.hardware.availableCount hw' w'
  nextEntry {hw w hw' w'} (h : opened hw w hw' w') :
    let out := p.hardware.nextEntry hw w
    let out' := p'.hardware.nextEntry hw' w'
    Option.Rel E out.1 out'.1 ∧ opened out.2.1 out.2.2 out'.2.1 out'.2.2
  nextFreeEntry {hw w hw' w'} (h : opened hw w hw' w') :
    let out := p.hardware.nextFreeEntry hw w
    let out' := p'.hardware.nextFreeEntry hw' w'
    Option.Rel E out.1 out'.1 ∧ opened out.2.1 out.2.2 out'.2.1 out'.2.2
  setEntry {hw w hw' w' entry entry'} (h : opened hw w hw' w') (he : E entry entry')
    (busAddr cookie : Nat) :
    let out := p.hardware.setEntry entry busAddr cookie hw w
    let out' := p'.hardware.setEntry entry' busAddr cookie hw' w'
    out.1 = out'.1 ∧ opened out.2.1 out.2.2 out'.2.1 out'.2.2
  cookieOf {hw w hw' w' entry entry'} (h : opened hw w hw' w') (he : E entry entry') :
    p.hardware.cookieOf entry hw w = p'.hardware.cookieOf entry' hw' w'
  acquire {hw w hw' w'} (h : opened hw w hw' w') (size : Nat) :
    (p.pool.acquire size w).1 = (p'.pool.acquire size w').1 ∧
      opened hw (p.pool.acquire size w).2 hw' (p'.pool.acquire size w').2
  giveBack {hw w hw' w'} (h : opened hw w hw' w') (b : β) :
    opened hw (p.pool.release b w) hw' (p'.pool.release b w')
  report {hw w hw' w'} (h : opened hw w hw' w') (event : LogEvent) :
    opened hw (p.record event w) hw' (p'.record event w')

structure Section.Paired (opened : η → ω → η → ω' → Prop) (s : Section ω η β)
    (s' : Section ω' η β) : Prop where
  table : s.table = s'.table
  cursor : s.cursor = s'.cursor
  opened : opened s.hw s.world s'.hw s'.world

structure Pass.Paired (opened : η → ω → η → ω' → Prop) (s : Pass ω η β) (s' : Pass ω' η β) : Prop
    extends Section.Paired opened s.toSection s'.toSection where
  stats : s.stats = s'.stats
  retired : s.retired = s'.retired

structure Ring.Paired (H : η → η → Prop) (ring ring' : Ring η β) : Prop where
  same : ring' = { ring with hw := ring'.hw }
  hardware : Option.Rel H ring.hw ring'.hw

theorem optionRel_refl {α : Type} : (x : Option α) → Option.Rel Eq x x
  | none => .none
  | some _ => .some rfl

theorem Ring.Paired.eq {ring ring' : Ring η β} (h : Paired Eq ring ring') : ring = ring' := by
  obtain ⟨geometry, state, table, cursor, hw, ringMem, stats⟩ := ring
  obtain ⟨geometry', state', table', cursor', hw', ringMem', stats'⟩ := ring'
  obtain ⟨hsame, hhw⟩ := h
  cases hsame
  cases hhw with
  | none => rfl
  | some h => rw [h]

variable {p : Platform ω η ε β} {p' : Platform ω' η ε β} {before opened : η → ω → η → ω' → Prop}
  {H : η → η → Prop} {W : ω → ω' → Prop} {E : ε → ε → Prop} {seen : β → Prop}

variable [RxBuffer β]

namespace Section

variable {s : Section ω η β} {s' : Section ω' η β}

theorem Paired.place (K : Simulation p p' before opened H W E seen) (h : Paired opened s s')
    {entry entry' : ε} (he : E entry entry') (b : β) :
    (s.place p entry b).1 = (s'.place p' entry' b).1 ∧
      Paired opened (s.place p entry b).2 (s'.place p' entry' b).2 := by
  obtain ⟨hw, table, cursor, w⟩ := s
  obtain ⟨hw', table', cursor', w'⟩ := s'
  obtain ⟨rfl, rfl, hopened⟩ := h
  have hset := K.setEntry hopened he (RxBuffer.busAddr b) cursor.writeIdx
  simp only [Section.place]
  generalize p.hardware.setEntry entry (RxBuffer.busAddr b) cursor.writeIdx hw w = out at hset ⊢
  generalize p'.hardware.setEntry entry' (RxBuffer.busAddr b) cursor.writeIdx hw' w' = out'
    at hset ⊢
  obtain ⟨result, hw₁, w₁⟩ := out
  obtain ⟨result', hw₁', w₁'⟩ := out'
  obtain ⟨rfl, hopened⟩ := hset
  cases result with
  | error e => exact ⟨rfl, rfl, rfl, K.giveBack hopened b⟩
  | ok =>
    cases harm : table.arm cursor.writeIdx b with
    | error b' => exact ⟨rfl, rfl, rfl, K.giveBack hopened b'⟩
    | ok table' => exact ⟨rfl, rfl, rfl, hopened⟩

theorem Paired.armNext (K : Simulation p p' before opened H W E seen) (h : Paired opened s s')
    (size : Nat) :
    (s.armNext p size).1 = (s'.armNext p' size).1 ∧
      Paired opened (s.armNext p size).2 (s'.armNext p' size).2 := by
  obtain ⟨hw, table, cursor, w⟩ := s
  obtain ⟨hw', table', cursor', w'⟩ := s'
  obtain ⟨rfl, rfl, hopened⟩ := h
  simp only [Section.armNext]
  by_cases taken : table.isArmed cursor.writeIdx = true
  · simp only [taken, if_true]
    exact ⟨trivial, rfl, rfl, hopened⟩
  simp only [taken, Bool.false_eq_true, if_false]
  have hacquire := K.acquire hopened size
  generalize p.pool.acquire size w = out at hacquire ⊢
  generalize p'.pool.acquire size w' = out' at hacquire ⊢
  obtain ⟨result, w₁⟩ := out
  obtain ⟨result', w₁'⟩ := out'
  obtain ⟨rfl, hopened⟩ := hacquire
  cases result with
  | error e => exact ⟨rfl, rfl, rfl, hopened⟩
  | ok b =>
    simp only
    have hnext := K.nextFreeEntry hopened
    generalize p.hardware.nextFreeEntry hw w₁ = out at hnext ⊢
    generalize p'.hardware.nextFreeEntry hw' w₁' = out' at hnext ⊢
    obtain ⟨found, hw₂, w₂⟩ := out
    obtain ⟨found', hw₂', w₂'⟩ := out'
    obtain ⟨hfound, hopened⟩ := hnext
    cases hfound with
    | none => exact ⟨rfl, rfl, rfl, K.giveBack hopened b⟩
    | some he =>
      have hpaired : Paired opened (⟨hw₂, table, cursor, w₂⟩ : Section ω η β)
          (⟨hw₂', table, cursor, w₂'⟩ : Section ω' η β) := ⟨rfl, rfl, hopened⟩
      exact hpaired.place K he b

theorem Paired.armMany (K : Simulation p p' before opened H W E seen) (h : Paired opened s s')
    (size count : Nat) :
    (s.armMany p size count).1 = (s'.armMany p' size count).1 ∧
      Paired opened (s.armMany p size count).2 (s'.armMany p' size count).2 := by
  induction count generalizing s s' with
  | zero => exact ⟨rfl, h⟩
  | succ count ih =>
    have hstep := h.armNext K size
    unfold Section.armMany
    generalize s.armNext p size = out at hstep ⊢
    generalize s'.armNext p' size = out' at hstep ⊢
    obtain ⟨result, s₁⟩ := out
    obtain ⟨result', s₁'⟩ := out'
    obtain ⟨rfl, hnext⟩ := hstep
    cases result with
    | error e => exact ⟨rfl, hnext⟩
    | ok => exact ih hnext

end Section

theorem Section.fill_simulation (K : Simulation p p' before opened H W E seen) (table : SlotTable β)
    (cursor : RingCursor) {hw hw' : η} {w : ω} {w' : ω'} (h : before hw w hw' w')
    (size count : Nat) :
    let out := fill p size count ⟨hw, table, cursor, w⟩
    let out' := fill p' size count ⟨hw', table, cursor, w'⟩
    out.1 = out'.1 ∧ out.2.table = out'.2.table ∧ out.2.cursor = out'.2.cursor ∧
      H out.2.hw out'.2.hw ∧ W out.2.world out'.2.world := by
  have hbegin := K.accessBegin h
  simp only [fill]
  generalize p.hardware.accessBegin hw w = out at hbegin ⊢
  generalize p'.hardware.accessBegin hw' w' = out' at hbegin ⊢
  obtain ⟨result, hw₁, w₁⟩ := out
  obtain ⟨result', hw₁', w₁'⟩ := out'
  obtain ⟨rfl, hok, herror⟩ := hbegin
  cases result with
  | error e =>
    obtain ⟨hhw, hworld⟩ := herror e rfl
    exact ⟨rfl, rfl, rfl, hhw, hworld⟩
  | ok =>
    have hpaired : Paired opened (⟨hw₁, table, cursor, w₁⟩ : Section ω η β)
        (⟨hw₁', table, cursor, w₁'⟩ : Section ω' η β) := ⟨rfl, rfl, hok rfl⟩
    obtain ⟨hresult, hend⟩ := hpaired.armMany K size count
    obtain ⟨hhw, hworld⟩ := K.accessEnd hend.opened
    exact ⟨hresult, hend.table, hend.cursor, hhw, hworld⟩

namespace Pass

variable {s : Pass ω η β} {s' : Pass ω' η β}

omit [RxBuffer β] in
theorem Paired.retireOldest (h : Paired opened s s') (cookie : Nat) :
    (s.retireOldest cookie).1 = (s'.retireOldest cookie).1 ∧
      Paired opened (s.retireOldest cookie).2 (s'.retireOldest cookie).2 := by
  obtain ⟨⟨hw, table, cursor, w⟩, stats, retired⟩ := s
  obtain ⟨⟨hw', table', cursor', w'⟩, stats', retired'⟩ := s'
  obtain ⟨⟨rfl, rfl, hopened⟩, rfl, rfl⟩ := h
  simp only [Pass.retireOldest]
  rcases table.retire cursor.readIdx with ⟨_ | old, table'⟩
  · exact ⟨rfl, ⟨rfl, rfl, hopened⟩, rfl, rfl⟩
  · exact ⟨rfl, ⟨rfl, rfl, hopened⟩, rfl, rfl⟩

theorem Paired.recycle (K : Simulation p p' before opened H W E seen) (h : Paired opened s s')
    {entry entry' : ε} (he : E entry entry') (size remaining : Nat) :
    (s.recycle p size remaining entry).1 = (s'.recycle p' size remaining entry').1 ∧
      Paired opened (s.recycle p size remaining entry).2
        (s'.recycle p' size remaining entry').2 := by
  obtain ⟨⟨hw, table, cursor, w⟩, stats, retired⟩ := s
  obtain ⟨⟨hw', table', cursor', w'⟩, stats', retired'⟩ := s'
  obtain ⟨⟨rfl, rfl, hopened⟩, rfl, rfl⟩ := h
  simp only [Pass.recycle, ← K.cookieOf hopened he]
  by_cases wrong : p.hardware.cookieOf entry hw w ≠ cursor.readIdx ∨
      table.isArmed cursor.readIdx = false
  · simp only [if_pos wrong]
    exact ⟨trivial, ⟨rfl, rfl, hopened⟩, rfl, rfl⟩
  simp only [if_neg wrong]
  by_cases taken : table.isArmed cursor.writeIdx = true
  · simp only [if_pos taken]
    exact ⟨trivial, ⟨rfl, rfl, hopened⟩, rfl, rfl⟩
  simp only [if_neg taken]
  have hacquire := K.acquire hopened size
  generalize p.pool.acquire size w = out at hacquire ⊢
  generalize p'.pool.acquire size w' = out' at hacquire ⊢
  obtain ⟨result, w₁⟩ := out
  obtain ⟨result', w₁'⟩ := out'
  obtain ⟨rfl, hopened⟩ := hacquire
  cases result with
  | error e => exact ⟨rfl, ⟨rfl, rfl, K.report hopened _⟩, rfl, rfl⟩
  | ok b =>
    have hpaired : Section.Paired opened (⟨hw, table, cursor, w₁⟩ : Section ω η β)
        (⟨hw', table, cursor, w₁'⟩ : Section ω' η β) := ⟨rfl, rfl, hopened⟩
    have hplace := hpaired.place K he b
    simp only
    generalize Section.place p entry b ⟨hw, table, cursor, w₁⟩ = out at hplace ⊢
    generalize Section.place p' entry' b ⟨hw', table, cursor, w₁'⟩ = out' at hplace ⊢
    obtain ⟨result, armed⟩ := out
    obtain ⟨result', armed'⟩ := out'
    obtain ⟨rfl, harmed⟩ := hplace
    cases result with
    | error e => exact ⟨rfl, harmed, rfl, rfl⟩
    | ok =>
      have hpass : Paired opened (⟨armed, stats, retired⟩ : Pass ω η β)
          (⟨armed', stats, retired⟩ : Pass ω' η β) := ⟨harmed, rfl, rfl⟩
      exact hpass.retireOldest _

theorem Paired.step (K : Simulation p p' before opened H W E seen) (h : Paired opened s s')
    (size remaining : Nat) :
    (s.step p size remaining).1 = (s'.step p' size remaining).1 ∧
      Paired opened (s.step p size remaining).2 (s'.step p' size remaining).2 := by
  obtain ⟨⟨hw, table, cursor, w⟩, stats, retired⟩ := s
  obtain ⟨⟨hw', table', cursor', w'⟩, stats', retired'⟩ := s'
  obtain ⟨⟨rfl, rfl, hopened⟩, rfl, rfl⟩ := h
  have hnext := K.nextEntry hopened
  simp only [Pass.step]
  generalize p.hardware.nextEntry hw w = out at hnext ⊢
  generalize p'.hardware.nextEntry hw' w' = out' at hnext ⊢
  obtain ⟨found, hw₁, w₁⟩ := out
  obtain ⟨found', hw₁', w₁'⟩ := out'
  obtain ⟨hfound, hopened⟩ := hnext
  cases hfound with
  | none => exact ⟨rfl, ⟨rfl, rfl, K.report hopened _⟩, rfl, rfl⟩
  | some he =>
    have hpass : Paired opened (⟨⟨hw₁, table, cursor, w₁⟩, stats, retired⟩ : Pass ω η β)
        (⟨⟨hw₁', table, cursor, w₁'⟩, stats, retired⟩ : Pass ω' η β) :=
      ⟨⟨rfl, rfl, hopened⟩, rfl, rfl⟩
    exact hpass.recycle K he size remaining

theorem Paired.drain (K : Simulation p p' before opened H W E seen) (h : Paired opened s s')
    (size count : Nat) :
    (s.drain p size count).1 = (s'.drain p' size count).1 ∧
      Paired opened (s.drain p size count).2 (s'.drain p' size count).2 := by
  induction count generalizing s s' with
  | zero => exact ⟨rfl, h⟩
  | succ count ih =>
    have hstep := h.step K size (count + 1)
    unfold Pass.drain
    generalize s.step p size (count + 1) = out at hstep ⊢
    generalize s'.step p' size (count + 1) = out' at hstep ⊢
    obtain ⟨next, s₁⟩ := out
    obtain ⟨next', s₁'⟩ := out'
    obtain ⟨rfl, hnext⟩ := hstep
    cases next with
    | proceed => exact ih hnext
    | stop => exact ⟨rfl, hnext⟩
    | fail e => exact ⟨rfl, hnext⟩

end Pass

structure Delivery.Paired (W : ω → ω' → Prop) (d : Delivery ω) (d' : Delivery ω') : Prop where
  delivered : d.delivered = d'.delivered
  dropped : d.dropped = d'.dropped
  world : W d.world d'.world

namespace Delivery

theorem Paired.one (K : CallSimulation p p' W seen) {d : Delivery ω} {d' : Delivery ω'}
    (h : Paired W d d') {b : β} (hb : seen b) : Paired W (d.one p b) (d'.one p' b) := by
  obtain ⟨delivered, dropped, w⟩ := d
  obtain ⟨delivered', dropped', w'⟩ := d'
  obtain ⟨rfl, rfl, hworld⟩ := h
  have hsync := K.sync hworld hb
  rcases hone : p.pool.syncForCpu b w with ⟨b₁, w₁⟩
  rcases hone' : p'.pool.syncForCpu b w' with ⟨b₁', w₁'⟩
  rw [hone, hone'] at hsync
  obtain ⟨hsame, hworld⟩ := hsync
  obtain rfl : b₁ = b₁' := hsame
  simp only [Delivery.one, hone, hone']
  rcases stripHeader b₁ with ⟨_ | len, frame⟩
  · exact ⟨rfl, rfl, K.release (K.record hworld _) _⟩
  · exact ⟨rfl, rfl, K.deliver (K.record hworld _) _⟩

theorem all_simulation (K : CallSimulation p p' W seen) {w : ω} {w' : ω'} (h : W w w')
    {bufs : List β} (hb : ∀ b ∈ bufs, seen b) : Paired W (all p bufs w) (all p' bufs w') := by
  have hfold {d : Delivery ω} {d' : Delivery ω'} (hd : Paired W d d') :
      Paired W (bufs.foldl (Delivery.one p) d) (bufs.foldl (Delivery.one p') d') := by
    induction bufs generalizing d d' with
    | nil => exact hd
    | cons b bufs ih =>
      exact ih (fun b hm => hb b (List.mem_cons_of_mem _ hm))
        (hd.one K (hb b List.mem_cons_self))
  exact hfold ⟨rfl, rfl, h⟩

end Delivery

namespace Ring

variable {ring ring' : Ring η β} {w : ω} {w' : ω'}

omit [RxBuffer β] in
theorem Paired.releaseAll (K : CallSimulation p p' W seen) (h : Paired H ring ring')
    (hworld : W w w') : Paired H (ring.releaseAll p w).1 (ring'.releaseAll p' w').1 ∧
      W (ring.releaseAll p w).2 (ring'.releaseAll p' w').2 := by
  obtain ⟨geometry, state, table, cursor, hw, ringMem, stats⟩ := ring
  obtain ⟨geometry', state', table', cursor', hw', ringMem', stats'⟩ := ring'
  obtain ⟨hsame, hhw⟩ := h
  cases hsame
  simp only [Ring.releaseAll]
  by_cases hs : state = .released
  · simp only [if_pos hs]
    exact ⟨⟨rfl, hhw⟩, hworld⟩
  have hfold (bufs : List β) {w : ω} {w' : ω'} (hworld : W w w') :
      W (bufs.foldl (fun w b => p.pool.release b w) w)
        (bufs.foldl (fun w b => p'.pool.release b w) w') := by
    induction bufs generalizing w w' with
    | nil => exact hworld
    | cons b bufs ih => exact ih (K.release hworld b)
  have hfree (a : Allocation) {w : ω} {w' : ω'} (hworld : W w w') :
      W (freeRingMemory p a w) (freeRingMemory p' a w') := by
    have hdealloc := K.dealloc hworld a
    unfold freeRingMemory
    generalize p.memory.dealloc a w = out at hdealloc ⊢
    generalize p'.memory.dealloc a w' = out' at hdealloc ⊢
    obtain ⟨result, w₁⟩ := out
    obtain ⟨result', w₁'⟩ := out'
    obtain ⟨rfl, hworld⟩ := hdealloc
    cases result with
    | error e => exact K.record hworld _
    | ok => exact hworld
  simp only [if_neg hs]
  refine ⟨⟨rfl, .none⟩, K.record ?_ _⟩
  cases ringMem with
  | none => exact hfold _ hworld
  | some a => exact hfree a (hfold _ hworld)

theorem attach_simulation (K : Simulation p p' before opened H W E seen) (h : Paired H ring ring')
    (hworld : W w w')
    (hbefore : ∀ hw hw', ring.hw = some hw → ring'.hw = some hw' → before hw w hw' w') :
    let out := ring.attach p w
    let out' := ring'.attach p' w'
    out.1 = out'.1 ∧ Paired H out.2.1 out'.2.1 ∧ W out.2.2 out'.2.2 := by
  obtain ⟨geometry, state, table, cursor, hw, ringMem, stats⟩ := ring
  obtain ⟨geometry', state', table', cursor', hw', ringMem', stats'⟩ := ring'
  obtain ⟨hsame, hhw⟩ := h
  cases hsame
  cases state with
  | active => exact ⟨rfl, ⟨rfl, hhw⟩, hworld⟩
  | faulted => exact ⟨rfl, ⟨rfl, hhw⟩, hworld⟩
  | released => exact ⟨rfl, ⟨rfl, hhw⟩, hworld⟩
  | ready =>
    cases hhw with
    | none => exact ⟨rfl, ⟨rfl, .none⟩, hworld⟩
    | @some hw hw' _ =>
      have hfill := Section.fill_simulation K table cursor (hbefore hw hw' rfl rfl)
        geometry.bufferSize (table.capacity - 1)
      simp only [attach, enter]
      generalize Section.fill p geometry.bufferSize (table.capacity - 1) ⟨hw, table, cursor, w⟩ =
        out at hfill ⊢
      generalize Section.fill p' geometry.bufferSize (table.capacity - 1)
        ⟨hw', table, cursor, w'⟩ = out' at hfill ⊢
      obtain ⟨result, ⟨hw₁, table₁, cursor₁, w₁⟩⟩ := out
      obtain ⟨result', ⟨hw₁', table₁', cursor₁', w₁'⟩⟩ := out'
      obtain ⟨hresult, htable, hcursor, hhw, hworld⟩ := hfill
      obtain rfl : result = result' := hresult
      obtain rfl : table₁ = table₁' := htable
      obtain rfl : cursor₁ = cursor₁' := hcursor
      cases result with
      | error e =>
        have hleave : Paired H (⟨geometry, .ready, table₁, cursor₁, some hw₁, ringMem, stats⟩)
            (⟨geometry, .ready, table₁, cursor₁, some hw₁', ringMem, stats⟩ : Ring η β) :=
          ⟨rfl, .some hhw⟩
        exact ⟨rfl, hleave.releaseAll K.toCallSimulation (K.record hworld _)⟩
      | ok => exact ⟨rfl, ⟨rfl, .some hhw⟩, K.record hworld _⟩

/-- Only the buffers that the pass retired are looked into. -/
theorem tryReap_simulation (K : Simulation p p' before opened H W E seen) (h : Paired H ring ring')
    (hworld : W w w')
    (hbefore : ∀ hw hw', ring.hw = some hw → ring'.hw = some hw' → before hw w hw' w')
    (hseen : ∀ hw hw₁ w₁, ring.hw = some hw →
      p.hardware.accessBegin hw w = (.ok (), hw₁, w₁) →
      ∀ b ∈ (Pass.drain p ring.geometry.bufferSize (p.hardware.availableCount hw₁ w₁)
        ⟨ring.enter hw₁ w₁, ring.stats, []⟩).2.retired, seen b) :
    let out := ring.tryReap p w
    let out' := ring'.tryReap p' w'
    out.1 = out'.1 ∧ Paired H out.2.1 out'.2.1 ∧ W out.2.2 out'.2.2 := by
  obtain ⟨geometry, state, table, cursor, hw, ringMem, stats⟩ := ring
  obtain ⟨geometry', state', table', cursor', hw', ringMem', stats'⟩ := ring'
  obtain ⟨hsame, hhw⟩ := h
  cases hsame
  cases state with
  | ready => exact ⟨rfl, ⟨rfl, hhw⟩, hworld⟩
  | faulted => exact ⟨rfl, ⟨rfl, hhw⟩, hworld⟩
  | released => exact ⟨rfl, ⟨rfl, hhw⟩, hworld⟩
  | active =>
    cases hhw with
    | none => exact ⟨rfl, ⟨rfl, .none⟩, hworld⟩
    | @some hw hw' _ =>
      have hbegin := K.accessBegin (hbefore hw hw' rfl rfl)
      have hseen := hseen hw
      simp only [tryReap]
      generalize p.hardware.accessBegin hw w = out at hbegin hseen ⊢
      generalize p'.hardware.accessBegin hw' w' = out' at hbegin ⊢
      obtain ⟨result, hw₁, w₁⟩ := out
      obtain ⟨result', hw₁', w₁'⟩ := out'
      obtain ⟨hresult, hok, herror⟩ := hbegin
      obtain rfl : result = result' := hresult
      cases result with
      | error e =>
        obtain ⟨hhw, hworld⟩ := herror e rfl
        exact ⟨rfl, ⟨rfl, .some hhw⟩, hworld⟩
      | ok =>
        have hopened := hok rfl
        have hseen := hseen hw₁ w₁ rfl rfl
        have hstart : Pass.Paired opened
            (⟨⟨hw₁, table, cursor, w₁⟩, stats, []⟩ : Pass ω η β)
            (⟨⟨hw₁', table, cursor, w₁'⟩, stats, []⟩ : Pass ω' η β) :=
          ⟨⟨rfl, rfl, hopened⟩, rfl, rfl⟩
        have hdrain := hstart.drain K geometry.bufferSize (p.hardware.availableCount hw₁ w₁)
        simp only [enter, ← K.availableCount hopened] at hseen ⊢
        generalize Pass.drain p geometry.bufferSize (p.hardware.availableCount hw₁ w₁)
          ⟨⟨hw₁, table, cursor, w₁⟩, stats, []⟩ = out at hdrain hseen ⊢
        generalize Pass.drain p' geometry.bufferSize (p.hardware.availableCount hw₁ w₁)
          ⟨⟨hw₁', table, cursor, w₁'⟩, stats, []⟩ = out' at hdrain ⊢
        obtain ⟨result, ⟨⟨hw₂, table₂, cursor₂, w₂⟩, stats₂, retired⟩⟩ := out
        obtain ⟨result', ⟨⟨hw₂', table₂', cursor₂', w₂'⟩, stats₂', retired'⟩⟩ := out'
        obtain ⟨hresult, ⟨htable, hcursor, hopened⟩, hstats, hretired⟩ := hdrain
        obtain rfl : result = result' := hresult
        obtain rfl : table₂ = table₂' := htable
        obtain rfl : cursor₂ = cursor₂' := hcursor
        obtain rfl : stats₂ = stats₂' := hstats
        obtain rfl : retired = retired' := hretired
        obtain ⟨hhw, hworld⟩ := K.accessEnd hopened
        cases result with
        | ok =>
          have hall := Delivery.all_simulation K.toCallSimulation hworld hseen
          simp only [conclude, leave, deliver, Section.close, hall.delivered, hall.dropped,
            Except.map]
          exact ⟨trivial, ⟨rfl, .some hhw⟩, hall.world⟩
        | error e =>
          have hall := Delivery.all_simulation K.toCallSimulation
            (K.record hworld (.ringFaulted cursor₂.readIdx e)) hseen
          simp only [conclude, leave, deliver, Section.close, hall.delivered, hall.dropped,
            Except.map]
          exact ⟨trivial, ⟨rfl, .some hhw⟩, hall.world⟩

theorem reap_simulation (K : Simulation p p' before opened H W E seen) (h : Paired H ring ring')
    (hworld : W w w')
    (hbefore : ∀ hw hw', ring.hw = some hw → ring'.hw = some hw' → before hw w hw' w')
    (hseen : ∀ hw hw₁ w₁, ring.hw = some hw →
      p.hardware.accessBegin hw w = (.ok (), hw₁, w₁) →
      ∀ b ∈ (Pass.drain p ring.geometry.bufferSize (p.hardware.availableCount hw₁ w₁)
        ⟨ring.enter hw₁ w₁, ring.stats, []⟩).2.retired, seen b) :
    Paired H (ring.reap p w).1 (ring'.reap p' w').1 ∧
      W (ring.reap p w).2 (ring'.reap p' w').2 := by
  have htry := tryReap_simulation K h hworld hbefore hseen
  simp only [reap]
  generalize ring.tryReap p w = out at htry ⊢
  generalize ring'.tryReap p' w' = out' at htry ⊢
  obtain ⟨result, ring₁, w₁⟩ := out
  obtain ⟨result', ring₁', w₁'⟩ := out'
  obtain ⟨hresult, hring, hworld⟩ := htry
  obtain rfl : result = result' := hresult
  cases result with
  | ok n => exact ⟨hring, hworld⟩
  | error e => exact ⟨hring, K.record hworld _⟩

/-- Whatever two rings do call by call, they stay alike. -/
theorem perform_simulation (K : Simulation p p' before opened H W E seen) (h : Paired H ring ring')
    (hworld : W w w')
    (hbefore : ∀ hw hw', ring.hw = some hw → ring'.hw = some hw' → before hw w hw' w')
    (hseen : ∀ hw hw₁ w₁, ring.hw = some hw →
      p.hardware.accessBegin hw w = (.ok (), hw₁, w₁) →
      ∀ b ∈ (Pass.drain p ring.geometry.bufferSize (p.hardware.availableCount hw₁ w₁)
        ⟨ring.enter hw₁ w₁, ring.stats, []⟩).2.retired, seen b) (op : Operation) :
    Paired H (ring.perform p w op).1 (ring'.perform p' w' op).1 ∧
      W (ring.perform p w op).2 (ring'.perform p' w' op).2 := by
  cases op with
  | attach => exact (attach_simulation K h hworld hbefore).2
  | tryReap => exact (tryReap_simulation K h hworld hbefore hseen).2
  | reap => exact reap_simulation K h hworld hbefore hseen
  | release => exact h.releaseAll K.toCallSimulation hworld

end Ring

end FrameRing
