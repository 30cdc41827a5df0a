import FrameRing.Proofs.Ring.CustodyRules

/-! # What holds between operations

Between two operations a ring rests: its hardware ring is outside of a section. What holds of a
resting hardware ring and the world may be suspended inside a section, as long as closing the
section restores it. -/

namespace FrameRing

variable {ω η ε β : Type} [RxBuffer β]

/-- `rest hw w` holds of a hardware ring that rests, and `busy hw w` inside a section. -/
structure RestInvariant (p : Platform ω η ε β) (rest busy : η → ω → Prop) : Prop where
  opened {hw w hw' w'} (h : rest hw w) (hb : p.hardware.accessBegin hw w = (.ok (), hw', w')) :
    busy hw' w'
  unopened {hw w e hw' w'} (h : rest hw w)
    (hb : p.hardware.accessBegin hw w = (.error e, hw', w')) : rest hw' w'
  inside (size : Nat) : SectionInvariant p size fun hw w _ => busy hw w
  closed {hw w} (h : busy hw w) :
    rest (p.hardware.accessEnd hw w).1 (p.hardware.accessEnd hw w).2
  buffers (hw : η) : BufferCustody p fun w _ => rest hw w

variable {p : Platform ω η ε β} {rest busy : η → ω → Prop}

/-- Pool and consumer have no part in what does not depend on the world. -/
theorem BufferCustody.const (p : Platform ω η ε β) (P : Prop) : BufferCustody p fun _ _ => P where
  perm h _ := h
  acquire h _ := h
  acquire_error h _ := h
  release h := h
  sync h _ := h
  narrow h _ _ := h
  deliver h := h
  record h _ := h

theorem RestInvariant.record (K : RestInvariant p rest busy) {hw : η} {w : ω} {event : LogEvent}
    (h : rest hw w) (he : event.reportsLeak = false) : rest hw (p.record event w) := by
  apply (K.buffers hw).record
  · exact h
  · exact he
  · exact []

theorem Section.fill_atRest (K : RestInvariant p rest busy) {s : Section ω η β}
    (h : rest s.hw s.world) (size count : Nat) :
    rest (s.fill p size count).2.hw (s.fill p size count).2.world := by
  unfold fill
  rcases hb : p.hardware.accessBegin s.hw s.world with ⟨e | _, hw, world⟩
  · exact K.unopened h hb
  · have hmany :=
      armMany_invariant (s := { s with hw, world }) (K.inside size) count (K.opened h hb)
    exact K.closed hmany

namespace Ring

variable {ring : Ring η β} {w : ω}

def AtRest (rest : η → ω → Prop) (ring : Ring η β) (w : ω) : Prop :=
  ∀ hw, ring.hw = some hw → rest hw w

omit [RxBuffer β] in
theorem AtRest.of_hw {hw : η} (hhw : ring.hw = some hw) (h : rest hw w) :
    ring.AtRest rest w := by
  intro hw' hhw'
  cases hhw.symm.trans hhw'
  exact h

omit [RxBuffer β] in
theorem AtRest.releaseAll (h : ring.AtRest rest w) :
    AtRest rest (ring.releaseAll p w).1 (ring.releaseAll p w).2 := by
  by_cases hs : ring.state = .released
  · rw [Ring.releaseAll, if_pos hs]
    exact h
  · rw [Ring.releaseAll, if_neg hs]
    intro hw hhw
    cases hhw

theorem AtRest.attach (K : RestInvariant p rest busy) (h : ring.AtRest rest w) :
    AtRest rest (ring.attach p w).2.1 (ring.attach p w).2.2 := by
  have hout := attached p ring w
  generalize ring.attach p w = out at hout ⊢
  cases hout with
  | again => exact h
  | refused => exact h
  | @failed hw e s ready held fill =>
    have hfill := Section.fill_atRest K (s := ring.enter hw w) (h hw held)
      ring.geometry.bufferSize (ring.table.capacity - 1)
    rw [fill] at hfill
    exact AtRest.releaseAll (.of_hw rfl (K.record hfill rfl))
  | @filled hw s ready held fill =>
    have hfill := Section.fill_atRest K (s := ring.enter hw w) (h hw held)
      ring.geometry.bufferSize (ring.table.capacity - 1)
    rw [fill] at hfill
    exact .of_hw rfl (K.record hfill rfl)

theorem AtRest.tryReap (K : RestInvariant p rest busy) (h : ring.AtRest rest w) :
    AtRest rest (ring.tryReap p w).2.1 (ring.tryReap p w).2.2 := by
  have hout := reaped p ring w
  generalize ring.tryReap p w = out at hout ⊢
  cases hout with
  | refused => exact h
  | unopened active held access => exact .of_hw rfl (K.unopened (h _ held) access)
  | @drained hw hw' w' result pass closed w'' n ring' out active held access drain hc hd =>
    have hdrain := Pass.drain_invariant (s := ⟨ring.enter hw' w', ring.stats, []⟩)
      (K.inside ring.geometry.bufferSize) (p.hardware.availableCount hw' w')
      (K.opened (h hw held) access)
    rw [drain] at hdrain
    have hdelivered := concluded_custody (K.buffers _)
      (s := { pass with toSection := pass.toSection.close p }) (K.closed hdrain) hc hd
    obtain ⟨state, stats, rfl⟩ := concluded hc hd
    exact .of_hw rfl hdelivered

theorem AtRest.perform (K : RestInvariant p rest busy) (h : ring.AtRest rest w) (op : Operation) :
    AtRest rest (ring.perform p w op).1 (ring.perform p w op).2 := by
  cases op with
  | attach => exact h.attach K
  | tryReap => exact h.tryReap K
  | reap =>
    have hreap := h.tryReap K
    rw [Ring.perform, Ring.reap]
    generalize ring.tryReap p w = out at hreap ⊢
    obtain ⟨e | n, ring', w'⟩ := out
    · intro hw hhw
      refine K.record (hreap hw hhw) ?_
      split <;> rfl
    · exact hreap
  | release => exact h.releaseAll

end Ring

end FrameRing
