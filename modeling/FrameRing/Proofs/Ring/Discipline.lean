import FrameRing.Proofs.Positions
import FrameRing.Proofs.Ring.Runs
import FrameRing.Scripted

/-! # The discipline of a ring

Nothing is assumed of the collaborators. While a ring is attached or faulted, all slots but the
one at `writeIdx` are armed, whatever the hardware ring reports and wherever a pass stops. -/

namespace FrameRing

variable {ω η ε β : Type} {table table' : SlotTable β} {cursor : RingCursor} {n k : Nat}

structure Filling (n k : Nat) (table : SlotTable β) (cursor : RingCursor) : Prop where
  capacity : table.capacity = n
  cursor_eq : cursor = ⟨k, 0, n⟩
  room : k < n
  armed : ∀ i, table.isArmed i = true ↔ i < k
  count : table.inUseCount = k

/-- All slots but the one at `writeIdx` are armed, and the oldest lies right behind it. -/
structure Rotation (n : Nat) (table : SlotTable β) (cursor : RingCursor) : Prop where
  two_le : 2 ≤ n
  capacity : table.capacity = n
  size : cursor.size = n
  write_lt : cursor.writeIdx < n
  read : cursor.readIdx = (cursor.writeIdx + 1) % n
  armed : ∀ i, table.isArmed i = true ↔ i < n ∧ i ≠ cursor.writeIdx
  count : table.inUseCount = n - 1

theorem Filling.start (hn : 0 < n) :
    Filling n 0 (SlotTable.withCapacity n : SlotTable β) (.ofSize n) where
  capacity := SlotTable.capacity_withCapacity n
  cursor_eq := rfl
  room := hn
  armed i := by simp
  count := by rw [SlotTable.inUseCount_eq_length, SlotTable.buffers_withCapacity, List.length_nil]

theorem Filling.arm [RxBuffer β] {buf : β} (h : Filling n k table cursor) (hk : k + 1 < n)
    (ha : table.arm cursor.writeIdx buf = .ok table') :
    Filling n (k + 1) table' cursor.advanceWrite := by
  obtain ⟨hcap, -, -, ⟨s, hs, hb⟩, hother, hperm⟩ := SlotTable.of_arm ha
  obtain ⟨hc, rfl, -, harmed, hcount⟩ := h
  refine ⟨hcap.trans hc, ?_, hk, ?_, ?_⟩
  · simp only [RingCursor.advanceWrite, Nat.mod_eq_of_lt hk]
  · intro i
    by_cases hi : i = k
    · subst hi
      simp [SlotTable.isArmed_of_slot? hs hb]
    · rw [SlotTable.isArmed_congr (hother i hi), harmed]
      omega
  · rw [SlotTable.inUseCount_eq_length] at hcount ⊢
    rw [hperm.length_eq, List.length_cons, hcount]

theorem Filling.rotation (h : Filling n k table cursor) (hn : 2 ≤ n) (hk : k + 1 = n) :
    Rotation n table cursor := by
  obtain ⟨hc, rfl, hroom, harmed, hcount⟩ := h
  refine ⟨hn, hc, rfl, hroom, ?_, ?_, ?_⟩
  · rw [hk, Nat.mod_self]
  · intro i
    rw [harmed]
    simp only
    omega
  · omega

namespace Rotation

theorem write_idle (h : Rotation n table cursor) : table.isArmed cursor.writeIdx = false := by
  rw [Bool.eq_false_iff]
  intro harm
  exact ((h.armed _).mp harm).2 rfl

theorem outstanding_eq (h : Rotation n table cursor) : cursor.outstanding = n - 1 := by
  have hn := h.two_le
  have hw := h.write_lt
  rw [RingCursor.outstanding, h.size, h.read]
  by_cases hlast : cursor.writeIdx + 1 = n
  · rw [hlast, Nat.mod_self, Nat.sub_zero, Nat.add_mod_right, Nat.mod_eq_of_lt hw]
    omega
  · have hnext : cursor.writeIdx + 1 < n := by omega
    have hback : cursor.writeIdx + n - (cursor.writeIdx + 1) = n - 1 := by omega
    rw [Nat.mod_eq_of_lt hnext, hback, Nat.mod_eq_of_lt (by omega)]

theorem read_lt (h : Rotation n table cursor) : cursor.readIdx < n :=
  h.read ▸ Nat.mod_lt _ (Nat.lt_of_lt_of_le (by decide) h.two_le)

theorem read_ne_write (h : Rotation n table cursor) : cursor.readIdx ≠ cursor.writeIdx := by
  have hn := h.two_le
  have hw := h.write_lt
  have hne := position_ne (n := n) (Nat.lt_succ_self cursor.writeIdx) (by omega)
  rw [Nat.mod_eq_of_lt hw] at hne
  rw [h.read]
  exact Ne.symm hne

theorem due_of_arm [RxBuffer β] {buf : β} (h : Rotation n table cursor)
    (ha : table.arm cursor.writeIdx buf = .ok table') :
    table'.isArmed cursor.readIdx = true := by
  obtain ⟨-, -, -, -, hother, -⟩ := SlotTable.of_arm ha
  rw [SlotTable.isArmed_congr (hother _ h.read_ne_write)]
  exact (h.armed cursor.readIdx).mpr ⟨h.read_lt, h.read_ne_write⟩

/-- The free slot takes a buffer and the oldest slot gives its buffer up: it is the free one now. -/
theorem renew [RxBuffer β] {armed renewed : SlotTable β} {buf old : β}
    (h : Rotation n table cursor) (ha : table.arm cursor.writeIdx buf = .ok armed)
    (hr : armed.retire cursor.readIdx = (some old, renewed)) :
    Rotation n renewed cursor.advanceWrite.advanceRead := by
  obtain ⟨hcap, -, -, ⟨s, hs, hb⟩, hother, hperm⟩ := SlotTable.of_arm ha
  obtain ⟨hcap', -, hidle, -, hother', hperm'⟩ := SlotTable.of_retire hr
  have hnext : cursor.advanceWrite.writeIdx = cursor.readIdx := by
    rw [RingCursor.advanceWrite, h.read, h.size]
  refine ⟨h.two_le, (hcap'.trans hcap).trans h.capacity, h.size, ?_, ?_, ?_, ?_⟩
  · exact hnext.symm ▸ h.read_lt
  · change (cursor.readIdx + 1) % cursor.size = (cursor.advanceWrite.writeIdx + 1) % n
    rw [hnext, h.size]
  · intro i
    change renewed.isArmed i = true ↔ i < n ∧ i ≠ cursor.advanceWrite.writeIdx
    rw [hnext]
    by_cases hi : i = cursor.readIdx
    · simp [hi, hidle]
    · rw [SlotTable.isArmed_congr (hother' i hi)]
      by_cases hw : i = cursor.writeIdx
      · subst hw
        simp [SlotTable.isArmed_of_slot? hs hb, h.write_lt, hi]
      · rw [SlotTable.isArmed_congr (hother i hw), h.armed]
        simp [hi, hw]
  · have hlen := hperm.length_eq.symm.trans hperm'.length_eq
    have hcount := h.count
    rw [SlotTable.inUseCount_eq_length] at hcount ⊢
    simp only [List.length_cons] at hlen
    omega

end Rotation

variable [RxBuffer β] {p : Platform ω η ε β}

def NotDoubleArm (e : RingError) : Prop := ∀ slot, e ≠ .doubleArm slot

omit [RxBuffer β] in
theorem notDoubleArm_of_refusal {e : RingError} (refusal : e.isRefusal = true) :
    NotDoubleArm e := by
  intro slot he
  subst he
  cases refusal

theorem Section.armNext_filling {size : Nat} {s : Section ω η β}
    {out : Except RingError Unit × Section ω η β} (h : Filling n k s.table s.cursor)
    (hk : k + 1 < n) (ho : ArmedNext p size s out) :
    (out.1 = .ok () ∧ Filling n (k + 1) out.2.table out.2.cursor) ∨
      ∃ e, out.1 = .error e ∧ NotDoubleArm e := by
  have hw : s.cursor.writeIdx = k := by rw [h.cursor_eq]
  have hidle : s.table.isArmed s.cursor.writeIdx ≠ true := by
    rw [Ne, h.armed, hw]
    omega
  cases ho with
  | occupied taken => exact absurd taken hidle
  | starved => exact .inr ⟨_, rfl, by simp [NotDoubleArm]⟩
  | full => exact .inr ⟨_, rfl, by simp [NotDoubleArm]⟩
  | placed _ _ _ place =>
    cases place with
    | rejected => exact .inr ⟨_, rfl, by simp [NotDoubleArm]⟩
    | occupied _ taken =>
      rcases taken with short | taken
      · have hc := h.capacity
        simp only at short
        omega
      · exact absurd taken hidle
    | armed _ arm => exact .inl ⟨rfl, h.arm hk arm⟩

theorem Pass.step_rotation {size remaining : Nat} {s : Pass ω η β}
    {out : PassStep × Pass ω η β} (h : Rotation n s.table s.cursor)
    (ho : Stepped p size remaining s out) :
    Rotation n out.2.table out.2.cursor ∧ ∀ e, out.1 = .fail e → NotDoubleArm e := by
  cases ho with
  | missing => exact ⟨h, by simp⟩
  | found next recycle =>
    cases recycle with
    | desync => exact ⟨h, by simp [NotDoubleArm]⟩
    | occupied due taken => exact absurd taken (by simp [h.write_idle])
    | starved => exact ⟨h, by simp⟩
    | refused due idle acquire place =>
      cases place with
      | rejected => exact ⟨h, by simp [NotDoubleArm]⟩
      | occupied _ taken =>
        rcases taken with short | taken
        · have hc := h.capacity
          have hw := h.write_lt
          simp only at short
          omega
        · exact absurd taken (by simp [h.write_idle])
    | lost due idle acquire place gone =>
      cases place with
      | armed _ arm => exact absurd gone (by simp [RingCursor.advanceWrite, h.due_of_arm arm])
    | renewed due idle acquire place retire =>
      cases place with
      | armed _ arm => exact ⟨h.renew arm retire, by simp⟩

/-- Filling a ring arms all slots but the last, or fails with all of them accounted for. -/
theorem Section.fill_rotation (size : Nat) {s : Section ω η β}
    (h : Filling n 0 s.table s.cursor) (hn : 2 ≤ n) :
    ((s.fill p size (n - 1)).1 = .ok () ∧
        Rotation n (s.fill p size (n - 1)).2.table (s.fill p size (n - 1)).2.cursor) ∨
      ∃ e, (s.fill p size (n - 1)).1 = .error e ∧ NotDoubleArm e := by
  unfold fill
  split
  · exact .inr ⟨_, rfl, by simp [NotDoubleArm]⟩
  · rename_i hw world _
    have hfilled := armMany_rule (p := p) size (n - 1)
      (P := fun j s => ∃ k, k + j + 1 = n ∧ Filling n k s.table s.cursor)
      (F := fun e _ => NotDoubleArm e) (s := { s with hw, world })
      (by
        rintro j s out ⟨k, hk, hf⟩ ho
        rcases armNext_filling hf (by omega) ho with ⟨ok, hf⟩ | hfail
        · exact .inl ⟨ok, k + 1, by omega, hf⟩
        · exact .inr hfail)
      ⟨0, by omega, h⟩
    simp only [close_table, close_cursor]
    rcases hfilled with ⟨ok, k, hk, hf⟩ | hfail
    · exact .inl ⟨ok, hf.rotation hn hk⟩
    · exact .inr hfail

theorem Section.ArmedNext.failed {size : Nat} {s : Section ω η β}
    {out : Except RingError Unit × Section ω η β} (ho : ArmedNext p size s out) {e : RingError}
    (he : out.1 = .error e) : out.2.table = s.table ∧ out.2.cursor = s.cursor := by
  cases ho with
  | occupied => exact ⟨rfl, rfl⟩
  | starved => exact ⟨rfl, rfl⟩
  | full => exact ⟨rfl, rfl⟩
  | placed _ _ _ place =>
    cases place with
    | rejected => exact ⟨rfl, rfl⟩
    | occupied => exact ⟨rfl, rfl⟩
    | armed => cases he

/-- Wherever filling a ring ends, the slots up to the cursor are armed. -/
theorem Section.fill_filling (size : Nat) {s : Section ω η β} (h : Filling n 0 s.table s.cursor) :
    ∃ k, Filling n k (s.fill p size (n - 1)).2.table (s.fill p size (n - 1)).2.cursor := by
  have hroom := h.room
  unfold fill
  split
  · exact ⟨0, h⟩
  · rename_i hw world _
    have hfilled := armMany_rule (p := p) size (n - 1)
      (P := fun j s => ∃ k, k + j + 1 = n ∧ Filling n k s.table s.cursor)
      (F := fun _ s => ∃ k, Filling n k s.table s.cursor) (s := { s with hw, world })
      (by
        rintro j s out ⟨k, hk, hf⟩ ho
        rcases armNext_filling hf (by omega) ho with ⟨ok, hf⟩ | ⟨e, he, -⟩
        · exact .inl ⟨ok, k + 1, by omega, hf⟩
        · obtain ⟨htable, hcursor⟩ := ho.failed he
          refine .inr ⟨e, he, k, ?_⟩
          rwa [htable, hcursor])
      ⟨0, by omega, h⟩
    simp only [close_table, close_cursor]
    rcases hfilled with ⟨-, k, -, hf⟩ | ⟨-, -, hf⟩
    · exact ⟨k, hf⟩
    · exact hf

def RingState.stage : RingState → Nat
  | .ready => 0
  | .active => 1
  | .faulted => 2
  | .released => 3

namespace Ring

variable {ring : Ring η β}

/-- What the slots and cursors of a ring look like in each state. -/
def Disciplined (n : Nat) (ring : Ring η β) : Prop :=
  match ring.state with
  | .ready => Filling n 0 ring.table ring.cursor
  | .active | .faulted => Rotation n ring.table ring.cursor
  | .released => ring.table = .empty

omit [RxBuffer β] in
theorem Disciplined.filling (h : ring.Disciplined n) (ready : ring.state = .ready) :
    Filling n 0 ring.table ring.cursor := by
  simpa [Disciplined, ready] using h

omit [RxBuffer β] in
theorem Disciplined.rotation (h : ring.Disciplined n) (active : ring.state = .active) :
    Rotation n ring.table ring.cursor := by
  simpa [Disciplined, active] using h

omit [RxBuffer β] in
theorem setup_disciplined {params : RingParams} {w w' : ω}
    (h : Ring.setup p params w = (.ok ring, w')) :
    2 ≤ params.capacity ∧ Disciplined params.capacity ring := by
  obtain ⟨valid, -, a, w₁, hw, w₂, -, -, -, -, rfl⟩ := setup_eq_ok h
  have hn := (RingParams.validate_eq_ok valid).1
  exact ⟨hn, Filling.start (Nat.lt_of_lt_of_le (by decide) hn)⟩

omit [RxBuffer β] in
theorem releaseAll_disciplined_of_ne (hs : ring.state ≠ .released) (w : ω) :
    Disciplined n (ring.releaseAll p w).1 := by
  rw [releaseAll, if_neg hs]
  rfl

omit [RxBuffer β] in
theorem releaseAll_disciplined (h : Disciplined n ring) (w : ω) :
    Disciplined n (ring.releaseAll p w).1 := by
  by_cases hs : ring.state = .released
  · rw [releaseAll, if_pos hs]
    exact h
  · exact releaseAll_disciplined_of_ne hs w

theorem fill_disciplined (h : Disciplined n ring) (ready : ring.state = .ready) (hn : 2 ≤ n)
    {hw : η} {w : ω} {result : Except RingError Unit} {s : Section ω η β}
    (fill : (ring.enter hw w).fill p ring.geometry.bufferSize (ring.table.capacity - 1) =
      (result, s)) :
    (result = .ok () ∧ Rotation n s.table s.cursor) ∨
      ∃ e, result = .error e ∧ NotDoubleArm e := by
  have hf := h.filling ready
  have hfill := Section.fill_rotation (p := p) ring.geometry.bufferSize
    (s := ring.enter hw w) hf hn
  rw [← hf.capacity, fill, hf.capacity] at hfill
  exact hfill

theorem attach_disciplined (h : Disciplined n ring) (hn : 2 ≤ n) (w : ω) :
    Disciplined n (ring.attach p w).2.1 ∧
      ring.state.stage ≤ (ring.attach p w).2.1.state.stage ∧
      ∀ e, (ring.attach p w).1 = .error e → NotDoubleArm e := by
  have hout := attached p ring w
  generalize ring.attach p w = out at hout ⊢
  cases hout with
  | again => exact ⟨h, Nat.le_refl _, by simp [NotDoubleArm]⟩
  | refused refusal =>
    refine ⟨h, Nat.le_refl _, ?_⟩
    intro e he
    cases he
    exact notDoubleArm_of_refusal refusal
  | @failed hw e s ready held fill =>
    refine ⟨?_, ?_, ?_⟩
    · apply releaseAll_disciplined_of_ne
      simp [leave, ready]
    · rw [ready]
      exact Nat.zero_le _
    · intro e' he
      cases he
      rcases fill_disciplined h ready hn fill with ⟨ok, -⟩ | ⟨e', he, hne⟩
      · cases ok
      · cases he
        exact hne
  | @filled hw s ready held fill =>
    rcases fill_disciplined h ready hn fill with ⟨-, hrot⟩ | ⟨e, he, -⟩
    · refine ⟨hrot, ?_, by simp⟩
      rw [ready]
      exact Nat.zero_le _
    · cases he

theorem tryReap_disciplined (h : Disciplined n ring) (w : ω) :
    Disciplined n (ring.tryReap p w).2.1 ∧
      ring.state.stage ≤ (ring.tryReap p w).2.1.state.stage ∧
      ∀ e, (ring.tryReap p w).1 = .error e → NotDoubleArm e := by
  have hout := reaped p ring w
  generalize ring.tryReap p w = out at hout ⊢
  cases hout with
  | refused refusal =>
    refine ⟨h, Nat.le_refl _, ?_⟩
    intro e he
    cases he
    exact notDoubleArm_of_refusal refusal
  | unopened active =>
    refine ⟨?_, Nat.le_refl _, by simp [NotDoubleArm]⟩
    simpa [Disciplined, active] using h
  | @drained hw hw' w' result pass closed w'' k ring' out active held access drain hc hd =>
    have hrot := h.rotation active
    have hdrain := Pass.drain_rule (p := p) ring.geometry.bufferSize
      (p.hardware.availableCount hw' w')
      (P := fun s => Rotation n s.table s.cursor) (F := NotDoubleArm)
      (fun k s out hs ho => Pass.step_rotation hs ho)
      (s := ⟨ring.enter hw' w', ring.stats, []⟩) hrot
    rw [drain] at hdrain
    cases hd
    cases result with
    | ok =>
      cases hc
      refine ⟨?_, ?_, by simp [Except.map]⟩
      · simpa [Disciplined, leave, active] using hdrain.1
      · simp [leave]
    | error e =>
      cases hc
      refine ⟨?_, ?_, ?_⟩
      · simpa [Disciplined, leave] using hdrain.1
      · simp [active, RingState.stage]
      · intro e' he
        cases he
        exact hdrain.2 e rfl

theorem perform_disciplined (h : Disciplined n ring) (hn : 2 ≤ n) (w : ω) (op : Operation) :
    Disciplined n (ring.perform p w op).1 ∧
      ring.state.stage ≤ (ring.perform p w op).1.state.stage := by
  cases op with
  | attach => exact ⟨(attach_disciplined h hn w).1, (attach_disciplined h hn w).2.1⟩
  | tryReap => exact ⟨(tryReap_disciplined h w).1, (tryReap_disciplined h w).2.1⟩
  | reap =>
    rw [perform, reap_ring]
    exact ⟨(tryReap_disciplined h w).1, (tryReap_disciplined h w).2.1⟩
  | release =>
    refine ⟨releaseAll_disciplined h w, ?_⟩
    rw [perform, releaseAll_state]
    cases ring.state <;> decide

theorem run_disciplined {w : ω} (h : Disciplined n ring) (hn : 2 ≤ n) (moves : List (Move ω)) :
    Disciplined n (Ring.run p (ring, w) moves).1 :=
  run_induct (P := fun ring _ => Disciplined n ring) h
    (fun _ w op hd => (perform_disciplined hd hn w op).1) (fun _ _ _ hd => hd) moves

/-- After any run the slots and cursors are as the state says, the state only moves forward, a
faulted ring refuses without a change, and no slot is ever found armed twice. -/
theorem run_keeps_discipline {params : RingParams} {w w' : ω}
    (hs : Ring.setup p params w = (.ok ring, w')) (moves : List (Move ω)) :
    let r := (Ring.run p (ring, w') moves).1
    let n := params.capacity
    (r.state = .ready →
      (∀ i, r.table.isArmed i = false) ∧ r.cursor.writeIdx = 0 ∧ r.cursor.readIdx = 0) ∧
    (r.state = .active ∨ r.state = .faulted →
      r.inUseCount = n - 1 ∧ r.cursor.writeIdx < n ∧
      (∀ i, i < n → (r.table.isArmed i = false ↔ i = r.cursor.writeIdx)) ∧
      (r.cursor.writeIdx + n - r.cursor.readIdx) % n = n - 1) ∧
    (r.state = .released → ∀ i, r.table.isArmed i = false) ∧
    (∀ v op, r.state.stage ≤ (r.perform p v op).1.state.stage) ∧
    (r.state = .faulted → ∀ v,
      r.attach p v = (.error .faulted, r, v) ∧ r.tryReap p v = (.error .faulted, r, v)) ∧
    (∀ v slot,
      (r.attach p v).1 ≠ .error (.doubleArm slot) ∧
      (r.tryReap p v).1 ≠ .error (.doubleArm slot)) := by
  intro r n
  obtain ⟨hn, h0⟩ := setup_disciplined hs
  have h : Disciplined n r := run_disciplined h0 hn moves
  refine ⟨?_, ?_, ?_, ?_, ?_, ?_⟩
  · intro hr
    have hfill := h.filling hr
    refine ⟨?_, by rw [hfill.cursor_eq], by rw [hfill.cursor_eq]⟩
    intro i
    rw [Bool.eq_false_iff, Ne, hfill.armed]
    exact Nat.not_lt_zero i
  · intro ha
    have hrot : Rotation n r.table r.cursor := by
      rcases ha with ha | ha <;> simpa [Disciplined, ha] using h
    refine ⟨hrot.count, hrot.write_lt, ?_, ?_⟩
    · intro i hi
      rw [Bool.eq_false_iff, Ne, hrot.armed]
      simp [hi]
    · have ho := hrot.outstanding_eq
      rwa [RingCursor.outstanding, hrot.size] at ho
  · intro hr i
    have ht : r.table = .empty := by simpa [Disciplined, hr] using h
    rw [ht, SlotTable.isArmed_empty]
  · intro v op
    exact (perform_disciplined h hn v op).2
  · intro hf v
    rw [attach, tryReap, hf]
    exact ⟨rfl, rfl⟩
  · intro v slot
    constructor
    · intro he
      exact (attach_disciplined h hn v).2.2 _ he slot rfl
    · intro he
      exact (tryReap_disciplined h v).2.2 _ he slot rfl

theorem run_keeps_discipline_desync :
    ∃ ring w, Ring.setup Script.platform (.ofSizes 4 8 64) (Script.create 65536 4096 []) =
        (.ok ring, w) ∧
      let r := (Ring.run Script.platform (ring, w)
        [.operate .attach, .disturb fun w => (w.complete 2).2, .operate .tryReap,
          .disturb fun w => ((w.complete 1).2.corrupt 0 3), .operate .reap]).1
      r.state = .faulted ∧ r.cursor = ⟨1, 2, 4⟩ ∧ r.inUseCount = 4 - 1 := by
  have hs : Ring.setup Script.platform (.ofSizes 4 8 64) (Script.create 65536 4096 []) =
      (.ok _, _) := rfl
  refine ⟨_, _, hs, ?_, ?_, ((run_keeps_discipline hs _).2.1 (.inr ?_)).1⟩
  all_goals decide +kernel

end Ring

end FrameRing
