import FrameRing.Proofs.Positions
import FrameRing.Proofs.Ring.Outcomes

/-! # Slots in step with the entries

The buffers that were armed and are not reaped wait in their slots, in the order in which they were
armed, and no other slot is in use. -/

namespace FrameRing

variable {β : Type}

/-- `posted` lists all buffers armed so far; the first `reaped` of them are out of the table. -/
structure SlotsInOrder (n reaped : Nat) (posted : List β) (table : SlotTable β)
    (cursor : RingCursor) : Prop where
  pos : 0 < n
  reaped_le : reaped ≤ posted.length
  capacity : table.capacity = n
  cursor_eq : cursor = ⟨posted.length % n, reaped % n, n⟩
  slots : ∀ k b, reaped ≤ k → posted[k]? = some b →
    ∃ s, table.slot? (k % n) = some s ∧ s.buffer = some b
  armed : ∀ i, table.isArmed i = true → ∃ k, reaped ≤ k ∧ k < posted.length ∧ i = k % n

namespace SlotsInOrder

variable {n reaped : Nat} {posted : List β} {table table' : SlotTable β} {cursor : RingCursor}
  {buf : β}

theorem start (hn : 0 < n) : SlotsInOrder n 0 ([] : List β) (.withCapacity n) (.ofSize n) where
  pos := hn
  reaped_le := Nat.le_refl 0
  capacity := SlotTable.capacity_withCapacity n
  cursor_eq := by simp [RingCursor.ofSize]
  slots := fun k b _ hp => by cases hp
  armed := by simp

theorem writeIdx_eq (h : SlotsInOrder n reaped posted table cursor) :
    cursor.writeIdx = posted.length % n := by
  rw [h.cursor_eq]

theorem readIdx_eq (h : SlotsInOrder n reaped posted table cursor) :
    cursor.readIdx = reaped % n := by
  rw [h.cursor_eq]

theorem idle (h : SlotsInOrder n reaped posted table cursor) (hroom : posted.length < reaped + n) :
    table.isArmed cursor.writeIdx = false := by
  rw [h.cursor_eq, Bool.eq_false_iff]
  intro harmed
  obtain ⟨k, hk, hlt, heq⟩ := h.armed _ harmed
  exact position_ne hlt (by omega) heq.symm

theorem due (h : SlotsInOrder n reaped posted table cursor) (hlt : reaped < posted.length) :
    table.isArmed cursor.readIdx = true := by
  obtain ⟨s, hs, hb⟩ := h.slots reaped _ (Nat.le_refl _) (List.getElem?_eq_getElem hlt)
  rw [h.cursor_eq]
  exact SlotTable.isArmed_of_slot? hs hb

theorem arm [RxBuffer β] (h : SlotsInOrder n reaped posted table cursor)
    (hroom : posted.length < reaped + n) (ha : table.arm cursor.writeIdx buf = .ok table') :
    SlotsInOrder n reaped (posted ++ [buf]) table' cursor.advanceWrite := by
  obtain ⟨hcap, -, -, ⟨s, hs, hb⟩, hother, -⟩ := SlotTable.of_arm ha
  rw [h.cursor_eq] at hs hother
  have hle := h.reaped_le
  refine ⟨h.pos, by simp; omega, hcap.trans h.capacity, ?_, ?_, ?_⟩
  · rw [h.cursor_eq, RingCursor.advanceWrite, List.length_append, List.length_singleton,
      Nat.mod_add_mod]
  · intro k b hk hp
    rcases getElem?_concat_cases hp with hold | ⟨rfl, rfl⟩
    · have hlt := (List.getElem?_eq_some_iff.mp hold).1
      rw [hother _ (position_ne hlt (by omega))]
      exact h.slots k b hk hold
    · exact ⟨s, hs, hb⟩
  · intro i hi
    rw [List.length_append, List.length_singleton]
    by_cases hw : i = posted.length % n
    · exact ⟨posted.length, hle, Nat.lt_succ_self _, hw⟩
    · rw [SlotTable.isArmed_congr (hother i hw)] at hi
      obtain ⟨k, hk, hlt, heq⟩ := h.armed i hi
      exact ⟨k, hk, Nat.lt_succ_of_lt hlt, heq⟩

theorem retire (h : SlotsInOrder n reaped posted table cursor) (hfull : posted.length ≤ reaped + n)
    (hr : table.retire cursor.readIdx = (some buf, table')) (hlt : reaped < posted.length) :
    posted[reaped]? = some buf ∧ SlotsInOrder n (reaped + 1) posted table' cursor.advanceRead := by
  obtain ⟨hcap, -, hidle, ⟨s, hs, hb⟩, hother, -⟩ := SlotTable.of_retire hr
  rw [h.cursor_eq] at hs hother hidle
  obtain ⟨s', hs', hb'⟩ := h.slots reaped _ (Nat.le_refl _) (List.getElem?_eq_getElem hlt)
  rw [hs] at hs'
  cases hs'
  rw [hb] at hb'
  refine ⟨by rw [List.getElem?_eq_getElem hlt, hb'], h.pos, hlt, hcap.trans h.capacity, ?_,
    ?_, ?_⟩
  · rw [h.cursor_eq, RingCursor.advanceRead, Nat.mod_add_mod]
  · intro k b hk hp
    have hkl := (List.getElem?_eq_some_iff.mp hp).1
    rw [hother _ (Ne.symm (position_ne hk (by omega)))]
    exact h.slots k b (by omega) hp
  · intro i hi
    have hne : i ≠ reaped % n := by
      rintro rfl
      rw [hidle] at hi
      cases hi
    rw [SlotTable.isArmed_congr (hother i hne)] at hi
    obtain ⟨k, hk, hkl, heq⟩ := h.armed i hi
    rcases Nat.lt_or_eq_of_le hk with hk | rfl
    · exact ⟨k, hk, hkl, heq⟩
    · exact absurd heq hne

end SlotsInOrder

variable {ω η ε : Type} [RxBuffer β] {p : Platform ω η ε β} {n reaped : Nat} {posted : List β}
  {entry : ε}

theorem Section.Placed.slotsInOrder {s : Section ω η β} {b : β} {hw : η} {w : ω}
    {out : Except RingError Unit × Section ω η β} (ho : Placed p entry b s out)
    (h : SlotsInOrder n reaped posted s.table s.cursor) (hroom : posted.length < reaped + n)
    (hset : p.hardware.setEntry entry (RxBuffer.busAddr b) s.cursor.writeIdx s.hw s.world =
      (.ok (), hw, w)) :
    ∃ table, out = (.ok (), ⟨hw, table, s.cursor.advanceWrite, w⟩) ∧
      SlotsInOrder n reaped (posted ++ [b]) table s.cursor.advanceWrite := by
  cases ho with
  | rejected set =>
    rw [hset] at set
    cases set
  | occupied set taken =>
    rcases taken with hout | harmed
    · rw [h.capacity, h.writeIdx_eq] at hout
      exact absurd hout (Nat.not_le_of_lt (Nat.mod_lt posted.length h.pos))
    · rw [h.idle hroom] at harmed
      cases harmed
  | armed set arm =>
    rw [hset] at set
    cases set
    exact ⟨_, rfl, h.arm hroom arm⟩

namespace Pass

inductive Renewed (p : Platform ω η ε β) (n reaped : Nat) (posted : List β) (size remaining : Nat)
    (entry : ε) (s : Pass ω η β) : PassStep × Pass ω η β → Prop where
  | starved {e w} (acquire : p.pool.acquire size s.world = (.error e, w)) :
      Renewed p n reaped posted size remaining entry s
        (.stop,
          { s with
            world := p.record (.poolExhausted e remaining) w
            stats := { s.stats with backpressure := s.stats.backpressure + 1 } })
  | renewed {b w hw w' old table} (acquire : p.pool.acquire size s.world = (.ok b, w))
      (set : p.hardware.setEntry entry (RxBuffer.busAddr b) s.cursor.writeIdx s.hw w =
        (.ok (), hw, w'))
      (oldest : posted[reaped]? = some old)
      (slotsInOrder :
        SlotsInOrder n (reaped + 1) (posted ++ [b]) table s.cursor.advanceWrite.advanceRead) :
      Renewed p n reaped posted size remaining entry s
        (.proceed,
          { toSection := ⟨hw, table, s.cursor.advanceWrite.advanceRead, w'⟩
            stats := { s.stats with reaped := s.stats.reaped + 1 }
            retired := s.retired ++ [old] })

/-- A completion that names the oldest slot is renewed if the hardware ring takes the buffer. -/
theorem Recycled.slotsInOrder {size remaining : Nat} {s : Pass ω η β} {out : PassStep × Pass ω η β}
    (ho : Recycled p size remaining entry s out) (h : SlotsInOrder n reaped posted s.table s.cursor)
    (hlt : reaped < posted.length) (hroom : posted.length < reaped + n)
    (hcookie : p.hardware.cookieOf entry s.hw s.world = reaped % n)
    (hset : ∀ b w, p.pool.acquire size s.world = (.ok b, w) →
      ∃ hw w', p.hardware.setEntry entry (RxBuffer.busAddr b) s.cursor.writeIdx s.hw w =
        (.ok (), hw, w')) :
    Renewed p n reaped posted size remaining entry s out := by
  cases ho with
  | desync wrong =>
    rcases wrong with hne | hempty
    · exact absurd (hcookie.trans h.readIdx_eq.symm) hne
    · rw [h.due hlt] at hempty
      cases hempty
  | occupied _ taken =>
    rw [h.idle hroom] at taken
    cases taken
  | starved _ _ acquire => exact .starved acquire
  | @refused b w _ _ _ _ acquire place =>
    obtain ⟨hw, w', set⟩ := hset b w acquire
    obtain ⟨table, hout, -⟩ := place.slotsInOrder (s := { s.toSection with world := w }) h hroom set
    cases hout
  | @lost b w _ _ _ acquire place gone =>
    obtain ⟨hw, w', set⟩ := hset b w acquire
    obtain ⟨table, hout, horder⟩ :=
      place.slotsInOrder (s := { s.toSection with world := w }) h hroom set
    cases hout
    rw [horder.due (by simp; omega)] at gone
    cases gone
  | @renewed b w _ old table' _ _ acquire place retire =>
    obtain ⟨hw, w', set⟩ := hset b w acquire
    obtain ⟨table, hout, horder⟩ :=
      place.slotsInOrder (s := { s.toSection with world := w }) h hroom set
    cases hout
    obtain ⟨hold, horder'⟩ := horder.retire (by simp; omega) retire (by simp; omega)
    rw [List.getElem?_append_left hlt] at hold
    exact .renewed acquire set hold horder'

end Pass

end FrameRing
