import FrameRing.Proofs.Ring.SlotsInOrder
import FrameRing.Proofs.Ring.Runs
import FrameRing.Proofs.Stack.Flow

/-! # Attaching and reaping over shared memory

Over healthy memory nothing but an empty pool can stop a ring: every completion is found, belongs
to the slot that is due and leaves room for a fresh buffer. -/

namespace FrameRing

variable {fw : Firmware} {a : Allocation} {size rbm : Nat} {sent : List (List UInt8)}
  {live : List Allocation} {first : Nat} {t : Tally} {posted : List DmaBuffer}

structure Section.InStep (fw : Firmware) (a : Allocation) (size : Nat) (sent : List (List UInt8))
    (live : List Allocation) (first : Nat) (t : Tally) (posted : List DmaBuffer)
    (s : Section World SourceRing DmaBuffer) : Prop where
  inAccess : s.hw.inAccess = true
  flow : Flow fw a size sent live first s.hw s.world t posted
  slotsInOrder : SlotsInOrder s.hw.numEntries t.reaped posted s.table s.cursor
  quiet : s.world.rest.delivered = #[]

theorem Flow.arms {r : SourceRing} {w : World} {b : DmaBuffer}
    (h : Flow fw a size sent (b.allocation :: live) first r w t posted) (rbm : Nat)
    {res : Reservation} (hs : r.inAccess = true) (hcur : r.Current res)
    (hroom : r.head ≠ r.reapHeadAfter res) (hb : b.size = size ∧ size ≤ b.allocation.len) :
    let r' := { r with reapHead := r.reapHeadAfter res, head := r.next r.head }
    ∃ window, (World.platform rbm).hardware.setEntry res (RxBuffer.busAddr b)
        (posted.length % r.numEntries) r w = (.ok (), r', w.setWindow window) ∧
      Flow fw a size sent live first r' (w.setWindow window) (t.arm res) (posted ++ [b]) := by
  obtain ⟨window, hset, hflow⟩ := h.setEntry hs hcur hroom hb
  refine ⟨window, ?_, hflow⟩
  change SourceRing.hardware.setEntry _ b.allocation.addr _ _ _ = _
  simp only [SourceRing.hardware, hset]
  rfl

namespace Section

variable {s : Section World SourceRing DmaBuffer}
  {out : Except RingError Unit × Section World SourceRing DmaBuffer}

theorem ArmedNext.inStep (h : s.InStep fw a size sent live first t posted)
    (hroom : posted.length + 1 < t.reaped + s.hw.numEntries)
    (ho : ArmedNext (World.platform rbm) size s out) :
    (out.1 = .ok () ∧ ∃ b, out.2.hw.layout = s.hw.layout ∧
        out.2.InStep fw a size sent live first { t with armed := t.armed + 1 } (posted ++ [b])) ∨
      ∃ e, out.1 = .error (.allocation e) := by
  have hlt : posted.length < t.reaped + s.hw.numEntries := by omega
  have hfree : s.hw.head ≠ s.hw.reapHead :=
    h.flow.holds.free_of_room (h.flow.length_posted ▸ hroom)
  obtain ⟨hnext, hcur⟩ := SourceRing.nextFreeEntry_eq_some h.inAccess hfree
  have hanswer (w : World) : (World.platform rbm).hardware.nextFreeEntry s.hw w =
      (some ⟨s.hw.head, .zero, false⟩, s.hw, w) := by
    change SourceRing.hardware.nextFreeEntry s.hw w = _
    simp only [SourceRing.hardware, hnext]
  cases ho with
  | occupied taken =>
    rw [h.slotsInOrder.idle (by omega)] at taken
    cases taken
  | starved => exact .inr ⟨_, rfl⟩
  | full _ acquire free =>
    rw [hanswer] at free
    cases free
  | @placed b w _ _ _ _ _ acquire free place =>
    rw [hanswer] at free
    cases free
    obtain ⟨hflow, hb, hquiet⟩ := h.flow.acquire acquire
    obtain ⟨window, hset, hflow'⟩ := hflow.arms rbm h.inAccess hcur hfree hb
    rw [← h.slotsInOrder.writeIdx_eq] at hset
    obtain ⟨table, rfl, horder⟩ :=
      place.slotsInOrder (s := { s with world := w }) h.slotsInOrder hlt hset
    exact .inl ⟨rfl, b, rfl, h.inAccess, hflow', horder, hquiet.trans h.quiet⟩

theorem InStep.close (h : s.InStep fw a size sent live first t posted) (rbm : Nat) :
    let r := { s.hw with inAccess := false }
    ∃ window, s.close (World.platform rbm) = ⟨r, s.table, s.cursor, s.world.setWindow window⟩ ∧
      Flow fw a size sent live first r (s.world.setWindow window) t posted ∧
      SourceRing.PointsTo r.flags window r.layout.headAddr (t.armed % r.numEntries) := by
  obtain ⟨window, hend, hflow, hpublished⟩ := h.flow.accessEnd h.inAccess
  refine ⟨window, ?_, hflow, hpublished⟩
  change Section.mk (s.hw.accessEnd s.world.host).1 s.table s.cursor
    (Machine.mk (s.hw.accessEnd s.world.host).2 s.world.rest) = _
  rw [hend]
  rfl

end Section

namespace Pass

structure InStep (fw : Firmware) (a : Allocation) (size : Nat) (sent : List (List UInt8))
    (live : List Allocation) (first : Nat) (t : Tally) (posted : List DmaBuffer)
    (s : Pass World SourceRing DmaBuffer) : Prop
    extends Section.InStep fw a size sent live first t posted s.toSection where
  retired_eq : s.retired = (posted.drop first).take (t.reaped - first)

variable {s : Pass World SourceRing DmaBuffer} {out : PassStep × Pass World SourceRing DmaBuffer}

inductive Advances (fw : Firmware) (a : Allocation) (size : Nat) (sent : List (List UInt8))
    (live : List Allocation) (first : Nat) (t : Tally) (posted : List DmaBuffer)
    (s : Pass World SourceRing DmaBuffer) : PassStep × Pass World SourceRing DmaBuffer → Prop where
  | stopped {s'} (same : s'.InStep fw a size sent live first t posted)
      (counted : s'.stats.backpressure = s.stats.backpressure + 1) :
      Advances fw a size sent live first t posted s (.stop, s')
  | renewed {s'} (b : DmaBuffer)
      (next : s'.InStep fw a size sent live first
        { t with armed := t.armed + 1, reaped := t.reaped + 1 } (posted ++ [b]))
      (uncounted : s'.stats.backpressure = s.stats.backpressure) :
      Advances fw a size sent live first t posted s (.proceed, s')

theorem Recycled.inStep {remaining : Nat} {entry : RingEntry}
    (h : s.InStep fw a size sent live first t posted) (hlt : t.reaped < t.accepted)
    (hcookie : entry.cookie = t.reaped % s.hw.numEntries)
    (ho : Recycled (World.platform rbm) size remaining
      ⟨t.reaped % s.hw.numEntries, entry, true⟩ s out) :
    Advances fw a size sent live first t posted s out := by
  have hacc := h.flow.holds.accepted_le
  have harm := h.flow.holds.armed_lt
  have hlen := h.flow.length_posted
  have hfirst := h.flow.first_le
  have hcur := h.flow.holds.current_completed hlt entry
  have hroom := h.flow.holds.room_of_completed hcur rfl
  have harms {b : DmaBuffer} {w : World}
      (acquire : (World.platform rbm).pool.acquire size s.world = (.ok b, w)) :=
    (h.flow.acquire acquire).1.arms rbm h.inAccess hcur hroom (h.flow.acquire acquire).2.1
  rw [← h.slotsInOrder.writeIdx_eq] at harms
  have hrenewed := ho.slotsInOrder h.slotsInOrder (by omega) (by omega) hcookie
    fun b w acquire => by
      obtain ⟨window, hset, -⟩ := harms acquire
      exact ⟨_, _, hset⟩
  cases hrenewed with
  | starved acquire =>
    have hw := h.flow.owns.acquire_error acquire
    subst hw
    exact .stopped ⟨⟨h.inAccess, h.flow.record _, h.slotsInOrder, h.quiet⟩, h.retired_eq⟩ rfl
  | @renewed b w _ _ old table acquire set oldest slotsInOrder =>
    obtain ⟨window, hset, hflow⟩ := harms acquire
    obtain ⟨-, -, hquiet⟩ := h.flow.acquire acquire
    rw [hset] at set
    cases set
    refine .renewed b ⟨⟨h.inAccess, hflow, slotsInOrder, hquiet.trans h.quiet⟩, ?_⟩ rfl
    change s.retired ++ [old] = ((posted ++ [b]).drop first).take (t.reaped + 1 - first)
    have hdrop : (posted.drop first)[t.reaped - first]? = some old := by
      rw [List.getElem?_drop, Nat.add_sub_of_le hfirst, oldest]
    rw [List.drop_append_of_le_length (by omega), Nat.sub_add_comm hfirst,
      List.take_append_of_le_length (by rw [List.length_drop]; omega), List.take_add_one, hdrop,
      h.retired_eq]
    rfl

/-- An accepted completion is found as it was armed. -/
theorem Stepped.inStep {remaining : Nat} (h : s.InStep fw a size sent live first t posted)
    (hlt : t.reaped < t.accepted) (ho : Stepped (World.platform rbm) size remaining s out) :
    Advances fw a size sent live first t posted s out := by
  have hacc := h.flow.holds.accepted_le
  have hlen := h.flow.length_posted
  obtain ⟨b, hb⟩ : ∃ b, posted[t.reaped]? = some b :=
    ⟨_, List.getElem?_eq_getElem (show t.reaped < posted.length by omega)⟩
  have harmed : (armedAs s.hw.numEntries posted)[t.reaped]? =
      some (b.allocation.addr, t.reaped % s.hw.numEntries) := by
    rw [getElem?_armedAs, hb]
    rfl
  obtain ⟨entry, he, hfound⟩ := h.flow.holds.nextEntry_healthy s.world.host.journal h.flow.inside
    h.inAccess h.flow.owns.faults (h.flow.owns.covers List.mem_cons_self) hlt harmed
  have hanswer : (World.platform rbm).hardware.nextEntry s.hw s.world =
      (some ⟨t.reaped % s.hw.numEntries, entry, true⟩, s.hw, s.world) := by
    change SourceRing.hardware.nextEntry s.hw s.world = _
    simp only [SourceRing.hardware, hfound]
  cases ho with
  | missing next =>
    rw [hanswer] at next
    cases next
  | found next recycle =>
    rw [hanswer] at next
    cases next
    exact recycle.inStep h hlt (RingEntry.ofFields_eq_ok he).2.1

/-- A pass never fails, and takes all completions unless it counts backpressure. -/
theorem drain_inStep (rbm count : Nat) (h : s.InStep fw a size sent live first t posted)
    (hc : t.reaped + count = t.accepted) :
    ∃ s' t' posted', s.drain (World.platform rbm) size count = (.ok (), s') ∧
      s'.InStep fw a size sent live first t' posted' ∧ t'.accepted = t.accepted ∧
      (s'.stats.backpressure = s.stats.backpressure → t'.reaped = t'.accepted) := by
  induction count generalizing s t posted with
  | zero => exact ⟨s, t, posted, rfl, h, rfl, fun _ => by omega⟩
  | succ count ih =>
    have hstep := (stepped (World.platform rbm) size (count + 1) s).inStep h (by omega)
    unfold drain
    generalize s.step (World.platform rbm) size (count + 1) = out at hstep ⊢
    cases hstep with
    | stopped same counted =>
      exact ⟨_, t, posted, rfl, same, rfl, fun hsame => by omega⟩
    | renewed b next uncounted =>
      obtain ⟨s', t', posted', hdrain, hin, hacc, hall⟩ := ih next (by simp only; omega)
      exact ⟨s', t', posted', hdrain, hin, hacc, fun hsame => hall (hsame.trans uncounted.symm)⟩

end Pass

end FrameRing
