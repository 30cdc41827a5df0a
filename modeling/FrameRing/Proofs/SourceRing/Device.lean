import FrameRing.Proofs.Frames
import FrameRing.Proofs.SourceRing.DeviceCalls

/-! # The device at a ring's queue

The device sees as many armed entries as the host published and the device did not consume, and
takes them in the order in which they were armed. A frame goes into the buffer that the oldest of
them names. -/

namespace FrameRing

structure SourceRing.Shared (r : SourceRing) (m : Window) (published consumed : Nat) : Prop where
  head : PointsTo r.flags m r.layout.headAddr (published % r.numEntries)
  tail : PointsTo r.flags m r.layout.tailAddr (consumed % r.numEntries)

theorem SourceRing.Shared.write {r : SourceRing} {m : Window} {published consumed addr : Nat}
    {src : List UInt8} {a : Allocation} (h : r.Shared m published consumed)
    (hl : r.layout.Inside a) (ho : addr + src.length ≤ a.addr ∨ a.addr + a.len ≤ addr) :
    r.Shared (m.write addr src).2 published consumed := by
  have hw := hl.words
  exact ⟨h.head.write (by omega), h.tail.write (by omega)⟩

namespace Firmware

variable {r : SourceRing} {m : Window} {t : Tally} {posted : List (Nat × Nat)} {a : Allocation}
  {published consumed : Nat}

theorem tail_eq (hs : r.Shared m published consumed) (h : r.Holds m t posted)
    (hl : r.layout.Inside a) (hc : m.Covers a.addr a.len) (hn : r.numEntries ≤ 1 <<< 32)
    (size : Nat) : (behind r size).tail m = .ok (consumed % r.numEntries) := by
  have hw := hl.words
  have hlt : consumed % r.numEntries < r.numEntries := h.position_lt consumed
  have htail : m.Covers r.layout.tailAddr 4 := hc.sub (by omega) (by omega)
  exact loadPointer_eq hs.tail htail (by omega)

theorem armed_eq (hs : r.Shared m published consumed) (h : r.Holds m t posted)
    (hl : r.layout.Inside a) (hc : m.Covers a.addr a.len) (hn : r.numEntries ≤ 1 <<< 32)
    (hlow : t.reaped ≤ consumed) (hhigh : consumed ≤ published) (hpub : published ≤ t.armed)
    (size : Nat) : (behind r size).armed m = .ok (published - consumed) := by
  have hw := hl.words
  have harm := h.armed_lt
  have hlt : published % r.numEntries < r.numEntries := h.position_lt published
  have hhead : (behind r size).head m = .ok (published % r.numEntries) :=
    loadPointer_eq hs.head (hc.sub (by simp only [behind]; omega) (by simp only [behind]; omega))
      (by omega)
  rw [armed_of_words hhead (tail_eq hs h hl hc hn size)]
  exact congrArg Except.ok (steps_between hhigh (by omega))

theorem setTail_eq {size : Nat} (hl : r.layout.Inside a) (hc : m.Covers a.addr a.len) (tail : Nat) :
    (behind r size).setTail m tail =
      (.ok (), (m.write r.layout.tailAddr (SourceRing.pointerBytes r.flags tail)).2) := by
  have hw := hl.words
  have hcov : m.Covers r.layout.tailAddr 4 := hc.sub (by omega) (by omega)
  exact setTail_of_covers hcov tail

theorem shared_setTail (hs : r.Shared m published consumed) (h : r.Holds m t posted)
    (hl : r.layout.Inside a) (hc : m.Covers a.addr a.len) (tail : Nat) :
    let m' := (m.write r.layout.tailAddr
      (SourceRing.pointerBytes r.flags (tail % r.numEntries))).2
    r.Shared m' published tail ∧ r.Holds m' t posted := by
  have hw := hl.words
  have hlen := SourceRing.length_pointerBytes r.flags (tail % r.numEntries)
  have hcov : m.Covers r.layout.tailAddr
      (SourceRing.pointerBytes r.flags (tail % r.numEntries)).length :=
    hc.sub (by omega) (by omega)
  refine ⟨⟨hs.head.write (.inl (by omega)), ?_⟩, h.write hl (.inr (by omega))⟩
  exact Window.shows_write hcov

theorem peek_cases (hs : r.Shared m t.armed consumed) (h : r.Holds m t posted)
    (hl : r.layout.Inside a) (hc : m.Covers a.addr a.len) (hn : r.numEntries ≤ 1 <<< 32)
    (hlow : t.reaped ≤ consumed) (hhigh : consumed ≤ t.armed) (size : Nat) :
    (consumed = t.armed ∧ (behind r size).peek m = .error .nothingArmed) ∨
      ∃ busAddr cookie entry, posted[consumed]? = some (busAddr, cookie) ∧
        RingEntry.ofFields busAddr cookie r.rbm = .ok entry ∧
        (behind r size).peek m = .ok entry := by
  have harmed := armed_eq hs h hl hc hn hlow hhigh (Nat.le_refl _) size
  rcases Nat.lt_or_eq_of_le hhigh with hlt | heq
  · have hin := hl.entry (h.position_lt consumed)
    have hw := hl.words
    have hpos : (behind r size).tailEntryAddr m =
        .ok (r.layout.positionAddr (consumed % r.numEntries)) := by
      simp only [tailEntryAddr, tail_eq hs h hl hc hn]
      simp only [behind, hl.entryAddr? (h.position_lt consumed)]
    obtain ⟨⟨busAddr, cookie⟩, hp⟩ : ∃ p, posted[consumed]? = some p :=
      ⟨_, List.getElem?_eq_getElem (by rw [h.length]; exact hlt)⟩
    obtain ⟨entry, he, hshown⟩ := h.shown consumed busAddr cookie hlow hp
    have hread := Window.read_eq_ok_iff.mpr
      ⟨hc.sub hin.1 (by omega), RingEntry.length_toBytes entry, hshown⟩
    refine .inr ⟨busAddr, cookie, entry, hp, he, ?_⟩
    rw [peek_of_read harmed (by omega) hpos hread, RingEntry.ofBytes_toBytes]
  · rw [heq, Nat.sub_self] at harmed
    exact .inl ⟨heq, peek_of_none_armed harmed⟩

/-- A frame is refused without a change, or it lies in the buffer of the oldest armed entry and
the tail is one further. -/
theorem deliverFrame_cases (hs : r.Shared m t.armed consumed) (h : r.Holds m t posted)
    (hl : r.layout.Inside a) (hc : m.Covers a.addr a.len) (hn : r.numEntries ≤ 1 <<< 32)
    (hlow : t.reaped ≤ consumed) (hhigh : consumed ≤ t.armed)
    {size : Nat}
    (hbuf : ∀ busAddr cookie, posted[consumed]? = some (busAddr, cookie) →
      m.Covers busAddr size ∧ (busAddr + size ≤ a.addr ∨ a.addr + a.len ≤ busAddr))
    (payload : List UInt8) :
    (∃ e, (behind r size).deliverFrame m payload = (.error e, m)) ∨
      ∃ busAddr cookie entry m', posted[consumed]? = some (busAddr, cookie) ∧
        FrameHeader.size + payload.length ≤ size ∧ payload.length ≤ FrameHeader.maxPayload ∧
        (behind r size).deliverFrame m payload = (.ok entry, m') ∧
        m' = ((m.write busAddr (frameBytes payload)).2.write r.layout.tailAddr
          (SourceRing.pointerBytes r.flags ((consumed + 1) % r.numEntries))).2 ∧
        r.Shared m' t.armed (consumed + 1) ∧ r.Holds m' t posted := by
  unfold deliverFrame
  split
  · exact .inl ⟨_, rfl⟩
  rename_i hpayload
  rw [← frameBytes]
  by_cases hlong : size < (frameBytes payload).length
  · exact .inl ⟨_, if_pos hlong⟩
  have hsize : (frameBytes payload).length ≤ size := Nat.le_of_not_lt hlong
  rcases peek_cases hs h hl hc hn hlow hhigh size with
    ⟨-, hpeek⟩ | ⟨busAddr, cookie, entry, hp, he, hpeek⟩
  · refine .inl ⟨.nothingArmed, ?_⟩
    rw [deliverRaw, hpeek]
    exact if_neg hlong
  · obtain ⟨hcov, hap⟩ := hbuf busAddr cookie hp
    obtain ⟨rfl, -, -⟩ := RingEntry.ofFields_eq_ok he
    have hw := hl.words
    have hframe : m.Covers entry.busAddr (frameBytes payload).length :=
      hcov.sub (Nat.le_refl _) (by omega)
    have hshared : r.Shared (m.write entry.busAddr (frameBytes payload)).2 t.armed consumed :=
      hs.write hl (by omega)
    have hholds : r.Holds (m.write entry.busAddr (frameBytes payload)).2 t posted :=
      h.write hl (by omega)
    have hcov' : (m.write entry.busAddr (frameBytes payload)).2.Covers a.addr a.len :=
      Window.covers_write.mpr hc
    obtain ⟨tail, htail, hdelivered⟩ := deliverRaw_eq_ok hpeek hsize hframe
    cases htail.symm.trans (tail_eq hshared hholds hl hcov' hn size)
    obtain ⟨hshared', hholds'⟩ := shared_setTail hshared hholds hl hcov' (consumed + 1)
    rw [length_frameBytes] at hsize
    refine .inr ⟨entry.busAddr, cookie, entry, _, hp, hsize, Nat.le_of_not_lt hpayload, ?_, rfl,
      hshared', hholds'⟩
    rw [hdelivered, ← Nat.mod_add_mod consumed r.numEntries 1]
    rfl

end Firmware

end FrameRing
