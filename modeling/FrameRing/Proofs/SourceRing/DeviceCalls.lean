import FrameRing.Proofs.SourceRing.Queue

/-! # What a call of the device does

A call reads the pointer words and the entry at the tail, and it writes the bytes that it was called
with, a tail or an entry. If it is refused, it has not written anything. -/

namespace FrameRing

namespace Firmware

variable {fw : Firmware} {m : Window} {entry : RingEntry} {bytes : List UInt8} {head tail : Nat}

theorem loadPointer_eq {addr position : Nat}
    (h : SourceRing.PointsTo fw.flags m addr position) (hc : m.Covers addr 4)
    (hp : position < 1 <<< 32) : fw.loadPointer m addr = .ok position := by
  obtain ⟨word, hload, hword⟩ := h.load hc hp
  rw [loadPointer, hload, ← hword]

theorem loadPointer_eq_ok {addr position : Nat} (h : fw.loadPointer m addr = .ok position) :
    ∃ word, m.loadWord addr = .ok word ∧ SourceRing.pointerWord fw.flags word = position := by
  unfold loadPointer at h
  split at h
  · cases h
  · rename_i word hload
    cases h
    exact ⟨word, hload, rfl⟩

theorem covers_of_tail (h : fw.tail m = .ok tail) : m.Covers fw.layout.tailAddr 4 := by
  by_cases hc : m.Covers fw.layout.tailAddr 4
  · exact hc
  · rw [Firmware.tail, loadPointer, Window.loadWord, Window.read, if_neg hc] at h
    cases h

theorem exists_tail (hc : m.Covers fw.layout.tailAddr 4) : ∃ tail, fw.tail m = .ok tail := by
  obtain ⟨bytes, hread⟩ := Window.exists_read hc
  refine ⟨SourceRing.pointerWord fw.flags (LittleEndian.decode bytes), ?_⟩
  rw [tail, loadPointer, Window.loadWord, hread]
  rfl

theorem setTail_of_covers (hc : m.Covers fw.layout.tailAddr 4) (tail : Nat) :
    fw.setTail m tail =
      (.ok (), (m.write fw.layout.tailAddr (SourceRing.pointerBytes fw.flags tail)).2) := by
  have hlen := SourceRing.length_pointerBytes fw.flags tail
  rw [setTail, Window.storeWord, ← SourceRing.pointerBytes, Window.write_of_covers (hlen.symm ▸ hc)]

theorem setTail_of_not_covers (hc : ¬ m.Covers fw.layout.tailAddr 4) (tail : Nat) :
    fw.setTail m tail = (.error (.memory ⟨fw.layout.tailAddr⟩), m) := by
  have hlen := SourceRing.length_pointerBytes fw.flags tail
  rw [setTail, Window.storeWord, ← SourceRing.pointerBytes, Window.write,
    if_neg (hlen.symm ▸ hc)]

theorem setTail_error {position : Nat} {e : FirmwareError}
    (h : (fw.setTail m position).1 = .error e) : (fw.setTail m position).2 = m := by
  by_cases hc : m.Covers fw.layout.tailAddr 4
  · rw [setTail_of_covers hc] at h
    cases h
  · rw [setTail_of_not_covers hc]

theorem advanceTail_eq (h : fw.tail m = .ok tail) :
    fw.advanceTail m = (.ok (), (m.write fw.layout.tailAddr
      (SourceRing.pointerBytes fw.flags ((tail + 1) % fw.layout.numEntries))).2) := by
  rw [advanceTail, h]
  exact setTail_of_covers (covers_of_tail h) _

theorem armed_of_words (hhead : fw.head m = .ok head) (htail : fw.tail m = .ok tail) :
    fw.armed m = .ok ((head + fw.layout.numEntries - tail) % fw.layout.numEntries) := by
  simp only [armed, hhead, htail]

theorem peek_of_none_armed (h : fw.armed m = .ok 0) : fw.peek m = .error .nothingArmed := by
  simp only [peek, h]

theorem armed_of_peek (h : fw.peek m = .ok entry) :
    ∃ count, fw.armed m = .ok count ∧ 0 < count := by
  cases harmed : fw.armed m with
  | error e =>
    simp only [peek, harmed] at h
    cases h
  | ok count =>
    refine ⟨count, rfl, Nat.pos_of_ne_zero ?_⟩
    rintro rfl
    rw [peek_of_none_armed harmed] at h
    cases h

theorem peek_of_read {count addr : Nat} (h : fw.armed m = .ok count) (hpos : 0 < count)
    (hnext : fw.tailEntryAddr m = .ok addr) (hread : m.read addr RingEntry.size = .ok bytes) :
    fw.peek m = .ok (RingEntry.ofBytes bytes) := by
  obtain ⟨k, rfl⟩ : ∃ k, count = k + 1 := ⟨count - 1, by omega⟩
  simp only [peek, h, hnext, hread]

theorem tailEntryAddr_eq_ok {addr : Nat} (h : fw.tailEntryAddr m = .ok addr) :
    ∃ tail, fw.tail m = .ok tail ∧ tail < fw.layout.numEntries ∧
      addr = fw.layout.positionAddr tail := by
  unfold tailEntryAddr at h
  split at h
  · cases h
  rename_i tail htail
  split at h
  · cases h
  rename_i hidx
  cases h
  obtain ⟨hi, rfl⟩ := RingLayout.entryAddr?_eq_some hidx
  exact ⟨tail, htail, hi, rfl⟩

theorem peek_eq_ok (h : fw.peek m = .ok entry) :
    ∃ tail bytes, fw.tail m = .ok tail ∧ tail < fw.layout.numEntries ∧
      fw.tailEntryAddr m = .ok (fw.layout.positionAddr tail) ∧
      m.read (fw.layout.positionAddr tail) RingEntry.size = .ok bytes ∧
      entry = RingEntry.ofBytes bytes := by
  unfold peek at h
  split at h
  · cases h
  · cases h
  split at h
  · cases h
  rename_i addr haddr
  obtain ⟨tail, htail, hi, rfl⟩ := tailEntryAddr_eq_ok haddr
  split at h
  · cases h
  rename_i bytes hread
  cases h
  exact ⟨tail, bytes, htail, hi, haddr, hread, rfl⟩

theorem deliverRaw_eq_ok (hpeek : fw.peek m = .ok entry) (hlen : bytes.length ≤ fw.bufferSize)
    (hc : m.Covers entry.busAddr bytes.length) :
    ∃ tail, fw.tail (m.write entry.busAddr bytes).2 = .ok tail ∧
      fw.deliverRaw m bytes = (.ok entry, ((m.write entry.busAddr bytes).2.write
        fw.layout.tailAddr
        (SourceRing.pointerBytes fw.flags ((tail + 1) % fw.layout.numEntries))).2) := by
  obtain ⟨tail, -, htail, -⟩ := peek_eq_ok hpeek
  obtain ⟨next, hnext⟩ := exists_tail (Window.covers_write.mpr (covers_of_tail htail))
  have hadvance := advanceTail_eq hnext
  have hwritten := Window.write_of_covers hc
  refine ⟨next, hnext, ?_⟩
  rw [deliverRaw, if_neg (Nat.not_lt.mpr hlen), hpeek]
  generalize (m.write entry.busAddr bytes).2 = after at hadvance hwritten ⊢
  simp only [hwritten, hadvance]

theorem deliverRaw_cases (fw : Firmware) (m : Window) (bytes : List UInt8) :
    (∃ e, fw.deliverRaw m bytes = (.error e, m)) ∨
      ∃ entry tail, fw.peek m = .ok entry ∧ bytes.length ≤ fw.bufferSize ∧
        fw.deliverRaw m bytes = (.ok entry, ((m.write entry.busAddr bytes).2.write
          fw.layout.tailAddr (SourceRing.pointerBytes fw.flags tail)).2) := by
  by_cases hlong : fw.bufferSize < bytes.length
  · rw [deliverRaw, if_pos hlong]
    exact .inl ⟨_, rfl⟩
  cases hpeek : fw.peek m with
  | error e =>
    rw [deliverRaw, if_neg hlong, hpeek]
    exact .inl ⟨e, rfl⟩
  | ok entry =>
    have hlen := Nat.le_of_not_lt hlong
    by_cases hc : m.Covers entry.busAddr bytes.length
    · obtain ⟨tail, -, hdelivered⟩ := deliverRaw_eq_ok hpeek hlen hc
      exact .inr ⟨entry, _, rfl, hlen, hdelivered⟩
    · rw [deliverRaw, if_neg hlong, hpeek]
      refine .inl ⟨.memory ⟨entry.busAddr⟩, ?_⟩
      simp only [Window.write, if_neg hc]

theorem deliverRaw_error {e : FirmwareError} (h : (fw.deliverRaw m bytes).1 = .error e) :
    (fw.deliverRaw m bytes).2 = m := by
  rcases fw.deliverRaw_cases m bytes with ⟨e', he⟩ | ⟨entry, tail, -, -, he⟩
  · rw [he]
  · rw [he] at h
    cases h

theorem deliverFrame_error {payload : List UInt8} {e : FirmwareError}
    (h : (fw.deliverFrame m payload).1 = .error e) : (fw.deliverFrame m payload).2 = m := by
  unfold deliverFrame at h ⊢
  split
  · rfl
  · rename_i hfits
    rw [if_neg hfits] at h
    exact deliverRaw_error h

theorem rewriteCookie_eq_ok {forged : RingEntry} {cookie : Nat} (hpeek : fw.peek m = .ok entry)
    (hfields : RingEntry.ofFields entry.busAddr cookie entry.rbm = .ok forged) :
    ∃ tail, fw.tail m = .ok tail ∧ m.Covers (fw.layout.positionAddr tail) RingEntry.size ∧
      fw.rewriteCookie m cookie =
        (.ok (), (m.write (fw.layout.positionAddr tail) forged.toBytes).2) := by
  obtain ⟨tail, bytes, htail, -, haddr, hread, -⟩ := peek_eq_ok hpeek
  obtain ⟨hc, -, -⟩ := Window.read_eq_ok_iff.mp hread
  have hwritten := Window.write_of_covers (forged.length_toBytes.symm ▸ hc)
  refine ⟨tail, htail, hc, ?_⟩
  rw [rewriteCookie, hpeek]
  simp only [hfields, haddr]
  rw [hwritten]

theorem rewriteCookie_cases (fw : Firmware) (m : Window) (cookie : Nat) :
    (∃ e, fw.rewriteCookie m cookie = (.error e, m)) ∨
      ∃ (entry forged : RingEntry) (tail : Nat), fw.peek m = .ok entry ∧ fw.tail m = .ok tail ∧
        RingEntry.ofFields entry.busAddr cookie entry.rbm = .ok forged ∧
        m.Covers (fw.layout.positionAddr tail) RingEntry.size ∧
        fw.rewriteCookie m cookie =
          (.ok (), (m.write (fw.layout.positionAddr tail) forged.toBytes).2) := by
  cases hpeek : fw.peek m with
  | error e =>
    rw [rewriteCookie, hpeek]
    exact .inl ⟨e, rfl⟩
  | ok entry =>
    cases hfields : RingEntry.ofFields entry.busAddr cookie entry.rbm with
    | error e =>
      rw [rewriteCookie, hpeek]
      exact .inl ⟨.badEntry e, by simp only [hfields]⟩
    | ok forged =>
      obtain ⟨tail, htail, hc, hrewritten⟩ := rewriteCookie_eq_ok hpeek hfields
      exact .inr ⟨entry, forged, tail, rfl, htail, hfields, hc, hrewritten⟩

theorem rewriteCookie_error {cookie : Nat} {e : FirmwareError}
    (h : (fw.rewriteCookie m cookie).1 = .error e) : (fw.rewriteCookie m cookie).2 = m := by
  rcases fw.rewriteCookie_cases m cookie with ⟨e', he⟩ | ⟨entry, forged, tail, -, -, -, -, he⟩
  · rw [he]
  · rw [he] at h
    cases h

end Firmware

end FrameRing
