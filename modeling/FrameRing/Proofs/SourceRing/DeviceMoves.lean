import FrameRing.Proofs.SourceRing.Device

/-! # What an orderly device does

A device may write into the buffers of armed entries, in any order and as often as it likes, and
move the tail over as many armed entries as it likes. Neither changes an entry, and the tail never
passes the head. -/

namespace FrameRing

inductive DeviceMove where
  | fill (ahead offset : Nat) (bytes : List UInt8)
  | advance (count : Nat)
  deriving DecidableEq, Repr

namespace Firmware

def entryAhead (fw : Firmware) (m : Window) (ahead : Nat) : Option RingEntry :=
  match fw.armed m, fw.tail m with
  | .ok armed, .ok tail =>
    if ahead < armed then
      match fw.layout.entryAddr? ((tail + ahead) % fw.layout.numEntries) with
      | none => none
      | some addr =>
        match m.read addr RingEntry.size with
        | .error _ => none
        | .ok bytes => some (RingEntry.ofBytes bytes)
    else none
  | _, _ => none

def move (fw : Firmware) (m : Window) : DeviceMove → Window
  | .fill ahead offset bytes =>
    match fw.entryAhead m ahead with
    | none => m
    | some entry =>
      if offset + bytes.length ≤ fw.bufferSize then (m.write (entry.busAddr + offset) bytes).2
      else m
  | .advance count =>
    match fw.armed m, fw.tail m with
    | .ok armed, .ok tail =>
      if count ≤ armed then (fw.setTail m ((tail + count) % fw.layout.numEntries)).2 else m
    | _, _ => m

variable {r : SourceRing} {m : Window} {t : Tally} {posted : List (Nat × Nat)} {a : Allocation}
  {published consumed size : Nat}

theorem entryAhead_eq_some (hs : r.Shared m published consumed) (h : r.Holds m t posted)
    (hl : r.layout.Inside a) (hc : m.Covers a.addr a.len) (hn : r.numEntries ≤ 1 <<< 32)
    (hlow : t.reaped ≤ consumed) (hhigh : consumed ≤ published) (hpub : published ≤ t.armed)
    {ahead : Nat} {entry : RingEntry} (he : (behind r size).entryAhead m ahead = some entry) :
    ∃ k cookie, t.reaped ≤ k ∧ posted[k]? = some (entry.busAddr, cookie) := by
  simp only [entryAhead, armed_eq hs h hl hc hn hlow hhigh hpub, tail_eq hs h hl hc hn] at he
  split at he
  · rename_i hahead
    have hlt : consumed + ahead < posted.length := by rw [h.length]; omega
    obtain ⟨⟨busAddr, cookie⟩, hp⟩ : ∃ p, posted[consumed + ahead]? = some p :=
      ⟨_, List.getElem?_eq_getElem hlt⟩
    obtain ⟨armed, hfields, hshown⟩ := h.shown _ busAddr cookie (by omega) hp
    have hin := hl.entry (h.position_lt (consumed + ahead))
    have hw := hl.words
    have hread := Window.read_eq_ok_iff.mpr
      ⟨hc.sub hin.1 (by omega), RingEntry.length_toBytes armed, hshown⟩
    have haddr : (behind r size).layout.entryAddr?
        ((consumed % r.numEntries + ahead) % (behind r size).layout.numEntries) =
        some (r.layout.positionAddr ((consumed + ahead) % r.numEntries)) := by
      change r.layout.entryAddr? ((consumed % r.numEntries + ahead) % r.numEntries) = _
      rw [Nat.mod_add_mod]
      exact hl.entryAddr? (h.position_lt _)
    simp only [haddr, hread, RingEntry.ofBytes_toBytes] at he
    cases he
    refine ⟨consumed + ahead, cookie, by omega, ?_⟩
    rw [(RingEntry.ofFields_eq_ok hfields).1]
    exact hp
  · cases he

/-- No move of the device changes an entry, and the tail stays behind the head. -/
theorem move_spares (hs : r.Shared m published consumed) (h : r.Holds m t posted)
    (hl : r.layout.Inside a) (hc : m.Covers a.addr a.len) (hn : r.numEntries ≤ 1 <<< 32)
    (hlow : t.reaped ≤ consumed) (hhigh : consumed ≤ published) (hpub : published ≤ t.armed)
    (hbuf : ∀ k busAddr cookie, t.reaped ≤ k → posted[k]? = some (busAddr, cookie) →
      busAddr + size ≤ a.addr ∨ a.addr + a.len ≤ busAddr) (mv : DeviceMove) :
    let m' := (behind r size).move m mv
    m'.base = m.base ∧ m'.size = m.size ∧ r.Holds m' t posted ∧
      ∃ consumed', consumed ≤ consumed' ∧ consumed' ≤ published ∧
        r.Shared m' published consumed' := by
  have hsame : m.base = m.base ∧ m.size = m.size ∧ r.Holds m t posted ∧
      ∃ consumed', consumed ≤ consumed' ∧ consumed' ≤ published ∧
        r.Shared m published consumed' :=
    ⟨rfl, rfl, h, consumed, Nat.le_refl _, hhigh, hs⟩
  cases mv with
  | fill ahead offset bytes =>
    simp only [move]
    cases he : (behind r size).entryAhead m ahead with
    | none => exact hsame
    | some entry =>
      simp only
      split
      · rename_i hfits
        obtain ⟨k, cookie, hk, hp⟩ :=
          entryAhead_eq_some hs h hl hc hn hlow hhigh hpub he
        have hap := hbuf k _ cookie hk hp
        have hw := hl.words
        have hfits : offset + bytes.length ≤ size := hfits
        exact ⟨Window.base_write, Window.size_write, h.write hl (by omega), consumed,
          Nat.le_refl _, hhigh, hs.write hl (by omega)⟩
      · exact hsame
  | advance count =>
    simp only [move, armed_eq hs h hl hc hn hlow hhigh hpub, tail_eq hs h hl hc hn,
      setTail_eq hl hc]
    split
    · have hpos : (consumed % r.numEntries + count) % (behind r size).layout.numEntries =
          (consumed + count) % r.numEntries := Nat.mod_add_mod ..
      rw [hpos]
      obtain ⟨hshared, hholds⟩ := shared_setTail hs h hl hc (consumed + count)
      exact ⟨Window.base_write, Window.size_write, hholds, consumed + count,
        Nat.le_add_right _ _, by omega, hshared⟩
    · exact hsame

end Firmware

end FrameRing
