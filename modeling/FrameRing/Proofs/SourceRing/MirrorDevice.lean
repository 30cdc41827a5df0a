import FrameRing.Proofs.SourceRing.Aim
import FrameRing.Proofs.SourceRing.Mirror

/-! # The device in the other byte order

Two devices that read and store pointer words in opposite byte orders, on two windows that mirror
each other. Every call answers alike on both sides and leaves windows that mirror each other, as
long as no frame is written over a pointer word. -/

namespace FrameRing

def Firmware.flipSwap (fw : Firmware) : Firmware := { fw with flags := fw.flags.flipSwap }

theorem RingLayout.Inside.sparesWords {l : RingLayout} {a : Allocation} {addr len : Nat}
    (h : l.Inside a) (ho : a.Outside addr len) : l.SparesWords addr len := by
  have hwords := h.words
  rw [Allocation.Outside] at ho
  rw [RingLayout.SparesWords]
  omega

namespace Firmware

variable {fw : Firmware} {m m' : Window} {a : Allocation}

theorem loadPointer_flipSwap (h : m.Mirrors fw.layout m') {addr : Nat}
    (hword : fw.layout.IsWord addr) :
    fw.flipSwap.loadPointer m' addr = fw.loadPointer m addr := by
  have hload := Window.loadWord_reversed (h.words addr hword)
  rw [loadPointer, loadPointer, hload]
  cases hw : m.loadWord addr with
  | error e => rfl
  | ok word =>
    exact congrArg Except.ok
      (SourceRing.pointerWord_flipSwap fw.flags (Window.loadWord_lt hw))

theorem tail_flipSwap (h : m.Mirrors fw.layout m') : fw.flipSwap.tail m' = fw.tail m :=
  loadPointer_flipSwap h (.inr rfl)

theorem armed_flipSwap (h : m.Mirrors fw.layout m') : fw.flipSwap.armed m' = fw.armed m := by
  have hhead : fw.flipSwap.head m' = fw.head m := loadPointer_flipSwap h (.inl rfl)
  rw [armed, armed, hhead, tail_flipSwap h]
  rfl

theorem tailEntryAddr_flipSwap (h : m.Mirrors fw.layout m') :
    fw.flipSwap.tailEntryAddr m' = fw.tailEntryAddr m := by
  rw [tailEntryAddr, tailEntryAddr, tail_flipSwap h]
  rfl

theorem peek_flipSwap (h : m.Mirrors fw.layout m') (hl : fw.layout.Inside a) :
    fw.flipSwap.peek m' = fw.peek m := by
  rw [peek, peek, armed_flipSwap h, tailEntryAddr_flipSwap h]
  cases fw.armed m with
  | error e => rfl
  | ok armed =>
    cases armed with
    | zero => rfl
    | succ armed =>
      simp only
      cases haddr : fw.tailEntryAddr m with
      | error e => rfl
      | ok addr =>
        obtain ⟨tail, -, hi, rfl⟩ := tailEntryAddr_eq_ok haddr
        have hclear := SourceRing.spares_position hl hi
        simp only [h.read hl.words.2.1 hclear]

theorem setTail_flipSwap (h : m.Mirrors fw.layout m') (hl : fw.layout.Inside a) (tail : Nat) :
    (fw.setTail m tail).1 = (fw.flipSwap.setTail m' tail).1 ∧
      (fw.setTail m tail).2.Mirrors fw.layout (fw.flipSwap.setTail m' tail).2 := by
  by_cases hc : m.Covers fw.layout.tailAddr 4
  · have hc' : m'.Covers fw.flipSwap.layout.tailAddr 4 := h.covers.mp hc
    have hlen := SourceRing.length_pointerBytes fw.flags tail
    rw [setTail_of_covers hc, setTail_of_covers hc']
    refine ⟨rfl, ?_⟩
    have hstored := h.store hl.words.2.1 (.inr rfl) (hlen.symm ▸ hc) hlen
    rwa [← SourceRing.pointerBytes_flipSwap] at hstored
  · have hc' : ¬ m'.Covers fw.flipSwap.layout.tailAddr 4 := fun hc' => hc (h.covers.mpr hc')
    rw [setTail_of_not_covers hc, setTail_of_not_covers hc']
    exact ⟨rfl, h⟩

theorem advanceTail_flipSwap (h : m.Mirrors fw.layout m') (hl : fw.layout.Inside a) :
    (fw.advanceTail m).1 = (fw.flipSwap.advanceTail m').1 ∧
      (fw.advanceTail m).2.Mirrors fw.layout (fw.flipSwap.advanceTail m').2 := by
  rw [advanceTail, advanceTail, tail_flipSwap h]
  cases fw.tail m with
  | error e => exact ⟨rfl, h⟩
  | ok tail => exact setTail_flipSwap h hl _

theorem deliverRaw_flipSwap (h : m.Mirrors fw.layout m') (hl : fw.layout.Inside a)
    {bytes : List UInt8} (hclear : ∀ entry, fw.peek m = .ok entry →
      bytes.length ≤ fw.bufferSize → (fw.deliverRaw m bytes).1 = .ok entry →
      fw.layout.SparesWords entry.busAddr bytes.length) :
    (fw.deliverRaw m bytes).1 = (fw.flipSwap.deliverRaw m' bytes).1 ∧
      (fw.deliverRaw m bytes).2.Mirrors fw.layout (fw.flipSwap.deliverRaw m' bytes).2 := by
  have hsize : fw.flipSwap.bufferSize = fw.bufferSize := rfl
  have hpeek := peek_flipSwap h hl
  by_cases hlong : fw.bufferSize < bytes.length
  · rw [deliverRaw, deliverRaw, hsize, if_pos hlong, if_pos hlong]
    exact ⟨rfl, h⟩
  cases hok : fw.peek m with
  | error e =>
    rw [deliverRaw, deliverRaw, hsize, if_neg hlong, if_neg hlong, hpeek, hok]
    exact ⟨rfl, h⟩
  | ok entry =>
    have hlen := Nat.le_of_not_lt hlong
    by_cases hc : m.Covers entry.busAddr bytes.length
    · obtain ⟨_, -, hdelivered⟩ := deliverRaw_eq_ok hok hlen hc
      have hspares := hclear entry hok hlen (congrArg Prod.fst hdelivered)
      have hmirrors := h.write hl.words.2.1 hspares
      have hnext := advanceTail_flipSwap hmirrors hl
      have hwritten := Window.write_of_covers hc
      have hwritten' := Window.write_of_covers (h.covers.mp hc)
      rw [deliverRaw, deliverRaw, hsize, if_neg hlong, if_neg hlong, hpeek, hok]
      generalize (m.write entry.busAddr bytes).2 = after at hnext hwritten
      generalize (m'.write entry.busAddr bytes).2 = after' at hnext hwritten'
      simp only [hwritten, hwritten']
      generalize fw.advanceTail after = out at hnext ⊢
      generalize fw.flipSwap.advanceTail after' = out' at hnext ⊢
      obtain ⟨result, last⟩ := out
      obtain ⟨result', last'⟩ := out'
      obtain ⟨rfl, hlast⟩ := hnext
      cases result with
      | error e => exact ⟨rfl, hlast⟩
      | ok => exact ⟨rfl, hlast⟩
    · have hc' : ¬ m'.Covers entry.busAddr bytes.length := fun hc' => hc (h.covers.mpr hc')
      rw [deliverRaw, deliverRaw, hsize, if_neg hlong, if_neg hlong, hpeek, hok]
      simp only [Window.write, if_neg hc, if_neg hc']
      exact ⟨trivial, h⟩

/-- Frames for entries that the host armed keep clear of the pointer words. -/
theorem deliverRaw_mirrors {size count : Nat} (h : m.Mirrors fw.layout m')
    (hl : fw.layout.Inside a) (hm : fw.layout.Aimed a size count m) (hsize : fw.bufferSize ≤ size)
    {bytes : List UInt8} (hd : fw.ConsumesBelow m count (fw.deliverRaw m bytes).1) :
    (fw.deliverRaw m bytes).1 = (fw.flipSwap.deliverRaw m' bytes).1 ∧
      (fw.deliverRaw m bytes).2.Mirrors fw.layout (fw.flipSwap.deliverRaw m' bytes).2 := by
  apply deliverRaw_flipSwap h hl
  intro entry hpeek hlen hok
  exact hl.sparesWords ((hd.outside hm hpeek hok).mono (Nat.le_trans hlen hsize))

theorem deliverFrame_mirrors {size count : Nat} (h : m.Mirrors fw.layout m')
    (hl : fw.layout.Inside a) (hm : fw.layout.Aimed a size count m) (hsize : fw.bufferSize ≤ size)
    {payload : List UInt8} (hd : fw.ConsumesBelow m count (fw.deliverFrame m payload).1) :
    (fw.deliverFrame m payload).1 = (fw.flipSwap.deliverFrame m' payload).1 ∧
      (fw.deliverFrame m payload).2.Mirrors fw.layout (fw.flipSwap.deliverFrame m' payload).2 := by
  unfold deliverFrame at hd ⊢
  by_cases hlong : FrameHeader.maxPayload < payload.length
  · rw [if_pos hlong, if_pos hlong]
    exact ⟨rfl, h⟩
  · rw [if_neg hlong] at hd ⊢
    rw [if_neg hlong]
    exact deliverRaw_mirrors h hl hm hsize hd

theorem rewriteCookie_flipSwap (h : m.Mirrors fw.layout m') (hl : fw.layout.Inside a)
    (cookie : Nat) :
    (fw.rewriteCookie m cookie).1 = (fw.flipSwap.rewriteCookie m' cookie).1 ∧
      (fw.rewriteCookie m cookie).2.Mirrors fw.layout (fw.flipSwap.rewriteCookie m' cookie).2 := by
  rw [rewriteCookie, rewriteCookie, peek_flipSwap h hl, tailEntryAddr_flipSwap h]
  cases hok : fw.peek m with
  | error e => exact ⟨rfl, h⟩
  | ok entry =>
    obtain ⟨tail, bytes, -, hi, haddr, hread, -⟩ := peek_eq_ok hok
    simp only [haddr]
    cases RingEntry.ofFields entry.busAddr cookie entry.rbm with
    | error e => exact ⟨rfl, h⟩
    | ok forged =>
      have hlen := forged.length_toBytes
      obtain ⟨hc, -, -⟩ := Window.read_eq_ok_iff.mp hread
      rw [← hlen] at hc
      have hspares := SourceRing.spares_position hl hi
      rw [← hlen] at hspares
      simp only
      rw [Window.write_of_covers hc, Window.write_of_covers (h.covers.mp hc)]
      exact ⟨rfl, h.write hl.words.2.1 hspares⟩

end Firmware

end FrameRing
