import FrameRing.Proofs.SourceRing.Alike
import FrameRing.Proofs.SourceRing.DeviceCalls

/-! # Where armed entries aim

The device writes a frame to wherever the entry at its tail says. The entries that the host armed
name buffers outside of the ring memory, and no call of the device changes that, whatever tail it
sets: of an entry it rewrites the cookie and nothing else. -/

namespace FrameRing

def Allocation.Outside (a : Allocation) (addr len : Nat) : Prop :=
  addr + len ≤ a.addr ∨ a.addr + a.len ≤ addr

theorem Allocation.Outside.mono {a : Allocation} {addr len len' : Nat} (h : a.Outside addr len)
    (hlen : len' ≤ len) : a.Outside addr len' := by
  rw [Outside] at *
  omega

namespace RingLayout

variable {l : RingLayout} {a : Allocation} {m : Window} {size count idx addr : Nat}
  {src : List UInt8} {entry : RingEntry}

/-- The entry at a position, if it can be read, names `size` bytes outside of `a`. -/
def AimsOutside (l : RingLayout) (a : Allocation) (size : Nat) (m : Window) (idx : Nat) : Prop :=
  ∀ bytes, m.read (l.positionAddr idx) RingEntry.size = .ok bytes →
    a.Outside (RingEntry.ofBytes bytes).busAddr size

def Aimed (l : RingLayout) (a : Allocation) (size count : Nat) (m : Window) : Prop :=
  ∀ k, k < count → l.AimsOutside a size m (k % l.numEntries)

theorem AimsOutside.put (hl : l.Inside a) {j : Nat} (hi : idx < l.numEntries)
    (hj : j < l.numEntries) (hc : m.Covers (l.positionAddr idx) RingEntry.size)
    (he : j = idx → a.Outside entry.busAddr size) (h : j ≠ idx → l.AimsOutside a size m j) :
    l.AimsOutside a size (m.write (l.positionAddr idx) entry.toBytes).2 j := by
  intro bytes hread
  have hlen := entry.length_toBytes
  by_cases here : j = idx
  · have hself := Window.read_write_self (hlen.symm ▸ hc)
    rw [hlen, ← here] at hself
    rw [here] at hself hread
    cases hself.symm.trans hread
    rw [RingEntry.ofBytes_toBytes]
    exact he here
  · have hapart := entries_apart hl.stride here (hl.entryAddr? hj) (hl.entryAddr? hi)
    rw [Window.read_write_of_apart (by omega)] at hread
    exact h here bytes hread

namespace Aimed

theorem mono (h : l.Aimed a size count m) {count' : Nat} (hle : count' ≤ count) :
    l.Aimed a size count' m :=
  fun k hk => h k (Nat.lt_of_lt_of_le hk hle)

theorem position (h : l.Aimed a size count m) (hi : idx < l.numEntries) (hc : idx < count) :
    l.AimsOutside a size m idx := by
  have haims := h idx hc
  rwa [Nat.mod_eq_of_lt hi] at haims

theorem write (h : l.Aimed a size count m) (hl : l.Inside a) (hn : 0 < l.numEntries)
    (ho : addr + src.length ≤ a.addr ∨ l.headAddr ≤ addr) :
    l.Aimed a size count (m.write addr src).2 := by
  intro k hk bytes hread
  have hin := hl.entry (Nat.mod_lt k hn)
  rw [Window.read_write_of_apart (by omega)] at hread
  exact h k hk bytes hread

theorem writeOutside (h : l.Aimed a size count m) (hl : l.Inside a) (hn : 0 < l.numEntries)
    (ho : a.Outside addr src.length) : l.Aimed a size count (m.write addr src).2 := by
  have hwords := hl.words
  apply h.write hl hn
  rw [Allocation.Outside] at ho
  omega

theorem arm (h : l.Aimed a size count m) (hl : l.Inside a) (hn : 0 < l.numEntries)
    (hc : m.Covers (l.positionAddr (count % l.numEntries)) RingEntry.size)
    (he : a.Outside entry.busAddr size) :
    l.Aimed a size (count + 1)
      (m.write (l.positionAddr (count % l.numEntries)) entry.toBytes).2 := by
  intro k hk
  apply AimsOutside.put hl (Nat.mod_lt count hn) (Nat.mod_lt k hn) hc
  · intro
    exact he
  · intro hne
    have hother : k ≠ count := fun heq => hne (by rw [heq])
    exact h k (by omega)

theorem accessEnd {r : SourceRing} {h : Host} (hm : r.layout.Aimed a size count h.memory.window)
    (hl : r.layout.Inside a) (hn : 0 < r.layout.numEntries) :
    r.layout.Aimed a size count (r.accessEnd h).2.memory.window := by
  obtain ⟨m, journal⟩ := h
  rw [SourceRing.accessEnd]
  by_cases hs : r.inAccess = true
  · rw [if_pos hs]
    simp only
    rcases SourceRing.storePointer_cases r.flags m r.layout.headAddr r.head with he | ⟨-, he⟩
    · rw [he]
      exact hm
    · rw [he]
      exact hm.write hl hn (.inr (Nat.le_refl _))
  · rw [if_neg hs]
    exact hm

theorem setEntry {r : SourceRing} {t : Tally} {m : HostMemory} (ht : r.Tracks t)
    (hl : r.layout.Inside a) (h : r.layout.Aimed a size t.armed m.window) (res : Reservation)
    {busAddr : Nat} (ho : a.Outside busAddr size) (cookie : Nat) :
    let out := r.setEntry m res busAddr cookie
    out.2.1.layout = r.layout ∧ ∃ t', out.2.1.Tracks t' ∧ t'.accepted = t.accepted ∧
      t.armed ≤ t'.armed ∧ r.layout.Aimed a size t'.armed out.2.2.window := by
  rcases r.setEntry_cases m res busAddr cookie with
    ⟨e, he⟩ | ⟨entry, addr, -, hcur, hroom, hfields, haddr, hc, he⟩
  · rw [he]
    exact ⟨rfl, t, ht, rfl, Nat.le_refl _, h⟩
  · rw [he]
    refine ⟨rfl, t.arm res, ht.arm hcur hroom, rfl, Nat.le_succ _, ?_⟩
    obtain ⟨-, rfl⟩ := entryAddr?_eq_some haddr
    have hn : 0 < r.layout.numEntries := Nat.lt_of_lt_of_le (by decide) ht.size
    have hpos : r.layout.baseAddr + r.head * r.layout.entrySize =
        r.layout.positionAddr (t.armed % r.layout.numEntries) := by
      rw [ht.head]
      rfl
    have hout : a.Outside entry.busAddr size := by
      rwa [(RingEntry.ofFields_eq_ok hfields).1]
    rw [hpos] at hc ⊢
    exact h.arm hl hn hc hout

end Aimed

end RingLayout

namespace Firmware

variable {fw : Firmware} {m : Window} {a : Allocation} {size count : Nat}

def ConsumesBelow (fw : Firmware) (m : Window) (count : Nat)
    (result : Except FirmwareError RingEntry) : Prop :=
  ∀ _ ∈ result.toOption, ∀ tail ∈ (fw.tail m).toOption, tail < count

instance (fw : Firmware) (m : Window) (count : Nat) (result : Except FirmwareError RingEntry) :
    Decidable (fw.ConsumesBelow m count result) :=
  inferInstanceAs (Decidable (∀ _ ∈ result.toOption, ∀ tail ∈ (fw.tail m).toOption, tail < count))

/-- A delivery into the buffer of an armed entry goes outside. -/
theorem ConsumesBelow.outside {entry : RingEntry} {result : Except FirmwareError RingEntry}
    (h : fw.ConsumesBelow m count result) (hm : fw.layout.Aimed a size count m)
    (hpeek : fw.peek m = .ok entry) (hresult : result = .ok entry) :
    a.Outside entry.busAddr size := by
  obtain ⟨tail, bytes, htail, hi, -, hread, rfl⟩ := peek_eq_ok hpeek
  rw [ConsumesBelow, hresult, htail] at h
  exact hm.position hi (h _ rfl _ rfl) bytes hread

end Firmware

namespace RingLayout.Aimed

variable {fw : Firmware} {m : Window} {a : Allocation} {size count : Nat}

theorem setTail (h : fw.layout.Aimed a size count m) (hl : fw.layout.Inside a)
    (hn : 0 < fw.layout.numEntries) (tail : Nat) :
    fw.layout.Aimed a size count (fw.setTail m tail).2 := by
  have hwords := hl.words
  by_cases hc : m.Covers fw.layout.tailAddr 4
  · rw [fw.setTail_of_covers hc]
    exact h.write hl hn (.inr (by omega))
  · rw [fw.setTail_of_not_covers hc]
    exact h

theorem deliverRaw (h : fw.layout.Aimed a size count m) (hl : fw.layout.Inside a)
    (hn : 0 < fw.layout.numEntries) (hsize : fw.bufferSize ≤ size) {bytes : List UInt8}
    (hd : fw.ConsumesBelow m count (fw.deliverRaw m bytes).1) :
    fw.layout.Aimed a size count (fw.deliverRaw m bytes).2 := by
  have hwords := hl.words
  rcases fw.deliverRaw_cases m bytes with ⟨e, he⟩ | ⟨entry, tail, hpeek, hlen, he⟩
  · rw [he]
    exact h
  · have hout := hd.outside h hpeek (by rw [he])
    rw [he]
    have hframe := h.writeOutside hl hn (hout.mono (Nat.le_trans hlen hsize))
    exact hframe.write hl hn (.inr (by omega))

theorem deliverFrame (h : fw.layout.Aimed a size count m) (hl : fw.layout.Inside a)
    (hn : 0 < fw.layout.numEntries) (hsize : fw.bufferSize ≤ size) {payload : List UInt8}
    (hd : fw.ConsumesBelow m count (fw.deliverFrame m payload).1) :
    fw.layout.Aimed a size count (fw.deliverFrame m payload).2 := by
  unfold Firmware.deliverFrame at hd ⊢
  by_cases hlong : FrameHeader.maxPayload < payload.length
  · rw [if_pos hlong]
    exact h
  · rw [if_neg hlong] at hd ⊢
    exact h.deliverRaw hl hn hsize hd

theorem rewriteCookie (h : fw.layout.Aimed a size count m) (hl : fw.layout.Inside a)
    (hn : 0 < fw.layout.numEntries) (cookie : Nat) :
    fw.layout.Aimed a size count (fw.rewriteCookie m cookie).2 := by
  rcases fw.rewriteCookie_cases m cookie with
    ⟨e, he⟩ | ⟨entry, forged, tail, hpeek, htail, hfields, hc, he⟩
  · rw [he]
    exact h
  · rw [he]
    have hsame := (RingEntry.ofFields_eq_ok hfields).1
    obtain ⟨tail', bytes, htail', hi, -, hread, rfl⟩ := Firmware.peek_eq_ok hpeek
    cases htail.symm.trans htail'
    intro k hk
    apply AimsOutside.put hl hi (Nat.mod_lt k hn) hc
    · intro here
      rw [hsame]
      exact h k hk bytes (here ▸ hread)
    · intro
      exact h k hk

end RingLayout.Aimed

end FrameRing
