import FrameRing.Proofs.SourceRing.Alike
import FrameRing.Proofs.SourceRing.Soundness

/-! # The other byte order

Two rings that store their pointer words in opposite byte orders, on two memories that mirror each
other: the same bytes, but those of the two pointer words in reverse. Every call answers alike on
both sides and leaves memories that mirror each other. -/

namespace FrameRing

theorem LittleEndian.encode_swapWord (word : Nat) :
    encode 4 (swapWord word) = (encode 4 word).reverse := by
  have h := encode_decode (encode 4 word).reverse
  rwa [List.length_reverse, length_encode] at h

theorem LittleEndian.decode_reverse {bs : List UInt8} (h : bs.length = 4) :
    decode bs.reverse = swapWord (decode bs) := by
  have hback := encode_decode bs
  rw [h] at hback
  rw [swapWord, hback]

def RingFlags.flipSwap (f : RingFlags) : RingFlags := { f with pointerSwap := !f.pointerSwap }

def Registration.flipSwap (reg : Registration) : Registration :=
  { reg with flags := reg.flags.flipSwap }

def SourceRing.flipSwap (r : SourceRing) : SourceRing := { r with flags := r.flags.flipSwap }

def RingLayout.IsWord (l : RingLayout) (addr : Nat) : Prop :=
  addr = l.headAddr ∨ addr = l.tailAddr

/-- None of the bytes belongs to a pointer word. -/
def RingLayout.SparesWords (l : RingLayout) (addr len : Nat) : Prop :=
  addr + len ≤ l.headAddr ∨ l.tailAddr + 4 ≤ addr

namespace Window

/-- The same bytes, but those of the two pointer words in reverse. -/
structure Mirrors (l : RingLayout) (m m' : Window) : Prop where
  base : m.base = m'.base
  size : m.size = m'.size
  same : ∀ addr, ¬ l.headWord.Contains addr → ¬ l.tailWord.Contains addr →
    m.byteAt? addr = m'.byteAt? addr
  words : ∀ addr, l.IsWord addr → m'.read addr 4 = (m.read addr 4).map List.reverse

variable {l : RingLayout} {m m' : Window} {addr len : Nat} {src : List UInt8}

theorem read_congr (hbase : m.base = m'.base) (hsize : m.size = m'.size)
    (h : ∀ i, i < len → m.byteAt? (addr + i) = m'.byteAt? (addr + i)) :
    m.read addr len = m'.read addr len := by
  have hcovers : m.Covers addr len ↔ m'.Covers addr len := by
    rw [Covers, Covers, hbase, hsize]
  by_cases hc : m.Covers addr len
  · obtain ⟨bs, hr⟩ := exists_read (hcovers.mp hc)
    obtain ⟨-, hlen, hshows⟩ := read_eq_ok_iff.mp hr
    rw [hr]
    refine read_eq_ok_iff.mpr ⟨hc, hlen, ?_⟩
    intro i hi
    rw [h i (hlen ▸ hi)]
    exact hshows i hi
  · rw [Window.read, if_neg hc, Window.read, if_neg fun hc' => hc (hcovers.mpr hc')]

theorem loadWord_lt {word : Nat} (h : m.loadWord addr = .ok word) : word < 1 <<< 32 := by
  unfold loadWord at h
  cases hr : m.read addr 4 with
  | error e =>
    rw [hr] at h
    cases h
  | ok bs =>
    obtain ⟨-, hlen, -⟩ := read_eq_ok_iff.mp hr
    have hd := LittleEndian.decode_lt bs
    rw [hr] at h
    cases h
    rwa [hlen] at hd

theorem loadWord_reversed (h : m'.read addr 4 = (m.read addr 4).map List.reverse) :
    m'.loadWord addr = (m.loadWord addr).map LittleEndian.swapWord := by
  rw [loadWord, loadWord, h]
  cases hr : m.read addr 4 with
  | error e => rfl
  | ok bs =>
    obtain ⟨-, hlen, -⟩ := read_eq_ok_iff.mp hr
    exact congrArg Except.ok (LittleEndian.decode_reverse hlen)

namespace Mirrors

theorem reset (hhead : m.loadWord l.headAddr = .ok 0) (htail : m.loadWord l.tailAddr = .ok 0) :
    Mirrors l m m := by
  have hzero {addr : Nat} (h : m.loadWord addr = .ok 0) :
      m.read addr 4 = .ok (LittleEndian.encode 4 0) := by
    obtain ⟨hc, hshows⟩ := (loadWord_eq_ok_iff (by decide)).mp h
    exact read_eq_ok_iff.mpr ⟨hc, LittleEndian.length_encode 4 0, hshows⟩
  refine ⟨rfl, rfl, fun _ _ _ => rfl, ?_⟩
  intro addr hword
  have hread : m.read addr 4 = .ok (LittleEndian.encode 4 0) := by
    rcases hword with rfl | rfl
    · exact hzero hhead
    · exact hzero htail
  rw [hread]
  rfl

theorem covers (h : Mirrors l m m') : m.Covers addr len ↔ m'.Covers addr len := by
  rw [Covers, Covers, h.base, h.size]

theorem read (h : Mirrors l m m') (hl : l.tailAddr = l.headAddr + 4)
    (hclear : l.SparesWords addr len) : m.read addr len = m'.read addr len := by
  apply read_congr h.base h.size
  intro i hi
  have hsize : RingLayout.wordSize = 4 := rfl
  apply h.same
  all_goals
    simp only [Allocation.Contains, RingLayout.headWord, RingLayout.tailWord]
    rw [RingLayout.SparesWords] at hclear
    omega

theorem write (h : Mirrors l m m') (hl : l.tailAddr = l.headAddr + 4)
    (hclear : l.SparesWords addr src.length) :
    Mirrors l (m.write addr src).2 (m'.write addr src).2 := by
  rw [RingLayout.SparesWords] at hclear
  refine ⟨?_, ?_, ?_, ?_⟩
  · rw [base_write, base_write, h.base]
  · rw [size_write, size_write, h.size]
  · intro x hhead htail
    have hsame := h.same x hhead htail
    by_cases hc : m.Covers addr src.length
    · rw [byteAt?_write hc, byteAt?_write (h.covers.mp hc), hsame]
    · rw [Window.write, if_neg hc, Window.write, if_neg fun hc' => hc (h.covers.mpr hc')]
      exact hsame
  · intro x hx
    have hapart : x + 4 ≤ addr ∨ addr + src.length ≤ x := by
      rcases hx with rfl | rfl
      · omega
      · omega
    rw [read_write_of_apart hapart, read_write_of_apart hapart, h.words x hx]

theorem store (h : Mirrors l m m') (hl : l.tailAddr = l.headAddr + 4) (hword : l.IsWord addr)
    (hc : m.Covers addr src.length) (hs : src.length = 4) :
    Mirrors l (m.write addr src).2 (m'.write addr src.reverse).2 := by
  have hrev : src.reverse.length = 4 := by rw [List.length_reverse, hs]
  have hc' : m'.Covers addr src.reverse.length := by
    rw [List.length_reverse]
    exact h.covers.mp hc
  refine ⟨?_, ?_, ?_, ?_⟩
  · rw [base_write, base_write, h.base]
  · rw [size_write, size_write, h.size]
  · intro x hhead htail
    have hout : x < addr ∨ addr + 4 ≤ x := by
      simp only [Allocation.Contains, RingLayout.headWord, RingLayout.tailWord,
        RingLayout.wordSize] at hhead htail
      rcases hword with rfl | rfl
      · omega
      · omega
    rw [byteAt?_write_of_outside (by omega), byteAt?_write_of_outside (by omega)]
    exact h.same x hhead htail
  · intro x hx
    by_cases here : x = addr
    · have hread := read_write_self hc
      have hread' := read_write_self hc'
      rw [hs] at hread
      rw [hrev] at hread'
      rw [here, hread, hread']
      rfl
    · have hapart : x + 4 ≤ addr ∨ addr + 4 ≤ x := by
        rcases hx with rfl | rfl
        · rcases hword with rfl | rfl
          · omega
          · omega
        · rcases hword with rfl | rfl
          · omega
          · omega
      rw [read_write_of_apart (by omega), read_write_of_apart (by omega), h.words x hx]

end Mirrors

end Window

theorem HostMemory.loadWord_lt {m : HostMemory} {addr word : Nat}
    (h : m.loadWord addr = .ok word) : word < 1 <<< 32 := by
  unfold HostMemory.loadWord at h
  split at h
  · cases h
  · exact Window.loadWord_lt h

structure HostMemory.Mirrors (l : RingLayout) (m m' : HostMemory) : Prop
    extends Window.Mirrors l m.window m'.window where
  faults : m.faults = m'.faults

namespace HostMemory.Mirrors

variable {l : RingLayout} {m m' : HostMemory} {addr len : Nat}

theorem alike (h : Mirrors l m m') : m.Alike m' := ⟨h.base, h.size, h.faults⟩

theorem read (h : Mirrors l m m') (hl : l.tailAddr = l.headAddr + 4)
    (hclear : l.SparesWords addr len) : m.read addr len = m'.read addr len :=
  h.alike.read (h.toMirrors.read hl hclear)

theorem loadWord (h : Mirrors l m m') (hword : l.IsWord addr) :
    m'.loadWord addr = (m.loadWord addr).map LittleEndian.swapWord := by
  rw [HostMemory.loadWord, HostMemory.loadWord]
  by_cases hb : m.Blocked .load addr 4
  · rw [if_pos hb, if_pos ((h.alike.blocked .load).mp hb)]
    rfl
  · rw [if_neg hb, if_neg fun hb' => hb ((h.alike.blocked .load).mpr hb')]
    exact Window.loadWord_reversed (h.words addr hword)

/-- The same bytes went to the same place, and no pointer word was under them. -/
theorem together (h : Mirrors l m m') (hl : l.tailAddr = l.headAddr + 4) {a : Allocation}
    (hclear : l.SparesWords a.addr a.len) {after after' : HostMemory}
    (ht : Together a m m' after after') : Mirrors l after after' := by
  rcases ht with ⟨rfl, rfl⟩ | ⟨addr, src, hlow, hhigh, rfl, rfl⟩
  · exact h
  · refine ⟨h.toMirrors.write hl ?_, h.faults⟩
    rw [RingLayout.SparesWords] at hclear ⊢
    omega

end HostMemory.Mirrors

namespace SourceRing

variable {r : SourceRing} {a : Allocation} {l : RingLayout} {m m' : HostMemory} {flags : RingFlags}

theorem pointerBytes_flipSwap (flags : RingFlags) (position : Nat) :
    pointerBytes flags.flipSwap position = (pointerBytes flags position).reverse := by
  obtain ⟨low, swap, other⟩ := flags
  cases swap with
  | false => exact LittleEndian.encode_swapWord position
  | true =>
    have h := congrArg List.reverse (LittleEndian.encode_swapWord position)
    rw [List.reverse_reverse] at h
    exact h.symm

theorem pointerWord_flipSwap (flags : RingFlags) {word : Nat} (hw : word < 1 <<< 32) :
    pointerWord flags.flipSwap (LittleEndian.swapWord word) = pointerWord flags word := by
  obtain ⟨low, swap, other⟩ := flags
  cases swap with
  | false => exact LittleEndian.swapWord_swapWord hw
  | true => rfl

theorem create_flipSwap (reg : Registration) (rbm : Nat) (m : HostMemory) :
    create reg.flipSwap rbm m = ((create reg rbm m).1.map flipSwap, (create reg rbm m).2) := by
  have hstore (m : HostMemory) (addr : Nat) :
      storePointer reg.flags.flipSwap m addr 0 = storePointer reg.flags m addr 0 := by
    simp only [storePointer_eq, pointerBytes_zero]
  have hbase : reg.flipSwap.ringBase = reg.ringBase := rfl
  have hentries : reg.flipSwap.numEntries = reg.numEntries := rfl
  have hstride : reg.flipSwap.entrySize = reg.entrySize := rfl
  have hflags : reg.flipSwap.flags = reg.flags.flipSwap := rfl
  simp only [create, hbase, hentries, hstride, hflags, hstore]
  by_cases hinvalid : reg.numEntries < 2 ∨ RingEntry.maxRbm < rbm
  · simp only [if_pos hinvalid]
    rfl
  simp only [if_neg hinvalid]
  cases RingLayout.ofBase reg.ringBase reg.numEntries reg.entrySize with
  | error e => rfl
  | ok layout =>
    simp only
    rcases storePointer reg.flags m layout.headAddr 0 with ⟨_ | _, m₁⟩
    · rfl
    · simp only
      rcases storePointer reg.flags m₁ layout.tailAddr 0 with ⟨_ | _, m₂⟩
      · rfl
      · rfl

theorem storePointer_flipSwap (h : m.Mirrors l m') (hl : l.tailAddr = l.headAddr + 4) {addr : Nat}
    (hword : l.IsWord addr) (flags : RingFlags) (position : Nat) :
    let out := storePointer flags m addr position
    let out' := storePointer flags.flipSwap m' addr position
    out.1 = out'.1 ∧ out.2.Mirrors l out'.2 := by
  simp only [storePointer_eq, ← h.alike.blocked, ← h.alike.covers, pointerBytes_flipSwap]
  by_cases hrefused : m.Blocked .store addr 4 ∨ ¬ m.window.Covers addr 4
  · rw [if_pos hrefused, if_pos hrefused]
    exact ⟨rfl, h⟩
  · rw [if_neg hrefused, if_neg hrefused]
    have hlen := length_pointerBytes flags position
    have hc : m.window.Covers addr (pointerBytes flags position).length := by
      rw [hlen]
      exact Decidable.not_not.mp (not_or.mp hrefused).2
    exact ⟨rfl, h.toMirrors.store hl hword hc hlen, h.faults⟩

theorem loadTail_flipSwap (r : SourceRing) (h : m.Mirrors r.layout m') :
    r.flipSwap.loadTail m' = r.loadTail m := by
  have htail : r.layout.IsWord r.layout.tailAddr := .inr rfl
  have hload := h.loadWord htail
  have hlayout : r.flipSwap.layout = r.layout := rfl
  have hflags : r.flipSwap.flags = r.flags.flipSwap := rfl
  rw [loadTail, loadTail, hlayout, hflags, hload]
  cases hword : m.loadWord r.layout.tailAddr with
  | error e => rfl
  | ok word =>
    simp only [Except.map, pointerWord_flipSwap r.flags (HostMemory.loadWord_lt hword)]
    rfl

theorem accessBegin_flipSwap (r : SourceRing) (h : m.Mirrors r.layout m') :
    r.flipSwap.accessBegin m' =
      ((r.accessBegin m).1, (r.accessBegin m).2.flipSwap) := by
  have hload := r.loadTail_flipSwap h
  have hopen : r.flipSwap.inAccess = r.inAccess := rfl
  rw [accessBegin, accessBegin, hload, hopen]
  by_cases hs : r.inAccess = true
  · rw [if_pos hs, if_pos hs]
  · rw [if_neg hs, if_neg hs]
    cases r.loadTail m with
    | error e => rfl
    | ok tail => rfl

theorem thresholdReached_flipSwap (r : SourceRing) (h : m.Mirrors r.layout m') :
    r.flipSwap.thresholdReached m' = r.thresholdReached m := by
  have hload := r.loadTail_flipSwap h
  unfold thresholdReached
  rw [hload]
  rfl

theorem accessEnd_flipSwap (r : SourceRing) (h : m.Mirrors r.layout m')
    (hl : r.layout.tailAddr = r.layout.headAddr + 4) (journal : Array LogEvent) :
    let out := r.accessEnd ⟨m, journal⟩
    let out' := r.flipSwap.accessEnd ⟨m', journal⟩
    out'.1 = out.1.flipSwap ∧ out.2.journal = out'.2.journal ∧
      out.2.memory.Mirrors r.layout out'.2.memory := by
  obtain ⟨hstored, hmirrors⟩ := storePointer_flipSwap h hl (.inl rfl) r.flags r.head
  refine ⟨?_, ?_⟩
  · rw [accessEnd_ring, accessEnd_ring]
    rfl
  by_cases hs : r.inAccess = true
  · simp only [accessEnd, flipSwap, hs, if_true]
    generalize storePointer r.flags m r.layout.headAddr r.head = out at hstored hmirrors ⊢
    generalize storePointer r.flags.flipSwap m' r.layout.headAddr r.head = out'
      at hstored hmirrors ⊢
    obtain ⟨result, after⟩ := out
    obtain ⟨result', after'⟩ := out'
    obtain rfl : result = result' := hstored
    cases result with
    | ok => exact ⟨rfl, hmirrors⟩
    | error e => exact ⟨rfl, hmirrors⟩
  · simp only [accessEnd, flipSwap, hs]
    exact ⟨rfl, h⟩

theorem spares_position {l : RingLayout} (hl : l.Inside a) {idx : Nat} (hi : idx < l.numEntries) :
    l.SparesWords (l.positionAddr idx) RingEntry.size :=
  .inl (hl.entry hi).2

theorem nextEntry_flipSwap (r : SourceRing) (h : m.Mirrors r.layout m') (hl : r.layout.Inside a)
    (journal : Array LogEvent) :
    (r.flipSwap.nextEntry ⟨m', journal⟩).1 = (r.nextEntry ⟨m, journal⟩).1 ∧
      (r.nextEntry ⟨m, journal⟩).2.journal = (r.flipSwap.nextEntry ⟨m', journal⟩).2.journal := by
  change (r.nextEntry ⟨m', journal⟩).1 = _ ∧ _ = (r.nextEntry ⟨m', journal⟩).2.journal
  unfold nextEntry
  by_cases hnone : r.inAccess = false ∨ r.next r.reapHead = r.cachedTail
  · simp only [hnone, if_true, and_self]
  simp only [hnone, if_false]
  cases haddr : r.layout.entryAddr? (r.next r.reapHead) with
  | none => exact ⟨rfl, rfl⟩
  | some addr =>
    obtain ⟨hi, rfl⟩ := RingLayout.entryAddr?_eq_some haddr
    have hread := h.read hl.words.2.1 (spares_position hl hi)
    rw [RingLayout.positionAddr] at hread
    simp only [hread]
    cases m'.read (r.layout.baseAddr + r.next r.reapHead * r.layout.entrySize) RingEntry.size with
    | ok bytes => exact ⟨rfl, rfl⟩
    | error e => exact ⟨rfl, rfl⟩

theorem flipSwap_setEntry (r : SourceRing) (m : HostMemory) (res : Reservation)
    (busAddr cookie : Nat) :
    r.flipSwap.setEntry m res busAddr cookie =
      ((r.setEntry m res busAddr cookie).1, (r.setEntry m res busAddr cookie).2.1.flipSwap,
        (r.setEntry m res busAddr cookie).2.2) := by
  have hcurrent : r.flipSwap.Current res ↔ r.Current res := Iff.rfl
  have hopen : r.flipSwap.inAccess = r.inAccess := rfl
  have hroom : r.flipSwap.head = r.flipSwap.reapHeadAfter res ↔ r.head = r.reapHeadAfter res :=
    Iff.rfl
  simp only [setEntry, hcurrent, hopen, hroom]
  by_cases hs : r.inAccess = false
  · simp only [if_pos hs]
  by_cases hc : ¬ r.Current res
  · simp only [if_neg hs, if_pos hc]
  by_cases hfull : r.head = r.reapHeadAfter res
  · simp only [if_neg hs, if_neg hc, if_pos hfull]
  simp only [if_neg hs, if_neg hc, if_neg hfull]
  have hrbm : r.flipSwap.rbm = r.rbm := rfl
  rw [hrbm]
  cases RingEntry.ofFields busAddr cookie r.rbm with
  | error e => rfl
  | ok entry =>
    have haddr : r.flipSwap.layout.entryAddr? r.flipSwap.head = r.layout.entryAddr? r.head := rfl
    simp only [haddr]
    cases r.layout.entryAddr? r.head with
    | none => rfl
    | some addr =>
      simp only
      rcases m.write addr entry.toBytes with ⟨_ | _, after⟩
      · rfl
      · rfl

/-- The same entry is armed on both sides, or refused on both. -/
theorem setEntry_flipSwap (h : m.Mirrors r.layout m') (hr : r.Sound a) (res : Reservation)
    (busAddr cookie : Nat) :
    let out := r.setEntry m res busAddr cookie
    let out' := r.flipSwap.setEntry m' res busAddr cookie
    out.1 = out'.1 ∧ out'.2.1 = out.2.1.flipSwap ∧ out.2.2.Mirrors r.layout out'.2.2 := by
  have hlike : res.Like res := ⟨rfl, rfl, rfl⟩
  obtain ⟨hresult, hring, htogether⟩ := r.setEntry_together h.alike hlike busAddr cookie
  simp only [flipSwap_setEntry]
  exact ⟨hresult, congrArg flipSwap hring.symm,
    h.together hr.inside.words.2.1 (spares_position hr.inside hr.head_lt) htogether⟩

end SourceRing

end FrameRing
