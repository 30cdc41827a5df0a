import FrameRing.Proofs.Frames
import FrameRing.Proofs.Geometry
import FrameRing.Proofs.SourceRing.Alike
import FrameRing.Proofs.SourceRing.Arming
import FrameRing.Proofs.SourceRing.DeviceCalls

/-! # What the device consumes

From any two positions in the pointer words, the device takes the entries between them in ring
order, one for each frame, and then none. A frame changes the front of one buffer and the tail word;
a call that is refused changes nothing. -/

namespace FrameRing

def RingLayout.entryAt? (l : RingLayout) (m : Window) (idx : Nat) : Option RingEntry :=
  (l.entryAddr? idx).bind fun addr => (m.read addr RingEntry.size).toOption.map RingEntry.ofBytes

namespace RingLayout

variable {l : RingLayout} {m : Window} {idx addr : Nat} {src : List UInt8} {entry : RingEntry}

theorem order_of_ofBase {base n stride : Nat} (h : ofBase base n stride = .ok l) :
    l.numEntries = n ∧ l.baseAddr ≤ l.headAddr ∧ l.tailAddr = l.headAddr + 4 ∧
      ∀ idx, idx < l.numEntries →
        l.baseAddr ≤ l.positionAddr idx ∧ l.positionAddr idx + RingEntry.size ≤ l.headAddr := by
  obtain ⟨⟨-, hstride⟩, rfl⟩ := ofBase_eq_ok_iff.mp h
  exact ⟨rfl, Nat.le_add_right _ _, rfl, fun _ hidx => positionAddr_before_head hstride rfl hidx⟩

theorem entryAt?_eq_some_iff :
    l.entryAt? m idx = some entry ↔ l.entryAddr? idx = some (l.positionAddr idx) ∧
      ∃ bytes, m.read (l.positionAddr idx) RingEntry.size = .ok bytes ∧
        RingEntry.ofBytes bytes = entry := by
  constructor
  · intro h
    obtain ⟨addr, haddr, hentry⟩ := Option.bind_eq_some_iff.mp h
    obtain ⟨-, rfl⟩ := entryAddr?_eq_some haddr
    refine ⟨haddr, ?_⟩
    change (m.read (l.positionAddr idx) RingEntry.size).toOption.map _ = _ at hentry
    cases hread : m.read (l.positionAddr idx) RingEntry.size with
    | error fault =>
      rw [hread] at hentry
      cases hentry
    | ok bytes =>
      rw [hread] at hentry
      exact ⟨bytes, rfl, Option.some.inj hentry⟩
  · rintro ⟨haddr, bytes, hread, rfl⟩
    rw [entryAt?, haddr, Option.bind_some, hread]
    rfl

theorem entryAt?_write (ho : idx < l.numEntries → l.positionAddr idx + RingEntry.size ≤ addr ∨
      addr + src.length ≤ l.positionAddr idx) :
    l.entryAt? (m.write addr src).2 idx = l.entryAt? m idx := by
  unfold entryAt?
  cases haddr : l.entryAddr? idx with
  | none => rfl
  | some a =>
    obtain ⟨hidx, rfl⟩ := entryAddr?_eq_some haddr
    have hread : (m.write addr src).2.read (l.baseAddr + idx * l.entrySize) RingEntry.size =
        m.read (l.baseAddr + idx * l.entrySize) RingEntry.size :=
      Window.read_write_of_apart (ho hidx)
    rw [Option.bind_some, Option.bind_some, hread]

end RingLayout

namespace Firmware

variable {fw : Firmware} {m m₀ : Window} {entry : RingEntry} {bytes : List UInt8}
  {n head tail published consumed : Nat}

theorem peek_of_armed {count : Nat} (h : fw.armed m = .ok count) (hpos : 0 < count)
    (htail : fw.tail m = .ok tail) (hentry : fw.layout.entryAt? m tail = some entry) :
    fw.peek m = .ok entry := by
  obtain ⟨haddr, bytes, hread, rfl⟩ := RingLayout.entryAt?_eq_some_iff.mp hentry
  have hnext : fw.tailEntryAddr m = .ok (fw.layout.positionAddr tail) := by
    simp only [tailEntryAddr, htail, haddr]
  exact peek_of_read h hpos hnext hread

theorem loadPointer_write {word addr : Nat} {src : List UInt8}
    (ho : word + 4 ≤ addr ∨ addr + src.length ≤ word) :
    fw.loadPointer (m.write addr src).2 word = fw.loadPointer m word := by
  rw [loadPointer, loadPointer, Window.loadWord, Window.loadWord, Window.read_write_of_apart ho]

theorem tail_write (hc : m.Covers fw.layout.tailAddr 4) (hlt : tail < 1 <<< 32) :
    fw.tail (m.write fw.layout.tailAddr (SourceRing.pointerBytes fw.flags tail)).2 = .ok tail := by
  have hlen := SourceRing.length_pointerBytes fw.flags tail
  exact loadPointer_eq (Window.shows_write (hlen.symm ▸ hc)) (Window.covers_write.mpr hc) hlt

/-- The buffer that an entry names lies in the window and does not meet the ring. -/
structure CanFill (fw : Firmware) (m : Window) (entry : RingEntry) : Prop where
  inside : m.Covers entry.busAddr fw.bufferSize
  apart : entry.busAddr + fw.bufferSize ≤ fw.layout.baseAddr ∨
    fw.layout.tailAddr + 4 ≤ entry.busAddr

/-- The bytes were put into the buffer that the entry names, the tail was moved, and all other
memory is as it was. -/
structure Consumed (fw : Firmware) (m : Window) (entry : RingEntry) (bytes : List UInt8)
    (tail : Nat) (m' : Window) : Prop where
  base : m'.base = m.base
  size : m'.size = m.size
  filled : m'.Shows entry.busAddr bytes
  moved : fw.tail m' = .ok tail
  kept : ∀ addr, (addr < entry.busAddr ∨ entry.busAddr + bytes.length ≤ addr) →
    (addr < fw.layout.tailAddr ∨ fw.layout.tailAddr + 4 ≤ addr) → m'.byteAt? addr = m.byteAt? addr

/-- Since the memory was `m₀`, the device went on to `consumed`, and it did nothing to the entries
and to the head word. -/
structure Backlog (fw : Firmware) (m₀ m : Window) (published consumed : Nat) : Prop where
  base : m.base = m₀.base
  size : m.size = m₀.size
  head : fw.head m = .ok (published % fw.layout.numEntries)
  tail : fw.tail m = .ok (consumed % fw.layout.numEntries)
  le : consumed ≤ published
  lt : published < consumed + fw.layout.numEntries
  entries : ∀ idx, fw.layout.entryAt? m idx = fw.layout.entryAt? m₀ idx

namespace Backlog

theorem start (hhead : fw.head m = .ok head) (htail : fw.tail m = .ok tail)
    (hh : head < fw.layout.numEntries) (ht : tail < fw.layout.numEntries) :
    fw.Backlog m m
      (tail + (head + fw.layout.numEntries - tail) % fw.layout.numEntries) tail := by
  have hmod := Nat.mod_lt (head + fw.layout.numEntries - tail) (Nat.zero_lt_of_lt ht)
  have hpos := position_of_steps (a := tail) hh
  rw [Nat.mod_eq_of_lt ht] at hpos
  exact {
    base := rfl
    size := rfl
    head := by rw [hpos, hhead]
    tail := by rw [Nat.mod_eq_of_lt ht, htail]
    le := Nat.le_add_right _ _
    lt := by omega
    entries := fun _ => rfl }

theorem covers (h : fw.Backlog m₀ m published consumed) {addr len : Nat} :
    m.Covers addr len ↔ m₀.Covers addr len := by
  rw [Window.Covers, Window.Covers, h.base, h.size]

theorem armed (h : fw.Backlog m₀ m published consumed) :
    fw.armed m = .ok (published - consumed) := by
  have hle := h.le
  have hlt := h.lt
  rw [armed_of_words h.head h.tail, steps_between hle hlt]

theorem peek (h : fw.Backlog m₀ m published consumed) (hlt : consumed < published)
    (hentry : fw.layout.entryAt? m₀ (consumed % fw.layout.numEntries) = some entry) :
    fw.peek m = .ok entry :=
  peek_of_armed h.armed (by omega) h.tail (by rw [h.entries, hentry])

theorem deliverRaw_done (h : fw.Backlog m₀ m published consumed) (hdone : consumed = published)
    (hlen : bytes.length ≤ fw.bufferSize) :
    fw.deliverRaw m bytes = (.error .nothingArmed, m) := by
  have hnone : fw.armed m = .ok 0 := by
    rw [h.armed, hdone, Nat.sub_self]
  rw [deliverRaw, if_neg (Nat.not_lt.mpr hlen), peek_of_none_armed hnone]

variable {base stride : Nat}

/-- A frame is taken by the oldest entry that is armed. -/
theorem deliverRaw_next (h : fw.Backlog m₀ m published consumed)
    (hl : RingLayout.ofBase base n stride = .ok fw.layout) (hn : n ≤ 1 <<< 31)
    (hlt : consumed < published)
    (hentry : fw.layout.entryAt? m₀ (consumed % fw.layout.numEntries) = some entry)
    (hbuf : fw.CanFill m₀ entry) (hlen : bytes.length ≤ fw.bufferSize) :
    ∃ m', fw.deliverRaw m bytes = (.ok entry, m') ∧
      fw.Consumed m entry bytes ((consumed + 1) % fw.layout.numEntries) m' ∧
      fw.Backlog m₀ m' published (consumed + 1) := by
  obtain ⟨hentries, hbase, hwords, hbefore⟩ := RingLayout.order_of_ofBase hl
  have hapart := hbuf.apart
  have hcov : m.Covers entry.busAddr bytes.length :=
    (h.covers.mpr hbuf.inside).sub (Nat.le_refl _) (by omega)
  obtain ⟨tail, htail, hdelivered⟩ := deliverRaw_eq_ok (h.peek hlt hentry) hlen hcov
  have hsame : fw.tail (m.write entry.busAddr bytes).2 = fw.tail m :=
    loadPointer_write (by omega)
  rw [hsame, h.tail] at htail
  cases htail
  rw [Nat.mod_add_mod] at hdelivered
  have hpos : (consumed + 1) % fw.layout.numEntries < 1 <<< 32 := by
    have hmod := Nat.mod_lt (consumed + 1) (show 0 < fw.layout.numEntries by have := h.lt; omega)
    omega
  have htailcov : (m.write entry.busAddr bytes).2.Covers fw.layout.tailAddr 4 :=
    Window.covers_write.mpr (covers_of_tail h.tail)
  have hword := SourceRing.length_pointerBytes fw.flags ((consumed + 1) % fw.layout.numEntries)
  have hmoved := tail_write htailcov hpos
  refine ⟨_, hdelivered, ?_, ?_⟩
  · constructor
    case base => rw [Window.base_write, Window.base_write]
    case size => rw [Window.size_write, Window.size_write]
    case filled => exact (Window.shows_write hcov).write (by omega)
    case moved => exact hmoved
    case kept =>
      intro addr hbuffer htailword
      rw [Window.byteAt?_write_of_outside (by omega), Window.byteAt?_write_of_outside hbuffer]
  · constructor
    case base => rw [Window.base_write, Window.base_write, h.base]
    case size => rw [Window.size_write, Window.size_write, h.size]
    case head =>
      have hkept : fw.head (((m.write entry.busAddr bytes).2.write fw.layout.tailAddr
          (SourceRing.pointerBytes fw.flags ((consumed + 1) % fw.layout.numEntries))).2) =
          fw.head m :=
        (loadPointer_write (by omega)).trans (loadPointer_write (by omega))
      rw [hkept, h.head]
    case tail => exact hmoved
    case le => exact hlt
    case lt => have := h.lt; omega
    case entries =>
      intro idx
      rw [RingLayout.entryAt?_write, RingLayout.entryAt?_write, h.entries]
      · intro hidx
        have hin := hbefore idx hidx
        omega
      · intro hidx
        have hin := hbefore idx hidx
        omega

end Backlog

def after (fw : Firmware) (m : Window) (frames : List (List UInt8)) : Window :=
  frames.foldl (fun m bytes => (fw.deliverRaw m bytes).2) m

theorem Backlog.run {base stride : Nat} (h : fw.Backlog m₀ m published consumed)
    (hl : RingLayout.ofBase base n stride = .ok fw.layout) (hn : n ≤ 1 <<< 31)
    (hready : ∀ k, consumed ≤ k → k < published → ∃ entry,
      fw.layout.entryAt? m₀ (k % fw.layout.numEntries) = some entry ∧ fw.CanFill m₀ entry)
    {frames : List (List UInt8)} (hfit : ∀ bytes ∈ frames, bytes.length ≤ fw.bufferSize) :
    fw.Backlog m₀ (fw.after m frames) published (min (consumed + frames.length) published) := by
  induction frames generalizing m consumed with
  | nil =>
    have hle := h.le
    have hstay : min (consumed + 0) published = consumed := by omega
    rw [List.length_nil, hstay]
    exact h
  | cons bytes frames ih =>
    have hfirst := hfit bytes List.mem_cons_self
    have hrest : ∀ bytes ∈ frames, bytes.length ≤ fw.bufferSize :=
      fun later hlater => hfit later (List.mem_cons_of_mem bytes hlater)
    rw [List.length_cons, after, List.foldl_cons]
    -- the counters decide: once the two have met, a frame leaves the invariant at the same place
    by_cases hlt : consumed < published
    · obtain ⟨entry, hentry, hbuf⟩ := hready consumed (Nat.le_refl _) hlt
      obtain ⟨m', hdelivered, -, hnext⟩ := h.deliverRaw_next hl hn hlt hentry hbuf hfirst
      have hrun := ih hnext (fun k hk => hready k (by omega)) hrest
      have hcount : min (consumed + 1 + frames.length) published =
          min (consumed + (frames.length + 1)) published := by omega
      rw [hcount] at hrun
      rw [hdelivered]
      exact hrun
    · have hle := h.le
      have hrun := ih h hready hrest
      have hcount : min (consumed + frames.length) published =
          min (consumed + (frames.length + 1)) published := by omega
      rw [hcount] at hrun
      rw [h.deliverRaw_done (by omega) hfirst]
      exact hrun

/-- What each of a list of frames meets. -/
theorem Backlog.deliverRaw_nth {base stride k : Nat} (h : fw.Backlog m₀ m published consumed)
    (hl : RingLayout.ofBase base n stride = .ok fw.layout) (hn : n ≤ 1 <<< 31)
    (hready : ∀ k, consumed ≤ k → k < published → ∃ entry,
      fw.layout.entryAt? m₀ (k % fw.layout.numEntries) = some entry ∧ fw.CanFill m₀ entry)
    {frames : List (List UInt8)} (hfit : ∀ bytes ∈ frames, bytes.length ≤ fw.bufferSize)
    (hk : frames[k]? = some bytes) :
    let before := fw.after m (frames.take k)
    (consumed + k < published → ∃ entry after,
      fw.layout.entryAt? m₀ ((consumed + k) % fw.layout.numEntries) = some entry ∧
      fw.deliverRaw before bytes = (.ok entry, after) ∧
      fw.Consumed before entry bytes ((consumed + k + 1) % fw.layout.numEntries) after) ∧
    (published ≤ consumed + k → fw.deliverRaw before bytes = (.error .nothingArmed, before)) := by
  intro before
  have hlen : bytes.length ≤ fw.bufferSize := hfit bytes (List.mem_of_getElem? hk)
  obtain ⟨hcount, -⟩ := List.getElem?_eq_some_iff.mp hk
  have hrun : fw.Backlog m₀ before published (min (consumed + (frames.take k).length) published) :=
    h.run hl hn hready fun earlier hearlier => hfit earlier (List.mem_of_mem_take hearlier)
  rw [List.length_take_of_le (Nat.le_of_lt hcount)] at hrun
  constructor
  · intro hlt
    rw [Nat.min_eq_left (Nat.le_of_lt hlt)] at hrun
    obtain ⟨entry, hentry, hbuf⟩ := hready (consumed + k) (Nat.le_add_right _ _) hlt
    obtain ⟨after, hdelivered, hconsumed, -⟩ := hrun.deliverRaw_next hl hn hlt hentry hbuf hlen
    exact ⟨entry, after, hentry, hdelivered, hconsumed⟩
  · intro hle
    rw [Nat.min_eq_right hle] at hrun
    exact hrun.deliverRaw_done rfl hlen

structure Rewritten (fw : Firmware) (m : Window) (tail cookie : Nat) (m' : Window) : Prop where
  base : m'.base = m.base
  size : m'.size = m.size
  headWord : fw.head m' = fw.head m
  tailWord : fw.tail m' = fw.tail m
  forged : ∃ entry forged, fw.peek m = .ok entry ∧ fw.peek m' = .ok forged ∧
    forged.busAddr = entry.busAddr ∧ forged.rbm = entry.rbm ∧ forged.cookie = cookie
  kept : ∀ addr, (addr < fw.layout.positionAddr tail ∨
    fw.layout.positionAddr tail + RingEntry.size ≤ addr) → m'.byteAt? addr = m.byteAt? addr

theorem peek_isOk_iff {count : Nat} (h : fw.armed m = .ok count) (htail : fw.tail m = .ok tail)
    (hready : 0 < count → ∃ entry, fw.layout.entryAt? m tail = some entry) :
    (∃ entry, fw.peek m = .ok entry) ↔ 0 < count := by
  constructor
  · rintro ⟨entry, hpeek⟩
    obtain ⟨count', harmed, hpos⟩ := armed_of_peek hpeek
    rw [h] at harmed
    cases harmed
    exact hpos
  · intro hpos
    obtain ⟨entry, hentry⟩ := hready hpos
    exact ⟨entry, peek_of_armed h hpos htail hentry⟩

theorem rewriteCookie_isOk_iff (fw : Firmware) (m : Window) (cookie : Nat) :
    (fw.rewriteCookie m cookie).1 = .ok () ↔
      (∃ entry, fw.peek m = .ok entry) ∧ cookie ≤ RingEntry.maxCookie := by
  constructor
  · intro h
    rcases fw.rewriteCookie_cases m cookie with
      ⟨e, he⟩ | ⟨entry, forged, tail, hpeek, -, hfields, -, -⟩
    · rw [he] at h
      cases h
    · have hcookie := forged.cookie_lt
      rw [(RingEntry.ofFields_eq_ok hfields).2.1] at hcookie
      exact ⟨⟨entry, hpeek⟩, Nat.le_pred_of_lt hcookie⟩
  · rintro ⟨⟨entry, hpeek⟩, hcookie⟩
    have haddr : entry.busAddr ≤ RingEntry.maxBusAddr := Nat.le_pred_of_lt entry.busAddr_lt
    obtain ⟨forged, hfields⟩ : ∃ forged,
        RingEntry.ofFields entry.busAddr cookie entry.rbm = .ok forged :=
      RingEntry.ofFields_of_le haddr hcookie
    obtain ⟨tail, -, -, hrewritten⟩ := rewriteCookie_eq_ok hpeek hfields
    rw [hrewritten]

theorem rewriteCookie_rewritten {base stride cookie : Nat}
    (hl : RingLayout.ofBase base n stride = .ok fw.layout) (htail : fw.tail m = .ok tail)
    (h : (fw.rewriteCookie m cookie).1 = .ok ()) :
    fw.Rewritten m tail cookie (fw.rewriteCookie m cookie).2 := by
  rcases fw.rewriteCookie_cases m cookie with
    ⟨e, he⟩ | ⟨entry, forged, tail', hpeek, htail', hfields, hc, he⟩
  · rw [he] at h
    cases h
  rw [htail] at htail'
  cases htail'
  rw [he]
  obtain ⟨haddr, hcookie, hrbm⟩ := RingEntry.ofFields_eq_ok hfields
  rw [Nat.mod_eq_of_lt entry.rbm_lt] at hrbm
  obtain ⟨-, -, hwords, hbefore⟩ := RingLayout.order_of_ofBase hl
  obtain ⟨tail', -, htail', hlt, hnext, -⟩ := peek_eq_ok hpeek
  rw [htail] at htail'
  cases htail'
  have hlen := forged.length_toBytes
  have hpos := hbefore tail hlt
  have hhead : fw.head (m.write (fw.layout.positionAddr tail) forged.toBytes).2 = fw.head m :=
    loadPointer_write (by omega)
  have htail_kept : fw.tail (m.write (fw.layout.positionAddr tail) forged.toBytes).2 = fw.tail m :=
    loadPointer_write (by omega)
  have harmed : fw.armed (m.write (fw.layout.positionAddr tail) forged.toBytes).2 = fw.armed m := by
    rw [armed, armed, hhead, htail_kept]
  constructor
  case base => exact Window.base_write
  case size => exact Window.size_write
  case headWord => exact hhead
  case tailWord => exact htail_kept
  case kept =>
    intro addr ho
    exact Window.byteAt?_write_of_outside (by omega)
  case forged =>
    refine ⟨entry, forged, hpeek, ?_, haddr, hrbm, hcookie⟩
    obtain ⟨count, hcount, hsome⟩ := armed_of_peek hpeek
    have hthere : fw.tailEntryAddr (m.write (fw.layout.positionAddr tail) forged.toBytes).2 =
        .ok (fw.layout.positionAddr tail) := by
      rw [← hnext, tailEntryAddr, tailEntryAddr, htail_kept]
    have hread := Window.read_write_self (hlen.symm ▸ hc)
    rw [hlen] at hread
    rw [peek_of_read (harmed.trans hcount) hsome hthere hread, RingEntry.ofBytes_toBytes]

/-- Between two positions of the pointer words lie the armed entries. If each of them names a
buffer in the window that does not meet the ring, then frames that fit are taken by these entries
in ring order, each frame by one of them, and any later frame finds nothing armed. The entry at the
tail gets another cookie exactly if there is one and the cookie fits. A frame with a header is
delivered as its bytes, and a call that is refused leaves the memory as it is, whatever is in it. -/
theorem consumes_in_ring_order {base stride : Nat}
    (hl : RingLayout.ofBase base n stride = .ok fw.layout) (hn : n ≤ 1 <<< 31)
    (hhead : fw.head m = .ok head) (htail : fw.tail m = .ok tail) (hh : head < n) (ht : tail < n) :
    let armed := (head + n - tail) % n
    ((∀ k, k < armed → ∃ entry, fw.layout.entryAt? m ((tail + k) % n) = some entry ∧
        fw.CanFill m entry) →
      (∀ frames : List (List UInt8), (∀ bytes ∈ frames, bytes.length ≤ fw.bufferSize) →
        ∀ k bytes, frames[k]? = some bytes →
          let before := fw.after m (frames.take k)
          (k < armed → ∃ entry after, fw.layout.entryAt? m ((tail + k) % n) = some entry ∧
            fw.deliverRaw before bytes = (.ok entry, after) ∧
            fw.Consumed before entry bytes ((tail + k + 1) % n) after) ∧
          (armed ≤ k → fw.deliverRaw before bytes = (.error .nothingArmed, before))) ∧
      ∀ cookie,
        ((fw.rewriteCookie m cookie).1 = .ok () ↔ 0 < armed ∧ cookie ≤ RingEntry.maxCookie) ∧
        ((fw.rewriteCookie m cookie).1 = .ok () →
          fw.Rewritten m tail cookie (fw.rewriteCookie m cookie).2)) ∧
    (∀ payload, (payload.length ≤ 65535 →
        fw.deliverFrame m payload = fw.deliverRaw m (frameBytes payload)) ∧
      (65535 < payload.length →
        fw.deliverFrame m payload = (.error (.frameTooLarge payload.length), m))) ∧
    (∀ bytes e, (fw.deliverRaw m bytes).1 = .error e → (fw.deliverRaw m bytes).2 = m) ∧
    (∀ payload e, (fw.deliverFrame m payload).1 = .error e → (fw.deliverFrame m payload).2 = m) ∧
    (∀ cookie e, (fw.rewriteCookie m cookie).1 = .error e → (fw.rewriteCookie m cookie).2 = m) ∧
    (∀ position e, (fw.setTail m position).1 = .error e → (fw.setTail m position).2 = m) := by
  obtain ⟨rfl, -⟩ := RingLayout.order_of_ofBase hl
  intro armed
  refine ⟨fun hready => ⟨?_, fun cookie => ⟨?_, rewriteCookie_rewritten hl htail⟩⟩, fun payload =>
    ⟨?_, ?_⟩, fun _ _ => deliverRaw_error, fun _ _ => deliverFrame_error,
    fun _ _ => rewriteCookie_error, fun _ _ => setTail_error⟩
  · intro frames hfit k bytes hk before
    have haims : ∀ position, tail ≤ position → position < tail + armed → ∃ entry,
        fw.layout.entryAt? m (position % fw.layout.numEntries) = some entry ∧
          fw.CanFill m entry := by
      intro position hlow hhigh
      have hnth := hready (position - tail) (by omega)
      rwa [Nat.add_sub_cancel' hlow] at hnth
    obtain ⟨htaken, hnone⟩ :=
      (Backlog.start hhead htail hh ht).deliverRaw_nth hl hn haims hfit hk
    exact ⟨fun hlt => htaken (Nat.add_lt_add_left hlt tail),
      fun hle => hnone (Nat.add_le_add_left hle tail)⟩
  · rw [rewriteCookie_isOk_iff, peek_isOk_iff (armed_of_words hhead htail) htail]
    intro hpos
    obtain ⟨entry, hentry, -⟩ := hready 0 hpos
    rw [Nat.add_zero, Nat.mod_eq_of_lt ht] at hentry
    exact ⟨entry, hentry⟩
  · intro hfits
    have hmax : ¬ FrameHeader.maxPayload < payload.length := Nat.not_lt.mpr hfits
    rw [deliverFrame, if_neg hmax, frameBytes]
  · intro hlong
    have hmax : FrameHeader.maxPayload < payload.length := hlong
    rw [deliverFrame, if_pos hmax]

/-- Two entries are armed, the last one and the first one. -/
theorem consumes_in_ring_order_wrapped :
    let fw : Firmware := ⟨⟨4096, 4, 8, 4128, 4132⟩, ⟨false, true, 0⟩, 32⟩
    let last : RingEntry := RingEntry.ofWord (4160 + (1 <<< 43) * 7)
    let first : RingEntry := RingEntry.ofWord (4192 + (1 <<< 43) * 9)
    let m : Window := ⟨4096, (first.toBytes ++ List.replicate 16 0 ++ last.toBytes ++
      [0, 0, 0, 1, 0, 0, 0, 3] ++ List.replicate 88 0).toArray⟩
    let m₁ := fw.after m [[1, 2, 3]]
    let m₂ := fw.after m [[1, 2, 3], [4, 5]]
    (∃ m', fw.deliverRaw m [1, 2, 3] = (.ok last, m') ∧ fw.Consumed m last [1, 2, 3] 0 m') ∧
      (∃ m', fw.deliverRaw m₁ [4, 5] = (.ok first, m') ∧ fw.Consumed m₁ first [4, 5] 1 m') ∧
      fw.deliverRaw m₂ [6] = (.error .nothingArmed, m₂) ∧
      (fw.rewriteCookie m 1).1 = .ok () ∧ fw.Rewritten m 3 1 (fw.rewriteCookie m 1).2 := by
  intro fw last first m m₁ m₂
  have hl : RingLayout.ofBase 4096 4 8 = .ok fw.layout := rfl
  have hwords : ∀ i, i < 4 → m.byteAt? (4128 + i) = (SourceRing.pointerBytes fw.flags 1)[i]? ∧
      m.byteAt? (4132 + i) = (SourceRing.pointerBytes fw.flags 3)[i]? := by decide +kernel
  have hhead : fw.head m = .ok 1 :=
    loadPointer_eq (fun i hi => (hwords i hi).1) (by decide +kernel) (by decide)
  have htail : fw.tail m = .ok 3 :=
    loadPointer_eq (fun i hi => (hwords i hi).2) (by decide +kernel) (by decide)
  obtain ⟨hrun, -⟩ :=
    consumes_in_ring_order hl (by decide) hhead htail (by decide) (by decide)
  have hready : ∀ k, k < 2 → ∃ entry,
      fw.layout.entryAt? m ((3 + k) % 4) = some entry ∧ fw.CanFill m entry := by
    intro k hk
    match k, hk with
    | 0, _ => exact ⟨last, by decide +kernel, by decide +kernel, by decide +kernel⟩
    | 1, _ => exact ⟨first, by decide +kernel, by decide +kernel, by decide +kernel⟩
  obtain ⟨hdeliver, hcookie⟩ := hrun hready
  have hfit : ∀ bytes ∈ ([[1, 2, 3], [4, 5], [6]] : List (List UInt8)),
      bytes.length ≤ fw.bufferSize := by decide
  obtain ⟨hzero, -⟩ := hdeliver _ hfit 0 _ rfl
  obtain ⟨hone, -⟩ := hdeliver _ hfit 1 _ rfl
  obtain ⟨-, htwo⟩ := hdeliver _ hfit 2 _ rfl
  have hlast : fw.layout.entryAt? m 3 = some last := by decide +kernel
  have hfirst : fw.layout.entryAt? m 0 = some first := by decide +kernel
  obtain ⟨e₀, m₀', he₀, h₀⟩ := hzero (by decide)
  obtain ⟨e₁, m₁', he₁, h₁⟩ := hone (by decide)
  cases hlast.symm.trans he₀
  cases hfirst.symm.trans he₁
  obtain ⟨hiff, hrewritten⟩ := hcookie 1
  have hok := hiff.mpr (by decide)
  exact ⟨⟨m₀', h₀⟩, ⟨m₁', h₁⟩, htwo (by decide), hok, hrewritten hok⟩

end Firmware

end FrameRing
