import FrameRing.Stack
import FrameRing.Proofs.SourceRing.Pointers

/-! # Which tails are taken over

The tail word is the device's to write, and it may hold anything. It is taken over exactly if it is
a position on the way from the last tail to the head; otherwise nothing changes, neither in the
source ring nor in a receive ring that is driven by it. -/

namespace FrameRing

namespace Window

variable {m : Window} {addr : Nat} {src src' : List UInt8}

theorem overlay_overlay {cells : Array UInt8} {start : Nat} (hlen : src.length = src'.length)
    (hfits : start + src.length ≤ cells.size) :
    overlay (overlay cells start src) start src' = overlay cells start src' := by
  have hfits' : start + src'.length ≤ cells.size := hlen ▸ hfits
  have hagain : start + src'.length ≤ (overlay cells start src).size := by rwa [size_overlay]
  apply Array.ext_getElem?
  intro i
  rw [getElem?_overlay _ _ _ _ hagain, getElem?_overlay _ _ _ _ hfits']
  by_cases hin : start ≤ i ∧ i < start + src'.length
  · rw [if_pos hin, if_pos hin]
  · rw [if_neg hin, if_neg hin, getElem?_overlay _ _ _ _ hfits, hlen, if_neg hin]

theorem write_write (hlen : src.length = src'.length) :
    ((m.write addr src).2.write addr src').2 = (m.write addr src').2 := by
  by_cases hc : m.Covers addr src.length
  · have hfirst : (m.write addr src).2 = ⟨m.base, overlay m.bytes (addr - m.base) src⟩ := by
      rw [write, if_pos hc]
    have hagain : (m.write addr src).2.Covers addr src'.length := covers_write.mpr (hlen ▸ hc)
    rw [hfirst] at hagain ⊢
    rw [write, if_pos hagain, write, if_pos (hlen ▸ hc), overlay_overlay hlen hc.2]
  · have hnone : (m.write addr src).2 = m := by rw [write, if_neg hc]
    rw [hnone]

theorem storeWord_storeWord (m : Window) (addr word word' : Nat) :
    ((m.storeWord addr word).2.storeWord addr word').2 = (m.storeWord addr word').2 := by
  apply write_write
  rw [LittleEndian.length_encode, LittleEndian.length_encode]

end Window

variable {σ : Type} {r : SourceRing} {t : Tally}

namespace SourceRing

/-- The positions on the way are those that lie no further on than the head. -/
theorem Tracks.on_the_way_iff (h : Tracks r t) {tail : Nat} :
    (tail < r.numEntries ∧ r.distance r.cachedTail tail ≤ r.distance r.cachedTail r.head) ↔
      tail < r.numEntries ∧ ∃ d, d ≤ r.distance r.cachedTail r.head ∧
        tail = (r.cachedTail + d) % r.numEntries := by
  have hpos : 0 < r.numEntries := Nat.lt_of_lt_of_le (by decide) h.size
  constructor
  · rintro ⟨hlt, hle⟩
    refine ⟨hlt, r.distance r.cachedTail tail, hle, ?_⟩
    rw [distance, h.cachedTail, Nat.mod_add_mod]
    exact (position_of_steps hlt).symm
  · rintro ⟨hlt, d, hd, rfl⟩
    refine ⟨hlt, ?_⟩
    have hturn : d < r.numEntries := Nat.lt_of_le_of_lt hd (Nat.mod_lt _ hpos)
    have hsteps : r.distance r.cachedTail ((r.cachedTail + d) % r.numEntries) = d := by
      rw [distance, h.cachedTail, Nat.mod_add_mod]
      have hback := steps_between (Nat.le_add_right t.accepted d) (Nat.add_lt_add_left hturn _)
      omega
    rwa [hsteps]

variable {w : Machine σ} {word : Nat}

theorem accessBegin_unreadable (hs : r.inAccess = false) {fault : MemFault}
    (hw : w.host.memory.loadWord r.layout.tailAddr = .error fault) :
    hardware.accessBegin r w = (.error .memoryError, r, w) := by
  simp only [hardware, accessBegin, loadTail, hs, hw, Bool.false_eq_true, if_false]

theorem accessBegin_taken (hs : r.inAccess = false)
    (hw : w.host.memory.loadWord r.layout.tailAddr = .ok word)
    (hway : pointerWord r.flags word < r.numEntries ∧
      r.distance r.cachedTail (pointerWord r.flags word) ≤ r.distance r.cachedTail r.head) :
    hardware.accessBegin r w =
      (.ok (), { r with cachedTail := pointerWord r.flags word, inAccess := true }, w) := by
  have hload := loadTail_eq_ok_iff.mpr ⟨word, hw, rfl, hway⟩
  simp only [hardware, accessBegin, hs, hload, Bool.false_eq_true, if_false]

theorem accessBegin_refused (hs : r.inAccess = false)
    (hw : w.host.memory.loadWord r.layout.tailAddr = .ok word)
    (hoff : ¬ (pointerWord r.flags word < r.numEntries ∧
      r.distance r.cachedTail (pointerWord r.flags word) ≤ r.distance r.cachedTail r.head)) :
    hardware.accessBegin r w = (.error (.invalidPointer (pointerWord r.flags word)), r, w) := by
  have hbad : r.numEntries ≤ pointerWord r.flags word ∨
      r.distance r.cachedTail r.head < r.distance r.cachedTail (pointerWord r.flags word) := by
    rcases Nat.lt_or_ge (pointerWord r.flags word) r.numEntries with hlt | hge
    · exact .inr (Nat.not_le.mp fun hle => hoff ⟨hlt, hle⟩)
    · exact .inl hge
  simp only [hardware, accessBegin, loadTail, hs, hw, if_pos hbad, Bool.false_eq_true, if_false]

/-- A refused section leaves the ring and the world behind. -/
theorem hardware_accessBegin_error {e : SourceRingError}
    (h : (hardware.accessBegin r w).1 = .error e) :
    hardware.accessBegin r w = (.error e, r, w) := by
  simp only [hardware] at h ⊢
  rcases r.accessBegin_cases w.host.memory with ⟨e', he⟩ | ⟨tail, -, -, he⟩
  · rw [he] at h ⊢
    cases h
    rfl
  · rw [he] at h
    cases h

end SourceRing

def Machine.storeTail (w : Machine σ) (r : SourceRing) (word : Nat) : Machine σ :=
  w.setWindow (w.window.storeWord r.layout.tailAddr word).2

theorem Machine.storeTail_storeTail (w : Machine σ) (r : SourceRing) (word word' : Nat) :
    (w.storeTail r word).storeTail r word' = w.storeTail r word' := by
  have hwindow := w.window.storeWord_storeWord r.layout.tailAddr word word'
  simp only [Machine.storeTail, Machine.setWindow, Machine.setMemory, Machine.window] at hwindow ⊢
  rw [hwindow]

variable {β : Type} [RxBuffer β]

/-- A pass that cannot open its section does nothing at all. -/
theorem Ring.tryReap_unopened {p : Platform (Machine σ) SourceRing Reservation β}
    (hp : p.hardware = SourceRing.hardware) {ring : Ring SourceRing β} {w : Machine σ}
    (active : ring.state = .active) (held : ring.hw = some r) {e : SourceRingError}
    (he : (SourceRing.hardware.accessBegin r w).1 = .error e) :
    ring.tryReap p w = (.error (.hardware e), ring, w) := by
  have haccess := SourceRing.hardware_accessBegin_error he
  obtain ⟨geometry, state, table, cursor, hw, ringMem, stats⟩ := ring
  obtain rfl : state = .active := active
  obtain rfl : hw = some r := held
  simp only [Ring.tryReap, hp, haccess]

/-- Whatever was called on a source ring before: outside a section, a tail word is taken over
exactly if it is a position on the way from the last tail to the head, and any other word leaves
ring and world as they were. A receive ring whose pass is refused like this is unchanged as well,
and once the device stores another word it goes on as if the bad one had never been there. -/
theorem SourceRing.tail_taken_or_refused {reg : Registration} {rbm : Nat} {m : HostMemory}
    (hc : (create reg rbm m).1 = .ok r) (h : Host) (calls : List Call)
    (hclosed : ((Session.start r h).run calls).ring.inAccess = false)
    {p : Platform (Machine σ) SourceRing Reservation β} (hp : p.hardware = hardware) :
    let s := ((Session.start r h).run calls).ring
    let n := reg.numEntries
    (∀ (w : Machine σ) word, w.host.memory.loadWord s.layout.tailAddr = .ok word →
      let tail := pointerWord s.flags word
      let onTheWay := tail < n ∧
        ∃ d, d ≤ (s.head + n - s.cachedTail) % n ∧ tail = (s.cachedTail + d) % n
      (onTheWay → hardware.accessBegin s w =
        (.ok (), { s with cachedTail := tail, inAccess := true }, w)) ∧
      (¬ onTheWay → hardware.accessBegin s w = (.error (.invalidPointer tail), s, w))) ∧
    (∀ (w : Machine σ) fault, w.host.memory.loadWord s.layout.tailAddr = .error fault →
      hardware.accessBegin s w = (.error .memoryError, s, w)) ∧
    ∀ (ring : Ring SourceRing β) hw, ring.state = .active → ring.hw = some hw →
      (∀ (w : Machine σ) e, (hardware.accessBegin hw w).1 = .error e →
        ring.tryReap p w = (.error (.hardware e), ring, w)) ∧
      ∀ (w : Machine σ) bad good e,
        (hardware.accessBegin hw (w.storeTail hw bad)).1 = .error e →
        let refused := (ring.tryReap p (w.storeTail hw bad)).2
        refused.1.tryReap p (refused.2.storeTail hw good) =
          ring.tryReap p (w.storeTail hw good) := by
  intro s n
  obtain ⟨h0, hsize⟩ := Tracks.of_create hc
  have ht : Tracks s ((Session.start r h).run calls).tally :=
    run_tracks (s := Session.start r h) h0 calls
  have hn : n = s.numEntries := ((run_numEntries _ calls).trans hsize).symm
  clear_value n
  subst hn
  refine ⟨?_, ?_, ?_⟩
  · intro w word hw tail onTheWay
    constructor
    · intro hway
      exact accessBegin_taken hclosed hw (ht.on_the_way_iff.mpr hway)
    · intro hoff
      exact accessBegin_refused hclosed hw (mt ht.on_the_way_iff.mp hoff)
  · intro w fault hw
    exact accessBegin_unreadable hclosed hw
  · intro ring hw active held
    constructor
    · intro w e he
      exact Ring.tryReap_unopened hp active held he
    · intro w bad good e he refused
      have hsame : refused = (ring, w.storeTail hw bad) :=
        congrArg Prod.snd (Ring.tryReap_unopened hp active held he)
      rw [hsame, Machine.storeTail_storeTail]

/-- With two of four entries armed, the tail may be anywhere up to the second one. -/
theorem SourceRing.tail_taken_or_refused_two_armed :
    let memory : HostMemory := ⟨.zeroed 0 64, []⟩
    let r : SourceRing := ⟨⟨0, 4, 8, 32, 36⟩, .empty, 0, 3, 0, 3, 0, false⟩
    let s := ((Session.start r ⟨memory, #[]⟩).run
      [.accessBegin, .setEntry ⟨0, .zero, false⟩ 64 0, .setEntry ⟨1, .zero, false⟩ 128 1,
        .accessEnd]).ring
    (create ⟨0, 4, 8, 0, .empty⟩ 3 memory).1 = .ok r ∧ s.inAccess = false ∧
      (World.platform 3).hardware = hardware ∧
      (∀ w : World, w.host.memory.loadWord 36 = .ok 2 →
        hardware.accessBegin s w = (.ok (), { s with cachedTail := 2, inAccess := true }, w)) ∧
      ∀ w : World, w.host.memory.loadWord 36 = .ok 3 →
        hardware.accessBegin s w = (.error (.invalidPointer 3), s, w) := by
  have hcreated : (create ⟨0, 4, 8, 0, .empty⟩ 3 ⟨.zeroed 0 64, []⟩).1 =
      .ok ⟨⟨0, 4, 8, 32, 36⟩, .empty, 0, 3, 0, 3, 0, false⟩ := rfl
  have hcheck := (tail_taken_or_refused hcreated ⟨⟨.zeroed 0 64, []⟩, #[]⟩
    [.accessBegin, .setEntry ⟨0, .zero, false⟩ 64 0, .setEntry ⟨1, .zero, false⟩ 128 1, .accessEnd]
    (by decide +kernel) (p := World.platform 3) rfl).1
  refine ⟨hcreated, by decide +kernel, rfl, ?_, ?_⟩
  · intro w hw
    exact (hcheck w 2 hw).1 (by decide +kernel)
  · intro w hw
    exact (hcheck w 3 hw).2 (by decide +kernel)

end FrameRing
