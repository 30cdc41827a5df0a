import FrameRing.Proofs.SourceRing.Queue

/-! # The footprint of a source ring

Which bytes a source ring writes, whatever lies in memory and whichever accesses fail: its pointer
words when it is created, the entry at the head when a position is armed, and the head word when a
section is closed. -/

namespace FrameRing

def Allocation.Contains (a : Allocation) (addr : Nat) : Prop :=
  a.addr ≤ addr ∧ addr < a.addr + a.len

instance (a : Allocation) (addr : Nat) : Decidable (a.Contains addr) :=
  inferInstanceAs (Decidable (_ ∧ _))

namespace Window

variable {m m' m'' : Window} {P Q : Nat → Prop}

/-- Only bytes in `P` differ. -/
def WritesOnly (m m' : Window) (P : Nat → Prop) : Prop :=
  ∀ addr, m'.byteAt? addr ≠ m.byteAt? addr → P addr

theorem WritesOnly.refl (m : Window) : m.WritesOnly m P :=
  fun _ h => absurd rfl h

theorem WritesOnly.mono (h : m.WritesOnly m' P) (hpq : ∀ addr, P addr → Q addr) :
    m.WritesOnly m' Q :=
  fun addr hne => hpq addr (h addr hne)

theorem WritesOnly.trans (h : m.WritesOnly m' P) (h' : m'.WritesOnly m'' P) :
    m.WritesOnly m'' P := by
  intro addr hne
  by_cases hsame : m'.byteAt? addr = m.byteAt? addr
  · apply h'
    rwa [hsame]
  · exact h addr hsame

theorem WritesOnly.shows (h : m.WritesOnly m' P) {addr : Nat} {bs : List UInt8}
    (hs : m.Shows addr bs) (hout : ∀ i, i < bs.length → ¬ P (addr + i)) : m'.Shows addr bs := by
  intro i hi
  rw [← hs i hi]
  by_cases hsame : m'.byteAt? (addr + i) = m.byteAt? (addr + i)
  · exact hsame
  · exact absurd (h _ hsame) (hout i hi)

theorem writesOnly_write (m : Window) (addr : Nat) (src : List UInt8) :
    m.WritesOnly (m.write addr src).2 (Allocation.Contains ⟨addr, src.length⟩) := by
  intro cell hne
  by_cases hin : Allocation.Contains ⟨addr, src.length⟩ cell
  · exact hin
  · simp only [Allocation.Contains] at hin
    exact absurd (byteAt?_write_of_outside (by omega)) hne

end Window

theorem HostMemory.writesOnly_storeWord (m : HostMemory) (addr word : Nat) :
    m.window.WritesOnly (m.storeWord addr word).2.window (Allocation.Contains ⟨addr, 4⟩) := by
  obtain ⟨window, faults⟩ := m
  unfold storeWord
  split
  · exact .refl _
  · have hwrite := window.writesOnly_write addr (LittleEndian.encode 4 word)
    rwa [LittleEndian.length_encode] at hwrite

namespace RingLayout

def headWord (l : RingLayout) : Allocation := ⟨l.headAddr, wordSize⟩

def tailWord (l : RingLayout) : Allocation := ⟨l.tailAddr, wordSize⟩

def entryBytes (l : RingLayout) (idx : Nat) : Allocation := ⟨l.positionAddr idx, RingEntry.size⟩

variable {l : RingLayout} {a : Allocation} {addr : Nat}

theorem Inside.headWord (h : l.Inside a) (hc : l.headWord.Contains addr) :
    a.Contains addr ∧ ¬ l.tailWord.Contains addr := by
  have hw := h.words
  have hsize : wordSize = 4 := rfl
  simp only [Allocation.Contains, RingLayout.headWord, tailWord] at *
  omega

theorem Inside.tailWord (h : l.Inside a) (hc : l.tailWord.Contains addr) : a.Contains addr := by
  have hw := h.words
  have hsize : wordSize = 4 := rfl
  simp only [Allocation.Contains, RingLayout.tailWord] at *
  omega

theorem Inside.entryBytes (h : l.Inside a) {idx : Nat} (hi : idx < l.numEntries)
    (hc : (l.entryBytes idx).Contains addr) : a.Contains addr ∧ ¬ l.tailWord.Contains addr := by
  have he := h.entry hi
  have hw := h.words
  simp only [Allocation.Contains, RingLayout.entryBytes, RingLayout.tailWord] at *
  omega

end RingLayout

namespace SourceRing

variable {r r₀ : SourceRing} {a : Allocation} {m : HostMemory}

/-- The head word, and the entries from the ring's head up to `head`. -/
def Rewrites (r : SourceRing) (head addr : Nat) : Prop :=
  r.layout.headWord.Contains addr ∨
    ∃ k, k < r.distance r.head head ∧
      (r.layout.entryBytes ((r.head + k) % r.numEntries)).Contains addr

theorem Rewrites.inside {head addr : Nat} (h : r.Rewrites head addr) (hl : r.layout.Inside a)
    (hn : 0 < r.numEntries) : a.Contains addr ∧ ¬ r.layout.tailWord.Contains addr := by
  rcases h with hword | ⟨k, -, hentry⟩
  · exact hl.headWord hword
  · exact hl.entryBytes (Nat.mod_lt _ hn) hentry

theorem PointsTo.tail_kept {m m' : Window} {head position : Nat}
    (h : PointsTo r.flags m r.layout.tailAddr position) (hw : m.WritesOnly m' (r.Rewrites head))
    (hl : r.layout.Inside a) (hn : 0 < r.numEntries) :
    PointsTo r.flags m' r.layout.tailAddr position := by
  apply hw.shows h
  intro i hi hc
  rw [length_pointerBytes] at hi
  exact (hc.inside hl hn).2 ⟨Nat.le_add_right _ _, Nat.add_lt_add_left hi _⟩

theorem storePointer_writes (flags : RingFlags) (m : HostMemory) (addr position : Nat) :
    m.window.WritesOnly (storePointer flags m addr position).2.window
      (Allocation.Contains ⟨addr, 4⟩) := by
  have hstore := m.writesOnly_storeWord addr (pointerWord flags position)
  unfold storePointer
  rcases hword : m.storeWord addr (pointerWord flags position) with ⟨_ | _, m'⟩
  · rwa [hword] at hstore
  · rwa [hword] at hstore

/-- Creating a ring resets its pointer words, as far as it gets. -/
theorem create_writes (reg : Registration) (rbm : Nat) (m : HostMemory) :
    m.window.WritesOnly (create reg rbm m).2.window fun addr =>
      ∃ l, RingLayout.ofBase reg.ringBase reg.numEntries reg.entrySize = .ok l ∧
        (l.headWord.Contains addr ∨ l.tailWord.Contains addr) := by
  unfold create
  split
  · exact .refl _
  split
  · exact .refl _
  rename_i layout hl
  have hhead := storePointer_writes reg.flags m layout.headAddr 0
  split
  · rename_i hstored
    rw [hstored] at hhead
    exact hhead.mono fun _ hc => ⟨layout, hl, .inl hc⟩
  rename_i m₁ hstored
  rw [hstored] at hhead
  have htail := storePointer_writes reg.flags m₁ layout.tailAddr 0
  split
  · rename_i hstored'
    rw [hstored'] at htail
    exact .trans (hhead.mono fun _ hc => ⟨layout, hl, .inl hc⟩)
      (htail.mono fun _ hc => ⟨layout, hl, .inr hc⟩)
  · rename_i hstored'
    rw [hstored'] at htail
    exact .trans (hhead.mono fun _ hc => ⟨layout, hl, .inl hc⟩)
      (htail.mono fun _ hc => ⟨layout, hl, .inr hc⟩)

theorem accessEnd_writes (r : SourceRing) (h : Host) :
    h.memory.window.WritesOnly (r.accessEnd h).2.memory.window r.layout.headWord.Contains := by
  unfold accessEnd
  split
  · have hstore := storePointer_writes r.flags h.memory r.layout.headAddr r.head
    simp only
    split
    · rename_i hstored
      rwa [hstored] at hstore
    · rename_i hstored
      rwa [hstored] at hstore
  · exact .refl _

/-- Since the counter of arms was `first` and memory was `m`, nothing was written but the entries
that were armed since. -/
structure ArmedSince (l : RingLayout) (first : Nat) (m : Window) (r : SourceRing) (m' : Window) :
    Prop where
  layout : r.layout = l
  progress : ∃ t, Tracks r t ∧ t.accepted ≤ first ∧ first ≤ t.armed ∧
    m.WritesOnly m' fun addr =>
      ∃ k, first ≤ k ∧ k < t.armed ∧ (l.entryBytes (k % l.numEntries)).Contains addr

theorem armedSince_opened {t : Tally} (h : Tracks r t) (m : Window) :
    ArmedSince r.layout t.armed m r m :=
  ⟨rfl, t, h, h.accepted_le, Nat.le_refl _, .refl _⟩

namespace ArmedSince

variable {l : RingLayout} {first : Nat} {before : Window}

theorem setEntry (h : ArmedSince l first before r m.window) (res : Reservation)
    (busAddr cookie : Nat) :
    ArmedSince l first before (r.setEntry m res busAddr cookie).2.1
      (r.setEntry m res busAddr cookie).2.2.window := by
  obtain ⟨hlayout, t, ht, haccepted, hfirst, hwrites⟩ := h
  rcases r.setEntry_cases m res busAddr cookie with
    ⟨e, he⟩ | ⟨entry, addr, -, hcur, hroom, -, haddr, -, he⟩
  · rw [he]
    exact ⟨hlayout, t, ht, haccepted, hfirst, hwrites⟩
  · rw [he]
    refine ⟨hlayout, _, ht.arm hcur hroom, haccepted, Nat.le_succ_of_le hfirst, ?_⟩
    have hentry := m.window.writesOnly_write addr entry.toBytes
    rw [RingEntry.length_toBytes] at hentry
    refine (hwrites.mono ?_).trans (hentry.mono ?_)
    · rintro cell ⟨k, hk, hka, hc⟩
      exact ⟨k, hk, Nat.lt_succ_of_lt hka, hc⟩
    · intro cell hc
      obtain ⟨-, rfl⟩ := RingLayout.entryAddr?_eq_some haddr
      refine ⟨t.armed, hfirst, Nat.lt_succ_self _, ?_⟩
      have hhead : t.armed % l.numEntries = r.head := by rw [ht.head, numEntries, hlayout]
      rw [hhead, ← hlayout]
      exact hc

/-- The section is closed: the armed entries are those from the old head up to the new one. -/
theorem close (h : ArmedSince r₀.layout first before r m.window)
    (hfirst : r₀.head = first % r₀.numEntries) (journal : Array LogEvent) :
    before.WritesOnly (r.accessEnd ⟨m, journal⟩).2.memory.window (r₀.Rewrites r.head) := by
  obtain ⟨hlayout, t, ht, haccepted, hle, hwrites⟩ := h
  have hsize : r.numEntries = r₀.numEntries := by rw [numEntries, hlayout, numEntries]
  have hreaped := ht.reaped_le
  have harmed := ht.armed_lt
  have hsteps : r₀.distance r₀.head r.head = t.armed - first := by
    rw [distance, hfirst, ht.head, hsize]
    exact steps_between hle (by omega)
  refine (hwrites.mono ?_).trans ((r.accessEnd_writes ⟨m, journal⟩).mono ?_)
  · rintro addr ⟨k, hk, hka, hc⟩
    refine .inr ⟨k - first, by omega, ?_⟩
    rw [hfirst, Nat.mod_add_mod, Nat.add_sub_of_le hk]
    exact hc
  · intro addr hc
    rw [hlayout] at hc
    exact .inl hc

end ArmedSince

end SourceRing

end FrameRing
