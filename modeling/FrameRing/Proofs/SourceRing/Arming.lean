import FrameRing.Proofs.SourceRing.Queue

/-! # Arming a position, or leaving it alone

A current reservation is refused only if an entry cannot name the buffer or memory does not grant
the write. An arm that is granted writes the eight bytes of one entry and moves the positions on;
one that is refused leaves the ring and its memory as they were. -/

namespace FrameRing

def RingEntry.maxBusAddr : Nat := (1 <<< 40) - 1

namespace RingEntry

variable {busAddr cookie rbm : Nat}

theorem ofFields_of_le (haddr : busAddr ≤ maxBusAddr) (hcookie : cookie ≤ maxCookie) :
    ∃ entry, ofFields busAddr cookie rbm = .ok entry := by
  have hlow : busAddr < 1 <<< 40 := Nat.lt_of_le_of_lt haddr (by decide)
  have hhigh : cookie < 1 <<< 21 := Nat.lt_of_le_of_lt hcookie (by decide)
  unfold ofFields
  rw [dif_pos hlow, dif_pos hhigh]
  exact ⟨_, rfl⟩

theorem ofFields_of_addr (haddr : maxBusAddr < busAddr) :
    ofFields busAddr cookie rbm = .error (.addrOutOfRange busAddr) := by
  have hhigh : ¬ busAddr < 1 <<< 40 := by
    simp only [maxBusAddr, Nat.reduceShiftLeft] at haddr ⊢
    omega
  exact dif_neg hhigh

theorem ofFields_of_cookie (haddr : busAddr ≤ maxBusAddr) (hcookie : maxCookie < cookie) :
    ofFields busAddr cookie rbm = .error (.cookieOutOfRange cookie) := by
  have hlow : busAddr < 1 <<< 40 := Nat.lt_of_le_of_lt haddr (by decide)
  have hhigh : ¬ cookie < 1 <<< 21 := by
    simp only [maxCookie, Nat.reduceShiftLeft] at hcookie ⊢
    omega
  unfold ofFields
  rw [dif_pos hlow, dif_neg hhigh]

end RingEntry

namespace HostMemory

variable {m : HostMemory} {addr len : Nat} {src : List UInt8}

def Writable (m : HostMemory) (addr len : Nat) : Prop :=
  ¬ m.Blocked .write addr len ∧ m.window.Covers addr len

instance (m : HostMemory) (addr len : Nat) : Decidable (m.Writable addr len) :=
  inferInstanceAs (Decidable (_ ∧ _))

theorem write_of_writable (h : m.Writable addr src.length) :
    m.write addr src = (.ok (), { m with window := (m.window.write addr src).2 }) := by
  rw [write, if_neg h.1, Window.write_of_covers h.2]

theorem write_of_not_writable (h : ¬ m.Writable addr src.length) :
    m.write addr src = (.error ⟨addr⟩, m) := by
  by_cases hb : m.Blocked .write addr src.length
  · exact if_pos hb
  · have hc : ¬ m.window.Covers addr src.length := fun hc => h ⟨hb, hc⟩
    rw [write, if_neg hb, Window.write, if_neg hc]

end HostMemory

namespace SourceRing

variable {r : SourceRing} {m : HostMemory} {res : Reservation} {busAddr cookie : Nat}

/-- What keeps position `idx` from taking a buffer, in the order in which it is looked at. -/
def obstacle (r : SourceRing) (m : HostMemory) (idx busAddr cookie : Nat) :
    Option SourceRingError :=
  if RingEntry.maxBusAddr < busAddr then some (.addrOutOfRange busAddr)
  else if RingEntry.maxCookie < cookie then some (.cookieOutOfRange cookie)
  else if m.Writable (r.layout.positionAddr idx) RingEntry.size then none
  else some .memoryError

theorem obstacle_eq_none {idx : Nat} :
    r.obstacle m idx busAddr cookie = none ↔
      busAddr ≤ RingEntry.maxBusAddr ∧ cookie ≤ RingEntry.maxCookie ∧
        m.Writable (r.layout.positionAddr idx) RingEntry.size := by
  unfold obstacle
  split
  · rename_i haddr
    constructor
    · intro h; cases h
    · intro h; exact absurd haddr (Nat.not_lt.mpr h.1)
  rename_i haddr
  split
  · rename_i hcookie
    constructor
    · intro h; cases h
    · intro h; exact absurd hcookie (Nat.not_lt.mpr h.2.1)
  rename_i hcookie
  split
  · rename_i hw
    exact ⟨fun _ => ⟨Nat.not_lt.mp haddr, Nat.not_lt.mp hcookie, hw⟩, fun _ => rfl⟩
  · rename_i hw
    constructor
    · intro h; cases h
    · intro h; exact absurd h.2.2 hw

def armed (r : SourceRing) (res : Reservation) : SourceRing :=
  { r with reapHead := r.reapHeadAfter res, head := r.next r.head }

/-- What becomes of a reservation that is current and has room. -/
inductive Armed (r : SourceRing) (m : HostMemory) (res : Reservation) (busAddr cookie : Nat) :
    Except SourceRingError Unit × SourceRing × HostMemory → Prop where
  | refused {e} (obstacle : r.obstacle m r.head busAddr cookie = some e) :
      Armed r m res busAddr cookie (.error e, r, m)
  | granted {entry} (clear : r.obstacle m r.head busAddr cookie = none)
      (fields : RingEntry.ofFields busAddr cookie r.rbm = .ok entry) :
      Armed r m res busAddr cookie
        (.ok (), r.armed res,
          { m with window := (m.window.write (r.layout.positionAddr r.head) entry.toBytes).2 })

theorem setEntry_armed (hhead : r.layout.entryAddr? r.head = some (r.layout.positionAddr r.head))
    (hs : r.inAccess = true) (hc : r.Current res) (hroom : r.head ≠ r.reapHeadAfter res)
    (m : HostMemory) (busAddr cookie : Nat) :
    Armed r m res busAddr cookie (r.setEntry m res busAddr cookie) := by
  have hopen : ¬ r.inAccess = false := by rw [hs]; decide
  unfold setEntry
  rw [if_neg hopen, if_neg (not_not_intro hc), if_neg hroom]
  by_cases haddr : busAddr ≤ RingEntry.maxBusAddr
  · by_cases hcookie : cookie ≤ RingEntry.maxCookie
    · obtain ⟨entry, hentry⟩ : ∃ entry, RingEntry.ofFields busAddr cookie r.rbm = .ok entry :=
        RingEntry.ofFields_of_le haddr hcookie
      have hlen : entry.toBytes.length = RingEntry.size := RingEntry.length_toBytes entry
      simp only [hentry, hhead]
      by_cases hw : m.Writable (r.layout.positionAddr r.head) RingEntry.size
      · rw [HostMemory.write_of_writable (hlen ▸ hw)]
        exact .granted (obstacle_eq_none.mpr ⟨haddr, hcookie, hw⟩) hentry
      · rw [HostMemory.write_of_not_writable (hlen ▸ hw)]
        apply Armed.refused
        rw [obstacle, if_neg (Nat.not_lt.mpr haddr), if_neg (Nat.not_lt.mpr hcookie), if_neg hw]
    · rw [RingEntry.ofFields_of_cookie haddr (Nat.not_le.mp hcookie)]
      apply Armed.refused
      rw [obstacle, if_neg (Nat.not_lt.mpr haddr), if_pos (Nat.not_le.mp hcookie)]
  · rw [RingEntry.ofFields_of_addr (Nat.not_le.mp haddr)]
    apply Armed.refused
    rw [obstacle, if_pos (Nat.not_le.mp haddr)]

/-- Everything that an arm asks for. -/
theorem setEntry_isOk_iff
    (hhead : r.layout.entryAddr? r.head = some (r.layout.positionAddr r.head)) :
    (r.setEntry m res busAddr cookie).1 = .ok () ↔
      (r.inAccess = true ∧ r.Current res ∧ r.head ≠ r.reapHeadAfter res) ∧
        r.obstacle m r.head busAddr cookie = none := by
  constructor
  · intro hok
    rcases r.setEntry_cases m res busAddr cookie with
      ⟨e, he⟩ | ⟨entry, addr, hs, hc, hroom, -, -, -, -⟩
    · rw [he] at hok
      cases hok
    · have harmed := setEntry_armed hhead hs hc hroom m busAddr cookie
      generalize r.setEntry m res busAddr cookie = out at hok harmed
      cases harmed with
      | refused obstacle => cases hok
      | granted clear fields => exact ⟨⟨hs, hc, hroom⟩, clear⟩
  · rintro ⟨⟨hs, hc, hroom⟩, hclear⟩
    have harmed := setEntry_armed hhead hs hc hroom m busAddr cookie
    generalize r.setEntry m res busAddr cookie = out at harmed ⊢
    cases harmed with
    | refused obstacle =>
      rw [hclear] at obstacle
      cases obstacle
    | granted clear fields => rfl

/-- An arm that succeeds writes the entry at the head and no byte beside it. -/
theorem setEntry_ok (hhead : r.layout.entryAddr? r.head = some (r.layout.positionAddr r.head))
    (hok : (r.setEntry m res busAddr cookie).1 = .ok ()) :
    let addr := r.layout.positionAddr r.head
    let out := r.setEntry m res busAddr cookie
    out.2.1 = r.armed res ∧
      ∃ entry, RingEntry.ofFields busAddr cookie r.rbm = .ok entry ∧
        out.2.2 = { m with window := (m.window.write addr entry.toBytes).2 } ∧
        (∀ i, i < RingEntry.size → out.2.2.window.byteAt? (addr + i) = entry.toBytes[i]?) ∧
        ∀ a, a < addr ∨ addr + RingEntry.size ≤ a →
          out.2.2.window.byteAt? a = m.window.byteAt? a := by
  intro addr out
  obtain ⟨⟨hs, hc, hroom⟩, -⟩ := (setEntry_isOk_iff hhead).mp hok
  have harmed := setEntry_armed hhead hs hc hroom m busAddr cookie
  change Armed _ _ _ _ _ out at harmed
  change out.1 = .ok () at hok
  generalize out = out at hok harmed
  cases harmed with
  | refused obstacle => cases hok
  | @granted entry clear fields =>
    obtain ⟨-, -, -, hcov⟩ := obstacle_eq_none.mp clear
    refine ⟨rfl, entry, fields, rfl, ?_, ?_⟩
    · intro i hi
      apply Window.shows_write
      · rwa [RingEntry.length_toBytes]
      · rwa [RingEntry.length_toBytes]
    · intro a ha
      apply Window.byteAt?_write_of_outside
      rwa [RingEntry.length_toBytes]

/-- An arm that fails does nothing. -/
theorem setEntry_error {e : SourceRingError}
    (he : (r.setEntry m res busAddr cookie).1 = .error e) :
    (r.setEntry m res busAddr cookie).2 = (r, m) := by
  rcases r.setEntry_cases m res busAddr cookie with
    ⟨e', hrefused⟩ | ⟨entry, at', -, -, -, -, -, -, hgranted⟩
  · exact congrArg Prod.snd hrefused
  · cases he.symm.trans (congrArg Prod.fst hgranted)

theorem Tracks.current_iff {t : Tally} (h : Tracks r t) :
    r.Current res ∧ r.head ≠ r.reapHeadAfter res ↔
      (res.completed = true → res.index = r.next r.reapHead ∧ res.index ≠ r.cachedTail) ∧
        (res.completed = false → res.index = r.head ∧ r.head ≠ r.reapHead) := by
  cases hd : res.completed with
  | true =>
    have hroom (hc : r.Current res) := h.room_of_completed hc hd
    simp only [Current, hd, if_true, forall_const, Bool.true_eq_false, false_imp_iff,
      and_true] at hroom ⊢
    exact ⟨And.left, fun hc => ⟨hc, hroom hc⟩⟩
  | false =>
    simp only [Current, reapHeadAfter, hd, Bool.false_eq_true, if_false, forall_const,
      false_imp_iff, true_and]

/-- Whatever was called on a ring so far and whatever its memory and faults are: a reservation,
however old, arms the position at the head exactly if a section is open, it is current, the entry
can name the buffer and the write does not fault. Exactly one entry is written then. Otherwise the
ring and all of its memory stay as they were. -/
theorem setEntry_all_or_nothing {reg : Registration} {rbm : Nat} {r : SourceRing}
    (hc : (create reg rbm m).1 = .ok r)
    (hlim : r.layout.tailAddr + RingLayout.wordSize ≤ addressLimit) (h : Host) (calls : List Call)
    (res : Reservation) (busAddr cookie : Nat) :
    let s := (Session.start r h).run calls
    let n := reg.numEntries
    let addr := r.layout.baseAddr + s.ring.head * r.layout.entrySize
    let out := s.ring.setEntry s.host.memory res busAddr cookie
    (out.1 = .ok () ↔
      s.ring.inAccess = true ∧
      (res.completed = true →
        res.index = (s.ring.reapHead + 1) % n ∧ res.index ≠ s.ring.cachedTail) ∧
      (res.completed = false → res.index = s.ring.head ∧ s.ring.head ≠ s.ring.reapHead) ∧
      busAddr ≤ RingEntry.maxBusAddr ∧ cookie ≤ RingEntry.maxCookie ∧
      s.host.memory.Writable addr RingEntry.size) ∧
    (out.1 = .ok () →
      out.2.1 =
        { s.ring with
          head := (s.ring.head + 1) % n
          reapHead :=
            if res.completed then (s.ring.reapHead + 1) % n else s.ring.reapHead } ∧
      ∃ entry : RingEntry, entry.busAddr = busAddr ∧ entry.cookie = cookie ∧ entry.rbm = rbm ∧
        out.2.2 =
          { s.host.memory with window := (s.host.memory.window.write addr entry.toBytes).2 } ∧
        (∀ i, i < RingEntry.size →
          out.2.2.window.byteAt? (addr + i) = entry.toBytes[i]?) ∧
        ∀ a, a < addr ∨ addr + RingEntry.size ≤ a →
          out.2.2.window.byteAt? a = s.host.memory.window.byteAt? a) ∧
    ∀ e, out.1 = .error e → out.2 = (s.ring, s.host.memory) := by
  intro s n addr out
  obtain ⟨hrbm, hlayout, hshape⟩ := create_shape hc
  obtain ⟨h0, hsize⟩ := Tracks.of_create hc
  have ht : Tracks s.ring s.tally := run_tracks (s := Session.start r h) h0 calls
  obtain ⟨hl, -, -, hb⟩ : SameSetup r s.ring := run_fixed (Session.start r h) calls
  have hn : s.ring.numEntries = n := (congrArg RingLayout.numEntries hl).trans hsize
  have hb : s.ring.rbm = rbm := by rw [hb, hshape]
  have hinside := RingLayout.inside_extent hlayout hlim
  have hhead : s.ring.layout.entryAddr? s.ring.head = some addr := by
    rw [hl]
    apply hinside.entryAddr?
    rw [ht.head, ← hl]
    exact Nat.mod_lt _ (Nat.lt_of_lt_of_le (by decide) ht.size)
  have haddr : s.ring.layout.positionAddr s.ring.head = addr := by rw [hl]; rfl
  have hcurrent : s.ring.Current res ∧ s.ring.head ≠ s.ring.reapHeadAfter res ↔ _ :=
    ht.current_iff
  rw [next, hn] at hcurrent
  rw [← haddr] at hhead
  refine ⟨?_, ?_, ?_⟩
  · rw [setEntry_isOk_iff hhead, obstacle_eq_none, haddr, hcurrent]
    simp only [and_assoc]
  · intro hok
    obtain ⟨⟨-, hcur, hroom⟩, -⟩ := (setEntry_isOk_iff hhead).mp hok
    have hcompleted := (hcurrent.mp ⟨hcur, hroom⟩).1
    obtain ⟨hring, entry, hfields, hwritten⟩ := setEntry_ok hhead hok
    obtain ⟨hbus, hcookie, hmanager⟩ := RingEntry.ofFields_eq_ok hfields
    rw [haddr] at hwritten
    refine ⟨hring.trans ?_, entry, hbus, hcookie, ?_, hwritten⟩
    · simp only [armed, next, hn, reapHeadAfter]
      cases hd : res.completed with
      | true => simp only [if_true, (hcompleted hd).1]
      | false => rfl
    · rw [hmanager, hb]
      exact Nat.mod_eq_of_lt (Nat.lt_of_le_of_lt hrbm (by decide))
  · intro e he
    exact setEntry_error he

/-- On the second lap the oldest completion is armed again, and a reservation left over from the
first lap is refused. -/
theorem setEntry_all_or_nothing_second_lap :
    let memory : HostMemory := ⟨.zeroed 0 64, []⟩
    let r : SourceRing := ⟨⟨0, 4, 8, 32, 36⟩, .empty, 0, 3, 0, 3, 0, false⟩
    let s := (Session.start r ⟨memory, #[]⟩).run
      [.accessBegin, .setEntry ⟨0, .zero, false⟩ 64 0, .setEntry ⟨1, .zero, false⟩ 128 1,
        .setEntry ⟨2, .zero, false⟩ 192 2, .accessEnd,
        .disturb { memory with window := (memory.window.write 36 [2]).2 }, .accessBegin]
    (create ⟨0, 4, 8, 0, .empty⟩ 3 memory).1 = .ok r ∧
      r.layout.tailAddr + RingLayout.wordSize ≤ addressLimit ∧
      (s.ring.setEntry s.host.memory ⟨0, .zero, true⟩ 256 3).1 = .ok () ∧
      ¬ (s.ring.setEntry s.host.memory ⟨0, .zero, false⟩ 256 3).1 = .ok () :=
  have hcreated : (create ⟨0, 4, 8, 0, .empty⟩ 3 ⟨.zeroed 0 64, []⟩).1 =
      .ok ⟨⟨0, 4, 8, 32, 36⟩, .empty, 0, 3, 0, 3, 0, false⟩ := rfl
  have hlimit : 36 + RingLayout.wordSize ≤ addressLimit := by decide
  ⟨hcreated, hlimit, (setEntry_all_or_nothing hcreated hlimit _ _ _ _ _).1.mpr (by decide +kernel),
    mt (setEntry_all_or_nothing hcreated hlimit _ _ _ _ _).1.mp (by decide +kernel)⟩

end SourceRing

end FrameRing
