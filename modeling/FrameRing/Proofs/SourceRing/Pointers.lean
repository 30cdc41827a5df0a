import FrameRing.SourceRing.Access
import FrameRing.Proofs.Positions
import FrameRing.Proofs.SharedBytes

/-! # The pointer protocol of a source ring

The three positions of a ring are three counters modulo its size: positions armed, completions
accepted from the device, completions reaped. The device may store any tail and any bytes at any
time, and every access may fail; the counters stay in order all the same. -/

namespace FrameRing

structure Tally where
  armed : Nat
  /-- Steps of the device's tail that were taken over. -/
  accepted : Nat
  reaped : Nat
  deriving DecidableEq, Repr

def Tally.arm (t : Tally) (res : Reservation) : Tally :=
  { t with armed := t.armed + 1, reaped := t.reaped + res.completed.toNat }

namespace RingLayout

variable {l : RingLayout}

theorem entryAddr?_eq_some {idx addr : Nat} (h : l.entryAddr? idx = some addr) :
    idx < l.numEntries ∧ addr = l.baseAddr + idx * l.entrySize := by
  simp only [entryAddr?] at h
  split at h
  · rename_i hi
    exact ⟨hi.1, (Option.some.inj h).symm⟩
  · cases h

theorem entries_apart {i j a b : Nat} (hs : StrideOk l.entrySize) (hij : i ≠ j)
    (ha : l.entryAddr? i = some a) (hb : l.entryAddr? j = some b) :
    a + RingEntry.size ≤ b ∨ b + RingEntry.size ≤ a := by
  obtain ⟨-, rfl⟩ := entryAddr?_eq_some ha
  obtain ⟨-, rfl⟩ := entryAddr?_eq_some hb
  have hw : RingEntry.size ≤ l.entrySize := hs.1
  rcases Nat.lt_or_gt_of_ne hij with hlt | hlt
  · have hm := Nat.mul_le_mul_right l.entrySize (Nat.succ_le_of_lt hlt)
    rw [Nat.succ_mul] at hm
    omega
  · have hm := Nat.mul_le_mul_right l.entrySize (Nat.succ_le_of_lt hlt)
    rw [Nat.succ_mul] at hm
    omega

theorem ofBase_eq_ok {base n stride : Nat} (h : ofBase base n stride = .ok l) :
    StrideOk l.entrySize ∧ l.numEntries = n := by
  unfold ofBase at h
  split at h
  · rename_i hc
    cases h
    exact ⟨hc.2, rfl⟩
  · cases h

theorem tailAddr_of_ofBase {base n stride : Nat} (h : ofBase base n stride = .ok l) :
    l.tailAddr = l.headAddr + wordSize := by
  unfold ofBase at h
  split at h
  · cases h
    rfl
  · cases h

end RingLayout

namespace SourceRing

variable {r r' : SourceRing} {m : HostMemory} {t : Tally}

/-- The positions are the counters modulo the size, and the counters are in order. One entry
always stays free, so that they are less than a turn apart. -/
structure Tracks (r : SourceRing) (t : Tally) : Prop where
  size : 2 ≤ r.numEntries
  stride : RingLayout.StrideOk r.layout.entrySize
  reaped_le : t.reaped ≤ t.accepted
  accepted_le : t.accepted ≤ t.armed
  armed_lt : t.armed < t.reaped + r.numEntries
  head : r.head = t.armed % r.numEntries
  cachedTail : r.cachedTail = t.accepted % r.numEntries
  reapHead_lt : r.reapHead < r.numEntries
  reapHead : r.next r.reapHead = t.reaped % r.numEntries

theorem Tracks.reapHead_eq (h : Tracks r t) :
    r.reapHead = (t.reaped + r.numEntries - 1) % r.numEntries :=
  position_before h.reapHead_lt h.reapHead

theorem Tracks.completed_eq (h : Tracks r t) :
    r.completed r.cachedTail = t.accepted - t.reaped := by
  have hr := h.reaped_le
  have ha := h.accepted_le
  have hl := h.armed_lt
  rw [completed, distance, h.reapHead, h.cachedTail]
  exact steps_between hr (by omega)

theorem Tracks.availableCount_eq (h : Tracks r t) (hs : r.inAccess = true) :
    r.availableCount = t.accepted - t.reaped := by
  rw [availableCount, if_pos hs, h.completed_eq]

/-- A tail is taken over exactly if it lies on the way from the cached tail to the head. -/
theorem loadTail_eq_ok_iff {tail : Nat} :
    r.loadTail m = .ok tail ↔
      ∃ word, m.loadWord r.layout.tailAddr = .ok word ∧ pointerWord r.flags word = tail ∧
        tail < r.numEntries ∧
        r.distance r.cachedTail tail ≤ r.distance r.cachedTail r.head := by
  unfold loadTail
  cases hw : m.loadWord r.layout.tailAddr with
  | error e => simp
  | ok word =>
    simp only [Except.ok.injEq, exists_eq_left']
    split
    · rename_i hbad
      constructor
      · intro h; cases h
      · rintro ⟨rfl, hlt, hle⟩; omega
    · rename_i hgood
      constructor
      · intro h; cases h; exact ⟨rfl, by omega, by omega⟩
      · rintro ⟨rfl, -, -⟩; rfl

theorem accessBegin_cases (r : SourceRing) (m : HostMemory) :
    (∃ e, r.accessBegin m = (.error e, r)) ∨
      ∃ tail, r.inAccess = false ∧ r.loadTail m = .ok tail ∧
        r.accessBegin m = (.ok (), { r with cachedTail := tail, inAccess := true }) := by
  unfold accessBegin
  split
  · exact .inl ⟨_, rfl⟩
  · rename_i hs
    cases hl : r.loadTail m with
    | error e => exact .inl ⟨e, rfl⟩
    | ok tail => exact .inr ⟨tail, by simpa using hs, rfl, rfl⟩

theorem setEntry_cases (r : SourceRing) (m : HostMemory) (res : Reservation)
    (busAddr cookie : Nat) :
    (∃ e, r.setEntry m res busAddr cookie = (.error e, r, m)) ∨
      ∃ entry addr, r.inAccess = true ∧ r.Current res ∧ r.head ≠ r.reapHeadAfter res ∧
        RingEntry.ofFields busAddr cookie r.rbm = .ok entry ∧
        r.layout.entryAddr? r.head = some addr ∧ m.window.Covers addr RingEntry.size ∧
        r.setEntry m res busAddr cookie =
          (.ok (), { r with reapHead := r.reapHeadAfter res, head := r.next r.head },
            { m with window := (m.window.write addr entry.toBytes).2 }) := by
  unfold setEntry
  split
  · exact .inl ⟨_, rfl⟩
  rename_i hs
  split
  · exact .inl ⟨_, rfl⟩
  rename_i hcur
  split
  · exact .inl ⟨_, rfl⟩
  rename_i hroom
  cases he : RingEntry.ofFields busAddr cookie r.rbm with
  | error e => exact .inl ⟨e, rfl⟩
  | ok entry =>
    cases ha : r.layout.entryAddr? r.head with
    | none => exact .inl ⟨_, rfl⟩
    | some addr =>
      rcases m.write_cases addr entry.toBytes with ⟨e, hw⟩ | ⟨hc, hw⟩
      · exact .inl ⟨.memoryError, by simp only [hw]⟩
      · rw [RingEntry.length_toBytes] at hc
        exact .inr ⟨entry, addr, by simpa using hs, Decidable.not_not.mp hcur, hroom, rfl, rfl, hc,
          by simp only [hw]⟩

/-- A completed reservation is current only while its completion is not reaped. -/
theorem Tracks.reaped_lt (h : Tracks r t) {res : Reservation} (hc : r.Current res)
    (hd : res.completed = true) : t.reaped < t.accepted := by
  have hr := h.reaped_le
  simp only [Current, hd, if_true] at hc
  obtain ⟨hi, hne⟩ := hc
  rw [hi, h.reapHead, h.cachedTail] at hne
  rcases Nat.lt_or_eq_of_le hr with hlt | heq
  · exact hlt
  · exact absurd (by rw [heq]) hne

/-- A completed reservation leaves room for the arm: it gives back the position it reaps. -/
theorem Tracks.room_of_completed (h : Tracks r t) {res : Reservation} (hc : r.Current res)
    (hd : res.completed = true) : r.head ≠ r.reapHeadAfter res := by
  have hlt := h.reaped_lt hc hd
  have ha := h.accepted_le
  have hl := h.armed_lt
  simp only [Current, hd, if_true] at hc
  rw [reapHeadAfter, if_pos hd, hc.1, h.reapHead, h.head]
  exact Ne.symm (position_ne (by omega) hl)

theorem Tracks.room_of_free (h : Tracks r t) (hroom : r.head ≠ r.reapHead) :
    t.armed + 1 < t.reaped + r.numEntries := by
  have hle : t.armed + 1 ≤ t.reaped + r.numEntries := h.armed_lt
  rcases Nat.lt_or_eq_of_le hle with hlt | heq
  · exact hlt
  · refine absurd ?_ hroom
    rw [h.head, h.reapHead_eq, ← heq, Nat.add_sub_cancel]

theorem Tracks.free_of_room (h : Tracks r t) (hroom : t.armed + 1 < t.reaped + r.numEntries) :
    r.head ≠ r.reapHead := by
  have hr := h.reaped_le
  have ha := h.accepted_le
  rw [h.head, h.reapHead_eq]
  exact position_ne (by omega) (by omega)

theorem Tracks.current_completed (h : Tracks r t) (hlt : t.reaped < t.accepted)
    (entry : RingEntry) : r.Current ⟨t.reaped % r.numEntries, entry, true⟩ := by
  have ha := h.accepted_le
  have hl := h.armed_lt
  simp only [Current, if_true, h.reapHead, h.cachedTail, ne_eq, true_and]
  exact position_ne hlt (by omega)

theorem nextFreeEntry_eq_some (hs : r.inAccess = true) (hroom : r.head ≠ r.reapHead) :
    r.nextFreeEntry = some ⟨r.head, .zero, false⟩ ∧ r.Current ⟨r.head, .zero, false⟩ := by
  constructor
  · simp only [nextFreeEntry, hs, hroom, Bool.true_eq_false, or_self, if_false]
  · simp [Current]

theorem Tracks.of_create {reg : Registration} {rbm : Nat} (h : (create reg rbm m).1 = .ok r) :
    Tracks r ⟨0, 0, 0⟩ ∧ r.numEntries = reg.numEntries := by
  unfold create at h
  split at h
  · cases h
  rename_i hsize
  split at h
  · cases h
  rename_i layout hl
  obtain ⟨hs, hn⟩ := RingLayout.ofBase_eq_ok hl
  split at h
  · cases h
  split at h
  · cases h
  cases h
  have h2 : 2 ≤ reg.numEntries := by omega
  refine ⟨⟨hn ▸ h2, hs, Nat.le_refl 0, Nat.le_refl 0, ?_, ?_, ?_, ?_, ?_⟩, hn⟩ <;>
    simp only [numEntries, next, hn, Nat.zero_mod] <;> try omega
  rw [Nat.sub_add_cancel (by omega), Nat.mod_self]

/-- An accepted tail moves the counter of completions on by the steps that it is away. -/
theorem Tracks.accept (h : Tracks r t) {tail : Nat} (hl : r.loadTail m = .ok tail) :
    Tracks { r with cachedTail := tail, inAccess := true }
      { t with accepted := t.accepted + r.distance r.cachedTail tail } := by
  obtain ⟨-, -, -, hlt, hle⟩ := loadTail_eq_ok_iff.mp hl
  have hr := h.reaped_le
  have ha := h.accepted_le
  have ht := h.armed_lt
  -- the tail lies at most as far on as the head, and that is less than a turn away
  have hsteps : r.distance r.cachedTail r.head = t.armed - t.accepted := by
    rw [distance, h.cachedTail, h.head]
    exact steps_between ha (by omega)
  have hpos : (t.accepted + r.distance r.cachedTail tail) % r.numEntries = tail := by
    rw [distance, h.cachedTail]
    exact position_of_steps hlt
  exact
    { h with
      reaped_le := by simp only; omega
      accepted_le := by simp only; omega
      cachedTail := hpos.symm }

theorem Tracks.arm (h : Tracks r t) {res : Reservation} (hc : r.Current res)
    (hroom : r.head ≠ r.reapHeadAfter res) :
    Tracks { r with reapHead := r.reapHeadAfter res, head := r.next r.head } (t.arm res) := by
  have hr := h.reaped_le
  have ha := h.accepted_le
  have hl := h.armed_lt
  have hhead : r.next r.head = (t.armed + 1) % r.numEntries := by
    rw [next, h.head, Nat.mod_add_mod]
  cases hd : res.completed with
  | true =>
    have hlt := h.reaped_lt hc hd
    simp only [Current, hd, if_true] at hc
    have hidx : res.index = t.reaped % r.numEntries := hc.1.trans h.reapHead
    simp only [reapHeadAfter, hd, if_true, Tally.arm, Bool.toNat_true]
    exact
      { h with
        reaped_le := by simp only; omega
        accepted_le := by simp only; omega
        armed_lt := show t.armed + 1 < t.reaped + 1 + r.numEntries by omega
        head := hhead
        reapHead_lt := show res.index < r.numEntries from
          hidx ▸ Nat.mod_lt _ (Nat.lt_of_lt_of_le (by decide) h.size)
        reapHead := show r.next res.index = (t.reaped + 1) % r.numEntries by
          rw [next, hidx, Nat.mod_add_mod] }
  | false =>
    simp only [reapHeadAfter, hd, Bool.false_eq_true, if_false] at hroom
    have hlt := h.room_of_free hroom
    simp only [reapHeadAfter, hd, Bool.false_eq_true, if_false, Tally.arm, Bool.toNat_false]
    exact
      { h with
        accepted_le := by simp only; omega
        armed_lt := show t.armed + 1 < t.reaped + 0 + r.numEntries by omega
        head := hhead }

/-- A call of the ring's user, or anything that happens to its memory meanwhile. -/
inductive Call where
  | accessBegin
  | accessEnd
  | nextEntry
  | nextFreeEntry
  | setEntry (res : Reservation) (busAddr cookie : Nat)
  | thresholdReached
  | disturb (memory : HostMemory)

structure Session where
  ring : SourceRing
  host : Host
  tally : Tally

namespace Session

def start (r : SourceRing) (h : Host) : Session := ⟨r, h, ⟨0, 0, 0⟩⟩

/-- Any reservation may be handed back, at any time and any number of times. -/
def step (s : Session) : Call → Session
  | .accessBegin =>
    match s.ring.accessBegin s.host.memory with
    | (.error _, ring) => { s with ring }
    | (.ok _, ring) =>
      let advance := s.ring.distance s.ring.cachedTail ring.cachedTail
      { s with ring, tally := { s.tally with accepted := s.tally.accepted + advance } }
  | .accessEnd =>
    let (ring, host) := s.ring.accessEnd s.host
    { s with ring, host }
  | .nextEntry => { s with host := (s.ring.nextEntry s.host).2 }
  | .nextFreeEntry => s
  | .setEntry res busAddr cookie =>
    match s.ring.setEntry s.host.memory res busAddr cookie with
    | (.error _, ring, memory) => { s with ring, host := { s.host with memory } }
    | (.ok _, ring, memory) =>
      { ring, host := { s.host with memory }, tally := s.tally.arm res }
  | .thresholdReached => s
  | .disturb memory => { s with host := { s.host with memory } }

def run (s : Session) (calls : List Call) : Session := calls.foldl step s

end Session

theorem accessEnd_ring (r : SourceRing) (h : Host) :
    (r.accessEnd h).1 = { r with inAccess := false } := by
  unfold accessEnd
  split
  · simp only
    split <;> rfl
  · rename_i hs
    cases r
    simp_all

theorem step_tracks {s : Session} (h : Tracks s.ring s.tally) (c : Call) :
    Tracks (s.step c).ring (s.step c).tally := by
  cases c with
  | accessBegin =>
    rcases s.ring.accessBegin_cases s.host.memory with ⟨e, he⟩ | ⟨tail, -, hl, he⟩
    · simpa only [Session.step, he] using h
    · simpa only [Session.step, he] using h.accept hl
  | accessEnd =>
    simp only [Session.step, accessEnd_ring]
    exact { h with }
  | nextEntry => exact h
  | nextFreeEntry => exact h
  | setEntry res busAddr cookie =>
    rcases s.ring.setEntry_cases s.host.memory res busAddr cookie with
      ⟨e, he⟩ | ⟨entry, addr, -, hc, hroom, -, -, -, he⟩
    · simpa only [Session.step, he] using h
    · simpa only [Session.step, he] using h.arm hc hroom
  | thresholdReached => exact h
  | disturb memory => exact h

theorem run_tracks {s : Session} (h : Tracks s.ring s.tally) (calls : List Call) :
    Tracks (s.run calls).ring (s.run calls).tally := by
  induction calls generalizing s with
  | nil => exact h
  | cons c calls ih => exact ih (step_tracks h c)

structure SameSetup (r₀ r : SourceRing) : Prop where
  layout : r.layout = r₀.layout
  flags : r.flags = r₀.flags
  lowThreshold : r.lowThreshold = r₀.lowThreshold
  rbm : r.rbm = r₀.rbm

theorem SameSetup.refl (r : SourceRing) : SameSetup r r :=
  ⟨rfl, rfl, rfl, rfl⟩

theorem SameSetup.trans {r₀ : SourceRing} (h : SameSetup r₀ r) (h' : SameSetup r r') :
    SameSetup r₀ r' :=
  ⟨h'.layout.trans h.layout, h'.flags.trans h.flags, h'.lowThreshold.trans h.lowThreshold,
    h'.rbm.trans h.rbm⟩

theorem SameSetup.move {r₀ : SourceRing} (h : SameSetup r₀ r)
    (head reapHead cachedTail : Nat) (inAccess : Bool) :
    SameSetup r₀ { r with head, reapHead, cachedTail, inAccess } :=
  ⟨h.layout, h.flags, h.lowThreshold, h.rbm⟩

theorem step_fixed (s : Session) (c : Call) : SameSetup s.ring (s.step c).ring := by
  cases c with
  | accessBegin =>
    rcases s.ring.accessBegin_cases s.host.memory with ⟨e, he⟩ | ⟨tail, -, -, he⟩
    · simpa only [Session.step, he] using SameSetup.refl s.ring
    · simp only [Session.step, he]
      exact ⟨rfl, rfl, rfl, rfl⟩
  | accessEnd =>
    simp only [Session.step, accessEnd_ring]
    exact ⟨rfl, rfl, rfl, rfl⟩
  | nextEntry => exact .refl s.ring
  | nextFreeEntry => exact .refl s.ring
  | setEntry res busAddr cookie =>
    rcases s.ring.setEntry_cases s.host.memory res busAddr cookie with
      ⟨e, he⟩ | ⟨entry, addr, -, -, -, -, -, -, he⟩
    · simpa only [Session.step, he] using SameSetup.refl s.ring
    · simp only [Session.step, he]
      exact ⟨rfl, rfl, rfl, rfl⟩
  | thresholdReached => exact .refl s.ring
  | disturb memory => exact .refl s.ring

theorem run_fixed (s : Session) (calls : List Call) : SameSetup s.ring (s.run calls).ring := by
  induction calls generalizing s with
  | nil => exact .refl s.ring
  | cons c calls ih => exact (step_fixed s c).trans (ih (s.step c))

theorem step_numEntries (s : Session) (c : Call) :
    (s.step c).ring.numEntries = s.ring.numEntries :=
  congrArg RingLayout.numEntries (step_fixed s c).layout

theorem run_numEntries (s : Session) (calls : List Call) :
    (s.run calls).ring.numEntries = s.ring.numEntries :=
  congrArg RingLayout.numEntries (run_fixed s calls).layout

/-- An arm spares every position that is still in use: armed and not consumed, or completed and
not reaped by this very arm. -/
theorem Tracks.arm_spares (h : Tracks r t) {res : Reservation} {busAddr cookie : Nat}
    {m' : HostMemory} (ho : r.setEntry m res busAddr cookie = (.ok (), r', m')) {k : Nat}
    (hk : (t.arm res).reaped ≤ k) (hka : k < t.armed) :
    k % r.numEntries ≠ r.head ∧
      ∀ addr, r.layout.entryAddr? (k % r.numEntries) = some addr → ∀ i, i < RingEntry.size →
        m'.window.byteAt? (addr + i) = m.window.byteAt? (addr + i) := by
  rcases r.setEntry_cases m res busAddr cookie with
    ⟨e, he⟩ | ⟨entry, dest, -, hc, hroom, -, hd, -, he⟩
  · rw [ho] at he
    cases he
  · have hl : t.armed + 1 < (t.arm res).reaped + r.numEntries := (h.arm hc hroom).armed_lt
    have hne : k % r.numEntries ≠ r.head := by
      rw [h.head]
      exact position_ne hka (by omega)
    refine ⟨hne, ?_⟩
    intro addr ha i hi
    rw [ho] at he
    cases he
    have hap := RingLayout.entries_apart h.stride hne ha hd
    apply Window.byteAt?_write_of_outside
    rw [RingEntry.length_toBytes]
    omega

theorem Tracks.not_ringFull (h : Tracks r t) {res : Reservation} (hd : res.completed = true)
    (m : HostMemory) (busAddr cookie : Nat) :
    (r.setEntry m res busAddr cookie).1 ≠ .error .ringFull := by
  intro hf
  unfold setEntry at hf
  split at hf
  · cases hf
  split at hf
  · cases hf
  rename_i hc
  rw [if_neg (h.room_of_completed (Decidable.not_not.mp hc) hd)] at hf
  cases he : RingEntry.ofFields busAddr cookie r.rbm with
  | error e =>
    rw [he] at hf
    unfold RingEntry.ofFields at he
    cases hf
    split at he
    · split at he <;> cases he
    · cases he
  | ok entry =>
    rw [he] at hf
    simp only at hf
    split at hf
    · cases hf
    · split at hf <;> cases hf

/-- Whatever the device stores and whichever accesses fail, the positions of a ring are its
counters modulo its size, the counters are in order, and an arm never overwrites an entry that is
in use. No sum of positions leaves 32 bits. -/
theorem pointers_track_counters {reg : Registration} {rbm : Nat}
    (hc : (create reg rbm m).1 = .ok r) (hn : reg.numEntries ≤ 1 <<< 31) (h : Host)
    (calls : List Call) :
    let s := (Session.start r h).run calls
    let n := reg.numEntries
    let t := s.tally
    (t.reaped ≤ t.accepted ∧ t.accepted ≤ t.armed ∧ t.armed ≤ t.reaped + n - 1) ∧
    (s.ring.head = t.armed % n ∧ s.ring.cachedTail = t.accepted % n ∧
      (s.ring.reapHead + 1) % n = t.reaped % n) ∧
    (s.ring.head + n < 1 <<< 32 ∧ s.ring.cachedTail + n < 1 <<< 32 ∧
      s.ring.reapHead + n < 1 <<< 32) ∧
    (s.ring.inAccess = true → s.ring.availableCount = t.accepted - t.reaped) ∧
    (∀ res busAddr cookie r' m',
      s.ring.setEntry s.host.memory res busAddr cookie = (.ok (), r', m') →
      ∀ k, (t.arm res).reaped ≤ k → k < t.armed →
        k % n ≠ s.ring.head ∧
        ∀ addr, s.ring.layout.entryAddr? (k % n) = some addr → ∀ i, i < RingEntry.size →
          m'.window.byteAt? (addr + i) = s.host.memory.window.byteAt? (addr + i)) ∧
    (∀ res busAddr cookie, res.completed = true →
      (s.ring.setEntry s.host.memory res busAddr cookie).1 ≠ .error .ringFull) := by
  intro s n t
  obtain ⟨h0, hsize⟩ := Tracks.of_create hc
  have ht : Tracks s.ring t := run_tracks (s := Session.start r h) h0 calls
  have hs : n = s.ring.numEntries := ((run_numEntries _ calls).trans hsize).symm
  replace hn : n ≤ 1 <<< 31 := hn
  clear_value n
  subst hs
  have hl := ht.armed_lt
  have hlt (x : Nat) : x % s.ring.numEntries < s.ring.numEntries :=
    Nat.mod_lt _ (Nat.lt_of_lt_of_le (by decide) ht.size)
  have hhead := ht.head ▸ hlt t.armed
  have htail := ht.cachedTail ▸ hlt t.accepted
  have hreap := ht.reapHead_lt
  refine ⟨⟨ht.reaped_le, ht.accepted_le, by omega⟩, ⟨ht.head, ht.cachedTail, ht.reapHead⟩,
    ⟨by omega, by omega, by omega⟩, ht.availableCount_eq, ?_, ?_⟩
  · intro res busAddr cookie r' m' ho k hk hka
    exact ht.arm_spares ho hk hka
  · intro res busAddr cookie hd
    exact ht.not_ringFull hd _ _ _

theorem pointers_track_counters_lap :
    let reg : Registration := ⟨0, 4, 8, 0, .empty⟩
    let memory : HostMemory := ⟨.zeroed 0 64, []⟩
    let r : SourceRing := ⟨⟨0, 4, 8, 32, 36⟩, .empty, 0, 3, 0, 3, 0, false⟩
    let s := (Session.start r ⟨memory, #[]⟩).run
      [.accessBegin, .setEntry ⟨0, .zero, false⟩ 64 0, .setEntry ⟨0, .zero, false⟩ 64 0,
        .setEntry ⟨1, .zero, false⟩ 128 1, .setEntry ⟨2, .zero, false⟩ 192 2, .accessEnd,
        .disturb { memory with window := (memory.window.write 36 [2]).2 }, .accessBegin,
        .setEntry ⟨0, .zero, true⟩ 256 3]
    (create reg 3 memory).1 = .ok r ∧ reg.numEntries ≤ 1 <<< 31 ∧ s.tally = ⟨4, 2, 1⟩ ∧
      s.ring.head = s.tally.armed % 4 ∧ s.ring.cachedTail = s.tally.accepted % 4 ∧
      (s.ring.reapHead + 1) % 4 = s.tally.reaped % 4 :=
  have hcreated : (create ⟨0, 4, 8, 0, .empty⟩ 3 ⟨.zeroed 0 64, []⟩).1 =
      .ok ⟨⟨0, 4, 8, 32, 36⟩, .empty, 0, 3, 0, 3, 0, false⟩ := rfl
  have hsize : (⟨0, 4, 8, 0, .empty⟩ : Registration).numEntries ≤ 1 <<< 31 := by decide
  ⟨hcreated, hsize, by decide +kernel, (pointers_track_counters hcreated hsize _ _).2.1⟩

end SourceRing

end FrameRing
