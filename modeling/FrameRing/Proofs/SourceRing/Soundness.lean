import FrameRing.Proofs.SourceRing.Queue

/-! # What a sound ring can refuse

A ring that lies in its memory, with its positions in order, refuses a section only for what the
device stored or for a failed access, and a reservation that is current only for a failed write or
for a buffer out of an entry's reach. Every other refusal would be the host's own mistake. -/

namespace FrameRing

/-- A refusal that has its cause outside the ring: in the memory, in the device or in where a
buffer lies. -/
def SourceRingError.isExternal : SourceRingError → Bool
  | .memoryError | .invalidPointer _ | .addrOutOfRange _ => true
  | _ => false

theorem RingEntry.ofFields_eq_error {busAddr cookie rbm : Nat} {e : SourceRingError}
    (hc : cookie < 1 <<< 21) (h : ofFields busAddr cookie rbm = .error e) :
    e = .addrOutOfRange busAddr := by
  unfold ofFields at h
  split at h
  · cases h
  · cases h
    rfl

namespace SourceRing

variable {r : SourceRing} {a : Allocation} {m : HostMemory} {res : Reservation}
  {e : SourceRingError}

structure Sound (r : SourceRing) (a : Allocation) : Prop where
  inside : r.layout.Inside a
  tracks : ∃ t, Tracks r t

theorem sound_created {reg : Registration} {rbm : Nat} (h : (create reg rbm m).1 = .ok r)
    (haddr : reg.ringBase = a.addr)
    (hlen : RingLayout.querySize reg.numEntries reg.entrySize ≤ a.len)
    (hlim : a.addr + a.len ≤ addressLimit) : r.inAccess = false ∧ r.Sound a := by
  obtain ⟨-, hlayout, hshape⟩ := create_shape h
  constructor
  · rw [hshape]
  · exact ⟨RingLayout.inside_of_ofBase (haddr ▸ hlayout) hlen hlim, _, (Tracks.of_create h).1⟩

namespace Sound

theorem head_lt (h : r.Sound a) : r.head < r.layout.numEntries := by
  obtain ⟨t, ht⟩ := h.tracks
  rw [ht.head]
  exact Nat.mod_lt _ (Nat.lt_of_lt_of_le (by decide) ht.size)

theorem open_ok {r' : SourceRing} (h : r.Sound a) (ho : r.accessBegin m = (.ok (), r')) :
    r'.inAccess = true ∧ r'.Sound a := by
  obtain ⟨t, ht⟩ := h.tracks
  rcases r.accessBegin_cases m with ⟨e, he⟩ | ⟨tail, -, hl, he⟩
  · cases ho.symm.trans he
  · cases ho.symm.trans he
    exact ⟨rfl, h.inside, _, ht.accept hl⟩

theorem close (h : r.Sound a) : Sound { r with inAccess := false } a := by
  obtain ⟨t, ht⟩ := h.tracks
  exact ⟨h.inside, t, { ht with }⟩

theorem setEntry (h : r.Sound a) (res : Reservation) (busAddr cookie : Nat) :
    let r' := (r.setEntry m res busAddr cookie).2.1
    r'.inAccess = r.inAccess ∧ r'.Sound a := by
  obtain ⟨t, ht⟩ := h.tracks
  rcases r.setEntry_cases m res busAddr cookie with
    ⟨e, he⟩ | ⟨entry, addr, -, hcur, hroom, -, -, -, he⟩
  · rw [he]
    exact ⟨rfl, h⟩
  · rw [he]
    exact ⟨rfl, h.inside, _, ht.arm hcur hroom⟩

end Sound

/-- A closed ring opens unless its tail word cannot be read or makes no sense. -/
theorem accessBegin_error (hs : r.inAccess = false) {r' : SourceRing}
    (h : r.accessBegin m = (.error e, r')) : r' = r ∧ e.isExternal = true := by
  unfold accessBegin at h
  rw [hs] at h
  simp only [Bool.false_eq_true, if_false] at h
  unfold loadTail at h
  cases hw : m.loadWord r.layout.tailAddr with
  | error fault =>
    rw [hw] at h
    cases h
    exact ⟨rfl, rfl⟩
  | ok word =>
    rw [hw] at h
    simp only at h
    split at h
    · rename_i hl
      split at hl
      · cases hl
        cases h
        exact ⟨rfl, rfl⟩
      · cases hl
    · cases h

theorem nextEntry_current {h : Host} (hn : (r.nextEntry h).1 = some res) :
    r.inAccess = true ∧ res.completed = true ∧ r.Current res := by
  unfold nextEntry at hn
  simp only at hn
  split at hn
  · cases hn
  rename_i hopen
  rw [not_or, Bool.not_eq_false] at hopen
  split at hn
  · cases hn
  split at hn
  · cases hn
    exact ⟨hopen.1, rfl, rfl, hopen.2⟩
  · cases hn

theorem nextFreeEntry_current (hn : r.nextFreeEntry = some res) :
    r.inAccess = true ∧ res.completed = false ∧ r.Current res ∧ r.head ≠ r.reapHead := by
  unfold nextFreeEntry at hn
  split at hn
  · cases hn
  · rename_i hopen
    rw [not_or, Bool.not_eq_false] at hopen
    cases hn
    exact ⟨hopen.1, rfl, rfl, hopen.2⟩

/-- A current reservation is refused only if the entry cannot be written or name its buffer. -/
theorem Sound.setEntry_error (h : r.Sound a) (hs : r.inAccess = true) (hc : r.Current res)
    (hroom : r.head ≠ r.reapHeadAfter res) {busAddr cookie : Nat} (hcookie : cookie < 1 <<< 21)
    (he : (r.setEntry m res busAddr cookie).1 = .error e) : e.isExternal = true := by
  unfold SourceRing.setEntry at he
  simp only [hs, hc, hroom, h.inside.entryAddr? h.head_lt, Bool.true_eq_false,
    not_true_eq_false, if_false] at he
  split at he
  · rename_i hfields
    cases RingEntry.ofFields_eq_error hcookie hfields
    cases he
    rfl
  · split at he
    · cases he
      rfl
    · cases he

end SourceRing

end FrameRing
