import FrameRing.Proofs.SourceRing.Alike

/-! # What the device was shown

The host tells the device of new entries by storing the head when a section closes. That store may
fail, and then the ring is ahead of what the device was shown until a later section stores its
head. The device's tail is checked against the ring's own head, not against the one that was
stored. -/

namespace FrameRing.SourceRing

variable {r r' : SourceRing} {m : HostMemory} {t : Tally}

def Session.Publishes (s : Session) : Call → Prop
  | .accessEnd =>
    s.ring.inAccess = true ∧
      (storePointer s.ring.flags s.host.memory s.ring.layout.headAddr s.ring.head).1.isOk = true
  | _ => False

instance (s : Session) : (c : Call) → Decidable (s.Publishes c)
  | .accessEnd => inferInstanceAs (Decidable (_ ∧ _))
  | .accessBegin | .nextEntry | .nextFreeEntry | .setEntry .. | .thresholdReached | .disturb _ =>
    isFalse id

/-- Every section that the calls close stores its head. -/
def Session.AllStored (s : Session) : List Call → Prop
  | [] => True
  | c :: calls =>
    (s.ring.inAccess = true → (s.step c).ring.inAccess = false → s.Publishes c) ∧
      (s.step c).AllStored calls

/-- A ring in use and the head that its device was last shown. -/
structure Publication extends Session where
  /-- The value that was last stored in the head word. -/
  shown : Nat
  /-- The positions that were armed when it was stored. -/
  published : Nat

namespace Publication

def start (r : SourceRing) (h : Host) : Publication := ⟨.start r h, 0, 0⟩

def step (s : Publication) (c : Call) : Publication :=
  { toSession := s.toSession.step c
    shown := if s.Publishes c then s.ring.head else s.shown
    published := if s.Publishes c then s.tally.armed else s.published }

def run (s : Publication) (calls : List Call) : Publication := calls.foldl step s

/-- Whatever the device leaves in memory, a section that opens takes over published entries only. -/
def AcceptsPublished (s : Publication) : Prop :=
  ∀ memory r', s.ring.accessBegin memory = (.ok (), r') →
    s.tally.accepted + s.ring.distance s.ring.cachedTail r'.cachedTail ≤ s.published

structure Dated (s : Publication) : Prop where
  tracks : Tracks s.ring s.tally
  published_le : s.published ≤ s.tally.armed
  shown : s.shown = s.published % s.ring.numEntries

variable {s : Publication}

theorem toSession_run (s : Publication) (calls : List Call) :
    (s.run calls).toSession = s.toSession.run calls := by
  induction calls generalizing s with
  | nil => rfl
  | cons c calls ih => exact ih (s.step c)

end Publication

theorem Session.armed_le_step (s : Session) (c : Call) :
    s.tally.armed ≤ (s.step c).tally.armed := by
  cases c with
  | accessBegin =>
    rcases s.ring.accessBegin_cases s.host.memory with ⟨e, he⟩ | ⟨tail, -, -, he⟩ <;>
      simp only [Session.step, he, Nat.le_refl]
  | setEntry res busAddr cookie =>
    rcases s.ring.setEntry_cases s.host.memory res busAddr cookie with
      ⟨e, he⟩ | ⟨entry, addr, -, -, -, -, -, -, he⟩
    · simp only [Session.step, he, Nat.le_refl]
    · simp only [Session.step, he, Tally.arm]
      omega
  | accessEnd | nextEntry | nextFreeEntry | thresholdReached | disturb memory =>
    exact Nat.le_refl _

theorem Session.armed_step_of_closed {s : Session} {c : Call}
    (hclosed : (s.step c).ring.inAccess = false) : (s.step c).tally.armed = s.tally.armed := by
  cases c with
  | accessBegin =>
    rcases s.ring.accessBegin_cases s.host.memory with ⟨e, he⟩ | ⟨tail, -, -, he⟩ <;>
      simp only [Session.step, he]
  | setEntry res busAddr cookie =>
    rcases s.ring.setEntry_cases s.host.memory res busAddr cookie with
      ⟨e, he⟩ | ⟨entry, addr, hopen, -, -, -, -, -, he⟩
    · simp only [Session.step, he]
    · simp only [Session.step, he, hopen] at hclosed
      cases hclosed
  | accessEnd | nextEntry | nextFreeEntry | thresholdReached | disturb memory => rfl

theorem Session.Publishes.stored {s : Session} {c : Call} (h : s.Publishes c)
    (hn : s.ring.head < 1 <<< 32) :
    (s.step c).host.memory.window.loadWord s.ring.layout.headAddr =
      .ok (pointerWord s.ring.flags s.ring.head) := by
  cases c with
  | accessEnd =>
    obtain ⟨hopen, hok⟩ := h
    rcases storePointer_cases s.ring.flags s.host.memory s.ring.layout.headAddr s.ring.head with
      he | ⟨hcov, he⟩
    · rw [he] at hok
      cases hok
    · simp only [Session.step, accessEnd, hopen, if_true, he]
      rw [Window.loadWord_eq_ok_iff (pointerWord_lt hn)]
      exact ⟨Window.covers_write.mpr hcov, Window.shows_write (by simpa using hcov)⟩
  | accessBegin | nextEntry | nextFreeEntry | setEntry | thresholdReached | disturb => cases h

namespace Publication

variable {s : Publication}

theorem Dated.step (h : s.Dated) (c : Call) : (s.step c).Dated := by
  have hn := step_numEntries s.toSession c
  have hle := s.armed_le_step c
  constructor
  · exact step_tracks h.tracks c
  · simp only [Publication.step]
    split
    · exact hle
    · exact Nat.le_trans h.published_le hle
  · simp only [Publication.step, hn]
    split
    · exact h.tracks.head
    · exact h.shown

theorem Dated.run (h : s.Dated) (calls : List Call) : (s.run calls).Dated := by
  induction calls generalizing s with
  | nil => exact h
  | cons c calls ih => exact ih (h.step c)

/-- As long as no store fails, all that was armed is published once the section is closed. -/
theorem published_run {calls : List Call} (hall : s.AllStored calls)
    (h : s.ring.inAccess = false → s.published = s.tally.armed)
    (hclosed : (s.run calls).ring.inAccess = false) :
    (s.run calls).published = (s.run calls).tally.armed := by
  induction calls generalizing s with
  | nil => exact h hclosed
  | cons c calls ih =>
    obtain ⟨hstored, hall⟩ := hall
    refine ih hall ?_ hclosed
    intro hc
    change (if s.Publishes c then _ else _) = (s.toSession.step c).tally.armed
    rw [Session.armed_step_of_closed hc]
    split
    · rfl
    · rename_i hnot
      cases hopen : s.ring.inAccess with
      | false => exact h hopen
      | true => exact absurd (hstored hopen hc) hnot

end Publication

theorem exists_memory_showing (r : SourceRing) (position : Nat) (hp : position < 1 <<< 32) :
    ∃ memory : HostMemory,
      memory.loadWord r.layout.tailAddr = .ok (pointerWord r.flags position) := by
  let word := LittleEndian.encode 4 (pointerWord r.flags position)
  let window := Window.zeroed r.layout.tailAddr 4
  have hlen : word.length = 4 := LittleEndian.length_encode 4 _
  have hc : window.Covers r.layout.tailAddr word.length := by
    simp [Window.Covers, Window.size, window, Window.zeroed, hlen]
  refine ⟨⟨(window.write r.layout.tailAddr word).2, []⟩, ?_⟩
  rw [HostMemory.loadWord_healthy rfl, Window.loadWord_eq_ok_iff (pointerWord_lt hp)]
  exact ⟨Window.covers_write.mpr (hlen ▸ hc), Window.shows_write hc⟩

/-- A tail at the ring's own head is taken over, and every arm counts as accepted from then on. -/
theorem Tracks.accept_head (h : Tracks r t) (hs : r.inAccess = false)
    (hn : r.numEntries ≤ 1 <<< 32)
    (hw : m.loadWord r.layout.tailAddr = .ok (pointerWord r.flags r.head)) :
    r.accessBegin m = (.ok (), { r with cachedTail := r.head, inAccess := true }) ∧
      t.accepted + r.distance r.cachedTail r.head = t.armed := by
  have hle := h.accepted_le
  have hlt := h.armed_lt
  have hr := h.reaped_le
  have hpos := h.size
  have hhead : r.head < r.numEntries := h.head ▸ Nat.mod_lt _ (by omega)
  have htail : r.loadTail m = .ok r.head :=
    loadTail_eq_ok_iff.mpr
      ⟨_, hw, pointerWord_pointerWord r.flags (by omega), hhead, Nat.le_refl _⟩
  constructor
  · simp only [accessBegin, hs, Bool.false_eq_true, if_false, htail]
  · rw [distance, h.cachedTail, h.head, steps_between hle (by omega)]
    omega

/-- A section that opens never takes over more than was armed. -/
theorem Tracks.accept_le_armed (h : Tracks r t) (ho : r.accessBegin m = (.ok (), r')) :
    t.accepted + r.distance r.cachedTail r'.cachedTail ≤ t.armed := by
  rcases r.accessBegin_cases m with ⟨e, he⟩ | ⟨tail, -, hl, he⟩
  · rw [ho] at he
    cases he
  · rw [ho] at he
    cases he
    exact (h.accept hl).accepted_le

namespace Publication

variable {s : Publication}

theorem Dated.acceptsPublished_iff (h : s.Dated) (hs : s.ring.inAccess = false)
    (hn : s.ring.numEntries ≤ 1 <<< 32) :
    s.AcceptsPublished ↔ s.published = s.tally.armed := by
  constructor
  · intro hall
    have hpos := h.tracks.size
    have hhead : s.ring.head < s.ring.numEntries := h.tracks.head ▸ Nat.mod_lt _ (by omega)
    obtain ⟨memory, hw⟩ := s.ring.exists_memory_showing s.ring.head (by omega)
    obtain ⟨hopen, harmed⟩ := h.tracks.accept_head hs hn hw
    have hle := hall memory _ hopen
    have hpub := h.published_le
    simp only at hle
    omega
  · intro heq memory r' ho
    rw [heq]
    exact h.tracks.accept_le_armed ho

end Publication

/-- A section takes over entries up to the ring's own head, whether or not the device was shown
that head. So a closed ring is safe from a device that runs ahead of what it was shown exactly
while the last head is stored, which holds throughout if no store of a head fails. -/
theorem run_accepts_published_iff {reg : Registration} {rbm : Nat}
    (hc : (create reg rbm m).1 = .ok r) (hn : reg.numEntries ≤ 1 <<< 31) (h : Host)
    (calls : List Call) :
    let s := (Publication.start r h).run calls
    s.toSession = (Session.start r h).run calls ∧
    (s.shown = s.published % reg.numEntries ∧ s.published ≤ s.tally.armed) ∧
    (∀ c, s.Publishes c →
      (s.step c).host.memory.window.loadWord s.ring.layout.headAddr =
        .ok (pointerWord s.ring.flags (s.step c).shown)) ∧
    (s.tally.accepted ≤ s.published →
      s.ring.distance s.ring.cachedTail s.shown = s.published - s.tally.accepted) ∧
    (∀ memory r', s.ring.accessBegin memory = (.ok (), r') →
      s.tally.accepted + s.ring.distance s.ring.cachedTail r'.cachedTail ≤ s.tally.armed) ∧
    (s.ring.inAccess = false → (s.AcceptsPublished ↔ s.published = s.tally.armed)) ∧
    ((Session.start r h).AllStored calls → s.ring.inAccess = false → s.AcceptsPublished) := by
  intro s
  obtain ⟨htracks, hsize⟩ := Tracks.of_create hc
  have hdated : s.Dated := by
    apply Publication.Dated.run
    exact ⟨htracks, Nat.le_refl 0, (Nat.zero_mod _).symm⟩
  have hrun : s.toSession = (Session.start r h).run calls := Publication.toSession_run _ calls
  have hs : reg.numEntries = s.ring.numEntries := by
    rw [hrun, run_numEntries]
    exact hsize.symm
  have hn' : s.ring.numEntries ≤ 1 <<< 32 := by rw [← hs]; omega
  refine ⟨hrun, ⟨hs ▸ hdated.shown, hdated.published_le⟩, ?_, ?_, ?_, ?_, ?_⟩
  · intro c hpub
    have hpos := hdated.tracks.size
    have hhead : s.ring.head < s.ring.numEntries := hdated.tracks.head ▸ Nat.mod_lt _ (by omega)
    have hshown : (s.step c).shown = s.ring.head := if_pos hpub
    rw [hshown]
    exact hpub.stored (by omega)
  · intro hle
    have hpub := hdated.published_le
    have hlt := hdated.tracks.armed_lt
    have hreaped := hdated.tracks.reaped_le
    rw [distance, hdated.shown, hdated.tracks.cachedTail]
    exact steps_between hle (by omega)
  · intro memory r' ho
    exact hdated.tracks.accept_le_armed ho
  · intro hclosed
    exact hdated.acceptsPublished_iff hclosed hn'
  · intro hall hclosed
    rw [hdated.acceptsPublished_iff hclosed hn']
    exact Publication.published_run (s := .start r h) hall (fun _ => rfl) hclosed

/-- The store of the head fails when the section closes. The device was shown no entry, moves its
tail over the one that was armed, and the next section takes it over. -/
theorem run_accepts_published_iff_lost :
    let reg : Registration := ⟨0, 4, 8, 0, .empty⟩
    let memory : HostMemory := ⟨.zeroed 0 64, []⟩
    let r : SourceRing := ⟨⟨0, 4, 8, 32, 36⟩, .empty, 0, 3, 0, 3, 0, false⟩
    let ahead : HostMemory := { memory with window := (memory.window.write 36 [1]).2 }
    let s := (Publication.start r ⟨memory, #[]⟩).run
      [.accessBegin, .setEntry ⟨0, .zero, false⟩ 64 0,
        .disturb { memory with faults := [⟨.store, 32, 4⟩] }, .accessEnd, .disturb ahead]
    (create reg 3 memory).1 = .ok r ∧ reg.numEntries ≤ 1 <<< 31 ∧
      (s.ring.inAccess = false ∧ s.tally = ⟨1, 0, 0⟩ ∧ s.published = 0 ∧ s.shown = 0) ∧
      (s.step .accessBegin).tally.accepted = 1 ∧ ¬ s.AcceptsPublished :=
  have hcreated : (create ⟨0, 4, 8, 0, .empty⟩ 3 ⟨.zeroed 0 64, []⟩).1 =
      .ok ⟨⟨0, 4, 8, 32, 36⟩, .empty, 0, 3, 0, 3, 0, false⟩ := rfl
  have hsize : (⟨0, 4, 8, 0, .empty⟩ : Registration).numEntries ≤ 1 <<< 31 := by decide
  ⟨hcreated, hsize, by decide +kernel, by decide +kernel, fun hall =>
    absurd (((run_accepts_published_iff hcreated hsize _ _).2.2.2.2.2.1 rfl).mp hall)
      (by decide +kernel)⟩

end FrameRing.SourceRing
