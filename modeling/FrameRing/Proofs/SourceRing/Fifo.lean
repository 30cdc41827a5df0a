import FrameRing.Proofs.SourceRing.Queue

/-! # Completions come out as they were armed

A transcript runs a ring beside the list of everything that was armed on it. Whatever sections are
opened and whichever reservations are dropped, kept or used late, the oldest completion that is not
reaped is the entry that was armed as many arms ago as the list says. -/

namespace FrameRing.SourceRing

/-- A ring in use, with bus address and cookie of every arm so far, oldest first. -/
structure Transcript extends Session where
  posted : List (Nat × Nat)

inductive Turn where
  | call (c : Call)
  | store (addr : Nat) (src : List UInt8)

/-- Memory is healthy, and what is stored does not touch the entries. The tail word may be stored
to at will: a tail that is not valid is refused when a section opens. -/
def Turn.Spares (l : RingLayout) : Turn → Prop
  | .call (.disturb _) => False
  | .call _ => True
  | .store addr src => addr + src.length ≤ l.baseAddr ∨ l.headAddr ≤ addr

instance (l : RingLayout) : (turn : Turn) → Decidable (turn.Spares l)
  | .call (.disturb _) => isFalse id
  | .call .accessBegin | .call .accessEnd | .call .nextEntry | .call .nextFreeEntry
  | .call (.setEntry ..) | .call .thresholdReached => isTrue trivial
  | .store .. => inferInstanceAs (Decidable (_ ∨ _))

def Session.posts (s : Session) : Call → List (Nat × Nat)
  | .setEntry res busAddr cookie =>
    match s.ring.setEntry s.host.memory res busAddr cookie with
    | (.error _, _) => []
    | (.ok _, _) => [(busAddr, cookie)]
  | _ => []

namespace Transcript

def start (r : SourceRing) (h : Host) : Transcript := ⟨.start r h, []⟩

def step (s : Transcript) : Turn → Transcript
  | .call c => ⟨s.toSession.step c, s.posted ++ s.toSession.posts c⟩
  | .store addr src =>
    let window := (s.host.memory.window.write addr src).2
    { s with host := { s.host with memory := { s.host.memory with window } } }

def run (s : Transcript) (turns : List Turn) : Transcript := turns.foldl step s

structure Kept (l : RingLayout) (rbm : Nat) (s : Transcript) : Prop where
  holds : s.ring.Holds s.host.memory.window s.tally s.posted
  layout_eq : s.ring.layout = l
  rbm_eq : s.ring.rbm = rbm
  inside : l.Inside l.extent
  healthy : s.host.memory.faults = []
  covers : s.host.memory.window.Covers l.extent.addr l.extent.len

variable {l : RingLayout} {rbm : Nat} {s : Transcript}

theorem Kept.accessBegin (h : s.Kept l rbm) : (s.step (.call .accessBegin)).Kept l rbm := by
  simp only [step, Session.step, Session.posts, List.append_nil]
  rcases s.ring.accessBegin_cases s.host.memory with ⟨e, he⟩ | ⟨tail, -, hl, he⟩
  · simp only [he]
    exact h
  · simp only [he]
    exact { h with holds := ⟨h.holds.accept hl, h.holds.length, h.holds.shown⟩ }

theorem Kept.accessEnd (h : s.Kept l rbm) : (s.step (.call .accessEnd)).Kept l rbm := by
  obtain ⟨hholds, rfl, hrbm, hinside, hhealthy, hcovers⟩ := h
  simp only [step, Session.step, Session.posts, List.append_nil]
  cases hs : s.ring.inAccess with
  | false =>
    simp only [SourceRing.accessEnd, hs, Bool.false_eq_true, if_false]
    exact ⟨hholds, rfl, hrbm, hinside, hhealthy, hcovers⟩
  | true =>
    have hw := hinside.words
    have hend := accessEnd_healthy s.host.journal hs hhealthy
      (hcovers.sub (by omega) (by omega))
    rw [hend]
    exact ⟨⟨{ hholds.toTracks with }, hholds.length,
      (hholds.write hinside (.inr (Nat.le_refl _))).shown⟩, rfl, hrbm, hinside, hhealthy,
      Window.covers_write.mpr hcovers⟩

theorem Kept.setEntry (h : s.Kept l rbm) (res : Reservation) (busAddr cookie : Nat) :
    (s.step (.call (.setEntry res busAddr cookie))).Kept l rbm := by
  obtain ⟨hholds, rfl, hrbm, hinside, hhealthy, hcovers⟩ := h
  simp only [step, Session.step, Session.posts]
  rcases s.ring.setEntry_cases s.host.memory res busAddr cookie with
    ⟨e, he⟩ | ⟨entry, addr, hs, hcur, hroom, hentry, -, -, he⟩
  · simp only [he, List.append_nil]
    exact ⟨hholds, rfl, hrbm, hinside, hhealthy, hcovers⟩
  · obtain ⟨hset, hkept⟩ := hholds.setEntry_healthy hinside hs hhealthy hcovers hcur hroom hentry
    simp only [hset]
    exact ⟨hkept, rfl, hrbm, hinside, hhealthy, Window.covers_write.mpr hcovers⟩

theorem step_kept (h : s.Kept l rbm) {turn : Turn} (ht : turn.Spares l) :
    (s.step turn).Kept l rbm := by
  cases turn with
  | store addr src =>
    obtain ⟨hholds, rfl, hrbm, hinside, hhealthy, hcovers⟩ := h
    have hbase := hinside.base
    refine ⟨hholds.write hinside ?_, rfl, hrbm, hinside, hhealthy,
      Window.covers_write.mpr hcovers⟩
    rwa [← hbase]
  | call c =>
    cases c with
    | accessBegin => exact h.accessBegin
    | accessEnd => exact h.accessEnd
    | nextEntry =>
      simp only [step, Session.step, Session.posts, List.append_nil]
      exact
        { h with
          holds := by rw [nextEntry_memory]; exact h.holds
          healthy := by rw [nextEntry_memory]; exact h.healthy
          covers := by rw [nextEntry_memory]; exact h.covers }
    | nextFreeEntry => simpa only [step, Session.step, Session.posts, List.append_nil] using h
    | setEntry res busAddr cookie => exact h.setEntry res busAddr cookie
    | thresholdReached => simpa only [step, Session.step, Session.posts, List.append_nil] using h
    | disturb memory => cases ht

theorem run_kept (h : s.Kept l rbm) {turns : List Turn} (ht : ∀ turn ∈ turns, turn.Spares l) :
    (s.run turns).Kept l rbm := by
  induction turns generalizing s with
  | nil => exact h
  | cons turn turns ih =>
    have hfirst := step_kept h (ht turn List.mem_cons_self)
    exact ih hfirst fun t hm => ht t (List.mem_cons_of_mem turn hm)

/-- Completions are accepted and arms are written down for good. -/
theorem step_grows (s : Transcript) (turn : Turn) :
    s.tally.accepted ≤ (s.step turn).tally.accepted ∧ s.posted <+: (s.step turn).posted := by
  cases turn with
  | store addr src => exact ⟨Nat.le_refl _, List.prefix_refl _⟩
  | call c =>
    refine ⟨?_, List.prefix_append _ _⟩
    cases c with
    | accessBegin =>
      simp only [step, Session.step]
      split
      · exact Nat.le_refl _
      · exact Nat.le_add_right _ _
    | setEntry res busAddr cookie =>
      simp only [step, Session.step]
      split
      · exact Nat.le_refl _
      · exact Nat.le_refl _
    | _ => exact Nat.le_refl _

theorem run_grows (s : Transcript) (turns : List Turn) :
    s.tally.accepted ≤ (s.run turns).tally.accepted ∧ s.posted <+: (s.run turns).posted := by
  induction turns generalizing s with
  | nil => exact ⟨Nat.le_refl _, List.prefix_refl _⟩
  | cons turn turns ih =>
    obtain ⟨haccepted, hposted⟩ := s.step_grows turn
    obtain ⟨haccepted', hposted'⟩ := ih (s.step turn)
    exact ⟨Nat.le_trans haccepted haccepted', hposted.trans hposted'⟩

/-- The oldest completion is absent if all are reaped, and otherwise the arm of its number. -/
theorem Kept.nextEntry_cases (h : s.Kept l rbm) (hs : s.ring.inAccess = true) :
    (s.tally.reaped = s.tally.accepted ∧ (s.ring.nextEntry s.host).1 = none) ∨
      ∃ busAddr cookie entry, s.tally.reaped < s.tally.accepted ∧
        s.posted[s.tally.reaped]? = some (busAddr, cookie) ∧
        RingEntry.ofFields busAddr cookie rbm = .ok entry ∧
        (s.ring.nextEntry s.host).1 =
          some ⟨s.tally.reaped % l.numEntries, entry, true⟩ := by
  obtain ⟨hholds, rfl, rfl, hinside, hhealthy, hcovers⟩ := h
  have hr := hholds.reaped_le
  have ha := hholds.accepted_le
  by_cases hlt : s.tally.reaped < s.tally.accepted
  · have hlen : s.tally.reaped < s.posted.length := by rw [hholds.length]; omega
    obtain ⟨⟨busAddr, cookie⟩, hp⟩ : ∃ p, s.posted[s.tally.reaped]? = some p :=
      ⟨_, List.getElem?_eq_getElem hlen⟩
    obtain ⟨entry, he, hnext⟩ :=
      hholds.nextEntry_healthy s.host.journal hinside hs hhealthy hcovers hlt hp
    refine .inr ⟨busAddr, cookie, entry, hlt, hp, he, ?_⟩
    change (s.ring.nextEntry ⟨s.host.memory, s.host.journal⟩).1 = _
    rw [hnext]
    rfl
  · have heq : s.tally.reaped = s.tally.accepted := by omega
    refine .inl ⟨heq, ?_⟩
    have hdone : s.ring.next s.ring.reapHead = s.ring.cachedTail := by
      rw [hholds.reapHead, hholds.cachedTail, heq]
    simp only [nextEntry, hdone, or_true, if_true]

/-- A ring is a queue. In a section the oldest completion is absent exactly if all accepted ones
are reaped; else it lies at its position and reads as it was armed, and as long as it is not reaped
it is what every later section finds too. -/
theorem completions_come_in_order {reg : Registration} {r : SourceRing} {m m' : HostMemory}
    (hc : create reg rbm m = (.ok r, m')) (hf : m.faults = [])
    (hm : m.window.Covers r.layout.extent.addr r.layout.extent.len)
    (hlim : r.layout.tailAddr + RingLayout.wordSize ≤ addressLimit) (journal : Array LogEvent)
    (turns : List Turn) (ht : ∀ turn ∈ turns, turn.Spares r.layout) :
    let s := (start r ⟨m', journal⟩).run turns
    let t := s.tally
    s.posted.length = t.armed ∧
    (s.ring.inAccess = true →
      s.ring.availableCount = t.accepted - t.reaped ∧
      ((s.ring.nextEntry s.host).1 = none ↔ t.reaped = t.accepted) ∧
      (t.reaped ≠ t.accepted → ∃ busAddr cookie entry,
        s.posted[t.reaped]? = some (busAddr, cookie) ∧
        (s.ring.nextEntry s.host).1 = some ⟨t.reaped % reg.numEntries, entry, true⟩ ∧
        entry.busAddr = busAddr ∧ entry.cookie = cookie ∧ entry.rbm = rbm)) ∧
    ∀ more : List Turn, (∀ turn ∈ more, turn.Spares r.layout) →
      let s' := s.run more
      s'.tally.reaped = t.reaped → s.ring.inAccess = true → s'.ring.inAccess = true →
      ∀ res, (s.ring.nextEntry s.host).1 = some res → (s'.ring.nextEntry s'.host).1 = some res := by
  intro s t
  obtain ⟨hrbm, hlayout, hr⟩ := create_shape (congrArg Prod.fst hc)
  have hinside := RingLayout.inside_extent hlayout hlim
  obtain ⟨window, rfl, hbase, hsize, hholds, -, -⟩ := create_holds hc hf hm hinside
  have hn : r.layout.numEntries = reg.numEntries := (RingLayout.ofBase_eq_ok hlayout).2
  have hcovers : window.Covers r.layout.extent.addr r.layout.extent.len := by
    rw [Window.Covers, hbase, hsize]
    exact hm
  have htag : r.rbm = rbm := by rw [hr]
  have hstart : (start r ⟨{ m with window }, journal⟩).Kept r.layout rbm :=
    ⟨hholds, rfl, htag, hinside, hf, hcovers⟩
  have h : s.Kept r.layout rbm := run_kept hstart ht
  refine ⟨h.holds.length, ?_, ?_⟩
  · intro hs
    refine ⟨h.holds.availableCount_eq hs, ?_⟩
    rcases h.nextEntry_cases hs with ⟨heq, hnone⟩ | ⟨busAddr, cookie, entry, hlt, hp, he, hnext⟩
    · exact ⟨⟨fun _ => heq, fun _ => hnone⟩, fun hne => absurd heq hne⟩
    · obtain ⟨haddr, hcookie, htag⟩ := RingEntry.ofFields_eq_ok he
      have hmax : RingEntry.maxRbm = (1 <<< 3) - 1 := rfl
      rw [Nat.mod_eq_of_lt (by omega)] at htag
      rw [hn] at hnext
      refine ⟨⟨fun hnone => ?_, fun heq => absurd heq (Nat.ne_of_lt hlt)⟩, fun _ => ?_⟩
      · rw [hnext] at hnone
        cases hnone
      · exact ⟨busAddr, cookie, entry, hp, hnext, haddr, hcookie, htag⟩
  · intro more hmore s' hsame hs hs' res hres
    have h' : s'.Kept r.layout rbm := run_kept h hmore
    obtain ⟨haccepted, hposted⟩ := s.run_grows more
    rcases h.nextEntry_cases hs with ⟨heq, hnone⟩ | ⟨busAddr, cookie, entry, hlt, hp, he, hnext⟩
    · rw [hnone] at hres
      cases hres
    · rcases h'.nextEntry_cases hs' with
        ⟨heq', -⟩ | ⟨busAddr', cookie', entry', hlt', hp', he', hnext'⟩
      · change s.tally.accepted ≤ s'.tally.accepted at haccepted
        change s'.tally.reaped = s.tally.reaped at hsame
        omega
      · have hsame : s'.tally.reaped = s.tally.reaped := hsame
        have hlen := (List.getElem?_eq_some_iff.mp hp).1
        obtain ⟨rest, hrest⟩ := hposted
        have hrest : s.posted ++ rest = s'.posted := hrest
        rw [hsame, ← hrest, List.getElem?_append_left hlen, hp] at hp'
        cases hp'
        rw [he] at he'
        cases he'
        rw [hnext', hsame, ← hnext, hres]

/-- A completion that is found and left alone while another entry is armed and completes. -/
theorem completions_come_in_order_kept :
    let memory : HostMemory := ⟨.zeroed 0 64, []⟩
    let r : SourceRing := ⟨⟨0, 4, 8, 32, 36⟩, .empty, 0, 3, 0, 3, 0, false⟩
    let s := (start r ⟨(create ⟨0, 4, 8, 0, .empty⟩ 3 memory).2, #[]⟩).run
      [.call .accessBegin, .call (.setEntry ⟨0, .zero, false⟩ 64 10),
        .call (.setEntry ⟨1, .zero, false⟩ 128 11), .call .accessEnd, .store 36 [1, 0, 0, 0],
        .call .accessBegin]
    let s' := s.run [.call (.setEntry ⟨2, .zero, false⟩ 192 12), .call .accessEnd,
      .store 36 [2, 0, 0, 0], .call .accessBegin]
    let res := some (Reservation.mk 0 ⟨64, 10, 3, by decide, by decide, by decide⟩ true)
    s.tally = ⟨2, 1, 0⟩ ∧ s'.tally = ⟨3, 2, 0⟩ ∧
      (s.ring.nextEntry s.host).1 = res ∧ (s'.ring.nextEntry s'.host).1 = res := by
  intro memory r s s' res
  have hc : create ⟨0, 4, 8, 0, .empty⟩ 3 memory =
      (.ok r, (create ⟨0, 4, 8, 0, .empty⟩ 3 memory).2) := rfl
  obtain ⟨-, -, hagain⟩ := completions_come_in_order hc rfl (by decide) (by decide) #[]
    [.call .accessBegin, .call (.setEntry ⟨0, .zero, false⟩ 64 10),
      .call (.setEntry ⟨1, .zero, false⟩ 128 11), .call .accessEnd, .store 36 [1, 0, 0, 0],
      .call .accessBegin] (by decide)
  have htally : s.tally = ⟨2, 1, 0⟩ := by decide +kernel
  have hfirst : (s.ring.nextEntry s.host).1 = res := by decide +kernel
  refine ⟨htally, by decide +kernel, hfirst, ?_⟩
  exact hagain _ (by decide) (by decide +kernel) (by decide +kernel) (by decide +kernel) _ hfirst

end Transcript

end FrameRing.SourceRing
