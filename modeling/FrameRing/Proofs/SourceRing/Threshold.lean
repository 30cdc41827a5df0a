import FrameRing.Proofs.SourceRing.Pointers

/-! # Polling a source ring

A poll reads the tail anew and counts the completions up to it, outside of any section. It finds
what a section opened at that moment would find, and fails as the section would. -/

namespace FrameRing.SourceRing

variable {r : SourceRing} {m : HostMemory}

def Reports (r : SourceRing) : Prop :=
  r.flags.lowThreshold = true ∧ 0 < r.lowThreshold

instance (r : SourceRing) : Decidable r.Reports :=
  inferInstanceAs (Decidable (_ ∧ _))

theorem thresholdReached_eq (h : r.Reports) (m : HostMemory) :
    r.thresholdReached m =
      (r.loadTail m).map fun tail => decide (r.lowThreshold ≤ r.completed tail) := by
  have hon : ¬ (r.flags.lowThreshold = false ∨ r.lowThreshold = 0) := by
    obtain ⟨hflag, hpos⟩ := h
    rw [hflag]
    simp only [Bool.true_eq_false, false_or]
    exact Nat.ne_of_gt hpos
  rw [thresholdReached, if_neg hon]
  cases r.loadTail m with
  | error e => rfl
  | ok tail => rfl

theorem thresholdReached_silent (h : ¬ r.Reports) (m : HostMemory) :
    r.thresholdReached m = .ok false := by
  have hoff : r.flags.lowThreshold = false ∨ r.lowThreshold = 0 := by
    by_cases hflag : r.flags.lowThreshold = true
    · exact .inr (Nat.eq_zero_of_not_pos fun hpos => h ⟨hflag, hpos⟩)
    · exact .inl (Bool.eq_false_iff.mpr hflag)
  exact if_pos hoff

/-- The old reap head and the fresh tail give the count that a section would start with. -/
theorem thresholdReached_accessBegin (hs : r.inAccess = false) (m : HostMemory) :
    r.thresholdReached m =
      if r.Reports then
        (r.accessBegin m).1.map fun _ =>
          decide (r.lowThreshold ≤ (r.accessBegin m).2.availableCount)
      else .ok false := by
  by_cases h : r.Reports
  · rw [if_pos h, thresholdReached_eq h]
    simp only [accessBegin, hs, Bool.false_eq_true, if_false]
    cases r.loadTail m with
    | error e => rfl
    | ok tail => rfl
  · rw [if_neg h, thresholdReached_silent h]

/-- A tail that has come up to the head leaves nothing armed: all that is not free is completed. -/
theorem thresholdReached_consumed (h : r.Reports) {word : Nat}
    (hload : m.loadWord r.layout.tailAddr = .ok word) (hword : pointerWord r.flags word = r.head)
    (hhead : r.head < r.numEntries) :
    r.thresholdReached m = .ok (decide (r.lowThreshold ≤ r.completed r.head)) := by
  have hl : r.loadTail m = .ok r.head :=
    loadTail_eq_ok_iff.mpr ⟨word, hload, hword, hhead, Nat.le_refl _⟩
  rw [thresholdReached_eq h, hl]
  rfl

/-- A poll at any time leaves everything after it as it would be. -/
theorem poll_idle (s : Session) (calls more : List Call) :
    s.run (calls ++ .thresholdReached :: more) = s.run (calls ++ more) := by
  simp only [Session.run, List.foldl_append, List.foldl_cons, Session.step]

end FrameRing.SourceRing
