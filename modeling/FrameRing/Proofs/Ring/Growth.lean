import FrameRing.Proofs.Ring.Runs

/-! # How far a pass gets

Every completion that a pass deals with is counted once, as reaped or as missing. A pass that is
cut short, by a pool that runs dry or by a fault, leaves the completion that it stopped at
uncounted. -/

namespace FrameRing

variable {ω η ε β : Type}

namespace RingStats

def progress (stats : RingStats) : Nat := stats.reaped + stats.missingEntries

/-- What a pass over `count` completions adds to the counters, where `ok` tells whether it ended
without a fault. -/
structure Advances (count : Nat) (before : RingStats) (ok : Bool) (after : RingStats) : Prop where
  reaped_le : before.reaped ≤ after.reaped
  missing_le : before.missingEntries ≤ after.missingEntries
  backpressure_le : before.backpressure ≤ after.backpressure
  backpressure_once : after.backpressure ≤ before.backpressure + 1
  all : ok = true → after.backpressure = before.backpressure →
    after.progress = before.progress + count
  short : ok = false ∨ after.backpressure ≠ before.backpressure →
    after.progress < before.progress + count

theorem Advances.after_one {count : Nat} {ok : Bool} {before mid after : RingStats}
    (h : mid.Advances count ok after) (hreaped : before.reaped ≤ mid.reaped)
    (hmissing : before.missingEntries ≤ mid.missingEntries)
    (hone : mid.progress = before.progress + 1)
    (hdry : mid.backpressure = before.backpressure) : before.Advances (count + 1) ok after := by
  constructor
  · exact Nat.le_trans hreaped h.reaped_le
  · exact Nat.le_trans hmissing h.missing_le
  · exact hdry ▸ h.backpressure_le
  · exact hdry ▸ h.backpressure_once
  · intro hok hsame
    have hall := h.all hok (hsame.trans hdry.symm)
    omega
  · intro hcut
    have hshort := h.short (hdry ▸ hcut)
    omega

end RingStats

variable [RxBuffer β] {p : Platform ω η ε β} {size remaining : Nat}

namespace Pass

variable {s : Pass ω η β} {out : PassStep × Pass ω η β}

theorem Stepped.stats (h : Stepped p size remaining s out) :
    (out.1 = .proceed ∧
      (out.2.stats = { s.stats with reaped := s.stats.reaped + 1 } ∨
        out.2.stats = { s.stats with missingEntries := s.stats.missingEntries + 1 })) ∨
    (out.1 = .stop ∧
      out.2.stats = { s.stats with backpressure := s.stats.backpressure + 1 }) ∨
    ∃ e, out.1 = .fail e ∧ out.2.stats = s.stats := by
  cases h with
  | missing next => exact .inl ⟨rfl, .inr rfl⟩
  | found next recycle =>
    cases recycle with
    | desync wrong => exact .inr (.inr ⟨_, rfl, rfl⟩)
    | occupied due taken => exact .inr (.inr ⟨_, rfl, rfl⟩)
    | starved due idle acquire => exact .inr (.inl ⟨rfl, rfl⟩)
    | refused due idle acquire place => exact .inr (.inr ⟨_, rfl, rfl⟩)
    | lost due idle acquire place gone => exact .inr (.inr ⟨_, rfl, rfl⟩)
    | renewed due idle acquire place retire => exact .inl ⟨rfl, .inl rfl⟩

/-- Every reaped completion retires one buffer. -/
theorem Stepped.retired {base : Nat} (hs : s.stats.reaped = base + s.retired.length)
    (h : Stepped p size remaining s out) : out.2.stats.reaped = base + out.2.retired.length := by
  cases h with
  | missing next => exact hs
  | found next recycle =>
    cases recycle with
    | renewed due idle acquire place retire =>
      simp only [List.length_append, List.length_singleton]
      omega
    | _ => exact hs

theorem drain_advances (size count : Nat) (s : Pass ω η β) :
    s.stats.Advances count (s.drain p size count).1.isOk (s.drain p size count).2.stats := by
  induction count generalizing s with
  | zero =>
    constructor
    · exact Nat.le_refl _
    · exact Nat.le_refl _
    · exact Nat.le_refl _
    · exact Nat.le_succ _
    · exact fun _ _ => rfl
    · exact fun hcut => absurd hcut (by simp [drain, Except.isOk, Except.toBool])
  | succ k ih =>
    have hstep := (stepped p size (k + 1) s).stats
    unfold drain
    generalize s.step p size (k + 1) = out at hstep ⊢
    obtain ⟨next, s'⟩ := out
    rcases hstep with ⟨hnext, hgrown⟩ | ⟨hnext, hgrown⟩ | ⟨e, hnext, hgrown⟩
    · obtain rfl : next = .proceed := hnext
      have hrest := ih s'
      rcases hgrown with hgrown | hgrown
      · replace hgrown : s'.stats = _ := hgrown
        apply hrest.after_one <;> simp only [hgrown, RingStats.progress] <;> omega
      · replace hgrown : s'.stats = _ := hgrown
        apply hrest.after_one <;> simp only [hgrown, RingStats.progress] <;> omega
    · obtain rfl : next = .stop := hnext
      change s.stats.Advances (k + 1) true s'.stats
      rw [hgrown]
      constructor
      · exact Nat.le_refl _
      · exact Nat.le_refl _
      · exact Nat.le_succ _
      · exact Nat.le_refl _
      · exact fun _ hsame => absurd hsame (Nat.succ_ne_self _)
      · exact fun _ => Nat.lt_add_of_pos_right k.succ_pos
    · obtain rfl : next = .fail e := hnext
      change s.stats.Advances (k + 1) false s'.stats
      rw [hgrown]
      constructor
      · exact Nat.le_refl _
      · exact Nat.le_refl _
      · exact Nat.le_refl _
      · exact Nat.le_succ _
      · exact fun hok _ => absurd hok Bool.false_ne_true
      · exact fun _ => Nat.lt_add_of_pos_right k.succ_pos

theorem drain_retired (size count : Nat) {base : Nat}
    (hs : s.stats.reaped = base + s.retired.length) :
    (s.drain p size count).2.stats.reaped = base + (s.drain p size count).2.retired.length := by
  have hdrain := drain_rule (p := p) size count
    (P := fun s => s.stats.reaped = base + s.retired.length) (F := fun _ => True)
    (fun _ _ _ hs ho => ⟨ho.retired hs, fun _ _ => trivial⟩) hs
  exact hdrain.1

end Pass

namespace Ring

def retiredBy (p : Platform ω η ε β) (ring : Ring η β) (w : ω) : List β :=
  match ring.state, ring.hw with
  | .active, some hw =>
    match p.hardware.accessBegin hw w with
    | (.error _, _, _) => []
    | (.ok _, hw, w) =>
      let pass : Pass ω η β := ⟨ring.enter hw w, ring.stats, []⟩
      (pass.drain p ring.geometry.bufferSize (p.hardware.availableCount hw w)).2.retired
  | _, _ => []

variable {ring : Ring η β} {w : ω}

theorem tryReap_retired (ring : Ring η β) (w : ω) :
    (ring.tryReap p w).2.1.stats.reaped =
      ring.stats.reaped + (ring.retiredBy p w).length := by
  unfold tryReap retiredBy
  cases ring.state with
  | ready => rfl
  | faulted => rfl
  | released => rfl
  | active =>
    cases ring.hw with
    | none => rfl
    | some hw =>
      simp only
      rcases p.hardware.accessBegin hw w with ⟨_ | _, hw', w'⟩
      · rfl
      · have hdrain := Pass.drain_retired (p := p) (s := ⟨ring.enter hw' w', ring.stats, []⟩)
          ring.geometry.bufferSize (p.hardware.availableCount hw' w') rfl
        simp only
        generalize Pass.drain p ring.geometry.bufferSize (p.hardware.availableCount hw' w')
          ⟨ring.enter hw' w', ring.stats, []⟩ = out at hdrain ⊢
        obtain ⟨_ | _, pass⟩ := out
        · exact hdrain
        · exact hdrain

/-- A pass that opens its section counts all that completed, or says why not. -/
theorem tryReap_advances {hw hw' : η} {w' : ω} (active : ring.state = .active)
    (held : ring.hw = some hw) (access : p.hardware.accessBegin hw w = (.ok (), hw', w')) :
    ring.stats.Advances (p.hardware.availableCount hw' w') (ring.tryReap p w).1.isOk
      (ring.tryReap p w).2.1.stats := by
  have hdrain := Pass.drain_advances (p := p) ring.geometry.bufferSize
    (p.hardware.availableCount hw' w') ⟨ring.enter hw' w', ring.stats, []⟩
  unfold tryReap
  simp only [active, held, access]
  generalize Pass.drain p ring.geometry.bufferSize (p.hardware.availableCount hw' w')
    ⟨ring.enter hw' w', ring.stats, []⟩ = out at hdrain ⊢
  obtain ⟨_ | _, pass⟩ := out
  · exact { hdrain with }
  · exact { hdrain with }

def retiredIn (p : Platform ω η ε β) (s : Ring η β × ω) : Move ω → List β
  | .operate .tryReap | .operate .reap => s.1.retiredBy p s.2
  | .operate .attach | .operate .release | .disturb _ => []

def retiredDuring (p : Platform ω η ε β) (s : Ring η β × ω) : List (Move ω) → List β
  | [] => []
  | move :: moves => retiredIn p s move ++ retiredDuring p (Move.apply p s move) moves

omit [RxBuffer β] in
theorem releaseAll_stats (ring : Ring η β) (w : ω) :
    (ring.releaseAll p w).1.stats = ring.stats := by
  unfold releaseAll
  split <;> rfl

theorem attach_stats (ring : Ring η β) (w : ω) : (ring.attach p w).2.1.stats = ring.stats := by
  have hattached := attached p ring w
  generalize ring.attach p w = out at hattached ⊢
  cases hattached with
  | again active => rfl
  | refused refusal unreaped => rfl
  | failed ready held fill => exact releaseAll_stats _ _
  | filled ready held fill => rfl

theorem apply_retired (s : Ring η β × ω) (move : Move ω) :
    (Move.apply p s move).1.stats.reaped = s.1.stats.reaped + (retiredIn p s move).length := by
  cases move with
  | disturb change => rfl
  | operate op =>
    cases op with
    | attach => exact congrArg RingStats.reaped (attach_stats s.1 s.2)
    | tryReap => exact tryReap_retired s.1 s.2
    | reap =>
      change (s.1.reap p s.2).1.stats.reaped = _
      rw [reap_ring]
      exact tryReap_retired s.1 s.2
    | release => exact congrArg RingStats.reaped (releaseAll_stats s.1 s.2)

theorem run_retired (s : Ring η β × ω) (moves : List (Move ω)) :
    (run p s moves).1.stats.reaped = s.1.stats.reaped + (retiredDuring p s moves).length := by
  induction moves generalizing s with
  | nil => rfl
  | cons move moves ih =>
    have hrest := ih (Move.apply p s move)
    have hfirst := apply_retired (p := p) s move
    simp only [run, List.foldl_cons, retiredDuring, List.length_append] at hrest ⊢
    omega

end Ring

end FrameRing
