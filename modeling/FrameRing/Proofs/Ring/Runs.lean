import FrameRing.Proofs.Ring.Outcomes

/-! # Runs of a ring

A run is any sequence of the ring's operations. Between two of them the rest of the world may
change in any way. The rules below carry what one step preserves to a whole attach or pass. -/

namespace FrameRing

variable {ω η ε β : Type} {p : Platform ω η ε β}

@[simp] theorem Section.close_table (s : Section ω η β) : (s.close p).table = s.table := rfl

@[simp] theorem Section.close_cursor (s : Section ω η β) : (s.close p).cursor = s.cursor := rfl

theorem RingParams.validate_eq_ok {params : RingParams} (h : params.validate = .ok ()) :
    2 ≤ params.capacity ∧ params.capacity - 1 ≤ RingEntry.maxCookie ∧
      RingLayout.StrideOk params.entrySize ∧ FrameHeader.size < params.bufferSize ∧
      params.reapThreshold < params.capacity := by
  unfold validate at h
  split at h
  · cases h
  split at h
  · cases h
  split at h
  · cases h
  rename_i hs
  split at h
  · cases h
  split at h
  · cases h
  exact ⟨by omega, by omega, Decidable.not_not.mp hs, by omega, by omega⟩

theorem RingParams.capacity_le {params : RingParams} (h : params.validate = .ok ()) :
    params.capacity ≤ 1 <<< 21 := by
  obtain ⟨-, hcookies, -⟩ := validate_eq_ok h
  have hmax : RingEntry.maxCookie = (1 <<< 21) - 1 := rfl
  omega

/-- A ring that was set up, and what its collaborators answered on the way. -/
theorem Ring.setup_eq_ok {params : RingParams} {w w' : ω} {ring : Ring η β}
    (h : Ring.setup p params w = (.ok ring, w')) :
    params.validate = .ok () ∧ p.hasTableRoom params.capacity w = true ∧ ∃ a w₁ hw w₂,
      p.memory.alloc (RingLayout.querySize params.capacity params.entrySize) w = (.ok a, w₁) ∧
      a.addr % RingLayout.baseAlign = 0 ∧
      p.register (params.registration a.addr) w₁ = (.ok hw, w₂) ∧
      w' = p.record (.ringSetUp params.capacity a.addr params.bufferSize) w₂ ∧
      ring =
        { geometry := ⟨params.capacity, params.entrySize, params.bufferSize,
            RingLayout.baseAlign, a⟩
          state := .ready
          table := .withCapacity params.capacity
          cursor := .ofSize params.capacity
          hw := some hw
          ringMem := some a
          stats := .zero } := by
  unfold Ring.setup at h
  split at h
  · cases h
  rename_i valid
  split at h
  · cases h
  rename_i room
  split at h
  · cases h
  rename_i a w₁ alloc
  simp only at h
  split at h
  · cases h
  rename_i aligned
  split at h
  · cases h
  rename_i hw w₂ register
  simp only [AllocGuard.hold, AllocGuard.dismiss, AllocGuard.close, Bool.false_eq_true, if_false,
    Prod.mk.injEq, Except.ok.injEq] at h
  exact ⟨valid, eq_true_of_ne_false room, a, w₁, hw, w₂, alloc, Decidable.not_not.mp aligned,
    register, h.2.symm, h.1.symm⟩

instance decidableExistsOk {ε α ω : Type} {P : α → ω → Prop} [∀ a w, Decidable (P a w)] :
    (x : Except ε α × ω) → Decidable (∃ a w, x = (.ok a, w) ∧ P a w)
  | (.error _, _) => isFalse fun ⟨_, _, h, _⟩ => by cases h
  | (.ok a, w) =>
    if h : P a w then isTrue ⟨a, w, rfl, h⟩
    else isFalse fun ⟨_, _, heq, hp⟩ => by cases heq; exact h hp

theorem eq_ok_of_toOption {ε α : Type} {x : Except ε α} {a : α} (h : x.toOption = some a) :
    x = .ok a := by
  cases x with
  | error e => cases h
  | ok b => exact congrArg Except.ok (Option.some.inj h)

@[simp] theorem Ring.releaseAll_state (ring : Ring η β) (w : ω) :
    (ring.releaseAll p w).1.state = .released := by
  rw [Ring.releaseAll]
  split
  · assumption
  · rfl

variable [RxBuffer β] (p)

inductive Operation where
  | attach
  | tryReap
  | reap
  | release
  deriving DecidableEq, Repr

def Ring.perform (ring : Ring η β) (w : ω) : Operation → Ring η β × ω
  | .attach => (ring.attach p w).2
  | .tryReap => (ring.tryReap p w).2
  | .reap => ring.reap p w
  | .release => ring.releaseAll p w

inductive Move (ω : Type) where
  | operate (op : Operation)
  | disturb (change : ω → ω)

def Move.apply (s : Ring η β × ω) : Move ω → Ring η β × ω
  | .operate op => s.1.perform p s.2 op
  | .disturb change => (s.1, change s.2)

def Ring.run (s : Ring η β × ω) (moves : List (Move ω)) : Ring η β × ω :=
  moves.foldl (Move.apply p) s

variable {p}

theorem Ring.run_induct {P : Ring η β → ω → Prop} {ring : Ring η β} {w : ω} (start : P ring w)
    (operate : ∀ ring w op, P ring w → P (ring.perform p w op).1 (ring.perform p w op).2)
    (disturb : ∀ ring w (change : ω → ω), P ring w → P ring (change w)) (moves : List (Move ω)) :
    P (Ring.run p (ring, w) moves).1 (Ring.run p (ring, w) moves).2 := by
  induction moves generalizing ring w with
  | nil => exact start
  | cons move moves ih =>
    cases move with
    | operate op => exact ih (operate ring w op start)
    | disturb change => exact ih (disturb ring w change start)

theorem Ring.reap_ring (ring : Ring η β) (w : ω) :
    (ring.reap p w).1 = (ring.tryReap p w).2.1 := by
  rw [Ring.reap]
  split <;> simp_all

theorem Ring.tryReap_ready {ring : Ring η β} {w : ω} (h : (ring.tryReap p w).2.1.state = .ready) :
    (ring.tryReap p w).2.1 = ring := by
  have hout := reaped p ring w
  generalize ring.tryReap p w = out at h hout ⊢
  cases hout with
  | refused => rfl
  | unopened active => cases active.symm.trans h
  | @drained hw hw' w' result s closed w'' k ring' out active _ _ _ conclude deliver =>
    cases deliver
    cases result with
    | ok =>
      cases conclude
      cases active.symm.trans h
    | error e =>
      cases conclude
      cases h

theorem Ring.perform_ready {ring : Ring η β} {w : ω} {op : Operation}
    (h : (ring.perform p w op).1.state = .ready) : (ring.perform p w op).1 = ring := by
  cases op with
  | attach =>
    have hout := attached p ring w
    rw [perform] at h ⊢
    generalize ring.attach p w = out at h hout ⊢
    cases hout with
    | again => rfl
    | refused => rfl
    | failed =>
      rw [releaseAll_state] at h
      cases h
    | filled => cases h
  | tryReap => exact tryReap_ready h
  | reap =>
    rw [perform, reap_ring] at h ⊢
    exact tryReap_ready h
  | release =>
    rw [perform, releaseAll_state] at h
    cases h

theorem Ring.run_ready (ring : Ring η β) (w : ω) (moves : List (Move ω))
    (h : (Ring.run p (ring, w) moves).1.state = .ready) :
    (Ring.run p (ring, w) moves).1 = ring := by
  refine run_induct (p := p) (P := fun ring' _ => ring'.state = .ready → ring' = ring)
    (fun _ => rfl) ?_ (fun _ _ _ hkept => hkept) moves h
  intro ring' w' op hkept hready
  have hsame := perform_ready hready
  rw [hsame] at hready ⊢
  exact hkept hready

/-- What a step keeps, arming many slots keeps up to the first failure. -/
theorem Section.armMany_rule (size count : Nat) {P : Nat → Section ω η β → Prop}
    {F : RingError → Section ω η β → Prop}
    (step : ∀ k s out, P (k + 1) s → ArmedNext p size s out →
      (out.1 = .ok () ∧ P k out.2) ∨ ∃ e, out.1 = .error e ∧ F e out.2)
    {s : Section ω η β} (start : P count s) :
    ((s.armMany p size count).1 = .ok () ∧ P 0 (s.armMany p size count).2) ∨
      ∃ e, (s.armMany p size count).1 = .error e ∧ F e (s.armMany p size count).2 := by
  induction count generalizing s with
  | zero => exact .inl ⟨rfl, start⟩
  | succ k ih =>
    have hout := step k s _ start (armedNext p size s)
    unfold armMany
    generalize s.armNext p size = out at hout ⊢
    obtain ⟨result, s'⟩ := out
    rcases hout with ⟨ok, next⟩ | ⟨e, failed, stop⟩
    · obtain rfl : result = .ok () := ok
      exact ih next
    · obtain rfl : result = .error e := failed
      exact .inr ⟨e, rfl, stop⟩

/-- What a step keeps, a pass keeps, and it fails only with an error of one of its steps. -/
theorem Pass.drain_rule (size count : Nat) {P : Pass ω η β → Prop} {F : RingError → Prop}
    (step : ∀ k s out, P s → Stepped p size k s out →
      P out.2 ∧ ∀ e, out.1 = .fail e → F e)
    {s : Pass ω η β} (start : P s) :
    P (s.drain p size count).2 ∧ ∀ e, (s.drain p size count).1 = .error e → F e := by
  induction count generalizing s with
  | zero => exact ⟨start, fun e h => by cases h⟩
  | succ k ih =>
    have hout := step (k + 1) s _ start (stepped p size (k + 1) s)
    unfold drain
    generalize s.step p size (k + 1) = out at hout ⊢
    obtain ⟨next, s'⟩ := out
    cases next with
    | proceed => exact ih hout.1
    | stop => exact ⟨hout.1, fun e h => by cases h⟩
    | fail cause =>
      refine ⟨hout.1, ?_⟩
      intro e h
      cases h
      exact hout.2 cause rfl

end FrameRing
