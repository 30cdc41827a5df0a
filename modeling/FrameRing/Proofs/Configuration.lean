import FrameRing.Proofs.Ring.Runs
import FrameRing.Settings

/-! # Every configuration is acceptable

Settings are made in any order and with any values, and after each of them the settings describe a
ring that can be set up. The reap threshold in effect is the least of what was asked for last and of
the bounds that were in force since. -/

namespace FrameRing

inductive Setting where
  | enabled (on : Bool)
  | ringSize (n : Nat)
  | entrySize (n : Nat)
  | bufferSize (n : Nat)
  | reapThreshold (n : Nat)
  | pointerSwap (swap : Bool)
  deriving DecidableEq, Repr

namespace Setting

def enabled? : Setting → Option Bool
  | .enabled on => some on
  | _ => none

def pointerSwap? : Setting → Option Bool
  | .pointerSwap swap => some swap
  | _ => none

def AsksThreshold : Setting → Prop
  | .reapThreshold _ => True
  | _ => False

instance : DecidablePred AsksThreshold
  | .reapThreshold _ => isTrue trivial
  | .enabled _ | .ringSize _ | .entrySize _ | .bufferSize _ | .pointerSwap _ => isFalse id

end Setting

namespace RingSettings

variable {s : RingSettings} {calls : List Setting}

def apply (s : RingSettings) : Setting → RingSettings
  | .enabled on => s.setEnabled on
  | .ringSize n => s.setRingSize n
  | .entrySize n => s.setEntrySize n
  | .bufferSize n => s.setBufferSize n
  | .reapThreshold n => s.setReapThreshold n
  | .pointerSwap swap => s.setPointerSwap swap

def configure (s : RingSettings) (calls : List Setting) : RingSettings :=
  calls.foldl apply s

def resizes (s : RingSettings) : List Setting → List Nat
  | [] => []
  | .ringSize n :: calls => (s.setRingSize n).ringSize :: (s.setRingSize n).resizes calls
  | call :: calls => (s.apply call).resizes calls

structure InBounds (s : RingSettings) : Prop where
  ringSize : minRingSize ≤ s.ringSize ∧ s.ringSize ≤ maxRingSize
  entrySize : minEntrySize ≤ s.entrySize ∧ s.entrySize ≤ maxEntrySize
  wholeWords : s.entrySize % 4 = 0
  bufferSize : minBufferSize ≤ s.bufferSize ∧ s.bufferSize ≤ maxBufferSize
  reapThreshold : s.reapThreshold < s.ringSize

theorem clamp_bounds {lo hi : Nat} (h : lo ≤ hi) (n : Nat) :
    lo ≤ clamp lo hi n ∧ clamp lo hi n ≤ hi := by
  rw [clamp]
  omega

theorem InBounds.apply (h : s.InBounds) (call : Setting) : (s.apply call).InBounds := by
  cases call with
  | enabled on => exact { h with }
  | ringSize n =>
    have hsize := clamp_bounds (show minRingSize ≤ maxRingSize by decide) n
    have hmin : minRingSize = 2 := rfl
    refine { h with ringSize := hsize, reapThreshold := ?_ }
    change min s.reapThreshold (clamp minRingSize maxRingSize n - 1) <
      clamp minRingSize maxRingSize n
    omega
  | entrySize n =>
    obtain ⟨hlow, hhigh⟩ := clamp_bounds (show minEntrySize ≤ maxEntrySize by decide) n
    have hmin : minEntrySize = 8 := rfl
    have hmax : maxEntrySize = 64 := rfl
    have hword : RingEntry.align = 4 := rfl
    refine { h with entrySize := ?_, wholeWords := Nat.mul_mod_left _ _ }
    simp only [RingSettings.apply, setEntrySize, alignUp, hword]
    omega
  | bufferSize n => exact { h with bufferSize := clamp_bounds (by decide) n }
  | reapThreshold n =>
    have hsize := h.ringSize.1
    have hmin : minRingSize = 2 := rfl
    refine { h with reapThreshold := ?_ }
    change min n (s.ringSize - 1) < s.ringSize
    omega
  | pointerSwap swap => exact { h with }

theorem inBounds_default : default.InBounds := by
  constructor <;> decide

theorem InBounds.configure (h : s.InBounds) (calls : List Setting) :
    (s.configure calls).InBounds := by
  induction calls generalizing s with
  | nil => exact h
  | cons call calls ih => exact ih (h.apply call)

theorem configure_last {get : RingSettings → Bool} {asked : Setting → Option Bool}
    (h : ∀ s call, get (s.apply call) = (asked call).getD (get s)) (s : RingSettings)
    (calls : List Setting) :
    get (s.configure calls) = (calls.filterMap asked).getLast?.getD (get s) := by
  induction calls generalizing s with
  | nil => rfl
  | cons call calls ih =>
    have hnext := ih (s.apply call)
    rw [h] at hnext
    cases hasked : asked call with
    | none =>
      rw [hasked, Option.getD_none] at hnext
      rw [List.filterMap_cons_none hasked]
      exact hnext
    | some x =>
      rw [hasked] at hnext
      rw [List.filterMap_cons_some hasked, List.getLast?_cons]
      exact hnext

theorem configure_enabled (s : RingSettings) (calls : List Setting) :
    (s.configure calls).enabled = (calls.filterMap Setting.enabled?).getLast?.getD s.enabled :=
  configure_last (fun _ call => by cases call <;> rfl) s calls

theorem configure_pointerSwap (s : RingSettings) (calls : List Setting) :
    (s.configure calls).pointerSwap =
      (calls.filterMap Setting.pointerSwap?).getLast?.getD s.pointerSwap :=
  configure_last (fun _ call => by cases call <;> rfl) s calls

theorem getD_false_iff {x : Option Bool} : x.getD false = true ↔ x = some true := by
  cases x with
  | none => simp
  | some b => simp

theorem min?_min (a b : Nat) (bounds : List Nat) :
    (min a b :: bounds).min? = (a :: b :: bounds).min? := rfl

theorem configure_reapThreshold (h : ∀ call ∈ calls, ¬ call.AsksThreshold) :
    (s.reapThreshold :: (s.resizes calls).map (· - 1)).min? =
      some (s.configure calls).reapThreshold := by
  induction calls generalizing s with
  | nil => rfl
  | cons call calls ih =>
    have hrest := ih (s := s.apply call) fun c hc => h c (List.mem_cons_of_mem call hc)
    -- only a resize adds a bound; every other call leaves threshold and list alone
    cases call with
    | ringSize n => exact (min?_min _ _ _).symm.trans hrest
    | reapThreshold n => exact absurd trivial (h _ List.mem_cons_self)
    | enabled on => exact hrest
    | entrySize n => exact hrest
    | bufferSize n => exact hrest
    | pointerSwap swap => exact hrest

theorem configure_append (s : RingSettings) (earlier later : List Setting) :
    s.configure (earlier ++ later) = (s.configure earlier).configure later :=
  List.foldl_append

end RingSettings

theorem RingParams.validate_of_rules {p : RingParams} (hcap : 2 ≤ p.capacity)
    (hcookie : p.capacity - 1 ≤ RingEntry.maxCookie) (hstride : RingLayout.StrideOk p.entrySize)
    (hbuffer : FrameHeader.size < p.bufferSize) (hthreshold : p.reapThreshold < p.capacity) :
    p.validate = .ok () := by
  rw [validate, if_neg (Nat.not_lt.mpr hcap), if_neg (Nat.not_lt.mpr hcookie),
    if_neg (not_not_intro hstride), if_neg (Nat.not_le.mpr hbuffer),
    if_neg (Nat.not_le.mpr hthreshold)]

theorem Ring.setup_of_validate {ω η ε β : Type} {params : RingParams}
    (h : params.validate = .ok ()) (p : Platform ω η ε β) (w : ω) (cause : ParamError) :
    (Ring.setup p params w).1 ≠ .error (.invalidConfig cause) := by
  rcases hsetup : Ring.setup p params w with ⟨result, w'⟩
  rintro rfl
  cases Ring.unbuilt hsetup with
  | invalid hinvalid =>
    rw [h] at hinvalid
    cases hinvalid

namespace RingSettings

variable {s : RingSettings}

theorem ringParams?_enabled (h : s.enabled = true) :
    s.ringParams? = some ⟨s.ringSize, s.entrySize, s.bufferSize, s.reapThreshold,
      ⟨decide (0 < s.reapThreshold), s.pointerSwap, 0⟩⟩ := by
  rw [ringParams?, if_pos h]
  simp [RingParams.withFlags, RingParams.withReapThreshold, RingParams.ofSizes, RingFlags.union,
    RingFlags.empty]

theorem InBounds.validate (h : s.InBounds) {p : RingParams} (hp : s.ringParams? = some p) :
    p.validate = .ok () := by
  unfold ringParams? at hp
  split at hp
  · cases hp
    have hmax : maxRingSize ≤ RingEntry.maxCookie := by decide
    have hheader : FrameHeader.size < minBufferSize := by decide
    apply RingParams.validate_of_rules
    · exact h.ringSize.1
    · exact Nat.le_trans (Nat.sub_le _ _) (Nat.le_trans h.ringSize.2 hmax)
    · exact ⟨h.entrySize.1, h.wholeWords⟩
    · exact Nat.lt_of_lt_of_le hheader h.bufferSize.1
    · exact h.reapThreshold
  · cases hp

/-- Whatever was set, in whatever order: the settings are within their bounds, and once the ring is
enabled they give parameters that a setup does not object to, with the flags that go with them. The
threshold in effect is the least of what was asked for last, or of the default, and of one less
than the ring size, then and after every later change of it. -/
theorem every_configuration_is_acceptable (calls : List Setting) :
    let s := default.configure calls
    s.InBounds ∧
    (s.enabled = true ↔ (calls.filterMap Setting.enabled?).getLast? = some true) ∧
    (s.enabled = true → ∃ p, s.ringParams? = some p ∧ p.validate = .ok () ∧
      (∀ {ω η ε β : Type} (platform : Platform ω η ε β) (w : ω) (cause : ParamError),
        (Ring.setup platform p w).1 ≠ .error (.invalidConfig cause)) ∧
      p.capacity = s.ringSize ∧ p.entrySize = s.entrySize ∧ p.bufferSize = s.bufferSize ∧
      p.reapThreshold = s.reapThreshold ∧
      (p.flags.lowThreshold = true ↔ 0 < p.reapThreshold) ∧
      (p.flags.pointerSwap = true ↔
        (calls.filterMap Setting.pointerSwap?).getLast? = some true)) ∧
    (∀ earlier n later, calls = earlier ++ .reapThreshold n :: later →
      (∀ call ∈ later, ¬ call.AsksThreshold) →
      let before := default.configure earlier
      let sizes := (before.setReapThreshold n).resizes later
      (n :: (before.ringSize - 1) :: sizes.map (· - 1)).min? = some s.reapThreshold) ∧
    ((∀ call ∈ calls, ¬ call.AsksThreshold) →
      (8 :: (default.ringSize - 1) :: (default.resizes calls).map (· - 1)).min? =
        some s.reapThreshold) := by
  intro s
  have hbounds : s.InBounds := inBounds_default.configure calls
  refine ⟨hbounds, ?_, ?_, ?_, ?_⟩
  · change (default.configure calls).enabled = true ↔ _
    rw [configure_enabled]
    exact getD_false_iff
  · intro henabled
    have hp := ringParams?_enabled henabled
    have hvalid := hbounds.validate hp
    refine ⟨_, hp, hvalid, fun platform w cause => Ring.setup_of_validate hvalid platform w cause,
      rfl, rfl, rfl, rfl, decide_eq_true_iff, ?_⟩
    change (default.configure calls).pointerSwap = true ↔ _
    rw [configure_pointerSwap]
    exact getD_false_iff
  · intro earlier n later hcalls hlater before sizes
    have hlast := configure_reapThreshold (s := before.setReapThreshold n) hlater
    have hs : s = (before.setReapThreshold n).configure later := by
      change default.configure calls = _
      rw [hcalls, configure_append]
      rfl
    rw [hs]
    exact (min?_min _ _ _).symm.trans hlast
  · intro hnone
    have hlast := configure_reapThreshold (s := default) hnone
    have hstart : min 8 (default.ringSize - 1) = default.reapThreshold := by decide
    rw [← min?_min, hstart]
    exact hlast

/-- A threshold that is too high for the ring at the time, a ring that shrinks below it and grows
again, and a swap that is taken back. -/
theorem every_configuration_is_acceptable_shrunk :
    let calls : List Setting := [.pointerSwap true, .reapThreshold 500, .ringSize 10, .enabled true,
      .entrySize 13, .ringSize 9000, .pointerSwap false, .bufferSize 1]
    let s := default.configure calls
    s.InBounds ∧ s.reapThreshold = 9 ∧
      ∃ p, s.ringParams? = some p ∧ p.validate = .ok () ∧ p.flags.pointerSwap = false ∧
        p.flags.lowThreshold = true := by
  intro calls s
  obtain ⟨hbounds, henabled, hparams, hthreshold, -⟩ := every_configuration_is_acceptable calls
  have hon : s.enabled = true := henabled.mpr (by decide)
  obtain ⟨p, hp, hvalid, -, -, -, -, hsame, hreports, hswaps⟩ := hparams hon
  have hnine : some 9 = some s.reapThreshold :=
    hthreshold [.pointerSwap true] 500 [.ringSize 10, .enabled true, .entrySize 13,
      .ringSize 9000, .pointerSwap false, .bufferSize 1] rfl (by decide)
  have hreap : s.reapThreshold = 9 := (Option.some.inj hnine).symm
  refine ⟨hbounds, hreap, p, hp, hvalid, ?_, ?_⟩
  · rw [Bool.eq_false_iff, ne_eq, hswaps]
    decide
  · rw [hreports, hsame, hreap]
    decide

end RingSettings

end FrameRing
