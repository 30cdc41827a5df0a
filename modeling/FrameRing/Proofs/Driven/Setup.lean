import FrameRing.Proofs.Driven.Lockstep

/-! # What a ring was set up with

A receive ring keeps the hardware ring that it registered. Nothing that it does with it, and
nothing that goes on around it, changes where that ring lies, how it stores its pointers and when it
reports. -/

namespace FrameRing

open SourceRing (SameSetup)
open DrivesSourceRing

variable {ω β : Type} {p : Platform ω SourceRing Reservation β} [DrivesSourceRing p]
  {r₀ r : SourceRing}

section Kept

variable [RxBuffer β]

theorem sameSetup_invariant (p : Platform ω SourceRing Reservation β) [DrivesSourceRing p]
    (size : Nat) (r₀ : SourceRing) : SectionInvariant p size fun r _ _ => SameSetup r₀ r := by
  constructor
  case setEntry =>
    intro res b cookie r w result r' w' held h hs
    rcases setEntry_answer hs with ⟨e, -, rfl⟩ | ⟨-, -, -, rfl⟩
    · exact h
    · exact h.move _ _ _ _
  case nextEntry =>
    intro r w res r' w' held h hn
    obtain ⟨rfl, -⟩ := nextEntry_answer hn
    exact h
  case nextFreeEntry =>
    intro r w res r' w' held h hn
    obtain ⟨rfl, -⟩ := nextFreeEntry_answer hn
    exact h
  case perm => exact fun h _ => h
  case acquire => exact fun h _ => h
  case acquire_error => exact fun h _ => h
  case release => exact fun h => h
  case record => exact fun h _ => h

theorem sameSetup_rest (p : Platform ω SourceRing Reservation β) [DrivesSourceRing p]
    (r₀ : SourceRing) :
    RestInvariant p (fun r _ => SameSetup r₀ r) (fun r _ => SameSetup r₀ r) := by
  constructor
  case opened =>
    intro r w r' w' h hb
    rw [accessBegin_positions hb]
    exact h.move _ _ _ _
  case unopened =>
    intro r w e r' w' h hb
    rw [accessBegin_positions hb]
    exact h.move _ _ _ _
  case inside => exact fun size => sameSetup_invariant p size r₀
  case closed =>
    intro r w h
    rw [accessEnd]
    exact h.move _ _ _ _
  case buffers => exact fun r => .const p (SameSetup r₀ r)

theorem Ring.run_sameSetup {ring : Ring SourceRing β} {w : ω}
    (h : ∀ r, ring.hw = some r → SameSetup r₀ r) (moves : List (Move ω)) :
    ∀ r, (Ring.run p (ring, w) moves).1.hw = some r → SameSetup r₀ r :=
  run_induct (P := AtRest fun r _ => SameSetup r₀ r) h
    (fun _ _ op hr => hr.perform (sameSetup_rest p r₀) op) (fun _ _ _ hr => hr) moves

end Kept

theorem Ring.setup_registered {params : RingParams} {ring : Ring SourceRing β} {w w' : ω}
    (h : Ring.setup p params w = (.ok ring, w')) (hr : ring.hw = some r) :
    r.flags = params.flags ∧ r.lowThreshold = params.reapThreshold := by
  obtain ⟨-, -, a, w₁, r', w₂, -, -, hregister, -, rfl⟩ := setup_eq_ok h
  cases hr
  obtain ⟨rbm, m, hcreate⟩ := register (p := p) (params.registration a.addr) w₁
  rw [hregister] at hcreate
  obtain ⟨-, -, hshape⟩ := SourceRing.create_shape hcreate.symm
  constructor
  · rw [hshape]
    rfl
  · rw [hshape]
    rfl

end FrameRing
