import FrameRing.Proofs.Stack.MultiRing
import FrameRing.Proofs.Stack.WellFormed

/-! # Only the outside makes a ring fail

Rings share a pool with each other and with everybody else, over memory that anybody writes to and
whose accesses fail at will. None of it makes a ring lose count: it never leaves a section open,
and no failure that it reports is a mistake of its own. -/

namespace FrameRing.MultiRing

variable {base capacity rbm : Nat} {e : MultiRing}

structure InOrder (base capacity : Nat) (e : MultiRing) : Prop extends e.Kept base capacity where
  wellFormed : ∀ ring ∈ e.rings, ring.WellFormed

theorem InOrder.setup (h : e.InOrder base capacity) (params : RingParams)
    (meanwhile : List (List Act)) :
    (e.step rbm (.setup params meanwhile)).InOrder base capacity := by
  refine ⟨h.toKept.setup params meanwhile, ?_⟩
  simp only [step]
  rcases hs : Ring.setup (Scene.platform rbm) params (e.scene.expect meanwhile) with
    ⟨_ | ring, scene⟩
  · exact h.wellFormed
  · intro r hr
    rcases List.mem_cons.mp hr with rfl | hr
    · have hkeeps : (e.scene.expect meanwhile).Keeps base capacity
          (e.rings.flatMap Ring.holdings) := h.keeps
      exact Ring.setup_wellFormed hkeeps hs
    · exact h.wellFormed r hr

theorem InOrder.operate (h : e.InOrder base capacity) (idx : Nat) (op : Operation)
    (meanwhile : List (List Act)) :
    (e.step rbm (.operate idx op meanwhile)).InOrder base capacity := by
  refine ⟨h.toKept.operate idx op meanwhile, ?_⟩
  simp only [step]
  cases hidx : e.rings[idx]? with
  | none => exact h.wellFormed
  | some ring =>
    intro r hr
    rcases List.mem_or_eq_of_mem_set hr with hr | rfl
    · exact h.wellFormed r hr
    · exact (h.wellFormed ring (List.mem_of_getElem? hidx)).perform (h.account hidx meanwhile) op

theorem step_inOrder (h : e.InOrder base capacity) (action : RingAction) :
    (e.step rbm action).InOrder base capacity := by
  cases action with
  | setup params meanwhile => exact h.setup params meanwhile
  | operate idx op meanwhile => exact h.operate idx op meanwhile
  | act act => exact ⟨step_kept h.toKept (.act act), h.wellFormed⟩

theorem run_inOrder (h : e.InOrder base capacity) (actions : List RingAction) :
    (e.run rbm actions).InOrder base capacity := by
  induction actions generalizing e with
  | nil => exact h
  | cons action actions ih => exact ih (step_inOrder h action)

theorem start_inOrder {window : Window} {slotSize len : Nat} {w : World}
    (hw : World.create window slotSize base len = .ok w)
    (hl : base + len / slotSize * slotSize ≤ addressLimit) :
    (start w).InOrder base (len / slotSize * slotSize) :=
  ⟨start_kept hw hl, fun ring hr => by cases hr⟩

/-- Whatever the device stores and whichever accesses fail, before an operation or in the middle of
it, no operation leaves a section open. An attach fails only for want of memory, for a hardware
ring that cannot be read or written, for a tail that makes no sense, for a buffer out of an entry's
reach, or because the ring's state does not allow it; a reap never for want of memory, but also for
a completion that does not belong to the slot that is due. -/
theorem run_fails_only_from_outside {window : Window} {slotSize len : Nat} {w : World}
    (hw : World.create window slotSize base len = .ok w)
    (hl : base + len / slotSize * slotSize < addressLimit) (rbm : Nat) (actions : List RingAction) :
    let e := (start w).run rbm actions
    ∀ ring ∈ e.rings,
      (∀ r, ring.hw = some r → r.inAccess = false) ∧
      ∀ meanwhile,
        let s := e.scene.expect meanwhile
        (∀ err, (ring.attach (Scene.platform rbm) s).1 = .error err →
          err.surfacesFromAttach = true) ∧
        (∀ err, (ring.tryReap (Scene.platform rbm) s).1 = .error err →
          err.surfacesFromReap = true) := by
  intro e ring hr
  have h : e.InOrder base (len / slotSize * slotSize) :=
    run_inOrder (start_inOrder hw (Nat.le_of_lt hl)) actions
  have hwellFormed := h.wellFormed ring hr
  obtain ⟨idx, hidx⟩ := List.getElem?_of_mem hr
  constructor
  · intro r hhw
    exact (hwellFormed.hardware r hhw).1
  · intro meanwhile s
    have haccount := h.account hidx meanwhile
    exact ⟨(hwellFormed.attach haccount).2, (hwellFormed.tryReap haccount).2⟩

/-- A ring without memory to attach, and one whose tail was overwritten. -/
theorem run_fails_only_from_outside_stray_tail :
    let w : World := .fresh (.zeroed 0 512) ⟨0, 64, Array.replicate 8 false, none⟩
    let actions : List RingAction :=
      [.setup (.ofSizes 3 8 64) [], .setup (.ofSizes 6 8 64) [], .operate 1 .attach [],
        .operate 0 .attach [[.pool (.alloc 64)]], .act (.store 28 [9, 0, 0, 0])]
    let e := (start w).run 3 actions
    e.rings.map Ring.state = [.released, .active] ∧
      ∀ ring ∈ e.rings,
        (ring.tryReap (Scene.platform 3) (e.scene.expect [])).1 =
          (if ring.state = .released then .error .released
            else .error (.hardware (.invalidPointer 9))) ∧
        ∀ r, ring.hw = some r → r.inAccess = false := by
  intro w actions e
  have hw : World.create (.zeroed 0 512) 64 0 512 = .ok w := rfl
  have hl : 0 + 512 / 64 * 64 < addressLimit := by decide
  refine ⟨by decide +kernel, ?_⟩
  have hreap : ∀ ring ∈ e.rings,
      (ring.tryReap (Scene.platform 3) (e.scene.expect [])).1 =
        (if ring.state = .released then .error .released
          else .error (.hardware (.invalidPointer 9))) := by decide +kernel
  intro ring hr
  exact ⟨hreap ring hr, (run_fails_only_from_outside hw hl 3 actions ring hr).1⟩

end FrameRing.MultiRing
