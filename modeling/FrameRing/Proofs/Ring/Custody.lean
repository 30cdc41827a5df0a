import FrameRing.Proofs.Ring.CustodyRules
import FrameRing.Proofs.Ring.Discipline
import FrameRing.Proofs.Ring.Ledger

/-! # Custody of receive buffers

A buffer that the ring acquired is armed in one slot, released once or delivered once, and never
two of these. Every error path of attaching and reaping gives back exactly the buffer it holds. -/

namespace FrameRing

variable {ω η ε β : Type}

def Ledger.Accounts (l : Ledger) (held : List (Tagged β)) : Prop :=
  (held.map Tagged.tag ++ (l.released ++ l.delivered)).Perm (List.range l.acquired)

namespace Ledger.Accounts

variable {l l' : Ledger} {held held' : List (Tagged β)} {b : Tagged β}

theorem perm (h : l.Accounts held) (hp : held.Perm held') : l.Accounts held' :=
  ((hp.map Tagged.tag).append_right _).symm.trans h

theorem acquire (h : l.Accounts held) (hb : b.tag = l.acquired)
    (hl : l' = { l with acquired := l.acquired + 1 }) : l'.Accounts (b :: held) := by
  subst hl
  simp only [Accounts, List.map_cons, List.cons_append, List.range_succ, hb]
  exact (h.cons _).trans (List.perm_append_singleton _ _).symm

theorem release (h : l.Accounts (b :: held)) :
    ({ l with released := l.released ++ [b.tag] } : Ledger).Accounts held := by
  refine List.Perm.trans ?_ h
  simp only [List.map_cons, List.cons_append, List.append_assoc, List.nil_append]
  rw [← List.append_assoc, ← List.append_assoc]
  exact List.perm_middle

theorem deliver (h : l.Accounts (b :: held)) :
    ({ l with delivered := l.delivered ++ [b.tag] } : Ledger).Accounts held := by
  refine List.Perm.trans ?_ h
  simp only [List.map_cons, List.cons_append, ← List.append_assoc]
  exact List.perm_append_singleton _ _

/-- Every number handed out is in exactly one place, once. -/
theorem count_eq (h : l.Accounts held) (tag : Nat) :
    (held.map Tagged.tag).count tag + l.released.count tag + l.delivered.count tag =
      if tag < l.acquired then 1 else 0 := by
  have hc := List.Perm.count_eq h tag
  simp only [List.count_append] at hc
  rw [Nat.add_assoc, hc, List.count_range]

theorem length_eq (h : l.Accounts held) :
    l.acquired = held.length + l.released.length + l.delivered.length := by
  have hlen := List.Perm.length_eq h
  simp only [List.length_append, List.length_map, List.length_range] at hlen
  omega

end Ledger.Accounts

variable [RxBuffer β] {p : Platform ω η ε β}

/-- An audited platform accounts for every buffer. -/
theorem audited_custody :
    Custody p.audited fun (w : Audited ω) _ (held : List (Tagged β)) =>
      w.ledger.Accounts held where
  buffers _ :=
    { perm := Ledger.Accounts.perm
      acquire := fun h ha => by
        obtain ⟨-, htag, hledger⟩ := audited_acquire_ok ha
        exact h.acquire htag hledger
      acquire_error := fun h ha => (audited_acquire_error ha).2 ▸ h
      release := Ledger.Accounts.release
      sync := fun {w b b' w' held} h hs => by
        obtain ⟨-, htag, hledger⟩ := audited_sync hs
        have hkept : w'.ledger.Accounts (b :: held) := hledger ▸ h
        simpa only [Ledger.Accounts, List.map_cons, htag] using hkept
      narrow := fun h _ _ => h
      deliver := Ledger.Accounts.deliver
      record := fun h _ => h }
  accessBegin h ha := (audited_accessBegin ha).2 ▸ h
  accessEnd h _ := h
  nextEntry h hn := (audited_nextEntry hn).2 ▸ h
  nextFreeEntry h hn := (audited_nextFreeEntry hn).2 ▸ h
  setEntry h hs := (audited_setEntry hs).2 ▸ h
  alloc h ha := (audited_alloc ha).2 ▸ h
  alloc_error h ha := (audited_alloc ha).2 ▸ h
  free {w a held} h := by
    unfold freeRingMemory
    rcases hd : p.audited.memory.dealloc a w with ⟨_ | _, w'⟩
    · rw [← (audited_dealloc hd).2] at h
      exact h
    · rw [← (audited_dealloc hd).2] at h
      exact h
  register h hr := by
    cases hr
    exact h

namespace Ring

variable {ring : Ring η (Tagged β)} {w : Audited ω}

theorem run_custody
    (h : ring.InCustody (fun w _ held => w.ledger.Accounts held) w) (moves : List (Move ω)) :
    let s := Ring.run p.audited (ring, w) (moves.map Move.audited)
    s.1.InCustody (fun w _ held => w.ledger.Accounts held) s.2 := by
  induction moves generalizing ring w with
  | nil => exact h
  | cons move moves ih =>
    cases move with
    | operate op => exact ih (h.perform audited_custody.atWork op)
    | disturb change => exact ih (w := { w with world := change w.world }) ⟨h.account, h.emptied⟩

/-- Number the buffers of any ring as they are acquired. Whatever its collaborators do, the ring
does as before, and after any run each number is in exactly one place: armed in one slot, released
once, or delivered once. A released ring holds none. -/
theorem run_keeps_custody {params : RingParams} {w w' : ω} {ring : Ring η β}
    (hs : Ring.setup p params w = (.ok ring, w')) :
    ∃ (start : Ring η (Tagged β)) (l : Ledger),
      Ring.setup p.audited params ⟨w, .empty⟩ = (.ok start, ⟨w', l⟩) ∧
      ∀ moves : List (Move ω),
        let s := Ring.run p.audited (start, ⟨w', l⟩) (moves.map Move.audited)
        let ledger := s.2.ledger
        (s.1.erase, s.2.world) = Ring.run p (ring, w') moves ∧
        (∀ tag,
          (s.1.table.buffers.map Tagged.tag).count tag + ledger.released.count tag +
            ledger.delivered.count tag = if tag < ledger.acquired then 1 else 0) ∧
        ledger.acquired =
          s.1.inUseCount + ledger.released.length + ledger.delivered.length ∧
        (s.1.state = .released →
          ledger.acquired = ledger.released.length + ledger.delivered.length) := by
  obtain ⟨start, l, hstart, rfl, htable, hl⟩ := setup_audited .empty hs
  obtain ⟨hn, hd⟩ := setup_disciplined hstart
  refine ⟨start, l, hstart, ?_⟩
  intro moves
  have h0 : l.Accounts start.table.buffers := by
    rw [hl, htable, SlotTable.buffers_withCapacity]
    exact List.Perm.refl _
  have hready : start.Emptied := by
    obtain ⟨-, -, a, w₁, hw, w₂, -, -, -, -, rfl⟩ := setup_eq_ok hstart
    intro hreleased
    cases hreleased
  have h := (run_custody (p := p) (w := ⟨w', l⟩) ⟨h0, hready⟩ moves).account
  have herase := run_erase (p := p) start ⟨w', l⟩ moves
  have hcount := h.length_eq
  refine ⟨herase.symm, h.count_eq, ?_, ?_⟩
  · rw [inUseCount, SlotTable.inUseCount_eq_length]
    exact hcount
  · intro hreleased
    have hend := run_disciplined (p := p.audited) (w := ⟨w', l⟩) hd hn (moves.map Move.audited)
    simp only [Disciplined, hreleased] at hend
    rw [hend, SlotTable.buffers_empty] at hcount
    simpa using hcount

theorem run_keeps_custody_teardown :
    ∃ ring w, Ring.setup Script.platform (.ofSizes 4 8 64) (Script.create 65536 4096 []) =
        (.ok ring, w) ∧
      ∃ start l, Ring.setup Script.platform.audited (.ofSizes 4 8 64)
          ⟨Script.create 65536 4096 [], .empty⟩ = (.ok start, ⟨w, l⟩) ∧
        let s := Ring.run Script.platform.audited (start, ⟨w, l⟩)
          ([.operate .attach, .disturb fun w => (w.complete 2).2, .operate .tryReap,
            .operate .release].map Move.audited)
        s.2.ledger.released = [4, 2, 3] ∧ s.2.ledger.delivered = [0, 1] ∧
          s.2.ledger.acquired = s.2.ledger.released.length + s.2.ledger.delivered.length := by
  have hs : Ring.setup Script.platform (.ofSizes 4 8 64) (Script.create 65536 4096 []) =
      (.ok _, _) := rfl
  obtain ⟨start, l, hstart, hrun⟩ := run_keeps_custody hs
  refine ⟨_, _, hs, start, l, hstart, ?_⟩
  have hlit : Ring.setup Script.platform.audited (.ofSizes 4 8 64)
      ⟨Script.create 65536 4096 [], .empty⟩ = (.ok _, _) := rfl
  rw [hlit] at hstart
  cases hstart
  refine ⟨?_, ?_, (hrun _).2.2.2 ?_⟩
  all_goals decide +kernel

end Ring

end FrameRing
