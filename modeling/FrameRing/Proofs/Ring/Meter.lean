import FrameRing.Proofs.Ring.CustodyRules
import FrameRing.Proofs.Ring.Simulation

/-! # Ring memory given back

A metered platform writes down every allocation that goes back to the provider of ring memory, with
the answer. The ring does the same on it as on the platform itself, and it gives its memory back
once: when it is released. -/

namespace FrameRing

variable {ω η ε β : Type}

structure Metered (ω : Type) where
  world : ω
  frees : List (Allocation × Except AllocError Unit)

namespace Metered

def fresh (world : ω) : Metered ω := ⟨world, []⟩

def setWorld (m : Metered ω) (world : ω) : Metered ω := { m with world }

def freed (m : Metered ω) : List Allocation := m.frees.map Prod.fst

end Metered

def Platform.metered (p : Platform ω η ε β) : Platform (Metered ω) η ε β where
  hardware :=
    { accessBegin := fun hw m =>
        let (result, hw, world) := p.hardware.accessBegin hw m.world
        (result, hw, m.setWorld world)
      accessEnd := fun hw m =>
        let (hw, world) := p.hardware.accessEnd hw m.world
        (hw, m.setWorld world)
      availableCount := fun hw m => p.hardware.availableCount hw m.world
      nextEntry := fun hw m =>
        let (entry, hw, world) := p.hardware.nextEntry hw m.world
        (entry, hw, m.setWorld world)
      nextFreeEntry := fun hw m =>
        let (entry, hw, world) := p.hardware.nextFreeEntry hw m.world
        (entry, hw, m.setWorld world)
      setEntry := fun entry busAddr cookie hw m =>
        let (result, hw, world) := p.hardware.setEntry entry busAddr cookie hw m.world
        (result, hw, m.setWorld world)
      cookieOf := fun entry hw m => p.hardware.cookieOf entry hw m.world }
  pool :=
    { acquire := fun size m =>
        let (result, world) := p.pool.acquire size m.world
        (result, m.setWorld world)
      release := fun b m => m.setWorld (p.pool.release b m.world)
      syncForCpu := fun b m =>
        let (b, world) := p.pool.syncForCpu b m.world
        (b, m.setWorld world) }
  memory :=
    { alloc := fun len m =>
        let (result, world) := p.memory.alloc len m.world
        (result, m.setWorld world)
      dealloc := fun a m =>
        let (result, world) := p.memory.dealloc a m.world
        (result, ⟨world, m.frees ++ [(a, result)]⟩) }
  hasTableRoom capacity m := p.hasTableRoom capacity m.world
  register reg m :=
    let (result, world) := p.register reg m.world
    (result, m.setWorld world)
  deliver b m := m.setWorld (p.deliver b m.world)
  record event m := m.setWorld (p.record event m.world)

def Move.metered : Move ω → Move (Metered ω)
  | .operate op => .operate op
  | .disturb change => .disturb fun m => m.setWorld (change m.world)

variable {p : Platform ω η ε β}

theorem metered_dealloc {a : Allocation} {m m' : Metered ω}
    {result : Except AllocError Unit}
    (h : p.metered.memory.dealloc a m = (result, m')) :
    p.memory.dealloc a m.world = (result, m'.world) ∧ m'.frees = m.frees ++ [(a, result)] := by
  cases h
  exact ⟨rfl, rfl⟩

theorem metered_acquire {size : Nat} {m m' : Metered ω} {result : Except AllocError β}
    (h : p.metered.pool.acquire size m = (result, m')) :
    p.pool.acquire size m.world = (result, m'.world) ∧ m'.frees = m.frees := by
  cases h
  exact ⟨rfl, rfl⟩

theorem freeRingMemory_frees (a : Allocation) (m : Metered ω) :
    (freeRingMemory p.metered a m).frees =
      m.frees ++ [(a, (p.memory.dealloc a m.world).1)] := by
  rw [freeRingMemory]
  rcases hd : p.metered.memory.dealloc a m with ⟨_ | _, m'⟩
  all_goals
    obtain ⟨hworld, hfrees⟩ := metered_dealloc hd
    rw [hworld]
    exact hfrees

theorem freeRingMemory_world (a : Allocation) (m : Metered ω) :
    (freeRingMemory p.metered a m).world = freeRingMemory p a m.world := by
  unfold freeRingMemory
  rcases hd : p.metered.memory.dealloc a m with ⟨_ | _, m'⟩
  all_goals rw [(metered_dealloc hd).1]
  rfl

/-- The platform itself does what the metered one does. -/
theorem metered_simulation :
    Simulation p.metered p (fun hw m hw' w => hw = hw' ∧ m.world = w)
      (fun hw m hw' w => hw = hw' ∧ m.world = w) Eq (fun m w => m.world = w) Eq
      (fun _ : β => True) where
  release h b := by
    subst h
    rfl
  sync h _ := by
    subst h
    exact ⟨rfl, rfl⟩
  deliver h b := by
    subst h
    rfl
  record h event := by
    subst h
    rfl
  dealloc h a := by
    subst h
    exact ⟨rfl, rfl⟩
  accessBegin h := by
    obtain ⟨rfl, rfl⟩ := h
    exact ⟨rfl, fun _ => ⟨rfl, rfl⟩, fun _ _ => ⟨rfl, rfl⟩⟩
  accessEnd h := by
    obtain ⟨rfl, rfl⟩ := h
    exact ⟨rfl, rfl⟩
  availableCount h := by
    obtain ⟨rfl, rfl⟩ := h
    rfl
  nextEntry h := by
    obtain ⟨rfl, rfl⟩ := h
    exact ⟨optionRel_refl _, rfl, rfl⟩
  nextFreeEntry h := by
    obtain ⟨rfl, rfl⟩ := h
    exact ⟨optionRel_refl _, rfl, rfl⟩
  setEntry h he busAddr cookie := by
    obtain ⟨rfl, rfl⟩ := h
    subst he
    exact ⟨rfl, rfl, rfl⟩
  cookieOf h he := by
    obtain ⟨rfl, rfl⟩ := h
    subst he
    rfl
  acquire h size := by
    obtain ⟨rfl, rfl⟩ := h
    exact ⟨rfl, rfl, rfl⟩
  giveBack h b := by
    obtain ⟨rfl, rfl⟩ := h
    exact ⟨rfl, rfl⟩
  report h event := by
    obtain ⟨rfl, rfl⟩ := h
    exact ⟨rfl, rfl⟩

variable [RxBuffer β]

namespace Ring

theorem perform_metered (ring : Ring η β) (m : Metered ω) (op : Operation) :
    ring.perform p m.world op =
      ((ring.perform p.metered m op).1, (ring.perform p.metered m op).2.world) := by
  have hpaired : Paired Eq ring ring := ⟨rfl, optionRel_refl _⟩
  obtain ⟨hring, hworld⟩ := perform_simulation (metered_simulation (p := p)) hpaired rfl
    (fun hw hw' hheld hheld' => ⟨Option.some.inj (hheld.symm.trans hheld'), rfl⟩)
    (fun _ _ _ _ _ _ _ => trivial) op
  exact Prod.ext hring.eq.symm hworld.symm

theorem run_metered (ring : Ring η β) (m : Metered ω) (moves : List (Move ω)) :
    Ring.run p (ring, m.world) moves =
      ((Ring.run p.metered (ring, m) (moves.map Move.metered)).1,
        (Ring.run p.metered (ring, m) (moves.map Move.metered)).2.world) := by
  induction moves generalizing ring m with
  | nil => rfl
  | cons move moves ih =>
    cases move with
    | operate op =>
      have hstep := perform_metered (p := p) ring m op
      have hrest := ih (ring.perform p.metered m op).1 (ring.perform p.metered m op).2
      simp only [run, List.map_cons, List.foldl_cons, Move.apply, Move.metered] at hrest ⊢
      rw [hstep]
      exact hrest
    | disturb change => exact ih ring (m.setWorld (change m.world))

end Ring

/-- What went back and what the ring still holds is all the ring memory there is. -/
theorem metered_custody (a : Allocation) :
    RingCustody p.metered fun m mem (_ : List β) => m.freed ++ mem.toList = [a] where
  buffers _ :=
    { perm := fun h _ => h
      acquire := fun h ha => by rwa [Metered.freed, (metered_acquire ha).2]
      acquire_error := fun h ha => by rwa [Metered.freed, (metered_acquire ha).2]
      release := fun h => h
      sync := fun h hs => by
        cases hs
        exact h
      narrow := fun h _ _ => h
      deliver := fun h => h
      record := fun h _ => h }
  accessBegin h ha := by
    cases ha
    exact h
  accessEnd h _ := h
  nextEntry h hn := by
    cases hn
    exact h
  nextFreeEntry h hn := by
    cases hn
    exact h
  setEntry h hs := by
    cases hs
    exact h
  free h := by
    rw [Metered.freed, freeRingMemory_frees]
    simpa [Metered.freed] using h

namespace Ring

variable {ring : Ring η β} {w : ω} {a : Allocation}

/-- The call that ends the ring's life: its release, or an attach that fails. -/
def Ends (p : Platform ω η ε β) (ring : Ring η β) (w : ω) : Operation → Prop
  | .attach => ring.state = .ready ∧ (ring.attach p w).1.isOk = false
  | .release => True
  | .tryReap | .reap => False

def HoldsMemory (a : Allocation) (ring : Ring η β) : Prop :=
  ring.state ≠ .released → ring.ringMem = some a ∧ ring.hw.isSome = true

theorem HoldsMemory.attach (h : ring.HoldsMemory a) (w : ω) :
    (ring.attach p w).2.1.HoldsMemory a ∧
      ((ring.attach p w).2.1.state = .released ↔
        ring.state = .released ∨ ring.Ends p w .attach) := by
  rcases hstate : ring.state with _ | _ | _ | _
  case active | faulted | released =>
    simp only [Ring.attach, hstate]
    exact ⟨h, by simp [Ends, hstate]⟩
  case ready =>
    obtain ⟨hmem, hhw⟩ := h (by simp [hstate])
    obtain ⟨hw, hheld⟩ := Option.isSome_iff_exists.mp hhw
    have hends : ring.Ends p w .attach ↔ (ring.attach p w).1.isOk = false := by
      simp [Ends, hstate]
    rw [hends]
    simp only [Ring.attach, hstate, hheld]
    generalize (ring.enter hw w).fill p ring.geometry.bufferSize (ring.table.capacity - 1) = out
    obtain ⟨e | _, s⟩ := out
    · exact ⟨fun hne => absurd (releaseAll_state ..) hne, by simp [Except.isOk, Except.toBool]⟩
    · exact ⟨fun _ => ⟨hmem, rfl⟩, by simp [Except.isOk, Except.toBool]⟩

theorem HoldsMemory.tryReap (h : ring.HoldsMemory a) (w : ω) :
    (ring.tryReap p w).2.1.HoldsMemory a ∧
      ((ring.tryReap p w).2.1.state = .released ↔ ring.state = .released) := by
  have hout := reaped p ring w
  generalize ring.tryReap p w = out at hout ⊢
  cases hout with
  | refused => exact ⟨h, Iff.rfl⟩
  | unopened active => exact ⟨fun hne => ⟨(h hne).1, rfl⟩, Iff.rfl⟩
  | @drained hw hw' w' result pass closed w'' n ring' out active held access drain hc hd =>
    have hmem := (h (by simp [active])).1
    cases hd
    cases result with
    | ok =>
      cases hc
      exact ⟨fun _ => ⟨hmem, rfl⟩, Iff.rfl⟩
    | error e =>
      cases hc
      exact ⟨fun _ => ⟨hmem, rfl⟩, by simp [active]⟩

/-- A ring gives its memory up in the calls that end its life, and in no others. -/
theorem HoldsMemory.perform (h : ring.HoldsMemory a) (w : ω) (op : Operation) :
    (ring.perform p w op).1.HoldsMemory a ∧
      ((ring.perform p w op).1.state = .released ↔
        ring.state = .released ∨ ring.Ends p w op) := by
  cases op with
  | attach => exact h.attach w
  | tryReap =>
    rw [Ends, or_false]
    exact h.tryReap w
  | reap =>
    rw [Ends, or_false, Ring.perform, reap_ring]
    exact h.tryReap w
  | release =>
    have hend : (ring.perform p w .release).1.state = .released := releaseAll_state ring w
    exact ⟨fun hne => absurd hend hne, fun _ => .inr trivial, fun _ => hend⟩

theorem perform_released (hs : ring.state = .released) (m : Metered ω) (op : Operation) :
    (ring.perform p.metered m op).1 = ring ∧
      (ring.perform p.metered m op).2.frees = m.frees := by
  cases op with
  | attach => simp only [perform, Ring.attach, hs, and_self]
  | tryReap => simp only [perform, Ring.tryReap, hs, and_self]
  | reap =>
    simp only [perform, Ring.reap, Ring.tryReap, hs, true_and]
    rfl
  | release => simp only [perform, releaseAll, hs, if_true, and_self]

/-- Ring memory that was taken by a setup goes back once. -/
structure Settled (a : Allocation) (ring : Ring η β) (m : Metered ω) : Prop where
  holdsMemory : ring.HoldsMemory a
  custody : ring.InCustody (fun m mem (_ : List β) => m.freed ++ mem.toList = [a]) m

omit [RxBuffer β] in
theorem Settled.freed {m : Metered ω} (h : ring.Settled a m) :
    m.freed = if ring.state = .released then [a] else [] := by
  have haccount := h.custody.account
  by_cases hs : ring.state = .released
  · rw [(h.custody.emptied hs).1] at haccount
    rw [if_pos hs]
    simpa using haccount
  · rw [(h.holdsMemory hs).1] at haccount
    rw [if_neg hs]
    simpa using haccount

theorem Settled.perform {m : Metered ω} (h : ring.Settled a m) (op : Operation) :
    (ring.perform p.metered m op).1.Settled a (ring.perform p.metered m op).2 :=
  ⟨(h.holdsMemory.perform m op).1, h.custody.perform (metered_custody a) op⟩

theorem run_settled {m : Metered ω} (h : ring.Settled a m) (moves : List (Move ω)) :
    let out := Ring.run p.metered (ring, m) (moves.map Move.metered)
    out.1.Settled a out.2 := by
  induction moves generalizing ring m with
  | nil => exact h
  | cons move moves ih =>
    cases move with
    | operate op => exact ih (h.perform op)
    | disturb change =>
      exact ih (m := m.setWorld (change m.world))
        ⟨h.holdsMemory, h.custody.account, h.custody.emptied⟩

omit [RxBuffer β] in
theorem setup_settled {params : RingParams} {w' : ω}
    (h : Ring.setup p params w = (.ok ring, w')) :
    ∃ a, ring.ringMem = some a ∧ ring.Settled a (.fresh w') := by
  obtain ⟨-, -, a, w₁, hw, w₂, -, -, -, -, rfl⟩ := setup_eq_ok h
  exact ⟨a, rfl, fun _ => ⟨rfl, rfl⟩, rfl, fun hs => by cases hs⟩

end Ring

end FrameRing
