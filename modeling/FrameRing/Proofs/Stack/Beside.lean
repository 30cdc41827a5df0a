import FrameRing.Proofs.Ring.Simulation
import FrameRing.Proofs.Stack.Memory

/-! # Worlds side by side

Two worlds that differ in nothing but their memories. The pool, the consumer and the log do not look
at memory, so that calls to them do the same in both; a buffer is synced alike if its bytes are. -/

namespace FrameRing

namespace World

variable {M : HostMemory → HostMemory → Prop} {w w' : World}

/-- The pools, the frames delivered and the reports are the same, and `M` holds between the
memories. -/
structure Beside (M : HostMemory → HostMemory → Prop) (w w' : World) : Prop where
  rest : w.rest = w'.rest
  journal : w.host.journal = w'.host.journal
  memory : M w.host.memory w'.host.memory

namespace Beside

theorem keep (h : Beside M w w') {w₁ w₁' : World} (hrest : w₁.rest = w₁'.rest)
    (hjournal : w₁.host.journal = w₁'.host.journal) (hm : w₁.host.memory = w.host.memory)
    (hm' : w₁'.host.memory = w'.host.memory) : Beside M w₁ w₁' := by
  refine ⟨hrest, hjournal, ?_⟩
  rw [hm, hm']
  exact h.memory

theorem record (h : Beside M w w') (event : LogEvent) :
    Beside M (w.record event) (w'.record event) :=
  h.keep h.rest (congrArg (Array.push · event) h.journal) rfl rfl

theorem deliver (h : Beside M w w') (b : DmaBuffer) :
    Beside M (World.deliver b w) (World.deliver b w') := by
  refine h.keep ?_ h.journal rfl rfl
  simp only [World.deliver, h.rest]

theorem acquire (h : Beside M w w') (size : Nat) :
    (World.acquire size w).1 = (World.acquire size w').1 ∧
      Beside M (World.acquire size w).2 (World.acquire size w').2 := by
  refine ⟨?_, h.keep ?_ h.journal rfl rfl⟩
  · simp only [World.acquire, h.rest]
  · simp only [World.acquire, World.setSlab, h.rest]

theorem dealloc (h : Beside M w w') (a : Allocation) :
    (World.dealloc a w).1 = (World.dealloc a w').1 ∧
      Beside M (World.dealloc a w).2 (World.dealloc a w').2 := by
  refine ⟨?_, h.keep ?_ h.journal rfl rfl⟩
  · simp only [World.dealloc, h.rest]
  · simp only [World.dealloc, World.setSlab, h.rest]

theorem release (h : Beside M w w') (b : DmaBuffer) :
    Beside M (World.release b w) (World.release b w') := by
  have hmemory := release_memory b w
  have hmemory' := release_memory b w'
  have hrest := h.rest
  have hjournal := h.journal
  obtain ⟨⟨m, journal⟩, rest⟩ := w
  obtain ⟨⟨m', journal'⟩, rest'⟩ := w'
  cases hrest
  cases hjournal
  refine h.keep ?_ ?_ hmemory hmemory'
  · simp only [World.release, DmaBuffer.discard]
    rcases rest.slab.dealloc b.allocation with ⟨_ | _, slab⟩
    · rfl
    · rfl
  · simp only [World.release, DmaBuffer.discard]
    rcases rest.slab.dealloc b.allocation with ⟨_ | _, slab⟩
    · rfl
    · rfl

theorem sync (h : Beside M w w') {b : DmaBuffer}
    (hread : w.host.memory.read b.allocation.addr b.size =
      w'.host.memory.read b.allocation.addr b.size) :
    (World.sync b w).1 = (World.sync b w').1 ∧
      Beside M (World.sync b w).2 (World.sync b w').2 := by
  have hmemory := b.sync_memory w.host
  have hmemory' := b.sync_memory w'.host
  have hjournal := h.journal
  obtain ⟨⟨m, journal⟩, rest⟩ := w
  obtain ⟨⟨m', journal'⟩, rest'⟩ := w'
  cases hjournal
  simp only at hread
  have hboth : (b.sync ⟨m, journal⟩).1 = (b.sync ⟨m', journal⟩).1 ∧
      (b.sync ⟨m, journal⟩).2.journal = (b.sync ⟨m', journal⟩).2.journal := by
    simp only [DmaBuffer.sync, hread]
    cases m'.read b.allocation.addr b.size with
    | ok data => exact ⟨rfl, rfl⟩
    | error e => exact ⟨rfl, rfl⟩
  exact ⟨hboth.1, h.keep h.rest hboth.2 hmemory hmemory'⟩

end Beside

/-- Outside of an access section nobody tells the two worlds apart. -/
theorem beside_callSimulation (rbm : Nat) {seen : DmaBuffer → Prop}
    (hread : ∀ m m', M m m' → ∀ b, seen b →
      m.read b.allocation.addr b.size = m'.read b.allocation.addr b.size) :
    CallSimulation (platform rbm) (platform rbm) (Beside M) seen where
  release h b := h.release b
  sync h hb := h.sync (hread _ _ h.memory _ hb)
  deliver h b := h.deliver b
  record h event := h.record event
  dealloc h a := h.dealloc a

end World

end FrameRing
