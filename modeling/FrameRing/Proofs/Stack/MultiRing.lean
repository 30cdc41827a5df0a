import FrameRing.Proofs.Stack.Holdings

/-! # Many rings over one pool

Rings are set up, attached, reaped and released over one pool, in any number and in any order,
while everybody else goes on. All memory that is held at any time is held by exactly one. -/

namespace FrameRing

/-- The memory that a ring holds: its own and that of the buffers armed in it. -/
def Ring.holdings (ring : Ring SourceRing DmaBuffer) : List Allocation :=
  ring.table.buffers.map DmaBuffer.allocation ++ ring.ringMem.toList

/-- What happens next. While a ring is at work, `meanwhile` takes place around it. -/
inductive RingAction where
  | setup (params : RingParams) (meanwhile : List (List Act))
  | operate (idx : Nat) (op : Operation) (meanwhile : List (List Act))
  | act (act : Act)

structure MultiRing where
  rings : List (Ring SourceRing DmaBuffer)
  scene : Scene

namespace MultiRing

def start (world : World) : MultiRing := ⟨[], .start world⟩

def step (rbm : Nat) (e : MultiRing) : RingAction → MultiRing
  | .setup params meanwhile =>
    match Ring.setup (Scene.platform rbm) params (e.scene.expect meanwhile) with
    | (.error _, scene) => { e with scene }
    | (.ok ring, scene) => ⟨ring :: e.rings, scene⟩
  | .operate idx op meanwhile =>
    match e.rings[idx]? with
    | none => e
    | some ring =>
      let (ring, scene) := ring.perform (Scene.platform rbm) (e.scene.expect meanwhile) op
      ⟨e.rings.set idx ring, scene⟩
  | .act act => { e with scene := e.scene.act act }

def run (rbm : Nat) (e : MultiRing) (actions : List RingAction) : MultiRing :=
  actions.foldl (step rbm) e

def live (e : MultiRing) : List Allocation :=
  e.rings.flatMap Ring.holdings ++ e.scene.elsewhere

structure Kept (base capacity : Nat) (e : MultiRing) : Prop where
  keeps : e.scene.Keeps base capacity (e.rings.flatMap Ring.holdings)
  emptied : ∀ ring ∈ e.rings, ring.Emptied

variable {base capacity rbm : Nat} {e : MultiRing}

theorem account_iff {rest : List Allocation} {ring : Ring SourceRing DmaBuffer} {s : Scene} :
    Scene.Account base capacity rest s ring.ringMem ring.table.buffers ↔
      s.Keeps base capacity (ring.holdings ++ rest) := by
  rw [Scene.Account, Ring.holdings, List.append_assoc]

theorem holdings_perm {rings : List (Ring SourceRing DmaBuffer)} {idx : Nat}
    {ring : Ring SourceRing DmaBuffer} (h : rings[idx]? = some ring) :
    (rings.flatMap Ring.holdings).Perm
      (ring.holdings ++ (rings.eraseIdx idx).flatMap Ring.holdings) := by
  have hperm := (perm_eraseIdx h).flatMap_right Ring.holdings
  rwa [List.flatMap_cons] at hperm

theorem Kept.setup (h : e.Kept base capacity) (params : RingParams)
    (meanwhile : List (List Act)) :
    (e.step rbm (.setup params meanwhile)).Kept base capacity := by
  simp only [step]
  rcases hs : Ring.setup (Scene.platform rbm) params (e.scene.expect meanwhile) with
    ⟨result, scene⟩
  have hkept : Scene.Account base capacity (e.rings.flatMap Ring.holdings)
      (e.scene.expect meanwhile) none [] := h.keeps
  rcases Ring.setup_custody (Scene.platform_custody rbm base capacity _) hkept hs with
    ⟨e, rfl, hfailed⟩ | ⟨ring, rfl, hcustody⟩
  · exact ⟨hfailed, h.emptied⟩
  · refine ⟨account_iff.mp hcustody.account, ?_⟩
    intro r hr
    rcases List.mem_cons.mp hr with rfl | hr
    · exact hcustody.emptied
    · exact h.emptied r hr

theorem Kept.account (h : e.Kept base capacity) {idx : Nat} {ring : Ring SourceRing DmaBuffer}
    (hidx : e.rings[idx]? = some ring) (meanwhile : List (List Act)) :
    Scene.Account base capacity ((e.rings.eraseIdx idx).flatMap Ring.holdings)
      (e.scene.expect meanwhile) ring.ringMem ring.table.buffers :=
  account_iff.mpr (Scene.Keeps.perm h.keeps (holdings_perm hidx))

/-- One ring works, and the others keep what they hold. -/
theorem Kept.operate (h : e.Kept base capacity) (idx : Nat) (op : Operation)
    (meanwhile : List (List Act)) :
    (e.step rbm (.operate idx op meanwhile)).Kept base capacity := by
  simp only [step]
  cases hidx : e.rings[idx]? with
  | none => exact h
  | some ring =>
    have hcustody := Ring.InCustody.perform (Scene.platform_custody rbm base capacity _).atWork
      ⟨h.account hidx meanwhile, h.emptied ring (List.mem_of_getElem? hidx)⟩ op
    simp only
    generalize ring.perform (Scene.platform rbm) (e.scene.expect meanwhile) op = out at hcustody ⊢
    obtain ⟨ring', scene⟩ := out
    obtain ⟨hlt, -⟩ := List.getElem?_eq_some_iff.mp hidx
    have hset := holdings_perm
      (show (e.rings.set idx ring')[idx]? = some ring' from List.getElem?_set_self hlt)
    rw [List.eraseIdx_set_eq] at hset
    refine ⟨Scene.Keeps.perm (account_iff.mp hcustody.account) hset.symm, ?_⟩
    intro r hr
    rcases List.mem_or_eq_of_mem_set hr with hr | rfl
    · exact h.emptied r hr
    · exact hcustody.emptied

theorem step_kept (h : e.Kept base capacity) (action : RingAction) :
    (e.step rbm action).Kept base capacity := by
  cases action with
  | setup params meanwhile => exact h.setup params meanwhile
  | operate idx op meanwhile => exact h.operate idx op meanwhile
  | act act => exact ⟨h.keeps.act act, h.emptied⟩

theorem run_kept (h : e.Kept base capacity) (actions : List RingAction) :
    (e.run rbm actions).Kept base capacity := by
  induction actions generalizing e with
  | nil => exact h
  | cons action actions ih => exact ih (step_kept h action)

theorem start_kept {window : Window} {slotSize len : Nat} {w : World}
    (hw : World.create window slotSize base len = .ok w)
    (hl : base + len / slotSize * slotSize ≤ addressLimit) :
    (start w).Kept base (len / slotSize * slotSize) :=
  ⟨Scene.start_keeps hw hl, fun ring hr => by cases hr⟩

theorem Kept.vacated (h : e.Kept base capacity) (hr : ∀ ring ∈ e.rings, ring.state = .released)
    (hd : e.scene.world.rest.delivered = #[]) (ho : e.scene.others = []) : e.live = [] := by
  have hrings : e.rings.flatMap Ring.holdings = [] := by
    rw [List.flatMap_eq_nil_iff]
    intro ring hmem
    obtain ⟨hmem', htable⟩ := h.emptied ring hmem (hr ring hmem)
    rw [Ring.holdings, hmem', htable]
    rfl
  rw [live, hrings, Scene.elsewhere, hd, ho]
  rfl

/-- Whatever the device, the consumer and other users do and whichever accesses fail, ring memory,
armed buffers, frames upstream and other allocations never share a byte. They lie in the pool and
make it up together with what is free, no memory is ever reported as leaked, and when all is given
back the whole pool is free. -/
theorem run_keeps_memory_apart {window : Window} {slotSize len : Nat} {w : World}
    (hw : World.create window slotSize base len = .ok w)
    (hl : base + len / slotSize * slotSize < addressLimit) (rbm : Nat) (actions : List RingAction) :
    let e := (start w).run rbm actions
    let capacity := len / slotSize * slotSize
    let slab := e.scene.world.rest.slab
    e.live.Pairwise (fun a b => ¬ Slab.Overlaps a b) ∧
    (∀ a ∈ e.live, base ≤ a.addr ∧ a.addr + a.len ≤ base + capacity) ∧
    slab.freeBytes + (e.live.map Allocation.len).sum = capacity ∧
    (∀ event ∈ e.scene.world.host.journal.toList, event.reportsLeak = false) ∧
    ((∀ ring ∈ e.rings, ring.state = .released) → e.scene.world.rest.delivered = #[] →
      e.scene.others = [] → slab.freeBytes = capacity) := by
  intro e capacity slab
  have h : e.Kept base capacity := run_kept (start_kept hw (Nat.le_of_lt hl)) actions
  have hbalance : slab.freeBytes + (e.live.map Allocation.len).sum = capacity :=
    h.keeps.balance.trans h.keeps.capacity_eq
  refine ⟨h.keeps.apart, ?_, hbalance, h.keeps.unleaked, ?_⟩
  · intro a ha
    have hin := h.keeps.toOwns.within ha
    rwa [h.keeps.base_eq, h.keeps.capacity_eq] at hin
  · intro hr hd ho
    rw [h.vacated hr hd ho] at hbalance
    exact hbalance

/-- A setup that finds too little memory, an attached ring with a frame upstream, then all back. -/
theorem run_keeps_memory_apart_teardown :
    let w : World := .fresh (.zeroed 0 1024) ⟨0, 64, Array.replicate 16 false, none⟩
    let fw : Firmware := ⟨⟨128, 3, 8, 152, 156⟩, .empty, 64⟩
    let actions : List RingAction :=
      [.setup (.ofSizes 3 8 64) [[.pool (.alloc 100)]], .setup (.ofSizes 500 8 64) [],
        .operate 0 .attach [[], [.pool (.alloc 64)]],
        .act (.device fw (.fill 0 0 ((FrameHeader.ofPayload 2).toBytes ++ [7, 8]))),
        .operate 0 .tryReap [[.device fw (.advance 1)], [.pool (.free 0)]]]
    let back : List RingAction :=
      [.act (.intoBytes 0),
        .operate 0 .release [[.memory fun m => { m with faults := [⟨.read, 0, 1024⟩] }]],
        .act (.pool (.free 0))]
    let e := (start w).run 3 actions
    e.live = [⟨320, 64⟩, ⟨192, 64⟩, ⟨128, 64⟩, ⟨256, 64⟩, ⟨0, 128⟩] ∧
      e.live.Pairwise (fun a b => ¬ Slab.Overlaps a b) ∧
      ((start w).run 3 (actions ++ back)).scene.world.rest.slab.freeBytes = 1024 := by
  intro w fw actions back e
  have hw : World.create (.zeroed 0 1024) 64 0 1024 = .ok w := rfl
  have hl : 0 + 1024 / 64 * 64 < addressLimit := by decide
  refine ⟨by decide +kernel, (run_keeps_memory_apart hw hl 3 actions).1, ?_⟩
  apply (run_keeps_memory_apart hw hl 3 (actions ++ back)).2.2.2.2
  · decide +kernel
  · decide +kernel
  · decide +kernel

end MultiRing

end FrameRing
