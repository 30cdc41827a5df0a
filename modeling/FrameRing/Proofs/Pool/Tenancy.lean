import FrameRing.Proofs.Pool.Ownership

/-! # Runs of a slab

Users take allocations from a slab and give them back in any order, with refused calls in between.
No user ever gets a byte that another one holds, and what is given back is there again. -/

namespace FrameRing.Slab

inductive Call where
  | alloc (len : Nat)
  | dealloc (a : Allocation)
  deriving DecidableEq, Repr

/-- A slab and what its users hold. -/
structure Tenancy where
  slab : Slab
  live : List Allocation
  deriving DecidableEq, Repr

namespace Tenancy

def start (slab : Slab) : Tenancy := ⟨slab, []⟩

def step (s : Tenancy) : Call → Tenancy
  | .alloc len =>
    match s.slab.alloc len with
    | (.error _, slab) => { s with slab }
    | (.ok a, slab) => ⟨slab, a :: s.live⟩
  | .dealloc a =>
    match s.slab.dealloc a with
    | (.error _, slab) => { s with slab }
    | (.ok _, slab) => ⟨slab, s.live.erase a⟩

def run (s : Tenancy) (calls : List Call) : Tenancy := calls.foldl step s

/-- What is freed is held by somebody, or the slab refuses to free it. -/
def Honest (s : Tenancy) : Call → Prop
  | .alloc _ => True
  | .dealloc a => a ∈ s.live ∨ (s.slab.dealloc a).1 = .error (.invalidFree a.addr a.len)

instance decidableHonest (s : Tenancy) : (c : Call) → Decidable (s.Honest c)
  | .alloc _ => isTrue trivial
  | .dealloc _ => inferInstanceAs (Decidable (_ ∨ _))

def HonestRun (s : Tenancy) : List Call → Prop
  | [] => True
  | c :: calls => s.Honest c ∧ (s.step c).HonestRun calls

instance decidableHonestRun (s : Tenancy) : (calls : List Call) → Decidable (s.HonestRun calls)
  | [] => isTrue trivial
  | c :: calls =>
    have := decidableHonestRun (s.step c) calls
    inferInstanceAs (Decidable (_ ∧ _))

/-- The users own what they hold, in the region that the slab was created with. -/
structure Kept (slotSize base capacity : Nat) (s : Tenancy) : Prop
    extends s.slab.Owns s.live where
  slotSize_eq : s.slab.slotSize = slotSize
  base_eq : s.slab.base = base
  capacity_eq : s.slab.capacity = capacity
  aligned : base % slotSize = 0

variable {slotSize base capacity : Nat} {s : Tenancy} {a : Allocation}

theorem Kept.replace (h : s.Kept slotSize base capacity) {slab : Slab} {live : List Allocation}
    (howns : slab.Owns live) (hrange : slab.range = s.slab.range)
    (hslot : slab.slotSize = s.slab.slotSize) : Kept slotSize base capacity ⟨slab, live⟩ := by
  obtain ⟨hbase, hstop⟩ := Prod.mk.inj hrange
  have hb := h.base_eq
  have hcap := h.capacity_eq
  exact ⟨howns, hslot.trans h.slotSize_eq, hbase.trans hb, by simp only; omega, h.aligned⟩

theorem kept_start {slab : Slab} {len : Nat} (hc : create slotSize base len = .ok slab)
    (hl : base + len / slotSize * slotSize ≤ addressLimit) :
    (start slab).Kept slotSize base (len / slotSize * slotSize) := by
  obtain ⟨hbase, hcap, howns⟩ := owns_create hc hl
  unfold create at hc
  split at hc
  · cases hc
  rename_i haligned
  split at hc
  · cases hc
  · cases hc
    exact ⟨howns, rfl, hbase, hcap, Decidable.not_not.mp haligned⟩

theorem Kept.alloc (h : s.Kept slotSize base capacity) (len : Nat) :
    (s.step (.alloc len)).Kept slotSize base capacity := by
  simp only [step]
  rcases ha : s.slab.alloc len with ⟨e | a, slab⟩
  · obtain ⟨rfl, -⟩ := h.alloc_error ha
    exact h
  · obtain ⟨howns, hrange, -⟩ := h.toOwns.alloc ha
    refine h.replace howns hrange ?_
    rcases alloc_cases h.toSound len with ⟨e, he, -⟩ | ⟨b, start, last, -, -, he, -⟩
    · rw [ha] at he
      cases he
    · rw [ha] at he
      cases he
      rfl

theorem Kept.dealloc_held (h : s.Kept slotSize base capacity) (ha : a ∈ s.live) :
    ∃ slab, s.slab.dealloc a = (.ok (), slab) ∧
      Kept slotSize base capacity ⟨slab, s.live.erase a⟩ := by
  obtain ⟨slab, hfreed, howns, hrange⟩ :=
    Owns.dealloc (h.toOwns.perm (List.perm_cons_erase ha))
  refine ⟨slab, hfreed, h.replace howns hrange ?_⟩
  rcases dealloc_cases s.slab a with he | ⟨start, count, -, -, he⟩
  · rw [hfreed] at he
    cases he
  · rw [hfreed] at he
    cases he
    rfl

theorem Kept.dealloc (h : s.Kept slotSize base capacity) (hc : s.Honest (.dealloc a)) :
    (s.step (.dealloc a)).Kept slotSize base capacity := by
  simp only [step]
  rcases hc with hheld | hrefused
  · obtain ⟨slab, hfreed, hkept⟩ := h.dealloc_held hheld
    rw [hfreed]
    exact hkept
  · rcases dealloc_cases s.slab a with he | ⟨start, count, -, -, he⟩
    · rw [he]
      exact h
    · rw [he] at hrefused
      cases hrefused

theorem step_kept (h : s.Kept slotSize base capacity) {c : Call} (hc : s.Honest c) :
    (s.step c).Kept slotSize base capacity := by
  cases c with
  | alloc len => exact h.alloc len
  | dealloc a => exact h.dealloc hc

theorem run_kept (h : s.Kept slotSize base capacity) {calls : List Call}
    (hc : s.HonestRun calls) : (s.run calls).Kept slotSize base capacity := by
  induction calls generalizing s with
  | nil => exact h
  | cons c calls ih =>
    obtain ⟨hfirst, hrest⟩ := hc
    exact ih (step_kept h hfirst) hrest

theorem Kept.fresh (h : s.Kept slotSize base capacity) {len : Nat} {slab : Slab}
    (ha : s.slab.alloc len = (.ok a, slab)) :
    (a.addr % slotSize = 0 ∧ base ≤ a.addr ∧ a.addr + a.len ≤ base + capacity) ∧
      (len ≤ a.len ∧ a.len < len + slotSize) ∧ ∀ b ∈ s.live, ¬ Overlaps a b := by
  obtain ⟨howns, -, hlow, hhigh⟩ := h.toOwns.alloc ha
  have hkept := h.alloc len
  simp only [step, ha] at hkept
  have hin := howns.within List.mem_cons_self
  have hbase : slab.base = base := hkept.base_eq
  have hcap : slab.capacity = capacity := hkept.capacity_eq
  have hslot := h.slotSize_eq
  obtain ⟨start, count, hspan, -⟩ := howns.held a List.mem_cons_self
  have haddr := hspan.addr
  rw [hbase, hkept.slotSize_eq] at haddr
  refine ⟨⟨?_, by omega, by omega⟩, ⟨hlow, by omega⟩, ?_⟩
  · rw [haddr, Nat.add_mul_mod_self_right, h.aligned]
  · exact (List.pairwise_cons.mp howns.apart).1

/-- Users who leave one after the other, in any order, leave a slab that is all free. -/
theorem Kept.vacate (h : s.Kept slotSize base capacity) {order : List Allocation}
    (hp : order.Perm s.live) :
    (s.run (order.map .dealloc)).live = [] ∧
      (s.run (order.map .dealloc)).slab.freeBytes = capacity := by
  induction order generalizing s with
  | nil =>
    have hnone : s.live = [] := List.nil_perm.mp hp
    have hbal := h.balance
    rw [hnone, h.capacity_eq] at hbal
    exact ⟨hnone, hbal⟩
  | cons a order ih =>
    have ha : a ∈ s.live := hp.mem_iff.mp List.mem_cons_self
    obtain ⟨slab, hfreed, hkept⟩ := h.dealloc_held ha
    have hrest : order.Perm (s.live.erase a) :=
      (List.perm_cons a).mp (hp.trans (List.perm_cons_erase ha))
    have hnext : s.step (.dealloc a) = ⟨slab, s.live.erase a⟩ := by
      simp only [step, hfreed]
    rw [List.map_cons, run, List.foldl_cons, hnext]
    exact ih hkept hrest

/-- After any run of honest users a request is served from slots of the region that nobody holds,
free and held bytes make up the region, whoever holds an allocation can give it back, the run freed
last is free, and when all have given back what they hold the whole region is free again. -/
theorem run_keeps_apart {len : Nat} {slab : Slab} (hc : create slotSize base len = .ok slab)
    (hl : base + len / slotSize * slotSize < addressLimit) (calls : List Call)
    (hcalls : (start slab).HonestRun calls) :
    let s := (start slab).run calls
    let capacity := len / slotSize * slotSize
    (∀ want a slab', s.slab.alloc want = (.ok a, slab') →
      (a.addr % slotSize = 0 ∧ base ≤ a.addr ∧ a.addr + a.len ≤ base + capacity) ∧
        (want ≤ a.len ∧ a.len < want + slotSize) ∧ ∀ b ∈ s.live, ¬ Overlaps a b) ∧
    s.live.Pairwise (fun a b => ¬ Overlaps a b) ∧
    s.slab.freeBytes + (s.live.map Allocation.len).sum = capacity ∧
    (∀ a ∈ s.live, (s.slab.dealloc a).1 = .ok ()) ∧
    (∀ run, s.slab.lastFreed = some run →
      ∃ first count, s.slab.Spans run first count ∧ RunAt s.slab.busy false first count) ∧
    ∀ order : List Allocation, order.Perm s.live →
      (s.run (order.map .dealloc)).live = [] ∧
        (s.run (order.map .dealloc)).slab.freeBytes = capacity := by
  intro s capacity
  have h : s.Kept slotSize base capacity := run_kept (kept_start hc (Nat.le_of_lt hl)) hcalls
  refine ⟨?_, h.apart, ?_, ?_, h.cached, ?_⟩
  · intro want a slab' ha
    exact h.fresh ha
  · rw [h.balance, h.capacity_eq]
  · intro a ha
    obtain ⟨slab', hfreed, -⟩ := h.dealloc_held ha
    rw [hfreed]
  · intro order hp
    exact h.vacate hp

theorem run_keeps_apart_reuse :
    let slab : Slab := ⟨64, 16, Array.replicate 6 false, none⟩
    let calls : List Call := [.alloc 20, .alloc 16, .alloc 0, .dealloc ⟨64, 32⟩, .dealloc ⟨64, 32⟩,
      .alloc 10, .alloc 40, .alloc 17]
    let s := (start slab).run calls
    create 16 64 100 = .ok slab ∧ 64 + 100 / 16 * 16 < addressLimit ∧
      (start slab).HonestRun calls ∧
      s.live = [⟨112, 48⟩, ⟨64, 16⟩, ⟨96, 16⟩] ∧
      s.slab.freeBytes + (s.live.map Allocation.len).sum = 96 ∧
      (s.run ([⟨64, 16⟩, ⟨112, 48⟩, ⟨96, 16⟩].map .dealloc)).slab.freeBytes = 96 := by
  intro slab calls s
  have hc : create 16 64 100 = .ok slab := rfl
  have hl : 64 + 100 / 16 * 16 < addressLimit := by decide
  have hcalls : (start slab).HonestRun calls := by decide
  have hlive : s.live = [⟨112, 48⟩, ⟨64, 16⟩, ⟨96, 16⟩] := by decide
  obtain ⟨-, -, hbalance, -, -, hvacate⟩ := run_keeps_apart hc hl calls hcalls
  refine ⟨hc, hl, hcalls, hlive, hbalance, (hvacate _ ?_).2⟩
  change List.Perm _ s.live
  rw [hlive]
  decide

end Tenancy

end FrameRing.Slab
