import FrameRing.Proofs.Ring.CustodyRules
import FrameRing.Proofs.Stack.Surroundings

/-! # Who holds the memory of a pool

Ring memory, armed buffers, delivered frames and the allocations of other users come out of one
slab. Whatever anybody does, all of them are live at the same time, so that none shares a byte with
another, and whoever gives memory back succeeds. -/

namespace FrameRing

variable {base capacity rbm : Nat} {live live' : List Allocation} {a : Allocation}

/-- `live` is allocated from the region that the pool was created over, and no memory was ever
reported as leaked. -/
structure World.Keeps (base capacity : Nat) (w : World) (live : List Allocation) : Prop
    extends w.rest.slab.Owns live where
  base_eq : w.rest.slab.base = base
  capacity_eq : w.rest.slab.capacity = capacity
  unleaked : ∀ event ∈ w.host.journal.toList, event.reportsLeak = false

/-- Nothing that was reported since is a leak. -/
def Host.NoLeakSince (h h' : Host) : Prop :=
  ∀ event ∈ h'.journal.toList, event ∈ h.journal.toList ∨ event.reportsLeak = false

theorem Host.noLeakSince_of_same {h h' : Host} (hj : h'.journal = h.journal) :
    h.NoLeakSince h' :=
  fun _ hm => .inl (hj ▸ hm)

theorem Host.noLeakSince_record {h h' : Host} {event : LogEvent} (he : event.reportsLeak = false)
    (hj : h'.journal = (h.record event).journal) : h.NoLeakSince h' := by
  intro e hm
  rw [hj, record, Array.toList_push] at hm
  rcases List.mem_append.mp hm with hold | hnew
  · exact .inl hold
  · rw [List.mem_singleton.mp hnew]
    exact .inr he

namespace SourceRing

theorem accessEnd_noLeak (r : SourceRing) (h : Host) : h.NoLeakSince (r.accessEnd h).2 := by
  unfold accessEnd
  split
  · simp only
    split
    · exact Host.noLeakSince_of_same rfl
    · exact Host.noLeakSince_record rfl rfl
  · exact Host.noLeakSince_of_same rfl

theorem nextEntry_noLeak (r : SourceRing) (h : Host) : h.NoLeakSince (r.nextEntry h).2 := by
  unfold nextEntry
  simp only
  split
  · exact Host.noLeakSince_of_same rfl
  split
  · exact Host.noLeakSince_of_same rfl
  split
  · exact Host.noLeakSince_of_same rfl
  · exact Host.noLeakSince_record rfl rfl

theorem register_noLeak (reg : Registration) (rbm : Nat) (h : Host) :
    h.NoLeakSince (register reg rbm h).2 :=
  Host.noLeakSince_record rfl rfl

end SourceRing

theorem DmaBuffer.sync_noLeak (b : DmaBuffer) (h : Host) : h.NoLeakSince (b.sync h).2 := by
  unfold sync
  split
  · exact Host.noLeakSince_of_same rfl
  · exact Host.noLeakSince_record rfl rfl

namespace World.Keeps

variable {w : World}

theorem perm (h : w.Keeps base capacity live) (hp : live.Perm live') :
    w.Keeps base capacity live' :=
  { h with toOwns := h.toOwns.perm hp }

theorem setSlab (h : w.Keeps base capacity live) {slab : Slab} (hs : slab.Owns live')
    (hr : slab.range = w.rest.slab.range) : Keeps base capacity (w.setSlab slab) live' := by
  obtain ⟨hbase, hstop⟩ := Prod.mk.inj hr
  have hb := h.base_eq
  have hc := h.capacity_eq
  refine ⟨hs, hbase.trans hb, ?_, h.unleaked⟩
  change slab.capacity = capacity
  omega

theorem setHost (h : w.Keeps base capacity live) {host : Host} (hn : w.host.NoLeakSince host) :
    Keeps base capacity { w with host } live := by
  refine ⟨h.toOwns, h.base_eq, h.capacity_eq, ?_⟩
  intro event hm
  rcases hn event hm with hold | hnew
  · exact h.unleaked event hold
  · exact hnew

theorem setMemory (h : w.Keeps base capacity live) (memory : HostMemory) :
    Keeps base capacity (w.setMemory memory) live :=
  h.setHost (Host.noLeakSince_of_same rfl)

theorem record (h : w.Keeps base capacity live) {event : LogEvent}
    (he : event.reportsLeak = false) : Keeps base capacity (w.record event) live :=
  h.setHost (Host.noLeakSince_record he rfl)

end World.Keeps

namespace Scene

def elsewhere (s : Scene) : List Allocation :=
  s.world.rest.delivered.toList.map DmaBuffer.allocation ++ s.others

def Keeps (base capacity : Nat) (s : Scene) (live : List Allocation) : Prop :=
  s.world.Keeps base capacity (live ++ s.elsewhere)

variable {s s' : Scene}

theorem Keeps.perm (h : s.Keeps base capacity live) (hp : live.Perm live') :
    s.Keeps base capacity live' :=
  World.Keeps.perm h (hp.append_right _)

theorem Keeps.pool (h : s.Keeps base capacity live) (move : PoolMove) :
    (s.act (.pool move)).Keeps base capacity live := by
  have hothers : s.world.rest.slab.Owns
      (s.others ++ (live ++ s.world.rest.delivered.toList.map DmaBuffer.allocation)) := by
    refine h.toOwns.perm ?_
    rw [elsewhere, ← List.append_assoc]
    exact List.perm_append_comm
  obtain ⟨slab, hmoved, howns, hrange⟩ := move.apply_eq hothers
  have hkept := World.Keeps.setSlab h howns hrange
  rw [← hmoved] at hkept
  refine World.Keeps.perm hkept ?_
  refine List.perm_append_comm.trans ?_
  have hdelivered : (move.apply (s.world, s.others)).1.rest.delivered =
      s.world.rest.delivered := by rw [hmoved]; rfl
  rw [List.append_assoc, ← hdelivered]
  exact List.Perm.refl _

theorem takeFrame_eq_some {w w' : World} {idx : Nat} {b : DmaBuffer}
    (h : w.takeFrame idx = some (b, w')) :
    w'.host = w.host ∧ w'.rest.slab = w.rest.slab ∧
      w.rest.delivered.toList.Perm (b :: w'.rest.delivered.toList) := by
  unfold World.takeFrame at h
  split at h
  · cases h
  · rename_i hb
    cases h
    refine ⟨rfl, rfl, ?_⟩
    rw [Array.toList_eraseIdxIfInBounds]
    exact perm_eraseIdx (by rw [Array.getElem?_toList]; exact hb)

theorem Keeps.letGo (h : s.Keeps base capacity live) {idx : Nat} {b : DmaBuffer} {world : World}
    (ht : s.world.takeFrame idx = some (b, world)) :
    Keeps base capacity { s with world := World.release b world } live := by
  obtain ⟨hhost, hslab, hperm⟩ := takeFrame_eq_some ht
  have hheld : world.Keeps base capacity
      (b.allocation :: (live ++
        (world.rest.delivered.toList.map DmaBuffer.allocation ++ s.others))) := by
    have hkept := World.Keeps.perm h
      (((hperm.map DmaBuffer.allocation).append_right s.others).append_left live)
    rw [List.map_cons, List.cons_append] at hkept
    obtain ⟨howns, hbase, hcapacity, hunleaked⟩ := hkept.perm List.perm_middle
    exact ⟨hslab.symm ▸ howns, hslab.symm ▸ hbase, hslab.symm ▸ hcapacity,
      hhost.symm ▸ hunleaked⟩
  obtain ⟨slab, hreleased, howns, hrange⟩ := World.release_eq hheld.toOwns
  have hend := hheld.setSlab howns hrange
  rw [← hreleased] at hend
  have hdelivered : (World.release b world).rest.delivered = world.rest.delivered := by
    rw [hreleased]
    rfl
  rw [← hdelivered] at hend
  exact hend

/-- Whatever anybody does, nobody loses what he holds. -/
theorem Keeps.act (h : s.Keeps base capacity live) (act : Act) :
    (s.act act).Keeps base capacity live := by
  cases act with
  | pool move => exact h.pool move
  | drop idx =>
    simp only [Scene.act]
    cases ht : s.world.takeFrame idx with
    | none => exact h
    | some taken => exact h.letGo ht
  | intoBytes idx =>
    simp only [Scene.act]
    cases ht : s.world.takeFrame idx with
    | none => exact h
    | some taken => exact h.letGo ht
  | device fw move => exact World.Keeps.setMemory h _
  | store addr bytes => exact World.Keeps.setMemory h _
  | memory change => exact World.Keeps.setMemory h _
  | heap room => exact ⟨h.toOwns, h.base_eq, h.capacity_eq, h.unleaked⟩

theorem Keeps.acts (h : s.Keeps base capacity live) (todo : List Act) :
    (s.acts todo).Keeps base capacity live := by
  induction todo generalizing s with
  | nil => exact h
  | cons act todo ih => exact ih (h.act act)

theorem Keeps.turn (h : s.Keeps base capacity live) : s.turn.Keeps base capacity live := by
  unfold Scene.turn
  split
  · exact h
  · rename_i todo agenda _
    exact Keeps.acts (s := { s with agenda }) h todo

theorem start_keeps {window : Window} {slotSize len : Nat} {w : World}
    (hw : World.create window slotSize base len = .ok w)
    (hl : base + len / slotSize * slotSize ≤ addressLimit) :
    (start w).Keeps base (len / slotSize * slotSize) [] := by
  unfold World.create at hw
  split at hw
  · cases hw
  · rename_i slab hslab
    cases hw
    obtain ⟨hbase, hcapacity, howns⟩ := Slab.owns_create hslab hl
    refine ⟨howns, hbase, hcapacity, ?_⟩
    intro event hm
    cases hm

variable {b : DmaBuffer}

theorem Keeps.setSlab (h : s.Keeps base capacity live) {slab : Slab}
    (hs : slab.Owns (live' ++ s.elsewhere)) (hr : slab.range = s.world.rest.slab.range) :
    Keeps base capacity { s with world := s.world.setSlab slab } live' :=
  World.Keeps.setSlab h hs hr

theorem Keeps.acquire (h : s.Keeps base capacity live) {size : Nat}
    (ha : s.call (World.acquire size) = (.ok b, s')) :
    s'.Keeps base capacity (b.allocation :: live) := by
  simp only [call] at ha
  rcases hw : World.acquire size s.turn.world with ⟨e | b', world⟩
  · simp only [hw] at ha
    cases ha
  · simp only [hw] at ha
    cases ha
    obtain ⟨slab, rfl, howns, hrange, -⟩ := World.acquire_eq_ok h.turn.toOwns hw
    exact h.turn.setSlab howns hrange

theorem Keeps.acquire_error (h : s.Keeps base capacity live) {size : Nat} {e : AllocError}
    (ha : s.call (World.acquire size) = (.error e, s')) : s'.Keeps base capacity live := by
  simp only [call] at ha
  rcases hw : World.acquire size s.turn.world with ⟨e | b', world⟩
  · simp only [hw] at ha
    cases ha
    obtain ⟨rfl, -⟩ := World.acquire_eq_error h.turn.toSound hw
    exact h.turn
  · simp only [hw] at ha
    cases ha

theorem Keeps.release (h : s.Keeps base capacity (b.allocation :: live)) :
    Keeps base capacity ((platform rbm).pool.release b s) live := by
  obtain ⟨slab, hreleased, howns, hrange⟩ := World.release_eq h.turn.toOwns
  have hend := h.turn.setSlab howns hrange
  rw [← hreleased] at hend
  exact hend

theorem Keeps.sync (h : s.Keeps base capacity (b.allocation :: live)) {b' : DmaBuffer}
    (hs : s.call (World.sync b) = (b', s')) :
    s'.Keeps base capacity (b'.allocation :: live) := by
  have hturn := World.Keeps.setHost h.turn (b.sync_noLeak s.turn.world.host)
  rw [← b.sync_allocation s.turn.world.host] at hturn
  cases hs
  exact hturn

theorem Keeps.deliver (h : s.Keeps base capacity (b.allocation :: live)) (rbm : Nat) :
    Keeps base capacity ((platform rbm).deliver b s) live := by
  have hmoved : (b.allocation :: live ++ s.turn.elsewhere).Perm
      (live ++ b.allocation :: s.turn.elsewhere) := List.perm_middle.symm
  have hturn := World.Keeps.perm h.turn hmoved
  change World.Keeps base capacity (World.deliver b s.turn.world)
    (live ++
      ((s.turn.world.rest.delivered.push b).toList.map DmaBuffer.allocation ++ s.turn.others))
  refine World.Keeps.perm ⟨hturn.toOwns, hturn.base_eq, hturn.capacity_eq, hturn.unleaked⟩ ?_
  rw [Array.toList_push, List.map_append, elsewhere, List.append_assoc]
  exact List.perm_middle.symm.append_left live

theorem Keeps.alloc (h : s.Keeps base capacity live) {len : Nat}
    (ha : s.call (World.alloc len) = (.ok a, s')) : s'.Keeps base capacity (a :: live) := by
  simp only [call] at ha
  rcases hw : World.alloc len s.turn.world with ⟨e | a', world⟩
  · simp only [hw] at ha
    cases ha
  · simp only [hw] at ha
    cases ha
    obtain ⟨slab, rfl, howns, hrange, -⟩ := World.alloc_eq_ok h.turn.toOwns hw
    exact h.turn.setSlab howns hrange

theorem Keeps.alloc_error (h : s.Keeps base capacity live) {len : Nat} {e : AllocError}
    (ha : s.call (World.alloc len) = (.error e, s')) : s'.Keeps base capacity live := by
  simp only [call] at ha
  rcases hw : World.alloc len s.turn.world with ⟨e | a', world⟩
  · simp only [hw] at ha
    cases ha
    obtain rfl := World.alloc_eq_error h.turn.toOwns hw
    exact h.turn
  · simp only [hw] at ha
    cases ha

theorem Keeps.free (h : s.Keeps base capacity (a :: live)) :
    (freeRingMemory (platform rbm) a s).Keeps base capacity live := by
  obtain ⟨slab, hfreed, howns, hrange⟩ := World.dealloc_eq h.turn.toOwns
  have hcall : (platform rbm).memory.dealloc a s =
      (.ok (), { s.turn with world := s.turn.world.setSlab slab }) := by
    change s.call (World.dealloc a) = _
    simp only [call, hfreed]
  rw [freeRingMemory, hcall]
  exact h.turn.setSlab howns hrange

def Account (base capacity : Nat) (rest : List Allocation) (s : Scene) (mem : Option Allocation)
    (held : List DmaBuffer) : Prop :=
  s.Keeps base capacity (held.map DmaBuffer.allocation ++ (mem.toList ++ rest))

theorem platform_custody (rbm base capacity : Nat) (rest : List Allocation) :
    Custody (platform rbm) (Account base capacity rest) where
  buffers mem :=
    { perm := fun h hp => Keeps.perm h ((hp.map DmaBuffer.allocation).append_right _)
      acquire := fun h ha => Keeps.acquire h ha
      acquire_error := fun h ha => Keeps.acquire_error h ha
      release := fun h => Keeps.release h
      sync := fun h hs => Keeps.sync h hs
      narrow := fun h _ _ => h
      deliver := fun h => Keeps.deliver h rbm
      record := fun h he => World.Keeps.record h he }
  accessBegin h ha := by
    cases ha
    exact Keeps.turn h
  accessEnd {s mem held} h r :=
    World.Keeps.setHost (Keeps.turn h) (r.accessEnd_noLeak s.turn.world.host)
  nextEntry {r s res r' s' mem held} h hn := by
    cases hn
    exact World.Keeps.setHost (Keeps.turn h) (r.nextEntry_noLeak s.turn.world.host)
  nextFreeEntry h hn := by
    cases hn
    exact Keeps.turn h
  setEntry h hs := by
    cases hs
    exact World.Keeps.setMemory (Keeps.turn h) _
  alloc h ha := Keeps.perm (Keeps.alloc h ha) List.perm_middle.symm
  alloc_error h ha := Keeps.alloc_error h ha
  free h := Keeps.free (Keeps.perm h List.perm_middle)
  register {reg s result s' mem held} h hr := by
    cases hr
    exact World.Keeps.setHost (Keeps.turn h)
      (SourceRing.register_noLeak reg rbm s.turn.world.host)

end Scene

end FrameRing
