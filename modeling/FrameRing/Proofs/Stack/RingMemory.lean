import FrameRing.Proofs.Pool.Marks
import FrameRing.Proofs.Ring.Meter
import FrameRing.Proofs.SourceRing.Alike
import FrameRing.Proofs.Stack.Memory

/-! # Ring memory in the pool

A setup that fails leaves the marks of the pool as they were. One that succeeds takes the ring
memory and nothing else, and the ring gives it back once, when it is released. In between others may
do with the pool what they like, as long as they do not free the ring memory. -/

namespace FrameRing

namespace SourceRing

variable {m m' : HostMemory} {flags : RingFlags} {addr : Nat}

theorem storePointer_zero (h : storePointer flags m addr 0 = (.ok (), m')) :
    m'.window = (m.window.write addr (pointerBytes flags 0)).2 ∧
      m'.window.loadWord addr = .ok 0 := by
  rcases storePointer_cases flags m addr 0 with he | ⟨hc, he⟩
  · rw [h] at he
    cases he
  · rw [h] at he
    cases he
    refine ⟨rfl, ?_⟩
    have hshows : (m.window.write addr (pointerBytes flags 0)).2.Shows addr
        (pointerBytes flags 0) := Window.shows_write (by rwa [length_pointerBytes])
    rw [Window.loadWord_eq_ok_iff (by decide)]
    exact ⟨Window.covers_write.mpr hc, by rwa [pointerBytes_zero] at hshows ⊢⟩

theorem create_resets {reg : Registration} {rbm : Nat} {r : SourceRing}
    (h : create reg rbm m = (.ok r, m')) :
    m'.window.loadWord r.layout.headAddr = .ok 0 ∧
      m'.window.loadWord r.layout.tailAddr = .ok 0 := by
  unfold create at h
  split at h
  · cases h
  split at h
  · cases h
  rename_i layout hl
  have hwords : layout.tailAddr = layout.headAddr + 4 := RingLayout.tailAddr_of_ofBase hl
  split at h
  · cases h
  rename_i m₁ hhead
  split at h
  · cases h
  rename_i m₂ htail
  cases h
  obtain ⟨-, hzero⟩ := storePointer_zero hhead
  obtain ⟨hwindow, hzero'⟩ := storePointer_zero htail
  refine ⟨?_, hzero'⟩
  have hapart : layout.headAddr + 4 ≤ layout.tailAddr := Nat.le_of_eq hwords.symm
  rw [Window.loadWord, hwindow, Window.read_write_of_apart (.inl hapart)]
  exact hzero

end SourceRing

namespace World

variable {w w' : World} {a : Allocation} {rbm : Nat}

theorem freeRingMemory_slab (rbm : Nat) (a : Allocation) (w : World) :
    (freeRingMemory (platform rbm) a w).rest.slab = (w.rest.slab.dealloc a).2 := by
  have hdealloc : ((platform rbm).memory.dealloc a w).2.rest.slab = (w.rest.slab.dealloc a).2 := rfl
  rw [freeRingMemory]
  rcases hd : (platform rbm).memory.dealloc a w with ⟨_ | _, w'⟩
  all_goals
    rw [hd] at hdealloc
    exact hdealloc

theorem alloc_slab {len : Nat} {result : Except AllocError Allocation}
    (h : World.alloc len w = (result, w')) : w.rest.slab.alloc len = (result, w'.rest.slab) := by
  cases h
  rfl

theorem register_rest {reg : Registration} {result : Except SourceRingError SourceRing}
    (h : SourceRing.registrar rbm reg w = (result, w')) : w'.rest = w.rest := by
  cases h
  rfl

end World

structure Slab.Secures (s : Slab) (mem : Option Allocation) (held : List DmaBuffer) : Prop
    extends s.Sound where
  marked : ∀ a ∈ mem, s.Marked a
  apart : ∀ a ∈ mem, ∀ b ∈ held, ¬ Slab.Overlaps a b.allocation

namespace Slab.Secures

variable {s s' : Slab} {mem : Option Allocation} {held held' : List DmaBuffer} {b : DmaBuffer}

theorem perm (h : s.Secures mem held) (hp : held.Perm held') : s.Secures mem held' :=
  { h with apart := fun a ha b hb => h.apart a ha b (hp.mem_iff.mpr hb) }

theorem acquire (h : s.Secures mem held) {size : Nat}
    (ha : s.alloc size = (.ok b.allocation, s')) : s'.Secures mem (b :: held) := by
  refine ⟨(h.toSound.alloc ha).1, ?_, ?_⟩
  · intro a hm
    exact ((h.marked a hm).alloc h.toSound ha).1
  · intro a hm c hc
    rcases List.mem_cons.mp hc with rfl | hc
    · exact ((h.marked a hm).alloc h.toSound ha).2
    · exact h.apart a hm c hc

theorem release (h : s.Secures mem (b :: held)) :
    (s.dealloc b.allocation).2.Secures mem held := by
  refine ⟨h.toSound.dealloc b.allocation, ?_, ?_⟩
  · intro a hm
    exact (h.marked a hm).dealloc h.toSound (h.apart a hm b List.mem_cons_self)
  · intro a hm c hc
    exact h.apart a hm c (List.mem_cons_of_mem b hc)

theorem forget (h : s.Secures mem (b :: held)) : s.Secures mem held :=
  { h with apart := fun a hm c hc => h.apart a hm c (List.mem_cons_of_mem b hc) }

theorem view {b' : DmaBuffer} (h : s.Secures mem (b :: held))
    (hb : b'.allocation = b.allocation) : s.Secures mem (b' :: held) := by
  refine { h with apart := ?_ }
  intro a hm c hc
  rcases List.mem_cons.mp hc with rfl | hc
  · rw [hb]
    exact h.apart a hm b List.mem_cons_self
  · exact h.apart a hm c (List.mem_cons_of_mem b hc)

end Slab.Secures

namespace World

theorem acquire_slab {size : Nat} {b : DmaBuffer} (h : World.acquire size w = (.ok b, w')) :
    w.rest.slab.alloc size = (.ok b.allocation, w'.rest.slab) := by
  unfold World.acquire DmaBuffer.acquire at h
  rcases hs : w.rest.slab.alloc size with ⟨e | a, slab⟩ <;> rw [hs] at h <;> cases h
  rfl

theorem release_slab (b : DmaBuffer) (w : World) :
    (World.release b w).rest.slab = (w.rest.slab.dealloc b.allocation).2 := by
  simp only [World.release, DmaBuffer.discard]
  rcases w.rest.slab.dealloc b.allocation with ⟨_ | _, slab⟩ <;> rfl

end World

namespace Ring

variable {w w' : World} {params : RingParams} {rbm : Nat}

/-- A setup that fails gives back the slots that it took. -/
theorem setup_failed_busy (hs : w.rest.slab.Sound) {e : RingError}
    (h : Ring.setup (World.platform rbm) params w = (.error e, w')) :
    w'.rest.slab.busy = w.rest.slab.busy := by
  cases unbuilt h with
  | invalid | crowded => rfl
  | unallocated alloc =>
    obtain ⟨hsame, -⟩ := hs.alloc_error (World.alloc_slab alloc)
    rw [hsame]
  | unaligned alloc =>
    rw [World.freeRingMemory_slab]
    exact hs.alloc_undo (World.alloc_slab alloc)
  | unregistered alloc register =>
    rw [World.freeRingMemory_slab, World.register_rest register]
    exact hs.alloc_undo (World.alloc_slab alloc)

end Ring

/-- The slots of the ring memory stay busy until it is given back, and no buffer takes them. -/
theorem World.secured_custody (rbm : Nat) :
    RingCustody (World.platform rbm) fun w mem held => w.rest.slab.Secures mem held where
  buffers mem :=
    { perm := Slab.Secures.perm
      acquire := fun h ha => h.acquire (World.acquire_slab ha)
      acquire_error := fun h ha => (World.acquire_eq_error h.toSound ha).1 ▸ h
      release := fun {w b held} h => by
        have hslab : (World.release b w).rest.slab = _ := World.release_slab b w
        change (World.release b w).rest.slab.Secures mem held
        rw [hslab]
        exact h.release
      sync := fun h hs => by
        cases hs
        exact h.view (DmaBuffer.sync_allocation _ _)
      narrow := fun h _ _ => h.view rfl
      deliver := Slab.Secures.forget
      record := fun h _ => h }
  accessBegin h ha := by
    cases ha
    exact h
  accessEnd h _ := h
  nextEntry h hn := by
    cases hn
    exact h
  nextFreeEntry h hn := by
    cases hn
    exact h
  setEntry h hs := by
    cases hs
    exact h
  free {w a held} h := by
    rw [World.freeRingMemory_slab]
    exact ⟨h.toSound.dealloc a, by simp, by simp⟩

theorem World.metered_custody (rbm : Nat) :
    RingCustody (World.platform rbm).metered fun m mem held =>
      (∀ f ∈ m.frees, f.2 = .ok ()) ∧ m.world.rest.slab.Secures mem held := by
  have K := World.secured_custody rbm
  constructor
  case buffers =>
    intro mem
    have B := K.buffers mem
    constructor
    case perm => exact fun h hp => ⟨h.1, B.perm h.2 hp⟩
    case acquire =>
      intro m size b m' held h ha
      obtain ⟨hworld, hfrees⟩ := metered_acquire ha
      exact ⟨hfrees ▸ h.1, B.acquire h.2 hworld⟩
    case acquire_error =>
      intro m size e m' held h ha
      obtain ⟨hworld, hfrees⟩ := metered_acquire ha
      exact ⟨hfrees ▸ h.1, B.acquire_error h.2 hworld⟩
    case release => exact fun h => ⟨h.1, B.release h.2⟩
    case sync =>
      intro m b b' m' held h hs
      cases hs
      exact ⟨h.1, B.sync h.2 rfl⟩
    case narrow => exact fun h front back => ⟨h.1, B.narrow h.2 front back⟩
    case deliver => exact fun h => ⟨h.1, B.deliver h.2⟩
    case record => exact fun h he => ⟨h.1, B.record h.2 he⟩
  case accessBegin =>
    intro r m result r' m' mem held h ha
    cases ha
    exact h
  case accessEnd => exact fun h _ => h
  case nextEntry =>
    intro r m entry r' m' mem held h hn
    cases hn
    exact h
  case nextFreeEntry =>
    intro r m entry r' m' mem held h hn
    cases hn
    exact h
  case setEntry =>
    intro entry busAddr cookie r m result r' m' mem held h hs
    cases hs
    exact h
  case free =>
    intro m a held h
    have hanswer : ((World.platform rbm).memory.dealloc a m.world).1 = .ok () :=
      (h.2.marked a rfl).freed h.2.toSound
    rw [freeRingMemory_frees, freeRingMemory_world]
    refine ⟨?_, K.free h.2⟩
    intro f hf
    rcases List.mem_append.mp hf with hf | hf
    · exact h.1 f hf
    · rw [List.mem_singleton.mp hf]
      exact hanswer

/-- While the ring is not released, others use the pool through its calls, and the slots of `a` are
busy when they have done so. -/
def Move.Spares (a : Allocation) (s : Ring SourceRing DmaBuffer × World) : Move World → Prop
  | .operate _ => True
  | .disturb change =>
    s.1.state ≠ .released →
      (∃ calls, (change s.2).rest.slab = ((Slab.Tenancy.start s.2.rest.slab).run calls).slab) ∧
        (change s.2).rest.slab.Marked a

namespace Ring

def SparedRun (rbm : Nat) (a : Allocation) (s : Ring SourceRing DmaBuffer × World) :
    List (Move World) → Prop
  | [] => True
  | move :: moves => move.Spares a s ∧ SparedRun rbm a (move.apply (World.platform rbm) s) moves

structure Holds (a : Allocation) (ring : Ring SourceRing DmaBuffer) (m : Metered World) : Prop
    extends ring.Settled a m where
  taken : ∀ f ∈ m.frees, f.2 = .ok ()
  secured : ring.state ≠ .released →
    m.world.rest.slab.Secures ring.ringMem ring.table.buffers

variable {ring : Ring SourceRing DmaBuffer} {m : Metered World} {a : Allocation} {rbm : Nat}

theorem Holds.perform (h : ring.Holds a m) (op : Operation) :
    (ring.perform (World.platform rbm).metered m op).1.Holds a
      (ring.perform (World.platform rbm).metered m op).2 := by
  have hsettled := h.toSettled.perform (p := World.platform rbm) op
  by_cases hs : ring.state = .released
  · obtain ⟨hring, hfrees⟩ := perform_released (p := World.platform rbm) hs m op
    refine ⟨hsettled, hfrees ▸ h.taken, fun hne => absurd ?_ hne⟩
    rw [hring]
    exact hs
  · have hnext := InCustody.perform (World.metered_custody rbm)
      ⟨⟨h.taken, h.secured hs⟩, h.custody.emptied⟩ op
    replace hnext := hnext.account
    exact ⟨hsettled, hnext.1, fun _ => hnext.2⟩

theorem Holds.disturb (h : ring.Holds a m) {change : World → World}
    (hc : Move.Spares a (ring, m.world) (.disturb change)) :
    ring.Holds a (m.setWorld (change m.world)) := by
  refine ⟨⟨h.holdsMemory, h.custody.account, h.custody.emptied⟩, h.taken, ?_⟩
  intro hs
  obtain ⟨⟨calls, hslab⟩, hmarked⟩ := hc hs
  have hsecured := h.secured hs
  have hmem := (h.holdsMemory hs).1
  refine ⟨?_, ?_, hsecured.apart⟩
  · have hsound := (Slab.Tenancy.run_sound
      (t := .start m.world.rest.slab) hsecured.toSound calls).1
    rwa [← hslab] at hsound
  · intro b hb
    rw [hmem] at hb
    cases hb
    exact hmarked

theorem run_holds (h : ring.Holds a m) {moves : List (Move World)}
    (hm : SparedRun rbm a (ring, m.world) moves) :
    let out := Ring.run (World.platform rbm).metered (ring, m) (moves.map Move.metered)
    out.1.Holds a out.2 := by
  induction moves generalizing ring m with
  | nil => exact h
  | cons move moves ih =>
    obtain ⟨hfirst, hrest⟩ := hm
    cases move with
    | operate op =>
      refine ih (h.perform op) ?_
      have hstep := perform_metered (p := World.platform rbm) ring m op
      rw [Move.apply, hstep] at hrest
      exact hrest
    | disturb change => exact ih (h.disturb hfirst) hrest

theorem Holds.frees (h : ring.Holds a m) :
    m.frees = if ring.state = .released then [(a, .ok ())] else [] := by
  have hfreed := h.freed
  have hok : m.frees = m.freed.map fun a => (a, .ok ()) := by
    rw [Metered.freed, List.map_map]
    refine (List.map_id m.frees).symm.trans (List.map_congr_left ?_)
    intro f hf
    exact Prod.ext rfl (h.taken f hf)
  rw [hok, hfreed]
  by_cases hs : ring.state = .released
  · rw [if_pos hs, if_pos hs]
    rfl
  · rw [if_neg hs, if_neg hs]
    rfl

theorem setup_holds {params : RingParams} {w w' : World} (hs : w.rest.slab.Sound)
    (h : Ring.setup (World.platform rbm) params w = (.ok ring, w')) :
    ∃ a r, ring.Holds a (.fresh w') ∧
      w.rest.slab.Took w'.rest.slab a
        (RingLayout.querySize params.capacity params.entrySize) ∧
      a.addr % RingLayout.baseAlign = 0 ∧
      RingLayout.ofBase a.addr params.capacity params.entrySize = .ok r.layout ∧
      ring.ringMem = some a ∧ ring.hw = some r ∧
      w'.window.loadWord r.layout.headAddr = .ok 0 ∧
      w'.window.loadWord r.layout.tailAddr = .ok 0 := by
  obtain ⟨a, hmem, hsettled⟩ := setup_settled h
  obtain ⟨-, -, a', w₁, r, w₂, alloc, aligned, register, rfl, rfl⟩ := setup_eq_ok h
  obtain rfl : a' = a := Option.some.inj hmem
  obtain ⟨hsound, hmarked, htook, -⟩ := hs.alloc (World.alloc_slab alloc)
  have hrest := World.register_rest register
  have hanswer : (SourceRing.create (params.registration a'.addr) rbm w₁.host.memory).1 = .ok r :=
    congrArg Prod.fst register
  have hmemory : (SourceRing.create (params.registration a'.addr) rbm w₁.host.memory).2 =
      w₂.host.memory := congrArg (fun out => out.2.host.memory) register
  obtain ⟨hhead, htail⟩ := SourceRing.create_resets (Prod.ext hanswer hmemory)
  obtain ⟨-, hlayout, -⟩ := SourceRing.create_shape hanswer
  rw [← hrest] at hsound hmarked htook
  refine ⟨a', r, ⟨hsettled, by simp [Metered.fresh], fun _ => ⟨hsound, ?_, ?_⟩⟩, htook, aligned,
    hlayout, rfl, rfl, hhead, htail⟩
  · intro b hb
    cases hb
    exact hmarked
  · simp

/-- A setup that fails leaves the same slots busy as before, and one that finds no room for the slot
table leaves everything as it was. One that succeeds takes free slots for the ring memory and no
others, and the ring is ready, empty and says so in memory. That allocation goes back in the first
call that ends the ring's life and never again, whatever else happens, and it is taken back as long
as nobody else has freed it. -/
theorem setup_all_or_nothing {slotSize base len : Nat} {slab : Slab}
    (hc : Slab.create slotSize base len = .ok slab)
    (hl : base + len / slotSize * slotSize < addressLimit) (calls : List Slab.Call)
    (host : Host) (delivered : Array DmaBuffer) (room rbm : Nat) (params : RingParams) :
    let before := ((Slab.Tenancy.start slab).run calls).slab
    let w₀ : World := ⟨host, before, delivered, room⟩
    let size := RingLayout.querySize params.capacity params.entrySize
    let p := World.platform rbm
    (∀ e w, Ring.setup p params w₀ = (.error e, w) → w.rest.slab.busy = before.busy) ∧
    ((Ring.setup p params w₀).1 = .error .outOfMemory ↔
      params.validate = .ok () ∧ room < params.capacity) ∧
    ((Ring.setup p params w₀).1 = .error .outOfMemory → (Ring.setup p params w₀).2 = w₀) ∧
    ∀ ring w, Ring.setup p params w₀ = (.ok ring, w) →
      ∃ a r,
        (before.Took w.rest.slab a size ∧ a.addr % 32 = 0 ∧ size ≤ a.len ∧
          a.len < size + slotSize) ∧
        (RingLayout.ofBase a.addr params.capacity params.entrySize = .ok r.layout ∧
          w.window.loadWord r.layout.headAddr = .ok 0 ∧
          w.window.loadWord r.layout.tailAddr = .ok 0) ∧
        (ring.ringMem = some a ∧ ring.hw = some r ∧ ring.state = .ready ∧
          ∀ idx, ring.slot? idx = if idx < params.capacity then some (.empty idx) else none) ∧
        ∀ moves : List (Move World),
          let out := Ring.run p.metered (ring, .fresh w) (moves.map Move.metered)
          Ring.run p (ring, w) moves = (out.1, out.2.world) ∧
          (out.2.freed = if out.1.state = .released then [a] else []) ∧
          (∀ op, (out.1.perform p out.2.world op).1.state = .released ↔
            out.1.state = .released ∨ out.1.Ends p out.2.world op) ∧
          (SparedRun rbm a (ring, w) moves →
            out.2.frees = if out.1.state = .released then [(a, .ok ())] else []) := by
  intro before w₀ size p
  obtain ⟨-, -, howns⟩ := Slab.owns_create hc (Nat.le_of_lt hl)
  obtain ⟨hsound, hslot⟩ := Slab.Tenancy.run_sound (t := .start slab) howns.toSound calls
  have hsize : before.slotSize = slotSize :=
    hslot.trans (Slab.Tenancy.kept_start hc (Nat.le_of_lt hl)).slotSize_eq
  have hcrowded : (Ring.setup p params w₀).1 = .error .outOfMemory ↔
      params.validate = .ok () ∧ room < params.capacity := by
    rw [setup_outOfMemory_iff]
    exact and_congr_right fun _ => decide_eq_false_iff_not.trans Nat.not_le
  refine ⟨fun e w h => setup_failed_busy (w := w₀) hsound h, hcrowded, setup_outOfMemory, ?_⟩
  intro ring w h
  obtain ⟨a, r, hholds, htook, haligned, hlayout, hmem, hhw, hhead, htail⟩ :=
    setup_holds (w := w₀) hsound h
  have hready : ring.state = .ready ∧ ring.table = .withCapacity params.capacity := by
    obtain ⟨-, -, a', w₁, r', w₂, -, -, -, -, rfl⟩ := setup_eq_ok h
    exact ⟨rfl, rfl⟩
  refine ⟨a, r, ⟨htook, haligned, hsize ▸ htook.length hsound.slot_pos⟩,
    ⟨hlayout, hhead, htail⟩, ⟨hmem, hhw, hready.1, ?_⟩, ?_⟩
  · intro idx
    rw [slot?, hready.2]
    exact SlotTable.slot?_withCapacity params.capacity idx
  · intro moves out
    have hsettled : out.1.Settled a out.2 := run_settled hholds.toSettled moves
    refine ⟨run_metered ring (.fresh w) moves, hsettled.freed, ?_, ?_⟩
    · intro op
      exact (hsettled.holdsMemory.perform out.2.world op).2
    · intro hspared
      exact (run_holds hholds hspared).frees

/-- A table of three slots finds no room. With room for it, the pool runs dry under the attach, and
two releases follow. -/
theorem setup_all_or_nothing_dry :
    let slab : Slab := ⟨32, 32, Array.replicate 5 false, none⟩
    let before := ((Slab.Tenancy.start slab).run [.alloc 1]).slab
    let crowded : World := ⟨.ofWindow (.zeroed 0 256), before, #[], 2⟩
    let moves : List (Move World) :=
      [.disturb fun w => (World.alloc 10 w).2, .operate .attach, .operate .release,
        .operate .release]
    Ring.setup (World.platform 3) (.ofSizes 3 8 40) crowded = (.error .outOfMemory, crowded) ∧
    ∃ ring w, Ring.setup (World.platform 3) (.ofSizes 3 8 40)
        ⟨.ofWindow (.zeroed 0 256), before, #[], 8⟩ = (.ok ring, w) ∧
      (Ring.run (World.platform 3).metered (ring, .fresh w) (moves.map Move.metered)).2.frees =
        [(⟨64, 32⟩, .ok ())] := by
  intro slab before crowded moves
  have hc : Slab.create 32 32 160 = .ok slab := rfl
  have hup : ∃ ring w, Ring.setup (World.platform 3) (.ofSizes 3 8 40)
        ⟨.ofWindow (.zeroed 0 256), before, #[], 8⟩ = (.ok ring, w) ∧
      ring.ringMem = some ⟨64, 32⟩ ∧
      w.rest.slab = ⟨32, 32, #[true, true, false, false, false], none⟩ ∧
      (Ring.run (World.platform 3).metered (ring, .fresh w)
        (moves.map Move.metered)).1.state = .released := by
    decide +kernel
  obtain ⟨ring, w, hs, hmem, hslab, hreleased⟩ := hup
  obtain ⟨-, hcrowded, hkept, -⟩ := setup_all_or_nothing hc (by decide) [.alloc 1]
    (.ofWindow (.zeroed 0 256)) #[] 2 3 (.ofSizes 3 8 40)
  obtain ⟨-, -, -, hok⟩ := setup_all_or_nothing hc (by decide) [.alloc 1]
    (.ofWindow (.zeroed 0 256)) #[] 8 3 (.ofSizes 3 8 40)
  obtain ⟨a, r, -, -, ⟨ha, -⟩, hrun⟩ := hok ring w hs
  obtain rfl : ⟨64, 32⟩ = a := Option.some.inj (hmem.symm.trans ha)
  obtain ⟨-, -, -, hfrees⟩ := hrun moves
  have hfull := hcrowded.mpr ⟨rfl, by decide⟩
  refine ⟨Prod.ext hfull (hkept hfull), ring, w, hs, ?_⟩
  rw [hfrees ⟨?_, trivial, trivial, trivial, trivial⟩, if_pos hreleased]
  intro _
  have hafter : (World.alloc 10 w).2.rest.slab = (w.rest.slab.alloc 10).2 := rfl
  refine ⟨⟨[.alloc 10], ?_⟩, 1, 1, ?_⟩
  · change (World.alloc 10 w).2.rest.slab = _
    rw [hafter, hslab]
    decide
  · change (World.alloc 10 w).2.rest.slab.Spans _ 1 1 ∧
      Slab.RunAt (World.alloc 10 w).2.rest.slab.busy true 1 1
    rw [hafter, hslab]
    exact ⟨⟨by decide, by decide, by decide, by decide⟩, by decide⟩

end Ring

end FrameRing
