import FrameRing.Proofs.Driven.Lockstep
import FrameRing.Proofs.SourceRing.DeviceMoves
import FrameRing.Proofs.Stack.Memory

/-! # What goes on around a ring

A ring shares its memory with a device, its pool with other users and its frames with a consumer.
All of them go on while the ring works: before each call that the ring makes, any number of them
may act. -/

namespace FrameRing

inductive Act where
  | pool (move : PoolMove)
  | drop (idx : Nat)
  | intoBytes (idx : Nat)
  | device (fw : Firmware) (move : DeviceMove)
  | store (addr : Nat) (bytes : List UInt8)
  | memory (change : HostMemory → HostMemory)
  | heap (room : Nat)

def World.takeFrame (w : World) (idx : Nat) : Option (DmaBuffer × World) :=
  match w.rest.delivered[idx]? with
  | none => none
  | some b =>
    let delivered := w.rest.delivered.eraseIdxIfInBounds idx
    some (b, { w with rest := { w.rest with delivered } })

structure Scene where
  world : World
  others : List Allocation
  /-- What is going to happen, one group of acts before each call of the ring. -/
  agenda : List (List Act)

namespace Scene

def start (world : World) : Scene := ⟨world, [], []⟩

def act (s : Scene) : Act → Scene
  | .pool move =>
    let (world, others) := move.apply (s.world, s.others)
    { s with world, others }
  | .drop idx =>
    match s.world.takeFrame idx with
    | none => s
    | some (b, world) => { s with world := World.release b world }
  | .intoBytes idx =>
    match s.world.takeFrame idx with
    | none => s
    | some (b, world) => { s with world := (World.intoBytes b world).2 }
  | .device fw move => { s with world := s.world.setWindow (fw.move s.world.window move) }
  | .store addr bytes =>
    { s with world := s.world.setWindow (s.world.window.write addr bytes).2 }
  | .memory change => { s with world := s.world.setMemory (change s.world.host.memory) }
  | .heap room => { s with world := s.world.setTableRoom room }

def acts (s : Scene) (todo : List Act) : Scene := todo.foldl act s

def turn (s : Scene) : Scene :=
  match s.agenda with
  | [] => s
  | todo :: agenda => { s with agenda }.acts todo

def expect (s : Scene) (agenda : List (List Act)) : Scene := { s with agenda }

/-- A call to the world, after whatever happens before it. -/
def call {α : Type} (s : Scene) (f : World → α × World) : α × Scene :=
  let s := s.turn
  let (answer, world) := f s.world
  (answer, { s with world })

/-- The platform over shared memory, with all that goes on around the ring. -/
def platform (rbm : Nat) : Platform Scene SourceRing Reservation DmaBuffer where
  hardware :=
    { accessBegin := fun r s =>
        let s := s.turn
        let (result, r, world) := SourceRing.hardware.accessBegin r s.world
        (result, r, { s with world })
      accessEnd := fun r s => s.call (SourceRing.hardware.accessEnd r)
      availableCount := fun r s => SourceRing.hardware.availableCount r s.world
      nextEntry := fun r s =>
        let s := s.turn
        let (res, r, world) := SourceRing.hardware.nextEntry r s.world
        (res, r, { s with world })
      nextFreeEntry := fun r s =>
        let s := s.turn
        let (res, r, world) := SourceRing.hardware.nextFreeEntry r s.world
        (res, r, { s with world })
      setEntry := fun res busAddr cookie r s =>
        let s := s.turn
        let (result, r, world) := SourceRing.hardware.setEntry res busAddr cookie r s.world
        (result, r, { s with world })
      cookieOf := fun res r s => SourceRing.hardware.cookieOf res r s.world }
  pool :=
    { acquire := fun size s => s.call (World.acquire size)
      release := fun b s => (s.call fun w => ((), World.release b w)).2
      syncForCpu := fun b s => s.call (World.sync b) }
  memory :=
    { alloc := fun len s => s.call (World.alloc len)
      dealloc := fun a s => s.call (World.dealloc a) }
  hasTableRoom capacity s := decide (capacity ≤ s.world.rest.tableRoom)
  register reg s := s.call (SourceRing.registrar rbm reg)
  deliver b s := (s.call fun w => ((), World.deliver b w)).2
  record event s := { s with world := s.world.record event }

theorem register_eq_ok {rbm : Nat} {reg : Registration} {r : SourceRing} {s s' : Scene}
    (h : s.call (SourceRing.registrar rbm reg) = (.ok r, s')) :
    SourceRing.create reg rbm s.turn.world.host.memory = (.ok r, s'.world.host.memory) := by
  have hanswer : (SourceRing.create reg rbm s.turn.world.host.memory).1 = .ok r :=
    congrArg Prod.fst h
  obtain rfl : (s.call (SourceRing.registrar rbm reg)).2 = s' := congrArg Prod.snd h
  exact Prod.ext hanswer rfl

end Scene

instance Scene.drivesSourceRing (rbm : Nat) : DrivesSourceRing (Scene.platform rbm) where
  accessBegin _ s := ⟨s.turn.world.host.memory, rfl, rfl⟩
  accessEnd r s := SourceRing.accessEnd_ring r s.turn.world.host
  nextEntry _ s := ⟨s.turn.world.host, rfl, rfl⟩
  nextFreeEntry _ _ := ⟨rfl, rfl⟩
  setEntry _ _ _ _ s := ⟨s.turn.world.host.memory, rfl, rfl⟩
  register _ s := ⟨rbm, s.turn.world.host.memory, rfl⟩

end FrameRing
