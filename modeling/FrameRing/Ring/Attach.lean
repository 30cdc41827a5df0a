import FrameRing.Ring.Basic

/-! # Attaching a ring

Inside one access section all slots but one are armed, in order. If any of them cannot be, the
ring is released with everything it holds.
-/

namespace FrameRing

variable {ω η ε β : Type} [RxBuffer β]

namespace Section

def armNext (p : Platform ω η ε β) (size : Nat) (s : Section ω η β) :
    Except RingError Unit × Section ω η β :=
  let idx := s.cursor.writeIdx
  if s.table.isArmed idx then (.error (.doubleArm idx), s)
  else
    match p.pool.acquire size s.world with
    | (.error e, world) => (.error (.allocation e), { s with world })
    | (.ok buf, w) =>
      match p.hardware.nextFreeEntry s.hw w with
      | (none, hw, w) =>
        (.error (.hardware .ringFull), { s with hw, world := p.pool.release buf w })
      | (some entry, hw, world) => { s with hw, world }.place p entry buf

def armMany (p : Platform ω η ε β) (size : Nat) :
    Nat → Section ω η β → Except RingError Unit × Section ω η β
  | 0, s => (.ok (), s)
  | count + 1, s =>
    match s.armNext p size with
    | (.error e, s) => (.error e, s)
    | (.ok _, s) => armMany p size count s

def fill (p : Platform ω η ε β) (size count : Nat) (s : Section ω η β) :
    Except RingError Unit × Section ω η β :=
  match p.hardware.accessBegin s.hw s.world with
  | (.error e, hw, world) => (.error (.hardware e), { s with hw, world })
  | (.ok _, hw, world) =>
    let (result, s) := armMany p size count { s with hw, world }
    (result, s.close p)

end Section

namespace Ring

def attach (p : Platform ω η ε β) (ring : Ring η β) (w : ω) :
    Except RingError Unit × Ring η β × ω :=
  match ring.state, ring.hw with
  | .active, _ => (.error .alreadyAttached, ring, w)
  | .faulted, _ => (.error .faulted, ring, w)
  | .released, _ | .ready, none => (.error .released, ring, w)
  | .ready, some hw =>
    let (result, s) :=
      (ring.enter hw w).fill p ring.geometry.bufferSize (ring.table.capacity - 1)
    let ring := ring.leave s
    match result with
    | .ok _ =>
      (.ok (), { ring with state := .active }, p.record (.attached ring.inUseCount) s.world)
    | .error e =>
      let w := p.record (.attachFailed ring.cursor.writeIdx e) s.world
      (.error e, ring.releaseAll p w)

end Ring

end FrameRing
