import FrameRing.Ring.Basic

/-! # Reaping completions

A pass has two phases. Inside one access section it walks over the completed entries; each one is
armed again with a fresh buffer before the slot that it completed is retired. With the section
closed, the retired buffers are synced, checked and handed to their consumer, in the order of
completion.

A pool that runs dry ends the pass early and the rest stays queued. A completion that does not
belong to the next slot, or an entry that cannot be armed, makes the ring faulted; what was retired
before is still delivered.
-/

namespace FrameRing

variable {ω η ε β : Type}

structure Pass (ω η β : Type) extends Section ω η β where
  stats : RingStats
  retired : List β

inductive PassStep where
  | proceed
  | stop
  | fail (cause : RingError)
  deriving DecidableEq, Repr

namespace Pass

def retireOldest (cookie : Nat) (s : Pass ω η β) : PassStep × Pass ω η β :=
  match s.table.retire s.cursor.readIdx with
  | (none, _) => (.fail (.desync cookie s.cursor.readIdx), s)
  | (some buf, table) =>
    (.proceed,
      { s with
        table
        cursor := s.cursor.advanceRead
        stats := { s.stats with reaped := s.stats.reaped + 1 }
        retired := s.retired ++ [buf] })

variable [RxBuffer β]

/-- Arm a completed entry again and retire the slot that it completed. `remaining` counts the
completions that are left, this one included. -/
def recycle (p : Platform ω η ε β) (size remaining : Nat) (entry : ε) (s : Pass ω η β) :
    PassStep × Pass ω η β :=
  let cookie := p.hardware.cookieOf entry s.hw s.world
  if cookie ≠ s.cursor.readIdx ∨ s.table.isArmed s.cursor.readIdx = false then
    (.fail (.desync cookie s.cursor.readIdx), s)
  else if s.table.isArmed s.cursor.writeIdx then (.fail (.doubleArm s.cursor.writeIdx), s)
  else
    let ⟨⟨hw, table, cursor, w⟩, stats, retired⟩ := s
    match p.pool.acquire size w with
    | (.error e, w) =>
      let w := p.record (.poolExhausted e remaining) w
      (.stop,
        ⟨⟨hw, table, cursor, w⟩, { stats with backpressure := stats.backpressure + 1 }, retired⟩)
    | (.ok buf, w) =>
      match Section.place p entry buf ⟨hw, table, cursor, w⟩ with
      | (.error e, armed) => (.fail e, ⟨armed, stats, retired⟩)
      | (.ok _, armed) => Pass.retireOldest cookie ⟨armed, stats, retired⟩

/-- Deal with one reported completion. One without an entry behind it is counted and passed over. -/
def step (p : Platform ω η ε β) (size remaining : Nat) (s : Pass ω η β) :
    PassStep × Pass ω η β :=
  match p.hardware.nextEntry s.hw s.world with
  | (none, hw, w) =>
    (.proceed,
      { s with
        hw
        world := p.record .missingCompletion w
        stats := { s.stats with missingEntries := s.stats.missingEntries + 1 } })
  | (some entry, hw, world) => { s with hw, world }.recycle p size remaining entry

def drain (p : Platform ω η ε β) (size : Nat) :
    Nat → Pass ω η β → Except RingError Unit × Pass ω η β
  | 0, s => (.ok (), s)
  | remaining + 1, s =>
    match s.step p size (remaining + 1) with
    | (.proceed, s) => drain p size remaining s
    | (.stop, s) => (.ok (), s)
    | (.fail e, s) => (.error e, s)

end Pass

structure Delivery (ω : Type) where
  delivered : Nat
  dropped : Nat
  world : ω

namespace Delivery

variable [RxBuffer β]

/-- Hand one retired buffer to its consumer, or release it if it holds no frame. -/
def one (p : Platform ω η ε β) (d : Delivery ω) (buf : β) : Delivery ω :=
  let (buf, w) := p.pool.syncForCpu buf d.world
  match stripHeader buf with
  | (.ok len, frame) =>
    let w := p.record (.frameDelivered len (RxBuffer.busAddr frame)) w
    { d with delivered := d.delivered + 1, world := p.deliver frame w }
  | (.error e, buf) =>
    let w := p.record (.frameDropped (RxBuffer.busAddr buf) e) w
    { d with dropped := d.dropped + 1, world := p.pool.release buf w }

def all (p : Platform ω η ε β) (bufs : List β) (w : ω) : Delivery ω :=
  bufs.foldl (one p) ⟨0, 0, w⟩

end Delivery

namespace Ring

/-- The ring after the access section of a pass; a failed pass is reported and leaves the ring
faulted. -/
def conclude (p : Platform ω η ε β) (ring : Ring η β) (result : Except RingError Unit)
    (s : Pass ω η β) : Ring η β × ω :=
  let ring := { ring.leave s.toSection with stats := s.stats }
  match result with
  | .ok _ => (ring, s.world)
  | .error e =>
    ({ ring with state := .faulted }, p.record (.ringFaulted ring.cursor.readIdx e) s.world)

variable [RxBuffer β]

def deliver (p : Platform ω η ε β) (ring : Ring η β) (retired : List β) (w : ω) :
    Nat × Ring η β × ω :=
  let d := Delivery.all p retired w
  (d.delivered,
    { ring with
      stats :=
        { ring.stats with
          delivered := ring.stats.delivered + d.delivered
          droppedMalformed := ring.stats.droppedMalformed + d.dropped } },
    d.world)

def tryReap (p : Platform ω η ε β) (ring : Ring η β) (w : ω) :
    Except RingError Nat × Ring η β × ω :=
  match ring.state, ring.hw with
  | .ready, _ => (.error .notAttached, ring, w)
  | .faulted, _ => (.error .faulted, ring, w)
  | .released, _ | .active, none => (.error .released, ring, w)
  | .active, some hw =>
    match p.hardware.accessBegin hw w with
    | (.error e, hw, w) => (.error (.hardware e), { ring with hw := some hw }, w)
    | (.ok _, hw, w) =>
      let pass : Pass ω η β := ⟨ring.enter hw w, ring.stats, []⟩
      let (result, pass) :=
        pass.drain p ring.geometry.bufferSize (p.hardware.availableCount hw w)
      let pass := { pass with toSection := pass.toSection.close p }
      let (ring, w) := ring.conclude p result pass
      let (delivered, ring, w) := ring.deliver p pass.retired w
      (result.map fun _ => delivered, ring, w)

def reap (p : Platform ω η ε β) (ring : Ring η β) (w : ω) : Ring η β × ω :=
  match ring.tryReap p w with
  | (.ok _, ring, w) => (ring, w)
  | (.error e, ring, w) =>
    (ring, p.record (if e.isRefusal then .reapSkipped e else .reapFailed e) w)

end Ring

end FrameRing
