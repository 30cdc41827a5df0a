import FrameRing.Host
import FrameRing.SourceRing.Basic

/-! # Access sections of a source ring

Entries are reserved and armed inside a section. Arming moves the head by one and, for a completed
reservation, the reap head too; a refused reservation moves nothing.
-/

namespace FrameRing

namespace SourceRing

def register (reg : Registration) (rbm : Nat) (h : Host) :
    Except SourceRingError SourceRing × Host :=
  let h := h.record (.registering reg.ringBase reg.numEntries reg.entrySize)
  let (result, memory) := create reg rbm h.memory
  (result, { h with memory })

def accessBegin (r : SourceRing) (m : HostMemory) : Except SourceRingError Unit × SourceRing :=
  if r.inAccess then (.error .alreadyInAccess, r)
  else
    match r.loadTail m with
    | .error e => (.error e, r)
    | .ok tail => (.ok (), { r with cachedTail := tail, inAccess := true })

/-- The section is closed even if the head cannot be published. -/
def accessEnd (r : SourceRing) (h : Host) : SourceRing × Host :=
  if r.inAccess then
    let r := { r with inAccess := false }
    let ⟨memory, journal⟩ := h
    match storePointer r.flags memory r.layout.headAddr r.head with
    | (.ok _, memory) => (r, ⟨memory, journal⟩)
    | (.error e, memory) => (r, Host.record ⟨memory, journal⟩ (.headNotPublished r.head e))
  else (r, h)

def availableCount (r : SourceRing) : Nat :=
  if r.inAccess then r.completed r.cachedTail else 0

def nextEntry (r : SourceRing) (h : Host) : Option Reservation × Host :=
  let index := r.next r.reapHead
  if r.inAccess = false ∨ index = r.cachedTail then (none, h)
  else
    match r.layout.entryAddr? index with
    | none => (none, h)
    | some addr =>
      match h.memory.read addr RingEntry.size with
      | .ok bytes => (some ⟨index, RingEntry.ofBytes bytes, true⟩, h)
      | .error _ => (none, h.record (.entryUnreadable index))

def nextFreeEntry (r : SourceRing) : Option Reservation :=
  if r.inAccess = false ∨ r.head = r.reapHead then none
  else some ⟨r.head, .zero, false⟩

/-- A reservation is good for one use: a completed one while its entry is the oldest that is not
reaped, a free one while its position is at the head. -/
def Current (r : SourceRing) (res : Reservation) : Prop :=
  if res.completed then res.index = r.next r.reapHead ∧ res.index ≠ r.cachedTail
  else res.index = r.head

instance (r : SourceRing) (res : Reservation) : Decidable (r.Current res) := by
  unfold Current
  infer_instance

def reapHeadAfter (r : SourceRing) (res : Reservation) : Nat :=
  if res.completed then res.index else r.reapHead

def setEntry (r : SourceRing) (m : HostMemory) (res : Reservation) (busAddr cookie : Nat) :
    Except SourceRingError Unit × SourceRing × HostMemory :=
  if r.inAccess = false then (.error .notInAccess, r, m)
  else if ¬ r.Current res then (.error (.staleEntry res.index), r, m)
  else if r.head = r.reapHeadAfter res then (.error .ringFull, r, m)
  else
    match RingEntry.ofFields busAddr cookie r.rbm with
    | .error e => (.error e, r, m)
    | .ok entry =>
      match r.layout.entryAddr? r.head with
      | none => (.error .invalidLayout, r, m)
      | some addr =>
        match m.write addr entry.toBytes with
        | (.error _, m) => (.error .memoryError, r, m)
        | (.ok _, m) =>
          (.ok (), { r with reapHead := r.reapHeadAfter res, head := r.next r.head }, m)

end SourceRing

end FrameRing
