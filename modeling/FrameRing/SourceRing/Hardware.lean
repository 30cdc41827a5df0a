import FrameRing.SourceRing.Access

/-! # Source rings as a ring's hardware

A receive ring drives a source ring in any world that has a host in it. What else the world holds
is not looked at.
-/

namespace FrameRing

structure Machine (σ : Type) where
  host : Host
  rest : σ

namespace Machine

variable {σ : Type}

def setMemory (w : Machine σ) (memory : HostMemory) : Machine σ :=
  { w with host := { w.host with memory } }

def window (w : Machine σ) : Window := w.host.memory.window

def setWindow (w : Machine σ) (window : Window) : Machine σ :=
  w.setMemory { w.host.memory with window }

def record (w : Machine σ) (event : LogEvent) : Machine σ :=
  { w with host := w.host.record event }

def takeJournal (w : Machine σ) : Array LogEvent × Machine σ :=
  let (journal, host) := w.host.takeJournal
  (journal, { w with host })

end Machine

namespace SourceRing

variable {σ : Type}

def hardware : HardwareRing (Machine σ) SourceRing Reservation where
  accessBegin r w :=
    let (result, r) := r.accessBegin w.host.memory
    (result, r, w)
  accessEnd r w :=
    let ⟨host, rest⟩ := w
    let (r, host) := r.accessEnd host
    (r, ⟨host, rest⟩)
  availableCount r _ := r.availableCount
  nextEntry r w :=
    let (res, host) := r.nextEntry w.host
    (res, r, { w with host })
  nextFreeEntry r w := (r.nextFreeEntry, r, w)
  setEntry res busAddr cookie r w :=
    let ⟨⟨memory, journal⟩, rest⟩ := w
    let (result, r, memory) := r.setEntry memory res busAddr cookie
    (result, r, ⟨⟨memory, journal⟩, rest⟩)
  cookieOf res _ _ := res.entry.cookie

def registrar (rbm : Nat) (reg : Registration) (w : Machine σ) :
    Except SourceRingError SourceRing × Machine σ :=
  let (result, host) := register reg rbm w.host
  (result, { w with host })

end SourceRing

end FrameRing
