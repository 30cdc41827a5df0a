import FrameRing.Memory.Window

/-! # The host's access to shared memory

The host reaches the window through a path that may fail. A fault covers a range of addresses for
one kind of access; an access of that kind that meets the range is refused before the window sees
it. The device does not go through this path.
-/

namespace FrameRing

/-- Block transfers and pointer-word transfers fail separately. -/
inductive AccessKind where
  | read
  | write
  | load
  | store
  deriving DecidableEq, Repr

/-- Accesses of one kind that meet `[addr, addr + len)` fail. -/
structure Fault where
  kind : AccessKind
  addr : Nat
  len : Nat
  deriving DecidableEq, Repr

def Fault.Hits (f : Fault) (kind : AccessKind) (addr size : Nat) : Prop :=
  f.kind = kind ∧ addr < f.addr + f.len ∧ f.addr < addr + size

instance (f : Fault) (kind : AccessKind) (addr size : Nat) : Decidable (f.Hits kind addr size) :=
  inferInstanceAs (Decidable (_ ∧ _ ∧ _))

/-- The window as the host reaches it. -/
structure HostMemory where
  window : Window
  faults : List Fault

namespace HostMemory

def Blocked (m : HostMemory) (kind : AccessKind) (addr size : Nat) : Prop :=
  ∃ f ∈ m.faults, f.Hits kind addr size

instance (m : HostMemory) (kind : AccessKind) (addr size : Nat) :
    Decidable (m.Blocked kind addr size) :=
  inferInstanceAs (Decidable (∃ f ∈ m.faults, f.Hits kind addr size))

def read (m : HostMemory) (addr len : Nat) : Except MemFault (List UInt8) :=
  if m.Blocked .read addr len then .error ⟨addr⟩ else m.window.read addr len

def write (m : HostMemory) (addr : Nat) (src : List UInt8) : Except MemFault Unit × HostMemory :=
  if m.Blocked .write addr src.length then (.error ⟨addr⟩, m)
  else
    let ⟨window, faults⟩ := m
    let (result, window) := window.write addr src
    (result, ⟨window, faults⟩)

def loadWord (m : HostMemory) (addr : Nat) : Except MemFault Nat :=
  if m.Blocked .load addr 4 then .error ⟨addr⟩ else m.window.loadWord addr

def storeWord (m : HostMemory) (addr word : Nat) : Except MemFault Unit × HostMemory :=
  if m.Blocked .store addr 4 then (.error ⟨addr⟩, m)
  else
    let ⟨window, faults⟩ := m
    let (result, window) := window.storeWord addr word
    (result, ⟨window, faults⟩)

end HostMemory

end FrameRing
