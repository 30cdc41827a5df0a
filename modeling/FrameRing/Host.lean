import FrameRing.Log.Event
import FrameRing.Memory.Host

/-! # The host side of a device: its access to shared memory and its log -/

namespace FrameRing

structure Host where
  memory : HostMemory
  journal : Array LogEvent

namespace Host

def ofWindow (window : Window) : Host := ⟨⟨window, []⟩, #[]⟩

def record (h : Host) (event : LogEvent) : Host :=
  { h with journal := h.journal.push event }

def takeJournal (h : Host) : Array LogEvent × Host :=
  (h.journal, { h with journal := #[] })

end Host

end FrameRing
