import FrameRing.Ring.Basic

/-! # A ring as text

One line that names the geometry, the state, the cursors and the counters of a ring.
-/

namespace FrameRing

def RingState.name : RingState → String
  | .ready => "Ready"
  | .active => "Active"
  | .faulted => "Faulted"
  | .released => "Released"

def describeRecord (name : String) (fields : List (String × String)) : String :=
  name ++ " \x7b " ++ ", ".intercalate (fields.map fun (key, value) => key ++ ": " ++ value) ++
    " \x7d"

def Allocation.describe (a : Allocation) : String :=
  describeRecord "Allocation" [("addr", toString a.addr), ("len", toString a.len)]

def RingGeometry.describe (g : RingGeometry) : String :=
  describeRecord "RingConfig"
    [("capacity", toString g.capacity), ("entry_size", toString g.entrySize),
      ("buffer_size", toString g.bufferSize), ("align", toString g.align),
      ("ring_mem", g.ringMem.describe)]

def RingStats.describe (s : RingStats) : String :=
  describeRecord "RingStats"
    [("reaped", toString s.reaped), ("delivered", toString s.delivered),
      ("dropped_malformed", toString s.droppedMalformed),
      ("backpressure", toString s.backpressure),
      ("missing_entries", toString s.missingEntries)]

def Ring.describe {η β : Type} (ring : Ring η β) : String :=
  "MgmtRxRing \x7b config: " ++ ring.geometry.describe ++ ", state: " ++ ring.state.name ++
    ", write_idx: " ++ toString ring.cursor.writeIdx ++ ", read_idx: " ++
    toString ring.cursor.readIdx ++ ", stats: " ++ ring.stats.describe ++ ", .. \x7d"

end FrameRing
