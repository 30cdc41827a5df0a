import FrameRing.Address

/-! # Why a source ring refuses -/

namespace FrameRing

inductive SourceRingError where
  | invalidLayout
  | addrOutOfRange (addr : Nat)
  | cookieOutOfRange (cookie : Nat)
  | ringFull
  | staleEntry (index : Nat)
  | notInAccess
  | alreadyInAccess
  | invalidPointer (tail : Nat)
  | memoryError
  deriving DecidableEq, Repr

def SourceRingError.message : SourceRingError → String
  | .invalidLayout => "Invalid ring layout"
  | .addrOutOfRange addr => s!"Bus address {hexAddress addr} does not fit a ring entry"
  | .cookieOutOfRange cookie => s!"Cookie {cookie} does not fit a ring entry"
  | .ringFull => "No free ring entry"
  | .staleEntry index => s!"Entry {index} is not the next one to reuse"
  | .notInAccess => "Ring used outside an access section"
  | .alreadyInAccess => "Ring access section already open"
  | .invalidPointer tail => s!"Device published out-of-range tail pointer {tail}"
  | .memoryError => "Ring memory access failed"

end FrameRing
