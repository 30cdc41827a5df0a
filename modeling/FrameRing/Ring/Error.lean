import FrameRing.Params
import FrameRing.Pool.Allocation

/-! # Why a receive ring fails -/

namespace FrameRing

inductive RingError where
  | hardware (cause : SourceRingError)
  | allocation (cause : AllocError)
  | invalidConfig (cause : ParamError)
  | outOfMemory
  | desync (cookie expected : Nat)
  | doubleArm (slot : Nat)
  | faulted
  | notAttached
  | alreadyAttached
  | released
  deriving DecidableEq, Repr

namespace RingError

def message : RingError → String
  | .hardware cause => s!"Hardware ring error: {cause.message}"
  | .allocation cause => s!"Allocation error: {cause.message}"
  | .invalidConfig cause => s!"Invalid ring configuration: {cause.message}"
  | .outOfMemory => "Out of memory for the descriptor table"
  | .desync cookie expected =>
    s!"Completion carries cookie {cookie} but slot {expected} is next"
  | .doubleArm slot => s!"Slot {slot} is already armed"
  | .faulted => "Ring is faulted"
  | .notAttached => "Ring is not attached"
  | .alreadyAttached => "Ring is already attached"
  | .released => "Ring has been released"

/-- The ring was not in a state to try; nothing went wrong in the attempt. -/
def isRefusal : RingError → Bool
  | .faulted | .notAttached | .released => true
  | _ => false

end RingError

end FrameRing
