/-! # Bus addresses

Addresses are natural numbers below `addressLimit`.
-/

namespace FrameRing

def addressLimit : Nat := 1 <<< 64

def hexAddress (addr : Nat) : String :=
  "0x" ++ String.ofList (Nat.toDigits 16 addr)

end FrameRing
