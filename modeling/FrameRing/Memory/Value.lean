import FrameRing.Entry
import FrameRing.Memory.Window

/-! # Values in memory

A value of a fixed number of bytes lies in memory as these bytes. The bytes are all that there is to
it, so any bytes of the right number are read as a value.
-/

namespace FrameRing

/-- Values that correspond one to one to the rows of `width` bytes. -/
class FixedBytes (α : Type) where
  width : Nat
  toBytes : α → List UInt8
  ofBytes : List UInt8 → α
  length_toBytes (value : α) : (toBytes value).length = width
  ofBytes_toBytes (value : α) : ofBytes (toBytes value) = value
  toBytes_ofBytes {bytes : List UInt8} (h : bytes.length = width) : toBytes (ofBytes bytes) = bytes

instance : FixedBytes UInt64 where
  width := 8
  toBytes value := LittleEndian.encode 8 value.toNat
  ofBytes bytes := UInt64.ofNat (LittleEndian.decode bytes)
  length_toBytes _ := LittleEndian.length_encode 8 _
  ofBytes_toBytes value := by
    have hword : value.toNat < 1 <<< (8 * 8) := value.toNat_lt
    rw [LittleEndian.decode_encode, Nat.mod_eq_of_lt hword, UInt64.ofNat_toNat]
  toBytes_ofBytes {bytes} h := by
    have hword := LittleEndian.decode_lt bytes
    rw [h] at hword
    rw [UInt64.toNat_ofNat_of_lt' hword, ← h, LittleEndian.encode_decode]

instance : FixedBytes RingEntry where
  width := RingEntry.size
  toBytes := RingEntry.toBytes
  ofBytes := RingEntry.ofBytes
  length_toBytes := RingEntry.length_toBytes
  ofBytes_toBytes := RingEntry.ofBytes_toBytes
  toBytes_ofBytes := RingEntry.toBytes_ofBytes

namespace Window

def readValue (m : Window) (α : Type) [FixedBytes α] (addr : Nat) : Except MemFault α :=
  (m.read addr (FixedBytes.width α)).map FixedBytes.ofBytes

def writeValue {α : Type} [FixedBytes α] (m : Window) (addr : Nat) (value : α) :
    Except MemFault Unit × Window :=
  m.write addr (FixedBytes.toBytes value)

end Window

end FrameRing
