import FrameRing.LittleEndian
import FrameRing.SourceRing.Error

/-! # Ring entries

An entry names a receive buffer to the device in eight bytes, one little-endian 64-bit word:

* bits 0 to 39, the bus address of the buffer;
* bits 40 to 42, the return buffer manager that owns it;
* bits 43 to 63, a cookie that the device hands back untouched.

`ofWord_toWord` and `toWord_ofWord` say that entries and words correspond one to one.
-/

namespace FrameRing

structure RingEntry where
  busAddr : Nat
  cookie : Nat
  rbm : Nat
  busAddr_lt : busAddr < 1 <<< 40
  cookie_lt : cookie < 1 <<< 21
  rbm_lt : rbm < 1 <<< 3
  deriving DecidableEq, Repr

namespace RingEntry

def size : Nat := 8

def align : Nat := 4

def maxCookie : Nat := (1 <<< 21) - 1

def maxRbm : Nat := (1 <<< 3) - 1

/-- Entry for the given values. An address or a cookie that is too wide is refused, the address
first; of the return buffer manager only the low three bits are kept. -/
def ofFields (busAddr cookie rbm : Nat) : Except SourceRingError RingEntry :=
  if haddr : busAddr < 1 <<< 40 then
    if hcookie : cookie < 1 <<< 21 then
      .ok ⟨busAddr, cookie, rbm % (1 <<< 3), haddr, hcookie, Nat.mod_lt _ (by decide)⟩
    else .error (.cookieOutOfRange cookie)
  else .error (.addrOutOfRange busAddr)

def toWord (e : RingEntry) : Nat :=
  e.busAddr + (1 <<< 40) * e.rbm + (1 <<< 43) * e.cookie

def ofWord (word : Nat) : RingEntry where
  busAddr := word % (1 <<< 40)
  rbm := word / (1 <<< 40) % (1 <<< 3)
  cookie := word / (1 <<< 43) % (1 <<< 21)
  busAddr_lt := Nat.mod_lt _ (by decide)
  rbm_lt := Nat.mod_lt _ (by decide)
  cookie_lt := Nat.mod_lt _ (by decide)

theorem toWord_lt (e : RingEntry) : e.toWord < 1 <<< 64 := by
  have ha := e.busAddr_lt
  have hc := e.cookie_lt
  have hr := e.rbm_lt
  simp only [toWord, Nat.reduceShiftLeft] at *
  omega

theorem toWord_ofWord {word : Nat} (h : word < 1 <<< 64) : (ofWord word).toWord = word := by
  simp only [toWord, ofWord, Nat.reduceShiftLeft] at *
  omega

theorem ofWord_toWord (e : RingEntry) : ofWord e.toWord = e := by
  obtain ⟨addr, cookie, rbm, ha, hc, hr⟩ := e
  simp only [ofWord, toWord, mk.injEq, Nat.reduceShiftLeft] at *
  omega

def toBytes (e : RingEntry) : List UInt8 :=
  LittleEndian.encode size e.toWord

def ofBytes (bytes : List UInt8) : RingEntry :=
  ofWord (LittleEndian.decode bytes)

@[simp] theorem length_toBytes (e : RingEntry) : e.toBytes.length = size := by
  simp [toBytes]

theorem ofBytes_toBytes (e : RingEntry) : ofBytes e.toBytes = e := by
  have h := e.toWord_lt
  rw [ofBytes, toBytes, LittleEndian.decode_encode, Nat.mod_eq_of_lt, ofWord_toWord]
  simpa [size] using h

theorem toBytes_ofBytes {bytes : List UInt8} (h : bytes.length = size) :
    (ofBytes bytes).toBytes = bytes := by
  have hword := LittleEndian.decode_lt bytes
  rw [h] at hword
  rw [toBytes, ofBytes, toWord_ofWord hword, ← h, LittleEndian.encode_decode]

def zero : RingEntry := ofWord 0

end RingEntry

end FrameRing
