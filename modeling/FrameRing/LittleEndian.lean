/-! # Little-endian words

Every number that host and device share is a fixed number of bytes, least significant first.
`decode_encode` and `encode_decode` say that the two directions undo each other, and
`swapWord_swapWord` that reversing the bytes of a pointer word twice changes nothing.
-/

namespace FrameRing.LittleEndian

def encode : Nat → Nat → List UInt8
  | 0, _ => []
  | width + 1, n => UInt8.ofNat (n % 256) :: encode width (n / 256)

def decode : List UInt8 → Nat
  | [] => 0
  | b :: bs => b.toNat + 256 * decode bs

@[simp] theorem length_encode (width n : Nat) : (encode width n).length = width := by
  induction width generalizing n with
  | zero => rfl
  | succ width ih => simp [encode, ih]

theorem range_succ (width : Nat) : 1 <<< (8 * (width + 1)) = 256 * (1 <<< (8 * width)) := by
  rw [Nat.mul_succ, Nat.shiftLeft_add, Nat.shiftLeft_eq _ 8, Nat.mul_comm]

theorem decode_encode (width n : Nat) : decode (encode width n) = n % (1 <<< (8 * width)) := by
  induction width generalizing n with
  | zero => simp [encode, decode, Nat.mod_one]
  | succ width ih =>
    have small : (UInt8.ofNat (n % 256)).toNat = n % 256 := by
      rw [UInt8.toNat_ofNat']
      omega
    rw [encode, decode, ih, small, range_succ, Nat.mod_mul]

theorem decode_lt (bs : List UInt8) : decode bs < 1 <<< (8 * bs.length) := by
  induction bs with
  | nil => simp [decode]
  | cons b bs ih =>
    have hb : b.toNat < 256 := b.toNat_lt
    rw [decode, List.length_cons, range_succ]
    omega

theorem encode_decode (bs : List UInt8) : encode bs.length (decode bs) = bs := by
  induction bs with
  | nil => rfl
  | cons b bs ih =>
    have hb : b.toNat < 256 := b.toNat_lt
    have low : (b.toNat + 256 * decode bs) % 256 = b.toNat := by omega
    have high : (b.toNat + 256 * decode bs) / 256 = decode bs := by omega
    rw [List.length_cons, decode, encode, low, high, ih, UInt8.ofNat_toNat]

def swapWord (word : Nat) : Nat :=
  decode (encode 4 word).reverse

theorem swapWord_lt (word : Nat) : swapWord word < 1 <<< 32 := by
  have h := decode_lt (encode 4 word).reverse
  simpa [swapWord] using h

theorem swapWord_swapWord {word : Nat} (h : word < 1 <<< 32) : swapWord (swapWord word) = word := by
  have back := encode_decode (encode 4 word).reverse
  rw [List.length_reverse, length_encode] at back
  rw [swapWord, swapWord, back, List.reverse_reverse, decode_encode]
  exact Nat.mod_eq_of_lt h

end FrameRing.LittleEndian
