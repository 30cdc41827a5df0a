import FrameRing.Entry
import FrameRing.Proofs.SharedBytes
import Mathlib.Algebra.Group.Nat.Defs

/-! # Entries in memory

The device sees an entry as two little-endian words that are put together by shifts and masks. No
two fields share a bit and none is left over, so fields and bytes determine each other. -/

namespace FrameRing

namespace LittleEndian

theorem encode_add (m n : Nat) {low : Nat} (high : Nat) (h : low < 256 ^ m) :
    encode (m + n) (low + 256 ^ m * high) = encode m low ++ encode n high := by
  induction m generalizing low with
  | zero =>
    have hlow : low = 0 := by simpa using h
    simp [encode, hlow]
  | succ m ih =>
    have hrest : low / 256 < 256 ^ m := Nat.div_lt_of_lt_mul (by rwa [← Nat.pow_succ'])
    have hfirst : (low + 256 ^ (m + 1) * high) % 256 = low % 256 := by
      rw [Nat.pow_succ', Nat.mul_assoc, Nat.add_mul_mod_self_left]
    have hnext : (low + 256 ^ (m + 1) * high) / 256 = low / 256 + 256 ^ m * high := by
      rw [Nat.pow_succ', Nat.mul_assoc, Nat.add_mul_div_left _ _ (by decide)]
    rw [Nat.succ_add, encode, encode, hfirst, hnext, ih hrest, List.cons_append]

theorem decode_append (low high : List UInt8) :
    decode (low ++ high) = decode low + 256 ^ low.length * decode high := by
  induction low with
  | nil => simp [decode]
  | cons b low ih =>
    rw [List.cons_append, decode, decode, ih, List.length_cons, Nat.pow_succ', Nat.mul_add,
      Nat.mul_assoc, Nat.add_assoc]

end LittleEndian

/-- The low word has bits 0 to 31 of the bus address. The other one has, from its low end on, bits
32 to 39 of the bus address, the return buffer manager and the cookie. -/
structure EntryWords where
  low : UInt32
  info : UInt32
  deriving DecidableEq, Repr

namespace EntryWords

variable {a : UInt64} {c : UInt32} {w : EntryWords} {bytes : List UInt8}

def pack (busAddr : UInt64) (cookie : UInt32) (rbm : UInt8) : EntryWords where
  low := busAddr.toUInt32
  info := ((busAddr >>> 32).toUInt32 &&& (0xff : UInt32)) ||| ((rbm &&& 7).toUInt32 <<< 8) |||
    (cookie <<< 11)

def busAddr (w : EntryWords) : UInt64 :=
  ((w.info &&& 0xff).toUInt64 <<< 32) ||| w.low.toUInt64

def cookie (w : EntryWords) : UInt32 :=
  w.info >>> 11

def rbm (w : EntryWords) : UInt8 :=
  ((w.info >>> 8) &&& 7).toUInt8

def toBytes (w : EntryWords) : List UInt8 :=
  LittleEndian.encode 4 w.low.toNat ++ LittleEndian.encode 4 w.info.toNat

def ofBytes (bytes : List UInt8) : EntryWords where
  low := UInt32.ofNat (LittleEndian.decode (bytes.take 4))
  info := UInt32.ofNat (LittleEndian.decode (bytes.drop 4))

theorem or_shiftLeft {low i : Nat} (high : Nat) (h : low < 2 ^ i) :
    low ||| high <<< i = low + 2 ^ i * high := by
  rw [Nat.shiftLeft_eq, Nat.mul_comm high, Nat.or_comm, ← Nat.two_pow_add_eq_or_of_lt h,
    Nat.add_comm]

theorem toNat_low_pack (a : UInt64) (c : UInt32) (r : UInt8) :
    (pack a c r).low.toNat = a.toNat % 2 ^ 32 :=
  UInt64.toNat_toUInt32 a

theorem toNat_info_pack (r : UInt8) (hc : c.toNat < 1 <<< 21) :
    (pack a c r).info.toNat =
      a.toNat / 2 ^ 32 % 2 ^ 8 + 2 ^ 8 * (r.toNat % 2 ^ 3) + 2 ^ 11 * c.toNat := by
  have hhigh : ((a >>> 32).toUInt32 &&& (0xff : UInt32)).toNat = a.toNat / 2 ^ 32 % 2 ^ 8 := by
    have ha := a.toNat_lt
    have hword : (a >>> 32).toUInt32.toNat = a.toNat / 2 ^ 32 := by
      simp [Nat.shiftRight_eq_div_pow]
      omega
    rw [UInt32.toNat_and, hword]
    exact Nat.and_two_pow_sub_one_eq_mod _ 8
  have hrbm : ((r &&& 7).toUInt32 <<< 8).toNat = (r.toNat % 2 ^ 3) <<< 8 := by
    have hmask : (r &&& 7).toNat = r.toNat % 2 ^ 3 := Nat.and_two_pow_sub_one_eq_mod _ 3
    rw [UInt32.toNat_shiftLeft, UInt8.toNat_toUInt32, hmask]
    apply Nat.mod_eq_of_lt
    simp [Nat.shiftLeft_eq]
    omega
  have hcookie : (c <<< 11).toNat = c.toNat <<< 11 := by
    rw [UInt32.toNat_shiftLeft]
    apply Nat.mod_eq_of_lt
    simp [Nat.shiftLeft_eq] at *
    omega
  have hhigh_lt := Nat.mod_lt (a.toNat / 2 ^ 32) (Nat.two_pow_pos 8)
  have hrbm_lt := Nat.mod_lt r.toNat (Nat.two_pow_pos 3)
  rw [pack, UInt32.toNat_or, UInt32.toNat_or, hhigh, hrbm, hcookie, or_shiftLeft _ hhigh_lt,
    or_shiftLeft _ (by omega)]

theorem toNat_busAddr (w : EntryWords) :
    w.busAddr.toNat = w.low.toNat + 2 ^ 32 * (w.info.toNat % 2 ^ 8) := by
  have hhigh : ((w.info &&& 0xff).toUInt64 <<< 32).toNat = (w.info.toNat % 2 ^ 8) <<< 32 := by
    have hmask : (w.info &&& 0xff).toNat = w.info.toNat % 2 ^ 8 :=
      Nat.and_two_pow_sub_one_eq_mod _ 8
    rw [UInt64.toNat_shiftLeft, UInt32.toNat_toUInt64, hmask]
    apply Nat.mod_eq_of_lt
    simp [Nat.shiftLeft_eq]
    omega
  rw [busAddr, UInt64.toNat_or, hhigh, UInt32.toNat_toUInt64, Nat.or_comm,
    or_shiftLeft _ w.low.toNat_lt]

theorem toNat_cookie (w : EntryWords) : w.cookie.toNat = w.info.toNat / 2 ^ 11 := by
  rw [cookie, UInt32.toNat_shiftRight]
  exact Nat.shiftRight_eq_div_pow _ 11

theorem toNat_rbm (w : EntryWords) : w.rbm.toNat = w.info.toNat / 2 ^ 8 % 2 ^ 3 := by
  have hshift : (w.info >>> 8).toNat = w.info.toNat / 2 ^ 8 := by
    rw [UInt32.toNat_shiftRight]
    exact Nat.shiftRight_eq_div_pow _ 8
  have hmask : ((w.info >>> 8) &&& 7).toNat = w.info.toNat / 2 ^ 8 % 2 ^ 3 := by
    rw [UInt32.toNat_and, hshift]
    exact Nat.and_two_pow_sub_one_eq_mod _ 3
  rw [rbm, UInt32.toNat_toUInt8, hmask]
  omega

theorem toBytes_eq (w : EntryWords) :
    w.toBytes = LittleEndian.encode 8 (w.low.toNat + 2 ^ 32 * w.info.toNat) :=
  (LittleEndian.encode_add 4 4 w.info.toNat w.low.toNat_lt).symm

theorem decode_eq (h : bytes.length = RingEntry.size) :
    LittleEndian.decode bytes =
      (ofBytes bytes).low.toNat + 2 ^ 32 * (ofBytes bytes).info.toNat := by
  have hsize : RingEntry.size = 8 := rfl
  have htake : (bytes.take 4).length = 4 := by
    rw [List.length_take]
    omega
  have hdrop : (bytes.drop 4).length = 4 := by
    rw [List.length_drop]
    omega
  have hlow : LittleEndian.decode (bytes.take 4) < 2 ^ 32 := by
    have hlt := LittleEndian.decode_lt (bytes.take 4)
    rw [htake] at hlt
    exact hlt
  have hhigh : LittleEndian.decode (bytes.drop 4) < 2 ^ 32 := by
    have hlt := LittleEndian.decode_lt (bytes.drop 4)
    rw [hdrop] at hlt
    exact hlt
  have hbase : 256 ^ 4 = 2 ^ 32 := rfl
  have hsplit := LittleEndian.decode_append (bytes.take 4) (bytes.drop 4)
  rw [List.take_append_drop, htake, hbase] at hsplit
  rw [hsplit, ofBytes, UInt32.toNat_ofNat', UInt32.toNat_ofNat', Nat.mod_eq_of_lt hlow,
    Nat.mod_eq_of_lt hhigh]

end EntryWords

namespace RingEntry

variable {busAddr cookie rbm : Nat} {entry : RingEntry} {bytes : List UInt8}

theorem ofFields_eq_ok (h : ofFields busAddr cookie rbm = .ok entry) :
    entry.busAddr = busAddr ∧ entry.cookie = cookie ∧ entry.rbm = rbm % (1 <<< 3) := by
  unfold ofFields at h
  split at h
  · split at h
    · cases h
      exact ⟨rfl, rfl, rfl⟩
    · cases h
  · cases h

theorem ofFields_fields (e : RingEntry) : ofFields e.busAddr e.cookie e.rbm = .ok e := by
  unfold ofFields
  rw [dif_pos e.busAddr_lt, dif_pos e.cookie_lt]
  congr
  exact Nat.mod_eq_of_lt e.rbm_lt

theorem toBytes_pack {a : UInt64} {c : UInt32} {r : UInt8}
    (h : ofFields a.toNat c.toNat r.toNat = .ok entry) :
    (EntryWords.pack a c r).toBytes = entry.toBytes := by
  obtain ⟨haddr, hcookie, hrbm⟩ := ofFields_eq_ok h
  have ha := entry.busAddr_lt
  have hc := entry.cookie_lt
  rw [hcookie] at hc
  rw [EntryWords.toBytes_eq, EntryWords.toNat_low_pack, EntryWords.toNat_info_pack r hc, toBytes,
    toWord, haddr, hcookie, hrbm]
  simp only [Nat.reduceShiftLeft] at *
  congr 1
  omega

theorem ofBytes_words (h : bytes.length = size) :
    (EntryWords.ofBytes bytes).busAddr.toNat = (ofBytes bytes).busAddr ∧
      (EntryWords.ofBytes bytes).cookie.toNat = (ofBytes bytes).cookie ∧
      (EntryWords.ofBytes bytes).rbm.toNat = (ofBytes bytes).rbm := by
  have hlow := (EntryWords.ofBytes bytes).low.toNat_lt
  have hinfo := (EntryWords.ofBytes bytes).info.toNat_lt
  rw [EntryWords.toNat_busAddr, EntryWords.toNat_cookie, EntryWords.toNat_rbm]
  simp only [ofBytes, ofWord, EntryWords.decode_eq h, Nat.reduceShiftLeft]
  omega

/-- An entry that memory takes and gives back is the same entry. -/
theorem read_written {m : HostMemory} {addr : Nat} (e : RingEntry)
    (hc : m.window.Covers addr size) (hw : ¬ m.Blocked .write addr size)
    (hr : ¬ m.Blocked .read addr size) :
    ∃ m', m.write addr e.toBytes = (.ok (), m') ∧ m'.read addr size = .ok e.toBytes := by
  have hlen := length_toBytes e
  have hcovers : m.window.Covers addr e.toBytes.length := by rwa [hlen]
  refine ⟨{ m with window := (m.window.write addr e.toBytes).2 }, ?_, ?_⟩
  · rw [HostMemory.write, hlen, if_neg hw, Window.write_of_covers hcovers]
  · rw [HostMemory.read]
    refine (if_neg hr).trans ?_
    rw [Window.read_eq_ok_iff]
    exact ⟨Window.covers_write.mpr hc, hlen, Window.shows_write hcovers⟩

/-- Fields that fit make up an entry that has exactly these fields, also after it went through
memory. Any eight bytes are an entry, and its fields make up the same bytes. On the way the fields
are packed into two words by shifts and masks, and unpacked again. -/
theorem fields_and_bytes_correspond :
    (∀ busAddr cookie rbm, busAddr < 1 <<< 40 → cookie < 1 <<< 21 → rbm < 1 <<< 3 →
      ∃ e, ofFields busAddr cookie rbm = .ok e ∧
        (e.busAddr = busAddr ∧ e.cookie = cookie ∧ e.rbm = rbm) ∧
        ∀ (m : HostMemory) (addr : Nat), m.window.Covers addr size →
          ¬ m.Blocked .write addr size → ¬ m.Blocked .read addr size →
          ∃ m' bytes, m.write addr e.toBytes = (.ok (), m') ∧ m'.read addr size = .ok bytes ∧
            (ofBytes bytes).busAddr = busAddr ∧ (ofBytes bytes).cookie = cookie ∧
            (ofBytes bytes).rbm = rbm) ∧
    (∀ bytes : List UInt8, bytes.length = size →
      let e := ofBytes bytes
      ∃ e', ofFields e.busAddr e.cookie e.rbm = .ok e' ∧ e'.toBytes = bytes) ∧
    (∀ (a : UInt64) (c : UInt32) (r : UInt8) (e : RingEntry),
      ofFields a.toNat c.toNat r.toNat = .ok e → (EntryWords.pack a c r).toBytes = e.toBytes) ∧
    (∀ bytes : List UInt8, bytes.length = size →
      let w := EntryWords.ofBytes bytes
      let e := ofBytes bytes
      w.busAddr.toNat = e.busAddr ∧ w.cookie.toNat = e.cookie ∧ w.rbm.toNat = e.rbm) := by
  refine ⟨?_, ?_, ?_, ?_⟩
  · intro busAddr cookie rbm haddr hcookie hrbm
    let e : RingEntry := ⟨busAddr, cookie, rbm, haddr, hcookie, hrbm⟩
    refine ⟨e, ofFields_fields e, ⟨rfl, rfl, rfl⟩, ?_⟩
    intro m addr hc hw hr
    obtain ⟨m', hwritten, hread⟩ := read_written e hc hw hr
    refine ⟨m', e.toBytes, hwritten, hread, ?_⟩
    rw [ofBytes_toBytes]
    exact ⟨rfl, rfl, rfl⟩
  · intro bytes h e
    exact ⟨e, ofFields_fields e, toBytes_ofBytes h⟩
  · intro a c r e h
    exact toBytes_pack h
  · intro bytes h
    exact ofBytes_words h

/-- All three fields at once, with every bit of the cookie set, and the bytes that show them. -/
theorem fields_and_bytes_correspond_packed :
    let m : HostMemory := ⟨Window.zeroed 4096 64, [⟨.write, 4096, 16⟩]⟩
    let bytes : List UInt8 := [0x9a, 0x78, 0x56, 0x34, 0x12, 0xfd, 0xff, 0xff]
    ∃ e, ofFields 0x123456789a 0x1fffff 5 = .ok e ∧ e.toBytes = bytes ∧
      (EntryWords.pack 0x123456789a 0x1fffff 5).toBytes = bytes ∧
      (ofBytes bytes).busAddr = 0x123456789a ∧
      ∃ m' read, m.write 4112 e.toBytes = (.ok (), m') ∧ m'.read 4112 size = .ok read ∧
        (ofBytes read).cookie = 0x1fffff := by
  intro m bytes
  obtain ⟨hmake, -, hpack, hunpack⟩ := fields_and_bytes_correspond
  obtain ⟨e, he, -, hmemory⟩ :=
    hmake 0x123456789a 0x1fffff 5 (by decide) (by decide) (by decide)
  obtain ⟨m', read, hwritten, hread, -, hback, -⟩ :=
    hmemory m 4112 (by decide) (by decide) (by decide)
  have hbytes : (EntryWords.pack 0x123456789a 0x1fffff 5).toBytes = bytes := by decide
  have haddr : (EntryWords.ofBytes bytes).busAddr.toNat = 0x123456789a := by decide
  refine ⟨e, he, ?_, hbytes, ?_, m', read, hwritten, hread, hback⟩
  · rw [← hpack 0x123456789a 0x1fffff 5 e he, hbytes]
  · rw [← (hunpack bytes rfl).1, haddr]

end RingEntry

end FrameRing
