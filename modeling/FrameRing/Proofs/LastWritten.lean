import FrameRing.Memory.Value
import FrameRing.Proofs.Geometry
import Mathlib.Data.List.Induction

/-! # Memory gives back what was written last

Bytes, pointer words and values are three ways to reach the same cells. Whatever calls are made, at
whatever addresses, an access that lies inside the window finds in each cell the byte that was laid
there last, and any other access fails and changes nothing. -/

namespace FrameRing

namespace LittleEndian

theorem getElem?_encode (width n i : Nat) :
    (encode width n)[i]? = if i < width then some (UInt8.ofNat (n / 256 ^ i % 256)) else none := by
  induction width generalizing n i with
  | zero => rfl
  | succ width ih =>
    cases i with
    | zero => simp [encode]
    | succ i =>
      rw [encode, List.getElem?_cons_succ, ih, Nat.div_div_eq_div_mul, ← Nat.pow_succ']
      simp only [Nat.add_lt_add_iff_right]

end LittleEndian

inductive Window.Call : Type 1 where
  | read (addr len : Nat)
  | write (addr : Nat) (src : List UInt8)
  | loadWord (addr : Nat)
  | storeWord (addr : Nat) (word : UInt32)
  | readValue (α : Type) [FixedBytes α] (addr : Nat)
  | writeValue {α : Type} [FixedBytes α] (addr : Nat) (value : α)

namespace Window.Call

def Result : Window.Call → Type
  | read _ _ => List UInt8
  | write _ _ => Unit
  | loadWord _ => Nat
  | storeWord _ _ => Unit
  | readValue α _ => α
  | writeValue _ _ => Unit

def addr : Window.Call → Nat
  | read addr _ => addr
  | write addr _ => addr
  | loadWord addr => addr
  | storeWord addr _ => addr
  | readValue _ addr => addr
  | writeValue addr _ => addr

def src? : Window.Call → Option (List UInt8)
  | read _ _ => none
  | write _ src => some src
  | loadWord _ => none
  | storeWord _ word => some (LittleEndian.encode 4 word.toNat)
  | readValue _ _ => none
  | writeValue _ value => some (FixedBytes.toBytes value)

def len : Window.Call → Nat
  | read _ len => len
  | write _ src => src.length
  | loadWord _ => 4
  | storeWord _ _ => 4
  | readValue α _ => FixedBytes.width α
  | @writeValue α _ _ _ => FixedBytes.width α

def answer : (c : Window.Call) → List UInt8 → c.Result
  | read _ _, bytes => bytes
  | write _ _, _ => ()
  | loadWord _, bytes => LittleEndian.decode bytes
  | storeWord _ _, _ => ()
  | @readValue α _ _, bytes => (FixedBytes.ofBytes bytes : α)
  | writeValue _ _, _ => ()

def Fits (base size : Nat) (c : Window.Call) : Prop :=
  base ≤ c.addr ∧ c.addr - base + c.len ≤ size

instance (base size : Nat) (c : Window.Call) : Decidable (c.Fits base size) :=
  inferInstanceAs (Decidable (_ ∧ _))

def laid? (base size a : Nat) (c : Window.Call) : Option UInt8 :=
  if c.Fits base size ∧ c.addr ≤ a then c.src?.bind (·[a - c.addr]?) else none

end Window.Call

/-- The byte laid last at an address; the window starts out with zeros. -/
def lastWritten (base size : Nat) (calls : List Window.Call) (a : Nat) : UInt8 :=
  (calls.filterMap (Window.Call.laid? base size a)).getLast?.getD 0

theorem lastWritten_concat (base size : Nat) (calls : List Window.Call) (c : Window.Call)
    (a : Nat) :
    lastWritten base size (calls ++ [c]) a =
      (c.laid? base size a).getD (lastWritten base size calls a) := by
  rw [lastWritten, List.filterMap_append]
  cases h : c.laid? base size a with
  | none => rw [List.filterMap_cons_none h, List.filterMap_nil, List.append_nil]; rfl
  | some b => rw [List.filterMap_cons_some h, List.filterMap_nil, List.getLast?_concat]; rfl

namespace Window

def perform (m : Window) : (c : Call) → Except MemFault c.Result × Window
  | .read addr len => (m.read addr len, m)
  | .write addr src => m.write addr src
  | .loadWord addr => (m.loadWord addr, m)
  | .storeWord addr word => m.storeWord addr word.toNat
  | @Call.readValue α _ addr => (m.readValue α addr, m)
  | @Call.writeValue _ _ addr value => m.writeValue addr value

def run (m : Window) (calls : List Call) : Window :=
  calls.foldl (fun m c => (m.perform c).2) m

variable {m : Window} {base size a : Nat} {calls : List Call} {c : Call}

theorem perform_window (m : Window) (c : Call) :
    (m.perform c).2 = c.src?.elim m fun src => (m.write c.addr src).2 := by
  cases c <;> rfl

theorem length_of_src? {src : List UInt8} (h : c.src? = some src) : src.length = c.len := by
  cases c with
  | write addr src =>
    cases h
    rfl
  | storeWord addr word =>
    cases h
    exact LittleEndian.length_encode 4 _
  | writeValue addr value =>
    cases h
    exact FixedBytes.length_toBytes value
  | read => cases h
  | loadWord => cases h
  | readValue => cases h

theorem perform_of_covers (hc : m.Covers c.addr c.len) {bytes : List UInt8}
    (hlen : bytes.length = c.len) (hs : m.Shows c.addr bytes) :
    (m.perform c).1 = .ok (c.answer bytes) := by
  have hread : m.read c.addr c.len = .ok bytes := read_eq_ok_iff.mpr ⟨hc, hlen, hs⟩
  have hwrite {src : List UInt8} (h : c.src? = some src) : (m.write c.addr src).1 = .ok () := by
    rw [write_of_covers (by rwa [length_of_src? h])]
  cases c with
  | read addr len => exact hread
  | write addr src => exact hwrite rfl
  | loadWord addr => exact congrArg (Except.map LittleEndian.decode) hread
  | storeWord addr word => exact hwrite rfl
  | readValue α addr => exact congrArg (Except.map FixedBytes.ofBytes) hread
  | writeValue addr value => exact hwrite rfl

theorem perform_of_not_covers (hc : ¬ m.Covers c.addr c.len) :
    m.perform c = (.error ⟨c.addr⟩, m) := by
  have hread : m.read c.addr c.len = .error ⟨c.addr⟩ := if_neg hc
  have hwrite {src : List UInt8} (h : c.src? = some src) :
      m.write c.addr src = (.error ⟨c.addr⟩, m) := if_neg (by rwa [length_of_src? h])
  cases c with
  | read addr len => exact congrArg (·, m) hread
  | write addr src => exact hwrite rfl
  | loadWord addr => exact congrArg (fun r => (Except.map LittleEndian.decode r, m)) hread
  | storeWord addr word => exact hwrite rfl
  | readValue α addr => exact congrArg (fun r => (Except.map FixedBytes.ofBytes r, m)) hread
  | writeValue addr value => exact hwrite rfl

theorem byteAt?_perform (m : Window) (c : Call) (a : Nat) :
    (m.perform c).2.byteAt? a = (c.laid? m.base m.size a).or (m.byteAt? a) := by
  rw [perform_window, Call.laid?]
  cases hsrc : c.src? with
  | none => simp
  | some src =>
    have hlen := length_of_src? hsrc
    by_cases hc : m.Covers c.addr c.len
    · have hfits : c.Fits m.base m.size := hc
      rw [Option.elim_some, byteAt?_write (by rwa [hlen]), Option.bind_some]
      by_cases hlow : c.addr ≤ a
      · rw [if_pos (⟨hfits, hlow⟩ : _ ∧ _)]
        by_cases hhigh : a < c.addr + src.length
        · rw [if_pos ⟨hlow, hhigh⟩, List.getElem?_eq_getElem (by omega), Option.some_or]
        · rw [if_neg (by omega), List.getElem?_eq_none (by omega), Option.none_or]
      · rw [if_neg (by omega), if_neg (fun h => hlow h.2), Option.none_or]
    · have hfits : ¬ c.Fits m.base m.size := hc
      rw [Option.elim_some, write, if_neg (by rwa [hlen]), if_neg (fun h => hfits h.1),
        Option.none_or]

theorem extent_perform (m : Window) (c : Call) :
    (m.perform c).2.base = m.base ∧ (m.perform c).2.size = m.size := by
  rw [perform_window]
  cases c.src? with
  | none => exact ⟨rfl, rfl⟩
  | some src => exact ⟨base_write, size_write⟩

theorem run_concat (m : Window) (calls : List Call) (c : Call) :
    m.run (calls ++ [c]) = ((m.run calls).perform c).2 := by
  rw [run, List.foldl_append]
  rfl

theorem extent_run (base size : Nat) (calls : List Call) :
    ((zeroed base size).run calls).base = base ∧ ((zeroed base size).run calls).size = size := by
  induction calls using List.reverseRecOn with
  | nil => exact ⟨rfl, Array.size_replicate⟩
  | append_singleton calls c ih =>
    obtain ⟨hbase, hsize⟩ := extent_perform ((zeroed base size).run calls) c
    rw [run_concat]
    exact ⟨hbase.trans ih.1, hsize.trans ih.2⟩

/-- Every cell holds the byte that was laid there last. -/
theorem byteAt?_run (calls : List Call) (hlow : base ≤ a) (hhigh : a - base < size) :
    ((zeroed base size).run calls).byteAt? a = some (lastWritten base size calls a) := by
  induction calls using List.reverseRecOn with
  | nil =>
    change (zeroed base size).byteAt? a = some 0
    rw [zeroed, byteAt?, if_pos hlow, Array.getElem?_replicate, if_pos hhigh]
  | append_singleton calls c ih =>
    obtain ⟨hbase, hsize⟩ := extent_run base size calls
    rw [run_concat, byteAt?_perform, hbase, hsize, ih, lastWritten_concat]
    cases c.laid? base size a <;> rfl

theorem run_shows (calls : List Call) (hc : c.Fits base size) :
    ((zeroed base size).run calls).Shows c.addr
      ((List.range c.len).map fun i => lastWritten base size calls (c.addr + i)) := by
  obtain ⟨hlow, hhigh⟩ := hc
  intro i hi
  rw [List.length_map, List.length_range] at hi
  rw [byteAt?_run calls (by omega) (by omega), List.getElem?_map, List.getElem?_range hi]
  rfl

end Window

namespace Word

variable {a b : UInt64}

def sub? (a b : UInt64) : Option UInt64 :=
  if b.toNat ≤ a.toNat then some (a - b) else none

def cells? (base size addr len : UInt64) : Option (UInt64 × UInt64) :=
  (sub? addr base).bind fun start => (add? start len).bind fun stop =>
    if stop.toNat ≤ size.toNat then some (start, stop) else none

theorem sub?_eq (h : b.toNat ≤ a.toNat) :
    ∃ difference, sub? a b = some difference ∧ difference.toNat = a.toNat - b.toNat :=
  ⟨a - b, if_pos h, UInt64.toNat_sub_of_le _ _ (UInt64.le_iff_toNat_le.mpr h)⟩

theorem cells?_eq (base size addr len : UInt64) :
    (cells? base size addr len).map (fun cells => (cells.1.toNat, cells.2.toNat)) =
      if base.toNat ≤ addr.toNat ∧ addr.toNat - base.toNat + len.toNat ≤ size.toNat then
        some (addr.toNat - base.toNat, addr.toNat - base.toNat + len.toNat)
      else none := by
  have hsize : size.toNat < addressLimit := size.toNat_lt
  by_cases hlow : base.toNat ≤ addr.toNat
  · obtain ⟨start, hstart, hval⟩ := sub?_eq hlow
    rw [cells?, hstart, Option.bind_some]
    by_cases hroom : start.toNat + len.toNat < addressLimit
    · obtain ⟨stop, hstop, hstopval⟩ := add?_eq hroom
      rw [hstop, Option.bind_some, hstopval, hval]
      by_cases hhigh : addr.toNat - base.toNat + len.toNat ≤ size.toNat
      · rw [if_pos hhigh, if_pos ⟨hlow, hhigh⟩, Option.map_some, hval, hstopval, hval]
      · rw [if_neg hhigh, if_neg (fun hfits => hhigh hfits.2), Option.map_none]
    · have hnone : add? start len = none := if_neg hroom
      rw [hnone, Option.bind_none, Option.map_none, if_neg (by omega)]
  · have hnone : sub? addr base = none := if_neg hlow
    rw [cells?, hnone, Option.bind_none, Option.map_none, if_neg (fun hfits => hlow hfits.1)]

end Word

namespace LittleEndian

theorem decode_four (f : Nat → UInt8) :
    decode ((List.range 4).map f) = (f 0).toNat + 256 * (f 1).toNat + 65536 * (f 2).toNat +
      16777216 * (f 3).toNat := by
  change (f 0).toNat + 256 * ((f 1).toNat + 256 * ((f 2).toNat + 256 * ((f 3).toNat + 256 * 0))) = _
  omega

end LittleEndian

namespace Window

theorem lastWritten_storeWord {base size addr i : Nat} (calls : List Call) (word : UInt32)
    (hfits : (Call.storeWord addr word).Fits base size) (hi : i < 4) :
    lastWritten base size (calls ++ [.storeWord addr word]) (addr + i) =
      UInt8.ofNat (word.toNat / 256 ^ i) := by
  have hbyte : (LittleEndian.encode 4 word.toNat)[addr + i - addr]? =
      some (UInt8.ofNat (word.toNat / 256 ^ i % 256)) := by
    rw [Nat.add_sub_cancel_left, LittleEndian.getElem?_encode, if_pos hi]
  have hlaid : (Call.storeWord addr word).laid? base size (addr + i) =
      some (UInt8.ofNat (word.toNat / 256 ^ i % 256)) := by
    rw [Call.laid?, if_pos ⟨hfits, Nat.le_add_right _ _⟩]
    exact hbyte
  rw [lastWritten_concat, hlaid, Option.getD_some]
  exact UInt8.ofNat_mod_size

theorem toBytes_of_readValue {m : Window} {α : Type} [FixedBytes α] {addr : Nat} {value : α}
    (h : m.readValue α addr = .ok value) :
    m.read addr (FixedBytes.width α) = .ok (FixedBytes.toBytes value) := by
  cases hread : m.read addr (FixedBytes.width α) with
  | error e =>
    rw [readValue, hread] at h
    cases h
  | ok bytes =>
    rw [readValue, hread] at h
    cases h
    rw [FixedBytes.toBytes_ofBytes (read_eq_ok_iff.mp hread).2.1]

/-- After any calls an access is granted exactly if all its cells lie in the window. It is answered
from the bytes that were laid there last, zeros where none was; otherwise it fails with its address,
and nothing changes. Words are read and stored low byte first from the same cells, values are their
bytes, and the range is found in 64-bit words exactly if the access fits. -/
theorem memory_gives_back_last_written {base size : UInt64}
    (h : base.toNat + size.toNat ≤ addressLimit) (calls : List Call) (c : Call) :
    let m := (zeroed base.toNat size.toNat).run calls
    let held := lastWritten base.toNat size.toNat calls
    (c.Fits base.toNat size.toNat →
      (m.perform c).1 = .ok (c.answer ((List.range c.len).map fun i => held (c.addr + i))) ∧
        ∀ i, i < c.len → c.addr + i < addressLimit) ∧
    (¬ c.Fits base.toNat size.toNat → m.perform c = (.error ⟨c.addr⟩, m)) ∧
    (c.src? = none → (m.perform c).2 = m) ∧
    (∀ addr, (Call.loadWord addr).Fits base.toNat size.toNat →
      m.loadWord addr = .ok ((held addr).toNat + 256 * (held (addr + 1)).toNat +
        65536 * (held (addr + 2)).toNat + 16777216 * (held (addr + 3)).toNat)) ∧
    (∀ addr word i, (Call.storeWord addr word).Fits base.toNat size.toNat → i < 4 →
      lastWritten base.toNat size.toNat (calls ++ [.storeWord addr word]) (addr + i) =
        UInt8.ofNat (word.toNat / 256 ^ i)) ∧
    (∀ (α : Type) [FixedBytes α] (addr : Nat) (value : α), m.readValue α addr = .ok value →
      m.read addr (FixedBytes.width α) = .ok (FixedBytes.toBytes value)) ∧
    ∀ addr len : UInt64,
      (Word.cells? base size addr len).map (fun cells => (cells.1.toNat, cells.2.toNat)) =
        if (Call.read addr.toNat len.toNat).Fits base.toNat size.toNat then
          some (addr.toNat - base.toNat, addr.toNat - base.toNat + len.toNat)
        else none := by
  intro m held
  obtain ⟨hbase, hsize⟩ := extent_run base.toNat size.toNat calls
  have hcovers (c : Call) : m.Covers c.addr c.len ↔ c.Fits base.toNat size.toNat := by
    rw [Covers, Call.Fits, hbase, hsize]
  have hanswer (c : Call) (hfits : c.Fits base.toNat size.toNat) :
      (m.perform c).1 = .ok (c.answer ((List.range c.len).map fun i => held (c.addr + i))) := by
    apply perform_of_covers ((hcovers c).mpr hfits)
    · rw [List.length_map, List.length_range]
    · exact run_shows calls hfits
  refine ⟨?_, ?_, ?_, ?_, ?_, ?_, ?_⟩
  · intro hfits
    obtain ⟨hlow, hhigh⟩ := id hfits
    refine ⟨hanswer c hfits, ?_⟩
    intro i hi
    omega
  · intro hfits
    exact perform_of_not_covers (mt (hcovers c).mp hfits)
  · intro hsrc
    rw [perform_window, hsrc, Option.elim_none]
  · intro addr hfits
    have hword := hanswer (.loadWord addr) hfits
    exact hword.trans (congrArg Except.ok (LittleEndian.decode_four fun i => held (addr + i)))
  · intro addr word i hfits hi
    exact lastWritten_storeWord calls word hfits hi
  · intro α _ addr value hvalue
    exact toBytes_of_readValue hvalue
  · intro addr len
    exact Word.cells?_eq base size addr len

/-- A word over the end of a block, a value that does not fit, and a word read across all of it, up
to cells that nobody wrote. -/
theorem memory_gives_back_last_written_overlap :
    let calls : List Call := [.write 4096 [1, 2, 3, 4, 5], .storeWord 4098 0xaabbccdd,
      .writeValue 4105 (7 : UInt64), .read 4112 0, .write 4095 [9]]
    let m := (zeroed 4096 16).run calls
    (4096 : UInt64).toNat + (16 : UInt64).toNat ≤ addressLimit ∧
      m.loadWord 4099 = .ok 0xaabbcc ∧
      m.readValue UInt64 4096 = .ok 0xaabbccdd0201 ∧
      m.perform (.storeWord 4109 1) = (.error ⟨4109⟩, m) := by
  intro calls m
  have hlimit : (4096 : UInt64).toNat + (16 : UInt64).toNat ≤ addressLimit := by decide
  obtain ⟨hvalue, -, -, hword, -⟩ :=
    memory_gives_back_last_written hlimit calls (.readValue UInt64 4096)
  obtain ⟨-, hrefused, -⟩ := memory_gives_back_last_written hlimit calls (.storeWord 4109 1)
  refine ⟨hlimit, ?_, ?_, hrefused (by decide)⟩
  · exact (hword 4099 (by decide)).trans (congrArg Except.ok (by decide))
  · have hbytes : (List.range 8).map (fun i => lastWritten 4096 16 calls (4096 + i)) =
        [0x01, 0x02, 0xdd, 0xcc, 0xbb, 0xaa, 0, 0] := by decide
    have hnumber : (FixedBytes.ofBytes [0x01, 0x02, 0xdd, 0xcc, 0xbb, 0xaa, 0, 0] : UInt64) =
        0xaabbccdd0201 := by decide
    rw [← hnumber, ← hbytes]
    exact (hvalue (by decide)).1

end Window

end FrameRing
