import FrameRing.Memory.Host

/-! # What shared memory shows

`Shows` says which bytes lie at an address. A read returns what the window shows, a granted write
makes the window show it, and what a write does not cover is shown as before. -/

namespace FrameRing

namespace Window

variable {m : Window} {addr len : Nat} {bs src : List UInt8}

def Shows (m : Window) (addr : Nat) (bs : List UInt8) : Prop :=
  ∀ i, i < bs.length → m.byteAt? (addr + i) = bs[i]?

theorem byteAt?_of_covers (hc : m.Covers addr len) (i : Nat) :
    m.byteAt? (addr + i) = m.bytes[addr - m.base + i]? := by
  have hb := hc.1
  rw [byteAt?, if_pos (by omega), show addr + i - m.base = addr - m.base + i by omega]

theorem read_eq_ok_iff :
    m.read addr len = .ok bs ↔ m.Covers addr len ∧ bs.length = len ∧ m.Shows addr bs := by
  have hlen (hc : m.Covers addr len) :
      (m.bytes.extract (addr - m.base) (addr - m.base + len)).toList.length = len := by
    have hs : addr - m.base + len ≤ m.bytes.size := hc.2
    rw [Array.length_toList, Array.size_extract]
    omega
  have hget (hc : m.Covers addr len) {i : Nat} (hi : i < len) :
      (m.bytes.extract (addr - m.base) (addr - m.base + len)).toList[i]? =
        m.byteAt? (addr + i) := by
    have hs : addr - m.base + len ≤ m.bytes.size := hc.2
    rw [byteAt?_of_covers hc, Array.getElem?_toList, Array.getElem?_extract, if_pos (by omega)]
  unfold read
  constructor
  · intro h
    split at h
    · rename_i hc
      cases h
      refine ⟨hc, hlen hc, ?_⟩
      intro i hi
      exact (hget hc (hlen hc ▸ hi)).symm
    · cases h
  · rintro ⟨hc, hl, hs⟩
    rw [if_pos hc]
    congr 1
    apply List.ext_getElem?
    intro i
    by_cases hi : i < len
    · rw [hget hc hi, hs i (hl ▸ hi)]
    · rw [List.getElem?_eq_none (by rw [hlen hc]; omega), List.getElem?_eq_none (by omega)]

theorem exists_read (hc : m.Covers addr len) : ∃ bs, m.read addr len = .ok bs := by
  rw [read, if_pos hc]
  exact ⟨_, rfl⟩

theorem Shows.unique {bs' : List UInt8} (h : m.Shows addr bs) (h' : m.Shows addr bs')
    (hl : bs.length = bs'.length) : bs = bs' := by
  apply List.ext_getElem?
  intro i
  by_cases hi : i < bs.length
  · rw [← h i hi, h' i (hl ▸ hi)]
  · rw [List.getElem?_eq_none (by omega), List.getElem?_eq_none (by omega)]

@[simp] theorem base_write : (m.write addr src).2.base = m.base := by
  unfold write
  split <;> rfl

@[simp] theorem size_write : (m.write addr src).2.size = m.size := by
  unfold write
  split
  · exact size_overlay _ _ _
  · rfl

@[simp] theorem covers_write {a : Nat} : (m.write addr src).2.Covers a len ↔ m.Covers a len := by
  simp only [Covers, base_write, size_write]

theorem write_of_covers (hc : m.Covers addr src.length) :
    m.write addr src = (.ok (), (m.write addr src).2) := by
  rw [write, if_pos hc]

theorem byteAt?_write_of_outside {a : Nat} (ho : a < addr ∨ addr + src.length ≤ a) :
    (m.write addr src).2.byteAt? a = m.byteAt? a := by
  by_cases hc : m.Covers addr src.length
  · rw [byteAt?_write hc, if_neg (by omega)]
  · rw [write, if_neg hc]

theorem shows_write (hc : m.Covers addr src.length) : (m.write addr src).2.Shows addr src := by
  intro i hi
  rw [byteAt?_write hc, if_pos (by omega), Nat.add_sub_cancel_left]

theorem Shows.write {a : Nat} (h : m.Shows a bs)
    (ho : a + bs.length ≤ addr ∨ addr + src.length ≤ a) : (m.write addr src).2.Shows a bs := by
  intro i hi
  rw [byteAt?_write_of_outside (by omega), h i hi]

theorem Shows.prefix {pre rest : List UInt8} (h : m.Shows addr (pre ++ rest)) :
    m.Shows addr pre := by
  intro i hi
  rw [h i (by rw [List.length_append]; omega), List.getElem?_append_left hi]

theorem loadWord_eq_ok_iff {word : Nat} (hw : word < 1 <<< 32) :
    m.loadWord addr = .ok word ↔
      m.Covers addr 4 ∧ m.Shows addr (LittleEndian.encode 4 word) := by
  unfold loadWord
  constructor
  · intro h
    cases hr : m.read addr 4 with
    | error e => rw [hr] at h; cases h
    | ok bs =>
      rw [hr] at h
      obtain ⟨hc, hl, hs⟩ := read_eq_ok_iff.mp hr
      have hd : LittleEndian.decode bs = word := by simpa [Except.map] using h
      have he := LittleEndian.encode_decode bs
      rw [hl, hd] at he
      exact ⟨hc, he ▸ hs⟩
  · rintro ⟨hc, hs⟩
    have hr := read_eq_ok_iff.mpr ⟨hc, LittleEndian.length_encode 4 word, hs⟩
    rw [hr, Except.map, LittleEndian.decode_encode, Nat.mod_eq_of_lt (by simpa using hw)]

end Window

namespace HostMemory

variable {m : HostMemory} {addr : Nat} {src : List UInt8}

theorem write_cases (m : HostMemory) (addr : Nat) (src : List UInt8) :
    (∃ e, m.write addr src = (.error e, m)) ∨
      (m.window.Covers addr src.length ∧
        m.write addr src = (.ok (), { m with window := (m.window.write addr src).2 })) := by
  obtain ⟨window, faults⟩ := m
  unfold write
  split
  · exact .inl ⟨_, rfl⟩
  · by_cases hc : window.Covers addr src.length
    · refine .inr ⟨hc, ?_⟩
      simp only [Window.write, if_pos hc]
    · refine .inl ⟨⟨addr⟩, ?_⟩
      simp only [Window.write, if_neg hc]

theorem not_blocked (h : m.faults = []) (kind : AccessKind) (size : Nat) :
    ¬ m.Blocked kind addr size := by
  simp [Blocked, h]

theorem read_healthy (h : m.faults = []) (len : Nat) :
    m.read addr len = m.window.read addr len :=
  if_neg (not_blocked h _ _)

theorem loadWord_healthy (h : m.faults = []) : m.loadWord addr = m.window.loadWord addr :=
  if_neg (not_blocked h _ _)

theorem write_healthy (h : m.faults = []) (hc : m.window.Covers addr src.length) :
    m.write addr src = (.ok (), { m with window := (m.window.write addr src).2 }) := by
  rw [write, if_neg (not_blocked h _ _), Window.write_of_covers hc]

theorem storeWord_healthy (h : m.faults = []) {word : Nat} (hc : m.window.Covers addr 4) :
    m.storeWord addr word =
      (.ok (), { m with window := (m.window.write addr (LittleEndian.encode 4 word)).2 }) := by
  rw [storeWord, if_neg (not_blocked h _ _), Window.storeWord, Window.write_of_covers hc]

end HostMemory

end FrameRing
