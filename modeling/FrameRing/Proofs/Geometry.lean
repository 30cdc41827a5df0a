import FrameRing.Proofs.SourceRing.Queue

/-! # The geometry of a ring

A ring takes as many bytes as were asked for it beforehand: its entries, its head word and its tail
word lie apart from each other, each at a whole word, inside that space. The space ends where
another ring may begin. All of it is computed in 64-bit words, and no step of that wraps. -/

namespace FrameRing

namespace Word

variable {a b n unit : UInt64} {k : Nat}

def add? (a b : UInt64) : Option UInt64 :=
  if a.toNat + b.toNat < addressLimit then some (a + b) else none

def mul? (a b : UInt64) : Option UInt64 :=
  if a.toNat * b.toNat < addressLimit then some (a * b) else none

def alignUp? (n unit : UInt64) : Option UInt64 :=
  (add? n unit).map fun sum => (sum - 1) &&& ~~~(unit - 1)

def headOffset? (numEntries entrySize : UInt64) : Option UInt64 :=
  (mul? numEntries entrySize).bind (alignUp? · 4)

def querySize? (numEntries entrySize : UInt64) : Option UInt64 :=
  ((headOffset? numEntries entrySize).bind (add? · 8)).bind (alignUp? · 32)

def headAddr? (base numEntries entrySize : UInt64) : Option UInt64 :=
  (headOffset? numEntries entrySize).bind (add? base)

def tailAddr? (base numEntries entrySize : UInt64) : Option UInt64 :=
  ((headOffset? numEntries entrySize).bind (add? · 4)).bind (add? base)

def entryAddr? (base entrySize idx : UInt64) : Option UInt64 :=
  (mul? idx entrySize).bind (add? base)

theorem add?_eq (h : a.toNat + b.toNat < addressLimit) :
    ∃ sum, add? a b = some sum ∧ sum.toNat = a.toNat + b.toNat := by
  refine ⟨a + b, if_pos h, ?_⟩
  rw [UInt64.toNat_add]
  exact Nat.mod_eq_of_lt h

theorem mul?_eq (h : a.toNat * b.toNat < addressLimit) :
    ∃ product, mul? a b = some product ∧ product.toNat = a.toNat * b.toNat := by
  refine ⟨a * b, if_pos h, ?_⟩
  rw [UInt64.toNat_mul]
  exact Nat.mod_eq_of_lt h

theorem and_highMask {x : Nat} (hx : x < 2 ^ 64) (hk : k ≤ 64) :
    x &&& (2 ^ 64 - 2 ^ k) = x / 2 ^ k * 2 ^ k := by
  have hpos : 0 < 2 ^ k := Nat.two_pow_pos k
  have hle : 2 ^ k ≤ 2 ^ 64 := Nat.pow_le_pow_right (by decide) hk
  have hmask : 2 ^ 64 - 2 ^ k = 2 ^ 64 - (2 ^ k - 1 + 1) := by omega
  apply Nat.eq_of_testBit_eq
  intro i
  rw [hmask, Nat.testBit_and, Nat.testBit_two_pow_sub_succ (by omega),
    Nat.testBit_two_pow_sub_one, Nat.testBit_mul_two_pow, Nat.testBit_div_two_pow]
  by_cases hi : i < k
  · simp [hi, Nat.not_le.mpr hi]
  · have hback : i - k + k = i := by omega
    by_cases htop : i < 64
    · simp [hi, Nat.le_of_not_lt hi, htop, hback]
    · have hbit : x.testBit i = false :=
        Nat.testBit_lt_two_pow (Nat.lt_of_lt_of_le hx (Nat.pow_le_pow_right (by decide) (by omega)))
      simp [htop, hbit, hback]

theorem alignUp?_eq (hk : k < 64) (hunit : unit.toNat = 2 ^ k)
    (h : n.toNat + unit.toNat < addressLimit) :
    ∃ w, alignUp? n unit = some w ∧ w.toNat = alignUp n.toNat unit.toNat := by
  have hpos : 0 < 2 ^ k := Nat.two_pow_pos k
  obtain ⟨sum, hsum, hval⟩ := add?_eq h
  have hone : (1 : UInt64).toNat = 1 := rfl
  -- neither subtraction wraps: a power of two is at least one, and so is the sum
  have hlow : (sum - 1).toNat = n.toNat + unit.toNat - 1 := by
    have hle : (1 : UInt64) ≤ sum := by
      rw [UInt64.le_iff_toNat_le]
      omega
    rw [UInt64.toNat_sub_of_le _ _ hle, hval, hone]
  have hmask : (~~~(unit - 1)).toNat = 2 ^ 64 - 2 ^ k := by
    have hle : (1 : UInt64) ≤ unit := by
      rw [UInt64.le_iff_toNat_le]
      omega
    have hsize : UInt64.size = 2 ^ 64 := rfl
    rw [UInt64.toNat_not, UInt64.toNat_sub_of_le _ _ hle, hunit, hone, hsize]
    omega
  refine ⟨(sum - 1) &&& ~~~(unit - 1), by rw [alignUp?, hsum]; rfl, ?_⟩
  have hlt : n.toNat + unit.toNat - 1 < 2 ^ 64 := Nat.lt_of_le_of_lt (Nat.sub_le _ _) h
  rw [UInt64.toNat_and, hlow, hmask, and_highMask hlt (Nat.le_of_lt hk), alignUp, hunit]

end Word

theorem alignUp_mod (n unit : Nat) : alignUp n unit % unit = 0 :=
  Nat.mul_mod_left _ _

theorem alignUp_lt (n : Nat) {unit : Nat} (h : 0 < unit) : alignUp n unit < n + unit := by
  have hle := Nat.div_mul_le_self (n + unit - 1) unit
  rw [alignUp]
  omega

namespace RingLayout

variable {l : RingLayout} {base n stride : Nat}

theorem headOffset_mod (n stride : Nat) : headOffset n stride % 4 = 0 :=
  alignUp_mod _ 4

theorem querySize_mod (n stride : Nat) : querySize n stride % baseAlign = 0 :=
  alignUp_mod _ baseAlign

/-- What is added for rounding and for the pointer words is less than what 32-bit factors leave
free below the limit. -/
theorem space_lt (hn : n < 1 <<< 32) (hs : stride < 1 <<< 32) :
    n * stride + 4 + 8 + 32 < addressLimit := by
  have hmul := Nat.mul_le_mul (Nat.le_pred_of_lt hn) (Nat.le_pred_of_lt hs)
  have hlimit : Nat.pred (1 <<< 32) * Nat.pred (1 <<< 32) + 4 + 8 + 32 < addressLimit := by decide
  omega

theorem headOffset_word (hn : n < 1 <<< 32) (hs : stride < 1 <<< 32) :
    ∃ w, Word.headOffset? (.ofNat n) (.ofNat stride) = some w ∧ w.toNat = headOffset n stride := by
  have hspace := space_lt hn hs
  have hwide : (1 <<< 32 : Nat) < 2 ^ 64 := by decide
  have hnw : (UInt64.ofNat n).toNat = n := UInt64.toNat_ofNat_of_lt' (Nat.lt_trans hn hwide)
  have hsw : (UInt64.ofNat stride).toNat = stride :=
    UInt64.toNat_ofNat_of_lt' (Nat.lt_trans hs hwide)
  obtain ⟨product, hproduct, hval⟩ :=
    Word.mul?_eq (a := .ofNat n) (b := .ofNat stride) (by rw [hnw, hsw]; omega)
  rw [hnw, hsw] at hval
  have hunit : (4 : UInt64).toNat = 2 ^ 2 := rfl
  obtain ⟨w, hw, halign⟩ := Word.alignUp?_eq (n := product) (by decide) hunit (by omega)
  refine ⟨w, by rw [Word.headOffset?, hproduct]; exact hw, ?_⟩
  rw [halign, hval]
  rfl

theorem headOffset_lt (n stride : Nat) : headOffset n stride < n * stride + 4 :=
  alignUp_lt _ (by decide)

theorem querySize_word (hn : n < 1 <<< 32) (hs : stride < 1 <<< 32) :
    ∃ w, Word.querySize? (.ofNat n) (.ofNat stride) = some w ∧ w.toNat = querySize n stride := by
  have hspace := space_lt hn hs
  have hoffset := headOffset_lt n stride
  obtain ⟨head, hhead, hval⟩ := headOffset_word hn hs
  have height : (8 : UInt64).toNat = 8 := rfl
  obtain ⟨sum, hsum, hsumval⟩ := Word.add?_eq (a := head) (b := 8) (by omega)
  have hunit : (32 : UInt64).toNat = 2 ^ 5 := rfl
  obtain ⟨w, hw, halign⟩ := Word.alignUp?_eq (n := sum) (by decide) hunit (by omega)
  refine ⟨w, by rw [Word.querySize?, hhead, Option.bind_some, hsum]; exact hw, ?_⟩
  rw [halign, hsumval, hval]
  rfl

theorem address_word {w : UInt64} (h : base + w.toNat < addressLimit) :
    (Word.add? (.ofNat base) w).map UInt64.toNat = some (base + w.toNat) := by
  have hbase : (UInt64.ofNat base).toNat = base :=
    UInt64.toNat_ofNat_of_lt' (Nat.lt_of_le_of_lt (Nat.le_add_right _ _) h)
  obtain ⟨sum, hsum, hval⟩ := Word.add?_eq (a := .ofNat base) (b := w) (by rwa [hbase])
  rw [hsum, Option.map_some, hval, hbase]

inductive Part where
  | entry (idx : Nat)
  | head
  | tail
  deriving DecidableEq, Repr

def place? (l : RingLayout) : Part → Option Allocation
  | .entry idx => (l.entryAddr? idx).map (⟨·, RingEntry.size⟩)
  | .head => some ⟨l.headAddr, wordSize⟩
  | .tail => some ⟨l.tailAddr, wordSize⟩

/-- The parts of a ring lie at whole words, apart from each other, inside a space. -/
structure Spread (l : RingLayout) (space : Allocation) : Prop where
  aligned : ∀ part a, l.place? part = some a → a.addr % 4 = 0
  apart : ∀ part other a b, part ≠ other → l.place? part = some a → l.place? other = some b →
    a.addr + a.len ≤ b.addr ∨ b.addr + b.len ≤ a.addr
  within : ∀ part a, l.place? part = some a →
    space.addr ≤ a.addr ∧ a.addr + a.len ≤ space.addr + space.len

theorem place?_entry {idx : Nat} {a : Allocation} (h : l.place? (.entry idx) = some a) :
    l.entryAddr? idx = some a.addr ∧ a.len = RingEntry.size := by
  obtain ⟨addr, haddr, rfl⟩ := Option.map_eq_some_iff.mp h
  exact ⟨haddr, rfl⟩

variable {space : Allocation}

theorem Inside.entry_before (h : l.Inside space) {idx : Nat} {a : Allocation}
    (ha : l.place? (.entry idx) = some a) :
    space.addr ≤ a.addr ∧ a.addr + a.len ≤ l.headAddr := by
  obtain ⟨haddr, hlen⟩ := place?_entry ha
  obtain ⟨hidx, hpos⟩ := entryAddr?_eq_some haddr
  rw [hlen, hpos]
  exact h.entry hidx

theorem Inside.entryAddr?_isSome (h : l.Inside space) (idx : Nat) :
    (l.entryAddr? idx).isSome ↔ idx < l.numEntries := by
  constructor
  · intro hsome
    obtain ⟨addr, haddr⟩ := Option.isSome_iff_exists.mp hsome
    exact (entryAddr?_eq_some haddr).1
  · intro hidx
    rw [h.entryAddr? hidx, Option.isSome_some]

/-- A stride of whole words keeps every part at a whole word. -/
theorem Inside.aligned (h : l.Inside space) (hbase : l.baseAddr % 4 = 0) (part : Part)
    (a : Allocation) (ha : l.place? part = some a) : a.addr % 4 = 0 := by
  have hoffset := headOffset_mod l.numEntries l.entrySize
  have hhead := h.head
  obtain ⟨-, htail, -⟩ := h.words
  cases part with
  | entry idx =>
    obtain ⟨haddr, -⟩ := place?_entry ha
    obtain ⟨-, hpos⟩ := entryAddr?_eq_some haddr
    have hstride : l.entrySize % 4 = 0 := h.stride.2
    have hmul : idx * l.entrySize % 4 = 0 :=
      Nat.mod_eq_zero_of_dvd (Nat.dvd_mul_left_of_dvd (Nat.dvd_of_mod_eq_zero hstride) idx)
    omega
  | head =>
    cases ha
    simp only
    omega
  | tail =>
    cases ha
    simp only
    omega

theorem Inside.within (h : l.Inside space) (part : Part) (a : Allocation)
    (ha : l.place? part = some a) :
    space.addr ≤ a.addr ∧ a.addr + a.len ≤ space.addr + space.len := by
  have hsize : wordSize = 4 := rfl
  obtain ⟨hlow, htail, hstop⟩ := h.words
  cases part with
  | entry idx =>
    have hentry := h.entry_before ha
    omega
  | head =>
    cases ha
    simp only
    omega
  | tail =>
    cases ha
    simp only
    omega

theorem Inside.apart (h : l.Inside space) (part other : Part) (a b : Allocation)
    (hne : part ≠ other) (ha : l.place? part = some a) (hb : l.place? other = some b) :
    a.addr + a.len ≤ b.addr ∨ b.addr + b.len ≤ a.addr := by
  have hsize : wordSize = 4 := rfl
  obtain ⟨-, htail, -⟩ := h.words
  cases part with
  | entry i =>
    have hi := h.entry_before ha
    cases other with
    | entry j =>
      obtain ⟨hia, hilen⟩ := place?_entry ha
      obtain ⟨hjb, hjlen⟩ := place?_entry hb
      have hij : i ≠ j := fun heq => hne (congrArg Part.entry heq)
      have hstrides := entries_apart h.stride hij hia hjb
      rwa [hilen, hjlen]
    | head =>
      cases hb
      exact .inl hi.2
    | tail =>
      cases hb
      simp only
      omega
  | head =>
    cases ha
    cases other with
    | entry j =>
      have hj := h.entry_before hb
      exact .inr hj.2
    | head => exact absurd rfl hne
    | tail =>
      cases hb
      simp only
      omega
  | tail =>
    cases ha
    cases other with
    | entry j =>
      have hj := h.entry_before hb
      simp only
      omega
    | head =>
      cases hb
      simp only
      omega
    | tail => exact absurd rfl hne

theorem Inside.spread (h : l.Inside space) (hbase : l.baseAddr % 4 = 0) : l.Spread space :=
  ⟨h.aligned hbase, h.apart, h.within⟩

theorem ofBase_eq_ok_iff :
    ofBase base n stride = .ok l ↔ (base % baseAlign = 0 ∧ StrideOk stride) ∧
      l = ⟨base, n, stride, base + headOffset n stride, base + headOffset n stride + wordSize⟩ := by
  unfold ofBase
  split
  · rename_i hok
    simp only [Except.ok.injEq]
    exact ⟨fun heq => ⟨hok, heq.symm⟩, fun h => h.2.symm⟩
  · rename_i hbad
    simp only [reduceCtorEq, false_iff]
    exact fun h => hbad h.1

structure Computed (l : RingLayout) : Prop where
  head : (Word.headAddr? (.ofNat l.baseAddr) (.ofNat l.numEntries)
    (.ofNat l.entrySize)).map UInt64.toNat = some l.headAddr
  tail : (Word.tailAddr? (.ofNat l.baseAddr) (.ofNat l.numEntries)
    (.ofNat l.entrySize)).map UInt64.toNat = some l.tailAddr
  entry : ∀ idx, idx < l.numEntries → (Word.entryAddr? (.ofNat l.baseAddr) (.ofNat l.entrySize)
    (.ofNat idx)).map UInt64.toNat = l.entryAddr? idx

theorem Inside.computed (h : l.Inside space) (hn : l.numEntries < 1 <<< 32)
    (hs : l.entrySize < 1 <<< 32) : l.Computed := by
  have hsize : wordSize = 4 := rfl
  have hspace := space_lt hn hs
  have hoffset := headOffset_lt l.numEntries l.entrySize
  have hhead := h.head
  have hstop := h.stop
  have hlimit := h.limit
  obtain ⟨-, htail, -⟩ := h.words
  obtain ⟨head, hword, hval⟩ := headOffset_word hn hs
  refine ⟨?_, ?_, ?_⟩
  · rw [Word.headAddr?, hword, Option.bind_some, address_word (by omega), hval, ← hhead]
  · have hfour : (4 : UInt64).toNat = 4 := rfl
    obtain ⟨sum, hsum, hsumval⟩ := Word.add?_eq (a := head) (b := 4) (by omega)
    rw [Word.tailAddr?, hword, Option.bind_some, hsum, Option.bind_some,
      address_word (by omega), hsumval, hval, htail, hhead, hfour, Nat.add_assoc]
  · intro idx hidx
    have hwide : (1 <<< 32 : Nat) < 2 ^ 64 := by decide
    have hbelow := (h.entry hidx).2
    have hiw : (UInt64.ofNat idx).toNat = idx :=
      UInt64.toNat_ofNat_of_lt' (Nat.lt_trans (Nat.lt_trans hidx hn) hwide)
    have hsw : (UInt64.ofNat l.entrySize).toNat = l.entrySize :=
      UInt64.toNat_ofNat_of_lt' (Nat.lt_trans hs hwide)
    rw [positionAddr] at hbelow
    obtain ⟨product, hproduct, hprodval⟩ :=
      Word.mul?_eq (a := .ofNat idx) (b := .ofNat l.entrySize) (by rw [hiw, hsw]; omega)
    rw [hiw, hsw] at hprodval
    rw [Word.entryAddr?, hproduct, Option.bind_some, address_word (by omega), hprodval,
      h.entryAddr? hidx, positionAddr]

/-- A ring that starts at an aligned base lies in the space that it asked for. -/
theorem spread_of_ofBase (h : ofBase base n stride = .ok l)
    (hlim : base + querySize n stride ≤ addressLimit) :
    l.Inside ⟨base, querySize n stride⟩ ∧ l.Spread ⟨base, querySize n stride⟩ := by
  have hinside : l.Inside ⟨base, querySize n stride⟩ := inside_of_ofBase h (Nat.le_refl _) hlim
  obtain ⟨⟨hbase, -⟩, rfl⟩ := ofBase_eq_ok_iff.mp h
  have hbase' : base % 32 = 0 := hbase
  exact ⟨hinside, hinside.spread (by simp only; omega)⟩

/-- The space that a ring asks for is computed without wrapping, and a ring fits in there exactly
if it starts at a multiple of 32 and its entries are whole words that hold all their fields: every
entry and both pointer words have a place of their own, and no address wraps either. Another ring
may start where the space ends. -/
theorem layout_fits_its_space {n stride : Nat} (hn : n < 1 <<< 32) (hs : stride < 1 <<< 32) :
    let size := querySize n stride
    ((Word.querySize? (.ofNat n) (.ofNat stride)).map UInt64.toNat = some size ∧
      size % 32 = 0) ∧
    ∀ base, base + size ≤ 1 <<< 64 →
      ((∃ l, ofBase base n stride = .ok l) ↔ base % 32 = 0 ∧ 8 ≤ stride ∧ stride % 4 = 0) ∧
      ∀ l, ofBase base n stride = .ok l →
        l.Computed ∧ (∀ idx, (l.entryAddr? idx).isSome ↔ idx < n) ∧
        l.Spread ⟨base, size⟩ ∧
        (∀ idx a, l.place? (.entry idx) = some a → a.len = 8 ∧ a.addr + 8 ≤ l.headAddr) ∧
        l.tailAddr = l.headAddr + 4 ∧
        ∀ n' stride', StrideOk stride' → base + size + querySize n' stride' ≤ 1 <<< 64 →
          ∃ l', ofBase (base + size) n' stride' = .ok l' ∧
            l'.Spread ⟨base + size, querySize n' stride'⟩ ∧
            ∀ part part' a b, l.place? part = some a → l'.place? part' = some b →
              a.addr + a.len ≤ b.addr := by
  intro size
  have hround : size % 32 = 0 := querySize_mod n stride
  refine ⟨⟨?_, hround⟩, ?_⟩
  · obtain ⟨w, hw, hval⟩ := querySize_word hn hs
    rw [hw, Option.map_some, hval]
  intro base hlim
  refine ⟨?_, ?_⟩
  · constructor
    · rintro ⟨l, hl⟩
      exact (ofBase_eq_ok_iff.mp hl).1
    · intro hok
      exact ⟨_, ofBase_eq_ok_iff.mpr ⟨hok, rfl⟩⟩
  intro l hl
  obtain ⟨hinside, hspread⟩ := spread_of_ofBase hl hlim
  obtain ⟨⟨hbase, -⟩, hshape⟩ := ofBase_eq_ok_iff.mp hl
  have hentries : l.numEntries = n := by rw [hshape]
  have hstride : l.entrySize = stride := by rw [hshape]
  refine ⟨?_, ?_, hspread, ?_, ?_, ?_⟩
  · exact hinside.computed (hentries ▸ hn) (hstride ▸ hs)
  · intro idx
    rw [hinside.entryAddr?_isSome, hentries]
  · intro idx a ha
    have hlen : a.len = 8 := (place?_entry ha).2
    have hbefore := (hinside.entry_before ha).2
    rw [hlen] at hbefore
    exact ⟨hlen, hbefore⟩
  · exact hinside.words.2.1
  · intro n' stride' hok hlim'
    have haligned : (base + size) % 32 = 0 := by
      have hbase' : base % 32 = 0 := hbase
      omega
    obtain ⟨l', hl'⟩ : ∃ l', ofBase (base + size) n' stride' = .ok l' :=
      ⟨_, ofBase_eq_ok_iff.mpr ⟨⟨haligned, hok⟩, rfl⟩⟩
    obtain ⟨-, hspread'⟩ := spread_of_ofBase hl' hlim'
    refine ⟨l', hl', hspread', ?_⟩
    intro part part' a b ha hb
    exact Nat.le_trans (hspread.within part a ha).2 (hspread'.within part' b hb).1

/-- The largest ring there can be, and a small one behind it that ends at the last address. -/
theorem layout_fits_its_space_largest :
    let n := (1 <<< 32) - 1
    let stride := (1 <<< 32) - 4
    let size := querySize n stride
    (Word.querySize? (.ofNat n) (.ofNat stride)).map UInt64.toNat = some size ∧
      ∃ l l', ofBase ((1 <<< 64) - size - 64) n stride = .ok l ∧
        ofBase ((1 <<< 64) - 64) 4 12 = .ok l' ∧
        l'.place? .tail = some ⟨(1 <<< 64) - 12, 4⟩ ∧
        ∀ part part' a b, l.place? part = some a → l'.place? part' = some b →
          a.addr + a.len ≤ b.addr := by
  intro n stride size
  have hn : n < 1 <<< 32 := by decide
  have hs : stride < 1 <<< 32 := by decide
  obtain ⟨⟨hsize, -⟩, hfits⟩ := layout_fits_its_space hn hs
  obtain ⟨hiff, hgeometry⟩ := hfits ((1 <<< 64) - size - 64) (by decide)
  obtain ⟨l, hl⟩ := hiff.mpr ⟨by decide, by decide, by decide⟩
  obtain ⟨-, -, -, -, -, hnext⟩ := hgeometry l hl
  obtain ⟨l', hl', -, hbehind⟩ := hnext 4 12 (by decide) (by decide)
  have hstart : (1 <<< 64) - size - 64 + size = (1 <<< 64) - 64 := by decide
  rw [hstart] at hl'
  refine ⟨hsize, l, l', hl, hl', ?_, hbehind⟩
  obtain ⟨-, rfl⟩ := ofBase_eq_ok_iff.mp hl'
  decide

end RingLayout

end FrameRing
