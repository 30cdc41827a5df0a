import FrameRing.Cursor
import Mathlib.Data.List.Count
import Mathlib.Data.List.Induction

/-! # Cursors and counters

A cursor holds two positions. It counts no turns, so what its positions say about the moves made
since the last reset is known modulo the size only. All sums fit into 32 bits as long as the size
is at most half of their range. -/

namespace FrameRing

namespace HalfWord

variable {a b : UInt32}

def add? (a b : UInt32) : Option UInt32 :=
  if a.toNat + b.toNat < 1 <<< 32 then some (a + b) else none

def sub? (a b : UInt32) : Option UInt32 :=
  if b.toNat ≤ a.toNat then some (a - b) else none

def mod? (a b : UInt32) : Option UInt32 :=
  if b.toNat = 0 then none else some (a % b)

theorem add?_eq (h : a.toNat + b.toNat < 1 <<< 32) :
    ∃ sum, add? a b = some sum ∧ sum.toNat = a.toNat + b.toNat := by
  refine ⟨a + b, if_pos h, ?_⟩
  rw [UInt32.toNat_add]
  exact Nat.mod_eq_of_lt h

theorem sub?_eq (h : b.toNat ≤ a.toNat) :
    ∃ difference, sub? a b = some difference ∧ difference.toNat = a.toNat - b.toNat :=
  ⟨a - b, if_pos h, UInt32.toNat_sub_of_le _ _ (UInt32.le_iff_toNat_le.mpr h)⟩

theorem mod?_eq (h : 0 < b.toNat) :
    ∃ remainder, mod? a b = some remainder ∧ remainder.toNat = a.toNat % b.toNat :=
  ⟨a % b, if_neg (Nat.ne_of_gt h), UInt32.toNat_mod a b⟩

end HalfWord

namespace RingCursor

inductive Move where
  | write
  | read
  | reset
  deriving DecidableEq, Repr

def move (c : RingCursor) : Move → RingCursor
  | .write => c.advanceWrite
  | .read => c.advanceRead
  | .reset => c.reset

def walk (c : RingCursor) (moves : List Move) : RingCursor :=
  moves.foldl move c

def sinceReset (moves : List Move) : List Move :=
  moves.reverse.takeWhile (· ≠ .reset)

def after (size writes reads : Nat) : RingCursor :=
  ⟨writes % size, reads % size, size⟩

variable {size writes reads : Nat} {moves : List Move}

theorem walk_concat (c : RingCursor) (moves : List Move) (m : Move) :
    c.walk (moves ++ [m]) = (c.walk moves).move m := by
  rw [walk, List.foldl_append]
  rfl

theorem sinceReset_concat (moves : List Move) (m : Move) :
    sinceReset (moves ++ [m]) = if m = .reset then [] else m :: sinceReset moves := by
  rw [sinceReset, List.reverse_append, List.reverse_singleton, List.singleton_append,
    List.takeWhile_cons]
  by_cases h : m = .reset
  · rw [if_pos h, if_neg (by simpa using h)]
  · rw [if_neg h, if_pos (by simpa using h), sinceReset]

theorem move_write : (after size writes reads).move .write = after size (writes + 1) reads := by
  simp only [move, advanceWrite, after, Nat.mod_add_mod]

theorem move_read : (after size writes reads).move .read = after size writes (reads + 1) := by
  simp only [move, advanceRead, after, Nat.mod_add_mod]

theorem move_reset : (after size writes reads).move .reset = after size 0 0 := by
  simp only [move, reset, after, Nat.zero_mod]

/-- A walk ends where the moves since its last reset lead to. -/
theorem walk_eq_after (size : Nat) (moves : List Move) :
    (ofSize size).walk moves =
      after size ((sinceReset moves).count .write) ((sinceReset moves).count .read) := by
  induction moves using List.reverseRecOn with
  | nil => simp [walk, ofSize, after, sinceReset]
  | append_singleton moves m ih =>
    rw [walk_concat, sinceReset_concat, ih]
    cases m with
    | write =>
      rw [if_neg (by decide), List.count_cons_self, List.count_cons_of_ne (by decide)]
      exact move_write
    | read =>
      rw [if_neg (by decide), List.count_cons_self, List.count_cons_of_ne (by decide)]
      exact move_read
    | reset => exact move_reset

theorem outstanding_after (h : 0 < size) (writes reads : Nat) :
    ((after size writes reads).outstanding : Int) = ((writes : Int) - reads) % size := by
  have hread : reads % size ≤ writes % size + size :=
    Nat.le_trans (Nat.le_of_lt (Nat.mod_lt _ h)) (Nat.le_add_left _ _)
  have hswap : (writes : Int) % size + size - (reads : Int) % size =
      (writes : Int) % size - (reads : Int) % size + size := by omega
  calc ((after size writes reads).outstanding : Int)
      = ((writes : Int) % size + size - (reads : Int) % size) % size := by
        rw [outstanding, after, Int.natCast_emod, Int.natCast_sub hread, Int.natCast_add,
          Int.natCast_emod, Int.natCast_emod]
    _ = ((writes : Int) % size - (reads : Int) % size) % size := by
        rw [hswap, Int.add_emod_right]
    _ = ((writes : Int) - reads) % size := (Int.sub_emod _ _ _).symm

theorem outstanding_exact (h : 0 < size) (hle : reads ≤ writes) (hlt : writes < reads + size) :
    (after size writes reads).outstanding = writes - reads := by
  have hresidue := outstanding_after h writes reads
  rw [Int.emod_eq_of_lt (by omega) (by omega)] at hresidue
  omega

end RingCursor

/-- A cursor as the machine keeps it. No move is made if a sum or a difference would wrap. -/
structure CursorWords where
  writeIdx : UInt32
  readIdx : UInt32
  size : UInt32
  deriving DecidableEq, Repr

namespace CursorWords

open RingCursor (Move)

def ofSize (size : UInt32) : CursorWords := ⟨0, 0, size⟩

def step? (idx size : UInt32) : Option UInt32 :=
  (HalfWord.add? idx 1).bind (HalfWord.mod? · size)

def move? (w : CursorWords) : Move → Option CursorWords
  | .write => (step? w.writeIdx w.size).map fun idx => { w with writeIdx := idx }
  | .read => (step? w.readIdx w.size).map fun idx => { w with readIdx := idx }
  | .reset => some { w with writeIdx := 0, readIdx := 0 }

def walk? (w : CursorWords) (moves : List Move) : Option CursorWords :=
  moves.foldlM move? w

def outstanding? (w : CursorWords) : Option UInt32 :=
  ((HalfWord.add? w.writeIdx w.size).bind (HalfWord.sub? · w.readIdx)).bind
    (HalfWord.mod? · w.size)

def toCursor (w : CursorWords) : RingCursor :=
  ⟨w.writeIdx.toNat, w.readIdx.toNat, w.size.toNat⟩

structure Bounded (w : CursorWords) : Prop where
  write_lt : w.writeIdx.toNat < w.size.toNat
  read_lt : w.readIdx.toNat < w.size.toNat
  size_le : w.size.toNat ≤ 1 <<< 31

variable {w : CursorWords} {idx size : UInt32}

theorem step?_eq (hlt : idx.toNat < size.toNat) (hsize : size.toNat ≤ 1 <<< 31) :
    ∃ next, step? idx size = some next ∧ next.toNat = (idx.toNat + 1) % size.toNat ∧
      next.toNat < size.toNat := by
  have hpos : 0 < size.toNat := Nat.zero_lt_of_lt hlt
  have hone : (1 : UInt32).toNat = 1 := rfl
  have hroom : idx.toNat + (1 : UInt32).toNat < 1 <<< 32 := by
    simp only [Nat.reduceShiftLeft] at hsize ⊢
    omega
  obtain ⟨sum, hsum, hval⟩ := HalfWord.add?_eq hroom
  obtain ⟨next, hnext, hrem⟩ := HalfWord.mod?_eq (a := sum) hpos
  refine ⟨next, by rw [step?, hsum]; exact hnext, by rw [hrem, hval, hone], ?_⟩
  rw [hrem]
  exact Nat.mod_lt _ hpos

theorem move?_eq (h : w.Bounded) (m : Move) :
    ∃ w', w.move? m = some w' ∧ w'.Bounded ∧ w'.toCursor = w.toCursor.move m := by
  cases m with
  | write =>
    obtain ⟨next, hnext, hval, hlt⟩ := step?_eq h.write_lt h.size_le
    refine ⟨{ w with writeIdx := next }, by rw [move?, hnext]; rfl,
      { h with write_lt := hlt }, ?_⟩
    simp only [toCursor, RingCursor.move, RingCursor.advanceWrite, hval]
  | read =>
    obtain ⟨next, hnext, hval, hlt⟩ := step?_eq h.read_lt h.size_le
    refine ⟨{ w with readIdx := next }, by rw [move?, hnext]; rfl,
      { h with read_lt := hlt }, ?_⟩
    simp only [toCursor, RingCursor.move, RingCursor.advanceRead, hval]
  | reset =>
    have hpos : (0 : UInt32).toNat < w.size.toNat := Nat.zero_lt_of_lt h.write_lt
    exact ⟨{ w with writeIdx := 0, readIdx := 0 }, rfl,
      { h with write_lt := hpos, read_lt := hpos }, rfl⟩

theorem walk?_eq (h : w.Bounded) (moves : List Move) :
    ∃ w', w.walk? moves = some w' ∧ w'.Bounded ∧ w'.toCursor = w.toCursor.walk moves := by
  induction moves generalizing w with
  | nil => exact ⟨w, rfl, h, rfl⟩
  | cons m moves ih =>
    obtain ⟨next, hnext, hbounded, hcursor⟩ := move?_eq h m
    obtain ⟨w', hw', hbounded', hcursor'⟩ := ih hbounded
    refine ⟨w', ?_, hbounded', ?_⟩
    · rw [walk?, List.foldlM_cons, hnext]
      exact hw'
    · rw [hcursor', hcursor]
      rfl

theorem outstanding?_eq (h : w.Bounded) :
    w.outstanding?.map UInt32.toNat = some w.toCursor.outstanding := by
  have hwrite := h.write_lt
  have hread := h.read_lt
  have hsize := h.size_le
  have hroom : w.writeIdx.toNat + w.size.toNat < 1 <<< 32 := by
    simp only [Nat.reduceShiftLeft] at hsize ⊢
    omega
  obtain ⟨sum, hsum, hsumval⟩ := HalfWord.add?_eq hroom
  obtain ⟨difference, hsub, hsubval⟩ := HalfWord.sub?_eq (a := sum) (b := w.readIdx) (by omega)
  obtain ⟨remainder, hmod, hmodval⟩ :=
    HalfWord.mod?_eq (a := difference) (Nat.zero_lt_of_lt hwrite)
  rw [outstanding?, hsum, Option.bind_some, hsub, Option.bind_some, hmod, Option.map_some, hmodval,
    hsubval, hsumval]
  rfl

theorem bounded_ofSize {size : Nat} (hpos : 1 ≤ size) (hsize : size ≤ 1 <<< 31) :
    (ofSize (.ofNat size)).Bounded ∧ (ofSize (.ofNat size)).toCursor = .ofSize size := by
  have hval : (UInt32.ofNat size).toNat = size :=
    UInt32.toNat_ofNat_of_lt' (Nat.lt_of_le_of_lt hsize (by decide))
  have hzero : (0 : UInt32).toNat = 0 := rfl
  constructor
  · constructor
    · rw [ofSize, hval, hzero]
      exact hpos
    · rw [ofSize, hval, hzero]
      exact hpos
    · rw [ofSize, hval]
      exact hsize
  · simp only [ofSize, toCursor, RingCursor.ofSize, hval, hzero]

end CursorWords

namespace RingCursor

/-- Both positions are the numbers of writes and reads since the last reset, modulo the size. What
is outstanding is their difference modulo the size, and the difference itself as long as the writes
lead by less than a turn. The machine makes every move of this without a wrapped sum. -/
theorem walk_counts_moves {size : Nat} (hpos : 1 ≤ size) (hsize : size ≤ 1 <<< 31)
    (moves : List Move) :
    let c := (ofSize size).walk moves
    let writes := (sinceReset moves).count .write
    let reads := (sinceReset moves).count .read
    c.writeIdx = writes % size ∧ c.readIdx = reads % size ∧
    (c.outstanding : Int) = ((writes : Int) - reads) % size ∧
    (reads ≤ writes → writes < reads + size → c.outstanding = writes - reads) ∧
    ∃ w, (CursorWords.ofSize (.ofNat size)).walk? moves = some w ∧ w.toCursor = c ∧
      w.outstanding?.map UInt32.toNat = some c.outstanding := by
  intro c writes reads
  have hc : c = after size writes reads := walk_eq_after size moves
  obtain ⟨hbounded, hstart⟩ := CursorWords.bounded_ofSize hpos hsize
  obtain ⟨w, hw, hin, hcursor⟩ := CursorWords.walk?_eq hbounded moves
  rw [hstart] at hcursor
  refine ⟨by rw [hc]; rfl, by rw [hc]; rfl, ?_, ?_, w, hw, hcursor, ?_⟩
  · rw [hc]
    exact outstanding_after hpos writes reads
  · intro hle hlt
    rw [hc]
    exact outstanding_exact hpos hle hlt
  · rw [CursorWords.outstanding?_eq hin, hcursor]

/-- A reset in between, then a lap on which the writes have passed the end and the reads have
not. -/
theorem walk_counts_moves_lap :
    let moves : List Move := [.read, .write, .reset, .write, .write, .read, .write, .write]
    let c := (ofSize 4).walk moves
    1 ≤ 4 ∧ 4 ≤ 1 <<< 31 ∧ c = ⟨0, 1, 4⟩ ∧ c.outstanding = 3 ∧
      ∃ w, (CursorWords.ofSize 4).walk? moves = some w ∧ w.toCursor = c := by
  intro moves c
  obtain ⟨-, -, -, hexact, w, hw, hcursor, -⟩ :=
    walk_counts_moves (by decide : 1 ≤ 4) (by decide) moves
  exact ⟨by decide, by decide, by decide, hexact (by decide) (by decide), w, hw, hcursor⟩

end RingCursor

end FrameRing
