/-! # Positions and counters

A position in a ring of `n` entries is a counter that never falls, taken modulo `n`. Two counters
that are less than a whole turn apart can be told apart by their positions, and their difference
is the number of steps from one position to the other. -/

namespace FrameRing

variable {n a b d : Nat}

theorem mod_add_steps (hd : d < n) :
    (a + d) % n = if a % n + d < n then a % n + d else a % n + d - n := by
  have hr : a % n < n := Nat.mod_lt _ (by omega)
  rw [← Nat.mod_add_mod]
  split
  · rename_i h
    exact Nat.mod_eq_of_lt h
  · rename_i h
    rw [Nat.mod_eq_sub_mod (by omega), Nat.mod_eq_of_lt (by omega)]

theorem steps_between (hab : a ≤ b) (hb : b < a + n) : (b % n + n - a % n) % n = b - a := by
  obtain ⟨d, rfl⟩ := Nat.exists_eq_add_of_le hab
  have hd : d < n := by omega
  have hr : a % n < n := Nat.mod_lt _ (by omega)
  rw [mod_add_steps hd]
  split
  · have hsum : a % n + d + n - a % n = d + n := by omega
    rw [hsum, Nat.add_mod_right, Nat.mod_eq_of_lt hd]
    omega
  · have hsum : a % n + d - n + n - a % n = d := by omega
    rw [hsum, Nat.mod_eq_of_lt hd]
    omega

theorem position_ne (hab : a < b) (hb : b < a + n) : a % n ≠ b % n := by
  intro h
  have hs := steps_between (Nat.le_of_lt hab) hb
  rw [← h, Nat.add_comm, Nat.add_sub_cancel, Nat.mod_self] at hs
  omega

theorem position_of_steps {p : Nat} (hp : p < n) : (a + (p + n - a % n) % n) % n = p := by
  have hr : a % n < n := Nat.mod_lt _ (by omega)
  have hsum : a % n + (p + n - a % n) = p + n := by omega
  rw [Nat.add_mod_mod, ← Nat.mod_add_mod, hsum, Nat.add_mod_right, Nat.mod_eq_of_lt hp]

theorem position_before {p : Nat} (hp : p < n) (h : (p + 1) % n = a % n) :
    p = (a + n - 1) % n := by
  have hback : a + n - 1 = a + (n - 1) := by omega
  have hturn : p + 1 + (n - 1) = p + n := by omega
  rw [hback, ← Nat.mod_add_mod, ← h, Nat.mod_add_mod, hturn, Nat.add_mod_right,
    Nat.mod_eq_of_lt hp]

theorem getElem?_concat_cases {α : Type} {l : List α} {x y : α} {k : Nat}
    (h : (l ++ [x])[k]? = some y) : l[k]? = some y ∨ k = l.length ∧ x = y := by
  rw [List.getElem?_append] at h
  split at h
  · exact .inl h
  · rename_i hk
    obtain ⟨hlt, hget⟩ := List.getElem?_eq_some_iff.mp h
    rw [List.length_singleton] at hlt
    exact .inr ⟨by omega, by simpa using hget⟩

end FrameRing
