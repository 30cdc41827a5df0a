import FrameRing.SlotTable
import Mathlib.Data.List.Perm.Basic

/-! # Slots and the buffers in them

`buffers` lists what a table holds. Arming adds exactly the buffer that is handed over, retiring
takes out exactly the one that comes back, and no other slot is touched. -/

namespace FrameRing.SlotTable

variable {β : Type} {t t' : SlotTable β} {idx : Nat} {buf : β}

theorem filterMap_set_perm {α γ : Type} (f : α → Option γ) {l : List α} {i : Nat} {a b : α}
    {c : γ} (ha : l[i]? = some a) (hf : f a = none) (hb : f b = some c) :
    ((l.set i b).filterMap f).Perm (c :: l.filterMap f) := by
  induction l generalizing i with
  | nil => cases ha
  | cons x xs ih =>
    cases i with
    | zero =>
      obtain rfl : x = a := by simpa using ha
      simp [hf, hb]
    | succ i =>
      have hx := ih (by simpa using ha)
      rw [List.set_cons_succ, List.filterMap_cons, List.filterMap_cons]
      cases f x with
      | none => exact hx
      | some y => exact (hx.cons y).trans (List.Perm.swap c y _)

theorem arm_cases [RxBuffer β] (t : SlotTable β) (idx : Nat) (buf : β) :
    (t.arm idx buf = .error buf ∧ (t.capacity ≤ idx ∨ t.isArmed idx = true)) ∨
      ∃ s, t.slot? idx = some s ∧ s.buffer = none ∧
        t.arm idx buf =
          .ok ⟨t.slots.setIfInBounds idx ⟨some buf, RxBuffer.busAddr buf, s.cookie⟩⟩ := by
  unfold arm
  cases hs : t.slot? idx with
  | none => exact .inl ⟨rfl, .inl (by simpa [slot?, capacity] using hs)⟩
  | some s =>
    by_cases hu : s.inUse = true
    · exact .inl ⟨by simp only [if_pos hu], .inr (by simp [isArmed, hs, hu])⟩
    · exact .inr ⟨s, rfl, by simpa [Slot.inUse] using hu, by simp only [if_neg hu]⟩

theorem isArmed_eq_false_iff {s : Slot β} (hs : t.slot? idx = some s) :
    t.isArmed idx = false ↔ s.buffer = none := by
  simp [isArmed, hs, Slot.inUse]

theorem slot?_set (s : Slot β) (i : Nat) (hi : idx < t.capacity) :
    (⟨t.slots.setIfInBounds idx s⟩ : SlotTable β).slot? i =
      if i = idx then some s else t.slot? i := by
  simp only [slot?, Array.getElem?_setIfInBounds]
  by_cases h : i = idx
  · rw [if_pos h.symm, if_pos h, if_pos (h ▸ hi)]
  · rw [if_neg (Ne.symm h), if_neg h]

theorem lt_capacity_of_slot? {s : Slot β} (h : t.slot? idx = some s) : idx < t.capacity := by
  simp only [slot?] at h
  exact (Array.getElem?_eq_some_iff.mp h).1

theorem of_arm [RxBuffer β] (h : t.arm idx buf = .ok t') :
    t'.capacity = t.capacity ∧ idx < t.capacity ∧ t.isArmed idx = false ∧
      (∃ s, t'.slot? idx = some s ∧ s.buffer = some buf) ∧
      (∀ i, i ≠ idx → t'.slot? i = t.slot? i) ∧ t'.buffers.Perm (buf :: t.buffers) := by
  rcases t.arm_cases idx buf with ⟨he, -⟩ | ⟨s, hs, hn, he⟩
  · rw [h] at he
    cases he
  · rw [h] at he
    cases he
    have hi := lt_capacity_of_slot? hs
    refine ⟨Array.size_setIfInBounds, hi, (isArmed_eq_false_iff hs).mpr hn,
      ⟨⟨some buf, RxBuffer.busAddr buf, s.cookie⟩, ?_, rfl⟩, ?_, ?_⟩
    · rw [slot?_set _ _ hi, if_pos rfl]
    · intro i hne
      rw [slot?_set _ _ hi, if_neg hne]
    · simp only [buffers, Array.toList_setIfInBounds]
      exact filterMap_set_perm Slot.buffer (by simpa [slot?] using hs) hn rfl

theorem arm_error_eq [RxBuffer β] {buf' : β} (h : t.arm idx buf = .error buf') :
    buf' = buf ∧ (t.capacity ≤ idx ∨ t.isArmed idx = true) := by
  rcases t.arm_cases idx buf with ⟨he, hw⟩ | ⟨s, -, -, he⟩
  · rw [h] at he
    cases he
    exact ⟨rfl, hw⟩
  · rw [h] at he
    cases he

theorem arm_eq_error [RxBuffer β] (h : t.capacity ≤ idx ∨ t.isArmed idx = true) :
    t.arm idx buf = .error buf := by
  rcases t.arm_cases idx buf with ⟨he, -⟩ | ⟨s, hs, hn, -⟩
  · exact he
  · have hi := lt_capacity_of_slot? hs
    have hidle := (isArmed_eq_false_iff hs).mpr hn
    rcases h with h | h
    · omega
    · rw [hidle] at h
      cases h

theorem of_retire (h : t.retire idx = (some buf, t')) :
    t'.capacity = t.capacity ∧ idx < t.capacity ∧ t'.isArmed idx = false ∧
      (∃ s, t.slot? idx = some s ∧ s.buffer = some buf) ∧
      (∀ i, i ≠ idx → t'.slot? i = t.slot? i) ∧ t.buffers.Perm (buf :: t'.buffers) := by
  unfold retire at h
  cases hs : t.slot? idx with
  | none => rw [hs] at h; cases h
  | some s =>
    simp only [hs, Prod.mk.injEq] at h
    obtain ⟨hb, rfl⟩ := h
    have hi := lt_capacity_of_slot? hs
    have hslot := slot?_set s.vacated idx hi
    rw [if_pos rfl] at hslot
    refine ⟨Array.size_setIfInBounds, hi, ?_, ⟨s, rfl, hb⟩, ?_, ?_⟩
    · rw [isArmed, hslot]
      rfl
    · intro i hne
      rw [slot?_set _ _ hi, if_neg hne]
    · have hcell : t.slots[idx]? = some s := hs
      obtain ⟨hlt, hget⟩ := Array.getElem?_eq_some_iff.mp hcell
      have hp := filterMap_set_perm Slot.buffer (l := t.slots.toList.set idx s.vacated)
        (a := s.vacated) (List.getElem?_set_self (by simpa using hlt)) rfl hb
      have hself : t.slots.toList.set idx s = t.slots.toList := by
        rw [← hget, ← Array.getElem_toList, List.set_getElem_self]
      rw [List.set_set, hself] at hp
      simpa only [buffers, Array.toList_setIfInBounds] using hp

theorem retire_none (h : (t.retire idx).1 = none) : t.isArmed idx = false := by
  unfold retire at h
  cases hs : t.slot? idx with
  | none => simp [isArmed, hs]
  | some s =>
    rw [hs] at h
    exact (isArmed_eq_false_iff hs).mpr h

theorem exists_retire_none (h : t.isArmed idx = false) : ∃ t', t.retire idx = (none, t') := by
  unfold retire
  cases hs : t.slot? idx with
  | none => exact ⟨t, rfl⟩
  | some s =>
    exact ⟨_, congrArg (·, _) ((isArmed_eq_false_iff hs).mp h)⟩

def buffer? (t : SlotTable β) (idx : Nat) : Option β := (t.slot? idx).bind Slot.buffer

theorem buffer?_eq {s : Slot β} (h : t.slot? idx = some s) : t.buffer? idx = s.buffer := by
  rw [buffer?, h, Option.bind_some]

theorem buffer?_congr {i : Nat} (h : t'.slot? i = t.slot? i) : t'.buffer? i = t.buffer? i := by
  rw [buffer?, buffer?, h]

theorem exists_arm [RxBuffer β] (hi : idx < t.capacity) (h : t.isArmed idx = false) (buf : β) :
    ∃ t', t.arm idx buf = .ok t' := by
  rcases t.arm_cases idx buf with ⟨-, short | taken⟩ | ⟨s, -, -, he⟩
  · exact absurd hi (Nat.not_lt.mpr short)
  · rw [h] at taken
    cases taken
  · exact ⟨_, he⟩

theorem exists_retire (h : t.isArmed idx = true) :
    ∃ buf t', t.retire idx = (some buf, t') := by
  rcases hr : t.retire idx with ⟨_ | buf, t'⟩
  · have hidle := retire_none (congrArg Prod.fst hr)
    rw [h] at hidle
    cases hidle
  · exact ⟨buf, t', rfl⟩

theorem isArmed_congr {i : Nat} (h : t'.slot? i = t.slot? i) : t'.isArmed i = t.isArmed i := by
  rw [isArmed, isArmed, h]

theorem isArmed_of_slot? {s : Slot β} (h : t.slot? idx = some s) (hb : s.buffer = some buf) :
    t.isArmed idx = true := by
  simp [isArmed, h, Slot.inUse, hb]

theorem inUseCount_eq_length (t : SlotTable β) : t.inUseCount = t.buffers.length := by
  rw [inUseCount, buffers, ← Array.countP_toList, List.length_filterMap_eq_countP]
  rfl

@[simp] theorem capacity_withCapacity (n : Nat) :
    (withCapacity n : SlotTable β).capacity = n := by
  simp [capacity, withCapacity]

@[simp] theorem buffers_withCapacity (n : Nat) : (withCapacity n : SlotTable β).buffers = [] := by
  simp [buffers, withCapacity, Slot.empty]

@[simp] theorem buffers_empty : (empty : SlotTable β).buffers = [] := rfl

@[simp] theorem buffer?_withCapacity (n i : Nat) :
    (withCapacity n : SlotTable β).buffer? i = none := by
  rw [buffer?, slot?_withCapacity]
  split <;> rfl

@[simp] theorem isArmed_withCapacity (n i : Nat) :
    (withCapacity n : SlotTable β).isArmed i = false := by
  rw [isArmed, slot?_withCapacity]
  split <;> rfl

@[simp] theorem isArmed_empty (i : Nat) : (empty : SlotTable β).isArmed i = false := rfl

theorem mem_buffers_iff {b : β} : b ∈ t.buffers ↔ ∃ i, t.buffer? i = some b := by
  rw [buffers, List.mem_filterMap]
  constructor
  · rintro ⟨s, hs, hb⟩
    obtain ⟨i, hi⟩ := List.mem_iff_getElem?.mp hs
    rw [Array.getElem?_toList] at hi
    exact ⟨i, (buffer?_eq hi).trans hb⟩
  · rintro ⟨i, hi⟩
    obtain ⟨s, hs, hb⟩ := Option.bind_eq_some_iff.mp hi
    refine ⟨s, List.mem_iff_getElem?.mpr ⟨i, ?_⟩, hb⟩
    rw [Array.getElem?_toList]
    exact hs

theorem slot?_retire (t : SlotTable β) (idx i : Nat) :
    (t.retire idx).2.slot? i = if i = idx then (t.slot? i).map Slot.vacated else t.slot? i := by
  unfold retire
  cases hs : t.slot? idx with
  | none =>
    by_cases h : i = idx
    · rw [if_pos h, h, hs, Option.map_none]
    · rw [if_neg h]
  | some s =>
    rw [slot?_set _ _ (lt_capacity_of_slot? hs)]
    by_cases h : i = idx
    · rw [if_pos h, if_pos h, h, hs, Option.map_some]
    · rw [if_neg h, if_neg h]

theorem ext_slot? (h : ∀ i, t.slot? i = t'.slot? i) : t = t' := by
  obtain ⟨slots⟩ := t
  obtain ⟨slots'⟩ := t'
  exact congrArg SlotTable.mk (Array.ext_getElem? h)

theorem vacated_of_idle (h : t.isArmed idx = false) :
    (t.slot? idx).map Slot.vacated = t.slot? idx := by
  cases hs : t.slot? idx with
  | none => rfl
  | some s => rw [Option.map_some, Slot.vacated, ← (isArmed_eq_false_iff hs).mp h]

theorem retire_idle (h : t.isArmed idx = false) : t.retire idx = (none, t) := by
  obtain ⟨t', hr⟩ := exists_retire_none h
  have hsame : t' = t := by
    apply ext_slot?
    intro i
    have hslot := slot?_retire t idx i
    rw [hr] at hslot
    rw [hslot]
    split
    · rename_i hi
      subst hi
      exact vacated_of_idle h
    · rfl
  rw [hr, hsame]

theorem buffer?_retire (t : SlotTable β) (idx i : Nat) :
    (t.retire idx).2.buffer? i = if i = idx then none else t.buffer? i := by
  rw [buffer?, slot?_retire]
  split
  · cases t.slot? i <;> rfl
  · rfl

theorem retire_fst (t : SlotTable β) (idx : Nat) : (t.retire idx).1 = t.buffer? idx := by
  rw [retire, buffer?]
  cases t.slot? idx <;> rfl

theorem capacity_retire (t : SlotTable β) (idx : Nat) : (t.retire idx).2.capacity = t.capacity := by
  rw [retire]
  cases t.slot? idx with
  | none => rfl
  | some s => exact Array.size_setIfInBounds

def armedIn (slots : List (Slot β)) : List Nat :=
  (List.range slots.length).filter fun i => slots[i]?.any Slot.inUse

def armedSlots (t : SlotTable β) : List Nat := (List.range t.capacity).filter t.isArmed

theorem armedSlots_eq (t : SlotTable β) : t.armedSlots = armedIn t.slots.toList := by
  rw [armedSlots, armedIn, Array.length_toList, capacity]
  apply List.filter_congr
  intro i _
  rw [isArmed, slot?, Array.getElem?_toList]

theorem mem_armedIn {slots : List (Slot β)} {i : Nat} :
    i ∈ armedIn slots ↔ slots[i]?.any Slot.inUse = true := by
  rw [armedIn, List.mem_filter, List.mem_range]
  constructor
  · exact fun h => h.2
  · intro h
    refine ⟨Nat.lt_of_not_le fun hle => ?_, h⟩
    rw [List.getElem?_eq_none hle] at h
    cases h

theorem armedIn_cons (s : Slot β) (slots : List (Slot β)) :
    armedIn (s :: slots) =
      if s.inUse then 0 :: (armedIn slots).map (· + 1) else (armedIn slots).map (· + 1) := by
  rw [armedIn, List.length_cons, List.range_succ_eq_map, List.filter_cons, List.filter_map]
  rfl

/-- The shortest front that holds `k` buffers ends with the `k`-th armed slot. -/
theorem armedIn_front (k : Nat) (slots : List (Slot β)) :
    armedIn (slots.take (frontLength k slots 0)) = (armedIn slots).take k := by
  induction slots generalizing k with
  | nil => cases k <;> rfl
  | cons s slots ih =>
    cases k with
    | zero => rfl
    | succ k =>
      rw [frontLength, frontLength_passed, Nat.zero_add, Nat.add_comm, List.take_succ_cons,
        armedIn_cons, armedIn_cons, ih]
      cases s.inUse with
      | true => simp only [if_true, List.take_succ_cons, List.map_take]
      | false => exact List.map_take

theorem filterMap_buffer (slots : List (Slot β)) :
    (slots.filterMap Slot.buffer).map some =
      (armedIn slots).map fun i => slots[i]?.bind Slot.buffer := by
  induction slots with
  | nil => rfl
  | cons s slots ih =>
    rw [armedIn_cons]
    cases hb : s.buffer with
    | none =>
      have hidle : s.inUse = false := by rw [Slot.inUse, hb]; rfl
      rw [List.filterMap_cons_none hb, ih, hidle, if_neg (by decide), List.map_map]
      rfl
    | some b =>
      have hbusy : s.inUse = true := by rw [Slot.inUse, hb]; rfl
      rw [List.filterMap_cons_some hb, List.map_cons, ih, hbusy, if_pos rfl, List.map_cons,
        List.map_map, List.getElem?_cons_zero, Option.bind_some, hb]
      rfl

theorem inUseCount_eq_armedSlots (t : SlotTable β) : t.inUseCount = t.armedSlots.length := by
  have hlength := congrArg List.length (filterMap_buffer t.slots.toList)
  rw [List.length_map, List.length_map, ← armedSlots_eq] at hlength
  exact (inUseCount_eq_length t).trans hlength

theorem frontLength_le (k : Nat) (slots : List (Slot β)) :
    frontLength k slots 0 ≤ slots.length := by
  induction slots generalizing k with
  | nil => cases k <;> exact Nat.le_refl 0
  | cons s slots ih =>
    cases k with
    | zero => exact Nat.zero_le _
    | succ k =>
      rw [frontLength, frontLength_passed, Nat.zero_add, Nat.add_comm, List.length_cons]
      exact Nat.succ_le_succ (ih _)

theorem mem_armedSlots_take {k i : Nat} :
    i ∈ t.armedSlots.take k ↔ i < frontLength k t.slots.toList 0 ∧ t.isArmed i = true := by
  rw [armedSlots_eq, ← armedIn_front, mem_armedIn, List.getElem?_take, isArmed, slot?,
    Array.getElem?_toList]
  by_cases hlt : i < frontLength k t.slots.toList 0
  · rw [if_pos hlt]
    exact ⟨fun h => ⟨hlt, h⟩, fun h => h.2⟩
  · rw [if_neg hlt]
    exact ⟨fun h => Bool.noConfusion h, fun h => absurd h.1 hlt⟩

theorem slot?_drain_front (t : SlotTable β) (k i : Nat) :
    (t.drain k).2.slot? i =
      if i < frontLength k t.slots.toList 0 then (t.slot? i).map Slot.vacated else t.slot? i := by
  simp only [drain, slot?, List.getElem?_toArray, List.getElem?_append, List.length_map,
    List.length_take, Nat.min_eq_left (frontLength_le k t.slots.toList), List.getElem?_map,
    List.getElem?_take, List.getElem?_drop, Array.getElem?_toList]
  split
  · rfl
  · rename_i hge
    rw [Nat.add_sub_cancel' (Nat.le_of_not_lt hge)]

theorem slot?_drain (t : SlotTable β) (k i : Nat) :
    (t.drain k).2.slot? i =
      if i ∈ t.armedSlots.take k then (t.slot? i).map Slot.vacated else t.slot? i := by
  rw [slot?_drain_front]
  by_cases hlt : i < frontLength k t.slots.toList 0
  · rw [if_pos hlt]
    by_cases hbusy : t.isArmed i = true
    · rw [if_pos (mem_armedSlots_take.mpr ⟨hlt, hbusy⟩)]
    · rw [if_neg fun h => hbusy (mem_armedSlots_take.mp h).2]
      exact vacated_of_idle (Bool.eq_false_iff.mpr hbusy)
  · rw [if_neg hlt, if_neg fun h => hlt (mem_armedSlots_take.mp h).1]

theorem buffer?_drain (t : SlotTable β) (k i : Nat) :
    (t.drain k).2.buffer? i = if i ∈ t.armedSlots.take k then none else t.buffer? i := by
  rw [buffer?, slot?_drain]
  split
  · cases t.slot? i <;> rfl
  · rfl

theorem capacity_drain (t : SlotTable β) (k : Nat) : (t.drain k).2.capacity = t.capacity := by
  have hcut := frontLength_le k t.slots.toList
  rw [Array.length_toList] at hcut
  simp only [drain, capacity, List.size_toArray, List.length_append, List.length_map,
    List.length_take, List.length_drop, Array.length_toList]
  omega

/-- A drain yields the buffers of the lowest armed slots. -/
theorem drain_buffers (t : SlotTable β) (k : Nat) :
    (t.drain k).1.map some = (t.armedSlots.take k).map t.buffer? := by
  rw [drain, filterMap_buffer, armedIn_front, ← armedSlots_eq]
  apply List.map_congr_left
  intro i hi
  obtain ⟨hlt, -⟩ := mem_armedSlots_take.mp hi
  rw [List.getElem?_take, if_pos hlt, Array.getElem?_toList, buffer?, slot?]

theorem buffers_drain (t : SlotTable β) (k : Nat) :
    t.buffers = (t.drain k).1 ++ (t.drain k).2.buffers := by
  have hvacated (slots : List (Slot β)) : (slots.map Slot.vacated).filterMap Slot.buffer = [] := by
    rw [List.filterMap_map, List.filterMap_eq_nil_iff]
    exact fun _ _ => rfl
  rw [drain, buffers, buffers, List.filterMap_append, hvacated, List.nil_append,
    ← List.filterMap_append, List.take_append_drop]

end FrameRing.SlotTable
