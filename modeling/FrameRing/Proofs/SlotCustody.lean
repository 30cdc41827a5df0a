import FrameRing.Proofs.Ring.Ledger
import Mathlib.Algebra.Order.Group.Multiset
import Mathlib.Data.List.Nodup
import Mathlib.Tactic.Abel

/-! # Custody in the slot table

Buffers are handed to a table and come back from it in any order. To tell equal ones apart, each is
numbered by the call that hands it over; the table looks at no more of a buffer than its address, so
it does with numbered buffers what it does with the buffers themselves. -/

namespace FrameRing

deriving instance DecidableEq for Tagged

namespace SlotTable

variable {β β' : Type}

inductive Call (β : Type) where
  | arm (idx : Nat) (buf : β)
  | retire (idx : Nat)
  | drain (count : Nat)
  deriving DecidableEq, Repr

inductive Answer (β : Type) where
  | armed
  | refused (buf : β)
  | retired (buf : Option β)
  | drained (bufs : List β)
  deriving DecidableEq, Repr

namespace Call

def handed? : Call β → Option β
  | arm _ buf => some buf
  | retire _ => none
  | drain _ => none

def map (f : β → β') : Call β → Call β'
  | arm idx buf => arm idx (f buf)
  | retire idx => retire idx
  | drain count => drain count

theorem handed?_eq_some {c : Call β} {b : β} :
    c.handed? = some b ↔ ∃ idx, c = arm idx b := by
  cases c <;> simp [handed?]

end Call

namespace Answer

def refused? : Answer β → Option β
  | armed => none
  | refused buf => some buf
  | retired _ => none
  | drained _ => none

def taken : Answer β → List β
  | armed => []
  | refused _ => []
  | retired buf => buf.toList
  | drained bufs => bufs

def map (f : β → β') : Answer β → Answer β'
  | armed => armed
  | refused buf => refused (f buf)
  | retired buf => retired (buf.map f)
  | drained bufs => drained (bufs.map f)

theorem refused?_eq_some {a : Answer β} {b : β} : a.refused? = some b ↔ a = refused b := by
  cases a <;> simp [refused?]

end Answer

def perform [RxBuffer β] (t : SlotTable β) : Call β → Answer β × SlotTable β
  | .arm idx buf =>
    match t.arm idx buf with
    | .ok t' => (.armed, t')
    | .error buf => (.refused buf, t)
  | .retire idx => (.retired (t.retire idx).1, (t.retire idx).2)
  | .drain count => (.drained (t.drain count).1, (t.drain count).2)

def play [RxBuffer β] (t : SlotTable β) : List (Call β) → List (Answer β) × SlotTable β
  | [] => ([], t)
  | c :: calls =>
    ((t.perform c).1 :: ((t.perform c).2.play calls).1, ((t.perform c).2.play calls).2)

section Play

variable [RxBuffer β] {t : SlotTable β} {c : Call β} {calls : List (Call β)} {a : Answer β}
  {b : β} {i q : Nat}

theorem perform_arm (t : SlotTable β) (idx : Nat) (buf : β) :
    (t.perform (.arm idx buf) = (.refused buf, t) ∧
        ¬ (idx < t.capacity ∧ t.isArmed idx = false)) ∨
      ∃ s, t.slot? idx = some s ∧ s.buffer = none ∧ t.perform (.arm idx buf) =
        (.armed, ⟨t.slots.setIfInBounds idx ⟨some buf, RxBuffer.busAddr buf, s.cookie⟩⟩) := by
  rw [perform]
  rcases t.arm_cases idx buf with ⟨ha, missing | busy⟩ | ⟨s, hs, hn, ha⟩
  · exact .inl ⟨by rw [ha], fun h => Nat.not_lt.mpr missing h.1⟩
  · refine .inl ⟨by rw [ha], fun h => ?_⟩
    rw [busy] at h
    exact Bool.noConfusion h.2
  · exact .inr ⟨s, hs, hn, by rw [ha]⟩

theorem perform_arm_fst (t : SlotTable β) (idx : Nat) (buf : β) :
    (t.perform (.arm idx buf)).1 =
      if idx < t.capacity ∧ t.isArmed idx = false then .armed else .refused buf := by
  rcases t.perform_arm idx buf with ⟨hp, hnot⟩ | ⟨s, hs, hn, hp⟩
  · rw [hp, if_neg hnot]
  · have hidle := (isArmed_eq_false_iff hs).mpr hn
    rw [hp, if_pos ⟨lt_capacity_of_slot? hs, hidle⟩]

theorem buffer?_arm (t : SlotTable β) (idx : Nat) (buf : β) (i : Nat) :
    (t.perform (.arm idx buf)).2.buffer? i =
      if i = idx ∧ idx < t.capacity ∧ t.isArmed idx = false then some buf else t.buffer? i := by
  rcases t.perform_arm idx buf with ⟨hp, hnot⟩ | ⟨s, hs, hn, hp⟩
  · rw [hp, if_neg fun h => hnot h.2]
  · have hi := lt_capacity_of_slot? hs
    have hidle := (isArmed_eq_false_iff hs).mpr hn
    rw [hp, buffer?, slot?_set _ _ hi]
    by_cases h : i = idx
    · rw [if_pos h, if_pos ⟨h, hi, hidle⟩, Option.bind_some]
    · rw [if_neg h, if_neg fun hall => h hall.1, buffer?]

theorem of_buffer?_perform (h : (t.perform c).2.buffer? i = some b) :
    t.buffer? i = some b ∨ c = .arm i b := by
  cases c with
  | arm idx buf =>
    rw [buffer?_arm] at h
    split at h
    · rename_i hput
      cases h
      exact .inr (by rw [hput.1])
    · exact .inl h
  | retire idx =>
    rw [perform, buffer?_retire] at h
    split at h
    · cases h
    · exact .inl h
  | drain count =>
    rw [perform, buffer?_drain] at h
    split at h
    · cases h
    · exact .inl h

/-- What is handed over and what was held before is handed back, given up or held afterwards. -/
theorem perform_perm (t : SlotTable β) (c : Call β) :
    (c.handed?.toList ++ t.buffers).Perm
      ((t.perform c).1.refused?.toList ++ (t.perform c).1.taken ++ (t.perform c).2.buffers) := by
  cases c with
  | arm idx buf =>
    rw [perform]
    cases ha : t.arm idx buf with
    | error buf' =>
      obtain ⟨rfl, -⟩ := arm_error_eq ha
      exact List.Perm.refl _
    | ok t' =>
      obtain ⟨-, -, -, -, -, hperm⟩ := of_arm ha
      exact hperm.symm
  | retire idx =>
    rcases hr : t.retire idx with ⟨_ | buf, t'⟩
    · rw [perform, retire_idle (retire_none (congrArg Prod.fst hr))]
      exact List.Perm.refl _
    · obtain ⟨-, -, -, -, -, hperm⟩ := of_retire hr
      rw [perform, hr]
      exact hperm
  | drain count =>
    rw [perform, buffers_drain t count]
    exact List.Perm.refl _

theorem play_perm (t : SlotTable β) (calls : List (Call β)) :
    (calls.filterMap Call.handed? ++ t.buffers).Perm
      ((t.play calls).1.filterMap Answer.refused? ++ (t.play calls).1.flatMap Answer.taken ++
        (t.play calls).2.buffers) := by
  induction calls generalizing t with
  | nil => exact List.Perm.refl _
  | cons c calls ih =>
    -- Only the order of the parts differs, so they are summed up as multisets.
    have hfirst := Multiset.coe_eq_coe.mpr (t.perform_perm c)
    have hrest := Multiset.coe_eq_coe.mpr (ih (t.perform c).2)
    rw [← Multiset.coe_eq_coe]
    simp only [play, List.filterMap_eq_flatMap_toList, List.flatMap_cons, ← Multiset.coe_add]
      at hfirst hrest ⊢
    calc _ = (calls.flatMap (Call.handed? · |>.toList) : Multiset β) +
            (c.handed?.toList + t.buffers) := by abel
      _ = (calls.flatMap (Call.handed? · |>.toList) : Multiset β) + (t.perform c).2.buffers +
            ((t.perform c).1.refused?.toList + (t.perform c).1.taken) := by
          rw [hfirst]
          abel
      _ = _ := by
          rw [hrest]
          abel

theorem of_refused (h : (t.play calls).1[q]? = some (.refused b)) :
    ∃ idx, calls[q]? = some (.arm idx b) := by
  induction calls generalizing t q with
  | nil => cases h
  | cons c calls ih =>
    cases q with
    | zero =>
      rw [play, List.getElem?_cons_zero, Option.some.injEq] at h
      cases c with
      | arm idx buf =>
        rw [perform_arm_fst] at h
        split at h
        · cases h
        · cases h
          exact ⟨idx, rfl⟩
      | retire => cases h
      | drain => cases h
    | succ q => exact ih h

theorem of_held (h : (t.play calls).2.buffer? i = some b) :
    t.buffer? i = some b ∨ ∃ p : Nat, calls[p]? = some (.arm i b) := by
  induction calls generalizing t with
  | nil => exact .inl h
  | cons c calls ih =>
    rcases ih h with hheld | ⟨p, hp⟩
    · rcases of_buffer?_perform hheld with hbefore | rfl
      · exact .inl hbefore
      · exact .inr ⟨0, rfl⟩
    · exact .inr ⟨p + 1, hp⟩

theorem mem_buffers_of_taken (h : b ∈ (t.perform c).1.taken) : b ∈ t.buffers := by
  cases c with
  | arm idx buf =>
    rw [perform_arm_fst] at h
    split at h <;> cases h
  | retire idx =>
    rw [perform, retire_fst, Answer.taken, Option.mem_toList] at h
    exact mem_buffers_iff.mpr ⟨idx, h⟩
  | drain count =>
    rw [buffers_drain t count]
    exact List.mem_append_left _ h

theorem of_taken (h : (t.play calls).1[q]? = some a) (hb : b ∈ a.taken) :
    ∃ i, t.buffer? i = some b ∨ ∃ p : Nat, p < q ∧ calls[p]? = some (.arm i b) := by
  induction calls generalizing t q with
  | nil => cases h
  | cons c calls ih =>
    cases q with
    | zero =>
      rw [play, List.getElem?_cons_zero, Option.some.injEq] at h
      subst h
      obtain ⟨i, hi⟩ := mem_buffers_iff.mp (mem_buffers_of_taken hb)
      exact ⟨i, .inl hi⟩
    | succ q =>
      obtain ⟨i, hheld | ⟨p, hlt, hp⟩⟩ := ih h
      · rcases of_buffer?_perform hheld with hbefore | rfl
        · exact ⟨i, .inl hbefore⟩
        · exact ⟨i, .inr ⟨0, Nat.succ_pos q, rfl⟩⟩
      · exact ⟨i, .inr ⟨p + 1, Nat.succ_lt_succ hlt, hp⟩⟩

theorem capacity_perform (t : SlotTable β) (c : Call β) :
    (t.perform c).2.capacity = t.capacity := by
  cases c with
  | arm idx buf =>
    rcases t.perform_arm idx buf with ⟨hp, -⟩ | ⟨s, -, -, hp⟩
    · rw [hp]
    · rw [hp]
      exact Array.size_setIfInBounds
  | retire idx => exact capacity_retire t idx
  | drain count => exact capacity_drain t count

theorem capacity_play (t : SlotTable β) (calls : List (Call β)) :
    (t.play calls).2.capacity = t.capacity := by
  induction calls generalizing t with
  | nil => rfl
  | cons c calls ih => exact (ih _).trans (capacity_perform t c)

def placed? (i : Nat) : Call β × Answer β → Option β
  | (.arm idx buf, .armed) => if i = idx then some buf else none
  | _ => none

def lastArmed? (i : Nat) (calls : List (Call β)) (answers : List (Answer β)) : Option β :=
  ((calls.zip answers).filterMap (placed? i)).getLast?

omit [RxBuffer β] in
theorem lastArmed?_cons (i : Nat) (c : Call β) (calls : List (Call β)) (a : Answer β)
    (answers : List (Answer β)) :
    lastArmed? i (c :: calls) (a :: answers) =
      (lastArmed? i calls answers).or (placed? i (c, a)) := by
  rw [lastArmed?, List.zip_cons_cons, List.filterMap_cons]
  cases placed? i (c, a) with
  | none => rw [Option.or_none]; rfl
  | some b =>
    rw [List.getLast?_cons, ← lastArmed?]
    cases lastArmed? i calls answers <;> rfl

theorem slot?_perform {s : Slot β} (h : t.slot? i = some s) (c : Call β) :
    (t.perform c).2.slot? i = some ⟨(t.perform c).2.buffer? i,
      (placed? i (c, (t.perform c).1)).elim s.busAddr RxBuffer.busAddr, s.cookie⟩ := by
  have hkept {t' : SlotTable β} (h' : t'.slot? i = some s) :
      t'.slot? i = some ⟨t'.buffer? i, s.busAddr, s.cookie⟩ := by
    rw [buffer?_eq h', h']
  have hvacated {t' : SlotTable β} (h' : t'.slot? i = some s.vacated) :
      t'.slot? i = some ⟨t'.buffer? i, s.busAddr, s.cookie⟩ := by
    rw [buffer?_eq h', h']
    rfl
  cases c with
  | arm idx buf =>
    rcases t.perform_arm idx buf with ⟨hp, -⟩ | ⟨s', hs, -, hp⟩
    · rw [hp]
      exact hkept h
    · have hi := lt_capacity_of_slot? hs
      rw [hp, placed?]
      by_cases hidx : i = idx
      · subst hidx
        cases h.symm.trans hs
        rw [buffer?, slot?_set _ _ hi, if_pos rfl, if_pos rfl]
        rfl
      · rw [if_neg hidx]
        exact hkept ((slot?_set _ _ hi).trans ((if_neg hidx).trans h))
  | retire idx =>
    have hslot := slot?_retire t idx i
    rw [h] at hslot
    by_cases hidx : i = idx
    · exact hvacated (hslot.trans (if_pos hidx))
    · exact hkept (hslot.trans (if_neg hidx))
  | drain count =>
    have hslot := slot?_drain t count i
    rw [h] at hslot
    by_cases hidx : i ∈ t.armedSlots.take count
    · exact hvacated (hslot.trans (if_pos hidx))
    · exact hkept (hslot.trans (if_neg hidx))

theorem slot?_play {s : Slot β} (h : t.slot? i = some s) (calls : List (Call β)) :
    (t.play calls).2.slot? i = some ⟨(t.play calls).2.buffer? i,
      (lastArmed? i calls (t.play calls).1).elim s.busAddr RxBuffer.busAddr, s.cookie⟩ := by
  induction calls generalizing t s with
  | nil =>
    rw [play, buffer?_eq h, h]
    rfl
  | cons c calls ih =>
    rw [play, ih (slot?_perform h c), lastArmed?_cons]
    cases lastArmed? i calls ((t.perform c).2.play calls).1 with
    | none => rw [Option.none_or]; rfl
    | some b => rfl

theorem perform_map [RxBuffer β'] {f : β → β'}
    (hf : ∀ b, RxBuffer.busAddr (f b) = RxBuffer.busAddr b) (t : SlotTable β) (c : Call β) :
    (t.map f).perform (c.map f) = ((t.perform c).1.map f, (t.perform c).2.map f) := by
  cases c with
  | arm idx buf =>
    simp only [Call.map, perform, arm_map (hf buf)]
    cases t.arm idx buf <;> rfl
  | retire idx =>
    simp only [Call.map, perform, retire_map]
    rfl
  | drain count =>
    simp only [Call.map, perform, drain_map]
    rfl

theorem play_map [RxBuffer β'] {f : β → β'}
    (hf : ∀ b, RxBuffer.busAddr (f b) = RxBuffer.busAddr b) (t : SlotTable β)
    (calls : List (Call β)) :
    (t.map f).play (calls.map (Call.map f)) =
      ((t.play calls).1.map (Answer.map f), (t.play calls).2.map f) := by
  induction calls generalizing t with
  | nil => rfl
  | cons c calls ih =>
    rw [List.map_cons, play, perform_map hf, ih]
    rfl

end Play

def numbered (calls : List (Call β)) : List (Call (Tagged β)) :=
  calls.mapIdx fun n c => c.map (Tagged.mk n)

theorem numbered_erase (calls : List (Call β)) :
    (numbered calls).map (Call.map Tagged.buf) = calls := by
  apply List.ext_getElem?
  intro n
  rw [List.getElem?_map, numbered, List.getElem?_mapIdx]
  rcases calls[n]? with _ | _ | _ | _ <;> rfl

theorem numbered_arm {calls : List (Call β)} {p idx : Nat} {b : Tagged β} :
    (numbered calls)[p]? = some (.arm idx b) ↔
      p = b.tag ∧ calls[b.tag]? = some (.arm idx b.buf) := by
  rw [numbered, List.getElem?_mapIdx]
  constructor
  · intro h
    obtain ⟨c, hc, hmap⟩ := Option.map_eq_some_iff.mp h
    cases c with
    | arm idx' buf =>
      cases hmap
      exact ⟨rfl, hc⟩
    | retire => cases hmap
    | drain => cases hmap
  · rintro ⟨rfl, hc⟩
    rw [hc]
    rfl

theorem handed_nodup (calls : List (Call β)) :
    ((numbered calls).filterMap Call.handed?).Nodup := by
  rw [List.Nodup, List.pairwise_filterMap, List.pairwise_iff_getElem]
  intro p q hp hq hlt b hb b' hb' heq
  subst heq
  obtain ⟨idx, hidx⟩ := Call.handed?_eq_some.mp hb
  obtain ⟨idx', hidx'⟩ := Call.handed?_eq_some.mp hb'
  have hptag := (numbered_arm.mp (List.getElem?_eq_some_iff.mpr ⟨hp, hidx⟩)).1
  have hqtag := (numbered_arm.mp (List.getElem?_eq_some_iff.mpr ⟨hq, hidx'⟩)).1
  omega

inductive Place where
  | handedBack (call : Nat)
  | inSlot (idx : Nat)
  | taken (call pos : Nat)
  deriving DecidableEq, Repr

namespace Place

def Has (answers : List (Answer β)) (t : SlotTable β) (b : β) : Place → Prop
  | handedBack q => answers[q]? = some (.refused b)
  | inSlot i => t.buffer? i = some b
  | taken q k => ∃ a, answers[q]? = some a ∧ a.taken[k]? = some b

/-- Where a buffer can be that call `p` hands over for slot `idx`. -/
def Reachable (p idx : Nat) : Place → Prop
  | handedBack q => q = p
  | inSlot i => i = idx
  | taken q _ => p < q

variable {answers : List (Answer β)} {t : SlotTable β} {b : β}

theorem exists_has (h : b ∈ answers.filterMap Answer.refused? ++ answers.flatMap Answer.taken ++
    t.buffers) : ∃ place : Place, place.Has answers t b := by
  rw [List.mem_append, List.mem_append] at h
  rcases h with (hrefused | htaken) | hheld
  · obtain ⟨a, ha, hb⟩ := List.mem_filterMap.mp hrefused
    obtain rfl := Answer.refused?_eq_some.mp hb
    obtain ⟨q, hq⟩ := List.mem_iff_getElem?.mp ha
    exact ⟨handedBack q, hq⟩
  · obtain ⟨a, ha, hb⟩ := List.mem_flatMap.mp htaken
    obtain ⟨q, hq⟩ := List.mem_iff_getElem?.mp ha
    obtain ⟨k, hk⟩ := List.mem_iff_getElem?.mp hb
    exact ⟨taken q k, a, hq, hk⟩
  · obtain ⟨i, hi⟩ := mem_buffers_iff.mp hheld
    exact ⟨inSlot i, hi⟩

theorem mem_refused {q : Nat} (h : (handedBack q).Has answers t b) :
    b ∈ answers.filterMap Answer.refused? :=
  List.mem_filterMap.mpr ⟨_, List.mem_of_getElem? h, rfl⟩

theorem mem_taken {q k : Nat} (h : (taken q k).Has answers t b) :
    b ∈ answers.flatMap Answer.taken := by
  obtain ⟨a, hq, hk⟩ := h
  exact List.mem_flatMap.mpr ⟨a, List.mem_of_getElem? hq, List.mem_of_getElem? hk⟩

theorem mem_held {i : Nat} (h : (inSlot i).Has answers t b) : b ∈ t.buffers :=
  mem_buffers_iff.mpr ⟨i, h⟩

theorem taken_unique {q k q' k' : Nat} (hnodup : (answers.flatMap Answer.taken).Nodup)
    (h : (taken q k).Has answers t b) (h' : (taken q' k').Has answers t b) :
    taken q k = taken q' k' := by
  obtain ⟨a, hq, hk⟩ := h
  obtain ⟨a', hq', hk'⟩ := h'
  obtain ⟨hlt, rfl⟩ := List.getElem?_eq_some_iff.mp hq
  obtain ⟨hlt', rfl⟩ := List.getElem?_eq_some_iff.mp hq'
  obtain ⟨hinner, hapart⟩ := List.nodup_flatMap.mp hnodup
  have hdisjoint := List.pairwise_iff_getElem.mp hapart
  have hmem := List.mem_of_getElem? hk
  have hmem' := List.mem_of_getElem? hk'
  rcases Nat.lt_trichotomy q q' with hbefore | rfl | hafter
  · exact absurd hmem' (hdisjoint q q' hlt hlt' hbefore hmem)
  · obtain ⟨hklt, -⟩ := List.getElem?_eq_some_iff.mp hk
    have hpos : k = k' :=
      (List.getElem?_inj hklt (hinner _ (List.getElem_mem hlt))).mp (hk.trans hk'.symm)
    rw [hpos]
  · exact absurd hmem (hdisjoint q' q hlt' hlt hafter hmem')

/-- Two places of one buffer are the same if no buffer is met twice. -/
theorem has_unique {p idx : Nat} {place other : Place}
    (hnodup : (answers.filterMap Answer.refused? ++ answers.flatMap Answer.taken ++
      t.buffers).Nodup)
    (h : place.Has answers t b) (h' : other.Has answers t b)
    (hr : place.Reachable p idx) (hr' : other.Reachable p idx) : place = other := by
  obtain ⟨hout, -, hheld⟩ := List.nodup_append'.mp hnodup
  obtain ⟨-, htaken, hback⟩ := List.nodup_append'.mp hout
  cases place with
  | handedBack q =>
    cases other with
    | handedBack q' => rw [show q = p from hr, show q' = p from hr']
    | inSlot i => exact absurd (mem_held h') (hheld (List.mem_append_left _ (mem_refused h)))
    | taken q' k => exact absurd (mem_taken h') (hback (mem_refused h))
  | inSlot i =>
    cases other with
    | handedBack q => exact absurd (mem_held h) (hheld (List.mem_append_left _ (mem_refused h')))
    | inSlot i' => rw [show i = idx from hr, show i' = idx from hr']
    | taken q k => exact absurd (mem_held h) (hheld (List.mem_append_right _ (mem_taken h')))
  | taken q k =>
    cases other with
    | handedBack q' => exact absurd (mem_taken h) (hback (mem_refused h'))
    | inSlot i => exact absurd (mem_held h') (hheld (List.mem_append_right _ (mem_taken h)))
    | taken q' k' => exact taken_unique htaken h h'

end Place

variable [RxBuffer β]

/-- Whatever is met anywhere was handed over, and is where its call can have brought it. -/
theorem of_has {capacity : Nat} {calls : List (Call β)} {place : Place} {b : Tagged β}
    (h : place.Has ((withCapacity capacity).play (numbered calls)).1
      ((withCapacity capacity).play (numbered calls)).2 b) :
    ∃ idx, calls[b.tag]? = some (.arm idx b.buf) ∧ place.Reachable b.tag idx := by
  have hnew (i : Nat) : (withCapacity capacity).buffer? i ≠ some b := by
    rw [buffer?_withCapacity]
    exact (Option.some_ne_none b).symm
  cases place with
  | handedBack q =>
    obtain ⟨idx, harm⟩ := of_refused h
    obtain ⟨hq, hcall⟩ := numbered_arm.mp harm
    exact ⟨idx, hcall, hq⟩
  | inSlot i =>
    obtain ⟨p, harm⟩ := (of_held h).resolve_left (hnew i)
    exact ⟨i, (numbered_arm.mp harm).2, rfl⟩
  | taken q k =>
    obtain ⟨a, hq, hk⟩ := h
    obtain ⟨i, hfrom⟩ := of_taken hq (List.mem_of_getElem? hk)
    obtain ⟨p, hlt, harm⟩ := hfrom.resolve_left (hnew i)
    obtain ⟨rfl, hcall⟩ := numbered_arm.mp harm
    exact ⟨i, hcall, hlt⟩

theorem existsUnique_has (capacity : Nat) {calls : List (Call β)} {p idx : Nat} {buf : β}
    (h : calls[p]? = some (.arm idx buf)) :
    ∃! place : Place, place.Has ((withCapacity capacity).play (numbered calls)).1
      ((withCapacity capacity).play (numbered calls)).2 ⟨p, buf⟩ := by
  have hperm := play_perm (withCapacity capacity) (numbered calls)
  rw [buffers_withCapacity, List.append_nil] at hperm
  have hnodup := hperm.nodup_iff.mp (handed_nodup calls)
  have hhanded : ⟨p, buf⟩ ∈ (numbered calls).filterMap Call.handed? :=
    List.mem_filterMap.mpr ⟨.arm idx ⟨p, buf⟩, List.mem_of_getElem? (numbered_arm.mpr ⟨rfl, h⟩),
      rfl⟩
  obtain ⟨place, hplace⟩ := Place.exists_has (hperm.mem_iff.mp hhanded)
  refine ⟨place, hplace, ?_⟩
  intro other hother
  obtain ⟨idx', hcall, hreach⟩ := of_has hplace
  obtain ⟨idx'', hcall', hreach'⟩ := of_has hother
  cases h.symm.trans hcall
  cases h.symm.trans hcall'
  exact Place.has_unique hnodup hother hplace hreach' hreach

/-- However calls are mixed, every buffer handed over is in one place: handed back by its own call,
in the slot that it was armed for, or among what one later call gave up; and nothing else is
anywhere. To the table in the end a further buffer goes in exactly if its slot exists and is empty,
a retired slot gives its buffer, and a drain stopped after `count` gives those of the first armed
slots, in order, and leaves the others. Every slot has its own number for a cookie and the address
of the buffer armed there last. -/
theorem play_keeps_one_place (capacity : Nat) (calls : List (Call β)) :
    let audit := (withCapacity capacity).play (numbered calls)
    let run := (withCapacity capacity).play calls
    let t := run.2
    (audit.1.map (Answer.map Tagged.buf) = run.1 ∧ audit.2.map Tagged.buf = t) ∧
    (∀ p idx buf, calls[p]? = some (.arm idx buf) →
      (∃! place : Place, place.Has audit.1 audit.2 ⟨p, buf⟩) ∧
        ∀ place : Place, place.Has audit.1 audit.2 ⟨p, buf⟩ → place.Reachable p idx) ∧
    (∀ (place : Place) (b : Tagged β), place.Has audit.1 audit.2 b →
      ∃ idx, calls[b.tag]? = some (.arm idx b.buf)) ∧
    (∀ idx buf,
      (t.perform (.arm idx buf)).1 =
          (if idx < capacity ∧ t.isArmed idx = false then .armed else .refused buf) ∧
        ∀ i, (t.perform (.arm idx buf)).2.buffer? i =
          if i = idx ∧ idx < capacity ∧ t.isArmed idx = false then some buf else t.buffer? i) ∧
    (∀ idx, (t.retire idx).1 = t.buffer? idx ∧
      ∀ i, (t.retire idx).2.buffer? i = if i = idx then none else t.buffer? i) ∧
    (∀ count,
      (t.armedSlots.take count).Pairwise (· < ·) ∧
        (t.drain count).1.map some = (t.armedSlots.take count).map t.buffer? ∧
        ∀ i, (t.drain count).2.buffer? i =
          if i ∈ t.armedSlots.take count then none else t.buffer? i) ∧
    t.armedSlots = (List.range capacity).filter t.isArmed ∧
    t.inUseCount = t.armedSlots.length ∧
    ∀ i, t.slot? i =
      if i < capacity then
        some ⟨t.buffer? i, (lastArmed? i calls run.1).elim 0 RxBuffer.busAddr, i⟩
      else none := by
  intro audit run t
  have hcapacity : t.capacity = capacity :=
    (capacity_play _ calls).trans (capacity_withCapacity capacity)
  have herase : run = (audit.1.map (Answer.map Tagged.buf), audit.2.map Tagged.buf) := by
    have hmap := play_map (f := Tagged.buf) (fun _ => rfl) (withCapacity capacity) (numbered calls)
    rwa [map_withCapacity, numbered_erase] at hmap
  refine ⟨⟨(congrArg Prod.fst herase).symm, (congrArg Prod.snd herase).symm⟩, ?_, ?_, ?_, ?_, ?_,
    ?_, ?_, ?_⟩
  · intro p idx buf h
    refine ⟨existsUnique_has capacity h, ?_⟩
    intro place hplace
    obtain ⟨idx', hcall, hreach⟩ := of_has hplace
    cases h.symm.trans hcall
    exact hreach
  · intro place b hplace
    obtain ⟨idx, hcall, -⟩ := of_has hplace
    exact ⟨idx, hcall⟩
  · intro idx buf
    rw [← hcapacity]
    exact ⟨perform_arm_fst t idx buf, buffer?_arm t idx buf⟩
  · intro idx
    exact ⟨retire_fst t idx, buffer?_retire t idx⟩
  · intro count
    refine ⟨?_, drain_buffers t count, buffer?_drain t count⟩
    exact (List.pairwise_lt_range.filter _).sublist (List.take_sublist _ _)
  · rw [armedSlots, hcapacity]
  · exact inUseCount_eq_armedSlots t
  · intro i
    by_cases hi : i < capacity
    · have hstart := slot?_withCapacity (β := β) capacity i
      rw [if_pos hi] at hstart
      rw [if_pos hi]
      exact slot?_play hstart calls
    · rw [if_neg hi]
      exact Array.getElem?_eq_none (hcapacity.trans_le (Nat.le_of_not_lt hi))

/-- Four equal buffers: two go in, one finds its slot taken and one finds no slot. A drain that is
stopped after one buffer leaves the other in slot 2. -/
theorem play_keeps_one_place_alike :
    let buf : TaggedBuffer := ⟨0, 4096, []⟩
    let calls : List (Call TaggedBuffer) :=
      [.arm 0 buf, .arm 0 buf, .arm 3 buf, .arm 2 buf, .drain 1]
    let audit := (withCapacity 3).play (numbered calls)
    audit.1 = [.armed, .refused ⟨1, buf⟩, .refused ⟨2, buf⟩, .armed, .drained [⟨0, buf⟩]] ∧
      audit.2.buffer? 2 = some ⟨3, buf⟩ ∧
      (∃! place : Place, place.Has audit.1 audit.2 ⟨0, buf⟩) ∧
      (((withCapacity 3).play calls).2.slot? 0).map Slot.busAddr = some 4096 := by
  intro buf calls audit
  obtain ⟨-, hone, -, -, -, -, -, -, hslot⟩ := play_keeps_one_place 3 calls
  refine ⟨by decide +kernel, by decide +kernel, (hone 0 0 buf rfl).1, ?_⟩
  exact (congrArg (Option.map Slot.busAddr) (hslot 0)).trans (by decide +kernel)

end SlotTable

end FrameRing
