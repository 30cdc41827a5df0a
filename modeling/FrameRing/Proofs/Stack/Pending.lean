import FrameRing.Proofs.Stack.Surroundings

/-! # What a pass retires

Whatever goes on around a ring, a pass retires only buffers that lay in the slots of completions
pending when it began. What it arms meanwhile goes into other slots. -/

namespace FrameRing.Pass

variable {rbm n size remaining first last : Nat} {s : Pass Scene SourceRing DmaBuffer}
  {out : PassStep × Pass Scene SourceRing DmaBuffer} {table₀ : SlotTable DmaBuffer}

/-- A step leaves slots and entries as they are, or reaps one completion: the slot at `writeIdx`
takes a buffer and the one at `readIdx` gives its buffer up. -/
theorem Stepped.moves (hr : Rotation n s.table s.cursor)
    (ho : Stepped (Scene.platform rbm) size remaining s out) :
    (out.2.hw = s.hw ∧ out.2.table = s.table ∧ out.2.retired = s.retired) ∨
      ∃ res b armed old, res.completed = true ∧ s.hw.Current res ∧
        out.2.hw =
          { s.hw with reapHead := s.hw.reapHeadAfter res, head := s.hw.next s.hw.head } ∧
        s.table.arm s.cursor.writeIdx b = .ok armed ∧
        armed.retire s.cursor.readIdx = (some old, out.2.table) ∧
        out.2.retired = s.retired ++ [old] := by
  cases ho with
  | missing next =>
    obtain ⟨rfl, -⟩ := DrivesSourceRing.nextEntry_answer next
    exact .inl ⟨rfl, rfl, rfl⟩
  | found next recycle =>
    obtain ⟨rfl, hfound⟩ := DrivesSourceRing.nextEntry_answer next
    have hw : s.cursor.writeIdx < s.table.capacity := hr.capacity.symm ▸ hr.write_lt
    cases recycle with
    | desync => exact .inl ⟨rfl, rfl, rfl⟩
    | occupied => exact .inl ⟨rfl, rfl, rfl⟩
    | starved => exact .inl ⟨rfl, rfl, rfl⟩
    | refused _ idle _ place =>
      rcases place.of_idle hw idle with ⟨e, -, hhw, -⟩ | ⟨hok, -⟩
      · cases place with
        | rejected => exact .inl ⟨hhw, rfl, rfl⟩
        | occupied => exact .inl ⟨hhw, rfl, rfl⟩
      · cases hok
    | lost _ _ _ place gone =>
      cases place with
      | armed _ arm => exact absurd gone (by simp [RingCursor.advanceWrite, hr.due_of_arm arm])
    | renewed _ idle _ place retire =>
      rcases place.of_idle hw idle with ⟨e, he, -⟩ | ⟨-, hcur, -, hhw⟩
      · cases he
      · cases place with
        | armed _ arm => exact .inr ⟨_, _, _, _, hfound _ rfl, hcur, hhw, arm, retire, rfl⟩

/-- The completions from `first` up to `last` were pending when the pass began on `table₀`. The
slots of those that still are have not changed, and those of the others were retired. -/
structure Pending (n first last : Nat) (table₀ : SlotTable DmaBuffer)
    (s : Pass Scene SourceRing DmaBuffer) : Prop where
  rotation : Rotation n s.table s.cursor
  lockstep : Lockstep n s.hw s.cursor
  tally : ∃ t, s.hw.Tracks t ∧ first ≤ t.reaped ∧ t.accepted = last ∧
    ∀ k, t.reaped ≤ k → k < last → s.table.slot? (k % n) = table₀.slot? (k % n)
  retired : ∀ b ∈ s.retired, ∃ k slot, first ≤ k ∧ k < last ∧
    table₀.slot? (k % n) = some slot ∧ slot.buffer = some b

theorem Stepped.pending (h : s.Pending n first last table₀)
    (ho : Stepped (Scene.platform rbm) size remaining s out) :
    out.2.Pending n first last table₀ := by
  have hrotation := (step_rotation h.rotation ho).1
  have hlockstep := ho.lockstep h.rotation h.lockstep
  obtain ⟨t, ht, hfirst, hlast, hslots⟩ := h.tally
  rcases ho.moves h.rotation with
    ⟨hhw, htable, hretired⟩ | ⟨res, b, armed, old, hdone, hcur, hhw, harm, hretire, hretired⟩
  · refine ⟨hrotation, hlockstep, ⟨t, ?_, hfirst, hlast, ?_⟩, ?_⟩
    · rwa [hhw]
    · rwa [htable]
    · rw [hretired]
      exact h.retired
  have hn : n = s.hw.numEntries := h.lockstep.entries.symm
  have hwrite : s.cursor.writeIdx = t.armed % n := by rw [← h.lockstep.next, ht.head, hn]
  have hread : s.cursor.readIdx = t.reaped % n := by rw [← h.lockstep.oldest, ht.reapHead, hn]
  have hreaped := ht.reaped_lt hcur hdone
  have haccepted := ht.accepted_le
  have harmed := ht.armed_lt
  obtain ⟨-, -, -, -, hother, -⟩ := SlotTable.of_arm harm
  obtain ⟨-, -, -, ⟨slot, hslot, hold⟩, hother', -⟩ := SlotTable.of_retire hretire
  have hspared {k : Nat} (hk : t.reaped ≤ k) (hka : k < last) :
      armed.slot? (k % n) = table₀.slot? (k % n) := by
    rw [hother, hslots k hk hka]
    rw [hwrite]
    exact position_ne (by omega) (by omega)
  refine ⟨hrotation, hlockstep, ⟨t.arm res, ?_, ?_, hlast, ?_⟩, ?_⟩
  · rw [hhw]
    exact ht.arm hcur (ht.room_of_completed hcur hdone)
  · exact Nat.le_trans hfirst (Nat.le_add_right _ _)
  · intro k hk hka
    rw [Tally.arm, hdone] at hk
    have hk' : t.reaped + 1 ≤ k := hk
    rw [hother', hspared (by omega) hka]
    rw [hread]
    exact Ne.symm (position_ne (by omega) (by omega))
  · intro b' hb
    rw [hretired] at hb
    rcases List.mem_append.mp hb with hb | hb
    · exact h.retired b' hb
    · rw [List.mem_singleton.mp hb]
      rw [hread, hspared (Nat.le_refl _) (by omega)] at hslot
      exact ⟨t.reaped, slot, hfirst, by omega, hslot, hold⟩

theorem drain_pending (rbm size count : Nat) (h : s.Pending n first last table₀) :
    (s.drain (Scene.platform rbm) size count).2.Pending n first last table₀ :=
  (drain_rule (p := Scene.platform rbm) size count (P := fun s => s.Pending n first last table₀)
    (F := fun _ => True) (fun _ _ _ hs ho => ⟨ho.pending hs, fun _ _ => trivial⟩) h).1

end FrameRing.Pass
