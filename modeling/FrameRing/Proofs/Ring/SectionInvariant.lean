import FrameRing.Proofs.Ring.Runs

/-! # What an access section keeps

A section calls the hardware ring and the pool in turn. What each of these calls keeps, of the
hardware ring, of the world and of the buffers in the host's hands, a whole section keeps, also
where it fails. -/

namespace FrameRing

variable {ω η ε β : Type}

def LogEvent.reportsLeak : LogEvent → Bool
  | .ringMemoryLeaked .. | .bufferLeaked .. => true
  | _ => false

/-- `C hw w held` is kept by each call of a section that acquires buffers of `size` bytes, where
`held` are the buffers in the host's hands. -/
structure SectionInvariant [RxBuffer β] (p : Platform ω η ε β) (size : Nat)
    (C : η → ω → List β → Prop) : Prop where
  perm {hw w held held'} (h : C hw w held) (hp : held.Perm held') : C hw w held'
  acquire {hw w b w' held} (h : C hw w held) (ha : p.pool.acquire size w = (.ok b, w')) :
    C hw w' (b :: held)
  acquire_error {hw w e w' held} (h : C hw w held)
    (ha : p.pool.acquire size w = (.error e, w')) : C hw w' held
  release {hw w b held} (h : C hw w (b :: held)) : C hw (p.pool.release b w) held
  record {hw w held event} (h : C hw w held) (he : event.reportsLeak = false) :
    C hw (p.record event w) held
  nextEntry {hw w entry hw' w' held} (h : C hw w held)
    (hn : p.hardware.nextEntry hw w = (entry, hw', w')) : C hw' w' held
  nextFreeEntry {hw w entry hw' w' held} (h : C hw w held)
    (hn : p.hardware.nextFreeEntry hw w = (entry, hw', w')) : C hw' w' held
  setEntry {entry b cookie hw w result hw' w' held} (h : C hw w (b :: held))
    (hs : p.hardware.setEntry entry (RxBuffer.busAddr b) cookie hw w = (result, hw', w')) :
    C hw' w' (b :: held)

variable [RxBuffer β] {p : Platform ω η ε β} {size : Nat} {C : η → ω → List β → Prop}

namespace Section

variable {s : Section ω η β} {out : Except RingError Unit × Section ω η β}

theorem Placed.invariant (K : SectionInvariant p size C) {entry : ε} {b : β} (rest : List β)
    (h : C s.hw s.world (b :: (s.table.buffers ++ rest))) (ho : Placed p entry b s out) :
    C out.2.hw out.2.world (out.2.table.buffers ++ rest) := by
  cases ho with
  | rejected set => exact K.release (K.setEntry h set)
  | occupied set => exact K.release (K.setEntry h set)
  | armed set arm =>
    obtain ⟨-, -, -, -, -, hperm⟩ := SlotTable.of_arm arm
    exact K.perm (K.setEntry h set) (hperm.symm.append_right rest)

theorem ArmedNext.invariant (K : SectionInvariant p size C) (h : C s.hw s.world s.table.buffers)
    (ho : ArmedNext p size s out) : C out.2.hw out.2.world out.2.table.buffers := by
  cases ho with
  | occupied => exact h
  | starved _ acquire => exact K.acquire_error h acquire
  | full _ acquire free => exact K.release (K.nextFreeEntry (K.acquire h acquire) free)
  | placed _ acquire free place =>
    have hacquired := K.nextFreeEntry (K.acquire h acquire) free
    have hplaced := place.invariant K [] (by rwa [List.append_nil])
    rwa [List.append_nil] at hplaced

theorem armMany_invariant (K : SectionInvariant p size C) (count : Nat)
    (h : C s.hw s.world s.table.buffers) :
    C (s.armMany p size count).2.hw (s.armMany p size count).2.world
      (s.armMany p size count).2.table.buffers := by
  have hmany := armMany_rule (p := p) size count
    (P := fun _ s => C s.hw s.world s.table.buffers)
    (F := fun _ s => C s.hw s.world s.table.buffers)
    (by
      intro k s out hs ho
      have hout := ho.invariant K hs
      obtain ⟨result, s'⟩ := out
      cases result with
      | ok => exact .inl ⟨rfl, hout⟩
      | error e => exact .inr ⟨e, rfl, hout⟩)
    h
  rcases hmany with ⟨-, hs⟩ | ⟨e, -, hs⟩
  · exact hs
  · exact hs

end Section

namespace Pass

variable {s : Pass ω η β} {out : PassStep × Pass ω η β} {remaining : Nat}

omit [RxBuffer β] in
def held (s : Pass ω η β) : List β := s.table.buffers ++ s.retired

theorem Recycled.invariant (K : SectionInvariant p size C) {entry : ε} (h : C s.hw s.world s.held)
    (ho : Recycled p size remaining entry s out) : C out.2.hw out.2.world out.2.held := by
  cases ho with
  | desync => exact h
  | occupied => exact h
  | starved _ _ acquire => exact K.record (K.acquire_error h acquire) rfl
  | refused _ _ acquire place =>
    have hacquired := K.acquire h acquire
    exact place.invariant K s.retired hacquired
  | lost _ _ acquire place =>
    have hacquired := K.acquire h acquire
    exact place.invariant K s.retired hacquired
  | @renewed b w armed old table _ _ acquire place retire =>
    obtain ⟨-, -, -, -, -, hperm⟩ := SlotTable.of_retire retire
    have hacquired := K.acquire h acquire
    have hplaced := place.invariant K s.retired hacquired
    refine K.perm hplaced ?_
    change (armed.table.buffers ++ s.retired).Perm (table.buffers ++ (s.retired ++ [old]))
    rw [← List.append_assoc]
    exact (hperm.append_right s.retired).trans (List.perm_append_singleton _ _).symm

theorem Stepped.invariant (K : SectionInvariant p size C) (h : C s.hw s.world s.held)
    (ho : Stepped p size remaining s out) : C out.2.hw out.2.world out.2.held := by
  cases ho with
  | missing next => exact K.record (K.nextEntry h next) rfl
  | found next recycle =>
    have hfound := K.nextEntry h next
    exact recycle.invariant K hfound

theorem drain_invariant (K : SectionInvariant p size C) (count : Nat) (h : C s.hw s.world s.held) :
    C (s.drain p size count).2.hw (s.drain p size count).2.world (s.drain p size count).2.held :=
  (drain_rule (p := p) size count (P := fun s => C s.hw s.world s.held) (F := fun _ => True)
    (fun _ _ _ hs ho => ⟨ho.invariant K hs, fun _ _ => trivial⟩) h).1

end Pass

end FrameRing
