import FrameRing.Proofs.Ring.Simulation
import FrameRing.Proofs.Stack.Surroundings

/-! # A scene in which nothing goes on

While nobody else acts, a ring runs in a scene as it runs on the platform itself. -/

namespace FrameRing.Scene

variable {rbm : Nat} {others : List Allocation}

/-- A scene with nothing on its agenda is its world and what the others hold. -/
def Quiet (others : List Allocation) (s : Scene) (w : World) : Prop := s = ⟨w, others, []⟩

theorem quiet_simulation (rbm : Nat) (others : List Allocation) :
    Simulation (platform rbm) (World.platform rbm)
      (fun r s r' w => r = r' ∧ Quiet others s w) (fun r s r' w => r = r' ∧ Quiet others s w)
      Eq (Quiet others) Eq (fun _ => True) where
  release := by
    rintro s w rfl b
    rfl
  sync := by
    rintro s w b rfl -
    exact ⟨rfl, rfl⟩
  deliver := by
    rintro s w rfl b
    rfl
  record := by
    rintro s w rfl event
    rfl
  dealloc := by
    rintro s w rfl a
    exact ⟨rfl, rfl⟩
  accessBegin := by
    rintro r s r' w ⟨rfl, rfl⟩
    exact ⟨rfl, fun _ => ⟨rfl, rfl⟩, fun _ _ => ⟨rfl, rfl⟩⟩
  accessEnd := by
    rintro r s r' w ⟨rfl, rfl⟩
    exact ⟨rfl, rfl⟩
  availableCount := by
    rintro r s r' w ⟨rfl, rfl⟩
    rfl
  nextEntry := by
    rintro r s r' w ⟨rfl, rfl⟩
    exact ⟨optionRel_refl _, rfl, rfl⟩
  nextFreeEntry := by
    rintro r s r' w ⟨rfl, rfl⟩
    exact ⟨optionRel_refl _, rfl, rfl⟩
  setEntry := by
    rintro r s r' w res res' ⟨rfl, rfl⟩ rfl busAddr cookie
    exact ⟨rfl, rfl, rfl⟩
  cookieOf := by
    rintro r s r' w res res' ⟨rfl, rfl⟩ rfl
    rfl
  acquire := by
    rintro r s r' w ⟨rfl, rfl⟩ size
    exact ⟨rfl, rfl, rfl⟩
  giveBack := by
    rintro r s r' w ⟨rfl, rfl⟩ b
    exact ⟨rfl, rfl⟩
  report := by
    rintro r s r' w ⟨rfl, rfl⟩ event
    exact ⟨rfl, rfl⟩

theorem fill_quiet {ring : Ring SourceRing DmaBuffer} {r : SourceRing} {w : World}
    {size count : Nat} {result : Except RingError Unit} {s : Section World SourceRing DmaBuffer}
    (h : (ring.enter r w).fill (World.platform rbm) size count = (result, s))
    (others : List Allocation) :
    (ring.enter r ⟨w, others, []⟩).fill (platform rbm) size count =
      (result, ⟨s.hw, s.table, s.cursor, ⟨s.world, others, []⟩⟩) := by
  simp only [Ring.enter] at h ⊢
  have hquiet : r = r ∧ Quiet others ⟨w, others, []⟩ w := ⟨rfl, rfl⟩
  have hfill :=
    Section.fill_simulation (quiet_simulation rbm others) ring.table ring.cursor hquiet size count
  rw [h] at hfill
  obtain ⟨hresult, htable, hcursor, hhw, hworld⟩ := hfill
  refine Prod.ext hresult ?_
  change Section.mk _ _ _ _ = _
  rw [hhw, htable, hcursor, hworld]

theorem drain_quiet (others : List Allocation) (r : SourceRing) (table : SlotTable DmaBuffer)
    (cursor : RingCursor) (w : World) (stats : RingStats) (retired : List DmaBuffer)
    (size count : Nat) :
    (Pass.drain (platform rbm) size count
        ⟨⟨r, table, cursor, ⟨w, others, []⟩⟩, stats, retired⟩).2.retired =
      (Pass.drain (World.platform rbm) size count
        ⟨⟨r, table, cursor, w⟩, stats, retired⟩).2.retired := by
  have hstart : Pass.Paired (fun r s r' w => r = r' ∧ Quiet others s w)
      ⟨⟨r, table, cursor, ⟨w, others, []⟩⟩, stats, retired⟩
      ⟨⟨r, table, cursor, w⟩, stats, retired⟩ := ⟨⟨rfl, rfl, rfl, rfl⟩, rfl, rfl⟩
  exact (hstart.drain (quiet_simulation rbm others) size count).2.retired

theorem attach_quiet (ring : Ring SourceRing DmaBuffer) (w : World) :
    ring.attach (platform rbm) ⟨w, others, []⟩ =
      let out := ring.attach (World.platform rbm) w
      (out.1, out.2.1, ⟨out.2.2, others, []⟩) := by
  have hquiet : Quiet others ⟨w, others, []⟩ w := rfl
  have hpaired : Ring.Paired Eq ring ring := ⟨rfl, optionRel_refl _⟩
  obtain ⟨hresult, hring, hworld⟩ := Ring.attach_simulation (quiet_simulation rbm others) hpaired
    hquiet (fun r r' hr hr' => ⟨Option.some.inj (hr.symm.trans hr'), hquiet⟩)
  exact Prod.ext hresult (Prod.ext (hring.eq) hworld)

theorem tryReap_quiet (ring : Ring SourceRing DmaBuffer) (w : World) :
    ring.tryReap (platform rbm) ⟨w, others, []⟩ =
      let out := ring.tryReap (World.platform rbm) w
      (out.1, out.2.1, ⟨out.2.2, others, []⟩) := by
  have hquiet : Quiet others ⟨w, others, []⟩ w := rfl
  have hpaired : Ring.Paired Eq ring ring := ⟨rfl, optionRel_refl _⟩
  obtain ⟨hresult, hring, hworld⟩ := Ring.tryReap_simulation (quiet_simulation rbm others) hpaired
    hquiet (fun r r' hr hr' => ⟨Option.some.inj (hr.symm.trans hr'), hquiet⟩)
    (fun _ _ _ _ _ _ _ => trivial)
  exact Prod.ext hresult (Prod.ext (hring.eq) hworld)

end FrameRing.Scene
