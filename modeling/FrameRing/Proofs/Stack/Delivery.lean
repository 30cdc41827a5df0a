import FrameRing.Proofs.Frames
import FrameRing.Proofs.Ring.Outcomes
import FrameRing.Proofs.Stack.Memory

/-! # Frames on their way to the consumer

A retired buffer shows the frame that the device put into it. Its consumer gets exactly the
payload; a buffer with an empty payload goes back to the pool. -/

namespace FrameRing

variable {payload : List UInt8}

structure DmaBuffer.Carries (b : DmaBuffer) (m : Window) (payload : List UInt8) : Prop where
  shows : m.Shows b.allocation.addr (frameBytes payload)
  fits : Fits b.size payload
  whole : b.size ≤ b.allocation.len

theorem DmaBuffer.Carries.sync {b : DmaBuffer} {m : HostMemory}
    (h : b.Carries m.window payload) (journal : Array LogEvent) (hf : m.faults = [])
    (hc : m.window.Covers b.allocation.addr b.allocation.len) :
    ∃ rest, b.sync ⟨m, journal⟩ =
      ({ b with data := frameBytes payload ++ rest }, ⟨m, journal⟩) := by
  have hroom := h.fits.room
  have hwhole := h.whole
  have hlen := length_frameBytes payload
  have hsub : m.window.Covers b.allocation.addr b.size := ⟨hc.1, by have := hc.2; omega⟩
  obtain ⟨bs, hread⟩ := Window.exists_read hsub
  obtain ⟨-, hl, hshow⟩ := Window.read_eq_ok_iff.mp hread
  have hfront : bs.take (frameBytes payload).length = frameBytes payload := by
    rw [← List.take_append_drop (frameBytes payload).length bs] at hshow
    exact hshow.prefix.unique h.shows (by rw [List.length_take]; omega)
  refine ⟨bs.drop (frameBytes payload).length, ?_⟩
  rw [DmaBuffer.sync, HostMemory.read_healthy hf, hread]
  have hbs : frameBytes payload ++ bs.drop (frameBytes payload).length = bs :=
    calc frameBytes payload ++ bs.drop (frameBytes payload).length
      _ = bs.take (frameBytes payload).length ++ bs.drop (frameBytes payload).length := by
        rw [hfront]
      _ = bs := List.take_append_drop _ bs
  simp only [hbs]

namespace Delivery

variable {rbm : Nat} {d out : Delivery World} {b : DmaBuffer} {live : List Allocation}

theorem Handled.frames (h : d.world.Owns (b.allocation :: live))
    (hc : b.Carries d.world.window payload) (ho : Handled (World.platform rbm) d b out) :
    out.world.window = d.world.window ∧
      ∃ frames : List DmaBuffer,
        out.world.rest.delivered.toList = d.world.rest.delivered.toList ++ frames ∧
        frames.map DmaBuffer.data = [payload].filter (· ≠ []) ∧
        out.world.Owns (frames.map DmaBuffer.allocation ++ live) := by
  obtain ⟨data, hsync⟩ := hc.sync d.world.host.journal h.faults (h.covers List.mem_cons_self)
  have hsync : (World.platform rbm).pool.syncForCpu b d.world =
      ({ b with data := frameBytes payload ++ data }, d.world) := by
    change World.sync b d.world = _
    rw [World.sync, hsync]
  rcases stripHeader_frame { b with data := frameBytes payload ++ data } rfl
    hc.fits.short with ⟨he, e, hstrip⟩ | ⟨hne, frame, hstrip, hdata, halloc⟩
  · cases ho with
    | delivered sync strip =>
      rw [hsync] at sync
      cases sync
      rw [hstrip] at strip
      cases strip
    | dropped sync strip =>
      rw [hsync] at sync
      cases sync
      rw [hstrip] at strip
      cases strip
      have hrec : World.Owns (d.world.record (.frameDropped b.allocation.addr e))
          (({ b with data := frameBytes payload ++ data } : DmaBuffer).allocation :: live) :=
        h.record _
      obtain ⟨slab, hrel, howns⟩ := hrec.release
      have hworld : (World.platform rbm).pool.release
          { b with data := frameBytes payload ++ data }
          ((World.platform rbm).record (.frameDropped b.allocation.addr e) d.world) =
          World.setSlab (d.world.record (.frameDropped b.allocation.addr e)) slab := hrel
      have hwindow := congrArg Machine.window hworld
      have hkept := congrArg (fun w : World => w.rest.delivered.toList) hworld
      refine ⟨hwindow, [], ?_, by simp [he], hworld ▸ howns⟩
      rw [List.append_nil]
      exact hkept
  · cases ho with
    | delivered sync strip =>
      rw [hsync] at sync
      cases sync
      rw [hstrip] at strip
      cases strip
      refine ⟨rfl, [frame], Array.toList_push, ?_, ?_⟩
      · simp [hdata, hne]
      · rw [List.map_singleton, halloc]
        exact (h.record _).deliver frame
    | dropped sync strip =>
      rw [hsync] at sync
      cases sync
      rw [hstrip] at strip
      cases strip

theorem foldl_frames {bufs : List DmaBuffer} {payloads : List (List UInt8)} {window : Window}
    (hc : List.Forall₂ (fun b payload => b.Carries window payload) bufs payloads)
    {d : Delivery World} (h : d.world.Owns (bufs.map DmaBuffer.allocation ++ live))
    (hw : d.world.window = window) :
    let out := (bufs.foldl (one (World.platform rbm)) d).world
    out.window = window ∧
      ∃ frames : List DmaBuffer,
        out.rest.delivered.toList = d.world.rest.delivered.toList ++ frames ∧
        frames.map DmaBuffer.data = payloads.filter (· ≠ []) ∧
        out.Owns (frames.map DmaBuffer.allocation ++ live) := by
  induction hc generalizing d live with
  | nil => exact ⟨hw, [], by simp, rfl, h⟩
  | @cons b payload bufs payloads hb hrest ih =>
    obtain ⟨hw', front, hfront, hdata, howns⟩ :=
      (handled (World.platform rbm) d b).frames h (hw ▸ hb)
    obtain ⟨hend, frames, hframes, hdata', howns'⟩ :=
      ih (howns.perm (List.perm_append_comm_assoc ..)) (hw'.trans hw)
    refine ⟨hend, front ++ frames, ?_, ?_, ?_⟩
    · rw [List.foldl_cons, hframes, hfront, List.append_assoc]
    · rw [List.map_append, hdata, hdata', ← List.filter_append]
      rfl
    · rw [List.map_append, List.append_assoc]
      exact howns'.perm (List.perm_append_comm_assoc ..)

/-- Retired buffers leave as the payloads in them, in the same order. -/
theorem all_frames (rbm : Nat) {bufs : List DmaBuffer} {payloads : List (List UInt8)} {w : World}
    (h : w.Owns (bufs.map DmaBuffer.allocation ++ live))
    (hc : List.Forall₂ (fun b payload => b.Carries w.window payload) bufs payloads) :
    let out := (Delivery.all (World.platform rbm) bufs w).world
    out.window = w.window ∧
      ∃ frames : List DmaBuffer,
        out.rest.delivered.toList = w.rest.delivered.toList ++ frames ∧
        frames.map DmaBuffer.data = payloads.filter (· ≠ []) ∧
        out.Owns (frames.map DmaBuffer.allocation ++ live) :=
  foldl_frames hc (d := ⟨0, 0, w⟩) h rfl

end Delivery

end FrameRing
