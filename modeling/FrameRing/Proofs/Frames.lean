import FrameRing.Pool.DmaBuffer

/-! # Frames in buffers

A buffer that starts with a frame is cut down to exactly the payload of the frame, whatever lies
behind it. -/

namespace FrameRing

def frameBytes (payload : List UInt8) : List UInt8 :=
  (FrameHeader.ofPayload payload.length).toBytes ++ payload

@[simp] theorem length_frameBytes (payload : List UInt8) :
    (frameBytes payload).length = FrameHeader.size + payload.length := by
  simp [frameBytes]

structure Fits (size : Nat) (payload : List UInt8) : Prop where
  room : FrameHeader.size + payload.length ≤ size
  short : payload.length ≤ FrameHeader.maxPayload

variable {payload rest : List UInt8}

theorem drop_frameBytes (payload rest : List UInt8) :
    (frameBytes payload ++ rest).drop FrameHeader.size = payload ++ rest := by
  rw [frameBytes, List.append_assoc]
  exact List.drop_left' (FrameHeader.length_toBytes _)

theorem FrameHeader.payloadLen_frameBytes (h : payload.length ≤ maxPayload)
    (rest : List UInt8) : (ofBytes (frameBytes payload ++ rest)).payloadLen = payload.length := by
  rw [frameBytes, List.append_assoc]
  exact payloadLen_ofBytes_toBytes (h := ofPayload payload.length) h _

theorem FrameHeader.parse_frameBytes (rest : List UInt8) (h : payload.length ≤ maxPayload) :
    (payload = [] ∧ parse (frameBytes payload ++ rest) = .error .emptyPayload) ∨
      payload ≠ [] ∧ ∃ header, parse (frameBytes payload ++ rest) = .ok header ∧
        header.payloadLen = payload.length := by
  have hlen := length_frameBytes payload
  have hclaim := payloadLen_frameBytes h rest
  unfold parse
  rw [if_neg (by rw [List.length_append]; omega)]
  simp only [hclaim]
  by_cases he : payload = []
  · exact .inl ⟨he, if_pos (by rw [he]; rfl)⟩
  · refine .inr ⟨he, ofBytes (frameBytes payload ++ rest), ?_, hclaim⟩
    rw [if_neg (by simpa using he), if_neg (by rw [List.length_append]; omega)]

/-- A frame in a buffer is stripped down to its payload; an empty payload is refused. -/
theorem stripHeader_frame (buf : DmaBuffer) (hd : buf.data = frameBytes payload ++ rest)
    (h : payload.length ≤ FrameHeader.maxPayload) :
    (payload = [] ∧ ∃ e, stripHeader buf = (.error e, buf)) ∨
      payload ≠ [] ∧ ∃ frame, stripHeader buf = (.ok payload.length, frame) ∧
        frame.data = payload ∧ frame.allocation = buf.allocation := by
  have hdata : RxBuffer.data buf = frameBytes payload ++ rest := hd
  unfold stripHeader
  rw [hdata]
  rcases FrameHeader.parse_frameBytes rest h with ⟨he, hp⟩ | ⟨hne, header, hp, hlen⟩
  · exact .inl ⟨he, _, by rw [hp]⟩
  · obtain ⟨len, reserved⟩ := header
    obtain rfl : len = payload.length := hlen
    rw [hp]
    refine .inr ⟨hne, _, rfl, ?_, rfl⟩
    change (buf.data.drop FrameHeader.size).take payload.length = payload
    rw [hd, drop_frameBytes, List.take_left]

end FrameRing
