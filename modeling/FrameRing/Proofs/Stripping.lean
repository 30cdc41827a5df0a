import FrameRing.Proofs.Frames

/-! # Stripping

Exactly the well-formed frames are cut down to their payloads: those whose header claims at least
one byte and no more than lie behind it. Any other buffer stays as it is, and the error says what
is wrong with it. -/

namespace FrameRing

/-- Buffers whose view loses bytes from the front and keeps bytes at the front as asked. -/
class LawfulRxBuffer (β : Type) [RxBuffer β] : Prop where
  data_pullHead (b : β) (len : Nat) :
    RxBuffer.data (RxBuffer.pullHead b len) = (RxBuffer.data b).drop len
  data_trim (b : β) (len : Nat) :
    RxBuffer.data (RxBuffer.trim b len) = (RxBuffer.data b).take len

instance : LawfulRxBuffer DmaBuffer := ⟨fun _ _ => rfl, fun _ _ => rfl⟩

instance : LawfulRxBuffer TaggedBuffer := ⟨fun _ _ => rfl, fun _ _ => rfl⟩

def claimedLength (bytes : List UInt8) : Nat :=
  (bytes.getD 0 0).toNat + 256 * (bytes.getD 1 0).toNat

namespace FrameHeader

variable {bytes : List UInt8} {header : FrameHeader}

theorem payloadLen_ofBytes (bytes : List UInt8) :
    (ofBytes bytes).payloadLen = claimedLength bytes := by
  match bytes with
  | [] => rfl
  | [_] => rfl
  | _ :: _ :: _ => rfl

/-- A header that is there is kept as it was sent, the reserved half-word included. -/
theorem toBytes_ofBytes (h : size ≤ bytes.length) : (ofBytes bytes).toBytes = bytes.take size := by
  have hsize : size = 4 := rfl
  have hlen : (bytes.take 2).length = 2 := by
    rw [List.length_take]
    omega
  have hreserved : ((bytes.drop 2).take 2).length = 2 := by
    rw [List.length_take, List.length_drop]
    omega
  have hfirst := LittleEndian.encode_decode (bytes.take 2)
  have hsecond := LittleEndian.encode_decode ((bytes.drop 2).take 2)
  rw [hlen] at hfirst
  rw [hreserved] at hsecond
  rw [toBytes, ofBytes, hfirst, hsecond, hsize, ← List.take_add]

theorem parse_eq_ok_iff :
    parse bytes = .ok header ↔ size ≤ bytes.length ∧ header = ofBytes bytes ∧
      1 ≤ header.payloadLen ∧ header.payloadLen ≤ bytes.length - size := by
  unfold parse
  constructor
  · intro h
    split at h
    · cases h
    rename_i hlong
    simp only at h
    split at h
    · cases h
    rename_i hpos
    split at h
    · cases h
    rename_i hfits
    cases h
    exact ⟨Nat.le_of_not_lt hlong, rfl, Nat.pos_of_ne_zero hpos, Nat.le_of_not_lt hfits⟩
  · rintro ⟨hlong, rfl, hpos, hfits⟩
    rw [if_neg (Nat.not_lt.mpr hlong)]
    simp only
    rw [if_neg (Nat.ne_of_gt hpos), if_neg (Nat.not_lt.mpr hfits)]

theorem parse_truncated (h : bytes.length < size) :
    parse bytes = .error (.truncated bytes.length) :=
  if_pos h

theorem parse_emptyPayload (h : size ≤ bytes.length) (hzero : claimedLength bytes = 0) :
    parse bytes = .error .emptyPayload := by
  rw [parse, if_neg (Nat.not_lt.mpr h)]
  exact if_pos ((payloadLen_ofBytes bytes).trans hzero)

theorem parse_overrun (h : size ≤ bytes.length)
    (hover : bytes.length - size < claimedLength bytes) :
    parse bytes = .error (.overrun (claimedLength bytes) (bytes.length - size)) := by
  have hne : claimedLength bytes ≠ 0 := Nat.ne_of_gt (Nat.zero_lt_of_lt hover)
  rw [parse, if_neg (Nat.not_lt.mpr h)]
  simp only [payloadLen_ofBytes]
  rw [if_neg hne, if_pos hover]

end FrameHeader

section Strip

variable {β : Type} [RxBuffer β] {buf : β} {payload : List UInt8}

theorem stripHeader_of_error {e : FrameError}
    (h : FrameHeader.parse (RxBuffer.data buf) = .error e) : stripHeader buf = (.error e, buf) := by
  rw [stripHeader, h]

theorem stripHeader_eq_ok_iff {len : Nat} :
    (stripHeader buf).1 = .ok len ↔
      ∃ header, FrameHeader.parse (RxBuffer.data buf) = .ok header ∧ header.payloadLen = len := by
  unfold stripHeader
  cases FrameHeader.parse (RxBuffer.data buf) with
  | error e => simp
  | ok header => simp

/-- Nothing of the header and nothing from behind the payload is left. -/
theorem data_stripHeader [LawfulRxBuffer β] {len : Nat} (h : (stripHeader buf).1 = .ok len) :
    RxBuffer.data (stripHeader buf).2 =
      (RxBuffer.data buf).extract FrameHeader.size (FrameHeader.size + len) := by
  obtain ⟨header, hparse, rfl⟩ := stripHeader_eq_ok_iff.mp h
  rw [stripHeader, hparse]
  simp only
  rw [LawfulRxBuffer.data_trim, LawfulRxBuffer.data_pullHead, List.extract_eq_take_drop,
    Nat.add_sub_cancel_left]

theorem claimedLength_frameBytes (h : payload.length ≤ FrameHeader.maxPayload)
    (trailing : List UInt8) : claimedLength (frameBytes payload ++ trailing) = payload.length := by
  rw [← FrameHeader.payloadLen_ofBytes, FrameHeader.payloadLen_frameBytes h]

theorem extract_frameBytes (payload trailing : List UInt8) :
    (frameBytes payload ++ trailing).extract FrameHeader.size
      (FrameHeader.size + payload.length) = payload := by
  rw [List.extract_eq_take_drop, drop_frameBytes, Nat.add_sub_cancel_left, List.take_left]

theorem stripHeader_isOk_iff (len : Nat) :
    (stripHeader buf).1 = .ok len ↔
      FrameHeader.size ≤ (RxBuffer.data buf).length ∧
        len = claimedLength (RxBuffer.data buf) ∧ 1 ≤ len ∧
        len ≤ (RxBuffer.data buf).length - FrameHeader.size := by
  rw [stripHeader_eq_ok_iff]
  constructor
  · rintro ⟨header, hparse, rfl⟩
    obtain ⟨hlong, hheader, hpos, hfits⟩ := FrameHeader.parse_eq_ok_iff.mp hparse
    refine ⟨hlong, ?_, hpos, hfits⟩
    rw [hheader, FrameHeader.payloadLen_ofBytes]
  · rintro ⟨hlong, rfl, hpos, hfits⟩
    rw [← FrameHeader.payloadLen_ofBytes] at hpos hfits ⊢
    exact ⟨_, FrameHeader.parse_eq_ok_iff.mpr ⟨hlong, rfl, hpos, hfits⟩, rfl⟩

/-- A buffer is cut down to the payload exactly if a whole header claims at least one byte and no
more than the buffer holds; then the view is the payload. If not, the buffer stays as it is and the
error names the first rule that is broken. What the device puts into a buffer is always accepted,
whatever lies behind it, and an accepted header can be written out again. -/
theorem strips_exactly_well_formed [LawfulRxBuffer β] (buf : β) :
    let view := RxBuffer.data buf
    let claimed := claimedLength view
    let result := (stripHeader buf).1
    let view' := RxBuffer.data (stripHeader buf).2
    (∀ len, result = .ok len ↔
      4 ≤ view.length ∧ len = claimed ∧ 1 ≤ len ∧ len ≤ view.length - 4) ∧
    (∀ len, result = .ok len → view' = view.extract 4 (4 + len) ∧
      ∃ header, FrameHeader.parse view = .ok header ∧ header.payloadLen = len ∧
        header.toBytes = view.extract 0 4) ∧
    (view.length < 4 → stripHeader buf = (.error (.truncated view.length), buf)) ∧
    (4 ≤ view.length → claimed = 0 → stripHeader buf = (.error .emptyPayload, buf)) ∧
    (4 ≤ view.length → view.length - 4 < claimed →
      stripHeader buf = (.error (.overrun claimed (view.length - 4)), buf)) ∧
    (∀ payload trailing : List UInt8, 1 ≤ payload.length → payload.length ≤ 65535 →
      view = (FrameHeader.ofPayload payload.length).toBytes ++ payload ++ trailing →
      result = .ok payload.length ∧ view' = payload) := by
  intro view claimed result view'
  have haccepts : ∀ len, (stripHeader buf).1 = .ok len ↔ _ := stripHeader_isOk_iff
  refine ⟨haccepts, ?_, ?_, ?_, ?_, ?_⟩
  · intro len h
    refine ⟨data_stripHeader h, ?_⟩
    obtain ⟨header, hparse, hlen⟩ := stripHeader_eq_ok_iff.mp h
    obtain ⟨hlong, hheader, -⟩ := FrameHeader.parse_eq_ok_iff.mp hparse
    refine ⟨header, hparse, hlen, ?_⟩
    rw [hheader, FrameHeader.toBytes_ofBytes hlong]
    rfl
  · intro hshort
    exact stripHeader_of_error (FrameHeader.parse_truncated hshort)
  · intro hlong hzero
    exact stripHeader_of_error (FrameHeader.parse_emptyPayload hlong hzero)
  · intro hlong hover
    exact stripHeader_of_error (FrameHeader.parse_overrun hlong hover)
  · intro payload trailing hpos hmax hview
    replace hview : RxBuffer.data buf = frameBytes payload ++ trailing := hview
    have hclaimed := claimedLength_frameBytes hmax trailing
    have hok : result = .ok payload.length := by
      rw [haccepts, hview, hclaimed, List.length_append, length_frameBytes]
      exact ⟨by omega, rfl, hpos, by omega⟩
    refine ⟨hok, ?_⟩
    change RxBuffer.data (stripHeader buf).2 = payload
    rw [data_stripHeader hok, hview, extract_frameBytes]

/-- A payload with one stale byte behind it, a header that claims one byte more than there is, and
a frame as the device writes it. -/
theorem strips_exactly_well_formed_stale :
    let stale : DmaBuffer := ⟨⟨4096, 64⟩, 8, [3, 0, 9, 9, 104, 105, 106, 0xee]⟩
    let greedy : DmaBuffer := ⟨⟨4096, 64⟩, 6, [3, 0, 0, 0, 104, 105]⟩
    let sent : DmaBuffer := ⟨⟨4096, 64⟩, 7, frameBytes [7, 8] ++ [0xee]⟩
    (stripHeader stale).1 = .ok 3 ∧ (stripHeader stale).2.data = [104, 105, 106] ∧
      stripHeader greedy = (.error (.overrun 3 2), greedy) ∧
      (stripHeader sent).2.data = [7, 8] := by
  intro stale greedy sent
  obtain ⟨haccepts, hview, -⟩ := strips_exactly_well_formed stale
  obtain ⟨-, -, -, -, hoverrun, -⟩ := strips_exactly_well_formed greedy
  obtain ⟨-, -, -, -, -, hsent⟩ := strips_exactly_well_formed sent
  have hok : (stripHeader stale).1 = .ok 3 :=
    (haccepts 3).mpr ⟨by decide, by decide, by decide, by decide⟩
  exact ⟨hok, (hview 3 hok).1, hoverrun (by decide) (by decide),
    (hsent [7, 8] [0xee] (by decide) (by decide) rfl).2⟩

end Strip

end FrameRing
