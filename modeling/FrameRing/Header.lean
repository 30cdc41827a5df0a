import FrameRing.LittleEndian

/-! # Frame headers

The device puts four bytes in front of every frame: the payload length and a reserved half-word,
both little-endian. A header is accepted only with a payload that is not empty and that the buffer
holds in full.
-/

namespace FrameRing

inductive FrameError where
  | truncated (len : Nat)
  | emptyPayload
  | overrun (claimed available : Nat)
  deriving DecidableEq, Repr

def FrameError.message : FrameError → String
  | .truncated len => s!"Buffer of {len} bytes cannot hold a frame header"
  | .emptyPayload => "Header claims an empty payload"
  | .overrun claimed available =>
    s!"Header claims {claimed} payload bytes but the buffer holds {available}"

structure FrameHeader where
  payloadLen : Nat
  reserved : Nat
  deriving DecidableEq, Repr

namespace FrameHeader

def size : Nat := 4

def maxPayload : Nat := (1 <<< 16) - 1

def ofPayload (len : Nat) : FrameHeader := ⟨len, 0⟩

def toBytes (h : FrameHeader) : List UInt8 :=
  LittleEndian.encode 2 h.payloadLen ++ LittleEndian.encode 2 h.reserved

@[simp] theorem length_toBytes (h : FrameHeader) : h.toBytes.length = size := by
  simp [toBytes, size]

def ofBytes (bytes : List UInt8) : FrameHeader :=
  ⟨LittleEndian.decode (bytes.take 2), LittleEndian.decode ((bytes.drop 2).take 2)⟩

theorem payloadLen_ofBytes_toBytes {h : FrameHeader} (len : h.payloadLen ≤ maxPayload)
    (rest : List UInt8) : (ofBytes (h.toBytes ++ rest)).payloadLen = h.payloadLen := by
  have first : (h.toBytes ++ rest).take 2 = LittleEndian.encode 2 h.payloadLen := by
    rw [toBytes, List.append_assoc]
    exact List.take_left' (LittleEndian.length_encode 2 h.payloadLen)
  rw [ofBytes, first, LittleEndian.decode_encode]
  exact Nat.mod_eq_of_lt (Nat.lt_succ_of_le len)

def parse (frame : List UInt8) : Except FrameError FrameHeader :=
  if frame.length < size then .error (.truncated frame.length)
  else
    let header := ofBytes frame
    let available := frame.length - size
    if header.payloadLen = 0 then .error .emptyPayload
    else if available < header.payloadLen then .error (.overrun header.payloadLen available)
    else .ok header

end FrameHeader

end FrameRing
