import FrameRing.Header

/-! # Receive buffers

A receive buffer has a bus address that the device writes to and a view of bytes that the host
reads. The view is narrowed from the front and cut at the end; `stripHeader` does both, once, to
leave exactly the payload.
-/

namespace FrameRing

/-- Buffers that the device can fill. -/
class RxBuffer (β : Type) where
  busAddr : β → Nat
  data : β → List UInt8
  pullHead : β → Nat → β
  trim : β → Nat → β

/-- Cut a buffer down to its payload and tell the payload's length. A buffer without a valid
header is handed back as it is. -/
def stripHeader {β : Type} [RxBuffer β] (buf : β) : Except FrameError Nat × β :=
  match FrameHeader.parse (RxBuffer.data buf) with
  | .error e => (.error e, buf)
  | .ok header =>
    (.ok header.payloadLen,
      RxBuffer.trim (RxBuffer.pullHead buf FrameHeader.size) header.payloadLen)

structure TaggedBuffer where
  tag : Nat
  busAddr : Nat
  data : List UInt8
  deriving DecidableEq, Repr

instance : RxBuffer TaggedBuffer where
  busAddr b := b.busAddr
  data b := b.data
  pullHead b len := { b with data := b.data.drop len }
  trim b len := { b with data := b.data.take len }

end FrameRing
