import FrameRing.Header
import FrameRing.SourceRing.Basic

/-! # The device side of a source ring

The device consumes armed entries in ring order: it writes a frame into the buffer that the entry
at the tail names and then moves the tail word past the entry. It reaches the window directly.
-/

namespace FrameRing

inductive FirmwareError where
  | nothingArmed
  | frameTooLarge (len : Nat)
  | badEntry (cause : SourceRingError)
  | memory (fault : MemFault)
  deriving DecidableEq, Repr

def FirmwareError.message : FirmwareError → String
  | .nothingArmed => "No armed entry to consume"
  | .frameTooLarge len => s!"Frame of {len} bytes does not fit a receive buffer"
  | .badEntry cause => s!"Bad ring entry: {cause.message}"
  | .memory fault => fault.message

structure Firmware where
  layout : RingLayout
  flags : RingFlags
  bufferSize : Nat
  deriving DecidableEq, Repr

namespace Firmware

def behind (ring : SourceRing) (bufferSize : Nat) : Firmware :=
  ⟨ring.layout, ring.flags, bufferSize⟩

def loadPointer (fw : Firmware) (m : Window) (addr : Nat) : Except FirmwareError Nat :=
  match m.loadWord addr with
  | .error fault => .error (.memory fault)
  | .ok word => .ok (SourceRing.pointerWord fw.flags word)

def head (fw : Firmware) (m : Window) : Except FirmwareError Nat :=
  fw.loadPointer m fw.layout.headAddr

def tail (fw : Firmware) (m : Window) : Except FirmwareError Nat :=
  fw.loadPointer m fw.layout.tailAddr

def setTail (fw : Firmware) (m : Window) (tail : Nat) : Except FirmwareError Unit × Window :=
  match m.storeWord fw.layout.tailAddr (SourceRing.pointerWord fw.flags tail) with
  | (.error fault, m) => (.error (.memory fault), m)
  | (.ok _, m) => (.ok (), m)

def armed (fw : Firmware) (m : Window) : Except FirmwareError Nat :=
  match fw.head m with
  | .error e => .error e
  | .ok head =>
    match fw.tail m with
    | .error e => .error e
    | .ok tail => .ok ((head + fw.layout.numEntries - tail) % fw.layout.numEntries)

def tailEntryAddr (fw : Firmware) (m : Window) : Except FirmwareError Nat :=
  match fw.tail m with
  | .error e => .error e
  | .ok tail =>
    match fw.layout.entryAddr? tail with
    | none => .error (.badEntry .invalidLayout)
    | some addr => .ok addr

def peek (fw : Firmware) (m : Window) : Except FirmwareError RingEntry :=
  match fw.armed m with
  | .error e => .error e
  | .ok 0 => .error .nothingArmed
  | .ok _ =>
    match fw.tailEntryAddr m with
    | .error e => .error e
    | .ok addr =>
      match m.read addr RingEntry.size with
      | .error fault => .error (.memory fault)
      | .ok bytes => .ok (RingEntry.ofBytes bytes)

def advanceTail (fw : Firmware) (m : Window) : Except FirmwareError Unit × Window :=
  match fw.tail m with
  | .error e => (.error e, m)
  | .ok tail => fw.setTail m ((tail + 1) % fw.layout.numEntries)

def deliverRaw (fw : Firmware) (m : Window) (bytes : List UInt8) :
    Except FirmwareError RingEntry × Window :=
  if fw.bufferSize < bytes.length then (.error (.frameTooLarge bytes.length), m)
  else
    match fw.peek m with
    | .error e => (.error e, m)
    | .ok entry =>
      match m.write entry.busAddr bytes with
      | (.error fault, m) => (.error (.memory fault), m)
      | (.ok _, m) =>
        match fw.advanceTail m with
        | (.error e, m) => (.error e, m)
        | (.ok _, m) => (.ok entry, m)

def deliverFrame (fw : Firmware) (m : Window) (payload : List UInt8) :
    Except FirmwareError RingEntry × Window :=
  if FrameHeader.maxPayload < payload.length then (.error (.frameTooLarge payload.length), m)
  else fw.deliverRaw m ((FrameHeader.ofPayload payload.length).toBytes ++ payload)

def rewriteCookie (fw : Firmware) (m : Window) (cookie : Nat) :
    Except FirmwareError Unit × Window :=
  match fw.peek m with
  | .error e => (.error e, m)
  | .ok entry =>
    match RingEntry.ofFields entry.busAddr cookie entry.rbm with
    | .error e => (.error (.badEntry e), m)
    | .ok forged =>
      match fw.tailEntryAddr m with
      | .error e => (.error e, m)
      | .ok addr =>
        match m.write addr forged.toBytes with
        | (.error fault, m) => (.error (.memory fault), m)
        | (.ok _, m) => (.ok (), m)

end Firmware

end FrameRing
