import SamdCore.CdcDriverModel
import SamdCore.RingBufferModel

/-!
`core/USBserial.cpp` on the CDC driver: the driver's callbacks are those of the
one `usbserial` object, and its functions call the driver's.

Between a start and its completion the USB layer may write anywhere in the
buffer it was offered; what it received is there when the completion is handled.
-/
namespace SamdCore
open CircularSegment MachineRuns

def usbSerialBufferLength : Nat := 64

/-- The fields of the class, and the copies its two rings have made so far. -/
structure USBserial where
  txBuffer : RingBuffer usbSerialBufferLength bufferUsbTxAlign
  rxBuffer : RingBuffer usbSerialBufferLength bufferUsbRxAlign
  receiveDMAInProgress : Bool
  transmitDMAInProgress : Bool
  txCopies : List Memcpy
  rxCopies : List Memcpy

namespace USBserial

/-- What `_send_data_cb` does first with the length of the transfer just sent. -/
def sent (u : USBserial) (txLen : Nat) : USBserial :=
  if 0 < txLen then { u with txBuffer := u.txBuffer.completeDirectRead txLen } else u

/-- What `_receive_data_cb` does first with the length received. -/
def got (u : USBserial) (len : Nat) : USBserial :=
  if 0 < len then
    let completed := u.rxBuffer.completeDirectWrite len
    { u with rxBuffer := completed.1, rxCopies := u.rxCopies ++ completed.2 }
  else u

def available (u : USBserial) : Bool := !u.rxBuffer.isEmpty

def receiveDataCb (u : USBserial) (len : Nat) : Option (WritePtr × Nat) × USBserial :=
  let u := u.got len
  if u.rxBuffer.isFull then (none, { u with receiveDMAInProgress := false })
  else (some u.rxBuffer.prepareDirectWrite, { u with receiveDMAInProgress := true })

def sendDataCb (u : USBserial) (txLen newLen : Nat) : Option Nat × Nat × USBserial :=
  let u := u.sent txLen
  if u.txBuffer.isEmpty then (none, newLen, { u with transmitDMAInProgress := false })
  else
    let (txBuffer, txHead, newLen) := u.txBuffer.prepareDirectRead
    let u := { u with txBuffer }
    if newLen ≠ 0 then (some txHead, newLen, { u with transmitDMAInProgress := true })
    else (none, newLen, { u with transmitDMAInProgress := false })

/-- The USB layer stores bytes in the buffer it was offered. -/
def dma (u : USBserial) (p : WritePtr) (i : Nat) (bytes : List UInt8) : USBserial :=
  match p with
  | .buffer offset =>
      { u with rxBuffer := { u.rxBuffer with buffer := blit u.rxBuffer.buffer (offset + i) bytes } }
  | .rxBuffer =>
      { u with rxBuffer := { u.rxBuffer with rxBuffer := blit u.rxBuffer.rxBuffer i bytes } }

end USBserial

/-- `usbserial_send_data_cb` and `usbserial_receive_data_cb`. -/
def usbserialCallbacks : Callbacks USBserial Unit Unit Nat WritePtr where
  tx _ len newLen u := u.sendDataCb len newLen
  rx _ _ len u := u.receiveDataCb len
  load u p len := slice u.txBuffer.buffer p len

abbrev System := Driver USBserial Unit Unit Nat WritePtr
abbrev SerialAction := Action Unit Unit Nat WritePtr

/-- The array and the bounce buffer of each ring, as the memory was before. -/
structure Storage where
  tx : Nat → UInt8
  txBounce : Nat → UInt8
  rx : Nat → UInt8
  rxBounce : Nat → UInt8

inductive SerialEvent
  | write (data : Nat → UInt8) (len : UInt8)
  | writeChar (c : UInt8)
  | read (buffer : Nat → UInt8) (maxLen : UInt8)
  | readChar
  | dma (i : Nat) (byte : UInt8)
  | completion (out : Option (List UInt8)) (inPending : Bool)
  | setConfiguration (config : UInt8)

/-- A request for a configuration that the device accepts. -/
def SerialEvent.configures : SerialEvent → Bool
  | .setConfiguration config => config ≤ 1
  | _ => false

inductive SerialResult
  | none
  | stored (count : Nat)
  | filled (buffer : Nat → UInt8) (count : Nat)
  | char (c : UInt8)

structure SerialOutput where
  result : SerialResult
  acts : List SerialAction

namespace System

/-- The members initialised, before the body of the constructor. -/
def uninitialised (m : Storage) : USBserial where
  txBuffer := .construct _ _ m.tx m.txBounce
  rxBuffer := .construct _ _ m.rx m.rxBounce
  receiveDMAInProgress := false
  transmitDMAInProgress := false
  txCopies := []
  rxCopies := []

/-- `USBserial::USBserial`, before USB is enabled. -/
def constructed (m : Storage) : System :=
  let d := (Driver.reset (uninitialised m)).usbserialSetTxCallback usbserialCallbacks (some ())
  (d.1.usbserialSetRxCallback usbserialCallbacks (some ())).1

/-- If no running tx transfer start one. -/
def runTxIfIdle (d : System) : System × List SerialAction :=
  if d.client.transmitDMAInProgress then (d, [])
  else d.usbserialRunTxCallback usbserialCallbacks 0

def runRxIfIdle (d : System) : System × List SerialAction :=
  if d.client.receiveDMAInProgress then (d, [])
  else d.usbserialRunRxCallback usbserialCallbacks 0

/-- `write(const char* data, uint8_t len)` -/
def write (d : System) (data : Nat → UInt8) (len : UInt8) : System × SerialOutput :=
  let stored := d.client.txBuffer.storeBuffer data len.toNat
  let u := { d.client with
    txBuffer := stored.1, txCopies := d.client.txCopies ++ stored.2.2 }
  let ran := runTxIfIdle { d with client := u }
  (ran.1, ⟨.stored stored.2.1, ran.2⟩)

/-- `write(uint8_t c)` -/
def writeChar (d : System) (c : UInt8) : System × SerialOutput :=
  let stored := d.client.txBuffer.storeChar c
  let ran := runTxIfIdle { d with client := { d.client with txBuffer := stored.1 } }
  (ran.1, ⟨.stored stored.2, ran.2⟩)

def read (d : System) (buffer : Nat → UInt8) (maxLen : UInt8) : System × SerialOutput :=
  let taken := d.client.rxBuffer.read buffer maxLen.toNat
  let u := { d.client with
    rxBuffer := taken.1, rxCopies := d.client.rxCopies ++ taken.2.2.2 }
  let ran := runRxIfIdle { d with client := u }
  (ran.1, ⟨.filled taken.2.1 taken.2.2.1, ran.2⟩)

def readChar (d : System) : System × SerialOutput :=
  let taken := d.client.rxBuffer.readChar
  let ran := runRxIfIdle { d with client := { d.client with rxBuffer := taken.1 } }
  (ran.1, ⟨.char taken.2, ran.2⟩)

/-- Whether the USB layer may have received these bytes: no more than it was offered. -/
def accepts (d : System) (out : Option (List UInt8)) : Bool :=
  match out, d.epOut.outstanding with
  | some bytes, x :: _ => bytes.length ≤ x.length
  | some _, [] => false
  | none, _ => true

/-- The memory as the USB layer leaves it for the completion. -/
def fill (d : System) (out : Option (List UInt8)) : System :=
  match out, d.epOut.outstanding with
  | some bytes, x :: _ => { d with client := d.client.dma x.buffer 0 bytes }
  | _, _ => d

def completion (d : System) (out : Option (List UInt8)) (inPending : Bool) :
    System × SerialOutput :=
  let ran := (d.fill out).usbCbCompletion usbserialCallbacks (out.map List.length) inPending
  (ran.1, ⟨.none, ran.2⟩)

def setConfiguration (d : System) (config : UInt8) : System × SerialOutput :=
  let set := d.usbCbSetConfiguration usbserialCallbacks config
  (set.1, ⟨.none, set.2.2⟩)

end System

abbrev SerialStep := Transition System SerialEvent SerialOutput

def serialMachine : Machine System SerialEvent SerialOutput where
  step d event :=
    match event with
    | .write data len => some (System.write d data len)
    | .writeChar c => some (System.writeChar d c)
    | .read buffer maxLen => some (System.read d buffer maxLen)
    | .readChar => some (System.readChar d)
    | .dma i byte =>
        match d.epOut.outstanding with
        | x :: _ =>
            if i < x.length then
              some ({ d with client := d.client.dma x.buffer i [byte] }, ⟨.none, []⟩)
            else none
        | [] => none
    | .completion out inPending =>
        if System.accepts d out && d.reportable (out.map List.length) inPending then
          some (System.completion d out inPending)
        else none
    | .setConfiguration config => some (System.setConfiguration d config)

namespace System
variable {d : System} {len : Nat}

theorem runRx_of_full (hcb : d.rxCallback = some ())
    (full : (d.client.got len).rxBuffer.isFull = true) :
    d.usbserialRunRxCallback usbserialCallbacks len =
      ({ d with
          currentRxBuffer := none
          client := { d.client.got len with receiveDMAInProgress := false } },
        [.runRxCallback () d.currentRxBuffer len none]) := by
  have answer : usbserialCallbacks.rx () d.currentRxBuffer len d.client =
      (none, { d.client.got len with receiveDMAInProgress := false }) := if_pos full
  simp only [Driver.usbserialRunRxCallback, hcb, answer]
  rfl

theorem runRx_of_room (hcb : d.rxCallback = some ())
    (room : ¬ (d.client.got len).rxBuffer.isFull = true) :
    d.usbserialRunRxCallback usbserialCallbacks len =
      ({ d with
          currentRxBuffer := some (d.client.got len).rxBuffer.prepareDirectWrite.1
          client := { d.client.got len with receiveDMAInProgress := true }
          epOut := d.epOut.start ⟨(), (d.client.got len).rxBuffer.prepareDirectWrite.1,
            (d.client.got len).rxBuffer.prepareDirectWrite.2⟩ },
        [.runRxCallback () d.currentRxBuffer len
            (some (d.client.got len).rxBuffer.prepareDirectWrite.1),
          .startOut d.epOut.busy ⟨(), (d.client.got len).rxBuffer.prepareDirectWrite.1,
            (d.client.got len).rxBuffer.prepareDirectWrite.2⟩]) := by
  have answer : usbserialCallbacks.rx () d.currentRxBuffer len d.client =
      (some (d.client.got len).rxBuffer.prepareDirectWrite,
        { d.client.got len with receiveDMAInProgress := true }) := if_neg room
  simp only [Driver.usbserialRunRxCallback, hcb, answer]
  rfl

theorem runTx_of_empty (hcb : d.txCallback = some ())
    (empty : (d.client.sent len).txBuffer.isEmpty = true) :
    d.usbserialRunTxCallback usbserialCallbacks len =
      ({ d with
          currentTxBuffer := none
          client := { d.client.sent len with transmitDMAInProgress := false } },
        [.runTxCallback () len none]) := by
  have answer : usbserialCallbacks.tx () len d.currentTxLength d.client =
      (none, d.currentTxLength, { d.client.sent len with transmitDMAInProgress := false }) :=
    if_pos empty
  simp only [Driver.usbserialRunTxCallback, hcb, answer]

theorem runTx_of_slice (hcb : d.txCallback = some ())
    (bytes : ¬ (d.client.sent len).txBuffer.isEmpty = true)
    {offer : RingBuffer usbSerialBufferLength bufferUsbTxAlign × Nat × Nat}
    (prepared : (d.client.sent len).txBuffer.prepareDirectRead = offer) (pos : offer.2.2 ≠ 0) :
    d.usbserialRunTxCallback usbserialCallbacks len =
      ({ d with
          currentTxBuffer := some offer.2.1
          currentTxLength := offer.2.2
          client := { d.client.sent len with txBuffer := offer.1, transmitDMAInProgress := true }
          epIn := d.epIn.start
            ⟨(), offer.2.1, offer.2.2, false, slice offer.1.buffer offer.2.1 offer.2.2⟩ },
        [.runTxCallback () len (some offer.2.1),
          .startIn d.epIn.busy
            ⟨(), offer.2.1, offer.2.2, false, slice offer.1.buffer offer.2.1 offer.2.2⟩]) := by
  have answer : usbserialCallbacks.tx () len d.currentTxLength d.client =
      (some offer.2.1, offer.2.2,
        { d.client.sent len with txBuffer := offer.1, transmitDMAInProgress := true }) := by
    simp only [usbserialCallbacks, USBserial.sendDataCb, if_neg bytes, prepared, if_pos pos]
  simp only [Driver.usbserialRunTxCallback, hcb, answer]
  rfl

end System
end SamdCore
