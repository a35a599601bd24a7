import SamdCore.CircularSegment
import SamdCore.MachineRuns
import Mathlib.Logic.Function.Basic

/-!
The echo build of `core/USB-CDC.c`: `usbserial_out_completion` as the rx callback,
and no tx callback, so that the tx half of the driver starts nothing.

An endpoint has at most one transfer outstanding, and a start replaces it. The
host and the USB hardware act on their own between interrupts: an OUT transfer
writes any bytes of its buffer before the packet is complete, and an IN transfer
reads each byte of its buffer whenever it likes, so what the host collects is
what the buffer held at those moments.
-/
namespace SamdCore
open CircularSegment MachineRuns

/-- An IN transfer, with the bytes that were read for it so far. The buffer is a
pointer, `none` for NULL. -/
structure InPacket where
  buffer : Option (Fin 4)
  length : Nat
  fetched : Nat → Option UInt8

structure OutPacket where
  buffer : Fin 4
  length : Nat

/-- A start says whether it replaced a transfer. -/
inductive EchoAction
  | startIn (outstanding : Bool) (buffer : Option (Fin 4)) (length : Nat)
  | startOut (outstanding : Bool) (buffer : Fin 4) (length : Nat)
  | collected (data : List UInt8)
deriving DecidableEq

structure Echo where
  /-- `usbserial_active_tx_buf`, counted modulo 4. -/
  usbserialActiveTxBuf : Fin 4
  usbserialBuf : Fin 4 → Nat → UInt8
  usbserialCurrentRxBuffer : Option (Fin 4)
  epIn : Option InPacket
  epOut : Option OutPacket
  /-- `usb_ep_pending(USB_EP_CDC_OUT)`, with `usb_ep_out_length`. -/
  outPending : Option Nat
  inPending : Bool

namespace Echo

def usbEpStartIn (s : Echo) (buffer : Option (Fin 4)) (length : Nat) : Echo × List EchoAction :=
  ({ s with epIn := some ⟨buffer, length, fun _ => none⟩ },
    [.startIn s.epIn.isSome buffer length])

def usbEpStartOut (s : Echo) (buffer : Fin 4) (length : Nat) : Echo × List EchoAction :=
  ({ s with epOut := some ⟨buffer, length⟩ }, [.startOut s.epOut.isSome buffer length])

/-- The buffer it returns comes with the value of `*new_len`. -/
def usbserialOutCompletion (s : Echo) (buffer : Option (Fin 4)) (len : Nat) :
    Echo × (Fin 4 × Nat) × List EchoAction :=
  if len = 0 then
    match buffer with
    | some buffer => (s, (buffer, 64), [])
    | none => (s, (s.usbserialActiveTxBuf, 64), [])
  else
    let sent := s.usbEpStartIn buffer len
    let s := { sent.1 with usbserialActiveTxBuf := sent.1.usbserialActiveTxBuf + 1 }
    (s, (s.usbserialActiveTxBuf, 64), sent.2)

/-- The rx callback is `usbserial_out_completion`, and it always returns a buffer. -/
def usbserialRunRxCallback (s : Echo) (len : Nat) : Echo × List EchoAction :=
  let ran := s.usbserialOutCompletion s.usbserialCurrentRxBuffer len
  let buffer := ran.2.1.1
  let started :=
    { ran.1 with usbserialCurrentRxBuffer := some buffer }.usbEpStartOut buffer ran.2.1.2
  (started.1, ran.2.2 ++ started.2)

def usbserialSetRxCallback (s : Echo) : Echo × List EchoAction :=
  if s.epIn.isNone then s.usbserialRunRxCallback 0 else (s, [])

/-- Both endpoints are enabled with nothing outstanding. -/
def usbserialInit (s : Echo) : Echo × List EchoAction :=
  let enabled :=
    { s with epIn := none, epOut := none, outPending := none, inPending := false }
  let registered := enabled.usbserialSetRxCallback
  let started := registered.1.usbserialRunRxCallback 0
  (started.1, registered.2 ++ started.2)

def usbCbCompletion (s : Echo) : Echo × List EchoAction :=
  let ran :=
    match s.outPending with
    | some length => { s with outPending := none }.usbserialRunRxCallback (length % 256)
    | none => (s, [])
  ({ ran.1 with inPending := false }, ran.2)

/-- The device after its first SET_CONFIGURATION, with anything in the buffers. -/
def configured (memory : Fin 4 → Nat → UInt8) : Echo :=
  usbserialInit {
    usbserialActiveTxBuf := 0
    usbserialBuf := memory
    usbserialCurrentRxBuffer := none
    epIn := none
    epOut := none
    outPending := none
    inPending := false } |>.1

/-- The OUT hardware writes into a buffer. -/
def write (s : Echo) (buffer : Fin 4) (i : Nat) (data : List UInt8) : Echo :=
  { s with
    usbserialBuf :=
      Function.update s.usbserialBuf buffer (blit (s.usbserialBuf buffer) i data) }

end Echo

/-- What the host receives, once every byte has been read. -/
def InPacket.data (x : InPacket) : List UInt8 :=
  (List.range x.length).map fun i => (x.fetched i).getD 0

def InPacket.complete (x : InPacket) : Bool :=
  (List.range x.length).all fun i => (x.fetched i).isSome

def InPacket.fetch (x : InPacket) (i : Nat) (byte : UInt8) : InPacket :=
  { x with fetched := Function.update x.fetched i (some byte) }

inductive EchoEvent
  | outWrite (i : Nat) (byte : UInt8)
  | outDone (data : List UInt8)
  | inFetch (i : Nat)
  | inDone
  | interrupt
deriving DecidableEq

abbrev EchoStep := Transition Echo EchoEvent (List EchoAction)

/-- The hardware acts on outstanding transfers only; the interrupt may come at any time. -/
def echoMachine : Machine Echo EchoEvent (List EchoAction) where
  step s event :=
    match event with
    | .outWrite i byte => s.epOut.bind fun x =>
        if i < x.length then some (s.write x.buffer i [byte], []) else none
    | .outDone data => s.epOut.bind fun x =>
        if data.length ≤ x.length then
          some ({ s.write x.buffer 0 data with epOut := none, outPending := some data.length },
            [])
        else none
    | .inFetch i => s.epIn.bind fun x => x.buffer.bind fun buffer =>
        if i < x.length then
          some ({ s with epIn := some (x.fetch i (s.usbserialBuf buffer i)) }, [])
        else none
    | .inDone => s.epIn.bind fun x =>
        if x.complete then
          some ({ s with epIn := none, inPending := true }, [.collected x.data])
        else none
    | .interrupt => some s.usbCbCompletion

namespace Echo

/-- What a step can be, with the buffers offered in turn. -/
inductive Moves (s : Echo) : EchoEvent → List EchoAction → Echo → Prop
  | outWrite {x i byte} : s.epOut = some x → i < x.length →
      Moves s (.outWrite i byte) [] (s.write x.buffer i [byte])
  | outDone {x data} : s.epOut = some x → data.length ≤ x.length →
      Moves s (.outDone data) []
        { s.write x.buffer 0 data with epOut := none, outPending := some data.length }
  | inFetch {x buffer i} : s.epIn = some x → x.buffer = some buffer → i < x.length →
      Moves s (.inFetch i) [] { s with epIn := some (x.fetch i (s.usbserialBuf buffer i)) }
  | inDone {x} : s.epIn = some x → x.complete = true →
      Moves s .inDone [.collected x.data] { s with epIn := none, inPending := true }
  | quiet : s.outPending = none →
      Moves s .interrupt [] { s with outPending := none, inPending := false }
  | reoffered : s.outPending = some 0 →
      Moves s .interrupt [.startOut s.epOut.isSome s.usbserialActiveTxBuf 64]
        { s with
          epOut := some ⟨s.usbserialActiveTxBuf, 64⟩
          outPending := none
          inPending := false }
  | echoed {n} : s.outPending = some n → n ≠ 0 →
      Moves s .interrupt
        [.startIn s.epIn.isSome (some s.usbserialActiveTxBuf) n,
          .startOut s.epOut.isSome (s.usbserialActiveTxBuf + 1) 64]
        { s with
          usbserialActiveTxBuf := s.usbserialActiveTxBuf + 1
          usbserialCurrentRxBuffer := some (s.usbserialActiveTxBuf + 1)
          epIn := some ⟨some s.usbserialActiveTxBuf, n, fun _ => none⟩
          epOut := some ⟨s.usbserialActiveTxBuf + 1, 64⟩
          outPending := none
          inPending := false }

/-- A transmission from a buffer other than the active one, with only bytes of that
buffer read for it. -/
def Transmits (s : Echo) (x : InPacket) : Prop :=
  ∃ buffer, x.buffer = some buffer ∧ buffer ≠ s.usbserialActiveTxBuf ∧
    ∀ i byte, x.fetched i = some byte → byte = s.usbserialBuf buffer i

/-- The buffer of the OUT endpoint is the active one, offered or just filled, and the
IN endpoint transmits from another. -/
structure Sound (s : Echo) : Prop where
  current : s.usbserialCurrentRxBuffer = some s.usbserialActiveTxBuf
  offered : ∀ x, s.epOut = some x →
    x.buffer = s.usbserialActiveTxBuf ∧ x.length = 64 ∧ s.outPending = none
  received : ∀ n, s.outPending = some n → n ≤ 64
  apart : ∀ x, s.epIn = some x → s.Transmits x

theorem interrupt_moves {s : Echo} (sound : s.Sound) :
    Moves s .interrupt s.usbCbCompletion.2 s.usbCbCompletion.1 := by
  cases pending : s.outPending with
  | none =>
      simp only [usbCbCompletion, pending]
      exact .quiet pending
  | some n =>
      have small : n % 256 = n := Nat.mod_eq_of_lt (by have := sound.received n pending; omega)
      simp only [usbCbCompletion, pending, usbserialRunRxCallback, usbserialOutCompletion,
        sound.current, small]
      by_cases empty : n = 0
      · rw [empty] at pending
        rw [if_pos empty, ← sound.current]
        exact .reoffered pending
      · rw [if_neg empty]
        exact .echoed pending empty

theorem echo_step {s s' : Echo} {event : EchoEvent} {out : List EchoAction} (sound : s.Sound)
    (taken : echoMachine.step s event = some (s', out)) : Moves s event out s' := by
  cases event with
  | outWrite i byte =>
      obtain ⟨x, offered, rest⟩ := Option.bind_eq_some_iff.mp taken
      obtain ⟨inside, same⟩ := Option.ite_none_right_eq_some.mp rest
      cases same
      exact .outWrite offered inside
  | outDone data =>
      obtain ⟨x, offered, rest⟩ := Option.bind_eq_some_iff.mp taken
      obtain ⟨fits, same⟩ := Option.ite_none_right_eq_some.mp rest
      cases same
      exact .outDone offered fits
  | inFetch i =>
      obtain ⟨x, sending, more⟩ := Option.bind_eq_some_iff.mp taken
      obtain ⟨buffer, pointer, rest⟩ := Option.bind_eq_some_iff.mp more
      obtain ⟨inside, same⟩ := Option.ite_none_right_eq_some.mp rest
      cases same
      exact .inFetch sending pointer inside
  | inDone =>
      obtain ⟨x, sending, rest⟩ := Option.bind_eq_some_iff.mp taken
      obtain ⟨complete, same⟩ := Option.ite_none_right_eq_some.mp rest
      cases same
      exact .inDone sending complete
  | interrupt =>
      cases taken
      exact interrupt_moves sound

end Echo
end SamdCore
