import SamdCore.MachineRuns

/-!
The data endpoints of `core/USB-CDC.c`: callback pointers, the transfers they
supply, and what the USB interrupt makes of completions.

The functions behind the callback pointers are a parameter, over a state of
their own. The USB layer is a submodule; what the driver relies on is
`usb_ep_ready` (enabled and nothing outstanding), that a start makes a transfer
outstanding until its completion is handled, and that enabling an endpoint
abandons what was outstanding. Transfers carry two marks of the proofs' own: who
supplied the buffer, and the bytes it held when the transfer was started.
-/
namespace SamdCore
open MachineRuns

structure InTransfer (κ α : Type) where
  supplier : κ
  buffer : α
  length : Nat
  zlp : Bool
  data : List UInt8

structure OutTransfer (ρ β : Type) where
  supplier : ρ
  buffer : β
  length : Nat

structure Endpoint (τ : Type) where
  enabled : Bool
  outstanding : List τ

namespace Endpoint
variable {τ : Type}

/-- `usb_ep_ready` -/
def ready (ep : Endpoint τ) : Bool := ep.enabled && ep.outstanding.isEmpty

def busy (ep : Endpoint τ) : Bool := !ep.outstanding.isEmpty

def start (ep : Endpoint τ) (x : τ) : Endpoint τ :=
  { ep with outstanding := ep.outstanding ++ [x] }

/-- `usb_ep_handled` -/
def handled (ep : Endpoint τ) : Endpoint τ :=
  { ep with outstanding := ep.outstanding.tail }

end Endpoint

/-- The code behind the callback pointers. A tx callback gets the length sent and
the value of `*new_len`, and leaves another there; a rx callback gets the buffer
and the length received. No buffer returned is a NULL pointer returned. `load`
is what the IN endpoint reads at a buffer. -/
structure Callbacks (σ κ ρ α β : Type) where
  tx : κ → Nat → Nat → σ → Option α × Nat × σ
  rx : ρ → Option β → Nat → σ → Option (β × Nat) × σ
  load : σ → α → Nat → List UInt8

structure Driver (σ κ ρ α β : Type) where
  txCallback : Option κ
  rxCallback : Option ρ
  currentTxBuffer : Option α
  currentRxBuffer : Option β
  currentTxLength : Nat
  epIn : Endpoint (InTransfer κ α)
  epOut : Endpoint (OutTransfer ρ β)
  client : σ

/-- What a step of the driver does at its borders, in order. A start says whether
the endpoint was busy already. -/
inductive Action (κ ρ α β : Type)
  | setTxCallback (cb : Option κ)
  | setRxCallback (cb : Option ρ)
  | runTxCallback (cb : κ) (len : Nat) (reply : Option α)
  | runRxCallback (cb : ρ) (buffer : Option β) (len : Nat) (reply : Option β)
  | startIn (busy : Bool) (x : InTransfer κ α)
  | startOut (busy : Bool) (x : OutTransfer ρ β)

namespace Driver
variable {σ κ ρ α β : Type}

/-- The static variables at reset, before USB is enabled. -/
def reset (client : σ) : Driver σ κ ρ α β where
  txCallback := none
  rxCallback := none
  currentTxBuffer := none
  currentRxBuffer := none
  currentTxLength := 0
  epIn := ⟨false, []⟩
  epOut := ⟨false, []⟩
  client := client

variable (C : Callbacks σ κ ρ α β)

def usbEpStartIn (d : Driver σ κ ρ α β) (supplier : κ) (buffer : α) (length : Nat) (zlp : Bool) :
    Driver σ κ ρ α β × List (Action κ ρ α β) :=
  let x : InTransfer κ α := ⟨supplier, buffer, length, zlp, C.load d.client buffer length⟩
  ({ d with epIn := d.epIn.start x }, [.startIn d.epIn.busy x])

def usbEpStartOut (d : Driver σ κ ρ α β) (supplier : ρ) (buffer : β) (length : Nat) :
    Driver σ κ ρ α β × List (Action κ ρ α β) :=
  let x : OutTransfer ρ β := ⟨supplier, buffer, length⟩
  ({ d with epOut := d.epOut.start x }, [.startOut d.epOut.busy x])

def usbserialRunTxCallback (d : Driver σ κ ρ α β) (len : Nat) :
    Driver σ κ ρ α β × List (Action κ ρ α β) :=
  match d.txCallback with
  | some cb =>
      let answer := C.tx cb len d.currentTxLength d.client
      let d := { d with
        currentTxLength := answer.2.1, currentTxBuffer := answer.1, client := answer.2.2 }
      match answer.1 with
      | some buffer =>
          let started := d.usbEpStartIn C cb buffer d.currentTxLength false
          (started.1, .runTxCallback cb len (some buffer) :: started.2)
      | none => (d, [.runTxCallback cb len none])
  | none => ({ d with currentTxBuffer := none, currentTxLength := 0 }, [])

def usbserialRunRxCallback (d : Driver σ κ ρ α β) (len : Nat) :
    Driver σ κ ρ α β × List (Action κ ρ α β) :=
  match d.rxCallback with
  | some cb =>
      let buffer := d.currentRxBuffer
      let answer := C.rx cb buffer len d.client
      let d := { d with currentRxBuffer := answer.1.map Prod.fst, client := answer.2 }
      match answer.1 with
      | some (new, newLen) =>
          let started := d.usbEpStartOut cb new newLen
          (started.1, .runRxCallback cb buffer len (some new) :: started.2)
      | none => (d, [.runRxCallback cb buffer len none])
  | none => ({ d with currentRxBuffer := none }, [])

def usbserialSetTxCallback (d : Driver σ κ ρ α β) (cb : Option κ) :
    Driver σ κ ρ α β × List (Action κ ρ α β) :=
  let d := { d with txCallback := cb }
  let ran := if d.epIn.ready then d.usbserialRunTxCallback C 0 else (d, [])
  (ran.1, .setTxCallback cb :: ran.2)

/-- The readiness tested is that of the IN endpoint, as in the source. -/
def usbserialSetRxCallback (d : Driver σ κ ρ α β) (cb : Option ρ) :
    Driver σ κ ρ α β × List (Action κ ρ α β) :=
  let d := { d with rxCallback := cb }
  let ran := if d.epIn.ready then d.usbserialRunRxCallback C 0 else (d, [])
  (ran.1, .setRxCallback cb :: ran.2)

/-- `usb_enable_ep` on both data endpoints, then both callbacks. -/
def usbserialInit (d : Driver σ κ ρ α β) : Driver σ κ ρ α β × List (Action κ ρ α β) :=
  let d := { d with epOut := ⟨true, []⟩, epIn := ⟨true, []⟩ }
  let tx := d.usbserialRunTxCallback C 0
  let rx := tx.1.usbserialRunRxCallback C 0
  (rx.1, tx.2 ++ rx.2)

def usbCbSetConfiguration (d : Driver σ κ ρ α β) (config : UInt8) :
    Driver σ κ ρ α β × Bool × List (Action κ ρ α β) :=
  if config ≤ 1 then
    let init := d.usbserialInit C
    (init.1, true, init.2)
  else (d, false, [])

/-- The first half of `usb_cb_completion`: `outLength` is what `usb_ep_out_length`
gives when the OUT endpoint is pending. -/
def completeOut (d : Driver σ κ ρ α β) (outLength : Option Nat) :
    Driver σ κ ρ α β × List (Action κ ρ α β) :=
  match outLength with
  | some length => { d with epOut := d.epOut.handled }.usbserialRunRxCallback C (length % 256)
  | none => (d, [])

/-- The second half of `usb_cb_completion`, for the IN endpoint. -/
def completeIn (d : Driver σ κ ρ α β) (inPending : Bool) :
    Driver σ κ ρ α β × List (Action κ ρ α β) :=
  if inPending then
    { d with epIn := d.epIn.handled }.usbserialRunTxCallback C d.currentTxLength
  else (d, [])

def usbCbCompletion (d : Driver σ κ ρ α β) (outLength : Option Nat) (inPending : Bool) :
    Driver σ κ ρ α β × List (Action κ ρ α β) :=
  let rx := d.completeOut C outLength
  let tx := rx.1.completeIn C inPending
  (tx.1, rx.2 ++ tx.2)

/-- A completion is reported only of an endpoint with a transfer outstanding. -/
def reportable (d : Driver σ κ ρ α β) (outLength : Option Nat) (inPending : Bool) : Bool :=
  (outLength.isNone || d.epOut.busy) && (!inPending || d.epIn.busy)

end Driver

/-- What can happen to the driver: calls of its interface, and the USB layer's. -/
inductive DriverEvent (κ ρ : Type)
  | setTxCallback (cb : Option κ)
  | setRxCallback (cb : Option ρ)
  | runTxCallback
  | runRxCallback
  | setConfiguration (config : UInt8)
  | completion (outLength : Option Nat) (inPending : Bool)

abbrev DriverStep (σ κ ρ α β : Type) :=
  Transition (Driver σ κ ρ α β) (DriverEvent κ ρ) (List (Action κ ρ α β))

def driverMachine {σ κ ρ α β : Type} (C : Callbacks σ κ ρ α β) :
    Machine (Driver σ κ ρ α β) (DriverEvent κ ρ) (List (Action κ ρ α β)) where
  step d event :=
    match event with
    | .setTxCallback cb => some (d.usbserialSetTxCallback C cb)
    | .setRxCallback cb => some (d.usbserialSetRxCallback C cb)
    | .runTxCallback => some (d.usbserialRunTxCallback C 0)
    | .runRxCallback => some (d.usbserialRunRxCallback C 0)
    | .setConfiguration config =>
        let set := d.usbCbSetConfiguration C config
        some (set.1, set.2.2)
    | .completion outLength inPending =>
        if d.reportable outLength inPending then some (d.usbCbCompletion C outLength inPending)
        else none

end SamdCore
