import SamdCore.ControlModel
import SamdCore.SerialModel

/-!
`examples/SerialTest.cpp` on the whole device: `main`, the serial port and
endpoint 0, one call of `main` or one interrupt at a time.

The calls of `main` are critical sections and can be taken whole. Its delays only
take time, and the pin that it switches is left out. The serial number is the
string that the bootloader has in flash.
-/
namespace SamdCore
open MachineRuns

namespace Control

def usbserialGetLineInfo (s : Control) : UInt8 := s.usbCtrlLineInfo

/-- `USBserial::DTR` -/
def dtr (s : Control) : Bool := s.usbserialGetLineInfo &&& cdcLinestateDtrMask != 0

/-- `USBserial::isOpen` -/
def isOpen (s : Control) : Bool := s.dtr

end Control

/-- What `main` does next. -/
inductive MainAt
  | isOpen
  | writeName
  | writeColon
  | writeSpace
  | writeNumber
  | read
  | write (length : UInt8)
deriving DecidableEq

structure SerialTest where
  control : Control
  serial : System
  tmpBuffer : Nat → UInt8
  main : MainAt

inductive DeviceEvent
  | main
  | control (event : ControlEvent)
  | serial (event : SerialEvent)

inductive DeviceOutput
  | nothing
  | control (event : ControlEvent) (acts : List ControlAction)
  | serial (event : SerialEvent) (out : SerialOutput)

abbrev DeviceStep := Transition SerialTest DeviceEvent DeviceOutput

/-- The memory of a string and of the zero behind it. -/
def cString (bytes : List UInt8) : Nat → UInt8 := fun i => bytes.getD i 0

/-- `"Serial No"` -/
def serialNo : List UInt8 := [0x53, 0x65, 0x72, 0x69, 0x61, 0x6C, 0x20, 0x4E, 0x6F]

def colon : UInt8 := 0x3A
def space : UInt8 := 0x20

/-- What the USB interrupt does to the serial port, and the USB layer before it. -/
def SerialEvent.interrupts : SerialEvent → Bool
  | .dma _ _ | .completion _ _ | .setConfiguration _ => true
  | _ => false

namespace SerialTest
variable (U : UsbConstants) (number : List UInt8)

/-- A call on the serial port has returned, and `main` goes on at `main`. -/
def returned (s : SerialTest) (event : SerialEvent) (ran : System × SerialOutput)
    (main : MainAt) : SerialTest × DeviceOutput :=
  ({ s with serial := ran.1, main }, .serial event ran.2)

def mainStep (s : SerialTest) : SerialTest × DeviceOutput :=
  match s.main with
  | .isOpen => ({ s with main := if s.control.isOpen then .writeName else .isOpen }, .nothing)
  | .writeName =>
      s.returned (.write (cString serialNo) 9) (s.serial.write (cString serialNo) 9) .writeColon
  | .writeColon => s.returned (.writeChar colon) (s.serial.writeChar colon) .writeSpace
  | .writeSpace => s.returned (.writeChar space) (s.serial.writeChar space) .writeNumber
  | .writeNumber =>
      let strlen := UInt8.ofNat number.length
      s.returned (.write (cString number) strlen) (s.serial.write (cString number) strlen) .read
  | .read =>
      let ran := s.serial.read s.tmpBuffer 64
      match ran.2.result with
      | .filled tmpBuffer length =>
          { s with tmpBuffer }.returned (.read s.tmpBuffer 64) ran (.write (UInt8.ofNat length))
      | _ => s.returned (.read s.tmpBuffer 64) ran .read
  | .write length =>
      s.returned (.write s.tmpBuffer length) (s.serial.write s.tmpBuffer length) .read

/-- Before `main`: the serial port is constructed, and USB enabled. -/
def started (m : Storage) (tmpBuffer : Nat → UInt8) : SerialTest :=
  ⟨.initial, .constructed m, tmpBuffer, .isOpen⟩

end SerialTest

/-- Nothing happens after `banzai`, which does not return. -/
def serialTestMachine (U : UsbConstants) (number : List UInt8) :
    Machine SerialTest DeviceEvent DeviceOutput where
  step s event :=
    if s.control.halted then none
    else
      match event with
      | .main => some (s.mainStep number)
      | .control event =>
          ((controlMachine U).step s.control event).map fun ran =>
            ({ s with control := ran.1 }, .control event ran.2)
      | .serial event =>
          if event.interrupts then
            (serialMachine.step s.serial event).map fun ran =>
              ({ s with serial := ran.1 }, .serial event ran.2)
          else none

namespace SerialTest
variable {U : UsbConstants} {number : List UInt8}
variable {s s' : SerialTest} {event : DeviceEvent} {out : DeviceOutput}

/-- What `main` asks for, and where it goes on, unless it waits or reads. -/
inductive Writes (number : List UInt8) (tmpBuffer : Nat → UInt8) :
    MainAt → SerialEvent → MainAt → Prop
  | name : Writes number tmpBuffer .writeName (.write (cString serialNo) 9) .writeColon
  | colon : Writes number tmpBuffer .writeColon (.writeChar colon) .writeSpace
  | space : Writes number tmpBuffer .writeSpace (.writeChar space) .writeNumber
  | number : Writes number tmpBuffer .writeNumber
      (.write (cString number) (UInt8.ofNat number.length)) .read
  | back {length : UInt8} : Writes number tmpBuffer (.write length) (.write tmpBuffer length) .read

/-- What a step can be. -/
inductive Moves (U : UsbConstants) (number : List UInt8) (s : SerialTest) :
    DeviceEvent → DeviceOutput → SerialTest → Prop
  | waits : s.main = .isOpen → s.control.isOpen = false → Moves U number s .main .nothing s
  | opens : s.main = .isOpen → s.control.isOpen = true →
      Moves U number s .main .nothing { s with main := .writeName }
  | writes {event main out serial} : Writes number s.tmpBuffer s.main event main →
      serialMachine.step s.serial event = some (serial, out) →
      Moves U number s .main (.serial event out) { s with serial, main }
  | reads {out serial tmpBuffer length} : s.main = .read →
      serialMachine.step s.serial (.read s.tmpBuffer 64) = some (serial, out) →
      out.result = .filled tmpBuffer length →
      Moves U number s .main (.serial (.read s.tmpBuffer 64) out)
        { s with serial, tmpBuffer, main := .write (UInt8.ofNat length) }
  | control {event acts control} : (controlMachine U).step s.control event = some (control, acts) →
      Moves U number s (.control event) (.control event acts) { s with control }
  | serial {event out serial} : event.interrupts = true →
      serialMachine.step s.serial event = some (serial, out) →
      Moves U number s (.serial event) (.serial event out) { s with serial }

theorem moves_of_main (s : SerialTest) :
    Moves U number s .main (s.mainStep number).2 (s.mainStep number).1 := by
  obtain ⟨control, serial, tmpBuffer, main⟩ := s
  cases main with
  | isOpen =>
      cases isOpen : control.isOpen with
      | true =>
          simp only [mainStep, isOpen]
          exact .opens rfl isOpen
      | false =>
          simp only [mainStep, isOpen]
          exact .waits rfl isOpen
  | writeName => exact .writes .name rfl
  | writeColon => exact .writes .colon rfl
  | writeSpace => exact .writes .space rfl
  | writeNumber => exact .writes .number rfl
  | read => exact .reads rfl rfl rfl
  | write length => exact .writes .back rfl

theorem serialTest_step (taken : (serialTestMachine U number).step s event = some (s', out)) :
    s.control.halted = false ∧ Moves U number s event out s' := by
  simp only [serialTestMachine] at taken
  split at taken
  · cases taken
  · rename_i running
    refine ⟨Bool.eq_false_iff.mpr running, ?_⟩
    cases event with
    | main =>
        obtain ⟨rfl, rfl⟩ := Prod.mk.inj (Option.some.inj taken)
        exact moves_of_main s
    | control event =>
        obtain ⟨⟨control, acts⟩, step, same⟩ := Option.map_eq_some_iff.mp taken
        obtain ⟨rfl, rfl⟩ := Prod.mk.inj same
        exact .control step
    | serial event =>
        dsimp only at taken
        split at taken
        · rename_i interrupts
          obtain ⟨⟨serial, out⟩, step, same⟩ := Option.map_eq_some_iff.mp taken
          obtain ⟨rfl, rfl⟩ := Prod.mk.inj same
          exact .serial interrupts step
        · cases taken

end SerialTest

/-- The part of an answer that is the serial port's, and the one that is endpoint 0's. -/
def DeviceOutput.ofSerial : DeviceOutput → Option (SerialEvent × SerialOutput)
  | .serial event out => some (event, out)
  | _ => none

def DeviceOutput.ofControl : DeviceOutput → Option (ControlEvent × List ControlAction)
  | .control event acts => some (event, acts)
  | _ => none

def serialSteps (t : List DeviceStep) : List SerialStep :=
  projected SerialTest.serial DeviceOutput.ofSerial t

def controlSteps (t : List DeviceStep) : List ControlStep :=
  projected SerialTest.control DeviceOutput.ofControl t

theorem serialSteps_still (t : List DeviceStep) {x : DeviceStep} (h : x.out.ofSerial = none) :
    serialSteps (t ++ [x]) = serialSteps t := projected_none t h

theorem serialSteps_serial (t : List DeviceStep) (s s' : SerialTest) (event : DeviceEvent)
    (call : SerialEvent) (out : SerialOutput) :
    serialSteps (t ++ [⟨s, event, .serial call out, s'⟩]) =
      serialSteps t ++ [⟨s.serial, call, out, s'.serial⟩] := projected_some t rfl

namespace SerialTest
variable {U : UsbConstants} {number : List UInt8}
variable {s s₀ : SerialTest} {t : List DeviceStep}

theorem projects_serial :
    Projects (serialTestMachine U number) serialMachine SerialTest.serial
      DeviceOutput.ofSerial := by
  intro s event s' out taken
  cases (serialTest_step taken).2 with
  | waits _ _ | opens _ _ | control _ => rfl
  | writes _ step => exact step
  | reads _ step _ => exact step
  | serial _ step => exact step

theorem projects_control :
    Projects (serialTestMachine U number) (controlMachine U) SerialTest.control
      DeviceOutput.ofControl := by
  intro s event s' out taken
  cases (serialTest_step taken).2 with
  | waits _ _ | opens _ _ | writes _ _ | reads _ _ _ | serial _ _ => rfl
  | control step => exact step

/-- The serial port's part of a run, and endpoint 0's, are runs of theirs. -/
theorem serial_runs (h : (serialTestMachine U number).Runs s₀ t s) :
    serialMachine.Runs s₀.serial (serialSteps t) s.serial := projects_serial.runs h

theorem control_runs (h : (serialTestMachine U number).Runs s₀ t s) :
    (controlMachine U).Runs s₀.control (controlSteps t) s.control := projects_control.runs h

end SerialTest
end SamdCore
