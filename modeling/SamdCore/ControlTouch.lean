import SamdCore.ControlReset
import SamdCore.SerialConfinement
import SamdCore.SerialTestModel

/-!
The touch that `reset.py` makes, as its host sees it: a line coding of 1200 baud is
announced and sent, DTR is cleared, and then 250 SysTicks pass.

The host may ask for anything else meanwhile, and SysTicks may come at any time. From
every state, a touch that gets to its end has the application erased: there is none
that the device does not leave so.
-/
namespace SamdCore
open MachineRuns

/-- How far a host is with its touch. -/
inductive Touch
  | none
  /-- A line coding was announced. -/
  | announced
  /-- It was sent, with 1200 baud. -/
  | slow
  /-- DTR was cleared, that many SysTicks ago. -/
  | cleared (ticks : Nat)
deriving DecidableEq

/-- The field `baud_rate` of what the host sends. -/
def sentRate (data : List UInt8) : Nat :=
  (data.take 4).foldr (fun byte high => byte.toNat + 256 * high) 0

def clearsDtr (p : SetupPacket) : Bool :=
  (p.wValue &&& 0xff).toUInt8 &&& cdcLinestateDtrMask == 0

namespace Touch
variable (U : UsbConstants)

def lineState (p : SetupPacket) : Touch → Touch
  | .slow | .cleared _ => if clearsDtr p then .cleared 0 else .slow
  | touch => touch

def next (touch : Touch) : ControlEvent → Touch
  | .setup p =>
      if Control.asks U p U.cdcSetLineEncoding then if p.wLength ≠ 0 then .announced else touch
      else if Control.asks U p U.cdcSetControlLineState then touch.lineState p
      else touch
  | .outCompletion data =>
      if touch = .announced then
        if 4 ≤ data.length ∧ sentRate data = 1200 then .slow else .none
      else touch
  | .sysTick =>
      match touch with
      | .cleared ticks => .cleared (ticks + 1)
      | touch => touch

/-- How far the touch is after a run that began without one. -/
def after (u : List ControlStep) : Touch :=
  u.foldl (fun touch x => touch.next U x.event) .none

end Touch

namespace Control
variable {U : UsbConstants} {s s' : Control} {event : ControlEvent} {out : List ControlAction}
variable {touch : Touch} {u : List ControlStep}

/-- What is sent sets the baud rate, if it has the whole field. -/
theorem baudRate_overlay (old : LineEncoding) {data : List UInt8} (field : 4 ≤ data.length) :
    (old.overlay data).baudRate = sentRate data := by
  have long : 4 ≤ (data.take 7).length := by
    rw [List.length_take]
    omega
  rw [LineEncoding.baudRate, LineEncoding.overlay_bytes, List.take_append_of_le_length long,
    List.take_take, Nat.min_eq_left (by decide), sentRate]

/-- The countdown of the device stands where the host believes it to. -/
def Follows : Touch → Control → Prop
  | .none, _ => True
  | .announced, s => s.usbPendingNewLineInfo = true
  | .slow, s => s.usbPendingNewLineInfo = false ∧ s.usbLineInfo.baudRate = 1200
  | .cleared ticks, s =>
      s.usbPendingNewLineInfo = false ∧ s.usbLineInfo.baudRate = 1200 ∧
        (s.halted = true ∨ ticks < 250 ∧ s.ticks = 250 - ticks)

theorem Follows.setup (h : Follows touch s) (p : SetupPacket) :
    Follows touch { s with usbSetup := some p } := by
  cases touch with
  | none | announced | slow | cleared _ => exact h

theorem Follows.lineState {p : SetupPacket} {line : UInt8} (h : Follows touch s)
    (value : line = (p.wValue &&& 0xff).toUInt8) :
    Follows (touch.lineState p) { s with
      usbSetup := some p
      usbCtrlLineInfo := line
      ticks := if s.usbLineInfo.baudRate = 1200 ∧ line &&& cdcLinestateDtrMask = 0 then 250
        else -1 } := by
  have slow (quiet : s.usbPendingNewLineInfo = false) (rate : s.usbLineInfo.baudRate = 1200) :
      Follows (if clearsDtr p then .cleared 0 else .slow) { s with
        usbSetup := some p
        usbCtrlLineInfo := line
        ticks := if s.usbLineInfo.baudRate = 1200 ∧ line &&& cdcLinestateDtrMask = 0 then 250
          else -1 } := by
    by_cases clear : clearsDtr p = true
    · rw [if_pos clear]
      have mask : line &&& cdcLinestateDtrMask = 0 := by
        rw [value]
        exact eq_of_beq clear
      exact ⟨quiet, rate, Or.inr ⟨by decide, if_pos ⟨rate, mask⟩⟩⟩
    · rw [if_neg clear]
      exact ⟨quiet, rate⟩
  cases touch with
  | none => trivial
  | announced => exact h
  | slow => exact slow h.1 h.2
  | cleared ticks => exact slow h.1 h.2.1

theorem Follows.request {p : SetupPacket} (h : Follows touch s)
    (step : Moves U s (.setup p) out s') : Follows (touch.next U (.setup p)) s' := by
  cases step with
  | get get =>
      rw [Touch.next, asks_other get U.get_ne_set, asks_other get U.get_ne_lineState]
      exact h.setup p
  | set set =>
      rw [Touch.next, if_pos set]
      split
      · rfl
      · exact h.setup p
  | lineState line same =>
      rw [Touch.next, asks_other line U.set_ne_lineState.symm, if_neg Bool.false_ne_true,
        if_pos line, (detect_spec _ _ _).1, same]
      exact h.lineState rfl
  | answered _ set line _ =>
      rw [Touch.next, set, line]
      exact h.setup p

theorem Follows.data {data : List UInt8} (h : Follows touch s)
    (step : Moves U s (.outCompletion data) out s') :
    Follows (touch.next U (.outCompletion data)) s' := by
  cases step with
  | ignored quiet =>
      cases touch with
      | announced =>
          have pending : s.usbPendingNewLineInfo = true := h
          rw [pending] at quiet
          cases quiet
      | none | slow | cleared _ => exact h
  | taken pending _ same =>
      cases touch with
      | none => trivial
      | announced =>
          rw [Touch.next, if_pos rfl, (detect_spec _ _ _).1, same]
          split
          · rename_i sent
            exact ⟨rfl, (baudRate_overlay _ sent.1).trans sent.2⟩
          · trivial
      | slow | cleared _ =>
          have quiet := h.1
          rw [pending] at quiet
          cases quiet

theorem Follows.tick (h : Follows touch s) (step : Moves U s .sysTick out s') :
    Follows (touch.next U .sysTick) s' := by
  cases touch with
  | none => trivial
  | announced | slow =>
      cases step with
      | off _ | counts _ _ | expires _ => exact h
  | cleared ticks =>
      obtain ⟨quiet, rate, counting⟩ := h
      cases step with
      | off off =>
          refine ⟨quiet, rate, counting.imp_right fun ⟨_, left⟩ => ?_⟩
          omega
      | counts on more =>
          refine ⟨quiet, rate, counting.imp_right fun ⟨early, left⟩ => ⟨by omega, ?_⟩⟩
          simp only [left]
          omega
      | expires _ => exact ⟨quiet, rate, Or.inl rfl⟩

theorem Follows.step (h : Follows touch s) (step : Moves U s event out s') :
    Follows (touch.next U event) s' := by
  cases event with
  | setup p => exact h.request step
  | outCompletion data => exact h.data step
  | sysTick => exact h.tick step

theorem follows_run (h : (controlMachine U).Runs s u s') : Follows (Touch.after U u) s' := by
  induction h with
  | nil => trivial
  | snoc _ taken ih =>
      rw [Touch.after, List.foldl_concat]
      exact ih.step (control_step taken).2

/-- In every run from any state, a touch that gets to its end has the application erased. -/
theorem touch_halts (h : (controlMachine U).Runs s u s')
    (touched : Touch.after U u = .cleared 250) : s'.halted = true := by
  have follows := follows_run h
  rw [touched] at follows
  exact follows.2.2.resolve_right fun early => Nat.lt_irrefl _ early.1

end Control

namespace SerialTest
variable {U : UsbConstants} {number : List UInt8} {s s' : SerialTest} {u : List DeviceStep}

/-- The serial test can be replaced by another program from every state that it can be in,
whatever its loop and the serial port do meanwhile. -/
theorem always_reflashable (h : (serialTestMachine U number).Runs s u s')
    (touched : Touch.after U (controlSteps u) = .cleared 250) : s'.control.halted = true :=
  Control.touch_halts (control_runs h) touched

/-- The countdown of a first touch runs when the second begins. -/
theorem always_reflashable_session :
    let run := (serialTestMachine Control.standard [0x41]).exec
      { started System.zeroed fun _ => 0 with
        control := { Control.initial with ticks := 3, usbPendingNewLineInfo := true } }
      ([.main, .serial (.setConfiguration 1), .control (.setup ⟨0x21, 0x22, 1, 0, 0⟩), .main,
        .control (.setup ⟨0x21, 0x20, 0, 0, 7⟩), .control .sysTick, .main,
        .control (.outCompletion [0xB0, 0x04, 0, 0, 0, 0, 8]), .main,
        .control (.setup ⟨0x21, 0x22, 0, 0, 0⟩), .control (.setup ⟨0xA1, 0x21, 0, 0, 7⟩),
        .control (.outCompletion [])] ++ List.replicate 250 (.control .sysTick))
    ∃ ran : run.isSome, (run.get ran).2.control.halted = true :=
  ⟨by decide +kernel,
    always_reflashable (Machine.runs_exec (by decide +kernel)) (by decide +kernel)⟩

end SerialTest
end SamdCore
