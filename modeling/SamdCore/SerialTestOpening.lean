import SamdCore.SerialSender
import SamdCore.SerialConfinement
import SamdCore.SerialTestModel

/-!
The serial test waits for the host to open the port.

The line state is zero until the host sets it, and `main` writes nothing before it
has seen DTR in it. Until then the tx ring is empty, and neither a completion nor a
configuration has anything to offer.
-/
namespace SamdCore
open MachineRuns

/-- The host sets the line state, with DTR in it. -/
def opensPort (U : UsbConstants) : DeviceEvent → Bool
  | .control (.setup p) =>
      Control.asks U p U.cdcSetControlLineState &&
        (p.wValue &&& 0xff).toUInt8 &&& cdcLinestateDtrMask != 0
  | _ => false

def opened (U : UsbConstants) (t : List DeviceStep) : Prop :=
  ∃ x ∈ t, opensPort U x.event = true

/-- Nothing is started, and `main` does not go on, before the port was opened. -/
structure OpensFirst (U : UsbConstants) (t : List DeviceStep) (s : SerialTest) : Prop where
  sends : startedIn (acted (serialSteps t)) ≠ [] → opened U t
  main : s.main ≠ .isOpen → opened U t

/-- The tx ring is empty, and nothing of it outstanding. -/
structure Unsent (d : System) : Prop where
  empty : (System.sender d).Outgoing []
  outstanding : d.epIn.outstanding = []

theorem Offered.of_empty {tail : Nat} {c : List UInt8} {started : List Slice}
    (h : Offered tail [] started c) : started = [] ∧ c = [] := by
  cases h with
  | nothing none => exact ⟨rfl, rfl⟩
  | slice confined _ short _ _ _ _ =>
      have pos := confined.pos
      have none := Nat.le_zero.mp short
      omega

variable {U : UsbConstants} {number : List UInt8} {m : Storage} {tmpBuffer : Nat → UInt8}
variable {d d' : System} {t : List DeviceStep} {s s' : SerialTest}

/-- No interrupt starts a slice of an empty ring. -/
theorem Unsent.interrupt (h : Unsent d) {event : SerialEvent} {out : SerialOutput}
    (interrupts : event.interrupts = true)
    (taken : serialMachine.step d event = some (d', out)) :
    Unsent d' ∧ startedIn out.acts = [] := by
  obtain ⟨c, outgoing, step, -⟩ := System.send_step h.empty taken
  generalize out.result = result at step
  generalize startedIn out.acts = started at step
  generalize after : d'.epIn.outstanding = outstanding at step
  cases step with
  | quiet _ => exact ⟨⟨outgoing, after.trans h.outstanding⟩, rfl⟩
  | completed busy _ _ =>
      have one := busy.outstanding
      rw [show (System.sender d).ep.outstanding = [] from h.outstanding] at one
      cases one
  | configured _ offered =>
      obtain ⟨rfl, rfl⟩ := offered.of_empty
      exact ⟨⟨outgoing, after⟩, rfl⟩
  | block _ | queued _ _ | first _ _ _ => cases interrupts

theorem opened.snoc (h : opened U t) (x : DeviceStep) : opened U (t ++ [x]) := by
  obtain ⟨y, before, opens⟩ := h
  exact ⟨y, List.mem_append_left _ before, opens⟩

/-- DTR is set in the line state by a request to set it, and only then. -/
theorem Control.dtr_step {c c' : Control} {event : ControlEvent} {acts : List ControlAction}
    (taken : (controlMachine U).step c event = some (c', acts)) (set : c'.dtr = true) :
    c.dtr = true ∨ opensPort U (.control event) = true := by
  cases (control_step taken).2 with
  | get _ | set _ | answered _ _ _ _ | ignored _ | off _ | counts _ _ | expires _ =>
      exact Or.inl set
  | lineState asks state =>
      right
      rw [(detect_spec _ _ _).1, state] at set
      exact Bool.and_eq_true_iff.mpr ⟨asks, set⟩
  | taken _ _ state =>
      left
      rw [(detect_spec _ _ _).1, state] at set
      exact set

/-- The invariant: as long as the port was not opened, `main` waits and nothing is sent. -/
structure Opening (U : UsbConstants) (t : List DeviceStep) (s : SerialTest) : Prop where
  dtr : s.control.dtr = true → opened U t
  waits : opened U t ∨
    s.main = .isOpen ∧ Unsent s.serial ∧ startedIn (acted (serialSteps t)) = []

namespace Opening

theorem step {event : DeviceEvent} {out : DeviceOutput} (h : Opening U t s)
    (taken : (serialTestMachine U number).step s event = some (s', out)) :
    Opening U (t ++ [⟨s, event, out, s'⟩]) s' := by
  by_cases before : opened U t
  · have after := before.snoc ⟨s, event, out, s'⟩
    exact ⟨fun _ => after, Or.inl after⟩
  obtain ⟨here, unsent, silent⟩ := h.waits.resolve_left before
  cases (SerialTest.serialTest_step taken).2 with
  | waits _ _ =>
      rw [← serialSteps_still t (x := ⟨s, .main, .nothing, s⟩) rfl] at silent
      exact ⟨fun set => (h.dtr set).snoc _, Or.inr ⟨here, unsent, silent⟩⟩
  | opens _ isOpen => exact absurd (h.dtr isOpen) before
  | writes writes _ =>
      rw [here] at writes
      cases writes
  | reads reading _ _ =>
      rw [here] at reading
      cases reading
  | @control event acts control step =>
      rw [← serialSteps_still t (x := ⟨s, .control event, .control event acts, _⟩) rfl] at silent
      refine ⟨fun set => ?_, Or.inr ⟨here, unsent, silent⟩⟩
      cases Control.dtr_step step set with
      | inl earlier => exact (h.dtr earlier).snoc _
      | inr opens => exact ⟨_, List.mem_append_right _ (List.mem_singleton_self _), opens⟩
  | serial interrupts step =>
      obtain ⟨unsent', none⟩ := unsent.interrupt interrupts step
      refine ⟨fun set => (h.dtr set).snoc _, Or.inr ⟨here, unsent', ?_⟩⟩
      rw [serialSteps_serial, acted_snoc, startedIn_append, silent, none]
      rfl

end Opening

theorem opening_run (h : (serialTestMachine U number).Runs (.started m tmpBuffer) t s) :
    Opening U t s := by
  induction h with
  | nil =>
      have closed : Control.initial.dtr = false := rfl
      exact ⟨fun set => absurd set (Bool.eq_false_iff.mp closed),
        Or.inr ⟨rfl, ⟨System.outgoing_constructed m, rfl⟩, rfl⟩⟩
  | snoc _ taken ih => exact ih.step taken

/-- In every run, nothing is sent before the host has opened the port. -/
theorem opens_first (h : (serialTestMachine U number).Runs (.started m tmpBuffer) t s) :
    OpensFirst U t s := by
  have opening := opening_run h
  refine ⟨fun sent => ?_, fun gone => ?_⟩
  · exact opening.waits.resolve_right fun waits => sent waits.2.2
  · exact opening.waits.resolve_right fun waits => gone waits.1

theorem opens_first_session :
    let run := (serialTestMachine Control.standard [0x41]).exec (.started System.zeroed fun _ => 0)
      [.main, .serial (.setConfiguration 1), .serial (.completion (some [1]) false), .main,
        .control (.setup ⟨0x21, 0x22, 1, 0, 0⟩), .main, .main]
    ∃ ran : run.isSome, OpensFirst Control.standard (run.get ran).1 (run.get ran).2 :=
  ⟨by decide +kernel, opens_first (Machine.runs_exec (by decide +kernel))⟩

end SamdCore
