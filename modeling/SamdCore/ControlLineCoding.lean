import SamdCore.ControlModel

/-!
Whose data the line coding is made of.

A flag says that line-coding data is expected. It is set by the request and
cleared by the next OUT completion, whatever that belongs to and however long it
is; a request abandoned before its data leaves it set for another transfer's. As
long as every completion taken is the seven bytes of its own request, the coding
is the one a host that follows the requests expects.
-/
namespace SamdCore
open MachineRuns

/-- What a host knows: the latest coding whose seven bytes were sent, and whether the
request under way still owes some. -/
structure HostView where
  coding : List UInt8
  awaiting : Bool

namespace HostView

def initial : HostView := ⟨Control.initial.usbLineInfo.bytes, false⟩

def after (U : UsbConstants) (v : HostView) : ControlEvent → HostView
  | .setup p => { v with awaiting := Control.asks U p U.cdcSetLineEncoding && p.wLength != 0 }
  | .outCompletion data =>
      if v.awaiting && data.length == 7 then ⟨data, false⟩ else v
  | .sysTick => v

/-- The view at the end of a run. -/
def of (U : UsbConstants) (t : List ControlStep) : HostView :=
  t.foldl (fun v x => v.after U x.event) initial

theorem of_snoc (U : UsbConstants) (t : List ControlStep) (x : ControlStep) :
    of U (t ++ [x]) = (of U t).after U x.event := by
  simp [of]

end HostView

namespace Control
variable (U : UsbConstants)

/-- The transfer under way on endpoint 0 is a SET_LINE_ENCODING. -/
def setsLineEncoding (s : Control) : Bool :=
  s.usbSetup.any fun p => asks U p U.cdcSetLineEncoding

/-- It is one with a data stage. -/
def owesLineEncoding (s : Control) : Bool :=
  s.usbSetup.any fun p => asks U p U.cdcSetLineEncoding && p.wLength != 0

/-- An OUT completion that is taken is of the request under way, and has its seven bytes. -/
def takesInTurn (s : Control) : ControlEvent → Bool
  | .outCompletion data =>
      !s.usbPendingNewLineInfo || (s.owesLineEncoding U && data.length == 7)
  | _ => true

end Control

/-- Completions of other transfers change nothing and are not evaluated, and the coding
returned is the one the host expects. -/
structure TakesOwnData (U : UsbConstants) (t : List ControlStep) : Prop where
  others : ∀ x ∈ t, ∀ data, x.event = .outCompletion data →
    x.pre.setsLineEncoding U = false →
    x.post.usbLineInfo = x.pre.usbLineInfo ∧ x.post.ticks = x.pre.ticks ∧
      ∀ rate line, .detectSerialReset rate line ∉ x.out
  returned : ∀ past x future p, t = past ++ x :: future → x.event = .setup p →
    Control.asks U p U.cdcGetLineEncoding = true →
    x.out = [.ep0In (HostView.of U past).coding, .ep0Out]

namespace LineEncoding

theorem overlay_seven (e : LineEncoding) {data : List UInt8} (h : data.length = 7) :
    (e.overlay data).bytes = data := by
  have all : e.bytes.drop 7 = [] := List.drop_eq_nil_of_le (Nat.le_of_eq e.size)
  rw [overlay_bytes, h, all, List.append_nil]
  exact List.take_of_length_le (Nat.le_of_eq h)

end LineEncoding

namespace Control
variable {U : UsbConstants} {s s' : Control} {event : ControlEvent} {out : List ControlAction}
variable {t : List ControlStep}

/-- The invariant: the coding stored is the host's, and the flag means what it should
while a request with data is under way. -/
structure Viewed (U : UsbConstants) (v : HostView) (s : Control) : Prop where
  coding : v.coding = s.usbLineInfo.bytes
  awaiting : v.awaiting = (s.usbPendingNewLineInfo && s.owesLineEncoding U)

theorem viewed_step {v : HostView} (h : Viewed U v s) (turn : takesInTurn U s event = true)
    (step : Moves U s event out s') : Viewed U (v.after U event) s' := by
  cases step with
  | get get =>
      exact ⟨h.coding, by simp [HostView.after, owesLineEncoding, asks_other get U.get_ne_set]⟩
  | @set p set =>
      refine ⟨h.coding, ?_⟩
      by_cases data : p.wLength = 0
      · simp [HostView.after, owesLineEncoding, data]
      · simp [HostView.after, owesLineEncoding, set, data]
  | lineState line same =>
      rw [(detect_spec _ _ _).1, same]
      have unset := asks_other line U.set_ne_lineState.symm
      exact ⟨h.coding, by simp [HostView.after, owesLineEncoding, unset]⟩
  | answered _ set _ _ =>
      exact ⟨h.coding, by simp [HostView.after, owesLineEncoding, set]⟩
  | @ignored data quiet =>
      have idle : v.awaiting = false := by rw [h.awaiting, quiet, Bool.false_and]
      rw [HostView.after, idle, Bool.false_and]
      exact h
  | @taken data s₁ pending _ same =>
      rw [(detect_spec _ _ _).1, same]
      simp only [takesInTurn, pending, Bool.not_true, Bool.false_or, Bool.and_eq_true,
        beq_iff_eq] at turn
      obtain ⟨owes, seven⟩ := turn
      have owed : v.awaiting = true := by rw [h.awaiting, pending, owes]; rfl
      rw [HostView.after, owed, seven]
      exact ⟨(LineEncoding.overlay_seven _ seven).symm, rfl⟩
  | off _ => exact ⟨h.coding, h.awaiting⟩
  | counts _ _ => exact ⟨h.coding, h.awaiting⟩
  | expires _ => exact ⟨h.coding, h.awaiting⟩

theorem viewed_run (h : (controlMachine U).Runs initial t s)
    (turns : ∀ x ∈ t, takesInTurn U x.pre x.event = true) : Viewed U (HostView.of U t) s := by
  induction h with
  | nil => exact ⟨rfl, rfl⟩
  | snoc _ taken ih =>
      rw [List.forall_mem_append, List.forall_mem_singleton] at turns
      rw [HostView.of_snoc]
      exact viewed_step (ih turns.1) turns.2 (control_step taken).2

theorem sets_of_owes (h : s.owesLineEncoding U = true) : s.setsLineEncoding U = true := by
  cases setup : s.usbSetup with
  | none => simp [owesLineEncoding, setup] at h
  | some p =>
      simp only [owesLineEncoding, setup, Option.any_some, Bool.and_eq_true] at h
      simp only [setsLineEncoding, setup, Option.any_some, h.1]

/-- A completion that is not taken changes nothing. -/
theorem others_unchanged {data : List UInt8} (turn : takesInTurn U s (.outCompletion data) = true)
    (foreign : s.setsLineEncoding U = false) (step : Moves U s (.outCompletion data) out s') :
    s' = s ∧ out = [] := by
  cases step with
  | ignored _ => exact ⟨rfl, rfl⟩
  | taken pending _ _ =>
      simp only [takesInTurn, pending, Bool.not_true, Bool.false_or, Bool.and_eq_true] at turn
      rw [sets_of_owes turn.1] at foreign
      cases foreign

theorem get_returns {p : SetupPacket} (get : asks U p U.cdcGetLineEncoding = true)
    (step : Moves U s (.setup p) out s') : out = [.ep0In s.usbLineInfo.bytes, .ep0Out] := by
  cases step with
  | get _ => rfl
  | set set =>
      rw [asks_other get U.get_ne_set] at set
      cases set
  | lineState line _ =>
      rw [asks_other get U.get_ne_lineState] at line
      cases line
  | answered other _ _ _ =>
      rw [get] at other
      cases other

/-- Line-coding data is taken from its own request only, in every run whose completions are
taken in turn. -/
theorem takesOwnData (U : UsbConstants) (h : (controlMachine U).Runs initial t s)
    (turns : ∀ x ∈ t, takesInTurn U x.pre x.event = true) : TakesOwnData U t := by
  constructor
  · intro x hx data event foreign
    obtain ⟨t₁, t₂, rfl, before, taken⟩ := h.of_mem hx
    have turn := turns x hx
    rw [event] at taken turn
    obtain ⟨post, none⟩ := others_unchanged turn foreign (control_step taken).2
    rw [post, none]
    exact ⟨rfl, rfl, fun _ _ => List.not_mem_nil⟩
  · rintro past x future p rfl event get
    obtain ⟨before, taken, -⟩ := h.at_step
    rw [List.forall_mem_append] at turns
    rw [event] at taken
    rw [(viewed_run before turns.1).coding]
    exact get_returns get (control_step taken).2

/-- Two requests, the first with its data, the second abandoned; then the coding is asked. -/
theorem takesOwnData_session :
    let run := (controlMachine standard).exec initial
      [.setup ⟨0x21, 0x20, 0, 0, 7⟩, .outCompletion [0xB0, 0x04, 0, 0, 0, 0, 8],
        .setup ⟨0x21, 0x20, 0, 0, 7⟩, .sysTick, .setup ⟨0xA1, 0x21, 0, 0, 7⟩]
    ∃ ran : run.isSome, TakesOwnData standard (run.get ran).1 :=
  ⟨by decide, takesOwnData standard (Machine.runs_exec (by decide)) (by decide +kernel)⟩

/-- The data sent with a SEND_BREAK becomes the line coding of an abandoned request. -/
theorem break_data_taken :
    let run := (controlMachine standard).exec initial
      [.setup ⟨0x21, 0x20, 0, 0, 7⟩, .setup ⟨0x21, 0x23, 0, 0, 7⟩,
        .outCompletion [0xB0, 0x04, 0, 0, 0, 0, 8]]
    ∃ ran : run.isSome, ¬ TakesOwnData standard (run.get ran).1 := by
  intro run
  refine ⟨by decide, fun h => ?_⟩
  have unchanged := (h.others (run.get (by decide)).1[2] (List.getElem_mem _)
    [0xB0, 0x04, 0, 0, 0, 0, 8] (by decide) (by decide)).1
  revert unchanged
  decide

end Control
end SamdCore
