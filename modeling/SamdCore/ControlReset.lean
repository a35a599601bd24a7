import SamdCore.ControlModel

/-!
When the application is erased: at the SysTick that makes 250 of them since the
latest evaluation of baud rate and line state, if that evaluation found 1200 baud
and DTR clear.

Every evaluation sets the countdown anew, to 250 or off, and nothing but SysTick
moves it otherwise; so its value is a function of the latest evaluation and of
the SysTicks after it.
-/
namespace SamdCore
open MachineRuns

/-- The events at which the firmware looks at baud rate and line state. -/
def Control.evaluates (U : UsbConstants) (s : Control) : ControlEvent → Bool
  | .setup p => asks U p U.cdcSetControlLineState
  | .outCompletion _ => s.usbPendingNewLineInfo
  | .sysTick => false

namespace ControlStep

/-- The line coding that an evaluation looks at, overlaid with what was received. -/
def coding (x : ControlStep) : LineEncoding :=
  match x.event with
  | .outCompletion data => x.pre.usbLineInfo.overlay data
  | _ => x.pre.usbLineInfo

def lineState (x : ControlStep) : UInt8 :=
  match x.event with
  | .setup p => (p.wValue &&& 0xff).toUInt8
  | _ => x.pre.usbCtrlLineInfo

/-- 1200 baud with DTR clear. -/
def touches (x : ControlStep) : Prop :=
  x.coding.baudRate = 1200 ∧ x.lineState &&& cdcLinestateDtrMask = 0

instance (x : ControlStep) : Decidable x.touches := inferInstanceAs (Decidable (_ ∧ _))

def evaluates (U : UsbConstants) (x : ControlStep) : Bool := x.pre.evaluates U x.event

/-- What touches, in the bytes stored and the value of the request. -/
theorem touches_of_lineState {x : ControlStep} {p : SetupPacket} (event : x.event = .setup p) :
    x.touches ↔ x.pre.usbLineInfo.bytes.take 4 = [0xB0, 0x04, 0x00, 0x00] ∧
      p.wValue.toNat % 2 = 0 := by
  have low : (p.wValue &&& 0xff).toUInt8.toNat % 2 = p.wValue.toNat % 2 := by
    have mask : p.wValue.toNat &&& 0xff = p.wValue.toNat % 256 :=
      Nat.and_two_pow_sub_one_eq_mod _ 8
    rw [UInt16.toNat_toUInt8, UInt16.toNat_and, show UInt16.toNat 0xff = 0xff from rfl, mask]
    omega
  rw [touches, coding, lineState, event, ← low]
  exact and_congr (LineEncoding.baudRate_eq_1200 _) dtr_clear_iff

/-- The same where data has come, which need not be all of a line coding. -/
theorem touches_of_data {x : ControlStep} {data : List UInt8}
    (event : x.event = .outCompletion data) :
    x.touches ↔ (data.take 7 ++ x.pre.usbLineInfo.bytes.drop data.length).take 4 =
      [0xB0, 0x04, 0x00, 0x00] ∧ x.pre.usbCtrlLineInfo.toNat % 2 = 0 := by
  rw [touches, coding, lineState, event, ← LineEncoding.overlay_bytes]
  exact and_congr (LineEncoding.baudRate_eq_1200 _) dtr_clear_iff

end ControlStep

def sysTicks (t : List ControlStep) : Nat := t.countP fun x => x.event = .sysTick

/-- The latest evaluation of a run, and the steps since. -/
def LatestEvaluation (U : UsbConstants) (t : List ControlStep) (y : ControlStep)
    (since : List ControlStep) : Prop :=
  ∃ before, t = before ++ y :: since ∧ y.evaluates U = true ∧
    ∀ z ∈ since, z.evaluates U = false

namespace Control
variable {U : UsbConstants} {s s' : Control} {event : ControlEvent} {out : List ControlAction}
variable {t : List ControlStep}

/-- What the countdown is after an evaluation and some steps. -/
def countdown (y : ControlStep) (since : List ControlStep) : Int :=
  if y.touches then 250 - sysTicks since else -1

theorem latestEvaluation_snoc {x y : ControlStep} {since : List ControlStep} :
    LatestEvaluation U (t ++ [x]) y since ↔
      (since = [] ∧ y = x ∧ x.evaluates U = true) ∨
        ∃ earlier, since = earlier ++ [x] ∧ LatestEvaluation U t y earlier ∧
          x.evaluates U = false := by
  constructor
  · rintro ⟨before, split, evaluates, none⟩
    rcases List.eq_nil_or_concat since with rfl | ⟨earlier, z, rfl⟩
    · obtain ⟨-, same⟩ := List.append_inj' split rfl
      obtain rfl := (List.cons.inj same).1
      exact Or.inl ⟨rfl, rfl, evaluates⟩
    · rw [List.concat_eq_append, ← List.cons_append, ← List.append_assoc] at split
      obtain ⟨rfl, same⟩ := List.append_inj' split rfl
      obtain rfl := (List.cons.inj same).1
      rw [List.concat_eq_append, List.forall_mem_append, List.forall_mem_singleton] at none
      exact Or.inr ⟨earlier, List.concat_eq_append, ⟨before, rfl, evaluates, none.1⟩, none.2⟩
  · rintro (⟨rfl, rfl, evaluates⟩ | ⟨earlier, rfl, ⟨before, rfl, evaluates, none⟩, last⟩)
    · exact ⟨t, rfl, evaluates, List.forall_mem_nil _⟩
    · refine ⟨before, by simp, evaluates, ?_⟩
      rw [List.forall_mem_append, List.forall_mem_singleton]
      exact ⟨none, last⟩

theorem sysTicks_snoc (since : List ControlStep) (x : ControlStep) :
    sysTicks (since ++ [x]) = sysTicks since + if x.event = .sysTick then 1 else 0 := by
  simp [sysTicks, List.countP_append, List.countP_singleton]

/-- What a step makes of the countdown. -/
theorem ticks_step (step : Moves U s event out s') (running : s'.halted = false) :
    (s.evaluates U event = true → s'.ticks = countdown ⟨s, event, out, s'⟩ []) ∧
      (s.evaluates U event = false →
        s'.ticks = (if event = .sysTick ∧ s.ticks ≠ -1 then s.ticks - 1 else s.ticks) ∧
          (event = .sysTick → s.ticks ≠ 1)) := by
  cases step with
  | get get =>
      have elsewhere := asks_other get U.get_ne_lineState
      exact ⟨fun h => by simp [evaluates, elsewhere] at h, fun _ => by simp⟩
  | set set =>
      have elsewhere := asks_other set U.set_ne_lineState
      exact ⟨fun h => by simp [evaluates, elsewhere] at h, fun _ => by simp⟩
  | lineState line same =>
      refine ⟨fun _ => ?_, fun h => by simp [evaluates, line] at h⟩
      rw [(detect_spec _ _ _).1, same]
      rfl
  | answered _ _ line _ => exact ⟨fun h => by simp [evaluates, line] at h, fun _ => by simp⟩
  | ignored quiet => exact ⟨fun h => by simp [evaluates, quiet] at h, fun _ => by simp⟩
  | taken pending _ same =>
      refine ⟨fun _ => ?_, fun h => by simp [evaluates, pending] at h⟩
      rw [(detect_spec _ _ _).1, same]
      rfl
  | off off => exact ⟨nofun, fun _ => by simp [off]⟩
  | counts on more => exact ⟨nofun, fun _ => by simp [on, more]⟩
  | expires _ => cases running

/-- The invariant: the countdown is what the latest evaluation says. -/
structure Counting (U : UsbConstants) (t : List ControlStep) (s : Control) : Prop where
  latest : ∀ y since, LatestEvaluation U t y since →
    s.ticks = countdown y since ∧ (y.touches → sysTicks since < 250)
  off : (∀ x ∈ t, x.evaluates U = false) → s.ticks = -1

theorem countdown_snoc {y x : ControlStep} {since : List ControlStep}
    (room : y.touches → sysTicks since < 250)
    (last : x.event = .sysTick → countdown y since ≠ 1) :
    countdown y (since ++ [x]) = (if x.event = .sysTick ∧ countdown y since ≠ -1 then
        countdown y since - 1 else countdown y since) ∧
      (y.touches → sysTicks (since ++ [x]) < 250) := by
  rw [countdown, countdown, sysTicks_snoc]
  rw [countdown] at last
  by_cases touch : y.touches
  · have := room touch
    simp only [if_pos touch] at last ⊢
    by_cases tick : x.event = .sysTick
    · have := last tick
      simp only [tick, if_true, true_and]
      rw [if_pos (by omega)]
      exact ⟨by push_cast; omega, fun _ => by omega⟩
    · simp only [tick, false_and, if_false, Nat.add_zero]
      exact ⟨trivial, room⟩
  · simp [touch]

theorem Counting.step {event : ControlEvent} {out : List ControlAction} (h : Counting U t s)
    (step : Moves U s event out s') (running : s'.halted = false) :
    Counting U (t ++ [⟨s, event, out, s'⟩]) s' := by
  obtain ⟨anew, on⟩ := ticks_step step running
  constructor
  · intro y since latest
    rcases latestEvaluation_snoc.mp latest with ⟨rfl, rfl, now⟩ | ⟨earlier, rfl, latest, quiet⟩
    · exact ⟨anew now, fun _ => by decide⟩
    · obtain ⟨ticks, room⟩ := h.latest y earlier latest
      obtain ⟨moved, more⟩ := on quiet
      rw [ticks] at moved more
      obtain ⟨next, room'⟩ := countdown_snoc (x := ⟨s, event, out, s'⟩) room more
      exact ⟨moved.trans next.symm, room'⟩
  · intro none
    rw [List.forall_mem_append, List.forall_mem_singleton] at none
    have off := h.off none.1
    rw [(on none.2).1, off]
    simp

end Control
end SamdCore
