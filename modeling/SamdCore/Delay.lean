import SamdCore.ControlReset
import SamdCore.WhileLoops
import Mathlib.Data.Nat.Find
import Mathlib.Order.Monotone.Basic

/-!
`delay` of `core/delay.c`, against a tick counter that moves while it waits.

A call of `delay` sees the counter only where it calls `millis`, so a clock is
what those readings see: the true number of ticks at each, which never falls. The
counter is that number modulo 2^32, and the ticks between two readings are as
many as the interrupts let through.
-/
namespace SamdCore
open MachineRuns WhileLoops

/-- `while (test(millis()))` after `made` calls of `millis`: the number of calls
made when it is left. -/
def waitWhile (millis : Nat → UInt32) (test : UInt32 → Bool) (fuel made : Nat) : Option Nat :=
  (whileLoop (fun i => test (millis i)) (· + 1) fuel made).map (· + 1)

/-- `millis i` is what the call of `millis` returns that `i` others came before. The
result is the number of calls made. -/
def delay (millis : Nat → UInt32) (ms : UInt32) (fuel : Nat) : Option Nat :=
  if ms = 0 then some 0
  else
    let start := millis 0
    let end' := start + ms
    if end' < start then
      (waitWhile millis (fun now => end' < now) fuel 1).bind
        (waitWhile millis (fun now => end' > now) fuel)
    else waitWhile millis (fun now => end' > now) fuel 1

theorem waitWhile_ends {millis : Nat → UInt32} {test : UInt32 → Bool} {fuel made made' : Nat}
    (ends : waitWhile millis test fuel made = some made') :
    ∃ k, made ≤ k ∧ made' = k + 1 ∧ test (millis k) = false := by
  obtain ⟨k, left, last⟩ := Option.map_eq_some_iff.mp ends
  obtain ⟨later, stop⟩ := whileLoop_invariant (P := fun i => made ≤ i) (Nat.le_refl made)
    (fun i reached _ => Nat.le_succ_of_le reached) left
  exact ⟨k, later, last.symm, stop⟩

theorem waitWhile_first {millis : Nat → UInt32} {test : UInt32 → Bool} {made k : Nat}
    (reached : made ≤ k) (before : ∀ i, made ≤ i → i < k → test (millis i) = true)
    (stop : test (millis k) = false) {fuel : Nat} (enough : k < fuel) :
    waitWhile millis test fuel made = some (k + 1) := by
  rw [waitWhile, whileLoop_first reached before stop (by omega), Option.map_some]

/-- The ticks that have passed at each reading of the counter. -/
structure Clock where
  ticks : Nat → Nat
  forward : ∀ i, ticks i ≤ ticks (i + 1)

namespace Clock
variable (c : Clock) {ms : UInt32}

def millis (i : Nat) : UInt32 := UInt32.ofNat (c.ticks i)

/-- Readings are close, and the counter does not stop. -/
structure Steady : Prop where
  single : ∀ i, c.ticks (i + 1) ≤ c.ticks i + 1
  advances : ∀ t, ∃ i, t ≤ c.ticks i

/-- Reading `k` is the first with `t` ticks. -/
def FirstAt (t k : Nat) : Prop := c.ticks k = t ∧ ∀ i, i < k → c.ticks i < t

/-- No return before `ms` ticks, whatever the gaps between readings. -/
def NeverEarly (ms : UInt32) : Prop :=
  ∀ fuel made, delay c.millis ms fuel = some made →
    0 < made ∧ c.ticks 0 + ms.toNat ≤ c.ticks (made - 1)

/-- With enough fuel, reading `k` is the last that `delay` makes. -/
def ReturnsAt (ms : UInt32) (k : Nat) : Prop :=
  ∃ bound, ∀ fuel, bound ≤ fuel → delay c.millis ms fuel = some (k + 1)

variable {c}

theorem ticks_le {i j : Nat} (h : i ≤ j) : c.ticks i ≤ c.ticks j :=
  monotone_nat_of_le_succ c.forward h

theorem toNat_millis (i : Nat) : (c.millis i).toNat = c.ticks i % 4294967296 :=
  UInt32.toNat_ofNat'

/-- Where readings are close, every number of ticks is seen. -/
theorem exists_firstAt (steady : c.Steady) {t : Nat} (later : c.ticks 0 ≤ t) :
    ∃ k, c.FirstAt t k := by
  classical
  have reached := steady.advances t
  have before (i : Nat) (h : i < Nat.find reached) : c.ticks i < t :=
    Nat.lt_of_not_le (Nat.find_min reached h)
  refine ⟨Nat.find reached, Nat.le_antisymm ?_ (Nat.find_spec reached), before⟩
  generalize Nat.find reached = k at before
  cases k with
  | zero => exact later
  | succ k =>
      have last := before k (Nat.lt_succ_self k)
      have close := steady.single k
      omega

theorem toNat_end (i : Nat) :
    (c.millis i + ms).toNat = (c.ticks i + ms.toNat) % 4294967296 := by
  rw [UInt32.toNat_add, toNat_millis, Nat.mod_add_mod]

theorem end_lt_iff (i : Nat) : c.millis 0 + ms < c.millis i ↔
    (c.ticks 0 + ms.toNat) % 4294967296 < c.ticks i % 4294967296 := by
  rw [UInt32.lt_iff_toNat_lt, toNat_end, toNat_millis]

theorem lt_end_iff (i : Nat) : c.millis i < c.millis 0 + ms ↔
    c.ticks i % 4294967296 < (c.ticks 0 + ms.toNat) % 4294967296 := by
  rw [UInt32.lt_iff_toNat_lt, toNat_end, toNat_millis]

theorem neverEarly (hms : ms ≠ 0) : c.NeverEarly ms := by
  intro fuel made returns
  have short := ms.toNat_lt
  simp only [delay] at returns
  rw [if_neg hms] at returns
  by_cases overflow : c.millis 0 + ms < c.millis 0
  · rw [if_pos overflow] at returns
    obtain ⟨made', first, second⟩ := Option.bind_eq_some_iff.mp returns
    obtain ⟨j, _, rfl, low⟩ := waitWhile_ends first
    obtain ⟨k, later, rfl, high⟩ := waitWhile_ends second
    rw [decide_eq_false_iff_not, end_lt_iff] at low
    rw [decide_eq_false_iff_not, gt_iff_lt, lt_end_iff] at high
    rw [end_lt_iff] at overflow
    -- the first loop is left only after the counter wrapped
    have start := c.ticks_le (Nat.zero_le j)
    have order := c.ticks_le (Nat.le_of_succ_le later)
    refine ⟨Nat.succ_pos k, ?_⟩
    rw [Nat.add_sub_cancel]
    omega
  · rw [if_neg overflow] at returns
    obtain ⟨k, _, rfl, high⟩ := waitWhile_ends returns
    rw [decide_eq_false_iff_not, gt_iff_lt, lt_end_iff] at high
    rw [end_lt_iff] at overflow
    have order := c.ticks_le (Nat.zero_le k)
    refine ⟨Nat.succ_pos k, ?_⟩
    rw [Nat.add_sub_cancel]
    omega

theorem FirstAt.pos (hms : ms ≠ 0) {k : Nat} (first : c.FirstAt (c.ticks 0 + ms.toNat) k) :
    1 ≤ k := by
  cases k with
  | zero =>
      have zero : ms.toNat = 0 := Nat.left_eq_add.mp first.1
      exact absurd (UInt32.toNat_inj.mp zero) hms
  | succ k => exact Nat.succ_le_succ (Nat.zero_le k)

/-- The second loop, once the counter shows the turn that the end is in. -/
theorem second_loop {made k : Nat} (first : c.FirstAt (c.ticks 0 + ms.toNat) k)
    (reached : made ≤ k)
    (turn : (c.ticks 0 + ms.toNat) / 4294967296 * 4294967296 ≤ c.ticks made)
    {fuel : Nat} (enough : k < fuel) :
    waitWhile c.millis (fun now => c.millis 0 + ms > now) fuel made = some (k + 1) := by
  apply waitWhile_first reached ?_ ?_ enough
  · intro i later before
    have early := first.2 i before
    have order := c.ticks_le later
    rw [decide_eq_true_iff, gt_iff_lt, lt_end_iff]
    omega
  · rw [decide_eq_false_iff_not, gt_iff_lt, lt_end_iff, first.1]
    exact Nat.lt_irrefl _

theorem returnsAt_straight (hms : ms ≠ 0) {k : Nat}
    (first : c.FirstAt (c.ticks 0 + ms.toNat) k)
    (straight : ¬ c.millis 0 + ms < c.millis 0) : c.ReturnsAt ms k := by
  refine ⟨k + 1, ?_⟩
  intro fuel enough
  simp only [delay]
  rw [if_neg hms, if_neg straight]
  rw [end_lt_iff] at straight
  have short := ms.toNat_lt
  have start := c.ticks_le (Nat.zero_le 1)
  exact second_loop first (first.pos hms) (by omega) enough

/-- The reading at which the counter has just wrapped. -/
theorem first_loop (overflow : c.millis 0 + ms < c.millis 0) {j : Nat}
    (wrapped : c.FirstAt (c.ticks 0 + (4294967296 - c.ticks 0 % 4294967296)) j)
    {fuel : Nat} (enough : j < fuel) :
    waitWhile c.millis (fun now => c.millis 0 + ms < now) fuel 1 = some (j + 1) := by
  rw [end_lt_iff] at overflow
  have turn := Nat.mod_lt (c.ticks 0) (show 0 < 4294967296 by decide)
  apply waitWhile_first ?_ ?_ ?_ enough
  · cases j with
    | zero =>
        have now := wrapped.1
        omega
    | succ j => exact Nat.succ_le_succ (Nat.zero_le j)
  · intro i _ before
    have early := wrapped.2 i before
    have start := c.ticks_le (Nat.zero_le i)
    rw [decide_eq_true_iff, end_lt_iff]
    omega
  · have now := wrapped.1
    rw [decide_eq_false_iff_not, end_lt_iff]
    omega

theorem returnsAt_wrapping (hms : ms ≠ 0) (steady : c.Steady) {k : Nat}
    (first : c.FirstAt (c.ticks 0 + ms.toNat) k)
    (overflow : c.millis 0 + ms < c.millis 0) (past : c.millis 0 + ms ≠ 0) :
    c.ReturnsAt ms k := by
  have short := ms.toNat_lt
  obtain ⟨j, wrapped⟩ := exists_firstAt steady
    (Nat.le_add_right (c.ticks 0) (4294967296 - c.ticks 0 % 4294967296))
  have positive : 0 < (c.ticks 0 + ms.toNat) % 4294967296 := by
    rw [← toNat_end, Nat.pos_iff_ne_zero]
    intro zero
    exact past (UInt32.toNat_inj.mp zero)
  have between := (end_lt_iff 0).mp overflow
  have inside : j + 1 ≤ k := by
    apply Nat.lt_of_not_le
    intro reached
    have order := c.ticks_le reached
    rw [first.1, wrapped.1] at order
    omega
  refine ⟨k + 1, ?_⟩
  intro fuel enough
  simp only [delay]
  rw [if_neg hms, if_pos overflow, first_loop overflow wrapped (by omega), Option.bind_some]
  have later := c.ticks_le (Nat.le_add_right j 1)
  rw [wrapped.1] at later
  exact second_loop first inside (by omega) enough

/-- Where the end is 0 the first loop waits for it, and the second reads once more. -/
theorem returnsAt_zero (hms : ms ≠ 0) {k : Nat}
    (first : c.FirstAt (c.ticks 0 + ms.toNat) k) (zero : c.millis 0 + ms = 0) :
    c.ReturnsAt ms (k + 1) := by
  have short := ms.toNat_lt
  have ends : (c.ticks 0 + ms.toNat) % 4294967296 = 0 := by
    rw [← toNat_end, zero]
    rfl
  have positive := first.pos hms
  have waited : ms.toNat ≠ 0 := fun empty => hms (UInt32.toNat_inj.mp empty)
  have overflow : c.millis 0 + ms < c.millis 0 := by
    rw [end_lt_iff]
    omega
  have distance : ms.toNat = 4294967296 - c.ticks 0 % 4294967296 := by omega
  rw [distance] at first
  refine ⟨k + 2, ?_⟩
  intro fuel enough
  simp only [delay]
  rw [if_neg hms, if_pos overflow, first_loop overflow first (by omega), Option.bind_some]
  apply waitWhile_first (Nat.le_refl (k + 1)) ?_ ?_ (by omega)
  · intro i reached before
    exact absurd before (Nat.not_lt.mpr reached)
  · rw [zero, decide_eq_false_iff_not]
    exact UInt32.not_lt.mpr (UInt32.zero_le)

/-- With close readings `delay` would return at the first one `ms` ticks later. -/
def DelaysExactly (c : Clock) (ms : UInt32) : Prop :=
  c.NeverEarly ms ∧
    (c.Steady → ∃ k, c.FirstAt (c.ticks 0 + ms.toNat) k ∧ c.ReturnsAt ms k)

/-- Where the end is 0 it returns one reading later, elsewhere as it should. -/
theorem delays (c : Clock) (hms : ms ≠ 0) :
    c.NeverEarly ms ∧
      (c.Steady → ∃ k, c.FirstAt (c.ticks 0 + ms.toNat) k ∧
        c.ReturnsAt ms (if c.millis 0 + ms = 0 then k + 1 else k)) := by
  refine ⟨neverEarly hms, ?_⟩
  intro steady
  obtain ⟨k, first⟩ := exists_firstAt steady (Nat.le_add_right (c.ticks 0) ms.toNat)
  refine ⟨k, first, ?_⟩
  by_cases zero : c.millis 0 + ms = 0
  · rw [if_pos zero]
    exact returnsAt_zero hms first zero
  · rw [if_neg zero]
    by_cases overflow : c.millis 0 + ms < c.millis 0
    · exact returnsAt_wrapping hms steady first overflow zero
    · exact returnsAt_straight hms first overflow

/-- One tick between any two readings. -/
def running (start : Nat) : Clock where
  ticks i := start + i
  forward i := Nat.le_succ (start + i)

theorem running_steady (start : Nat) : (running start).Steady where
  single i := Nat.le_refl (start + i + 1)
  advances t := ⟨t, Nat.le_add_left t start⟩

theorem delays_running :
    (running 4294967295).NeverEarly 3 ∧
      ∃ k, (running 4294967295).FirstAt 4294967298 k ∧
        (running 4294967295).ReturnsAt 3 k := by
  have waits := @delays 3 (running 4294967295) (by decide)
  exact ⟨waits.1, waits.2 (running_steady 4294967295)⟩

/-- One millisecond before the counter becomes 0, `delay(1)` reads 0 and then 1. -/
theorem ends_at_zero : ¬ DelaysExactly (running 4294967295) 1 := by
  intro claimed
  obtain ⟨k, first, bound, returns⟩ := claimed.2 (running_steady 4294967295)
  have reading : k = 1 := Nat.add_left_cancel first.1
  have made : delay (running 4294967295).millis 1 (bound + 5) = some 3 := rfl
  rw [returns (bound + 5) (Nat.le_add_right bound 5), reading] at made
  cases made

end Clock

namespace Control
variable {U : UsbConstants}

theorem ulTickCount_eq {t : List ControlStep} {s : Control}
    (h : (controlMachine U).Runs initial t s) : s.ulTickCount = UInt32.ofNat (sysTicks t) := by
  induction h with
  | nil => rfl
  | snoc _ taken ih =>
      rw [sysTicks_snoc]
      cases (control_step taken).2 with
      | get _ | set _ | answered _ _ _ _ | ignored _ => exact ih
      | lineState _ changed =>
          rw [(detect_spec _ _ _).1, changed]
          exact ih
      | taken _ _ changed =>
          rw [(detect_spec _ _ _).1, changed]
          exact ih
      | off _ | counts _ _ | expires _ =>
          rw [if_pos rfl, UInt32.ofNat_add, ← ih]
          rfl

/-- A call of `delay` while the controller goes on: the steps taken up to each reading. -/
def clock (t : Nat → List ControlStep) (grows : ∀ i, t i <+: t (i + 1)) : Clock where
  ticks i := sysTicks (t i)
  forward i := (grows i).sublist.countP_le

theorem delay_sysTicks {t : Nat → List ControlStep} {s : Nat → Control}
    (runs : ∀ i, (controlMachine U).Runs initial (t i) (s i))
    (grows : ∀ i, t i <+: t (i + 1)) {ms : UInt32} (hms : ms ≠ 0) {fuel made : Nat}
    (returns : delay (fun i => (s i).ulTickCount) ms fuel = some made) :
    0 < made ∧ sysTicks (t 0) + ms.toNat ≤ sysTicks (t (made - 1)) := by
  have readings : (fun i => (s i).ulTickCount) = (clock t grows).millis := by
    funext i
    exact ulTickCount_eq (runs i)
  rw [readings] at returns
  exact Clock.neverEarly hms fuel made returns

end Control
end SamdCore
