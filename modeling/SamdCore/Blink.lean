import SamdCore.Delay

/-!
`examples/Blink.cpp`, for any number of rounds of its loop.

All rounds read one clock, each from where the one before has stopped. What a round
adds to 1000 ticks is at most the tick between two calls of `delay`, and another where
the counter is 0 at the end of the wait; so the error of a round is not handed on.
-/
namespace SamdCore

namespace Clock
variable {c : Clock}

/-- The clock from a reading on. -/
def after (c : Clock) (made : Nat) : Clock where
  ticks i := c.ticks (made + i)
  forward i := c.forward (made + i)

theorem Steady.after (steady : c.Steady) (made : Nat) : (c.after made).Steady where
  single i := steady.single (made + i)
  advances t := by
    obtain ⟨i, reached⟩ := steady.advances t
    exact ⟨i, Nat.le_trans reached (c.ticks_le (Nat.le_add_left i made))⟩

end Clock

/-- The calls of `millis` so far, and the level of the pin. -/
structure Blink where
  made : Nat
  pa17 : Bool

namespace Blink

def started : Blink := ⟨0, true⟩

/-- `delay(1000)`, and the pin toggled. -/
def round (millis : Nat → UInt32) (fuel : Nat) (s : Blink) : Option Blink :=
  (delay (fun i => millis (s.made + i)) 1000 fuel).map fun made => ⟨s.made + made, !s.pa17⟩

def rounds (millis : Nat → UInt32) (fuel : Nat) : Nat → Option Blink
  | 0 => some started
  | n + 1 => (rounds millis fuel n).bind (round millis fuel)

/-- The ticks at the last reading before the pin was toggled. -/
def toggledAt (c : Clock) (s : Blink) : Nat := c.ticks (s.made - 1)

variable {c : Clock} {s s' : Blink} {fuel n : Nat}

theorem toggledAt_le (c : Clock) (s : Blink) : s.toggledAt c ≤ c.ticks s.made :=
  c.ticks_le (Nat.sub_le s.made 1)

theorem made_close (steady : c.Steady) (s : Blink) : c.ticks s.made ≤ s.toggledAt c + 1 := by
  cases h : s.made with
  | zero =>
      rw [toggledAt, h]
      exact Nat.le_succ _
  | succ made =>
      rw [toggledAt, h]
      exact steady.single made

/-- A round that ends has toggled the pin, after 1000 ticks or more. -/
theorem round_ends (ends : round c.millis fuel s = some s') :
    s'.pa17 = !s.pa17 ∧ s.toggledAt c + 1000 ≤ s'.toggledAt c := by
  obtain ⟨made, returns, rfl⟩ := Option.map_eq_some_iff.mp ends
  obtain ⟨some, waited⟩ := (c.after s.made).neverEarly (by decide) fuel made returns
  have last : s.made + (made - 1) = s.made + made - 1 := by omega
  have start := toggledAt_le c s
  simp only [Clock.after, Nat.add_zero, last] at waited
  exact ⟨rfl, Nat.le_trans (Nat.add_le_add_right start 1000) waited⟩

/-- Where readings are close a round ends, and with it no more than its own error. -/
theorem round_steady (steady : c.Steady) (s : Blink) : ∃ s' bound,
    (∀ fuel, bound ≤ fuel → round c.millis fuel s = some s') ∧
      s'.toggledAt c ≤ s.toggledAt c + 1001 + if c.millis s.made + 1000 = 0 then 1 else 0 := by
  obtain ⟨k, first, bound, returns⟩ :=
    ((c.after s.made).delays (show (1000 : UInt32) ≠ 0 by decide)).2 (steady.after s.made)
  have start := made_close steady s
  have reading : c.ticks (s.made + k) = c.ticks s.made + 1000 := first.1
  have close := steady.single (s.made + k)
  refine ⟨_, bound, fun fuel enough => Option.map_eq_some_iff.mpr ⟨_, returns fuel enough, rfl⟩, ?_⟩
  rw [toggledAt, show (c.after s.made).millis 0 = c.millis s.made from rfl]
  split
  · exact Nat.le_trans close (by omega)
  · exact reading.le.trans (by omega)

/-- The loop never gets stuck where readings are close. -/
theorem rounds_steady (steady : c.Steady) (n : Nat) :
    ∃ s bound, ∀ fuel, bound ≤ fuel → rounds c.millis fuel n = some s := by
  induction n with
  | zero => exact ⟨started, 0, fun _ _ => rfl⟩
  | succ n ih =>
      obtain ⟨s, bound, before⟩ := ih
      obtain ⟨s', bound', ends, -⟩ := round_steady steady s
      refine ⟨s', max bound bound', fun fuel enough => ?_⟩
      rw [rounds, before fuel (Nat.le_trans (Nat.le_max_left ..) enough)]
      exact ends fuel (Nat.le_trans (Nat.le_max_right ..) enough)

/-- The pin is toggled by every round, at 1000 ticks from the one before or later; and, where
readings are close, at 1001 or earlier unless the counter is 0 at the end of the wait. -/
structure KeepsTime (c : Clock) : Prop where
  level : ∀ fuel n s, rounds c.millis fuel n = some s → s.pa17 = (n % 2 == 0)
  neverEarly : ∀ fuel n s s', rounds c.millis fuel n = some s →
    rounds c.millis fuel (n + 1) = some s' → s.toggledAt c + 1000 ≤ s'.toggledAt c
  total : ∀ fuel n s, rounds c.millis fuel n = some s → c.ticks 0 + 1000 * n ≤ s.toggledAt c
  steady : c.Steady → ∀ n, ∃ s s' bound,
    (∀ fuel, bound ≤ fuel →
      rounds c.millis fuel n = some s ∧ rounds c.millis fuel (n + 1) = some s') ∧
      s'.toggledAt c ≤ s.toggledAt c + 1001 + if c.millis s.made + 1000 = 0 then 1 else 0

theorem rounds_ends (ends : rounds c.millis fuel n = some s) :
    s.pa17 = (n % 2 == 0) ∧ c.ticks 0 + 1000 * n ≤ s.toggledAt c := by
  induction n generalizing s with
  | zero =>
      cases ends
      refine ⟨rfl, ?_⟩
      rw [Nat.mul_zero]
      exact Nat.le_refl _
  | succ n ih =>
      obtain ⟨before, earlier, last⟩ := Option.bind_eq_some_iff.mp ends
      obtain ⟨level, waited⟩ := ih earlier
      obtain ⟨toggled, more⟩ := round_ends last
      constructor
      · rw [toggled, level]
        rcases Nat.mod_two_eq_zero_or_one n with even | odd
        · have next : (n + 1) % 2 = 1 := by omega
          rw [even, next]
          rfl
        · have next : (n + 1) % 2 = 0 := by omega
          rw [odd, next]
          rfl
      · rw [Nat.mul_succ, ← Nat.add_assoc]
        exact Nat.le_trans (Nat.add_le_add_right waited 1000) more

theorem keepsTime (c : Clock) : KeepsTime c where
  level _ _ _ ends := (rounds_ends ends).1
  total _ _ _ ends := (rounds_ends ends).2
  neverEarly fuel n s s' earlier ends := by
    rw [rounds, earlier] at ends
    exact (round_ends ends).2
  steady steady n := by
    obtain ⟨s, bound, before⟩ := rounds_steady steady n
    obtain ⟨s', bound', ends, close⟩ := round_steady steady s
    refine ⟨s, s', max bound bound', fun fuel enough => ?_, close⟩
    have here := before fuel (Nat.le_trans (Nat.le_max_left ..) enough)
    refine ⟨here, ?_⟩
    rw [rounds, here]
    exact ends fuel (Nat.le_trans (Nat.le_max_right ..) enough)

end Blink
end SamdCore
