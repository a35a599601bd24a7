import Mathlib.Logic.Function.Iterate
import Mathlib.Order.Basic

/-!
`while` loops whose test and body are functions of a state.

A loop is run on fuel and gives nothing when the fuel does not last. The rules
keep fuel out of sight: what the invariant says about the state a loop ends in
holds for any fuel, and a variant says how much of it is enough.
-/
namespace WhileLoops
variable {σ : Type*} {test : σ → Bool} {body : σ → σ} {P : σ → Prop} {s s' : σ}

def whileLoop (test : σ → Bool) (body : σ → σ) : Nat → σ → Option σ
  | 0, _ => none
  | fuel + 1, s => if test s then whileLoop test body fuel (body s) else some s

theorem whileLoop_of_false (stop : test s = false) (fuel : Nat) :
    whileLoop test body (fuel + 1) s = some s := by
  rw [whileLoop, if_neg (Bool.eq_false_iff.mp stop)]

theorem whileLoop_of_true (go : test s = true) (fuel : Nat) :
    whileLoop test body (fuel + 1) s = whileLoop test body fuel (body s) := by
  rw [whileLoop, if_pos go]

/-- Where a loop ends, its invariant holds and its test does not. -/
theorem whileLoop_invariant {fuel : Nat} (start : P s)
    (step : ∀ s, P s → test s = true → P (body s))
    (ends : whileLoop test body fuel s = some s') : P s' ∧ test s' = false := by
  induction fuel generalizing s with
  | zero => cases ends
  | succ fuel ih =>
      cases h : test s with
      | true =>
          rw [whileLoop_of_true h] at ends
          exact ih (step s start h) ends
      | false =>
          rw [whileLoop_of_false h] at ends
          cases ends
          exact ⟨start, h⟩

/-- A loop whose every round makes the variant smaller ends. -/
theorem whileLoop_total (variant : σ → Nat) (start : P s)
    (step : ∀ s, P s → test s = true → P (body s) ∧ variant (body s) < variant s) :
    ∃ s', P s' ∧ test s' = false ∧
      ∀ fuel, variant s < fuel → whileLoop test body fuel s = some s' := by
  generalize bound : variant s = v
  induction v using Nat.strongRecOn generalizing s with
  | ind v ih =>
      cases h : test s with
      | true =>
          have next := step s start h
          rw [bound] at next
          obtain ⟨s', holds, stop, ends⟩ := ih (variant (body s)) next.2 next.1 rfl
          refine ⟨s', holds, stop, ?_⟩
          intro fuel enough
          cases fuel with
          | zero => exact absurd enough (Nat.not_lt_zero v)
          | succ fuel =>
              rw [whileLoop_of_true h]
              exact ends fuel (by omega)
      | false =>
          refine ⟨s, start, h, ?_⟩
          intro fuel enough
          cases fuel with
          | zero => exact absurd enough (Nat.not_lt_zero v)
          | succ fuel => exact whileLoop_of_false h fuel

/-- A loop whose test fails after some rounds ends. -/
theorem whileLoop_eventually (stops : ∃ k, test (body^[k] s) = false) :
    ∃ s' k, test s' = false ∧ ∀ fuel, k < fuel → whileLoop test body fuel s = some s' := by
  have left (s : σ) (stop : test s = false) : ∃ s' k, test s' = false ∧
      ∀ fuel, k < fuel → whileLoop test body fuel s = some s' := by
    refine ⟨s, 0, stop, fun fuel enough => ?_⟩
    obtain ⟨fuel, rfl⟩ := Nat.exists_eq_succ_of_ne_zero (Nat.ne_of_gt enough)
    exact whileLoop_of_false stop fuel
  obtain ⟨k, stop⟩ := stops
  induction k generalizing s with
  | zero => exact left s stop
  | succ k ih =>
      cases h : test s with
      | false => exact left s h
      | true =>
          obtain ⟨s', k', stop', ends⟩ := ih stop
          refine ⟨s', k' + 1, stop', fun fuel enough => ?_⟩
          obtain ⟨fuel, rfl⟩ := Nat.exists_eq_succ_of_ne_zero (Nat.ne_zero_of_lt enough)
          rw [whileLoop_of_true h]
          exact ends fuel (Nat.lt_of_succ_lt_succ enough)

/-- A counter that is stepped while the test holds stops where it first fails. -/
theorem whileLoop_first {test : Nat → Bool} {i k : Nat} (from_le : i ≤ k)
    (before : ∀ m, i ≤ m → m < k → test m = true) (stop : test k = false) {fuel : Nat}
    (enough : k - i < fuel) : whileLoop test (· + 1) fuel i = some k := by
  have step : ∀ j, i ≤ j ∧ j ≤ k → test j = true →
      (i ≤ j + 1 ∧ j + 1 ≤ k) ∧ k - (j + 1) < k - j := by
    intro j bounds go
    have inside : j < k := by
      apply Nat.lt_of_le_of_ne bounds.2
      intro same
      rw [same, stop] at go
      cases go
    exact ⟨by omega, by omega⟩
  obtain ⟨j, ⟨reached, within⟩, stopped, ends⟩ :=
    whileLoop_total (P := fun j => i ≤ j ∧ j ≤ k) (fun j => k - j)
      ⟨Nat.le_refl i, from_le⟩ step
  have last : j = k := by
    by_contra other
    rw [before j reached (Nat.lt_of_le_of_ne within other)] at stopped
    cases stopped
  rw [ends fuel enough, last]

end WhileLoops
