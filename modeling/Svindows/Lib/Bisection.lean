import Mathlib.Algebra.Group.Nat.Defs
import Mathlib.Tactic.SplitIfs
import Svindows.Lib.Loop

/-!
# Searching by bisection

A sign at every index below a bound, positive first, then zero, then negative. Halving an
interval of indices finds one with sign zero if there is any, in as many turns as the length
of the interval has binary digits.
-/

namespace Bisection

/-- Positive before zero before negative. -/
structure Descending (sign : Nat → Int) (n : Nat) : Prop where
  positive : ∀ i j, i ≤ j → j < n → 0 < sign j → 0 < sign i
  negative : ∀ i j, i ≤ j → j < n → sign i < 0 → sign j < 0

/-- One turn on the interval from `s.1` up to `s.2`. -/
def turn (sign : Nat → Int) (s : Nat × Nat) : Option Nat ⊕ (Nat × Nat) :=
  let mid := s.1 + (s.2 - s.1) / 2
  if s.1 < s.2 then
    if sign mid = 0 then .inl (some mid)
    else if sign mid < 0 then .inr (s.1, mid)
    else .inr (mid + 1, s.2)
  else .inl none

/-- What a search of an interval should return. -/
def Found (sign : Nat → Int) (low high : Nat) : Option Nat → Prop
  | some i => low ≤ i ∧ i < high ∧ sign i = 0
  | none => ∀ i, low ≤ i → i < high → sign i ≠ 0

variable {sign : Nat → Int} {n : Nat}

theorem Found.below {low mid high : Nat} (descending : Descending sign n) (inside : mid < high)
    (bound : high ≤ n) (negative : sign mid < 0) {r : Option Nat}
    (found : Found sign low mid r) : Found sign low high r := by
  cases r with
  | some i => exact ⟨found.1, by have := found.2.1; omega, found.2.2⟩
  | none =>
    intro i above below zero
    by_cases left : i < mid
    · exact found i above left zero
    · have := descending.negative mid i (by omega) (by omega) negative
      omega

theorem Found.above {low mid high : Nat} (descending : Descending sign n) (inside : low ≤ mid)
    (bound : mid < n) (positive : 0 < sign mid) {r : Option Nat}
    (found : Found sign (mid + 1) high r) : Found sign low high r := by
  cases r with
  | some i => exact ⟨by have := found.1; omega, found.2⟩
  | none =>
    intro i above below zero
    by_cases right : mid < i
    · exact found i right below zero
    · have := descending.positive i mid (by omega) bound positive
      omega

/-- The search of an interval shorter than `2 ^ fuel`. -/
theorem run_spec (descending : Descending sign n) (fuel : Nat) {low high : Nat} (bound : high ≤ n)
    (short : high - low < 2 ^ fuel) :
    ∃ r, Loop.run (turn sign) (fuel + 1) (low, high) = some r ∧ Found sign low high r := by
  induction fuel generalizing low high with
  | zero =>
    have empty : turn sign (low, high) = .inl none := if_neg (by simp only; omega)
    exact ⟨none, Loop.run_inl empty 0, fun i above below => by omega⟩
  | succ fuel ih =>
    rw [Nat.pow_succ] at short
    by_cases some_ : low < high
    · generalize middle : low + (high - low) / 2 = mid
      have step : turn sign (low, high) =
          if sign mid = 0 then .inl (some mid)
          else if sign mid < 0 then .inr (low, mid) else .inr (mid + 1, high) := by
        rw [← middle]
        exact if_pos some_
      split_ifs at step with zero negative
      · exact ⟨some mid, Loop.run_inl step _, by omega, by omega, zero⟩
      · obtain ⟨r, run, found⟩ := @ih low mid (by omega) (by omega)
        exact ⟨r, (Loop.run_inr step _).trans run, found.below descending (by omega) bound negative⟩
      · obtain ⟨r, run, found⟩ := @ih (mid + 1) high bound (by omega)
        exact ⟨r, (Loop.run_inr step _).trans run,
          found.above descending (by omega) (by omega) (by omega)⟩
    · have empty : turn sign (low, high) = .inl none := if_neg some_
      exact ⟨none, Loop.run_inl empty _, fun i above below => by omega⟩

end Bisection
