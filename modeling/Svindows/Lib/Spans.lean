import Mathlib.Tactic.SplitIfs

/-!
# Consecutive spans

Numbers cut into spans of given lengths, one behind the other. A number lies in exactly one
span; a loop that takes off one length after another finds it.
-/

namespace Spans

variable (len : Nat → Nat)

/-- The length of `k` spans, the first of which is `i`. -/
def total : Nat → Nat → Nat
  | _, 0 => 0
  | i, k + 1 => len i + total (i + 1) k

/-- Take off one length after another, for at most `fuel` spans. -/
def locate : Nat → Nat → Nat → Nat × Nat
  | 0, i, n => (i, n)
  | fuel + 1, i, n => if n < len i then (i, n) else locate fuel (i + 1) (n - len i)

variable {len}

theorem total_succ (len : Nat → Nat) (i k : Nat) :
    total len i (k + 1) = total len i k + len (i + k) := by
  induction k generalizing i with
  | zero => simp [total]
  | succ k ih =>
    rw [total, ih, total, show i + 1 + k = i + (k + 1) by omega, Nat.add_assoc]

theorem total_mono (len : Nat → Nat) (i : Nat) {k k' : Nat} (le : k ≤ k') :
    total len i k ≤ total len i k' := by
  induction le with
  | refl => exact Nat.le_refl _
  | step _ ih =>
    rw [total_succ]
    omega

theorem total_congr {len' : Nat → Nat} {i k : Nat}
    (same : ∀ j, i ≤ j → j < i + k → len j = len' j) :
    total len i k = total len' i k := by
  induction k generalizing i with
  | zero => rfl
  | succ k ih =>
    rw [total, total, same i (Nat.le_refl i) (by omega)]
    rw [ih fun j low high => same j (by omega) (by omega)]

theorem locate_congr {len' : Nat → Nat} {fuel i n : Nat}
    (same : ∀ j, i ≤ j → j < i + fuel → len j = len' j) :
    locate len fuel i n = locate len' fuel i n := by
  induction fuel generalizing i n with
  | zero => rfl
  | succ fuel ih =>
    rw [locate, locate, same i (Nat.le_refl i) (by omega)]
    split_ifs
    · rfl
    · exact ih fun j low high => same j (by omega) (by omega)

/-- The loop stops in the span of the number, or behind all spans. -/
theorem locate_spec (len : Nat → Nat) (fuel i n : Nat) : ∃ k r, locate len fuel i n = (i + k, r) ∧
    total len i k + r = n ∧ k ≤ fuel ∧ (r < len (i + k) ∨ k = fuel) := by
  induction fuel generalizing i n with
  | zero => exact ⟨0, n, rfl, Nat.zero_add n, Nat.le_refl 0, .inr rfl⟩
  | succ fuel ih =>
    rw [locate]
    split_ifs with here
    · exact ⟨0, n, rfl, Nat.zero_add n, Nat.zero_le _, .inl here⟩
    · obtain ⟨k, r, found, sum, few, stop⟩ := ih (i + 1) (n - len i)
      refine ⟨k + 1, r, ?_, ?_, by omega, ?_⟩
      · rw [found]
        congr 1
        omega
      · rw [total]
        omega
      · rw [show i + (k + 1) = i + 1 + k by omega]
        omega

/-- A number lies in one span only. -/
theorem unique {i k k' r r' : Nat} (low : r < len (i + k)) (low' : r' < len (i + k'))
    (same : total len i k + r = total len i k' + r') : k = k' ∧ r = r' := by
  rcases Nat.lt_trichotomy k k' with less | rfl | more
  · have := total_mono len i (Nat.succ_le_of_lt less)
    rw [Nat.succ_eq_add_one, total_succ] at this
    omega
  · exact ⟨rfl, by omega⟩
  · have := total_mono len i (Nat.succ_le_of_lt more)
    rw [Nat.succ_eq_add_one, total_succ] at this
    omega

end Spans
