import Mathlib.Data.Int.GCD
import Mathlib.Tactic.Linarith
import Mathlib.Tactic.Ring

/-!
# The points of a digital line

A line that advances by one along its major axis at every step, `major` steps in all,
and by `minor ≤ major` along the other axis. The points are the ones closest to the
ideal line, and the error term of Bresenham's algorithm, doubled, tells when the next
point lies one further along the minor axis. The largest error is known in closed form.

A turn of the algorithm moves along either axis, whichever of the two is the major one.
-/

namespace Bresenham

variable {major minor : ℕ}

/-- How far the line has come along the minor axis after `k` steps. -/
def along (major minor k : ℕ) : ℕ := (2 * minor * k + major - 1) / (2 * major)

/-- The distance from the ideal line along the minor axis, `major`-fold. -/
def offset (major minor k : ℕ) : ℤ := major * along major minor k - minor * k

/-- The error term before step `k + 1`. -/
def error (major minor k : ℕ) : ℤ := major - minor + offset major minor k

theorem along_zero (pos : 0 < major) : along major minor 0 = 0 := by
  rw [along, Nat.mul_zero, Nat.zero_add, Nat.div_eq_of_lt (by omega)]

theorem along_mono {j k : ℕ} (le : j ≤ k) : along major minor j ≤ along major minor k := by
  refine Nat.div_le_div_right ?_
  have grows := Nat.mul_le_mul_left (2 * minor) le
  omega

/-- The last point is the end of the line. -/
theorem along_major (pos : 0 < major) : along major minor major = minor := by
  have split : 2 * minor * major + major - 1 = major - 1 + 2 * major * minor := by
    have swap : 2 * minor * major = 2 * major * minor := by ring
    omega
  rw [along, split, Nat.add_mul_div_left _ _ (by omega), Nat.div_eq_of_lt (by omega), Nat.zero_add]

/-- No point is further from the ideal line than half a unit. -/
theorem offset_bounds (pos : 0 < major) (minor k : ℕ) :
    -(major : ℤ) ≤ 2 * offset major minor k ∧ 2 * offset major minor k < major := by
  have parts := Nat.div_add_mod (2 * minor * k + major - 1) (2 * major)
  have rest := Nat.mod_lt (2 * minor * k + major - 1) (show 0 < 2 * major by omega)
  have value : 2 * offset major minor k =
      2 * major * (along major minor k : ℤ) - 2 * minor * k := by
    rw [offset]
    ring
  have cast : (2 * major * (along major minor k : ℤ)) =
      ((2 * major * ((2 * minor * k + major - 1) / (2 * major)) : ℕ) : ℤ) := by
    rw [along]
    push_cast
    ring
  have cast' : (2 * minor * k : ℤ) = ((2 * minor * k : ℕ) : ℤ) := by push_cast; ring
  rw [value, cast, cast']
  omega

/-- The offset determines the point. -/
theorem along_unique (pos : 0 < major) {k n : ℕ}
    (low : -(major : ℤ) ≤ 2 * (major * n - minor * k : ℤ))
    (high : 2 * (major * n - minor * k : ℤ) < major) : along major minor k = n := by
  obtain ⟨low', high'⟩ := offset_bounds pos minor k
  rw [offset] at low' high'
  have close : (major : ℤ) * (along major minor k - n) < major ∧
      -(major : ℤ) < major * (along major minor k - n) := by
    constructor <;> linarith
  have lower : (along major minor k : ℤ) - n < 1 := by
    by_contra far
    nlinarith [close.1]
  have upper : -1 < (along major minor k : ℤ) - n := by
    by_contra far
    nlinarith [close.2]
  omega

/-- The doubled error says whether the next point is one further along the minor axis. -/
theorem along_succ (pos : 0 < major) (le : minor ≤ major) (k : ℕ) :
    along major minor (k + 1) =
      along major minor k + if 2 * error major minor k < major then 1 else 0 := by
  obtain ⟨low, high⟩ := offset_bounds pos minor k
  have le' : (minor : ℤ) ≤ major := by exact_mod_cast le
  rw [error]
  rw [offset] at low high ⊢
  split
  · rename_i below
    refine along_unique pos ?_ ?_ <;> push_cast <;> linarith
  · rename_i above
    refine along_unique pos ?_ ?_ <;> push_cast <;> linarith

theorem offset_succ (pos : 0 < major) (le : minor ≤ major) (k : ℕ) :
    offset major minor (k + 1) = offset major minor k - minor +
      if 2 * error major minor k < major then (major : ℤ) else 0 := by
  rw [offset, along_succ pos le, offset]
  split <;> push_cast <;> ring

theorem error_succ (pos : 0 < major) (le : minor ≤ major) (k : ℕ) :
    error major minor (k + 1) = error major minor k - minor +
      if 2 * error major minor k < major then (major : ℤ) else 0 := by
  rw [error, offset_succ pos le]
  unfold error
  ring

/-- The step along the major axis is always taken. -/
theorem neg_minor_lt (pos : 0 < major) (le : minor ≤ major) (k : ℕ) :
    -(minor : ℤ) < 2 * error major minor k := by
  obtain ⟨low, high⟩ := offset_bounds pos minor k
  rcases Nat.lt_or_eq_of_le le with less | same
  · have less' : (minor : ℤ) < major := by exact_mod_cast less
    rw [error]
    linarith
  · have pos' : (0 : ℤ) < major := by exact_mod_cast pos
    have whole : offset major minor k = major * (along major minor k - k) := by
      rw [offset, same]
      ring
    have none : (along major minor k : ℤ) - k = 0 := by
      rw [whole] at low high
      have upper : (along major minor k : ℤ) - k < 1 := by nlinarith
      have lower : -1 < (along major minor k : ℤ) - k := by nlinarith
      omega
    rw [error, whole, none, same]
    linarith

/-- The largest value of the error term on the way. -/
def peak (major minor : ℕ) : ℕ :=
  major - minor + Nat.gcd major minor * ((major / Nat.gcd major minor - 1) / 2)

theorem peak_eq (le : minor ≤ major) {g n : ℕ} (divisor : Nat.gcd major minor = g)
    (quotient : major / g = n) :
    (peak major minor : ℤ) = major - minor + g * (((n - 1) / 2 : ℕ) : ℤ) := by
  rw [peak, divisor, quotient]
  push_cast [Nat.cast_sub le]
  ring

/-- The offset is a multiple of the greatest common divisor below half of `major`. -/
theorem error_le_peak (pos : 0 < major) (le : minor ≤ major) (k : ℕ) :
    error major minor k ≤ peak major minor := by
  obtain ⟨-, high⟩ := offset_bounds pos minor k
  obtain ⟨g, divisor⟩ : ∃ g, Nat.gcd major minor = g := ⟨_, rfl⟩
  obtain ⟨n, major_eq⟩ := divisor ▸ Nat.gcd_dvd_left major minor
  obtain ⟨m, minor_eq⟩ := divisor ▸ Nat.gcd_dvd_right major minor
  have g_pos : 0 < g := divisor ▸ Nat.gcd_pos_of_pos_left minor pos
  rw [peak_eq le divisor (by rw [major_eq, Nat.mul_div_cancel_left n g_pos]), error]
  have multiple : offset major minor k = g * (n * along major minor k - m * k) := by
    rw [offset, major_eq, minor_eq]
    push_cast
    ring
  have below : 2 * (n * along major minor k - m * k : ℤ) < n := by
    have positive : (0 : ℤ) < g := by exact_mod_cast g_pos
    have total : (major : ℤ) = g * n := by exact_mod_cast major_eq
    rw [multiple] at high
    by_contra reached
    nlinarith
  have half : (n * along major minor k - m * k : ℤ) ≤ (((n - 1) / 2 : ℕ) : ℤ) := by omega
  rw [multiple]
  have scaled := mul_le_mul_of_nonneg_left half (show (0 : ℤ) ≤ g by omega)
  linarith

/-- Every multiple of the greatest common divisor is an offset, so the largest one is. -/
theorem peak_attained (pos : 0 < major) (le : minor ≤ major) :
    ∃ k < major, error major minor k = peak major minor := by
  obtain ⟨g, divisor⟩ : ∃ g, Nat.gcd major minor = g := ⟨_, rfl⟩
  obtain ⟨n, major_eq⟩ := divisor ▸ Nat.gcd_dvd_left major minor
  obtain ⟨m, minor_eq⟩ := divisor ▸ Nat.gcd_dvd_right major minor
  have g_pos : 0 < g := divisor ▸ Nat.gcd_pos_of_pos_left minor pos
  have n_pos : 0 < n := Nat.pos_of_mul_pos_left (major_eq ▸ pos)
  have coprime : Nat.Coprime m n := by
    have quotients := Nat.coprime_div_gcd_div_gcd (m := major) (n := minor) (divisor ▸ g_pos)
    rw [divisor, major_eq, minor_eq, Nat.mul_div_cancel_left n g_pos,
      Nat.mul_div_cancel_left m g_pos] at quotients
    exact quotients.symm
  obtain ⟨k, k_lt, residue⟩ :=
    Nat.exists_mul_mod_eq_of_coprime (n - (n - 1) / 2) coprime (by omega)
  -- `m * k` lies half of `n`, rounded down, before a multiple of `n`.
  obtain ⟨q, reached⟩ : n ∣ m * k + (n - 1) / 2 := by
    have zero : (m * k + (n - 1) / 2) % n = 0 := by
      rw [Nat.add_mod, residue, ← Nat.add_mod, Nat.sub_add_cancel (by omega), Nat.mod_self]
    exact Nat.dvd_of_mod_eq_zero zero
  have positive : (0 : ℤ) < g := by exact_mod_cast g_pos
  have ends : (major * q - minor * k : ℤ) = g * (((n - 1) / 2 : ℕ) : ℤ) := by
    have sum : (m * k + ((n - 1) / 2 : ℕ) : ℤ) = n * q := by exact_mod_cast reached
    have half : (((n - 1) / 2 : ℕ) : ℤ) = n * q - m * k := by linarith
    rw [half, major_eq, minor_eq]
    push_cast
    ring
  have total : (major : ℤ) = g * n := by exact_mod_cast major_eq
  have short : 2 * (((n - 1) / 2 : ℕ) : ℤ) < n := by omega
  have point : along major minor k = q := by
    refine along_unique pos ?_ ?_
    · rw [ends, total]
      nlinarith
    · rw [ends, total]
      nlinarith
  refine ⟨k, lt_of_lt_of_le k_lt (by rw [major_eq]; exact Nat.le_mul_of_pos_left n g_pos), ?_⟩
  rw [peak_eq le divisor (by rw [major_eq, Nat.mul_div_cancel_left n g_pos]), error, offset, point,
    ends]

/-- The steps taken along the two axes, and the error term. -/
structure Turn where
  u : ℕ
  v : ℕ
  err : ℤ

/-- A turn compares the doubled error with both distances, and each comparison may take
a step along its axis. -/
def Turn.next (dx dy : ℕ) (t : Turn) : Turn where
  u := t.u + if -(dy : ℤ) < 2 * t.err then 1 else 0
  v := t.v + if 2 * t.err < dx then 1 else 0
  err := (t.err - if -(dy : ℤ) < 2 * t.err then (dy : ℤ) else 0) +
    if 2 * t.err < dx then (dx : ℤ) else 0

def turn (dx dy : ℕ) : ℕ → Turn
  | 0 => ⟨0, 0, dx - dy⟩
  | k + 1 => (turn dx dy k).next dx dy

variable {dx dy : ℕ}

theorem turn_wide (pos : 0 < dx) (le : dy ≤ dx) (k : ℕ) :
    turn dx dy k = ⟨k, along dx dy k, error dx dy k⟩ := by
  induction k with
  | zero =>
    rw [turn, error, offset, along_zero pos]
    simp
  | succ k ih =>
    rw [turn, ih, Turn.next]
    dsimp only
    rw [if_pos (neg_minor_lt pos le k), if_pos (neg_minor_lt pos le k), ← along_succ pos le k,
      error_succ pos le k]

theorem turn_tall (lt : dx < dy) (k : ℕ) :
    turn dx dy k = ⟨along dy dx k, k, -error dy dx k⟩ := by
  have pos : 0 < dy := by omega
  induction k with
  | zero =>
    rw [turn, error, offset, along_zero pos]
    simp
  | succ k ih =>
    have above := neg_minor_lt pos lt.le k
    have turned : -(dy : ℤ) < 2 * -error dy dx k ↔ 2 * error dy dx k < dy := by
      constructor <;> intro <;> linarith
    rw [turn, ih, Turn.next]
    dsimp only
    have below : 2 * -error dy dx k < dx := by linarith
    simp only [turned, if_pos below]
    rw [← along_succ pos lt.le k, error_succ pos lt.le k]
    congr 1
    split <;> ring

theorem turn_err_lt {k : ℕ} (lt : k < max dx dy) :
    -(3 * max dx dy : ℤ) < 2 * (turn dx dy k).err ∧ 2 * (turn dx dy k).err < 3 * max dx dy := by
  rcases le_or_gt dy dx with wide | tall
  · have pos : 0 < dx := by omega
    have above := neg_minor_lt pos wide k
    have below := (offset_bounds pos dy k).2
    rw [turn_wide pos wide]
    dsimp only
    rw [error] at above ⊢
    omega
  · have pos : 0 < dy := by omega
    have above := neg_minor_lt pos tall.le k
    have below := (offset_bounds pos dx k).2
    rw [turn_tall tall]
    dsimp only
    rw [error] at above ⊢
    omega

/-- Neither axis is taken further than its distance, and both distances are reached with
the last turn only. -/
theorem turn_le {k : ℕ} (le : k ≤ max dx dy) :
    (turn dx dy k).u ≤ dx ∧ (turn dx dy k).v ≤ dy ∧
      ((turn dx dy k).u = dx ∧ (turn dx dy k).v = dy ↔ k = max dx dy) := by
  rcases Nat.eq_zero_or_pos (max dx dy) with none | some_
  · obtain rfl : dx = 0 := by omega
    obtain rfl : dy = 0 := by omega
    obtain rfl : k = 0 := by omega
    simp [turn]
  · rcases le_or_gt dy dx with wide | tall
    · rw [max_eq_left wide] at le some_ ⊢
      have last : along dx dy dx = dy := along_major some_
      have rises : along dx dy k ≤ along dx dy dx := along_mono le
      rw [turn_wide some_ wide]
      dsimp only
      refine ⟨le, by omega, fun both => both.1, fun whole => ⟨whole, ?_⟩⟩
      rw [whole, last]
    · rw [max_eq_right tall.le] at le some_ ⊢
      have last : along dy dx dy = dx := along_major some_
      have rises : along dy dx k ≤ along dy dx dy := along_mono le
      rw [turn_tall tall]
      dsimp only
      refine ⟨by omega, le, fun both => both.2, fun whole => ⟨?_, whole⟩⟩
      rw [whole, last]

/-- The offset of a turn along its minor axis is at most half a unit. -/
theorem turn_near {k : ℕ} (le : k ≤ max dx dy) :
    -(max dx dy : ℤ) ≤ 2 * (dx * (turn dx dy k).v - dy * (turn dx dy k).u) ∧
      2 * (dx * (turn dx dy k).v - dy * (turn dx dy k).u) ≤ (max dx dy : ℤ) := by
  rcases Nat.eq_zero_or_pos (max dx dy) with none | some_
  · obtain rfl : dx = 0 := by omega
    obtain rfl : dy = 0 := by omega
    simp
  · rcases le_or_gt dy dx with wide | tall
    · have pos : 0 < dx := by omega
      rw [max_eq_left (by exact_mod_cast wide), turn_wide pos wide]
      obtain ⟨low, high⟩ := offset_bounds pos dy k
      rw [offset] at low high
      exact ⟨low, high.le⟩
    · have pos : 0 < dy := by omega
      rw [max_eq_right (by exact_mod_cast tall.le), turn_tall tall]
      obtain ⟨low, high⟩ := offset_bounds pos dx k
      rw [offset] at low high
      dsimp only
      constructor <;> linarith

/-- A turn before the last takes a step along one axis or both. -/
theorem turn_moves {k : ℕ} (lt : k < max dx dy) : ∃ a ≤ 1, ∃ b ≤ 1, max a b = 1 ∧
    (turn dx dy (k + 1)).u = (turn dx dy k).u + a ∧
      (turn dx dy (k + 1)).v = (turn dx dy k).v + b := by
  refine ⟨if -(dy : ℤ) < 2 * (turn dx dy k).err then 1 else 0, by split <;> omega,
    if 2 * (turn dx dy k).err < dx then 1 else 0, by split <;> omega, ?_, rfl, rfl⟩
  rcases le_or_gt dy dx with wide | tall
  · have pos : 0 < dx := by omega
    rw [turn_wide pos wide, if_pos (neg_minor_lt pos wide k)]
    split <;> rfl
  · have pos : 0 < dy := by omega
    have major := neg_minor_lt pos tall.le k
    rw [turn_tall tall, if_pos (by linarith : 2 * -error dy dx k < (dx : ℤ))]
    split <;> rfl

end Bresenham
