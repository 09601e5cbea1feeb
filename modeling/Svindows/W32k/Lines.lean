import Svindows.Lib.Bresenham
import Svindows.W32k.Fills
import Mathlib.Data.List.Range
import Mathlib.Logic.Function.Iterate

/-!
# Lines

`NtGdiLineTo` visits one point a turn until both coordinates are those of the end
point. The error term is a word, and its double is what the turn looks at. As long as
every doubled error fits, the turns are those of Bresenham's algorithm on the integers;
where one does not, the turn that finds it goes no further along the major axis.
-/

namespace W32k

open Nt Bresenham

/-- The variables of the loop. -/
structure LinePen where
  x : Int32
  y : Int32
  err : Int32
  deriving DecidableEq

/-- `dx` and `dy`. -/
def span (a b : Int32) : Int32 := if a < b then b - a else a - b

/-- `sx` and `sy`. -/
def pace (a b : Int32) : Int32 := if a < b then 1 else -1

/-- A turn that does not leave the loop. -/
def LinePen.next (dx dy sx sy : Int32) (p : LinePen) : LinePen where
  x := if -dy < p.err * 2 then p.x + sx else p.x
  y := if p.err * 2 < dx then p.y + sy else p.y
  err := (if -dy < p.err * 2 then p.err - dy else p.err) + if p.err * 2 < dx then dx else 0

def LinePen.point (p : LinePen) : Int32 × Int32 := (p.x, p.y)

/-- The points the loop visits, for `fuel` of its turns. -/
def linePoints (x₁ y₁ dx dy sx sy : Int32) : Nat → LinePen → List (Int32 × Int32)
  | 0, _ => []
  | fuel + 1, p =>
    p.point ::
      if p.x = x₁ ∧ p.y = y₁ then [] else linePoints x₁ y₁ dx dy sx sy fuel (p.next dx dy sx sy)

theorem point_eq_iff {p : LinePen} {x y : Int32} : p.point = (x, y) ↔ p.x = x ∧ p.y = y := by
  rw [LinePen.point, Prod.mk.injEq]

section Loop

variable {x₁ y₁ dx dy sx sy : Int32}

/-- The loop draws the points it visits and does nothing else. -/
theorem lineLoop_points (d : Display) (s : GdiState) (dc : W32kDc) (ref : SurfaceRef)
    (pixel : UInt32) (fuel : Nat) (p : LinePen) (c : Canvas) :
    lineLoop d s dc ref x₁ y₁ dx dy sx sy pixel fuel p.x p.y p.err c =
      (linePoints x₁ y₁ dx dy sx sy fuel p).foldl
        (fun c point => dcPixel d s dc ref point.1 point.2 pixel c) c := by
  induction fuel generalizing p c with
  | zero => rfl
  | succ fuel ih =>
    rw [lineLoop, linePoints, List.foldl_cons]
    dsimp only [LinePen.point]
    split
    · rfl
    · rw [← ih, LinePen.next]
      dsimp only
      split <;> split <;> simp only [Int32.add_zero]

/-- Where the loop first finds the end point is where it ends. -/
theorem linePoints_first {N : Nat} {p : LinePen}
    (before : ∀ k < N, ((LinePen.next dx dy sx sy)^[k] p).point ≠ (x₁, y₁))
    (found : ((LinePen.next dx dy sx sy)^[N] p).point = (x₁, y₁)) {fuel : Nat}
    (enough : N < fuel) :
    linePoints x₁ y₁ dx dy sx sy fuel p =
      (List.range (N + 1)).map fun k => ((LinePen.next dx dy sx sy)^[k] p).point := by
  induction N generalizing p fuel with
  | zero =>
    obtain ⟨fuel, rfl⟩ : ∃ n, fuel = n + 1 := ⟨fuel - 1, by omega⟩
    have first : p.point = (x₁, y₁) := found
    rw [linePoints, if_pos (point_eq_iff.mp first)]
    rfl
  | succ N ih =>
    obtain ⟨fuel, rfl⟩ : ∃ n, fuel = n + 1 := ⟨fuel - 1, by omega⟩
    have first : p.point ≠ (x₁, y₁) := before 0 (by omega)
    rw [linePoints, if_neg (mt point_eq_iff.mpr first), List.range_succ_eq_map, List.map_cons,
      List.map_map, ih (fun k lt => before (k + 1) (by omega)) found (by omega)]
    rfl

theorem linePoints_endless {p : LinePen}
    (never : ∀ k, ((LinePen.next dx dy sx sy)^[k] p).point ≠ (x₁, y₁)) (fuel : Nat) :
    (linePoints x₁ y₁ dx dy sx sy fuel p).length = fuel := by
  induction fuel generalizing p with
  | zero => rfl
  | succ fuel ih =>
    have first : p.point ≠ (x₁, y₁) := never 0
    rw [linePoints, if_neg (mt point_eq_iff.mpr first), List.length_cons,
      ih fun k => never (k + 1)]

/-- A coordinate that is stepped or left alone has gone no more steps than turns. -/
theorem steps_le {f : Nat → Int32} {step : Int32}
    (turns : ∀ k, f (k + 1) = f k ∨ f (k + 1) = f k + step) (n : Nat) :
    ∃ u ≤ n, f n = f 0 + step * Int32.ofInt u := by
  induction n with
  | zero => exact ⟨0, le_refl _, by simp⟩
  | succ n ih =>
    obtain ⟨u, le, eq⟩ := ih
    rcases turns n with stays | moves
    · exact ⟨u, by omega, stays.trans eq⟩
    · refine ⟨u + 1, by omega, ?_⟩
      rw [moves, eq, Int32.add_assoc]
      push_cast
      rw [Int32.ofInt_add, Int32.mul_add, show Int32.ofInt 1 = 1 from rfl, Int32.mul_one]

theorem iterate_x (dx dy sx sy : Int32) (p : LinePen) (n : Nat) : ∃ u ≤ n,
    ((LinePen.next dx dy sx sy)^[n] p).x = p.x + sx * Int32.ofInt u := by
  refine steps_le (f := fun n => ((LinePen.next dx dy sx sy)^[n] p).x) (fun k => ?_) n
  rw [Function.iterate_succ_apply', LinePen.next]
  dsimp only
  split
  · exact .inr rfl
  · exact .inl rfl

theorem iterate_y (dx dy sx sy : Int32) (p : LinePen) (n : Nat) : ∃ v ≤ n,
    ((LinePen.next dx dy sx sy)^[n] p).y = p.y + sy * Int32.ofInt v := by
  refine steps_le (f := fun n => ((LinePen.next dx dy sx sy)^[n] p).y) (fun k => ?_) n
  rw [Function.iterate_succ_apply', LinePen.next]
  dsimp only
  split
  · exact .inr rfl
  · exact .inl rfl

end Loop

variable {X Y n : Nat} {a b : Int32}

section Line

variable (x₀ y₀ x₁ y₁ : Int32)

/-- The variables after `n` turns of the service's loop. -/
def penAt (n : Nat) : LinePen :=
  (LinePen.next (span x₀ x₁) (span y₀ y₁) (pace x₀ x₁) (pace y₀ y₁))^[n]
    ⟨x₀, y₀, span x₀ x₁ - span y₀ y₁⟩

/-- The points of a loop that ends. -/
def Visits (points : List (Int32 × Int32)) : Prop :=
  ∃ enough, ∀ fuel ≥ enough,
    linePoints x₁ y₁ (span x₀ x₁) (span y₀ y₁) (pace x₀ x₁) (pace y₀ y₁) fuel
      ⟨x₀, y₀, span x₀ x₁ - span y₀ y₁⟩ = points

variable {x₀ y₀ x₁ y₁}

/-- The points visited are the ones up to the first at the end point. -/
theorem visits_iff {points : List (Int32 × Int32)} : Visits x₀ y₀ x₁ y₁ points ↔
    ∃ N, (∀ k < N, (penAt x₀ y₀ x₁ y₁ k).point ≠ (x₁, y₁)) ∧
      (penAt x₀ y₀ x₁ y₁ N).point = (x₁, y₁) ∧
      points = (List.range (N + 1)).map fun k => (penAt x₀ y₀ x₁ y₁ k).point := by
  constructor
  · rintro ⟨enough, same⟩
    have found : ∃ N, (penAt x₀ y₀ x₁ y₁ N).point = (x₁, y₁) := by
      by_contra never
      have long := linePoints_endless (not_exists.mp never)
      have first := congrArg List.length (same enough (le_refl _))
      have next := congrArg List.length (same (enough + 1) (Nat.le_succ _))
      rw [long] at first next
      omega
    classical
    refine ⟨Nat.find found, fun k lt => Nat.find_min found lt, Nat.find_spec found, ?_⟩
    have large := same (max enough (Nat.find found + 1)) (le_max_left _ _)
    rw [linePoints_first (fun k lt => Nat.find_min found lt) (Nat.find_spec found)
      (by omega)] at large
    exact large.symm
  · rintro ⟨N, before, found, rfl⟩
    exact ⟨N + 1, fun fuel enough => linePoints_first before found (by omega)⟩

/-- The words that hold a turn of the algorithm. -/
def penOf (x₀ y₀ x₁ y₁ : Int32) (t : Turn) : LinePen where
  x := x₀ + pace x₀ x₁ * Int32.ofInt t.u
  y := y₀ + pace y₀ y₁ * Int32.ofInt t.v
  err := Int32.ofInt t.err

/-- The doubled error of a turn is a word. -/
def DoubleFits (err : Int) : Prop := -2 ^ 31 ≤ 2 * err ∧ 2 * err < 2 ^ 31

theorem ofInt_double {err : Int} (fits : DoubleFits err) :
    (Int32.ofInt err * 2).toInt = 2 * err := by
  obtain ⟨low, high⟩ := fits
  have word : Int32.ofInt err * 2 = Int32.ofInt (2 * err) := by
    rw [Int.mul_comm, Int32.ofInt_mul]
    rfl
  rw [word, Int32.toInt_ofInt_of_le low high]

theorem toInt_neg_of_nonneg (nonneg : 0 ≤ a.toInt) : (-a).toInt = -a.toInt := by
  have high := a.toInt_lt
  rw [Int32.toInt_neg]
  exact Int.bmod_eq_of_le (by omega) (by omega)

/-- A turn on words is the turn on integers if the doubled error fits. -/
theorem next_penOf {t : Turn} (dx : (span x₀ x₁).toInt = X)
    (dy : (span y₀ y₁).toInt = Y) (fits : DoubleFits t.err) :
    (penOf x₀ y₀ x₁ y₁ t).next (span x₀ x₁) (span y₀ y₁) (pace x₀ x₁) (pace y₀ y₁) =
      penOf x₀ y₀ x₁ y₁ (t.next X Y) := by
  have across : -span y₀ y₁ < Int32.ofInt t.err * 2 ↔ -(Y : Int) < 2 * t.err := by
    rw [Int32.lt_iff_toInt_lt, ofInt_double fits, toInt_neg_of_nonneg (by omega), dy]
  have up : Int32.ofInt t.err * 2 < span x₀ x₁ ↔ 2 * t.err < X := by
    rw [Int32.lt_iff_toInt_lt, ofInt_double fits, dx]
  have dx' : span x₀ x₁ = Int32.ofInt X := by rw [← dx, Int32.ofInt_toInt]
  have dy' : span y₀ y₁ = Int32.ofInt Y := by rw [← dy, Int32.ofInt_toInt]
  have stepped (a s : Int32) (n : Nat) (move : Prop) [Decidable move] :
      (if move then a + s * Int32.ofInt n + s else a + s * Int32.ofInt n) =
        a + s * Int32.ofInt ((n + if move then 1 else 0 : Nat) : Int) := by
    split
    · push_cast
      rw [Int32.ofInt_add, Int32.mul_add, show Int32.ofInt 1 = 1 from rfl, Int32.mul_one,
        Int32.add_assoc]
    · rfl
  rw [LinePen.next, penOf, penOf, Turn.next]
  simp only [across, up, stepped, LinePen.mk.injEq, true_and]
  rw [Int32.ofInt_add]
  congr 1
  · split
    · rw [dy', Int32.ofInt_sub]
    · rw [Int.sub_zero]
  · split
    · rw [dx']
    · rfl

theorem penAt_turn {k : Nat} (dx : (span x₀ x₁).toInt = X) (dy : (span y₀ y₁).toInt = Y)
    (fits : ∀ j < k, DoubleFits (turn X Y j).err) :
    penAt x₀ y₀ x₁ y₁ k = penOf x₀ y₀ x₁ y₁ (turn X Y k) := by
  induction k with
  | zero =>
    rw [penAt, Function.iterate_zero_apply, turn, penOf, Int32.ofInt_sub, ← dx, ← dy,
      Int32.ofInt_toInt, Int32.ofInt_toInt]
    simp
  | succ k ih =>
    rw [penAt, Function.iterate_succ_apply', ← penAt, ih fun j lt => fits j (by omega),
      next_penOf dx dy (fits k (by omega)), turn]

def distance (a b : Int32) : Nat := (b.toInt - a.toInt).natAbs

theorem span_eq (short : distance a b < 2 ^ 31) : (span a b).toInt = distance a b := by
  rw [distance] at short ⊢
  rw [span]
  split
  · rename_i less
    rw [Int32.lt_iff_toInt_lt] at less
    rw [int32_sub_eq (by omega) (by omega)]
    omega
  · rename_i not_less
    rw [Int32.lt_iff_toInt_lt] at not_less
    rw [int32_sub_eq (by omega) (by omega)]
    omega

/-- The steps that lead from one coordinate to the other. -/
theorem pace_iff {w : Int32} : a + pace a b * w = b ↔ w = span a b := by
  rw [pace, span]
  constructor
  · intro reached
    split at reached <;> grind
  · intro same
    split at same <;> grind

theorem steps_iff (short : distance a b < 2 ^ 31)
    (le : n ≤ distance a b) : a + pace a b * Int32.ofInt n = b ↔ n = distance a b := by
  rw [pace_iff, ← Int32.toInt_inj, span_eq short, Int32.toInt_ofInt_of_le (by omega) (by omega)]
  omega

/-- No doubled error of the line leaves a word. -/
def LineFits (x₀ y₀ x₁ y₁ : Int32) : Prop :=
  distance x₀ x₁ < 2 ^ 31 ∧ distance y₀ y₁ < 2 ^ 31 ∧
    if distance y₀ y₁ ≤ distance x₀ x₁ then
      peak (distance x₀ x₁) (distance y₀ y₁) < 2 ^ 30
    else peak (distance y₀ y₁) (distance x₀ x₁) ≤ 2 ^ 30

theorem doubles_fit_wide (pos : 0 < X) (le : Y ≤ X) (word : X < 2 ^ 31) :
    (∀ k < X, DoubleFits (turn X Y k).err) ↔ peak X Y < 2 ^ 30 := by
  constructor
  · intro fits
    obtain ⟨k, lt, top⟩ := peak_attained pos le
    have high := (fits k lt).2
    rw [turn_wide pos le] at high
    dsimp only at high
    omega
  · intro small k lt
    have below := error_le_peak pos le k
    have above := neg_minor_lt pos le k
    rw [turn_wide pos le]
    constructor
    · dsimp only
      omega
    · dsimp only
      omega

theorem doubles_fit_tall (less : X < Y) (word : Y < 2 ^ 31) :
    (∀ k < Y, DoubleFits (turn X Y k).err) ↔ peak Y X ≤ 2 ^ 30 := by
  have pos : 0 < Y := by omega
  constructor
  · intro fits
    obtain ⟨k, lt, top⟩ := peak_attained pos less.le
    have low := (fits k lt).1
    rw [turn_tall less] at low
    dsimp only at low
    omega
  · intro small k lt
    have below := error_le_peak pos less.le k
    have above := neg_minor_lt pos less.le k
    rw [turn_tall less]
    constructor
    · dsimp only
      omega
    · dsimp only
      omega

theorem lineFits_iff : LineFits x₀ y₀ x₁ y₁ ↔
    distance x₀ x₁ < 2 ^ 31 ∧ distance y₀ y₁ < 2 ^ 31 ∧
      ∀ k < max (distance x₀ x₁) (distance y₀ y₁),
        DoubleFits (turn (distance x₀ x₁) (distance y₀ y₁) k).err := by
  rw [LineFits]
  refine and_congr_right fun wide => and_congr_right fun tall => ?_
  split
  · rename_i le
    rw [max_eq_left le]
    rcases Nat.eq_zero_or_pos (distance x₀ x₁) with none | pos
    · have none' : distance y₀ y₁ = 0 := by omega
      simp [none, none', peak]
    · exact (doubles_fit_wide pos le wide).symm
  · rename_i less
    rw [max_eq_right (by omega)]
    exact (doubles_fit_tall (by omega) tall).symm

/-- An error term that is no word does not fit doubled as the word it becomes either. -/
theorem doubleFits_word {err : Int} (low : -(3 * 2 ^ 31) < 2 * err) (high : 2 * err < 3 * 2 ^ 31) :
    DoubleFits (Int32.ofInt err).toInt ↔ DoubleFits err := by
  rw [Int32.toInt_ofInt, DoubleFits, DoubleFits, Int.bmod_def, Int32.size]
  split <;> omega

/-- The first turn that finds a doubled error too large has come there as on the integers. -/
theorem first_overflow (wide : distance x₀ x₁ < 2 ^ 31) (tall : distance y₀ y₁ < 2 ^ 31)
    (fails : ¬ LineFits x₀ y₀ x₁ y₁) :
    ∃ k < max (distance x₀ x₁) (distance y₀ y₁),
      penAt x₀ y₀ x₁ y₁ k =
        penOf x₀ y₀ x₁ y₁ (turn (distance x₀ x₁) (distance y₀ y₁) k) ∧
      ¬ DoubleFits (turn (distance x₀ x₁) (distance y₀ y₁) k).err := by
  have found : ∃ k, k < max (distance x₀ x₁) (distance y₀ y₁) ∧
      ¬ DoubleFits (turn (distance x₀ x₁) (distance y₀ y₁) k).err := by
    by_contra none
    push Not at none
    exact fails (lineFits_iff.mpr ⟨wide, tall, none⟩)
  classical
  obtain ⟨lt, large⟩ := Nat.find_spec found
  refine ⟨Nat.find found, lt, penAt_turn (span_eq wide) (span_eq tall) fun j less => ?_, large⟩
  by_contra larger
  exact Nat.find_min found less ⟨by omega, larger⟩

theorem penOf_target {k : Nat} (wide : distance x₀ x₁ < 2 ^ 31) (tall : distance y₀ y₁ < 2 ^ 31)
    (le : k ≤ max (distance x₀ x₁) (distance y₀ y₁)) :
    (penOf x₀ y₀ x₁ y₁ (turn (distance x₀ x₁) (distance y₀ y₁) k)).point = (x₁, y₁) ↔
      k = max (distance x₀ x₁) (distance y₀ y₁) := by
  obtain ⟨u, v, both⟩ := turn_le le
  rw [point_eq_iff, ← both]
  exact and_congr (steps_iff wide u) (steps_iff tall v)

theorem visits_turns (fits : LineFits x₀ y₀ x₁ y₁) :
    Visits x₀ y₀ x₁ y₁ ((List.range (max (distance x₀ x₁) (distance y₀ y₁) + 1)).map fun k =>
      (penOf x₀ y₀ x₁ y₁ (turn (distance x₀ x₁) (distance y₀ y₁) k)).point) := by
  obtain ⟨wide, tall, doubles⟩ := lineFits_iff.mp fits
  have same (k : Nat) (le : k ≤ max (distance x₀ x₁) (distance y₀ y₁)) :
      penAt x₀ y₀ x₁ y₁ k = penOf x₀ y₀ x₁ y₁ (turn (distance x₀ x₁) (distance y₀ y₁) k) :=
    penAt_turn (span_eq wide) (span_eq tall) fun j lt => doubles j (by omega)
  refine visits_iff.mpr ⟨max (distance x₀ x₁) (distance y₀ y₁), fun k lt => ?_, ?_, ?_⟩
  · rw [same k lt.le, ne_eq, penOf_target wide tall lt.le]
    omega
  · rw [same _ (le_refl _), penOf_target wide tall (le_refl _)]
  · refine List.map_congr_left fun k mem => ?_
    rw [same k (by have := List.mem_range.mp mem; omega)]

end Line

/-- The loop ends at its end point if the distances are words and no error term reaches
`2 ^ 30`; otherwise a word of it overflows. -/
theorem line_ends (x₀ y₀ x₁ y₁ : Int32) :
    (LineFits x₀ y₀ x₁ y₁ →
      ∃ points, Visits x₀ y₀ x₁ y₁ points ∧ points.getLast? = some (x₁, y₁)) ∧
    (¬ LineFits x₀ y₀ x₁ y₁ →
      2 ^ 31 ≤ distance x₀ x₁ ∨ 2 ^ 31 ≤ distance y₀ y₁ ∨
        ∃ n < max (distance x₀ x₁) (distance y₀ y₁),
          ¬ DoubleFits (penAt x₀ y₀ x₁ y₁ n).err.toInt) := by
  constructor
  · intro fits
    have visits := visits_turns fits
    obtain ⟨N, -, found, points⟩ := visits_iff.mp visits
    refine ⟨_, visits, ?_⟩
    rw [points, List.range_succ, List.map_append, List.map_singleton, List.getLast?_append,
      List.getLast?_singleton, found]
    rfl
  · intro fails
    by_cases wide : distance x₀ x₁ < 2 ^ 31
    · by_cases tall : distance y₀ y₁ < 2 ^ 31
      · obtain ⟨k, lt, same, large⟩ := first_overflow wide tall fails
        have bounds := turn_err_lt lt
        refine .inr (.inr ⟨k, lt, ?_⟩)
        rw [same, penOf]
        rwa [doubleFits_word (by omega) (by omega)]
      · exact .inr (.inl (by omega))
    · exact .inl (by omega)

/-- A line to the right over `2 ^ 30` pixels: the doubled error is the smallest word, so
the loop never moves to the right. -/
theorem far_line_never_ends : ¬ ∃ points, Visits 0 0 0x40000000 0 points := by
  rintro ⟨points, visits⟩
  obtain ⟨N, -, found, -⟩ := visits_iff.mp visits
  have stays (n : Nat) : (penAt 0 0 0x40000000 0 n).x = 0 ∧
      (penAt 0 0 0x40000000 0 n).err ∈ [0x40000000, -0x80000000, -0x40000000, (0 : Int32)] := by
    induction n with
    | zero => decide
    | succ n ih =>
      obtain ⟨x, err⟩ := ih
      rw [penAt, Function.iterate_succ_apply', ← penAt, LinePen.next, x]
      simp only [List.mem_cons, List.not_mem_nil, or_false] at err
      dsimp only
      rcases err with err | err | err | err <;> rw [err] <;> exact ⟨by decide, by decide⟩
  have right := (point_eq_iff.mp found).1
  rw [(stays N).1] at right
  exact absurd right (by decide)

/-- Neighbours among the eight pixels around each other. -/
def Adjacent (p q : Int32 × Int32) : Prop := max (distance p.1 q.1) (distance p.2 q.2) = 1

/-- A point whose distance from the line, along the minor axis, is at most half a unit,
beside a point between the two ends. -/
structure NearSegment (x₀ y₀ x₁ y₁ : Int32) (p : Int32 × Int32) : Prop where
  x : min x₀.toInt x₁.toInt ≤ p.1.toInt ∧ p.1.toInt ≤ max x₀.toInt x₁.toInt
  y : min y₀.toInt y₁.toInt ≤ p.2.toInt ∧ p.2.toInt ≤ max y₀.toInt y₁.toInt
  near : 2 * ((x₁.toInt - x₀.toInt) * (p.2.toInt - y₀.toInt) -
    (y₁.toInt - y₀.toInt) * (p.1.toInt - x₀.toInt)).natAbs ≤
      max (distance x₀ x₁) (distance y₀ y₁)

structure DrawsLine (x₀ y₀ x₁ y₁ : Int32) (points : List (Int32 × Int32)) : Prop where
  starts : points.head? = some (x₀, y₀)
  ends : points.getLast? = some (x₁, y₁)
  count : points.length = max (distance x₀ x₁) (distance y₀ y₁) + 1
  adjacent : points.IsChain Adjacent
  near : ∀ p ∈ points, NearSegment x₀ y₀ x₁ y₁ p

/-- `pace` as an integer. -/
def direction (a b : Int32) : Int := if a < b then 1 else -1

theorem natAbs_direction (a b : Int32) : (direction a b).natAbs = 1 := by
  rw [direction]
  split <;> rfl

theorem direction_distance (a b : Int32) : b.toInt - a.toInt = direction a b * distance a b := by
  rw [direction, distance]
  split
  · rename_i less
    rw [Int32.lt_iff_toInt_lt] at less
    omega
  · rename_i not_less
    rw [Int32.lt_iff_toInt_lt] at not_less
    omega

theorem steps_toInt (short : distance a b < 2 ^ 31) (le : n ≤ distance a b) :
    (a + pace a b * Int32.ofInt n).toInt - a.toInt = direction a b * n := by
  have low := a.le_toInt
  have high := a.toInt_lt
  have low' := b.le_toInt
  have high' := b.toInt_lt
  have word : (Int32.ofInt n).toInt = n := Int32.toInt_ofInt_of_le (by omega) (by omega)
  rw [distance] at le
  rw [pace, direction]
  split
  · rename_i less
    rw [Int32.lt_iff_toInt_lt] at less
    rw [Int32.one_mul, int32_add_eq (by omega) (by omega)]
    omega
  · rename_i not_less
    rw [Int32.lt_iff_toInt_lt] at not_less
    rw [Int32.neg_mul, Int32.one_mul, ← Int32.sub_eq_add_neg, int32_sub_eq (by omega) (by omega)]
    omega

/-- A coordinate on its way to the other end. -/
theorem steps_between (short : distance a b < 2 ^ 31) (le : n ≤ distance a b) :
    min a.toInt b.toInt ≤ (a + pace a b * Int32.ofInt n).toInt ∧
      (a + pace a b * Int32.ofInt n).toInt ≤ max a.toInt b.toInt := by
  have moved := steps_toInt short le
  have whole := direction_distance a b
  rw [direction] at moved whole
  split at moved <;> rename_i less <;> simp only [less, if_true, if_false] at whole <;> omega

theorem distance_steps {m : Nat} (short : distance a b < 2 ^ 31) (le : m + n ≤ distance a b) :
    distance (a + pace a b * Int32.ofInt m) (a + pace a b * Int32.ofInt (m + n : Nat)) = n := by
  have first := steps_toInt short (by omega : m ≤ distance a b)
  have second := steps_toInt short le
  have apart : (a + pace a b * Int32.ofInt (m + n : Nat)).toInt -
      (a + pace a b * Int32.ofInt m).toInt = direction a b * n := by
    push_cast at first second ⊢
    linarith
  rw [distance, apart, direction]
  split <;> omega

section Shape

variable {x₀ y₀ x₁ y₁ : Int32}

theorem turn_nearSegment (wide : distance x₀ x₁ < 2 ^ 31) (tall : distance y₀ y₁ < 2 ^ 31)
    {k : Nat} (le : k ≤ max (distance x₀ x₁) (distance y₀ y₁)) :
    NearSegment x₀ y₀ x₁ y₁
      (penOf x₀ y₀ x₁ y₁ (turn (distance x₀ x₁) (distance y₀ y₁) k)).point := by
  obtain ⟨uLe, vLe, -⟩ := turn_le le
  obtain ⟨low, high⟩ := turn_near le
  refine ⟨steps_between wide uLe, steps_between tall vLe, ?_⟩
  dsimp only [LinePen.point, penOf]
  rw [steps_toInt wide uLe, steps_toInt tall vLe, direction_distance x₀ x₁,
    direction_distance y₀ y₁]
  generalize (turn (distance x₀ x₁) (distance y₀ y₁) k).u = u at *
  generalize (turn (distance x₀ x₁) (distance y₀ y₁) k).v = v at *
  have split : direction x₀ x₁ * (distance x₀ x₁ : Int) * (direction y₀ y₁ * (v : Int)) -
      direction y₀ y₁ * (distance y₀ y₁ : Int) * (direction x₀ x₁ * (u : Int)) =
        direction x₀ x₁ * direction y₀ y₁ *
          ((distance x₀ x₁ : Int) * v - (distance y₀ y₁ : Int) * u) := by
    ring
  rw [split, Int.natAbs_mul, Int.natAbs_mul, natAbs_direction, natAbs_direction]
  omega

theorem turn_adjacent (wide : distance x₀ x₁ < 2 ^ 31) (tall : distance y₀ y₁ < 2 ^ 31)
    {k : Nat} (lt : k < max (distance x₀ x₁) (distance y₀ y₁)) :
    Adjacent (penOf x₀ y₀ x₁ y₁ (turn (distance x₀ x₁) (distance y₀ y₁) k)).point
      (penOf x₀ y₀ x₁ y₁ (turn (distance x₀ x₁) (distance y₀ y₁) (k + 1))).point := by
  obtain ⟨a, -, b, -, one, u, v⟩ := turn_moves lt
  obtain ⟨uLe, vLe, -⟩ := turn_le (Nat.succ_le_of_lt lt)
  rw [Nat.succ_eq_add_one, u] at uLe
  rw [Nat.succ_eq_add_one, v] at vLe
  rw [Adjacent]
  dsimp only [LinePen.point, penOf]
  rw [u, v, distance_steps wide uLe, distance_steps tall vLe, one]

theorem turns_drawLine (wide : distance x₀ x₁ < 2 ^ 31) (tall : distance y₀ y₁ < 2 ^ 31) :
    DrawsLine x₀ y₀ x₁ y₁
      ((List.range (max (distance x₀ x₁) (distance y₀ y₁) + 1)).map fun k =>
        (penOf x₀ y₀ x₁ y₁ (turn (distance x₀ x₁) (distance y₀ y₁) k)).point) where
  starts := by
    rw [List.range_succ_eq_map, List.map_cons, List.head?_cons, turn, penOf, LinePen.point]
    simp
  ends := by
    rw [List.range_succ, List.map_append, List.map_singleton, List.getLast?_append,
      List.getLast?_singleton, (penOf_target wide tall (le_refl _)).mpr rfl]
    rfl
  count := by rw [List.length_map, List.length_range]
  adjacent := by
    rw [List.isChain_map, List.isChain_range_succ]
    exact fun k lt => turn_adjacent wide tall lt
  near := by
    intro p mem
    obtain ⟨k, range, rfl⟩ := List.mem_map.mp mem
    have lt := List.mem_range.mp range
    exact turn_nearSegment wide tall (by omega)

/-- A turn whose doubled error does not fit goes no further along the major axis. -/
theorem overflow_stays {k : Nat} (dx : (span x₀ x₁).toInt = X) (dy : (span y₀ y₁).toInt = Y)
    (small : max X Y ≤ 2 ^ 30) (lt : k < max X Y) (large : ¬ DoubleFits (turn X Y k).err)
    (p : LinePen) (same : p = penOf x₀ y₀ x₁ y₁ (turn X Y k)) :
    (Y ≤ X → (p.next (span x₀ x₁) (span y₀ y₁) (pace x₀ x₁) (pace y₀ y₁)).x = p.x) ∧
      (X < Y → (p.next (span x₀ x₁) (span y₀ y₁) (pace x₀ x₁) (pace y₀ y₁)).y = p.y) := by
  obtain ⟨low, high⟩ := turn_err_lt lt
  rw [DoubleFits] at large
  have double : p.err * 2 = Int32.ofInt (2 * (turn X Y k).err) := by
    rw [same, penOf, Int.mul_comm, Int32.ofInt_mul]
    rfl
  have value : (p.err * 2).toInt = (2 * (turn X Y k).err).bmod Int32.size := by
    rw [double, Int32.toInt_ofInt]
  rw [Int.bmod_def, Int32.size] at value
  rw [LinePen.next]
  constructor
  · intro wide
    have pos : 0 < X := by omega
    have above := neg_minor_lt pos wide k
    rw [turn_wide pos wide] at large value low high
    dsimp only at large value low high ⊢
    rw [if_neg]
    rw [Int32.lt_iff_toInt_lt, toInt_neg_of_nonneg (by omega), dy, value]
    split <;> omega
  · intro tall
    have pos : 0 < Y := by omega
    have above := neg_minor_lt pos tall.le k
    rw [turn_tall tall] at large value low high
    dsimp only at large value low high ⊢
    rw [if_neg]
    rw [Int32.lt_iff_toInt_lt, dx, value]
    split <;> omega

/-- A turn that goes no further along the major axis leaves too few for the distance. -/
theorem overflow_misses (dx : distance x₀ x₁ = X) (dy : distance y₀ y₁ = Y)
    (small : max X Y ≤ 2 ^ 30) (fails : ¬ LineFits x₀ y₀ x₁ y₁) :
    (penAt x₀ y₀ x₁ y₁ (max X Y)).point ≠ (x₁, y₁) := by
  have wide : distance x₀ x₁ < 2 ^ 31 := by omega
  have tall : distance y₀ y₁ < 2 ^ 31 := by omega
  obtain ⟨k, lt, same, large⟩ := first_overflow wide tall fails
  rw [dx, dy] at lt same large
  have stays := overflow_stays (by rw [span_eq wide, dx]) (by rw [span_eq tall, dy]) small lt large
    _ same
  obtain ⟨u, v, -⟩ := turn_le lt.le
  obtain ⟨n, turns⟩ : ∃ n, max X Y = n + (k + 1) := ⟨max X Y - (k + 1), by omega⟩
  rw [turns, penAt, Function.iterate_add_apply, Function.iterate_succ_apply', ← penAt, ne_eq,
    point_eq_iff]
  rintro ⟨x, y⟩
  rcases le_or_gt Y X with major | major
  · obtain ⟨m, le, eq⟩ := iterate_x (span x₀ x₁) (span y₀ y₁) (pace x₀ x₁)
      (pace y₀ y₁) ((penAt x₀ y₀ x₁ y₁ k).next (span x₀ x₁) (span y₀ y₁) (pace x₀ x₁)
        (pace y₀ y₁)) n
    rw [x, stays.1 major, same, turn_wide (by omega) major, penOf, Int32.add_assoc,
      ← Int32.mul_add, ← Int32.ofInt_add] at eq
    have reached := (steps_iff (n := k + m) wide (by omega)).mp (by push_cast; exact eq.symm)
    omega
  · obtain ⟨m, le, eq⟩ := iterate_y (span x₀ x₁) (span y₀ y₁) (pace x₀ x₁)
      (pace y₀ y₁) ((penAt x₀ y₀ x₁ y₁ k).next (span x₀ x₁) (span y₀ y₁) (pace x₀ x₁)
        (pace y₀ y₁)) n
    rw [y, stays.2 major, same, turn_tall major, penOf, Int32.add_assoc,
      ← Int32.mul_add, ← Int32.ofInt_add] at eq
    have reached := (steps_iff (n := k + m) tall (by omega)).mp (by push_cast; exact eq.symm)
    omega

end Shape

/-- The service moves the current position, and draws the points its loop visits. -/
theorem ntGdiLineTo_points {d : Display} {s : GdiState} {hdc i : Nat} {dc : W32kDc}
    {ref : SurfaceRef} (target : dcTarget s hdc = some (i, dc, ref))
    (drawn : (dcPenColor d s hdc dc).2 = false) (x₁ y₁ : Int32) (fuel : Nat) (c : Canvas) :
    ntGdiLineTo d s hdc x₁ y₁ fuel c =
      (1, s.setBody i (.dc { dc with curX := x₁, curY := y₁ }),
        (linePoints x₁ y₁ (span dc.curX x₁) (span dc.curY y₁) (pace dc.curX x₁) (pace dc.curY y₁)
          fuel ⟨dc.curX, dc.curY, span dc.curX x₁ - span dc.curY y₁⟩).foldl
          (fun c point => dcPixel d s dc ref point.1 point.2
            (gdiPixel d (dcPenColor d s hdc dc).1) c) c) := by
  rw [ntGdiLineTo, target]
  dsimp only
  rw [if_neg (by rw [drawn]; exact Bool.false_ne_true), ← lineLoop_points]
  rfl

/-- Between points below `2 ^ 29`, the service draws the line from the current position
to the target if no error term reaches `2 ^ 30`. -/
theorem lines_drawn {d : Display} {s : GdiState} {hdc i : Nat} {dc : W32kDc} {ref : SurfaceRef}
    (target : dcTarget s hdc = some (i, dc, ref)) (drawn : (dcPenColor d s hdc dc).2 = false)
    {x₁ y₁ : Int32} (from_ : dc.curX.toInt.natAbs < 2 ^ 29 ∧ dc.curY.toInt.natAbs < 2 ^ 29)
    (to_ : x₁.toInt.natAbs < 2 ^ 29 ∧ y₁.toInt.natAbs < 2 ^ 29) :
    (∃ points, DrawsLine dc.curX dc.curY x₁ y₁ points ∧
      Visits dc.curX dc.curY x₁ y₁ points ∧
      ∃ enough, ∀ fuel ≥ enough, ∀ c, ntGdiLineTo d s hdc x₁ y₁ fuel c =
        (1, s.setBody i (.dc { dc with curX := x₁, curY := y₁ }),
          points.foldl (fun c point => dcPixel d s dc ref point.1 point.2
            (gdiPixel d (dcPenColor d s hdc dc).1) c) c)) ↔
      LineFits dc.curX dc.curY x₁ y₁ := by
  have wide : distance dc.curX x₁ < 2 ^ 30 := by rw [distance]; omega
  have tall : distance dc.curY y₁ < 2 ^ 30 := by rw [distance]; omega
  constructor
  · rintro ⟨points, line, visits, -⟩
    by_contra fails
    obtain ⟨N, -, found, rfl⟩ := visits_iff.mp visits
    have count := line.count
    rw [List.length_map, List.length_range] at count
    have misses := overflow_misses rfl rfl (by omega) fails
    rw [← Nat.succ.inj count] at misses
    exact misses found
  · intro fits
    refine ⟨_, turns_drawLine (by omega) (by omega), visits_turns fits, ?_⟩
    obtain ⟨enough, same⟩ := visits_turns fits
    refine ⟨enough, fun fuel large c => ?_⟩
    rw [ntGdiLineTo_points target drawn, same fuel large]

theorem lines_drawn_window : ∃ points, DrawsLine 0 0 6 2 points ∧ Visits 0 0 6 2 points := by
  have target : dcTarget (windowOn vgaFramebuffer 0 0) 0x10001 =
      some (1, windowDcOn vgaFramebuffer 0 0, .screen 1) := rfl
  have drawn : (dcPenColor bareDisplay (windowOn vgaFramebuffer 0 0) 0x10001
      (windowDcOn vgaFramebuffer 0 0)).2 = false := rfl
  have near : (6 : Int32).toInt.natAbs < 2 ^ 29 ∧ (2 : Int32).toInt.natAbs < 2 ^ 29 := by decide
  obtain ⟨points, line, visits, -⟩ := (lines_drawn target drawn ⟨by decide, by decide⟩
    near).mpr (by rw [LineFits]; decide)
  exact ⟨points, line, visits⟩

/-- Half of the way along a line one pixel high, the doubled error is about three quarters
of the words. -/
theorem long_line_misses : ¬ ∃ points,
    DrawsLine (-0x1FFFFFFF) 0 0x1FFFFFFF 1 points ∧ Visits (-0x1FFFFFFF) 0 0x1FFFFFFF 1 points := by
  rintro ⟨points, line, visits⟩
  obtain ⟨N, -, found, rfl⟩ := visits_iff.mp visits
  have count := line.count
  rw [List.length_map, List.length_range] at count
  have fails : ¬ LineFits (-0x1FFFFFFF) 0 0x1FFFFFFF 1 := by
    rw [LineFits]
    decide
  have misses := overflow_misses rfl rfl (by decide) fails
  rw [← Nat.succ.inj count] at misses
  exact misses found

end W32k
