import Mathlib.Logic.Function.Basic
import Mathlib.Data.List.Basic

/-!
# Ring buffers

A ring of `n` cells, filled at `head` and drained at `tail`; it is empty when
the two are equal, so it holds at most `n - 1` elements.
-/

namespace Ring

universe u

variable {α : Type u}

/-- The cell `k` places after `tail`. -/
def cell (n tail k : Nat) : Nat := if tail + k < n then tail + k else tail + k - n

/-- How many elements the ring holds. -/
def size (n head tail : Nat) : Nat := if tail ≤ head then head - tail else head + n - tail

/-- The elements from the oldest to the newest. -/
def contents (cells : Nat → α) (n head tail : Nat) : List α :=
  (List.range (size n head tail)).map fun k => cells (cell n tail k)

theorem next_eq {n i : Nat} (small : i < n) : (i + 1) % n = if i + 1 < n then i + 1 else 0 := by
  by_cases inside : i + 1 < n
  · rw [if_pos inside, Nat.mod_eq_of_lt inside]
  · have last : i + 1 = n := by omega
    rw [if_neg inside, last, Nat.mod_self]

theorem next_lt {n i : Nat} (small : i < n) : (i + 1) % n < n :=
  Nat.mod_lt _ (by omega)

section

variable {n head tail : Nat} (hh : head < n) (ht : tail < n)
include hh ht

theorem size_lt : size n head tail < n := by
  unfold size
  split
  · omega
  · omega

omit hh in
theorem size_eq_zero : size n head tail = 0 ↔ tail = head := by
  unfold size
  split
  · omega
  · omega

/-- No cell is left exactly when all but one are filled. -/
theorem full_iff : (head + 1) % n = tail ↔ size n head tail = n - 1 := by
  rw [next_eq hh]
  unfold size
  split
  · split
    · omega
    · omega
  · split
    · omega
    · omega

theorem size_push (room : (head + 1) % n ≠ tail) :
    size n ((head + 1) % n) tail = size n head tail + 1 := by
  rw [next_eq hh] at room ⊢
  unfold size
  split at room
  · rename_i inside
    rw [if_pos inside]
    split
    · rw [if_pos (by omega)]
      omega
    · rw [if_neg (by omega)]
      omega
  · rename_i last
    rw [if_neg last]
    split
    · rw [if_pos (by omega)]
      omega
    · rw [if_pos (by omega)]
      omega

theorem cell_size : cell n tail (size n head tail) = head := by
  unfold cell size
  split
  · split
    · omega
    · omega
  · split
    · omega
    · omega

omit hh in
theorem cell_ne_head {k : Nat} (below : k < size n head tail) : cell n tail k ≠ head := by
  unfold size at below
  unfold cell
  split at below
  · split
    · omega
    · omega
  · split
    · omega
    · omega

theorem size_pop (some_ : tail ≠ head) :
    size n head tail = size n head ((tail + 1) % n) + 1 := by
  rw [next_eq ht]
  unfold size
  by_cases inside : tail + 1 < n
  · rw [if_pos inside]
    split
    · rw [if_pos (by omega)]
      omega
    · rw [if_neg (by omega)]
      omega
  · rw [if_neg inside]
    split
    · omega
    · rw [if_pos (Nat.zero_le head)]
      omega

omit hh in
theorem cell_next {k : Nat} (small : k + 1 < n) :
    cell n ((tail + 1) % n) k = cell n tail (k + 1) := by
  rw [next_eq ht]
  unfold cell
  by_cases inside : tail + 1 < n
  · rw [if_pos inside]
    split
    · rw [if_pos (by omega)]
      omega
    · rw [if_neg (by omega)]
      omega
  · rw [if_neg inside, if_pos (by omega), if_neg (by omega)]
    omega

omit hh in
theorem contents_eq_nil {cells : Nat → α} : contents cells n head tail = [] ↔ tail = head := by
  rw [← size_eq_zero ht, ← List.length_eq_zero_iff]
  simp [contents]

omit hh ht in
theorem length_contents (cells : Nat → α) :
    (contents cells n head tail).length = size n head tail := by
  simp [contents]

/-- Writing at `head` and moving it on appends. -/
theorem contents_push (cells : Nat → α) (x : α) (room : (head + 1) % n ≠ tail) :
    contents (Function.update cells head x) n ((head + 1) % n) tail =
      contents cells n head tail ++ [x] := by
  unfold contents
  rw [size_push hh ht room, List.range_succ, List.map_append, List.map_singleton,
    cell_size hh ht, Function.update_self]
  refine congrArg (· ++ [x]) (List.map_congr_left ?_)
  intro k hk
  rw [Function.update_of_ne (cell_ne_head ht (List.mem_range.mp hk))]

/-- The cell at `tail` holds the oldest element, and moving on drops it. -/
theorem contents_pop (cells : Nat → α) (some_ : tail ≠ head) :
    contents cells n head tail = cells tail :: contents cells n head ((tail + 1) % n) := by
  have bound := size_lt hh ht
  have more := size_pop hh ht some_
  unfold contents
  rw [more, List.range_succ_eq_map, List.map_cons, List.map_map]
  have first : cell n tail 0 = tail := by
    unfold cell
    rw [if_pos (by omega)]
    rfl
  rw [first]
  refine congrArg _ (List.map_congr_left ?_)
  intro k hk
  rw [List.mem_range] at hk
  rw [Function.comp_apply, cell_next ht (by omega)]

end

end Ring
