import Mathlib.Algebra.Group.Nat.Defs
import Mathlib.Data.List.Basic

/-!
# Texts that end with a zero

A text is the list of its units; in memory a zero follows. A read at an index
gives a unit or that zero, and there is nothing to read beyond it.
-/

namespace Terminated

universe u

variable {α : Type u} [Zero α]

/-- The unit at an index, the zero behind the last one, or nothing. -/
def unit (text : List α) (p : Nat) : Option α := (text ++ [0])[p]?

theorem unit_isSome {text : List α} {p : Nat} : (unit text p).isSome ↔ p ≤ text.length := by
  have inside : (unit text p).isSome ↔ p < text.length + 1 := by simp [unit]
  exact inside.trans Nat.lt_succ_iff

theorem unit_le {text : List α} {p : Nat} {c : α} (read : unit text p = some c) :
    p ≤ text.length := by
  rw [← unit_isSome, read]
  rfl

@[simp] theorem unit_length (text : List α) : unit text text.length = some 0 := by
  simp [unit]

theorem unit_lt {text : List α} {p : Nat} {c : α} (read : unit text p = some c) (nz : c ≠ 0) :
    p < text.length := by
  refine Nat.lt_of_le_of_ne (unit_le read) ?_
  rintro rfl
  rw [unit_length] at read
  exact nz (Option.some.inj read).symm

theorem exists_unit {text : List α} {p : Nat} (inside : p ≤ text.length) :
    ∃ c, unit text p = some c :=
  Option.isSome_iff_exists.mp (unit_isSome.mpr inside)

/-- Behind a beginning of the text the rest of it is read. -/
@[simp] theorem unit_append (pre rest : List α) (i : Nat) :
    unit (pre ++ rest) (pre.length + i) = unit rest i := by
  rw [unit, List.append_assoc, List.getElem?_append_right (Nat.le_add_right ..),
    Nat.add_sub_cancel_left, unit]

@[simp] theorem unit_here (pre rest : List α) : unit (pre ++ rest) pre.length = unit rest 0 := by
  rw [← unit_append pre rest 0, Nat.add_zero]

@[simp] theorem unit_zero_cons (c : α) (rest : List α) : unit (c :: rest) 0 = some c := rfl

theorem exists_cons {rest : List α} {c : α} (nz : c ≠ 0) (head : rest.headD 0 = c) :
    ∃ more, rest = c :: more := by
  cases rest with
  | nil => exact absurd head.symm nz
  | cons c' more => exact ⟨more, by rw [← head, List.headD_cons]⟩

/-- From index `p` on, `rest` is left. -/
structure Left (text : List α) (p : Nat) (rest : List α) : Prop where
  inside : p + rest.length = text.length
  drop : text.drop p = rest

namespace Left

variable {text rest : List α} {p : Nat}

omit [Zero α] in
theorem start (text : List α) : Left text 0 text := ⟨Nat.zero_add _, List.drop_zero⟩

theorem read (left : Left text p rest) : unit text p = some (rest.headD 0) := by
  have length : p = (text.take p).length := by
    rw [List.length_take, ← left.inside]
    omega
  conv_lhs => rw [← List.take_append_drop p text, left.drop]
  nth_rewrite 2 [length]
  rw [unit_here]
  cases rest <;> rfl

omit [Zero α] in
theorem next {c : α} (left : Left text p (c :: rest)) : Left text (p + 1) rest := by
  refine ⟨?_, ?_⟩
  · rw [← left.inside, List.length_cons]
    omega
  · rw [← List.tail_drop, left.drop, List.tail_cons]

theorem tail (left : Left text p rest) {c : α} (nz : c ≠ 0) (head : rest.headD 0 = c) :
    Left text (p + 1) rest.tail := by
  obtain ⟨more, rfl⟩ := exists_cons nz head
  exact left.next

/-- Two units behind the last one there is nothing. -/
theorem past (left : Left text p []) : unit text (p + 1) = none := by
  have outside : text.length < p + 1 := by
    rw [← left.inside]
    exact Nat.lt_succ_self p
  rw [← Option.not_isSome_iff_eq_none, unit_isSome]
  omega

end Left

end Terminated
