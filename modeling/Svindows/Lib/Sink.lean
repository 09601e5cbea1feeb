import Mathlib.Algebra.Group.Nat.Defs
import Mathlib.Data.List.Basic
import Mathlib.Logic.Function.Basic

/-!
# Buffers that take a beginning of a text

A sink counts every unit that is put into it and stores those that leave room for
a zero. Closed with that zero, the buffer holds a beginning of the text.
-/

universe u

/-- A buffer, its size, and the number of units put into it so far. -/
structure Sink (α : Type u) where
  buf : Nat → α
  size : Nat
  count : Nat

namespace Sink

variable {α : Type u}

def put (s : Sink α) (c : α) : Sink α :=
  { s with
    buf := if s.count + 1 < s.size then Function.update s.buf s.count c else s.buf
    count := s.count + 1 }

def putAll (s : Sink α) (text : List α) : Sink α := text.foldl put s

@[simp] theorem putAll_size (s : Sink α) (text : List α) : (putAll s text).size = s.size := by
  induction text generalizing s with
  | nil => rfl
  | cons c text ih => exact ih (s.put c)

@[simp] theorem putAll_count (s : Sink α) (text : List α) :
    (putAll s text).count = s.count + text.length := by
  induction text generalizing s with
  | nil => rfl
  | cons c text ih =>
    refine (ih (s.put c)).trans ?_
    rw [List.length_cons, Nat.add_comm text.length, ← Nat.add_assoc]
    rfl

/-- Each unit goes to its own place, if there is room for it and a zero behind it. -/
theorem putAll_buf (s : Sink α) (text : List α) (i : Nat) :
    (putAll s text).buf i =
      if s.count ≤ i ∧ i + 1 < s.size then text.getD (i - s.count) (s.buf i) else s.buf i := by
  induction text generalizing s with
  | nil => simp [putAll]
  | cons c text ih =>
    refine (ih (s.put c)).trans ?_
    have buf : (s.put c).buf i = if i = s.count ∧ i + 1 < s.size then c else s.buf i := by
      simp only [put]
      by_cases here : i = s.count
      · subst here
        by_cases room : s.count + 1 < s.size <;> simp [room]
      · split <;> simp [here]
    rw [show (s.put c).size = s.size from rfl, show (s.put c).count = s.count + 1 from rfl, buf]
    rcases Nat.lt_trichotomy i s.count with before | rfl | after
    · simp [Nat.not_le.mpr before, show ¬ s.count + 1 ≤ i by omega, show i ≠ s.count by omega]
    · rw [if_neg fun room => Nat.not_succ_le_self _ room.1]
      simp
    · obtain ⟨n, rfl⟩ : ∃ n, i = s.count + 1 + n := ⟨i - (s.count + 1), by omega⟩
      have place : s.count + 1 + n - s.count = n + 1 := by omega
      simp [place, show s.count ≤ s.count + 1 + n by omega, show s.count + 1 + n ≠ s.count by omega]

/-- `put` with a counter that wraps at `m`. -/
def putMod (m : Nat) (s : Sink α) (c : α) : Sink α :=
  { s with
    buf := if (s.count + 1) % m < s.size then Function.update s.buf s.count c else s.buf
    count := (s.count + 1) % m }

def putAllMod (m : Nat) (s : Sink α) (text : List α) : Sink α := text.foldl (putMod m) s

section Wrap

variable {m : Nat}

theorem putAllMod_append (s : Sink α) (text more : List α) :
    putAllMod m (putAllMod m s text) more = putAllMod m s (text ++ more) :=
  (List.foldl_append ..).symm

theorem putAllMod_eq {s : Sink α} {text : List α} (fits : s.count + text.length < m) :
    putAllMod m s text = putAll s text := by
  induction text generalizing s with
  | nil => rfl
  | cons c text ih =>
    rw [List.length_cons] at fits
    have small : (s.count + 1) % m = s.count + 1 := Nat.mod_eq_of_lt (by omega)
    have next : s.putMod m c = s.put c := by rw [putMod, small, put]
    have rest := ih (s := s.put c) (by show s.count + 1 + text.length < m; omega)
    show putAllMod m (s.putMod m c) text = putAll (s.put c) text
    rw [next, rest]

@[simp] theorem putAllMod_size (s : Sink α) (text : List α) :
    (putAllMod m s text).size = s.size := by
  induction text generalizing s with
  | nil => rfl
  | cons c text ih => exact ih (s.putMod m c)

theorem putAllMod_count {s : Sink α} (word : s.count < m) (text : List α) :
    (putAllMod m s text).count = (s.count + text.length) % m := by
  induction text generalizing s with
  | nil => exact (Nat.mod_eq_of_lt word).symm
  | cons c text ih =>
    refine (ih (s := s.putMod m c) (Nat.mod_lt _ (by omega))).trans ?_
    show ((s.count + 1) % m + text.length) % m = _
    rw [Nat.mod_add_mod, List.length_cons, Nat.add_assoc, Nat.add_comm 1]

theorem putAllMod_none {s : Sink α} (empty : s.size = 0) (text : List α) :
    (putAllMod m s text).buf = s.buf := by
  induction text generalizing s with
  | nil => rfl
  | cons c text ih =>
    refine (ih (s := s.putMod m c) empty).trans ?_
    simp [putMod, empty]

/-- What a place holds afterwards depends on what it held before, and on no other place. -/
theorem putAllMod_local {s t : Sink α} (size : t.size = s.size) (count : t.count = s.count)
    {i : Nat} (same : t.buf i = s.buf i) (text : List α) :
    (putAllMod m t text).buf i = (putAllMod m s text).buf i := by
  induction text generalizing s t with
  | nil => exact same
  | cons c text ih =>
    refine ih (s := s.putMod m c) (t := t.putMod m c) size ?_ ?_
    · simp only [putMod, count]
    · simp only [putMod, count, size]
      split_ifs with room
      · by_cases here : i = s.count
        · simp [here]
        · rw [Function.update_of_ne here, Function.update_of_ne here, same]
      · exact same

/-- A counter that comes round leaves a unit in the last place, far behind the buffer. -/
theorem putAllMod_overrun {s t : Sink α} (size : t.size = s.size) (count : t.count = s.count)
    (room : 0 < s.size) (word : s.count < m) {text : List α} (long : m ≤ s.count + text.length) :
    (putAllMod m t text).buf (m - 1) = (putAllMod m s text).buf (m - 1) := by
  induction text generalizing s t with
  | nil =>
    rw [List.length_nil] at long
    omega
  | cons c text ih =>
    rw [List.length_cons] at long
    show (putAllMod m (t.putMod m c) text).buf (m - 1) =
      (putAllMod m (s.putMod m c) text).buf (m - 1)
    have counts : (t.putMod m c).count = (s.putMod m c).count := by simp only [putMod, count]
    by_cases last : s.count + 1 = m
    · refine putAllMod_local (s := s.putMod m c) (t := t.putMod m c) size counts ?_ text
      simp [putMod, count, size, room, ← last]
    · have small : (s.putMod m c).count = s.count + 1 := Nat.mod_eq_of_lt (by omega)
      exact ih size counts room (by omega) (by omega)

end Wrap

variable [Zero α]

/-- The zero behind the stored units. -/
def close (s : Sink α) : Nat → α :=
  if 0 < s.size then
    Function.update s.buf (if s.count < s.size then s.count else s.size - 1) 0
  else s.buf

theorem close_outside {s : Sink α} {i : Nat} (outside : s.size ≤ i) : s.close i = s.buf i := by
  rw [close]
  split_ifs
  · exact Function.update_of_ne (by omega) ..
  · exact Function.update_of_ne (by omega) ..
  · rfl

/-- What a buffer of `size` units holds after `text` went into it. -/
structure Truncated (text : List α) (size : Nat) (buffer filled : Nat → α) : Prop where
  kept : ∀ i, i < min text.length (size - 1) → some (filled i) = text[i]?
  ended : 0 < size → filled (min text.length (size - 1)) = 0
  inside : ∀ i, size ≤ i → filled i = buffer i

theorem truncated_close (buffer : Nat → α) (size : Nat) (text : List α) :
    Truncated text size buffer (close (putAll ⟨buffer, size, 0⟩ text)) := by
  have count := putAll_count ⟨buffer, size, 0⟩ text
  have buf := putAll_buf ⟨buffer, size, 0⟩ text
  simp only [Nat.zero_add, Nat.zero_le, true_and, Nat.sub_zero] at count buf
  have term : (if text.length < size then text.length else size - 1) =
      min text.length (size - 1) ∨ size = 0 := by
    split_ifs <;> omega
  simp only [close, putAll_size, count]
  refine ⟨?_, ?_, ?_⟩
  · intro i low
    have room : 0 < size := by omega
    rw [if_pos room, term.resolve_right (by omega), Function.update_of_ne (by omega), buf,
      if_pos (by omega), List.getD_eq_getElem?_getD, List.getElem?_eq_getElem (by omega),
      Option.getD_some]
  · intro room
    rw [if_pos room, term.resolve_right (by omega), Function.update_self]
  · intro i high
    split_ifs with room short
    · rw [Function.update_of_ne (by omega), buf, if_neg (by omega)]
    · rw [Function.update_of_ne (by omega), buf, if_neg (by omega)]
    · rw [buf, if_neg (by omega)]

end Sink
