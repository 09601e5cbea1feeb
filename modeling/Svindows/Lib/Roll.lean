import Mathlib.Data.List.Basic
import Mathlib.Data.Nat.Basic
import Mathlib.Logic.Function.Basic
import Mathlib.Tactic.SplitIfs

/-!
# A roll of paper behind a screen

A terminal that prints on a roll of paper never loses a line. A screen of a few rows shows
the end of the roll. What a terminal does to its screen is judged by the roll: a row that is
scrolled away is still on the paper, and a row that comes in is a new line of it.
-/

universe u

/-- The lines of the paper, the cursor on it, and how many lines there are. -/
structure Roll (α : Type u) where
  line : Nat → Nat → α
  row : Nat
  col : Nat
  lines : Nat

namespace Roll

variable {α : Type u} {w h : Nat} {roll : Roll α} {cell : Nat → Nat → α} {row col : Nat} {a blank : α}

def blankPaper (blank : α) (h : Nat) : Roll α := ⟨fun _ _ => blank, 0, 0, h⟩

def write (roll : Roll α) (a : α) : Roll α :=
  { roll with
    line := Function.update roll.line roll.row (Function.update (roll.line roll.row) roll.col a)
    col := roll.col + 1 }

def newLine (roll : Roll α) : Roll α := { roll with row := roll.row + 1, col := 0 }

def toColumn (roll : Roll α) (col : Nat) : Roll α := { roll with col := col }

/-- At the right edge the next line begins. -/
def wrap (w : Nat) (roll : Roll α) : Roll α := if w ≤ roll.col then roll.newLine else roll

/-- A line that is needed is put on the paper. -/
def feed (blank : α) (roll : Roll α) : Roll α :=
  if roll.lines ≤ roll.row then
    { roll with line := Function.update roll.line roll.row fun _ => blank, lines := roll.row + 1 }
  else roll

/-- A screen of `h` rows with a cursor shows the last lines. -/
structure Shows (w h : Nat) (cell : Nat → Nat → α) (row col : Nat) (roll : Roll α) : Prop where
  lines : h ≤ roll.lines
  row : roll.row = roll.lines - h + row
  col : roll.col = col
  cell : ∀ i < h, ∀ j < w, cell i j = roll.line (roll.lines - h + i) j

theorem Shows.congr {cell' : Nat → Nat → α} (shows_ : Shows w h cell row col roll)
    (same : ∀ i < h, ∀ j < w, cell' i j = cell i j) : Shows w h cell' row col roll :=
  { shows_ with cell := fun i low j left => (same i low j left).trans (shows_.cell i low j left) }

theorem shows_blank (w h : Nat) (blank : α) : Shows w h (fun _ _ => blank) 0 0 (blankPaper blank h) where
  lines := le_rfl
  row := by simp [blankPaper]
  col := rfl
  cell _ _ _ _ := rfl

theorem Shows.write (shows_ : Shows w h cell row col roll) (a : α) :
    Shows w h (Function.update cell row (Function.update (cell row) col a)) row (col + 1)
      (roll.write a) where
  lines := shows_.lines
  row := shows_.row
  col := congrArg (· + 1) shows_.col
  cell i low j left := by
    show _ = Function.update roll.line roll.row _ (roll.lines - h + i) j
    have here : roll.lines - h + i = roll.row ↔ i = row := by
      rw [shows_.row]
      omega
    by_cases same : i = row
    · subst same
      rw [← shows_.row, Function.update_self, Function.update_self, shows_.col, Function.update_apply,
        Function.update_apply, shows_.cell i low j left, shows_.row]
    · rw [Function.update_of_ne same, Function.update_of_ne (fun other => same (here.mp other))]
      exact shows_.cell i low j left

theorem Shows.newLine (shows_ : Shows w h cell row col roll) :
    Shows w h cell (row + 1) 0 roll.newLine where
  lines := shows_.lines
  row := congrArg (· + 1) shows_.row
  col := rfl
  cell := shows_.cell

theorem Shows.toColumn (shows_ : Shows w h cell row col roll) (col' : Nat) :
    Shows w h cell row col' (roll.toColumn col') :=
  { shows_ with col := rfl }

theorem Shows.wrap (shows_ : Shows w h cell row col roll) :
    Shows w h cell (if w ≤ col then row + 1 else row) (if w ≤ col then 0 else col) (roll.wrap w) := by
  rw [Roll.wrap, shows_.col]
  split_ifs
  · exact shows_.newLine
  · exact shows_

/-- While the cursor is on the screen no line is needed. -/
theorem Shows.feed_of_lt (shows_ : Shows w h cell row col roll) (inside : row < h) (blank : α) :
    roll.feed blank = roll := by
  have lines := shows_.lines
  have cursor := shows_.row
  exact if_neg (by omega)

/-- Below the last row the screen is scrolled. -/
theorem Shows.scroll (shows_ : Shows w h cell h col roll) (some_ : 0 < h) (blank : α) :
    Shows w h (fun i j => if i + 1 < h then cell (i + 1) j else blank) (h - 1) col
      (roll.feed blank) := by
  have lines := shows_.lines
  have cursor := shows_.row
  rw [feed, if_pos (by omega)]
  refine ⟨?_, ?_, shows_.col, fun i low j left => ?_⟩
  · show h ≤ roll.row + 1
    omega
  · show roll.row = roll.row + 1 - h + (h - 1)
    omega
  · show _ = Function.update roll.line roll.row (fun _ => blank) (roll.row + 1 - h + i) j
    split_ifs with more
    · have place : roll.row + 1 - h + i = roll.lines - h + (i + 1) := by omega
      rw [Function.update_of_ne (by omega), place]
      exact shows_.cell (i + 1) more j left
    · have last : roll.row + 1 - h + i = roll.row := by omega
      rw [last, Function.update_self]

/-- Lines that are done, and the last one. -/
structure Typeset (β : Type u) where
  done : List (List β)
  last : List β

variable {β : Type u}

/-- A unit of text begins a new line or is put behind the others, and a full line is done. -/
def Typeset.put (w : Nat) (t : Typeset β) : Option β → Typeset β
  | none => ⟨t.done ++ [t.last], []⟩
  | some b => if w ≤ t.last.length + 1 then ⟨t.done ++ [t.last ++ [b]], []⟩ else ⟨t.done, t.last ++ [b]⟩

/-- The text broken at the new lines in it and at the width. -/
def typeset (w : Nat) (text : List (Option β)) : Typeset β := text.foldl (.put w) ⟨[], []⟩

def Typeset.all (t : Typeset β) : List (List β) := t.done ++ [t.last]

/-- The paper has this text and is blank behind it. -/
structure Holds (w : Nat) (ink : β → α) (blank : α) (t : Typeset β) (roll : Roll α) : Prop where
  row : roll.row = t.done.length
  col : roll.col = t.last.length
  narrow : t.last.length < w
  line : ∀ i j, roll.line i j = ((t.all[i]?.bind (·[j]?)).map ink).getD blank

/-- What a terminal does for a unit of text. -/
def type (w : Nat) (ink : β → α) (blank : α) (roll : Roll α) : Option β → Roll α
  | none => roll.newLine.feed blank
  | some b => ((roll.write (ink b)).wrap w).feed blank

theorem holds_blank (some_ : 0 < w) (ink : β → α) (blank : α) (h : Nat) :
    Holds w ink blank (⟨[], []⟩ : Typeset β) (blankPaper blank h) where
  row := rfl
  col := rfl
  narrow := some_
  line i j := by
    cases i with
    | zero => simp [blankPaper, Typeset.all]
    | succ i => simp [blankPaper, Typeset.all]

theorem Holds.feed {ink : β → α} {t : Typeset β} (holds : Holds w ink blank t roll)
    (empty : t.last = []) : Holds w ink blank t (roll.feed blank) := by
  rw [Roll.feed]
  split_ifs
  · refine ⟨holds.row, holds.col, holds.narrow, fun i j => ?_⟩
    show Function.update roll.line roll.row _ i j = _
    rw [Function.update_apply]
    split_ifs with same
    · subst same
      rw [holds.row]
      simp [Typeset.all, empty]
    · exact holds.line i j
  · exact holds

theorem Holds.newLine {ink : β → α} {t : Typeset β} (holds : Holds w ink blank t roll) :
    Holds w ink blank ⟨t.done ++ [t.last], []⟩ roll.newLine where
  row := by simp [Roll.newLine, holds.row]
  col := rfl
  narrow := Nat.zero_lt_of_lt holds.narrow
  line i j := by
    show roll.line i j = _
    rw [holds.line i j]
    congr 2
    show _ = (t.all ++ [[]])[i]?.bind _
    rcases Nat.lt_trichotomy i t.all.length with lt | rfl | lt
    · rw [List.getElem?_append_left lt]
    · simp
    · rw [List.getElem?_eq_none (Nat.le_of_lt lt), List.getElem?_eq_none (by simp; omega)]

theorem Holds.write {ink : β → α} {t : Typeset β} (holds : Holds w ink blank t roll) (b : β) :
    (roll.write (ink b)).row = t.done.length ∧ (roll.write (ink b)).col = t.last.length + 1 ∧
      ∀ i j, (roll.write (ink b)).line i j =
        ((((Typeset.mk t.done (t.last ++ [b])).all)[i]?.bind (·[j]?)).map ink).getD blank := by
  refine ⟨holds.row, congrArg (· + 1) holds.col, fun i j => ?_⟩
  show Function.update roll.line roll.row _ i j = _
  rw [Function.update_apply]
  split_ifs with same
  · subst same
    rw [Function.update_apply, holds.row, holds.col, holds.line]
    simp only [Typeset.all, List.getElem?_append_right le_rfl, Nat.sub_self, List.getElem?_cons_zero,
      Option.bind_some]
    split_ifs with here
    · subst here
      simp
    · rcases Nat.lt_or_gt_of_ne here with lt | gt
      · rw [List.getElem?_append_left lt]
      · rw [List.getElem?_eq_none (Nat.le_of_lt gt), List.getElem?_eq_none (by simp; omega)]
  · rw [holds.line i j]
    congr 2
    rw [holds.row] at same
    rcases Nat.lt_or_gt_of_ne same with lt | gt
    · simp only [Typeset.all, List.getElem?_append_left lt]
    · simp only [Typeset.all]
      rw [List.getElem?_eq_none (by simp; omega), List.getElem?_eq_none (by simp; omega)]

theorem Holds.type {ink : β → α} {t : Typeset β} (holds : Holds w ink blank t roll) (u : Option β)
    (inside : roll.row < roll.lines) : Holds w ink blank (t.put w u) (roll.type w ink blank u) := by
  cases u with
  | none => exact holds.newLine.feed rfl
  | some b =>
    obtain ⟨row, col, line⟩ := holds.write b
    have lines : (roll.write (ink b)).lines = roll.lines := rfl
    rw [Roll.type, Roll.wrap, Typeset.put, col]
    split_ifs with full
    · refine Holds.feed ⟨by simp [Roll.newLine, row], rfl, Nat.zero_lt_of_lt holds.narrow, fun i j => ?_⟩
        rfl
      show (roll.write (ink b)).line i j = _
      rw [line]
      congr 2
      show _ = ((t.done ++ [t.last ++ [b]]) ++ [[]])[i]?.bind _
      rcases Nat.lt_trichotomy i (t.done ++ [t.last ++ [b]]).length with lt | rfl | lt
      · rw [List.getElem?_append_left lt]
        rfl
      · simp [Typeset.all]
      · have beyond : t.done.length + 1 < i := by simpa using lt
        rw [List.getElem?_eq_none (by simp [Typeset.all]; omega), List.getElem?_eq_none (by simp; omega)]
    · rw [Roll.feed, if_neg (by rw [row, ← holds.row, lines]; exact Nat.not_le.mpr inside)]
      exact ⟨row, by simp [col], by simp; omega, line⟩

theorem feed_lines (blank : α) (roll : Roll α) : (roll.feed blank).row = roll.row ∧
    (roll.feed blank).lines = max roll.lines (roll.row + 1) := by
  rw [feed]
  split_ifs with needed
  · exact ⟨rfl, (Nat.max_eq_right (Nat.le_succ_of_le needed)).symm⟩
  · exact ⟨rfl, (Nat.max_eq_left (Nat.lt_of_not_le needed)).symm⟩

/-- A line is put on the paper when the text gets to it. -/
theorem type_lines (w : Nat) (ink : β → α) (blank : α) (u : Option β)
    (lines : roll.lines = max h (roll.row + 1)) :
    (roll.type w ink blank u).lines = max h ((roll.type w ink blank u).row + 1) := by
  have settled : ∀ r : Roll α, r.lines = roll.lines → roll.row ≤ r.row →
      (r.feed blank).lines = max h ((r.feed blank).row + 1) := by
    intro r same below
    obtain ⟨row, fed⟩ := feed_lines blank r
    rw [fed, row, same, lines]
    omega
  cases u with
  | none => exact settled roll.newLine rfl (Nat.le_succ roll.row)
  | some b =>
    refine settled ((roll.write (ink b)).wrap w) ?_ ?_
    · rw [Roll.wrap]
      split_ifs <;> rfl
    · rw [Roll.wrap]
      split_ifs
      · exact Nat.le_succ roll.row
      · exact Nat.le_refl roll.row

end Roll
