import Mathlib.Data.UInt
import Svindows.Lib.Roll
import Svindows.Rtl.CString

/-!
# The early console

`hal/vga.c`, `hal/serial.c` and `hal/console.c`. A character goes to the serial line and to the
80 by 25 cells of the text screen, which is scrolled when the cursor leaves its last row. The
screen shows the end of a roll of paper on which nothing is ever scrolled.
-/

namespace Hal

open Rtl

def vgaWidth : Nat := 80
def vgaHeight : Nat := 25
def vgaLgray : UInt8 := 7
def vgaBlack : UInt8 := 0
def vgaColor (fg bg : UInt8) : UInt8 := fg ||| bg <<< 4

def crtcIndex : Nat := 0x3D4
def crtcData : Nat := 0x3D5

/-- The cells from `VGA_PHYS` on, and the registers of the CRT controller. -/
structure VgaState where
  /-- `g_vga` is not NULL. -/
  mapped : Bool
  cells : Nat → UInt16
  attr : UInt8
  row : Nat
  col : Nat
  index : UInt8
  crtc : UInt8 → UInt8

def vgaCell (c attr : UInt8) : UInt16 := c.toUInt16 ||| attr.toUInt16 <<< 8

/-- `__outbyte` to the two ports of the controller. -/
def VgaState.outbyte (s : VgaState) (port : Nat) (v : UInt8) : VgaState :=
  if port = crtcIndex then { s with index := v }
  else if port = crtcData then { s with crtc := Function.update s.crtc s.index v }
  else s

def vgaUpdateCursor (s : VgaState) : VgaState :=
  let pos := UInt16.ofNat (s.row * vgaWidth + s.col)
  let s := s.outbyte crtcIndex 0x0F
  let s := s.outbyte crtcData (pos &&& 0xFF).toUInt8
  let s := s.outbyte crtcIndex 0x0E
  s.outbyte crtcData (pos >>> 8 &&& 0xFF).toUInt8

def halVgaSetColor (attr : UInt8) (s : VgaState) : VgaState := { s with attr := attr }

/-- `n` cells from `a` on are set. -/
def fillCells (v : UInt16) (a n : Nat) (cells : Nat → UInt16) : Nat → UInt16 :=
  (List.range n).foldl (fun cells i => Function.update cells (a + i) v) cells

def halVgaClear (s : VgaState) : VgaState :=
  vgaUpdateCursor { s with
    cells := fillCells (vgaCell 32 s.attr) 0 (vgaWidth * vgaHeight) s.cells
    row := 0
    col := 0 }

def halInitializeVga (s : VgaState) : VgaState :=
  halVgaClear { s with mapped := true, attr := vgaColor vgaLgray vgaBlack }

/-- The cells are the same behind another address. -/
def halVgaRelocate (s : VgaState) : VgaState := { s with mapped := true }

/-- Row `r` is moved up by one. -/
def moveRow (cells : Nat → UInt16) (r : Nat) : Nat → UInt16 :=
  (List.range vgaWidth).foldl
    (fun cells c => Function.update cells ((r - 1) * vgaWidth + c) (cells (r * vgaWidth + c))) cells

def vgaScroll (s : VgaState) : VgaState :=
  let cells := (List.range' 1 (vgaHeight - 1)).foldl moveRow s.cells
  { s with
    cells := fillCells (vgaCell 32 s.attr) ((vgaHeight - 1) * vgaWidth) vgaWidth cells
    row := vgaHeight - 1 }

/-- The switch of `HalVgaPutChar`. -/
def vgaMove (c : UInt8) (s : VgaState) : VgaState :=
  if c = 10 then { s with col := 0, row := s.row + 1 }
  else if c = 13 then { s with col := 0 }
  else if c = 9 then { s with col := (s.col + 8) / 8 * 8 }
  else if c = 8 then { s with col := if 0 < s.col then s.col - 1 else s.col }
  else
    { s with
      cells := Function.update s.cells (s.row * vgaWidth + s.col) (vgaCell c s.attr)
      col := s.col + 1 }

def halVgaPutChar (c : UInt8) (s : VgaState) : VgaState :=
  if s.mapped = false then s
  else
    let s := vgaMove c s
    let s := if vgaWidth ≤ s.col then { s with col := 0, row := s.row + 1 } else s
    let s := if vgaHeight ≤ s.row then vgaScroll s else s
    vgaUpdateCursor s

/-- `g_serial_ready`, and the bytes that were put in the transmit register, each when it was
empty. -/
structure SerialState where
  ready : Bool
  sent : List UInt8

def halSerialPutChar (c : UInt8) (s : SerialState) : SerialState :=
  if s.ready = false then s
  else
    let s := if c = 10 then { s with sent := s.sent ++ [13] } else s
    { s with sent := s.sent ++ [c] }

structure ConsoleState where
  serial : SerialState
  vga : VgaState

def halConsolePutChar (s : ConsoleState) (c : UInt8) : ConsoleState :=
  ⟨halSerialPutChar c s.serial, halVgaPutChar c s.vga⟩

def halConsoleWrite (text : CString) (s : ConsoleState) : ConsoleState :=
  text.bytes.foldl halConsolePutChar s

variable {cells : Nat → UInt16} {v : UInt16} {a n r : Nat} {s : VgaState} {c : UInt8}

theorem fillCells_apply (v : UInt16) (a n : Nat) (cells : Nat → UInt16) (i : Nat) :
    fillCells v a n cells i = if a ≤ i ∧ i < a + n then v else cells i := by
  induction n with
  | zero => exact (if_neg (by omega)).symm
  | succ n ih =>
    rw [fillCells, List.range_succ, List.foldl_append, List.foldl_cons, List.foldl_nil, ← fillCells,
      Function.update_apply, ih]
    by_cases here : i = a + n
    · rw [if_pos here, if_pos (by omega)]
    · rw [if_neg here]
      exact if_congr (by omega) rfl rfl

theorem moveRow_apply (cells : Nat → UInt16) (some_ : 0 < r) (i : Nat) :
    moveRow cells r i =
      if (r - 1) * vgaWidth ≤ i ∧ i < r * vgaWidth then cells (i + vgaWidth) else cells i := by
  have rows : r * vgaWidth = (r - 1) * vgaWidth + vgaWidth := by
    obtain ⟨r, rfl⟩ := Nat.exists_eq_succ_of_ne_zero (Nat.ne_of_gt some_)
    exact Nat.succ_mul r vgaWidth
  have part : ∀ n ≤ vgaWidth, ∀ i, (List.range n).foldl (fun cells c =>
      Function.update cells ((r - 1) * vgaWidth + c) (cells (r * vgaWidth + c))) cells i =
      if (r - 1) * vgaWidth ≤ i ∧ i < (r - 1) * vgaWidth + n then cells (i + vgaWidth) else cells i := by
    intro n
    induction n with
    | zero => exact fun _ i => (if_neg (by omega)).symm
    | succ n ih =>
      intro le i
      have before := ih (Nat.le_of_succ_le le)
      have ahead : ¬ ((r - 1) * vgaWidth ≤ r * vgaWidth + n ∧
          r * vgaWidth + n < (r - 1) * vgaWidth + n) := by omega
      rw [List.range_succ, List.foldl_append, List.foldl_cons, List.foldl_nil, Function.update_apply,
        before, before, if_neg ahead]
      by_cases here : i = (r - 1) * vgaWidth + n
      · rw [if_pos here, if_pos (by omega)]
        congr 1
        omega
      · rw [if_neg here]
        exact if_congr (by omega) rfl rfl
  rw [moveRow, part vgaWidth (Nat.le_refl _), rows]

/-- The rows are moved from the top, so none is overwritten before it is moved. -/
theorem moveRows_apply (cells : Nat → UInt16) (n i : Nat) :
    (List.range' 1 n).foldl moveRow cells i =
      if i < n * vgaWidth then cells (i + vgaWidth) else cells i := by
  induction n generalizing i with
  | zero => exact (if_neg (by omega)).symm
  | succ n ih =>
    have rows : (n + 1) * vgaWidth = n * vgaWidth + vgaWidth := Nat.succ_mul n vgaWidth
    rw [List.range'_concat, List.foldl_append, List.foldl_cons, List.foldl_nil,
      moveRow_apply _ (by omega), ih, ih, show 1 + 1 * n = n + 1 by omega, Nat.add_sub_cancel]
    split_ifs <;> first | rfl | omega

theorem vgaScroll_apply (s : VgaState) (i : Nat) :
    (vgaScroll s).cells i = if i < (vgaHeight - 1) * vgaWidth then s.cells (i + vgaWidth)
      else if i < vgaHeight * vgaWidth then vgaCell 32 s.attr else s.cells i := by
  have rows : vgaHeight * vgaWidth = (vgaHeight - 1) * vgaWidth + vgaWidth := rfl
  simp only [vgaScroll, fillCells_apply, moveRows_apply]
  split_ifs <;> first | rfl | omega

/-- What a character does on the roll. -/
def paperMove (attr c : UInt8) (roll : Roll UInt16) : Roll UInt16 :=
  if c = 10 then roll.newLine
  else if c = 13 then roll.toColumn 0
  else if c = 9 then roll.toColumn ((roll.col + 8) / 8 * 8)
  else if c = 8 then roll.toColumn (roll.col - 1)
  else roll.write (vgaCell c attr)

def paperPutChar (attr c : UInt8) (roll : Roll UInt16) : Roll UInt16 :=
  ((paperMove attr c roll).wrap vgaWidth).feed (vgaCell 32 attr)

/-- The cursor the controller shows. -/
def VgaState.cursor (s : VgaState) : Nat := 256 * (s.crtc 0x0E).toNat + (s.crtc 0x0F).toNat

def VgaState.screen (s : VgaState) (i j : Nat) : UInt16 := s.cells (i * vgaWidth + j)

/-- The screen shows the end of the roll, with its cursor. -/
structure OnPaper (s : VgaState) (roll : Roll UInt16) : Prop where
  mapped : s.mapped = true
  screen : roll.Shows vgaWidth vgaHeight s.screen s.row s.col
  row : s.row < vgaHeight
  col : s.col < vgaWidth
  cursor : s.cursor = s.row * vgaWidth + s.col

variable {roll : Roll UInt16}

theorem bytes_of_word (pos : UInt16) :
    256 * (pos >>> 8 &&& 0xFF).toUInt8.toNat + (pos &&& 0xFF).toUInt8.toNat = pos.toNat := by
  have small := pos.toNat_lt
  have low : ∀ n : Nat, n &&& 255 = n % 256 := fun n => Nat.and_two_pow_sub_one_eq_mod n 8
  have high : 2 ^ (8 % 16) = 256 := rfl
  simp only [UInt16.toNat_toUInt8, UInt16.toNat_and, UInt16.toNat_shiftRight, UInt16.reduceToNat,
    Nat.shiftRight_eq_div_pow, low, high]
  omega

/-- The controller gets the place of the cursor in two bytes. -/
theorem vgaUpdateCursor_cursor (row : s.row < vgaHeight) (col : s.col < vgaWidth) :
    (vgaUpdateCursor s).cursor = s.row * vgaWidth + s.col := by
  have small : s.row * vgaWidth + s.col < 2 ^ 16 := by
    rw [vgaHeight] at row
    rw [vgaWidth] at col ⊢
    omega
  have word := bytes_of_word (UInt16.ofNat (s.row * vgaWidth + s.col))
  rw [UInt16.toNat_ofNat_of_lt' small] at word
  exact word

theorem vgaUpdateCursor_cells (s : VgaState) : (vgaUpdateCursor s).cells = s.cells := rfl

theorem vgaUpdateCursor_attr (s : VgaState) : (vgaUpdateCursor s).attr = s.attr := rfl

theorem OnPaper.updateCursor (mapped : s.mapped = true)
    (screen : roll.Shows vgaWidth vgaHeight s.screen s.row s.col) (row : s.row < vgaHeight)
    (col : s.col < vgaWidth) : OnPaper (vgaUpdateCursor s) roll :=
  ⟨mapped, screen, row, col, vgaUpdateCursor_cursor row col⟩

/-- A character is on the roll where it is on the screen. -/
theorem OnPaper.move (paper : OnPaper s roll) (c : UInt8) :
    (paperMove s.attr c roll).Shows vgaWidth vgaHeight (vgaMove c s).screen (vgaMove c s).row
        (vgaMove c s).col ∧
      (vgaMove c s).row ≤ vgaHeight ∧ (vgaMove c s).col ≤ vgaWidth ∧
      ((vgaMove c s).col < vgaWidth ∨ (vgaMove c s).row < vgaHeight) := by
  obtain ⟨-, screen, row, col, -⟩ := paper
  have wide : vgaWidth = 80 := rfl
  have same := screen.col
  rw [paperMove, vgaMove]
  split_ifs with _ _ _ _ behind
  · exact ⟨screen.newLine, row, Nat.zero_le _, .inl (Nat.zero_lt_of_lt col)⟩
  · exact ⟨screen.toColumn 0, row.le, Nat.zero_le _, .inr row⟩
  · refine ⟨same ▸ screen.toColumn _, row.le, ?_, .inr row⟩
    show (s.col + 8) / 8 * 8 ≤ vgaWidth
    omega
  · refine ⟨same ▸ screen.toColumn _, row.le, ?_, .inr row⟩
    show s.col - 1 ≤ vgaWidth
    omega
  · have first : roll.col - 1 = s.col := by omega
    exact ⟨first ▸ screen.toColumn _, row.le, col.le, .inr row⟩
  · refine ⟨(screen.write (vgaCell c s.attr)).congr fun i low j left => ?_, row.le, col, .inr row⟩
    have here : i * vgaWidth + j = s.row * vgaWidth + s.col ↔ i = s.row ∧ j = s.col := by
      rw [wide] at left col ⊢
      omega
    simp only [VgaState.screen, Function.update_apply, here]
    by_cases below : i = s.row
    · subst below
      simp [Function.update_apply, VgaState.screen]
    · simp [below, VgaState.screen]

theorem vgaScroll_shows (screen : roll.Shows vgaWidth vgaHeight s.screen s.row s.col)
    (below : s.row = vgaHeight) : (roll.feed (vgaCell 32 s.attr)).Shows vgaWidth vgaHeight
      (vgaScroll s).screen (vgaScroll s).row (vgaScroll s).col := by
  rw [below] at screen
  refine (screen.scroll (by decide) (vgaCell 32 s.attr)).congr fun i low j left => ?_
  have wide : vgaWidth = 80 := rfl
  have high : vgaHeight = 25 := rfl
  have place : i * vgaWidth + j = 80 * i + j := by rw [wide, Nat.mul_comm]
  have last : (vgaHeight - 1) * vgaWidth = 1920 := rfl
  have all : vgaHeight * vgaWidth = 2000 := rfl
  show (vgaScroll s).cells (i * vgaWidth + j) = _
  rw [vgaScroll_apply]
  by_cases more : i + 1 < vgaHeight
  · rw [if_pos (by omega), if_pos more, VgaState.screen, Nat.succ_mul, Nat.add_right_comm]
  · rw [if_neg (by omega), if_pos (by omega), if_neg more]

theorem OnPaper.putChar (paper : OnPaper s roll) (c : UInt8) :
    OnPaper (halVgaPutChar c s) (paperPutChar s.attr c roll) := by
  obtain ⟨moved, row, col⟩ := paper.move c
  have attr : (vgaMove c s).attr = s.attr := by rw [vgaMove]; split_ifs <;> rfl
  have mapped : (vgaMove c s).mapped = true := by rw [← paper.mapped, vgaMove]; split_ifs <;> rfl
  rw [halVgaPutChar, if_neg (by rw [paper.mapped]; decide), paperPutChar]
  generalize vgaMove c s = s' at *
  generalize paperMove s.attr c roll = roll' at *
  obtain ⟨low, edge⟩ := col
  -- behind the last column the next row begins
  obtain ⟨s'', turn, screen, row', col', attr', mapped'⟩ : ∃ s'' : VgaState,
      (if vgaWidth ≤ s'.col then { s' with col := 0, row := s'.row + 1 } else s') = s'' ∧
        (roll'.wrap vgaWidth).Shows vgaWidth vgaHeight s''.screen s''.row s''.col ∧
        s''.row ≤ vgaHeight ∧ s''.col < vgaWidth ∧ s''.attr = s.attr ∧ s''.mapped = true := by
    refine ⟨_, rfl, ?_, ?_, ?_, ?_, ?_⟩
    · have wrapped := moved.wrap
      split_ifs at wrapped ⊢ <;> exact wrapped
    · split_ifs
      · show s'.row + 1 ≤ vgaHeight
        omega
      · exact row
    · split_ifs
      · exact Nat.zero_lt_of_lt (show 79 < vgaWidth by decide)
      · omega
    · split_ifs <;> exact attr
    · split_ifs <;> exact mapped
  simp only [turn]
  split_ifs with below
  · have last : s''.row = vgaHeight := Nat.le_antisymm row' below
    exact .updateCursor mapped' (attr' ▸ vgaScroll_shows screen last) (show 24 < vgaHeight by decide)
      col'
  · have inside : s''.row < vgaHeight := Nat.lt_of_not_le below
    exact .updateCursor mapped' ((screen.feed_of_lt inside _).symm ▸ screen) inside col'

theorem fillCells_all (v : UInt16) (cells : Nat → UInt16) (n : Nat) :
    fillCells v 0 (vgaWidth * vgaHeight) cells n =
      if n < vgaHeight * vgaWidth then v else cells n := by
  rw [fillCells_apply, Nat.zero_add, Nat.mul_comm]
  exact if_congr (and_iff_right (Nat.zero_le n)) rfl rfl

theorem OnPaper.clear (mapped : s.mapped = true) :
    OnPaper (halVgaClear s) (Roll.blankPaper (vgaCell 32 s.attr) vgaHeight) := by
  refine .updateCursor mapped ?_ (show 0 < vgaHeight by decide) (show 0 < vgaWidth by decide)
  refine (Roll.shows_blank vgaWidth vgaHeight (vgaCell 32 s.attr)).congr fun i low j left => ?_
  have all : vgaHeight * vgaWidth = 2000 := rfl
  have wide : vgaWidth = 80 := rfl
  have high : vgaHeight = 25 := rfl
  have place : i * vgaWidth + j = 80 * i + j := by rw [wide, Nat.mul_comm]
  rw [VgaState.screen]
  dsimp only
  rw [fillCells_all, if_pos (by omega)]

inductive VgaCall where
  | putChar (c : UInt8)
  | setColor (attr : UInt8)
  | clear
  | relocate

def VgaCall.act (s : VgaState) : VgaCall → VgaState
  | .putChar c => halVgaPutChar c s
  | .setColor attr => halVgaSetColor attr s
  | .clear => halVgaClear s
  | .relocate => halVgaRelocate s

/-- What a call does to the colour and the roll. A cleared screen is a new roll. -/
def VgaCall.print (paper : UInt8 × Roll UInt16) : VgaCall → UInt8 × Roll UInt16
  | .putChar c => (paper.1, paperPutChar paper.1 c paper.2)
  | .setColor attr => (attr, paper.2)
  | .clear => (paper.1, Roll.blankPaper (vgaCell 32 paper.1) vgaHeight)
  | .relocate => paper

/-- The cells behind the screen. -/
def Behind (s s' : VgaState) : Prop := ∀ n, vgaHeight * vgaWidth ≤ n → s'.cells n = s.cells n

theorem halVgaClear_behind (s : VgaState) : Behind s (halVgaClear s) := by
  intro n beyond
  rw [halVgaClear, vgaUpdateCursor_cells]
  dsimp only
  rw [fillCells_all, if_neg (Nat.not_lt.mpr beyond)]

theorem halVgaPutChar_behind (paper : OnPaper s roll) (c : UInt8) : Behind s (halVgaPutChar c s) := by
  intro n beyond
  have all : vgaHeight * vgaWidth = 2000 := rfl
  have last : (vgaHeight - 1) * vgaWidth = 1920 := rfl
  have inside : s.row * vgaWidth + s.col < 2000 := by
    have row := paper.row
    have col := paper.col
    rw [vgaHeight] at row
    rw [vgaWidth] at col ⊢
    omega
  have moved : (vgaMove c s).cells n = s.cells n := by
    rw [vgaMove]
    split_ifs <;> first | rfl | exact Function.update_of_ne (by omega) ..
  have scrolled : ∀ s : VgaState, (vgaScroll s).cells n = s.cells n := fun s => by
    rw [vgaScroll_apply, if_neg (by omega), if_neg (by omega)]
  rw [halVgaPutChar, if_neg (by rw [paper.mapped]; decide), vgaUpdateCursor_cells, ← moved]
  split_ifs <;> first | rfl | exact scrolled _

theorem halVgaPutChar_attr (s : VgaState) (c : UInt8) : (halVgaPutChar c s).attr = s.attr := by
  have moved : (vgaMove c s).attr = s.attr := by
    rw [vgaMove]
    split_ifs <;> rfl
  rw [halVgaPutChar]
  split_ifs
  · rfl
  · rw [vgaUpdateCursor_attr]
    split_ifs <;> exact moved

theorem halVgaClear_attr (s : VgaState) : (halVgaClear s).attr = s.attr := by
  rw [halVgaClear, vgaUpdateCursor_attr]

/-- Colour, roll and cells after a call. -/
theorem VgaCall.onPaper (call : VgaCall) (paper : OnPaper s roll) :
    OnPaper (VgaCall.act s call) (VgaCall.print (s.attr, roll) call).2 ∧
      (VgaCall.act s call).attr = (VgaCall.print (s.attr, roll) call).1 ∧
      Behind s (VgaCall.act s call) := by
  cases call with
  | putChar c => exact ⟨paper.putChar c, halVgaPutChar_attr s c, halVgaPutChar_behind paper c⟩
  | setColor attr =>
    exact ⟨⟨paper.mapped, paper.screen, paper.row, paper.col, paper.cursor⟩, rfl, fun _ _ => rfl⟩
  | clear => exact ⟨.clear paper.mapped, halVgaClear_attr s, halVgaClear_behind s⟩
  | relocate => exact ⟨⟨rfl, paper.screen, paper.row, paper.col, paper.cursor⟩, rfl, fun _ _ => rfl⟩

/-- Whatever is printed, in whatever colours, the screen shows the end of the roll it is printed
on and the cursor where the next character goes, and no cell behind the screen is written. -/
theorem vga_screen_shows_roll (s : VgaState) (calls : List VgaCall) :
    OnPaper (calls.foldl VgaCall.act (halInitializeVga s))
        (calls.foldl VgaCall.print (0x07, .blankPaper (vgaCell 32 0x07) vgaHeight)).2 ∧
      Behind s (calls.foldl VgaCall.act (halInitializeVga s)) := by
  have start : OnPaper (halInitializeVga s) (.blankPaper (vgaCell 32 0x07) vgaHeight) := .clear rfl
  have behind : Behind s (halInitializeVga s) := fun n beyond => halVgaClear_behind _ n beyond
  have attr : (halInitializeVga s).attr = 0x07 := rfl
  generalize halInitializeVga s = s', (0x07 : UInt8) = colour at start behind attr
  generalize Roll.blankPaper (vgaCell 32 colour) vgaHeight = roll at start ⊢
  induction calls generalizing s' colour roll with
  | nil => exact ⟨start, behind⟩
  | cons call calls ih =>
    subst attr
    obtain ⟨paper, attr, kept⟩ := call.onPaper start
    exact ih _ _ (fun n beyond => (kept n beyond).trans (behind n beyond)) attr _ paper

/-- A new line, or a character that is printed. -/
def textUnit (c : UInt8) : Option UInt8 := if c = 10 then none else some c

/-- No backspace, tab or return. -/
def Plain (text : CString) : Prop := ∀ c ∈ text.bytes, c ≠ 8 ∧ c ≠ 9 ∧ c ≠ 13

theorem plain_of_all {text : CString}
    (all : (text.bytes.all fun c => c != 8 && c != 9 && c != 13) = true) : Plain text := by
  simpa [Plain, and_assoc] using all

/-- The last lines of the text, broken at 80 columns. -/
def TextShown (attr : UInt8) (text : CString) (s : VgaState) : Prop :=
  let t := Roll.typeset vgaWidth (text.bytes.map textUnit)
  ∀ i < vgaHeight, ∀ j < vgaWidth, s.screen i j =
    ((t.all[t.all.length - vgaHeight + i]?.bind (·[j]?)).map (vgaCell · attr)).getD (vgaCell 32 attr)

theorem paperPutChar_text (attr : UInt8) (plain : c ≠ 8 ∧ c ≠ 9 ∧ c ≠ 13) (roll : Roll UInt16)
    (narrow : 0 < vgaWidth) : paperPutChar attr c roll =
      roll.type vgaWidth (vgaCell · attr) (vgaCell 32 attr) (textUnit c) := by
  obtain ⟨back, tab, home⟩ := plain
  rw [paperPutChar, paperMove, textUnit]
  by_cases new : c = 10
  · have stays : roll.newLine.wrap vgaWidth = roll.newLine := if_neg (Nat.not_le.mpr narrow)
    rw [if_pos new, if_pos new, stays]
    rfl
  · rw [if_neg new, if_neg home, if_neg tab, if_neg back, if_neg new]
    rfl

/-- The screen and the serial line as they are while a text is written. -/
structure Typing (attr : UInt8) (sent : List UInt8) (t : Roll.Typeset UInt8) (s : ConsoleState)
    (roll : Roll UInt16) : Prop where
  paper : OnPaper s.vga roll
  colour : s.vga.attr = attr
  text : roll.Holds vgaWidth (vgaCell · attr) (vgaCell 32 attr) t
  lines : roll.lines = max vgaHeight (roll.row + 1)
  ready : s.serial.ready = true
  sent : s.serial.sent = sent

def serialBytes (c : UInt8) : List UInt8 := if c = 10 then [13, c] else [c]

theorem Typing.putChar {attr : UInt8} {sent : List UInt8} {t : Roll.Typeset UInt8} {s : ConsoleState}
    (typing : Typing attr sent t s roll) (plain : c ≠ 8 ∧ c ≠ 9 ∧ c ≠ 13) :
    Typing attr (sent ++ serialBytes c) (t.put vgaWidth (textUnit c)) (halConsolePutChar s c)
      (paperPutChar attr c roll) := by
  have types := paperPutChar_text attr plain roll (by decide)
  have inside : roll.row < roll.lines := by
    have lines := typing.lines
    omega
  constructor
  case paper => exact typing.colour ▸ typing.paper.putChar c
  case colour => exact (halVgaPutChar_attr s.vga c).trans typing.colour
  case text => exact types ▸ typing.text.type (textUnit c) inside
  case lines => exact types ▸ Roll.type_lines vgaWidth _ _ (textUnit c) typing.lines
  case ready =>
    show (halSerialPutChar c s.serial).ready = true
    rw [halSerialPutChar, if_neg (by rw [typing.ready]; decide)]
    split_ifs <;> exact typing.ready
  case sent =>
    show (halSerialPutChar c s.serial).sent = _
    rw [halSerialPutChar, if_neg (by rw [typing.ready]; decide), serialBytes, ← typing.sent]
    split_ifs <;> simp

theorem Typing.write {attr : UInt8} {cs : List UInt8} (plain : ∀ c ∈ cs, c ≠ 8 ∧ c ≠ 9 ∧ c ≠ 13) :
    ∀ {sent t s roll}, Typing attr sent t s roll → ∃ roll', Typing attr
      (sent ++ cs.flatMap serialBytes) ((cs.map textUnit).foldl (.put vgaWidth) t)
      (cs.foldl halConsolePutChar s) roll' := by
  induction cs with
  | nil =>
    intro sent t s roll typing
    exact ⟨roll, by simpa using typing⟩
  | cons c cs ih =>
    intro sent t s roll typing
    obtain ⟨roll', typing'⟩ := ih (fun d member => plain d (.tail c member))
      (typing.putChar (plain c List.mem_cons_self))
    exact ⟨roll', by simpa using typing'⟩

/-- What a text leaves on a cleared screen and on the serial line. -/
theorem console_shows_text (s : ConsoleState) (mapped : s.vga.mapped = true)
    (ready : s.serial.ready = true) (text : CString) (plain : Plain text) :
    let s' := halConsoleWrite text { s with vga := halVgaClear s.vga }
    TextShown s.vga.attr text s'.vga ∧
      s'.serial.sent = s.serial.sent ++ text.bytes.flatMap serialBytes := by
  have start : Typing s.vga.attr s.serial.sent ⟨[], []⟩ { s with vga := halVgaClear s.vga }
      (.blankPaper (vgaCell 32 s.vga.attr) vgaHeight) :=
    { paper := .clear mapped
      colour := halVgaClear_attr s.vga
      text := Roll.holds_blank (show 0 < vgaWidth by decide) _ _ _
      lines := rfl
      ready := ready
      sent := rfl }
  obtain ⟨roll, typing⟩ := start.write plain
  refine ⟨fun i low j left => ?_, typing.sent⟩
  have all : (Roll.typeset vgaWidth (text.bytes.map textUnit)).all.length = roll.row + 1 := by
    rw [typing.text.row, Roll.Typeset.all, List.length_append]
    rfl
  have top : roll.lines - vgaHeight = roll.row + 1 - vgaHeight := by
    rw [typing.lines]
    omega
  rw [all, ← top]
  exact (typing.paper.screen.cell i low j left).trans (typing.text.line _ j)

def litConsole : ConsoleState := ⟨⟨true, []⟩, ⟨true, fun _ => 0, 0x07, 0, 0, 0, fun _ => 0⟩⟩

theorem console_shows_text_two_lines :
    TextShown 0x07 (.lit "NT\nOS")
        (halConsoleWrite (.lit "NT\nOS") ⟨litConsole.serial, halVgaClear litConsole.vga⟩).vga ∧
      (halConsoleWrite (.lit "NT\nOS") ⟨litConsole.serial, halVgaClear litConsole.vga⟩).serial.sent =
        [78, 84, 13, 10, 79, 83] :=
  console_shows_text litConsole rfl rfl (.lit "NT\nOS") (plain_of_all rfl)

end Hal
