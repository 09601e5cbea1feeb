import Svindows.Hal.Framebuffer
import Svindows.User.Windows

/-!
# Painting the windows

`KiRepaintAll` paints a rectangle for each visible window, straight from the
tables that the window services fill in with whatever sizes they are given. The
rectangles are cut to the screen. The label of the taskbar is not, and its place is
computed from the height of the window.
-/

namespace User

open Hal Nt W32k

def winpaintSlots : Nat := 128

def styleVisible (style : UInt32) : Bool := style &&& 0x10000000 != 0

/-- The height that the taskbar is painted with. -/
def taskbarHeight (fb : GfxFramebuffer) (window : WinPaint) : UInt32 :=
  let h := if UInt32.ofNat window.h = 0 then 40 else UInt32.ofNat window.h
  if fb.height / 3 < h then 40 else h

/-- The characters of `"NTOS"`. -/
def taskbarLabel : List Nat := [78, 84, 79, 83]

def paintTaskbar (fb : GfxFramebuffer) (font : Nat → Nat → Nat) (window : WinPaint) :
    List PixelStore :=
  let h := taskbarHeight fb window
  let y := fb.height - h
  gfxFillRect fb 0 y fb.width h (gfxColor fb 0x1f 0x1f 0x1f) ++
    gfxFillRect fb 0 y fb.width 2 (gfxColor fb 0x00 0x78 0xd7) ++
    gfxFillRect fb 0 (y + 2) 48 (h - 2) (gfxColor fb 0x2d 0x2d 0x2d) ++
    gfxDrawString fb font 14 (y + (h - UInt32.ofNat gfxFontH) / 2 + 1) taskbarLabel
      (gfxColor fb 0xff 0xff 0xff) (gfxColor fb 0x2d 0x2d 0x2d)

/-- A plain surface with a border. -/
def paintGeneric (fb : GfxFramebuffer) (window : WinPaint) : List PixelStore :=
  let x := Int32.ofInt window.x
  let y := Int32.ofInt window.y
  let w := UInt32.ofNat window.w
  let h := UInt32.ofNat window.h
  if fb.width ≤ x.toUInt32 ∨ fb.height ≤ y.toUInt32 ∨ w = 0 ∨ h = 0 then []
  else
    let w := if fb.width.toInt32 < x + w.toInt32 then fb.width - x.toUInt32 else w
    let h := if fb.height.toInt32 < y + h.toInt32 then fb.height - y.toUInt32 else h
    gfxFillRect fb x.toUInt32 y.toUInt32 w h (gfxColor fb 0xf0 0xf0 0xf0) ++
      gfxFillRect fb x.toUInt32 y.toUInt32 w 1 (gfxColor fb 0x10 0x10 0x10) ++
      gfxFillRect fb x.toUInt32 y.toUInt32 1 h (gfxColor fb 0x10 0x10 0x10)

/-- `KiPaintWindowBySlot`. A window that was destroyed is painted as a plain one while its
style is still visible. -/
def kiPaintWindowBySlot (fb : GfxFramebuffer) (font : Nat → Nat → Nat) (windows : Nat → WinPaint)
    (styles : Nat → UInt32) (slot : Nat) : List PixelStore :=
  if styleVisible (styles slot) = false then []
  else
    match (windows slot).kind with
    | .desktop => gfxFillRect fb 0 0 fb.width fb.height (gfxColor fb 0x0e 0x2a 0x47)
    | .taskbar => paintTaskbar fb font (windows slot)
    | .generic | .none => paintGeneric fb (windows slot)

/-- `KiRepaintAll`: the desktops first, then every window in the order of creation. -/
def kiRepaintAll (fb : GfxFramebuffer) (font : Nat → Nat → Nat) (windows : Nat → WinPaint)
    (styles : Nat → UInt32) : List PixelStore :=
  if gfxAvailable fb = false then []
  else
    ((List.range' 1 (winpaintSlots - 1)).flatMap fun slot =>
      if (windows slot).kind = .desktop ∧ styleVisible (styles slot) = true then
        kiPaintWindowBySlot fb font windows styles slot
      else []) ++
    (List.range' 1 (winpaintSlots - 1)).flatMap (kiPaintWindowBySlot fb font windows styles)

/-- The label of the taskbar has room: the screen is wide and high enough for it, and the window is
high enough, unless the height is one that is replaced by 40. -/
def TaskbarFits (fb : GfxFramebuffer) (window : WinPaint) : Prop :=
  46 ≤ fb.width.toNat ∧ 27 ≤ fb.height.toNat ∧
    (wrap32 window.h = 0 ∨ fb.height.toNat / 3 < wrap32 window.h ∨ 17 ≤ wrap32 window.h)

section

variable {fb : GfxFramebuffer}

theorem taskbarHeight_toNat (fb : GfxFramebuffer) (window : WinPaint) :
    (taskbarHeight fb window).toNat =
      if wrap32 window.h = 0 ∨ fb.height.toNat / 3 < wrap32 window.h then 40 else wrap32 window.h := by
  have word : (UInt32.ofNat window.h).toNat = wrap32 window.h := UInt32.toNat_ofNat'
  have third : (fb.height / 3).toNat = fb.height.toNat / 3 := UInt32.toNat_div _ _
  have forty : (40 : UInt32).toNat = 40 := rfl
  have zero : UInt32.ofNat window.h = 0 ↔ wrap32 window.h = 0 := by
    rw [← word, ← UInt32.toNat_inj]
    rfl
  simp only [taskbarHeight, zero, UInt32.lt_iff_toNat_lt, third]
  by_cases unset : wrap32 window.h = 0
  · simp [unset, forty]
  · simp only [unset, if_false, false_or, word]
    split
    · rfl
    · exact word

/-- The rows of a character are on the screen if the last one is. -/
theorem rowsOn_iff (low : fb.height.toNat < 2 ^ 30) (y : UInt32) :
    RowsOn fb y ↔ y.toNat + 15 < fb.height.toNat := by
  constructor
  · intro rows
    have first := rows 0 (by decide)
    have last := rows 15 (by decide)
    have same : (y + UInt32.ofNat 0).toNat = y.toNat := toNat_add_ofNat y.toNat_lt
    rw [same] at first
    rwa [toNat_add_ofNat (by omega)] at last
  · intro inside row rows
    have height : gfxFontH = 16 := rfl
    rw [toNat_add_ofNat (by omega)]
    omega

/-- The row at which the label starts is computed without a check: for a window lower than a
character it wraps around. -/
theorem rowsOn_label (low : fb.height.toNat < 2 ^ 30) (h : UInt32)
    (from_ : h.toNat = 40 ∨ h.toNat ≤ fb.height.toNat / 3) (some_ : h.toNat ≠ 0) :
    RowsOn fb (fb.height - h + (h - UInt32.ofNat gfxFontH) / 2 + 1) ↔
      27 ≤ fb.height.toNat ∧ 17 ≤ h.toNat := by
  have height : (UInt32.ofNat gfxFontH).toNat = 16 := rfl
  have two : (2 : UInt32).toNat = 2 := rfl
  have one : (1 : UInt32).toNat = 1 := rfl
  have word := h.toNat_lt
  rw [rowsOn_iff low]
  simp only [UInt32.toNat_add, UInt32.toNat_sub, UInt32.toNat_div, height, two, one]
  generalize fb.height.toNat = screen at *
  generalize h.toNat = bar at *
  by_cases fits : bar ≤ screen
  · have top : (2 ^ 32 - bar + screen) % 2 ^ 32 = screen - bar := by omega
    rw [top]
    by_cases letter : 16 ≤ bar
    · have above : (2 ^ 32 - 16 + bar) % 2 ^ 32 = bar - 16 := by omega
      rw [above]
      omega
    · have above : (2 ^ 32 - 16 + bar) % 2 ^ 32 = 2 ^ 32 - 16 + bar := by omega
      rw [above]
      omega
  · -- only the default height can be larger than the screen
    obtain rfl : bar = 40 := by omega
    have top : (2 ^ 32 - 40 + screen) % 2 ^ 32 = 2 ^ 32 - 40 + screen := by omega
    rw [top]
    omega

theorem paintTaskbar_confined_iff (available : gfxAvailable fb = true)
    (narrow : fb.width.toNat ≤ fb.pitch.toNat / 4)
    (small : fb.pitch.toNat * fb.height.toNat < 2 ^ 32) (font : Nat → Nat → Nat)
    (window : WinPaint) : Confined fb (paintTaskbar fb font window) ↔ TaskbarFits fb window := by
  have left : (14 : UInt32).toNat = 14 := rfl
  have cells : gfxFontW * taskbarLabel.length = 32 := rfl
  simp only [paintTaskbar, confined_append, gfxFillRect_confined small, true_and]
  rw [gfxDrawString_confined_iff available small font _ _ _ (by decide) (by rw [left, cells]; decide),
    left, cells, TaskbarFits]
  refine and_congr_right fun wide => ?_
  have low : fb.height.toNat < 2 ^ 30 := by
    have pitch : 4 ≤ fb.pitch.toNat := by omega
    have product := Nat.mul_le_mul_right fb.height.toNat pitch
    omega
  have height := taskbarHeight_toNat fb window
  rw [rowsOn_label low]
  · rw [height]
    split <;> omega
  · rw [height]
    split <;> omega
  · rw [height]
    split <;> omega

theorem paintGeneric_confined (small : fb.pitch.toNat * fb.height.toNat < 2 ^ 32)
    (window : WinPaint) : Confined fb (paintGeneric fb window) := by
  unfold paintGeneric
  dsimp only
  split
  · exact confined_nil fb
  · simp only [confined_append, gfxFillRect_confined small, and_self]

theorem kiPaintWindowBySlot_confined_iff (available : gfxAvailable fb = true)
    (narrow : fb.width.toNat ≤ fb.pitch.toNat / 4)
    (small : fb.pitch.toNat * fb.height.toNat < 2 ^ 32) (font : Nat → Nat → Nat)
    (windows : Nat → WinPaint) (styles : Nat → UInt32) (slot : Nat) :
    Confined fb (kiPaintWindowBySlot fb font windows styles slot) ↔
      (styleVisible (styles slot) = true → (windows slot).kind = .taskbar →
        TaskbarFits fb (windows slot)) := by
  unfold kiPaintWindowBySlot
  cases visible : styleVisible (styles slot) with
  | false => simp
  | true =>
    rw [if_neg (by decide)]
    cases kind : (windows slot).kind with
    | desktop => simp [gfxFillRect_confined small]
    | taskbar => simp [paintTaskbar_confined_iff available narrow small]
    | generic => simp [paintGeneric_confined small]
    | none => simp [paintGeneric_confined small]

theorem confined_flatMap {slots : List Nat} {paint : Nat → List PixelStore} :
    Confined fb (slots.flatMap paint) ↔ ∀ slot ∈ slots, Confined fb (paint slot) := by
  simp only [Confined, List.mem_flatMap]
  constructor
  · exact fun all slot member p here => all p ⟨slot, member, here⟩
  · rintro all p ⟨slot, member, here⟩
    exact all slot member p here

end

/-- Painting stays on the screen exactly if the label of every visible taskbar has room. -/
theorem repaint_confined_iff (fb : GfxFramebuffer) (font : Nat → Nat → Nat)
    (windows : Nat → WinPaint) (styles : Nat → UInt32)
    (narrow : fb.width.toNat ≤ fb.pitch.toNat / 4)
    (small : fb.pitch.toNat * fb.height.toNat < 2 ^ 32) :
    Confined fb (kiRepaintAll fb font windows styles) ↔
      (gfxAvailable fb = true → ∀ slot, 1 ≤ slot → slot < winpaintSlots →
        styleVisible (styles slot) = true → (windows slot).kind = .taskbar →
          TaskbarFits fb (windows slot)) := by
  unfold kiRepaintAll
  cases available : gfxAvailable fb with
  | false => simp
  | true =>
    rw [if_neg (by decide), confined_append, confined_flatMap, confined_flatMap]
    simp only [kiPaintWindowBySlot_confined_iff available narrow small]
    have slots : ∀ slot, slot ∈ List.range' 1 (winpaintSlots - 1) ↔ 1 ≤ slot ∧ slot < winpaintSlots := by
      intro slot
      have count : winpaintSlots = 128 := rfl
      rw [List.mem_range'_1]
      omega
    constructor
    · rintro ⟨-, all⟩ - slot low high
      exact all slot ((slots slot).mpr ⟨low, high⟩)
    · intro all
      refine ⟨fun slot member => ?_, fun slot member => ?_⟩
      · split
        · rename_i desktop
          rw [kiPaintWindowBySlot_confined_iff available narrow small]
          intro _ taskbar
          rw [desktop.1] at taskbar
          cases taskbar
        · exact confined_nil fb
      · obtain ⟨low, high⟩ := (slots slot).mp member
        exact all trivial slot low high

/-- A screen of 640 by 480 pixels. -/
def vgaScreen : GfxFramebuffer := ⟨true, true, 2560, 640, 480, 16, 8, 0⟩

/-- The taskbar at slot 1, after `NtUserSetWindowPos` with height `cy`. -/
def taskbarOf (cy : Nat) : Nat → WinPaint :=
  Function.update (fun _ => ⟨.none, 0, 0, 0, 0⟩) 1
    (movedTo ⟨.taskbar, 0, 0, 640, 40⟩ fun i => if i = 5 then cy else 0)

theorem repaint_confined_taskbar :
    Confined vgaScreen (kiRepaintAll vgaScreen (fun _ _ => 0) (taskbarOf 30) fun _ => 0x10000000) := by
  refine (repaint_confined_iff vgaScreen _ _ _ (by decide) (by decide)).mpr fun _ slot _ _ _ taskbar => ?_
  by_cases first : slot = 1
  · subst first
    exact ⟨by decide, by decide, .inr (.inr (by decide))⟩
  · rw [taskbarOf, Function.update_of_ne first] at taskbar
    cases taskbar

/-- A taskbar of one row: its label is drawn some two thousand million rows below the screen. -/
theorem low_taskbar_leaves_screen :
    ¬ ∀ (fb : GfxFramebuffer) (font : Nat → Nat → Nat) (windows : Nat → WinPaint)
      (styles : Nat → UInt32), fb.width.toNat ≤ fb.pitch.toNat / 4 →
        fb.pitch.toNat * fb.height.toNat < 2 ^ 32 → Confined fb (kiRepaintAll fb font windows styles) := by
  intro all
  have confined := all vgaScreen (fun _ _ => 0) (taskbarOf 1) (fun _ => 0x10000000) (by decide) (by decide)
  rw [kiRepaintAll, if_neg (by decide), confined_append, confined_flatMap, confined_flatMap] at confined
  have taskbar := confined.2 1 (by decide)
  rw [kiPaintWindowBySlot_confined_iff rfl (by decide) (by decide)] at taskbar
  have fits := taskbar rfl rfl
  exact absurd fits.2.2 (by decide)

end User
