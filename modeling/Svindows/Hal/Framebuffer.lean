import Svindows.W32k.Drawing

/-!
# Drawing on the framebuffer

`hal/framebuffer.c` draws rectangles and characters straight into the linear
framebuffer. A primitive is the list of its stores, each with the pixel it is meant
for and the place it goes to, counted in pixels from the base. Rectangles are cut to
the screen; characters are not.
-/

namespace Hal

open W32k

/-- A store to the framebuffer: `Base[index] = color`, for the pixel at `x` and `y`. -/
structure PixelStore where
  x : Nat
  y : Nat
  index : Nat
  color : UInt32
  deriving DecidableEq

def stridePx (fb : GfxFramebuffer) : UInt32 := fb.pitch / 4

/-- The rows and columns are those of the two loops, from `x` and `y` on. -/
def gfxFillRect (fb : GfxFramebuffer) (x y w h color : UInt32) : List PixelStore :=
  if gfxAvailable fb = false then []
  else
    let x₁ := if fb.width < x + w then fb.width else x + w
    let y₁ := if fb.height < y + h then fb.height else y + h
    (List.range (y₁.toNat - y.toNat)).flatMap fun row =>
      (List.range (x₁.toNat - x.toNat)).map fun col =>
        ⟨x.toNat + col, y.toNat + row,
          ((y + UInt32.ofNat row) * stridePx fb).toNat + (x.toNat + col), color⟩

def gfxFontW : Nat := 8
def gfxFontH : Nat := 16

/-- `font` has the rows of the printable characters, from the blank on. -/
def gfxDrawChar (fb : GfxFramebuffer) (font : Nat → Nat → Nat) (x y : UInt32) (c : Nat)
    (fg bg : UInt32) : List PixelStore :=
  if gfxAvailable fb = false then []
  else
    let glyph := font (if 32 ≤ c ∧ c < 127 then c - 32 else 0)
    (List.range gfxFontH).flatMap fun row =>
      (List.range gfxFontW).map fun col =>
        ⟨x.toNat + col, (y + UInt32.ofNat row).toNat,
          ((y + UInt32.ofNat row) * stridePx fb).toNat + x.toNat + col,
          if (glyph row).testBit col then fg else bg⟩

def gfxDrawString (fb : GfxFramebuffer) (font : Nat → Nat → Nat) (x y : UInt32) (s : List Nat)
    (fg bg : UInt32) : List PixelStore :=
  match s with
  | [] => []
  | c :: s =>
    gfxDrawChar fb font x y c fg bg ++
      gfxDrawString fb font (x + UInt32.ofNat gfxFontW) y s fg bg

/-- The store is for a pixel of the screen, and goes to it. -/
def OnScreen (fb : GfxFramebuffer) (p : PixelStore) : Prop :=
  p.x < fb.width.toNat ∧ p.y < fb.height.toNat ∧
    p.index = p.y * (fb.pitch.toNat / 4) + p.x

/-- Every store of the list is. -/
def Confined (fb : GfxFramebuffer) (stores : List PixelStore) : Prop :=
  ∀ p ∈ stores, OnScreen fb p

@[simp] theorem confined_nil (fb : GfxFramebuffer) : Confined fb [] := fun _ member => nomatch member

@[simp] theorem confined_append {fb : GfxFramebuffer} {a b : List PixelStore} :
    Confined fb (a ++ b) ↔ Confined fb a ∧ Confined fb b := by
  simp only [Confined, List.forall_mem_append]

section

variable {fb : GfxFramebuffer}

/-- A row of the screen starts at its number times the stride: nothing wraps around. -/
theorem row_start (small : fb.pitch.toNat * fb.height.toNat < 2 ^ 32) {y : UInt32}
    (inside : y.toNat < fb.height.toNat) :
    (y * stridePx fb).toNat = y.toNat * (fb.pitch.toNat / 4) := by
  have stride : (stridePx fb).toNat = fb.pitch.toNat / 4 := UInt32.toNat_div _ _
  have product : y.toNat * (fb.pitch.toNat / 4) ≤ fb.height.toNat * fb.pitch.toNat :=
    Nat.mul_le_mul inside.le (Nat.div_le_self _ _)
  rw [UInt32.toNat_mul, stride]
  refine Nat.mod_eq_of_lt ?_
  rw [Nat.mul_comm] at small
  omega

theorem toNat_add_ofNat {y : UInt32} {n : Nat} (fits : y.toNat + n < 2 ^ 32) :
    (y + UInt32.ofNat n).toNat = y.toNat + n := by
  rw [UInt32.toNat_add, UInt32.toNat_ofNat', Nat.add_mod_mod, Nat.mod_eq_of_lt fits]

/-- A rectangle is cut to the screen, wherever it is. -/
theorem gfxFillRect_confined (small : fb.pitch.toNat * fb.height.toNat < 2 ^ 32)
    (x y w h color : UInt32) : Confined fb (gfxFillRect fb x y w h color) := by
  intro p member
  unfold gfxFillRect at member
  split at member
  · cases member
  · dsimp only at member
    obtain ⟨row, rows, member⟩ := List.mem_flatMap.mp member
    obtain ⟨col, cols, rfl⟩ := List.mem_map.mp member
    rw [List.mem_range] at rows cols
    have right : (if fb.width < x + w then fb.width else x + w).toNat ≤ fb.width.toNat := by
      split
      · exact Nat.le_refl _
      · exact UInt32.not_lt.mp ‹_›
    have bottom : (if fb.height < y + h then fb.height else y + h).toNat ≤ fb.height.toNat := by
      split
      · exact Nat.le_refl _
      · exact UInt32.not_lt.mp ‹_›
    have inside : y.toNat + row < fb.height.toNat := by omega
    have same : (y + UInt32.ofNat row).toNat = y.toNat + row :=
      toNat_add_ofNat (inside.trans fb.height.toNat_lt)
    refine ⟨by dsimp only; omega, inside, ?_⟩
    dsimp only
    rw [row_start small (by rw [same]; exact inside), same]

/-- The rows of a character are on the screen. -/
def RowsOn (fb : GfxFramebuffer) (y : UInt32) : Prop :=
  ∀ row < gfxFontH, (y + UInt32.ofNat row).toNat < fb.height.toNat

/-- A character is on the screen exactly if its cell is. -/
theorem gfxDrawChar_confined_iff (available : gfxAvailable fb = true)
    (small : fb.pitch.toNat * fb.height.toNat < 2 ^ 32) (font : Nat → Nat → Nat) (x y : UInt32)
    (c : Nat) (fg bg : UInt32) :
    Confined fb (gfxDrawChar fb font x y c fg bg) ↔
      x.toNat + gfxFontW ≤ fb.width.toNat ∧ RowsOn fb y := by
  have store : ∀ row < gfxFontH, ∀ col < gfxFontW, ∃ p ∈ gfxDrawChar fb font x y c fg bg,
      p.x = x.toNat + col ∧ p.y = (y + UInt32.ofNat row).toNat := by
    intro row rows col cols
    unfold gfxDrawChar
    rw [if_neg (by rw [available]; decide)]
    exact ⟨_, List.mem_flatMap.mpr ⟨row, List.mem_range.mpr rows,
      List.mem_map.mpr ⟨col, List.mem_range.mpr cols, rfl⟩⟩, rfl, rfl⟩
  constructor
  · intro confined
    constructor
    · obtain ⟨p, member, left, -⟩ := store 0 (by decide) 7 (by decide)
      have inside := (confined p member).1
      have width : gfxFontW = 8 := rfl
      omega
    · intro row rows
      obtain ⟨p, member, -, top⟩ := store row rows 0 (by decide)
      rw [← top]
      exact (confined p member).2.1
  · rintro ⟨right, rows⟩ p member
    unfold gfxDrawChar at member
    rw [if_neg (by rw [available]; decide)] at member
    dsimp only at member
    obtain ⟨row, inRow, member⟩ := List.mem_flatMap.mp member
    obtain ⟨col, inCol, rfl⟩ := List.mem_map.mp member
    rw [List.mem_range] at inRow inCol
    refine ⟨by dsimp only; omega, rows row inRow, ?_⟩
    dsimp only
    rw [row_start small (rows row inRow), Nat.add_assoc]

/-- A text is on the screen exactly if the cells of its characters are. -/
theorem gfxDrawString_confined_iff (available : gfxAvailable fb = true)
    (small : fb.pitch.toNat * fb.height.toNat < 2 ^ 32) (font : Nat → Nat → Nat) (y : UInt32)
    (fg bg : UInt32) {s : List Nat} (some_ : s ≠ []) {x : UInt32}
    (fits : x.toNat + gfxFontW * s.length < 2 ^ 32) :
    Confined fb (gfxDrawString fb font x y s fg bg) ↔
      x.toNat + gfxFontW * s.length ≤ fb.width.toNat ∧ RowsOn fb y := by
  have width : gfxFontW = 8 := rfl
  induction s generalizing x with
  | nil => exact absurd rfl some_
  | cons c s ih =>
    rw [gfxDrawString, confined_append, gfxDrawChar_confined_iff available small]
    rw [List.length_cons, Nat.mul_succ] at fits ⊢
    cases s with
    | nil =>
      rw [gfxDrawString]
      simp [width]
    | cons c' s =>
      have next : (x + UInt32.ofNat gfxFontW).toNat = x.toNat + gfxFontW :=
        toNat_add_ofNat (by omega)
      have rest := ih (List.cons_ne_nil c' s) (x := x + UInt32.ofNat gfxFontW) (by rw [next]; omega)
      rw [next] at rest
      refine (and_congr_right' rest).trans ?_
      constructor
      · rintro ⟨⟨-, rows⟩, right, -⟩
        exact ⟨by omega, rows⟩
      · rintro ⟨right, rows⟩
        exact ⟨⟨by omega, rows⟩, by omega, rows⟩

end

end Hal
