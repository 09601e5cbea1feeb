import Mathlib.Data.Set.Defs
import Svindows.W32k.SurfaceRuns

/-!
# Filled rectangles

`dc_fill` cuts a rectangle to the clip box of the device context and then to the
surface. The pixels it writes are compared with those that `NtGdiSetPixel` writes
for the points of the rectangle one by one. Both compute the place of a pixel in 32
bits, so a surface must not have more pixels than that can tell apart.
-/

namespace W32k

theorem mem_touched_foldl {step : Canvas → Nat → Canvas} (adds : Nat → Access → Prop)
    (one : ∀ c k a, a ∈ (step c k).touched ↔ adds k a ∨ a ∈ c.touched) (ks : List Nat) (c : Canvas)
    (a : Access) :
    a ∈ (ks.foldl step c).touched ↔ (∃ k ∈ ks, adds k a) ∨ a ∈ c.touched := by
  induction ks generalizing c with
  | nil => simp
  | cons k ks ih =>
    rw [List.foldl_cons, ih, one]
    simp only [List.mem_cons, exists_eq_or_imp]
    rw [← or_assoc, or_comm (b := adds k a)]

theorem mem_touched_fillRows (surface : W32kSurface) (x y w h : Int32) (pixel : UInt32) (c : Canvas)
    (a : Access) :
    a ∈ (fillRows surface x y w h pixel c).touched ↔
      (∃ row < h.toInt.toNat, ∃ col < w.toInt.toNat, a = .pixel surface.bits
        ((y.toInt.toNat + row) * surface.stride.toNat % 2 ^ 32 + x.toInt.toNat + col)) ∨
      a ∈ c.touched := by
  unfold fillRows
  rw [mem_touched_foldl (fun row a => ∃ col < w.toInt.toNat, a = .pixel surface.bits
    ((y.toInt.toNat + row) * surface.stride.toNat % 2 ^ 32 + x.toInt.toNat + col))]
  · simp only [List.mem_range]
  · intro c row a
    rw [mem_touched_foldl (fun col a => a = .pixel surface.bits
      ((y.toInt.toNat + row) * surface.stride.toNat % 2 ^ 32 + x.toInt.toNat + col))]
    · simp only [List.mem_range]
    · intro c col a
      simp only [Canvas.write, List.mem_cons]

/-- Where `dc_clip` lets a rectangle start along an axis, in surface coordinates. -/
def clipLow (org clip x : Int32) : Int32 := if org + x < clip then clip else org + x

/-- Where it lets the rectangle end. -/
def clipHigh (org clip len x w : Int32) : Int32 :=
  if clip + len < org + x + w then clip + len else org + x + w

theorem dcClip_eq (dc : W32kDc) (x y w h : Int32) :
    dcClip dc x y w h =
      if clipHigh dc.orgX dc.clipX dc.clipW x w ≤ clipLow dc.orgX dc.clipX x ∨
          clipHigh dc.orgY dc.clipY dc.clipH y h ≤ clipLow dc.orgY dc.clipY y then none
      else some (clipLow dc.orgX dc.clipX x, clipLow dc.orgY dc.clipY y,
        clipHigh dc.orgX dc.clipX dc.clipW x w - clipLow dc.orgX dc.clipX x,
        clipHigh dc.orgY dc.clipY dc.clipH y h - clipLow dc.orgY dc.clipY y) :=
  rfl

theorem le_clipLow (org clip x : Int32) : clip.toInt ≤ (clipLow org clip x).toInt := by
  unfold clipLow
  split
  · exact Int.le_refl _
  · rename_i above
    exact Int32.le_iff_toInt_le.mp (Int32.not_lt.mp above)

/-- A clip box whose end wraps around has nothing in it. -/
theorem clip_inside {org clip len x w : Int32} (some_ : 0 ≤ len.toInt)
    (apart : (clipLow org clip x).toInt < (clipHigh org clip len x w).toInt) :
    (clipHigh org clip len x w).toInt ≤ clip.toInt + len.toInt ∧
      (clipHigh org clip len x w - clipLow org clip x).toInt =
        (clipHigh org clip len x w).toInt - (clipLow org clip x).toInt := by
  have low := le_clipLow org clip x
  have high : (clipHigh org clip len x w).toInt ≤ (clip + len).toInt := by
    unfold clipHigh
    split
    · exact Int.le_refl _
    · rename_i below
      exact Int32.le_iff_toInt_le.mp (Int32.not_lt.mp below)
  have lowClip := clip.le_toInt
  have highClip := clip.toInt_lt
  have highLen := len.toInt_lt
  have sum : (clip + len).toInt ≤ clip.toInt + len.toInt := by
    rw [Int32.toInt_add, Int.bmod_def]
    split <;> omega
  refine ⟨high.trans sum, int32_sub_eq (by omega) (by omega)⟩

theorem axis_points {x w limit start count : Int} (from_ : start = max x 0)
    (to_ : start + count = min (x + w) limit) (p : Nat) :
    (p < limit ∧ x ≤ p ∧ p < x + w) ↔ ∃ k < count.toNat, p = start.toNat + k := by
  constructor
  · rintro ⟨inside, after, before⟩
    have low : start ≤ p := by omega
    have high : p < start + count := by omega
    exact ⟨p - start.toNat, by omega, by omega⟩
  · rintro ⟨k, counted, rfl⟩
    omega

/-- The places that were accessed. -/
def Canvas.written (c : Canvas) : Set (PixelMemory × Nat) := {p | .pixel p.1 p.2 ∈ c.touched}

/-- A canvas on which nothing was accessed yet. -/
def blank (pixels : PixelMemory → Nat → UInt32) : Canvas := ⟨pixels, []⟩

/-- The sizes of a surface are signed ones, and its rows do not overlap. -/
structure W32kSurface.Sized (surface : W32kSurface) : Prop where
  width : surface.width.toNat < 2 ^ 31
  height : surface.height.toNat < 2 ^ 31
  stride : surface.width.toNat ≤ surface.stride.toNat

theorem toInt32_eq {w : UInt32} (small : w.toNat < 2 ^ 31) : w.toInt32.toInt = w.toNat := by
  have same : w.toInt32.toInt = w.toBitVec.toInt := rfl
  rw [same, BitVec.toInt_eq_toNat_cond, if_pos]
  · rfl
  · have nat : w.toBitVec.toNat = w.toNat := rfl
    omega

section

variable {d : Display} {s : GdiState} {ref : SurfaceRef} {pixels : PixelMemory → Nat → UInt32}

theorem mem_written_surfaceFill (sized : (surfaceAt d s ref).Sized) {x y w h : Int32}
    (wide : x.toInt + w.toInt < 2 ^ 31) (high : y.toInt + h.toInt < 2 ^ 31) (pixel : UInt32)
    (p : PixelMemory × Nat) :
    p ∈ (surfaceFill d s ref x y w h pixel (blank pixels)).written ↔
      (surfaceAt d s ref).bits ≠ .null ∧ p.1 = (surfaceAt d s ref).bits ∧
      ∃ px py : Nat, (px < (surfaceAt d s ref).width.toNat ∧ py < (surfaceAt d s ref).height.toNat) ∧
        (x.toInt ≤ px ∧ px < x.toInt + w.toInt) ∧ (y.toInt ≤ py ∧ py < y.toInt + h.toInt) ∧
        p.2 = py * (surfaceAt d s ref).stride.toNat % 2 ^ 32 + px := by
  have width := toInt32_eq sized.width
  have height := toInt32_eq sized.height
  have untouched : ¬ Access.pixel p.1 p.2 ∈ ((blank pixels).look ref).touched := by
    simp [blank, Canvas.look]
  have none_ : ∀ {P : Prop}, ¬ P → (p ∈ ((blank pixels).look ref).written ↔ P) := fun no =>
    iff_of_false untouched no
  unfold surfaceFill
  dsimp only
  by_cases refused : (surfaceAt d s ref).bits = .null ∨ w ≤ 0 ∨ h ≤ 0
  · rw [if_pos refused]
    refine none_ ?_
    rintro ⟨bits, -, px, py, -, across, down, -⟩
    rcases refused with null | thin | flat
    · exact bits null
    · have thin : w.toInt ≤ 0 := Int32.le_iff_toInt_le.mp thin
      omega
    · have flat : h.toInt ≤ 0 := Int32.le_iff_toInt_le.mp flat
      omega
  rw [if_neg refused]
  simp only [not_or, Int32.not_le, Int32.lt_iff_toInt_lt] at refused
  have across := @axis_end x w (surfaceAt d s ref).width.toInt32 refused.2.1 wide
  have down := @axis_end y h (surfaceAt d s ref).height.toInt32 refused.2.2 high
  have startX := axis_start x
  have startY := axis_start y
  generalize (if x < 0 then 0 else x) = x₁ at across startX ⊢
  generalize (if x < 0 then w + x else w) = w₁ at across ⊢
  generalize (if y < 0 then 0 else y) = y₁ at down startY ⊢
  generalize (if y < 0 then h + y else h) = h₁ at down ⊢
  by_cases outside : (surfaceAt d s ref).width.toInt32 ≤ x₁ ∨ (surfaceAt d s ref).height.toInt32 ≤ y₁
  · rw [if_pos outside]
    refine none_ ?_
    rintro ⟨-, -, px, py, on, across', down', -⟩
    clear across down
    simp only [Int32.le_iff_toInt_le] at outside
    omega
  rw [if_neg outside]
  simp only [not_or, Int32.not_le, Int32.lt_iff_toInt_lt] at outside
  have right := across outside.1
  have bottom := down outside.2
  clear across down
  generalize (if (surfaceAt d s ref).width.toInt32 < x₁ + w₁ then
    (surfaceAt d s ref).width.toInt32 - x₁ else w₁) = w₂ at right ⊢
  generalize (if (surfaceAt d s ref).height.toInt32 < y₁ + h₁ then
    (surfaceAt d s ref).height.toInt32 - y₁ else h₁) = h₂ at bottom ⊢
  have columns := axis_points startX right
  have rows := axis_points startY bottom
  rw [width] at columns
  rw [height] at rows
  by_cases empty : w₂ ≤ 0 ∨ h₂ ≤ 0
  · rw [if_pos empty]
    refine none_ ?_
    rintro ⟨-, -, px, py, on, across, down, -⟩
    obtain ⟨col, cols, -⟩ := (columns px).mp ⟨by exact_mod_cast on.1, across⟩
    obtain ⟨row, rows', -⟩ := (rows py).mp ⟨by exact_mod_cast on.2, down⟩
    clear columns rows startX startY right bottom
    simp only [Int32.le_iff_toInt_le] at empty
    have zero : (0 : Int32).toInt = 0 := rfl
    omega
  rw [if_neg empty, Canvas.written, Set.mem_ofPred_eq, mem_touched_fillRows, or_iff_left untouched]
  constructor
  · rintro ⟨row, inRow, col, inCol, place⟩
    obtain ⟨memory, index⟩ := Access.pixel.inj place
    obtain ⟨onX, across⟩ := (columns _).mpr ⟨col, inCol, rfl⟩
    obtain ⟨onY, down⟩ := (rows _).mpr ⟨row, inRow, rfl⟩
    refine ⟨refused.1, memory, _, _, ⟨by exact_mod_cast onX, by exact_mod_cast onY⟩, across, down, ?_⟩
    rw [index, Nat.add_assoc]
  · rintro ⟨-, memory, px, py, on, across, down, index⟩
    obtain ⟨col, inCol, rfl⟩ := (columns px).mp ⟨by exact_mod_cast on.1, across⟩
    obtain ⟨row, inRow, rfl⟩ := (rows py).mp ⟨by exact_mod_cast on.2, down⟩
    refine ⟨row, inRow, col, inCol, ?_⟩
    rw [memory, index, Nat.add_assoc]

theorem mem_written_dcFill (sized : (surfaceAt d s ref).Sized) {dc : W32kDc}
    (clipped : 0 ≤ dc.clipW.toInt ∧ 0 ≤ dc.clipH.toInt) (x y w h : Int32) (color : UInt32)
    (p : PixelMemory × Nat) :
    p ∈ (dcFill d s dc ref x y w h color (blank pixels)).written ↔
      (surfaceAt d s ref).bits ≠ .null ∧ p.1 = (surfaceAt d s ref).bits ∧
      ∃ px py : Nat, (px < (surfaceAt d s ref).width.toNat ∧ py < (surfaceAt d s ref).height.toNat) ∧
        ((clipLow dc.orgX dc.clipX x).toInt ≤ px ∧
          px < (clipHigh dc.orgX dc.clipX dc.clipW x w).toInt) ∧
        ((clipLow dc.orgY dc.clipY y).toInt ≤ py ∧
          py < (clipHigh dc.orgY dc.clipY dc.clipH y h).toInt) ∧
        p.2 = py * (surfaceAt d s ref).stride.toNat % 2 ^ 32 + px := by
  unfold dcFill
  rw [dcClip_eq]
  by_cases none_ : clipHigh dc.orgX dc.clipX dc.clipW x w ≤ clipLow dc.orgX dc.clipX x ∨
      clipHigh dc.orgY dc.clipY dc.clipH y h ≤ clipLow dc.orgY dc.clipY y
  · rw [if_pos none_]
    refine iff_of_false (by simp [blank, Canvas.written]) ?_
    rintro ⟨-, -, px, py, -, across, down, -⟩
    simp only [Int32.le_iff_toInt_le] at none_
    omega
  · rw [if_neg none_]
    simp only [not_or, Int32.not_le, Int32.lt_iff_toInt_lt] at none_
    obtain ⟨-, wide⟩ := clip_inside clipped.1 none_.1
    obtain ⟨-, high⟩ := clip_inside clipped.2 none_.2
    have right := (clipHigh dc.orgX dc.clipX dc.clipW x w).toInt_lt
    have bottom := (clipHigh dc.orgY dc.clipY dc.clipH y h).toInt_lt
    rw [mem_written_surfaceFill sized (by omega) (by omega), wide, high, add_sub_cancel,
      add_sub_cancel]

theorem mem_written_dcPixel (sized : (surfaceAt d s ref).Sized) {dc : W32kDc} (x y : Int32)
    (pixel : UInt32) (p : PixelMemory × Nat) :
    p ∈ (dcPixel d s dc ref x y pixel (blank pixels)).written ↔
      (surfaceAt d s ref).bits ≠ .null ∧ p.1 = (surfaceAt d s ref).bits ∧
      (clipLow dc.orgX dc.clipX x).toInt < (clipHigh dc.orgX dc.clipX dc.clipW x 1).toInt ∧
      (clipLow dc.orgY dc.clipY y).toInt < (clipHigh dc.orgY dc.clipY dc.clipH y 1).toInt ∧
      ∃ px py : Nat, (px < (surfaceAt d s ref).width.toNat ∧ py < (surfaceAt d s ref).height.toNat) ∧
        (clipLow dc.orgX dc.clipX x).toInt = px ∧ (clipLow dc.orgY dc.clipY y).toInt = py ∧
        p.2 = (py * (surfaceAt d s ref).stride.toNat + px) % 2 ^ 32 := by
  have width := toInt32_eq sized.width
  have height := toInt32_eq sized.height
  have zero : (0 : Int32).toInt = 0 := rfl
  unfold dcPixel
  rw [dcClip_eq]
  by_cases none_ : clipHigh dc.orgX dc.clipX dc.clipW x 1 ≤ clipLow dc.orgX dc.clipX x ∨
      clipHigh dc.orgY dc.clipY dc.clipH y 1 ≤ clipLow dc.orgY dc.clipY y
  · rw [if_pos none_]
    refine iff_of_false (by simp [blank, Canvas.written]) ?_
    rintro ⟨-, -, across, down, -⟩
    simp only [Int32.le_iff_toInt_le] at none_
    omega
  · rw [if_neg none_]
    simp only [not_or, Int32.not_le, Int32.lt_iff_toInt_lt] at none_
    generalize clipLow dc.orgX dc.clipX x = left at *
    generalize clipLow dc.orgY dc.clipY y = top at *
    simp only [surfacePixel]
    by_cases off : (surfaceAt d s ref).bits = .null ∨ left < 0 ∨ top < 0 ∨
        (surfaceAt d s ref).width.toInt32 ≤ left ∨ (surfaceAt d s ref).height.toInt32 ≤ top
    · rw [if_pos off]
      refine iff_of_false (by simp [blank, Canvas.written, Canvas.look]) ?_
      rintro ⟨bits, -, -, -, px, py, on, across, down, -⟩
      simp only [bits, Int32.le_iff_toInt_le, Int32.lt_iff_toInt_lt, false_or] at off
      omega
    · rw [if_neg off]
      simp only [not_or, Int32.le_iff_toInt_le, Int32.lt_iff_toInt_lt] at off
      have place : (top.toUInt32 * (surfaceAt d s ref).stride + left.toUInt32).toNat =
          (top.toInt.toNat * (surfaceAt d s ref).stride.toNat + left.toInt.toNat) % 2 ^ 32 := by
        rw [UInt32.toNat_add, UInt32.toNat_mul, toUInt32_toNat (by omega), toUInt32_toNat (by omega),
          Nat.mod_add_mod]
      rw [place]
      constructor
      · intro here
        have same : Access.pixel p.1 p.2 = .pixel (surfaceAt d s ref).bits
            ((top.toInt.toNat * (surfaceAt d s ref).stride.toNat + left.toInt.toNat) % 2 ^ 32) := by
          simpa [Canvas.written, Canvas.write, Canvas.look, blank] using here
        obtain ⟨memory, index⟩ := Access.pixel.inj same
        exact ⟨off.1, memory, none_.1, none_.2, left.toInt.toNat, top.toInt.toNat, by omega, by omega,
          by omega, index⟩
      · rintro ⟨-, memory, -, -, px, py, on, across, down, index⟩
        have column : left.toInt.toNat = px := by omega
        have row : top.toInt.toNat = py := by omega
        rw [column, row, ← index, ← memory]
        exact List.mem_cons_self

end

/-- The places of the pixels that are on the surface and in the clip box. -/
def clipPixels (surface : W32kSurface) (dc : W32kDc) : Set (PixelMemory × Nat) :=
  {p | p.1 = surface.bits ∧ ∃ px py : Nat,
    (px < surface.width.toNat ∧ py < surface.height.toNat) ∧
    (dc.clipX.toInt ≤ px ∧ px < dc.clipX.toInt + dc.clipW.toInt) ∧
    (dc.clipY.toInt ≤ py ∧ py < dc.clipY.toInt + dc.clipH.toInt) ∧
    p.2 = py * surface.stride.toNat + px}

/-- What `NtGdiSetPixel` writes for the points of a rectangle. -/
def setPixels (d : Display) (s : GdiState) (hdc : Nat) (x y w h : Int32) (color : Nat)
    (pixels : PixelMemory → Nat → UInt32) : Set (PixelMemory × Nat) :=
  {p | ∃ col < w.toInt.toNat, ∃ row < h.toInt.toNat,
    p ∈ (ntGdiSetPixel d s hdc (x + Int32.ofNat col) (y + Int32.ofNat row) color
      (blank pixels)).2.written}

/-- The sums that `dc_clip` computes along an axis fit in 32 bits. -/
structure AxisFits (org clip len x w : Int32) : Prop where
  low : -2 ^ 31 ≤ org.toInt + x.toInt
  high : org.toInt + x.toInt < 2 ^ 31
  endLow : -2 ^ 31 ≤ org.toInt + x.toInt + w.toInt
  endHigh : org.toInt + x.toInt + w.toInt < 2 ^ 31
  clipLow : -2 ^ 31 ≤ clip.toInt + len.toInt
  clipHigh : clip.toInt + len.toInt < 2 ^ 31

/-- A fill writes pixels of the surface in the clip box only; and where no sum overflows, the
pixels that `NtGdiSetPixel` writes for the points of the rectangle. -/
structure FillKept (d : Display) (s : GdiState) (hdc : Nat) (dc : W32kDc) (ref : SurfaceRef)
    (x y w h : Int32) (color : Nat) (pixels : PixelMemory → Nat → UInt32) : Prop where
  confined : (dcFill d s dc ref x y w h (.ofNat color) (blank pixels)).written ⊆
    clipPixels (surfaceAt d s ref) dc
  equal : AxisFits dc.orgX dc.clipX dc.clipW x w → AxisFits dc.orgY dc.clipY dc.clipH y h →
    (dcFill d s dc ref x y w h (.ofNat color) (blank pixels)).written =
      setPixels d s hdc x y w h color pixels

/-- The place of the last pixel is a 32-bit number. -/
def W32kSurface.Addressable (surface : W32kSurface) : Prop :=
  (surface.height.toNat - 1) * surface.stride.toNat + surface.width.toNat ≤ 2 ^ 32

theorem W32kSurface.Addressable.place {surface : W32kSurface} (addressable : surface.Addressable)
    {px py : Nat} (right : px < surface.width.toNat) (bottom : py < surface.height.toNat) :
    py * surface.stride.toNat % 2 ^ 32 + px = py * surface.stride.toNat + px ∧
      (py * surface.stride.toNat + px) % 2 ^ 32 = py * surface.stride.toNat + px := by
  have row : py * surface.stride.toNat ≤ (surface.height.toNat - 1) * surface.stride.toNat :=
    Nat.mul_le_mul_right _ (by omega)
  rw [W32kSurface.Addressable] at addressable
  omega

/-- Along an axis, a point of the rectangle is clipped away or stays where it is. -/
theorem pixel_axis {org clip len x w : Int32} (fits : AxisFits org clip len x w) {col : Nat}
    (inside : col < w.toInt.toNat) (p : Nat) :
    (clipLow org clip (x + Int32.ofNat col)).toInt <
        (clipHigh org clip len (x + Int32.ofNat col) 1).toInt ∧
      (clipLow org clip (x + Int32.ofNat col)).toInt = p ↔
    org.toInt + x.toInt + col = p ∧ clip.toInt ≤ p ∧ p < clip.toInt + len.toInt := by
  obtain ⟨low, high, endLow, endHigh, clipLow', clipHigh'⟩ := fits
  have highW := w.toInt_lt
  have column : (Int32.ofNat col).toInt = col := Int32.toInt_ofNat_of_lt (by omega)
  have start : (org + (x + Int32.ofNat col)).toInt = org.toInt + x.toInt + col := by
    have base := int32_add_eq low high
    rw [← Int32.add_assoc, int32_add_eq (by omega) (by omega), base, column]
  have one : (1 : Int32).toInt = 1 := rfl
  have next : (org + (x + Int32.ofNat col) + 1).toInt = org.toInt + x.toInt + col + 1 := by
    rw [int32_add_eq (by omega) (by omega), start, one]
  have sum := int32_add_eq clipLow' clipHigh'
  simp only [clipLow, clipHigh, Int32.lt_iff_toInt_lt, start, next, sum]
  split <;> split <;> omega

/-- Along an axis, the clipped rectangle has the points of the rectangle in the clip box. -/
theorem fill_axis {org clip len x w : Int32} (fits : AxisFits org clip len x w) (p : Nat) :
    (clipLow org clip x).toInt ≤ p ∧ p < (clipHigh org clip len x w).toInt ↔
      ∃ col < w.toInt.toNat, org.toInt + x.toInt + col = p ∧
        clip.toInt ≤ p ∧ p < clip.toInt + len.toInt := by
  obtain ⟨low, high, endLow, endHigh, clipLow', clipHigh'⟩ := fits
  have start := int32_add_eq low high
  have stop : (org + x + w).toInt = org.toInt + x.toInt + w.toInt := by
    rw [int32_add_eq (by omega) (by omega), start]
  have sum := int32_add_eq clipLow' clipHigh'
  have lowEnd : (clipLow org clip x).toInt ≤ p ↔ org.toInt + x.toInt ≤ p ∧ clip.toInt ≤ p := by
    simp only [clipLow, Int32.lt_iff_toInt_lt, start]
    split <;> omega
  have highEnd : p < (clipHigh org clip len x w).toInt ↔
      p < org.toInt + x.toInt + w.toInt ∧ p < clip.toInt + len.toInt := by
    simp only [clipHigh, Int32.lt_iff_toInt_lt, stop, sum]
    split <;> omega
  rw [lowEnd, highEnd]
  constructor
  · rintro ⟨⟨after, inLow⟩, before, inHigh⟩
    exact ⟨(p - (org.toInt + x.toInt)).toNat, by omega, by omega, inLow, inHigh⟩
  · rintro ⟨col, inside, point, inLow, inHigh⟩
    omega

/-- On a surface whose pixels have 32-bit places, a fill is confined and is the same as its pixels
one by one. -/
theorem fill_kept {d : Display} {s : GdiState} {hdc i : Nat} {dc : W32kDc} {ref : SurfaceRef}
    (target : dcTarget s hdc = some (i, dc, ref)) (clipped : 0 ≤ dc.clipW.toInt ∧ 0 ≤ dc.clipH.toInt)
    (sized : (surfaceAt d s ref).Sized) (addressable : (surfaceAt d s ref).Addressable)
    (x y w h : Int32) (color : Nat) (pixels : PixelMemory → Nat → UInt32) :
    FillKept d s hdc dc ref x y w h color pixels where
  confined := by
    intro p here
    obtain ⟨-, memory, px, py, on, across, down, index⟩ :=
      (mem_written_dcFill sized clipped x y w h _ p).mp here
    have left := le_clipLow dc.orgX dc.clipX x
    have top := le_clipLow dc.orgY dc.clipY y
    obtain ⟨right, -⟩ := clip_inside clipped.1 (across.1.trans_lt across.2)
    obtain ⟨bottom, -⟩ := clip_inside clipped.2 (down.1.trans_lt down.2)
    refine ⟨memory, px, py, on, by omega, by omega, ?_⟩
    rw [index, (addressable.place on.1 on.2).1]
  equal := by
    intro acrossFits downFits
    ext p
    rw [mem_written_dcFill sized clipped]
    simp only [setPixels, Set.mem_ofPred_eq, ntGdiSetPixel, target, mem_written_dcPixel sized]
    constructor
    · rintro ⟨bits, memory, px, py, on, across, down, index⟩
      obtain ⟨col, cols, atX⟩ := (fill_axis acrossFits px).mp across
      obtain ⟨row, rows, atY⟩ := (fill_axis downFits py).mp down
      obtain ⟨someX, placeX⟩ := (pixel_axis acrossFits cols px).mpr atX
      obtain ⟨someY, placeY⟩ := (pixel_axis downFits rows py).mpr atY
      refine ⟨col, cols, row, rows, bits, memory, someX, someY, px, py, on, placeX, placeY, ?_⟩
      rw [index, (addressable.place on.1 on.2).1, (addressable.place on.1 on.2).2]
    · rintro ⟨col, cols, row, rows, bits, memory, someX, someY, px, py, on, placeX, placeY, index⟩
      have atX := (pixel_axis acrossFits cols px).mp ⟨someX, placeX⟩
      have atY := (pixel_axis downFits rows py).mp ⟨someY, placeY⟩
      refine ⟨bits, memory, px, py, on, (fill_axis acrossFits px).mpr ⟨col, cols, atX⟩,
        (fill_axis downFits py).mpr ⟨row, rows, atY⟩, ?_⟩
      rw [index, (addressable.place on.1 on.2).1, (addressable.place on.1 on.2).2]

/-- The screen is addressable if its size in bytes is a 32-bit number. -/
theorem screenSurface_addressable {fb : GfxFramebuffer}
    (narrow : fb.width.toNat ≤ fb.pitch.toNat / 4)
    (small : fb.pitch.toNat * fb.height.toNat < 2 ^ 32) : (screenSurface fb).Addressable := by
  have stride : (fb.pitch / 4).toNat = fb.pitch.toNat / 4 := UInt32.toNat_div _ _
  change (fb.height.toNat - 1) * (fb.pitch / 4).toNat + fb.width.toNat ≤ 2 ^ 32
  rw [stride]
  cases rows : fb.height.toNat with
  | zero =>
    have word := fb.width.toNat_lt
    omega
  | succ n =>
    have row : n * (fb.pitch.toNat / 4) + fb.pitch.toNat / 4 = (n + 1) * (fb.pitch.toNat / 4) :=
      (Nat.succ_mul _ _).symm
    have size : (n + 1) * (fb.pitch.toNat / 4) ≤ fb.pitch.toNat * (n + 1) := by
      rw [Nat.mul_comm]
      exact Nat.mul_le_mul_right _ (Nat.div_le_self _ _)
    rw [rows] at small
    rw [Nat.add_sub_cancel]
    omega

/-- A window of ten by ten pixels at `x` and `y` of a screen. -/
def windowOn (fb : GfxFramebuffer) (x y : Int32) : GdiState :=
  (w32kCreateWindowDc fb bootGdi 1 x y 10 10).2

/-- Its device context, of handle `0x10001`. -/
def windowDcOn (fb : GfxFramebuffer) (x y : Int32) : W32kDc :=
  { zeroDc with
    surface := some (.screen 1)
    screenSurface := screenSurface fb
    hwnd := 1
    orgX := x
    orgY := y
    clipX := x
    clipY := y
    clipW := 10
    clipH := 10 }

def vgaFramebuffer : GfxFramebuffer := ⟨true, true, 2560, 640, 480, 16, 8, 0⟩

theorem fill_kept_window :
    FillKept bareDisplay (windowOn vgaFramebuffer 0 0) 0x10001 (windowDcOn vgaFramebuffer 0 0)
      (.screen 1) (-3) 4 8 20 0xFF fun _ _ => 0 := by
  have target : dcTarget (windowOn vgaFramebuffer 0 0) 0x10001 =
      some (1, windowDcOn vgaFramebuffer 0 0, .screen 1) := rfl
  have narrow : vgaFramebuffer.width.toNat ≤ vgaFramebuffer.pitch.toNat / 4 := by decide
  exact fill_kept target ⟨by decide, by decide⟩ ⟨by decide, by decide, by decide⟩
    (screenSurface_addressable narrow (by decide)) ..

/-- A screen of one column and 2^30 + 1 rows of four pixels. -/
def tallFramebuffer : GfxFramebuffer := ⟨true, true, 16, 1, 0x40000001, 16, 8, 0⟩

/-- Its last row has the same 32-bit place as its first. -/
theorem tall_surface_wraps :
    ¬ ∀ (d : Display) (s : GdiState) (hdc i : Nat) (dc : W32kDc) (ref : SurfaceRef),
      dcTarget s hdc = some (i, dc, ref) → 0 ≤ dc.clipW.toInt ∧ 0 ≤ dc.clipH.toInt →
      (surfaceAt d s ref).Sized → ∀ (x y w h : Int32) (color : Nat)
        (pixels : PixelMemory → Nat → UInt32), FillKept d s hdc dc ref x y w h color pixels := by
  intro all
  have target : dcTarget (windowOn tallFramebuffer 0 0x40000000) 0x10001 =
      some (1, windowDcOn tallFramebuffer 0 0x40000000, .screen 1) := rfl
  have kept := all bareDisplay _ _ _ _ _ target ⟨by decide, by decide⟩
    ⟨by decide, by decide, by decide⟩ 0 0 1 1 0 fun _ _ => 0
  have here : Access.pixel .framebuffer 0 ∈ (dcFill bareDisplay
      (windowOn tallFramebuffer 0 0x40000000) (windowDcOn tallFramebuffer 0 0x40000000) (.screen 1)
      0 0 1 1 (.ofNat 0) (blank fun _ _ => 0)).touched := by decide
  obtain ⟨-, px, py, -, -, down, index⟩ := kept.confined (a := (.framebuffer, 0)) here
  have top : (windowDcOn tallFramebuffer 0 0x40000000).clipY.toInt = 0x40000000 := by decide
  change 0 = py * 4 + px at index
  rw [top] at down
  omega

end W32k
