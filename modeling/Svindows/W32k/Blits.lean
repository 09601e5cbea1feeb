import Mathlib.Data.List.Nodup
import Mathlib.Data.Prod.Lex
import Svindows.Lib.OrderedCopies
import Svindows.W32k.Fills

/-!
# Copied rectangles

`NtGdiBitBlt` copies a rectangle pixel by pixel, row after row and from left to right,
whatever the two surfaces are. On one surface, a pixel that is copied to the right or
down may be read again further on.
-/

namespace W32k

open OrderedCopies

/-- A pixel's word, by the memory and the index in it. -/
def Canvas.cells (c : Canvas) : PixelMemory × Nat → UInt32 := fun p => c.pixels p.1 p.2

theorem Canvas.cells_write (c : Canvas) (memory : PixelMemory) (index : Nat) (pixel : UInt32) :
    (c.write memory index pixel).cells = Function.update c.cells (memory, index) pixel := by
  funext p
  obtain ⟨memory', index'⟩ := p
  by_cases here : (memory', index') = (memory, index)
  · cases here
    simp [Canvas.cells, Canvas.write]
  · rw [Function.update_of_ne here]
    by_cases same : memory' = memory
    · subst same
      have other : index' ≠ index := fun eq => here (by rw [eq])
      simp [Canvas.cells, Canvas.write, Function.update_of_ne other]
    · simp [Canvas.cells, Canvas.write, Function.update_of_ne same]

/-- A point of a surface. -/
def W32kSurface.On (surface : W32kSurface) (px py : Int) : Prop :=
  (0 ≤ px ∧ px < surface.width.toNat) ∧ 0 ≤ py ∧ py < surface.height.toNat

instance (surface : W32kSurface) (px py : Int) : Decidable (surface.On px py) :=
  inferInstanceAs (Decidable (_ ∧ _))

/-- A point of the clip box. -/
def W32kDc.InClip (dc : W32kDc) (px py : Int) : Prop :=
  (dc.clipX.toInt ≤ px ∧ px < dc.clipX.toInt + dc.clipW.toInt) ∧
    dc.clipY.toInt ≤ py ∧ py < dc.clipY.toInt + dc.clipH.toInt

instance (dc : W32kDc) (px py : Int) : Decidable (dc.InClip px py) :=
  inferInstanceAs (Decidable (_ ∧ _))

def W32kSurface.cell (surface : W32kSurface) (px py : Int) : PixelMemory × Nat :=
  (surface.bits, py.toNat * surface.stride.toNat + px.toNat)

/-- The offset that the services compute in words. -/
theorem W32kSurface.On.offset {surface : W32kSurface} (addressable : surface.Addressable)
    {x y : Int32} (on : surface.On x.toInt y.toInt) :
    (y.toUInt32 * surface.stride + x.toUInt32).toNat =
      y.toInt.toNat * surface.stride.toNat + x.toInt.toNat := by
  obtain ⟨⟨left, right⟩, top, bottom⟩ := on
  rw [UInt32.toNat_add, UInt32.toNat_mul, toUInt32_toNat left, toUInt32_toNat top,
    Nat.mod_add_mod, (addressable.place (by omega) (by omega)).2]

theorem W32kSurface.on_iff {surface : W32kSurface} (sized : surface.Sized) {x y : Int32} :
    surface.On x.toInt y.toInt ↔
      ¬ (x < 0 ∨ y < 0 ∨ surface.width.toInt32 ≤ x ∨ surface.height.toInt32 ≤ y) := by
  have zero : (0 : Int32).toInt = 0 := rfl
  simp only [W32kSurface.On, Int32.lt_iff_toInt_lt, Int32.le_iff_toInt_le, zero,
    toInt32_eq sized.width, toInt32_eq sized.height]
  omega

/-- A single point along an axis is in the clip box, where it stays, or left out. -/
theorem point_axis {org clip len x : Int32} (fits : AxisFits org clip len x 1) :
    (¬ clipHigh org clip len x 1 ≤ clipLow org clip x ↔
      clip.toInt ≤ org.toInt + x.toInt ∧ org.toInt + x.toInt < clip.toInt + len.toInt) ∧
    (clip.toInt ≤ org.toInt + x.toInt → clipLow org clip x = org + x) := by
  obtain ⟨low, high, endLow, endHigh, clipLow', clipHigh'⟩ := fits
  have one : (1 : Int32).toInt = 1 := rfl
  have start := int32_add_eq low high
  have stop : (org + x + 1).toInt = org.toInt + x.toInt + 1 := by
    rw [int32_add_eq (by omega) (by omega), start, one]
  have sum := int32_add_eq clipLow' clipHigh'
  constructor
  · simp only [clipLow, clipHigh, Int32.le_iff_toInt_le, Int32.lt_iff_toInt_lt, start, stop, sum]
    split <;> split <;> omega
  · intro after
    rw [clipLow, if_neg]
    rw [Int32.lt_iff_toInt_lt, start]
    omega

section

variable {d : Display} {s : GdiState} {ref : SurfaceRef}

/-- A pixel that is clipped on its own is written if it is in the clip box and on the surface. -/
theorem dcPixel_cells (sized : (surfaceAt d s ref).Sized)
    (addressable : (surfaceAt d s ref).Addressable) {dc : W32kDc} {x y : Int32}
    (across : AxisFits dc.orgX dc.clipX dc.clipW x 1)
    (down : AxisFits dc.orgY dc.clipY dc.clipH y 1) (pixel : UInt32) (c : Canvas) :
    (dcPixel d s dc ref x y pixel c).cells =
      if (surfaceAt d s ref).bits ≠ .null ∧
          (surfaceAt d s ref).On (dc.orgX.toInt + x.toInt) (dc.orgY.toInt + y.toInt) ∧
          dc.InClip (dc.orgX.toInt + x.toInt) (dc.orgY.toInt + y.toInt) then
        Function.update c.cells
          ((surfaceAt d s ref).cell (dc.orgX.toInt + x.toInt) (dc.orgY.toInt + y.toInt)) pixel
      else c.cells := by
  have startX := int32_add_eq across.low across.high
  have startY := int32_add_eq down.low down.high
  obtain ⟨visibleX, leftX⟩ := point_axis across
  obtain ⟨visibleY, leftY⟩ := point_axis down
  rw [dcPixel, dcClip_eq]
  by_cases inside : dc.InClip (dc.orgX.toInt + x.toInt) (dc.orgY.toInt + y.toInt)
  · rw [if_neg (not_or.mpr ⟨visibleX.mpr inside.1, visibleY.mpr inside.2⟩)]
    dsimp only
    rw [leftX inside.1.1, leftY inside.2.1, surfacePixel]
    have on := W32kSurface.on_iff sized (x := dc.orgX + x) (y := dc.orgY + y)
    by_cases bits : (surfaceAt d s ref).bits = .null
    · rw [if_pos (.inl bits), if_neg (fun all => all.1 bits)]
      rfl
    · by_cases lies : (surfaceAt d s ref).On (dc.orgX + x).toInt (dc.orgY + y).toInt
      · rw [if_neg (not_or.mpr ⟨bits, on.mp lies⟩), Canvas.cells_write, lies.offset addressable]
        rw [startX, startY] at lies ⊢
        rw [if_pos ⟨bits, lies, inside⟩]
        rfl
      · rw [if_pos (.inr (not_not.mp (mt on.mpr lies)))]
        rw [startX, startY] at lies
        rw [if_neg fun all => lies all.2.1]
        rfl
  · have hidden : clipHigh dc.orgX dc.clipX dc.clipW x 1 ≤ clipLow dc.orgX dc.clipX x ∨
        clipHigh dc.orgY dc.clipY dc.clipH y 1 ≤ clipLow dc.orgY dc.clipY y := by
      by_contra visible
      obtain ⟨shownX, shownY⟩ := not_or.mp visible
      exact inside ⟨visibleX.mp shownX, visibleY.mp shownY⟩
    rw [if_pos hidden, if_neg fun all => inside all.2.2]

end

/-- The arguments of a copy, with the two surfaces. -/
structure Blit where
  dst : W32kDc
  src : W32kDc
  target : W32kSurface
  source : W32kSurface
  x : Int32
  y : Int32
  w : Int32
  h : Int32
  sx : Int32
  sy : Int32

namespace Blit

def toX (b : Blit) (col : Nat) : Int := b.dst.orgX.toInt + (b.x.toInt + col)
def toY (b : Blit) (row : Nat) : Int := b.dst.orgY.toInt + (b.y.toInt + row)
def fromX (b : Blit) (col : Nat) : Int := b.src.orgX.toInt + b.sx.toInt + col
def fromY (b : Blit) (row : Nat) : Int := b.src.orgY.toInt + b.sy.toInt + row

/-- The rows and columns, in the order of the loops. -/
def points (b : Blit) : List (Nat × Nat) :=
  (List.range b.h.toInt.toNat).flatMap fun row => (List.range b.w.toInt.toNat).map (row, ·)

/-- The destination pixel is on its surface and in the clip box, and the source point is on
its surface. -/
def Copied (b : Blit) (p : Nat × Nat) : Prop :=
  b.source.On (b.fromX p.2) (b.fromY p.1) ∧ b.target.bits ≠ .null ∧
    b.target.On (b.toX p.2) (b.toY p.1) ∧ b.dst.InClip (b.toX p.2) (b.toY p.1)

instance (b : Blit) (p : Nat × Nat) : Decidable (b.Copied p) :=
  inferInstanceAs (Decidable (_ ∧ _))

def dest (b : Blit) (p : Nat × Nat) : PixelMemory × Nat := b.target.cell (b.toX p.2) (b.toY p.1)

def origin (b : Blit) (p : Nat × Nat) : PixelMemory × Nat :=
  b.source.cell (b.fromX p.2) (b.fromY p.1)

/-- The sums of the copy are 32-bit numbers, and so are the offsets of its pixels. -/
structure Fits (b : Blit) : Prop where
  target : b.target.Sized ∧ b.target.Addressable
  source : b.source.Sized ∧ b.source.Addressable
  toX : ∀ col < b.w.toInt.toNat, b.x.toInt + col < 2 ^ 31 ∧
    AxisFits b.dst.orgX b.dst.clipX b.dst.clipW (b.x + Int32.ofNat col) 1
  toY : ∀ row < b.h.toInt.toNat, b.y.toInt + row < 2 ^ 31 ∧
    AxisFits b.dst.orgY b.dst.clipY b.dst.clipH (b.y + Int32.ofNat row) 1
  fromX : ∀ col < b.w.toInt.toNat, (-2 ^ 31 ≤ b.src.orgX.toInt + b.sx.toInt ∧
    b.src.orgX.toInt + b.sx.toInt < 2 ^ 31) ∧ b.fromX col < 2 ^ 31
  fromY : ∀ row < b.h.toInt.toNat, (-2 ^ 31 ≤ b.src.orgY.toInt + b.sy.toInt ∧
    b.src.orgY.toInt + b.sy.toInt < 2 ^ 31) ∧ b.fromY row < 2 ^ 31

/-- Every pixel of the destination has the value that its source pixel had before, and all
other pixels stay as they are. -/
structure Simultaneous (b : Blit) (before after : PixelMemory × Nat → UInt32) : Prop where
  copied : ∀ p ∈ b.points, b.Copied p → after (b.dest p) = before (b.origin p)
  kept : ∀ cell, (∀ p ∈ b.points, b.Copied p → b.dest p ≠ cell) → after cell = before cell

end Blit

theorem Blit.mem_points {b : Blit} {p : Nat × Nat} :
    p ∈ b.points ↔ p.1 < b.h.toInt.toNat ∧ p.2 < b.w.toInt.toNat := by
  obtain ⟨row, col⟩ := p
  simp [Blit.points]

theorem Blit.points_sorted (b : Blit) : b.points.Pairwise (Prod.Lex (· < ·) (· < ·)) := by
  rw [Blit.points, List.pairwise_flatMap]
  constructor
  · intro row _
    rw [List.pairwise_map]
    exact List.pairwise_lt_range.imp fun less => .right row less
  · refine List.pairwise_lt_range.imp fun {row row'} less p mem q mem' => ?_
    obtain ⟨col, -, rfl⟩ := List.mem_map.mp mem
    obtain ⟨col', -, rfl⟩ := List.mem_map.mp mem'
    exact .left col col' less

/-- Two points of surfaces with rows of one length have one cell only if they are the same. -/
theorem W32kSurface.cell_inj {surface surface' : W32kSurface} (sized : surface.Sized)
    (sized' : surface'.Sized) (stride : surface'.stride = surface.stride) {px py px' py' : Int}
    (on : surface.On px py) (on' : surface'.On px' py')
    (same : surface.cell px py = surface'.cell px' py') : px = px' ∧ py = py' := by
  obtain ⟨⟨left, right⟩, top, -⟩ := on
  obtain ⟨⟨left', right'⟩, top', -⟩ := on'
  have wide := sized.stride
  have wide' := sized'.stride
  rw [W32kSurface.cell, W32kSurface.cell, stride] at same
  rw [stride] at wide'
  have offsets : py.toNat * surface.stride.toNat + px.toNat =
      py'.toNat * surface.stride.toNat + px'.toNat := congrArg Prod.snd same
  have column := congrArg (· % surface.stride.toNat) offsets
  rw [Nat.mul_add_mod', Nat.mul_add_mod', Nat.mod_eq_of_lt (by omega),
    Nat.mod_eq_of_lt (by omega)] at column
  rw [column, Nat.add_right_cancel_iff] at offsets
  have row := Nat.eq_of_mul_eq_mul_right (by omega : 0 < surface.stride.toNat) offsets
  omega

section

variable {d : Display} {s : GdiState} {dstRef srcRef : SurfaceRef} {b : Blit}

/-- One turn of the loops copies one pixel, or none. -/
theorem bltPixel_cells (fits : b.Fits) (target : surfaceAt d s dstRef = b.target)
    (source : surfaceAt d s srcRef = b.source) {p : Nat × Nat} (mem : p ∈ b.points) (c : Canvas) :
    (bltPixel d s b.dst dstRef b.src srcRef b.x b.y b.sx b.sy p.1 p.2 c).cells =
      if b.Copied p then Function.update c.cells (b.dest p) (c.cells (b.origin p))
      else c.cells := by
  obtain ⟨inRow, inCol⟩ := Blit.mem_points.mp mem
  obtain ⟨endX, across⟩ := fits.toX p.2 inCol
  obtain ⟨endY, down⟩ := fits.toY p.1 inRow
  obtain ⟨⟨lowX, highX⟩, farX⟩ := fits.fromX p.2 inCol
  obtain ⟨⟨lowY, highY⟩, farY⟩ := fits.fromY p.1 inRow
  have wide := b.w.toInt_lt
  have high := b.h.toInt_lt
  have col : (Int32.ofNat p.2).toInt = p.2 := Int32.toInt_ofNat_of_lt (by omega)
  have row : (Int32.ofNat p.1).toInt = p.1 := Int32.toInt_ofNat_of_lt (by omega)
  have fromX : (b.src.orgX + b.sx + Int32.ofNat p.2).toInt = b.fromX p.2 := by
    rw [Blit.fromX] at farX ⊢
    have base := int32_add_eq lowX highX
    rw [int32_add_eq (by omega) (by omega), base, col]
  have fromY : (b.src.orgY + b.sy + Int32.ofNat p.1).toInt = b.fromY p.1 := by
    rw [Blit.fromY] at farY ⊢
    have base := int32_add_eq lowY highY
    rw [int32_add_eq (by omega) (by omega), base, row]
  have lowX := b.x.le_toInt
  have lowY := b.y.le_toInt
  have toX : b.dst.orgX.toInt + (b.x + Int32.ofNat p.2).toInt = b.toX p.2 := by
    rw [Blit.toX, int32_add_eq (by omega) (by omega), col]
  have toY : b.dst.orgY.toInt + (b.y + Int32.ofNat p.1).toInt = b.toY p.1 := by
    rw [Blit.toY, int32_add_eq (by omega) (by omega), row]
  have on := W32kSurface.on_iff fits.source.1 (x := b.src.orgX + b.sx + Int32.ofNat p.2)
    (y := b.src.orgY + b.sy + Int32.ofNat p.1)
  rw [bltPixel, source]
  dsimp only
  by_cases lies : b.source.On (b.fromX p.2) (b.fromY p.1)
  · rw [← fromX, ← fromY] at lies
    obtain ⟨signs, inside⟩ := not_or.mp (mt or_assoc.mp (on.mp lies))
    rw [if_neg signs, if_neg inside]
    dsimp only [Canvas.read]
    rw [dcPixel_cells (by rw [target]; exact fits.target.1) (by rw [target]; exact fits.target.2)
      across down, target, toX, toY, lies.offset fits.source.2, fromX, fromY]
    rw [fromX, fromY] at lies
    by_cases copied : b.Copied p
    · rw [if_pos copied, if_pos copied.2]
      rfl
    · rw [if_neg copied, if_neg fun rest => copied ⟨lies, rest⟩]
      rfl
  · have left : ¬ b.Copied p := fun copied => lies copied.1
    rw [← fromX, ← fromY] at lies
    by_cases signs : b.src.orgX + b.sx + Int32.ofNat p.2 < 0 ∨
        b.src.orgY + b.sy + Int32.ofNat p.1 < 0
    · rw [if_pos signs, if_neg left]
    · have outside := (or_assoc.mpr (not_not.mp (mt on.mpr lies))).resolve_left signs
      rw [if_neg signs, if_pos outside, if_neg left]
      rfl

theorem bltLoops_cells (fits : b.Fits) (target : surfaceAt d s dstRef = b.target)
    (source : surfaceAt d s srcRef = b.source) (c : Canvas) :
    ((List.range b.h.toInt.toNat).foldl (fun c row =>
      (List.range b.w.toInt.toNat).foldl (fun c col =>
        bltPixel d s b.dst dstRef b.src srcRef b.x b.y b.sx b.sy row col c) c) c).cells =
      copyAll ((b.points.filter (b.Copied ·)).map fun p => ⟨b.dest p, b.origin p⟩) c.cells := by
  have all (l : List (Nat × Nat)) (c : Canvas) (inside : ∀ p ∈ l, p ∈ b.points) :
      (l.foldl (fun c p =>
        bltPixel d s b.dst dstRef b.src srcRef b.x b.y b.sx b.sy p.1 p.2 c) c).cells =
        copyAll ((l.filter (b.Copied ·)).map fun p => ⟨b.dest p, b.origin p⟩) c.cells := by
    induction l generalizing c with
    | nil => rfl
    | cons p l ih =>
      rw [List.foldl_cons, ih _ fun q mem => inside q (List.mem_cons_of_mem p mem),
        bltPixel_cells fits target source (inside p List.mem_cons_self), List.filter_cons]
      by_cases copied : b.Copied p
      · rw [if_pos copied, if_pos (decide_eq_true copied), List.map_cons, copyAll_cons]
      · rw [if_neg copied, if_neg (by rwa [decide_eq_true_eq])]
  rw [← all b.points c fun p mem => mem, Blit.points, List.foldl_flatMap]
  simp only [List.foldl_map]

end

section

variable {d : Display} {s : GdiState} {hdc hsrc i j : Nat} {dstRef srcRef : SurfaceRef} {b : Blit}

theorem Blit.dest_inj (fits : b.Fits) {p q : Nat × Nat} (copied : b.Copied p)
    (copied' : b.Copied q) (same : b.dest p = b.dest q) : p = q := by
  obtain ⟨x, y⟩ := W32kSurface.cell_inj fits.target.1 fits.target.1 rfl copied.2.2.1
    copied'.2.2.1 same
  rw [Blit.toX, Blit.toX] at x
  rw [Blit.toY, Blit.toY] at y
  exact Prod.ext (by omega) (by omega)

/-- No pixel that is read after it was written was changed by that. -/
def Blit.Undisturbed (b : Blit) (before : PixelMemory × Nat → UInt32) : Prop :=
  ∀ p ∈ b.points, ∀ q ∈ b.points, Prod.Lex (· < ·) (· < ·) p q → b.Copied p → b.Copied q →
    b.origin q = b.dest p → before (b.origin p) = before (b.dest p)

theorem Blit.simultaneous_iff (fits : b.Fits) (m : PixelMemory × Nat → UInt32) :
    b.Simultaneous m
        (copyAll ((b.points.filter (b.Copied ·)).map fun p => ⟨b.dest p, b.origin p⟩) m) ↔
      b.Undisturbed m := by
  have sorted : (b.points.filter (b.Copied ·)).Pairwise (Prod.Lex (· < ·) (· < ·)) :=
    b.points_sorted.filter _
  have mem (p : Nat × Nat) : p ∈ b.points.filter (b.Copied ·) ↔ p ∈ b.points ∧ b.Copied p := by
    rw [List.mem_filter, decide_eq_true_eq]
  have nodup : (((b.points.filter (b.Copied ·)).map fun p =>
      (⟨b.dest p, b.origin p⟩ : Copy _)).map Copy.dest).Nodup := by
    rw [List.map_map]
    refine List.Nodup.map_on (fun p inP q inQ same => ?_) (sorted.imp fun less => ?_)
    · exact b.dest_inj fits ((mem p).mp inP).2 ((mem q).mp inQ).2 same
    · rintro rfl
      rcases less with less | less <;> omega
  have frame (cell : PixelMemory × Nat)
      (other : ∀ p ∈ b.points, b.Copied p → b.dest p ≠ cell) :
      copyAll ((b.points.filter (b.Copied ·)).map fun p => ⟨b.dest p, b.origin p⟩) m cell =
        m cell := by
    refine copyAll_other fun c inC => ?_
    obtain ⟨p, inP, rfl⟩ := List.mem_map.mp inC
    exact other p ((mem p).mp inP).1 ((mem p).mp inP).2
  have asymm (p q : Nat × Nat) (less : Prod.Lex (· < ·) (· < ·) p q) :
      ¬ Prod.Lex (· < ·) (· < ·) q p := by
    simp only [Prod.lex_def] at less ⊢
    omega
  have ordered := copyAll_iff (m := m) nodup
  rw [OrderedCopies.Undisturbed, List.pairwise_map, pairwise_iff_of_strict asymm sorted] at ordered
  constructor
  · intro simultaneous p inP q inQ less copied copied' reads
    refine ordered.mp (fun c inC => ?_) p ((mem p).mpr ⟨inP, copied⟩) q
      ((mem q).mpr ⟨inQ, copied'⟩) less reads
    obtain ⟨r, inR, rfl⟩ := List.mem_map.mp inC
    exact simultaneous.copied r ((mem r).mp inR).1 ((mem r).mp inR).2
  · intro undisturbed
    refine ⟨fun p inP copied => ?_, frame⟩
    refine ordered.mpr (fun p inP q inQ less reads => ?_) ⟨b.dest p, b.origin p⟩
      (List.mem_map_of_mem ((mem p).mpr ⟨inP, copied⟩))
    exact undisturbed p ((mem p).mp inP).1 q ((mem q).mp inQ).1 less ((mem p).mp inP).2
      ((mem q).mp inQ).2 reads

/-- Nothing is disturbed between two memories, or by a copy upwards, or to the left in the
same rows. -/
theorem Blit.undisturbed_of_order (fits : b.Fits) (m : PixelMemory × Nat → UInt32)
    (order : b.source.bits ≠ b.target.bits ∨ b.source.stride = b.target.stride ∧
      (b.toY 0 < b.fromY 0 ∨ b.toY 0 = b.fromY 0 ∧ b.toX 0 ≤ b.fromX 0)) :
    b.Undisturbed m := by
  intro p _ q _ less copied copied' reads
  rcases order with apart | ⟨stride, before⟩
  · exact absurd (congrArg Prod.fst reads) apart
  · obtain ⟨x, y⟩ := W32kSurface.cell_inj fits.target.1 fits.source.1 stride copied.2.2.1
      copied'.1 reads.symm
    rw [Blit.toX, Blit.fromX] at x before
    rw [Blit.toY, Blit.fromY] at y
    rw [Blit.toY, Blit.fromY] at before
    simp only [Prod.lex_def] at less
    omega

/-- A copy has the effect of copying all pixels at once if and only if it changes none that it
reads later. -/
theorem bitBlt_simultaneous (dst : dcTarget s hdc = some (i, b.dst, dstRef))
    (src : dcTarget s hsrc = some (j, b.src, srcRef)) (target : surfaceAt d s dstRef = b.target)
    (source : surfaceAt d s srcRef = b.source) (fits : b.Fits) (rop : UInt32) (c : Canvas) :
    b.Simultaneous c.cells
        (ntGdiBitBlt d s hdc b.x b.y b.w b.h hsrc b.sx b.sy rop c).2.cells ↔
      b.Undisturbed c.cells := by
  rw [← b.simultaneous_iff fits, ← bltLoops_cells fits target source, ntGdiBitBlt, dst, src]

end

/-- A copy inside the window at the corner of the screen. -/
def windowBlit (x y w h sx sy : Int32) : Blit where
  dst := windowDcOn vgaFramebuffer 0 0
  src := windowDcOn vgaFramebuffer 0 0
  target := screenSurface vgaFramebuffer
  source := screenSurface vgaFramebuffer
  x := x
  y := y
  w := w
  h := h
  sx := sx
  sy := sy

theorem vgaScreen_fits :
    (screenSurface vgaFramebuffer).Sized ∧ (screenSurface vgaFramebuffer).Addressable :=
  ⟨⟨by decide, by decide, by decide⟩, screenSurface_addressable (by decide) (by decide)⟩

/-- Three by two pixels copied one to the left, over two thirds of themselves. -/
theorem bitBlt_simultaneous_left :
    (windowBlit 0 0 3 2 1 0).Simultaneous (fun p => UInt32.ofNat p.2)
      (ntGdiBitBlt bareDisplay (windowOn vgaFramebuffer 0 0) 0x10001 0 0 3 2 0x10001 1 0 0x00CC0020
        (blank fun _ index => UInt32.ofNat index)).2.cells := by
  have target : dcTarget (windowOn vgaFramebuffer 0 0) 0x10001 =
      some (1, windowDcOn vgaFramebuffer 0 0, .screen 1) := rfl
  have fits : (windowBlit 0 0 3 2 1 0).Fits := by
    refine ⟨vgaScreen_fits, vgaScreen_fits, ?_, ?_, by decide, by decide⟩
    all_goals
      intro n lt
      have lt : n < 3 := lt.trans_le (by decide)
      obtain rfl | rfl | rfl : n = 0 ∨ n = 1 ∨ n = 2 := by omega
      all_goals
        exact ⟨by decide, by decide, by decide, by decide, by decide, by decide, by decide⟩
  have left := Blit.undisturbed_of_order fits (fun p => UInt32.ofNat p.2)
    (.inr ⟨rfl, .inr ⟨by decide, by decide⟩⟩)
  exact (bitBlt_simultaneous target target rfl rfl fits 0x00CC0020
    (blank fun _ index => UInt32.ofNat index)).mpr left

/-- Two pixels copied one to the right: the first is copied over the second before that is
read. -/
theorem copy_right_smears : ¬ (windowBlit 1 0 2 1 0 0).Simultaneous
    (fun p => if p.2 = 0 then 7 else 0)
    (ntGdiBitBlt bareDisplay (windowOn vgaFramebuffer 0 0) 0x10001 1 0 2 1 0x10001 0 0 0x00CC0020
      (blank fun _ index => if index = 0 then 7 else 0)).2.cells := by
  intro simultaneous
  have second := simultaneous.copied (0, 1) (by decide) (by decide)
  exact absurd second (by decide)

end W32k
