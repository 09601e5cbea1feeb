import Svindows.W32k.Surfaces

/-!
# Drawing in a run

A drawing service keeps its accesses inside the surface it is given: the clipped
rectangle is cut to the surface once more before any pixel is written. With the
surfaces alive, that makes every access safe.
-/

namespace W32k

theorem int32_add_eq {x y : Int32} (low : -2 ^ 31 ≤ x.toInt + y.toInt)
    (high : x.toInt + y.toInt < 2 ^ 31) : (x + y).toInt = x.toInt + y.toInt := by
  rw [Int32.toInt_add]
  exact Int.bmod_eq_of_le (by omega) (by omega)

theorem int32_sub_eq {x y : Int32} (low : -2 ^ 31 ≤ x.toInt - y.toInt)
    (high : x.toInt - y.toInt < 2 ^ 31) : (x - y).toInt = x.toInt - y.toInt := by
  rw [Int32.toInt_sub]
  exact Int.bmod_eq_of_le (by omega) (by omega)

/-- An unsigned size seen as a signed one is never larger. -/
theorem toInt32_le (w : UInt32) : w.toInt32.toInt ≤ w.toNat := by
  have same : w.toInt32.toInt = w.toBitVec.toInt := rfl
  rw [same, BitVec.toInt_eq_toNat_cond]
  have nat : w.toBitVec.toNat = w.toNat := rfl
  split
  · omega
  · omega

theorem toNat_lt_of_lt {x : Int32} {w : UInt32} (sign : 0 ≤ x.toInt)
    (below : x.toInt < w.toInt32.toInt) : x.toInt.toNat < w.toNat := by
  have size := toInt32_le w
  omega

theorem axis_start (x : Int32) : (if x < 0 then 0 else x).toInt = max x.toInt 0 := by
  have zero : (0 : Int32).toInt = 0 := rfl
  split <;> rename_i sign <;> rw [Int32.lt_iff_toInt_lt] at sign <;> omega

/-- The two cuts of `surface_fill` along an axis leave the part inside the limit. -/
theorem axis_end {x w limit : Int32} (some_ : 0 < w.toInt) (fits : x.toInt + w.toInt < 2 ^ 31)
    (inside : (if x < 0 then 0 else x).toInt < limit.toInt) :
    (if x < 0 then 0 else x).toInt +
      (if limit < (if x < 0 then 0 else x) + (if x < 0 then w + x else w) then
        limit - (if x < 0 then 0 else x)
      else (if x < 0 then w + x else w)).toInt = min (x.toInt + w.toInt) limit.toInt := by
  have lowX := x.le_toInt
  have highLimit := limit.toInt_lt
  have zero : (0 : Int32).toInt = 0 := rfl
  have from_ := axis_start x
  generalize start : (if x < 0 then 0 else x) = x₁ at *
  generalize width : (if x < 0 then w + x else w) = w₁
  have sum : x₁.toInt + w₁.toInt = x.toInt + w.toInt := by
    by_cases negative : x < 0
    · rw [if_pos negative] at start width
      rw [Int32.lt_iff_toInt_lt, zero] at negative
      subst start width
      rw [zero, int32_add_eq (by omega) (by omega)]
      omega
    · rw [if_neg negative] at start width
      subst start width
      rfl
  have total := @int32_add_eq x₁ w₁ (by omega) (by omega)
  split
  · rename_i past
    rw [Int32.lt_iff_toInt_lt, total] at past
    rw [int32_sub_eq (by omega) (by omega)]
    omega
  · rename_i within
    rw [Int32.lt_iff_toInt_lt, total] at within
    omega

theorem axis_inside {x w limit : Int32} (some_ : 0 < w.toInt) (fits : x.toInt + w.toInt < 2 ^ 31)
    (inside : (if x < 0 then 0 else x).toInt < limit.toInt) :
    0 ≤ (if x < 0 then 0 else x).toInt ∧
    (if x < 0 then 0 else x).toInt +
      (if limit < (if x < 0 then 0 else x) + (if x < 0 then w + x else w) then
        limit - (if x < 0 then 0 else x)
      else (if x < 0 then w + x else w)).toInt ≤ limit.toInt :=
  ⟨axis_start x ▸ le_max_right _ _, axis_end some_ fits inside ▸ min_le_right _ _⟩

/-- A difference never leads past the end it was taken from. -/
theorem add_sub_lt {left right : Int32} (order : left < right) :
    left.toInt + (right - left).toInt < 2 ^ 31 := by
  have lowLeft := left.le_toInt
  have highRight := right.toInt_lt
  rw [Int32.lt_iff_toInt_lt] at order
  rw [Int32.toInt_sub, Int.bmod_def]
  split
  · omega
  · omega

theorem dcClip_fits {dc : W32kDc} {x y w h x' y' w' h' : Int32}
    (clipped : dcClip dc x y w h = some (x', y', w', h')) :
    x'.toInt + w'.toInt < 2 ^ 31 ∧ y'.toInt + h'.toInt < 2 ^ 31 := by
  unfold dcClip at clipped
  dsimp only at clipped
  generalize (if dc.orgX + x < dc.clipX then dc.clipX else dc.orgX + x) = left at clipped
  generalize (if dc.orgY + y < dc.clipY then dc.clipY else dc.orgY + y) = top at clipped
  generalize (if dc.clipX + dc.clipW < dc.orgX + x + w then dc.clipX + dc.clipW
    else dc.orgX + x + w) = right at clipped
  generalize (if dc.clipY + dc.clipH < dc.orgY + y + h then dc.clipY + dc.clipH
    else dc.orgY + y + h) = bottom at clipped
  split at clipped
  · cases clipped
  · rename_i apart
    simp only [not_or, Int32.not_le] at apart
    cases clipped
    exact ⟨add_sub_lt apart.1, add_sub_lt apart.2⟩

/-- A surface that may be drawn on: its object is live, and its pixels are the
framebuffer or a block that holds all of its rows. -/
structure Usable (d : Display) (s : GdiState) (ref : SurfaceRef) : Prop where
  header : Safe s (.surface ref)
  pixels : (surfaceAt d s ref).bits = .framebuffer ∨
    ∃ bitmap b, surfaceAt d s ref = bitmap.surface ∧ Backed s bitmap b

/-- Every access so far was safe. -/
def Clean (s : GdiState) (c : Canvas) : Prop := ∀ a ∈ c.touched, Safe s a

section Usable

variable {d : Display} {s : GdiState} {ref : SurfaceRef} {c : Canvas}

theorem usable_of_alive (books : Books s) (alive : SurfacesAlive s) {i : Nat} {dc : W32kDc}
    (live : s.LiveDc i dc) (points : dc.surface = some ref) : Usable d s ref := by
  rcases alive i dc live with nothing | own | ⟨k, bitmap, b, bound, target, _, _⟩
  · rw [nothing] at points
    cases points
  · cases own.symm.trans points
    have screen := (books.screen i dc i live own).2
    refine ⟨⟨dc, live⟩, Or.inl ?_⟩
    rw [surfaceAt, live.2]
    exact screen
  · cases bound.symm.trans points
    obtain ⟨b', backed⟩ := books.bitmap k bitmap target
    refine ⟨⟨bitmap, target⟩, Or.inr ⟨bitmap, b', ?_, backed⟩⟩
    rw [surfaceAt, target.2]

/-- A position inside the surface, however its index is computed. -/
theorem Usable.pixel (usable : Usable d s ref) {x y index : Nat}
    (column : x < (surfaceAt d s ref).width.toNat) (row : y < (surfaceAt d s ref).height.toNat)
    (here : index = y * (surfaceAt d s ref).stride.toNat % 2 ^ 32 + x ∨
      index = (y * (surfaceAt d s ref).stride.toNat + x) % 2 ^ 32) :
    Safe s (.pixel (surfaceAt d s ref).bits index) := by
  rcases usable.pixels with screen | ⟨bitmap, b, same, backed⟩
  · rw [screen]
    trivial
  · rw [same] at column row here ⊢
    rw [backed.bits]
    rw [backed.stride] at here
    have wide := backed.width
    have high := backed.height
    have rows : (y + 1) * bitmap.surface.width.toNat ≤
        bitmap.surface.width.toNat * bitmap.surface.height.toNat := by
      rw [Nat.mul_comm bitmap.surface.width.toNat]
      exact Nat.mul_le_mul_right _ row
    have area : bitmap.surface.width.toNat * bitmap.surface.height.toNat ≤ 8192 * 8192 :=
      Nat.mul_le_mul wide high
    rw [Nat.add_mul, Nat.one_mul] at rows
    refine ⟨_, backed.block, ?_⟩
    rcases here with here | here
    · rw [Nat.mod_eq_of_lt (by omega)] at here
      omega
    · rw [Nat.mod_eq_of_lt (by omega)] at here
      omega

theorem Clean.look (clean : Clean s c) (usable : Usable d s ref) : Clean s (c.look ref) := by
  intro a ha
  rcases List.mem_cons.mp ha with rfl | ha
  · exact usable.header
  · exact clean a ha

theorem Clean.write (clean : Clean s c) {memory : PixelMemory} {index : Nat} {pixel : UInt32}
    (safe : Safe s (.pixel memory index)) : Clean s (c.write memory index pixel) := by
  intro a ha
  rcases List.mem_cons.mp ha with rfl | ha
  · exact safe
  · exact clean a ha

theorem Clean.read (clean : Clean s c) {memory : PixelMemory} {index : Nat}
    (safe : Safe s (.pixel memory index)) : Clean s (c.read memory index).2 := by
  intro a ha
  rcases List.mem_cons.mp ha with rfl | ha
  · exact safe
  · exact clean a ha

theorem Clean.foldl {step : Canvas → Nat → Canvas} (clean : Clean s c) (n : Nat)
    (kept : ∀ c i, i < n → Clean s c → Clean s (step c i)) :
    Clean s ((List.range n).foldl step c) :=
  List.foldlRecOn _ _ clean fun c clean i hi => kept c i (List.mem_range.mp hi) clean

theorem Usable.safe_at (usable : Usable d s ref) {x y : Int32} (left : 0 ≤ x.toInt)
    (top : 0 ≤ y.toInt) (right : x.toInt < (surfaceAt d s ref).width.toInt32.toInt)
    (bottom : y.toInt < (surfaceAt d s ref).height.toInt32.toInt) :
    Safe s (.pixel (surfaceAt d s ref).bits
      (y.toUInt32 * (surfaceAt d s ref).stride + x.toUInt32).toNat) := by
  refine usable.pixel (toNat_lt_of_lt left right) (toNat_lt_of_lt top bottom) (Or.inr ?_)
  rw [UInt32.toNat_add, UInt32.toNat_mul, toUInt32_toNat left, toUInt32_toNat top,
    Nat.mod_add_mod]

theorem surfacePixel_clean (usable : Usable d s ref) (clean : Clean s c) (x y : Int32)
    (pixel : UInt32) : Clean s (surfacePixel d s ref x y pixel c) := by
  unfold surfacePixel
  dsimp only
  split
  · exact clean.look usable
  · rename_i inside
    simp only [not_or, Int32.not_lt, Int32.not_le] at inside
    obtain ⟨_, left, top, right, bottom⟩ := inside
    exact (clean.look usable).write (usable.safe_at (Int32.le_iff_toInt_le.mp left)
      (Int32.le_iff_toInt_le.mp top) (Int32.lt_iff_toInt_lt.mp right)
      (Int32.lt_iff_toInt_lt.mp bottom))

theorem fillRows_clean (usable : Usable d s ref) (clean : Clean s c) {x y w h : Int32}
    (left : 0 ≤ x.toInt) (top : 0 ≤ y.toInt)
    (right : x.toInt + w.toInt ≤ (surfaceAt d s ref).width.toInt32.toInt)
    (bottom : y.toInt + h.toInt ≤ (surfaceAt d s ref).height.toInt32.toInt) (pixel : UInt32) :
    Clean s (fillRows (surfaceAt d s ref) x y w h pixel c) := by
  have width := toInt32_le (surfaceAt d s ref).width
  have height := toInt32_le (surfaceAt d s ref).height
  unfold fillRows
  refine clean.foldl _ ?_
  intro c row below clean
  refine clean.foldl _ ?_
  intro c col before clean
  refine clean.write (usable.pixel (x := x.toInt.toNat + col) (y := y.toInt.toNat + row)
    (by omega) (by omega) (Or.inl ?_))
  omega

theorem surfaceFill_clean (usable : Usable d s ref) (clean : Clean s c) {x y w h : Int32}
    (wide : x.toInt + w.toInt < 2 ^ 31) (high : y.toInt + h.toInt < 2 ^ 31) (pixel : UInt32) :
    Clean s (surfaceFill d s ref x y w h pixel c) := by
  have look := clean.look usable
  unfold surfaceFill
  dsimp only
  split
  · exact look
  rename_i given
  simp only [not_or, Int32.not_le, Int32.lt_iff_toInt_lt] at given
  have across := @axis_inside x w (surfaceAt d s ref).width.toInt32 given.2.1 wide
  have down := @axis_inside y h (surfaceAt d s ref).height.toInt32 given.2.2 high
  generalize (if x < 0 then 0 else x) = x₁ at across ⊢
  generalize (if x < 0 then w + x else w) = w₁ at across ⊢
  generalize (if y < 0 then 0 else y) = y₁ at down ⊢
  generalize (if y < 0 then h + y else h) = h₁ at down ⊢
  by_cases outside : (surfaceAt d s ref).width.toInt32 ≤ x₁ ∨
      (surfaceAt d s ref).height.toInt32 ≤ y₁
  · rw [if_pos outside]
    exact look
  · rw [if_neg outside]
    simp only [not_or, Int32.not_le, Int32.lt_iff_toInt_lt] at outside
    obtain ⟨left, right⟩ := across outside.1
    obtain ⟨top, bottom⟩ := down outside.2
    generalize (if (surfaceAt d s ref).width.toInt32 < x₁ + w₁ then
      (surfaceAt d s ref).width.toInt32 - x₁ else w₁) = w₂ at right ⊢
    generalize (if (surfaceAt d s ref).height.toInt32 < y₁ + h₁ then
      (surfaceAt d s ref).height.toInt32 - y₁ else h₁) = h₂ at bottom ⊢
    split
    · exact look
    · exact fillRows_clean usable look left top right bottom pixel

theorem dcFill_clean (usable : Usable d s ref) (clean : Clean s c) (dc : W32kDc)
    (x y w h : Int32) (color : UInt32) : Clean s (dcFill d s dc ref x y w h color c) := by
  unfold dcFill
  split
  · exact clean
  · rename_i clipped
    obtain ⟨wide, high⟩ := dcClip_fits clipped
    exact surfaceFill_clean usable clean wide high _

theorem dcPixel_clean (usable : Usable d s ref) (clean : Clean s c) (dc : W32kDc) (x y : Int32)
    (pixel : UInt32) : Clean s (dcPixel d s dc ref x y pixel c) := by
  unfold dcPixel
  split
  · exact clean
  · exact surfacePixel_clean usable clean _ _ pixel

theorem dcGlyph_clean (usable : Usable d s ref) (clean : Clean s c) (dc : W32kDc) (x y : Int32)
    (ch : Nat) (fg bg : UInt32) (filled : Bool) :
    Clean s (dcGlyph d s dc ref x y ch fg bg filled c) := by
  unfold dcGlyph
  generalize d.font (if 32 ≤ ch ∧ ch < 127 then ch - 32 else 0) = glyph
  refine clean.foldl _ ?_
  intro c row _ clean
  refine clean.foldl _ ?_
  intro c col _ clean
  dsimp only
  split
  · exact clean
  · exact dcPixel_clean usable clean dc _ _ _

theorem lineLoop_clean (usable : Usable d s ref) (dc : W32kDc) (x₁ y₁ dx dy sx sy : Int32)
    (pixel : UInt32) (fuel : Nat) (x₀ y₀ err : Int32) (clean : Clean s c) :
    Clean s (lineLoop d s dc ref x₁ y₁ dx dy sx sy pixel fuel x₀ y₀ err c) := by
  induction fuel generalizing x₀ y₀ err c with
  | zero => exact clean
  | succ fuel ih =>
    have drawn := dcPixel_clean usable clean dc x₀ y₀ pixel
    unfold lineLoop
    dsimp only
    split
    · exact drawn
    · exact ih _ _ _ drawn

theorem bltPixel_clean {srcRef : SurfaceRef} (usable : Usable d s ref) (source : Usable d s srcRef)
    (clean : Clean s c) (dst src : W32kDc) (x y sx sy : Int32) (row col : Nat) :
    Clean s (bltPixel d s dst ref src srcRef x y sx sy row col c) := by
  unfold bltPixel
  dsimp only
  split
  · exact clean
  rename_i sign
  simp only [not_or, Int32.not_lt, Int32.le_iff_toInt_le] at sign
  split
  · exact clean.look source
  rename_i inside
  simp only [not_or, Int32.not_le, Int32.lt_iff_toInt_lt] at inside
  have here := source.safe_at sign.1 sign.2 inside.1 inside.2
  exact dcPixel_clean usable ((clean.look source).read here) dst _ _ _

end Usable

section Services

variable {d : Display} {s : GdiState} {c : Canvas}

theorem usable_of_target (books : Books s) (alive : SurfacesAlive s) {hdc i : Nat} {dc : W32kDc}
    {ref : SurfaceRef} (found : dcTarget s hdc = some (i, dc, ref)) : Usable d s ref :=
  usable_of_alive books alive (dcTarget_some found).1 (dcTarget_some found).2

theorem patBlt_clean (books : Books s) (alive : SurfacesAlive s) (clean : Clean s c) (hdc : Nat)
    (x y w h : Int32) (rop : UInt32) : Clean s (ntGdiPatBlt d s hdc x y w h rop c).2 := by
  unfold ntGdiPatBlt
  split
  · exact clean
  · rename_i dc ref found
    dsimp only
    generalize (if rop = blackness then (0, false)
      else if rop = whiteness then (0xFFFFFF, false) else dcBrushColor d s hdc dc) = choice
    split
    · exact clean
    · exact dcFill_clean (usable_of_target books alive found) clean _ _ _ _ _ _

theorem bitBlt_clean (books : Books s) (alive : SurfacesAlive s) (clean : Clean s c) (hdc : Nat)
    (x y w h : Int32) (hsrc : Nat) (sx sy : Int32) (rop : UInt32) :
    Clean s (ntGdiBitBlt d s hdc x y w h hsrc sx sy rop c).2 := by
  unfold ntGdiBitBlt
  split
  · exact clean
  · rename_i found _
    split
    · exact dcFill_clean (usable_of_target books alive found) clean _ _ _ _ _ _
    · exact clean
  · rename_i target source
    refine clean.foldl _ ?_
    intro c row _ clean
    refine clean.foldl _ ?_
    intro c col _ clean
    exact bltPixel_clean (usable_of_target books alive target)
      (usable_of_target books alive source) clean _ _ _ _ _ _ _ _

theorem setPixel_clean (books : Books s) (alive : SurfacesAlive s) (clean : Clean s c) (hdc : Nat)
    (x y : Int32) (color : Nat) : Clean s (ntGdiSetPixel d s hdc x y color c).2 := by
  unfold ntGdiSetPixel
  split
  · exact clean
  · rename_i found
    exact dcPixel_clean (usable_of_target books alive found) clean _ _ _ _

theorem lineTo_clean (books : Books s) (alive : SurfacesAlive s) (clean : Clean s c) (hdc : Nat)
    (x y : Int32) (fuel : Nat) : Clean s (ntGdiLineTo d s hdc x y fuel c).2.2 := by
  unfold ntGdiLineTo
  split
  · exact clean
  · rename_i found
    dsimp only
    split
    · exact clean
    · exact lineLoop_clean (usable_of_target books alive found) _ _ _ _ _ _ _ _ _ _ _ _ clean

theorem rectangle_clean (books : Books s) (alive : SurfacesAlive s) (clean : Clean s c) (hdc : Nat)
    (left top right bottom : Int32) :
    Clean s (ntGdiRectangle d s hdc left top right bottom c).2 := by
  unfold ntGdiRectangle
  split
  · exact clean
  rename_i dc ref found
  have usable := @usable_of_target d s books alive _ _ _ _ found
  split
  · exact clean
  dsimp only
  generalize dcBrushColor d s hdc dc = brush
  have filled : Clean s (if brush.2 = true then c
      else dcFill d s dc ref left top (right - left) (bottom - top) brush.1 c) := by
    split
    · exact clean
    · exact dcFill_clean usable clean _ _ _ _ _ _
  generalize (if brush.2 = true then c
      else dcFill d s dc ref left top (right - left) (bottom - top) brush.1 c) = inner at filled ⊢
  split
  · exact filled
  · refine dcFill_clean usable ?_ _ _ _ _ _ _
    refine dcFill_clean usable ?_ _ _ _ _ _ _
    refine dcFill_clean usable ?_ _ _ _ _ _ _
    exact dcFill_clean usable filled _ _ _ _ _ _

theorem extTextOut_clean (books : Books s) (alive : SurfacesAlive s) (clean : Clean s c)
    (hdc : Nat) (x y : Int32) (flags text : Nat) (count : Int32) :
    Clean s (ntGdiExtTextOutW d s hdc x y flags text count c).2 := by
  unfold ntGdiExtTextOutW
  split
  · exact clean
  rename_i found
  have usable := @usable_of_target d s books alive _ _ _ _ found
  split
  · exact clean
  split
  · exact clean
  dsimp only
  refine Clean.foldl ?_ _ ?_
  · split
    · exact dcFill_clean usable clean _ _ _ _ _ _
    · exact clean
  · intro c i _ clean
    exact dcGlyph_clean usable clean _ _ _ _ _ _ _

theorem getDeviceCaps_clean (books : Books s) (alive : SurfacesAlive s) (clean : Clean s c)
    (hdc : Nat) (cap : UInt32) : Clean s (ntGdiGetDeviceCaps d s hdc cap c).2 := by
  unfold ntGdiGetDeviceCaps
  split
  · exact clean
  rename_i found
  dsimp only
  split
  · exact clean
  · rename_i points
    exact clean.look (usable_of_alive (d := d) books alive (dcFromHandle_some found) points)

theorem touched_safe (books : Books s) (alive : SurfacesAlive s) (call : GdiCall) :
    ∀ a ∈ s.touched call, Safe s a := by
  have clean : Clean s s.canvas := fun a ha => absurd ha (by simp [GdiState.canvas])
  unfold GdiState.touched
  split
  · exact fun a ha => absurd ha (by simp)
  rename_i drawn here
  suffices Clean s drawn from this
  revert here
  cases call.service with
  | patBlt hdc x y w h rop => rintro ⟨rfl⟩; exact patBlt_clean books alive clean _ _ _ _ _ _
  | bitBlt hdc x y w h hsrc sx sy rop =>
    rintro ⟨rfl⟩; exact bitBlt_clean books alive clean _ _ _ _ _ _ _ _ _
  | setPixel hdc x y color => rintro ⟨rfl⟩; exact setPixel_clean books alive clean _ _ _ _
  | lineTo hdc x y fuel => rintro ⟨rfl⟩; exact lineTo_clean books alive clean _ _ _ _
  | rectangle hdc left top right bottom =>
    rintro ⟨rfl⟩; exact rectangle_clean books alive clean _ _ _ _ _
  | extTextOut hdc x y flags text count =>
    rintro ⟨rfl⟩; exact extTextOut_clean books alive clean _ _ _ _ _ _
  | getDeviceCaps hdc cap => rintro ⟨rfl⟩; exact getDeviceCaps_clean books alive clean _ _
  | _ => rintro ⟨⟩

end Services

/-- A call that does not delete a bitmap some device context draws on. -/
def KeepsDrawn (s : GdiState) (c : GdiCall) (t : GdiState) : Prop :=
  (∀ handle, c.service = .deleteObjectApp handle → ¬ DrawnOn s handle) ∧ t = s.call c

theorem boot_books : Books bootGdi where
  bitmap _ _ live := absurd live.1 Bool.false_ne_true
  apart _ _ _ _ _ live := absurd live.1 Bool.false_ne_true
  fresh _ _ := rfl
  screen _ _ _ live := absurd live.1 Bool.false_ne_true

theorem boot_alive : SurfacesAlive bootGdi :=
  fun _ _ live => absurd live.1 Bool.false_ne_true

theorem reachable_alive {s : GdiState} (reach : Runs.Reachable (· = bootGdi) KeepsDrawn s) :
    Books s ∧ SurfacesAlive s := by
  have kept : ∀ s c t, Books s ∧ SurfacesAlive s → KeepsDrawn s c t →
      Books t ∧ SurfacesAlive t := by
    rintro s c t ⟨books, alive⟩ ⟨drawn, rfl⟩
    have change := call_change alive c drawn
    exact ⟨change.books books, change.alive books alive⟩
  exact reach.invariant (by rintro s rfl; exact ⟨boot_books, boot_alive⟩) kept

/-- The device context is still there, and the slot its surface is in is free. -/
theorem delete_leaves_dangling {s : GdiState} {d : Display} {handle : Nat}
    (drawn : DrawnOn s handle) : ¬ SurfacesAlive (s.call ⟨d, .deleteObjectApp handle⟩) := by
  obtain ⟨index₀, index₁, ⟨bitmap, target⟩, i, dc, live, points⟩ := drawn
  have objects : (s.call ⟨d, .deleteObjectApp handle⟩).objects =
      Function.update s.objects (handle % 0x10000)
        { s.objects (handle % 0x10000) with live := false } :=
    (deleteObjectApp_live index₀ index₁ target.1).1
  have elsewhere : i ≠ handle % 0x10000 := by
    rintro rfl
    cases live.2.symm.trans target.2
  intro alive
  have still : (s.call ⟨d, .deleteObjectApp handle⟩).LiveDc i dc := by
    rw [GdiState.LiveDc, objects, Function.update_of_ne elsewhere]
    exact live
  rcases alive i dc still with nothing | own | ⟨k, found, b, bound, now, _, _⟩
  · rw [nothing] at points
    cases points
  · rw [own] at points
    cases points
  · cases bound.symm.trans points
    have gone := now.1
    rw [objects, Function.update_self] at gone
    cases gone

/-- Surfaces are alive and drawing is safe in every run that deletes no bitmap a
device context draws on, and each such deletion breaks this at once. -/
theorem surfaces_stay_alive {s : GdiState} (run : Runs.Reachable (· = bootGdi) KeepsDrawn s) :
    SurfacesAlive s ∧ (∀ call, ∀ a ∈ s.touched call, Safe s a) ∧
      ∀ d handle, DrawnOn s handle → ¬ SurfacesAlive (s.call ⟨d, .deleteObjectApp handle⟩) := by
  obtain ⟨books, alive⟩ := reachable_alive run
  refine ⟨alive, touched_safe books alive, ?_⟩
  intro d handle drawn
  exact delete_leaves_dangling drawn

/-- A display without a framebuffer, as seen by a process that owns no memory. -/
def bareDisplay : Display where
  framebuffer := ⟨false, false, 0, 0, 0, 0, 0, 0⟩
  overlay _ _ := zeroSurface
  font _ _ := 0
  probeRead _ _ := false
  probeWrite _ _ := false
  word _ := 0
  dword _ := 0

/-- A memory device context with a bitmap of one pixel selected. -/
def onePixelSelected : GdiState :=
  ((bootGdi.call ⟨bareDisplay, .createCompatibleDC⟩).call
    ⟨bareDisplay, .createCompatibleBitmap 1 1 true⟩).call ⟨bareDisplay, .selectBitmap 0x10001 0x50002⟩

theorem onePixelSelected_reachable :
    Runs.Reachable (· = bootGdi) KeepsDrawn onePixelSelected := by
  have boot : Runs.Reachable (· = bootGdi) KeepsDrawn bootGdi := .of_initial rfl
  have dc := boot.next (l := ⟨bareDisplay, .createCompatibleDC⟩) ⟨by simp, rfl⟩
  have bitmap := dc.next (l := ⟨bareDisplay, .createCompatibleBitmap 1 1 true⟩) ⟨by simp, rfl⟩
  exact bitmap.next (l := ⟨bareDisplay, .selectBitmap 0x10001 0x50002⟩) ⟨by simp, rfl⟩

theorem onePixelSelected_drawnOn : DrawnOn onePixelSelected 0x50002 := by
  refine ⟨by decide, by decide, ⟨_, rfl, rfl⟩, 1, _, ⟨rfl, rfl⟩, rfl⟩

theorem surfaces_stay_alive_one_pixel :
    SurfacesAlive onePixelSelected ∧
    ¬ SurfacesAlive (onePixelSelected.call ⟨bareDisplay, .deleteObjectApp 0x50002⟩) :=
  ⟨(surfaces_stay_alive onePixelSelected_reachable).1,
    (surfaces_stay_alive onePixelSelected_reachable).2.2 _ _ onePixelSelected_drawnOn⟩

/-- Deleting the selected bitmap and setting a pixel writes to freed memory. -/
theorem pixel_set_in_freed_bitmap :
    ¬ SurfacesAlive (onePixelSelected.call ⟨bareDisplay, .deleteObjectApp 0x50002⟩) ∧
    ∃ a ∈ (onePixelSelected.call ⟨bareDisplay, .deleteObjectApp 0x50002⟩).touched
        ⟨bareDisplay, .setPixel 0x10001 0 0 0⟩,
      ¬ Safe (onePixelSelected.call ⟨bareDisplay, .deleteObjectApp 0x50002⟩) a := by
  refine ⟨delete_leaves_dangling onePixelSelected_drawnOn, .pixel (.block 0) 0, by decide, ?_⟩
  rintro ⟨bytes, held, _⟩
  have freed : (onePixelSelected.call ⟨bareDisplay, .deleteObjectApp 0x50002⟩).blocks 0 = none := by
    decide
  rw [freed] at held
  cases held

end W32k
