import Svindows.Lib.ByteMemory
import Svindows.W32k.Drawing

/-!
# Where the drawing services look up colours

A device context keeps its colours in an attribute block in memory that the
client writes. The kernel finds the block through the cell of the handle, and the
client can write the cell as well: the address that `dc_attr` returns is whatever
was stored there last. The services below are given any table of such addresses.
-/

namespace W32k

open ByteMemory Nt

/-- The pointers to attribute blocks, as the client left them in the shared table. -/
def GdiState.stored (s : GdiState) (table : Nat → UInt64) : GdiState :=
  { s with cells := fun i => { s.cells i with userInfo := (table i).toNat } }

/-- The memory that colours are read from. -/
def Display.over (d : Display) (m : Memory) : Display :=
  { d with dword := fun a => UInt32.ofNat (load m a 4) }

/-- The four bytes at `a` are in the attribute arena. -/
def InAttrArena (a : Nat) : Prop := gdiAttrVa ≤ a ∧ a + 4 ≤ gdiAttrVa + gdiAttrSize

/-- The memories hold the same bytes in the attribute arena. -/
def SameArena (m m' : Memory) : Prop :=
  ∀ a, gdiAttrVa ≤ a → a < gdiAttrVa + gdiAttrSize → m' a = m a

inductive DrawCall where
  | extTextOut (hdc : Nat) (x y : Int32) (flags text : Nat) (count : Int32)
  | patBlt (hdc : Nat) (x y w h : Int32) (rop : UInt32)
  | lineTo (hdc : Nat) (x y : Int32)
  | rectangle (hdc : Nat) (left top right bottom : Int32)

def DrawCall.hdc : DrawCall → Nat
  | .extTextOut hdc .. => hdc
  | .patBlt hdc .. => hdc
  | .lineTo hdc .. => hdc
  | .rectangle hdc .. => hdc

/-- The canvas after the service; `fuel` bounds the pixels of a line. -/
def DrawCall.draw (d : Display) (s : GdiState) (fuel : Nat) (c : Canvas) : DrawCall → Canvas
  | .extTextOut hdc x y flags text count => (ntGdiExtTextOutW d s hdc x y flags text count c).2
  | .patBlt hdc x y w h rop => (ntGdiPatBlt d s hdc x y w h rop c).2
  | .lineTo hdc x y => (ntGdiLineTo d s hdc x y fuel c).2.2
  | .rectangle hdc left top right bottom => (ntGdiRectangle d s hdc left top right bottom c).2

/-- The offset that `dc_brush_color` reads when no brush is selected. -/
def brushFields (s : GdiState) (dc : W32kDc) : List Nat :=
  if (gdiObject s dc.selectedBrush (some .brush)).isSome then [] else [0x30]

def penFields (s : GdiState) (dc : W32kDc) : List Nat :=
  if (gdiObject s dc.selectedPen (some .pen)).isSome then [] else [0x38]

/-- The fields of the attribute block that the service looks up. -/
def DrawCall.fields (d : Display) (s : GdiState) : DrawCall → List Nat
  | .extTextOut hdc _ _ _ text count =>
    match dcTarget s hdc with
    | none => []
    | some _ =>
      if count < 0 ∨ 4096 < count then []
      else if count ≠ 0 ∧ (text = 0 ∨ d.probeRead text (count.toInt.toNat * 2) = false) then []
      else [0x28, 0x20]
  | .patBlt hdc _ _ _ _ rop =>
    match dcTarget s hdc with
    | none => []
    | some (_, dc, _) => if rop = blackness ∨ rop = whiteness then [] else brushFields s dc
  | .lineTo hdc _ _ =>
    match dcTarget s hdc with
    | none => []
    | some (_, dc, _) => penFields s dc
  | .rectangle hdc left top right bottom =>
    match dcTarget s hdc with
    | none => []
    | some (_, dc, _) =>
      if right < left ∨ bottom < top then [] else brushFields s dc ++ penFields s dc

/-- The addresses of the four-byte reads of the service's colour look-ups. -/
def DrawCall.reads (d : Display) (s : GdiState) (call : DrawCall) : List Nat :=
  if dcAttr s call.hdc = 0 then []
  else (call.fields d s).map fun field => wrap64 (dcAttr s call.hdc + field)

/-- Colours are read inside the attribute arena, and nothing outside it is seen in the pixels. -/
structure ColoursConfined (d : Display) (s : GdiState) (call : DrawCall) : Prop where
  reads : ∀ a ∈ call.reads d s, InAttrArena a
  pixels : ∀ m m', SameArena m m' → ∀ fuel c,
    call.draw (d.over m') s fuel c = call.draw (d.over m) s fuel c

section

variable {d : Display} {s : GdiState} {m m' : Memory}

theorem attrColor_congr {hdc offset : Nat} {default : UInt32}
    (same : dcAttr s hdc ≠ 0 →
      load m' (wrap64 (dcAttr s hdc + offset)) 4 = load m (wrap64 (dcAttr s hdc + offset)) 4) :
    attrColor (d.over m') s hdc offset default = attrColor (d.over m) s hdc offset default := by
  unfold attrColor
  split
  · rfl
  · rename_i some_
    simp only [Display.over, same some_]

/-- The memories hold the same at the fields of the block of `hdc`. -/
def SameFields (s : GdiState) (hdc : Nat) (m m' : Memory) (fields : List Nat) : Prop :=
  dcAttr s hdc ≠ 0 → ∀ field ∈ fields,
    load m' (wrap64 (dcAttr s hdc + field)) 4 = load m (wrap64 (dcAttr s hdc + field)) 4

theorem dcBrushColor_congr {hdc : Nat} {dc : W32kDc} (same : SameFields s hdc m m' (brushFields s dc)) :
    dcBrushColor (d.over m') s hdc dc = dcBrushColor (d.over m) s hdc dc := by
  unfold dcBrushColor
  cases selected : gdiObject s dc.selectedBrush (some .brush) with
  | none =>
    have field : brushFields s dc = [0x30] := by simp [brushFields, selected]
    rw [field] at same
    simp only [Option.map_none]
    rw [attrColor_congr fun some_ => same some_ 0x30 (by simp)]
  | some i =>
    obtain ⟨-, type⟩ := gdiObject_some selected
    simp only [Option.map_some]
    cases body : (s.objects i).body with
    | brush brush => rfl
    | _ => rw [body] at type; cases type

theorem dcPenColor_congr {hdc : Nat} {dc : W32kDc} (same : SameFields s hdc m m' (penFields s dc)) :
    dcPenColor (d.over m') s hdc dc = dcPenColor (d.over m) s hdc dc := by
  unfold dcPenColor
  cases selected : gdiObject s dc.selectedPen (some .pen) with
  | none =>
    have field : penFields s dc = [0x38] := by simp [penFields, selected]
    rw [field] at same
    simp only [Option.map_none]
    rw [attrColor_congr fun some_ => same some_ 0x38 (by simp)]
  | some i =>
    obtain ⟨-, type⟩ := gdiObject_some selected
    simp only [Option.map_some]
    cases body : (s.objects i).body with
    | pen pen => rfl
    | _ => rw [body] at type; cases type

theorem lineLoop_over (dc : W32kDc) (ref : SurfaceRef) (x₁ y₁ dx dy sx sy : Int32) (pixel : UInt32)
    (fuel : Nat) (x₀ y₀ err : Int32) (c : Canvas) :
    lineLoop (d.over m) s dc ref x₁ y₁ dx dy sx sy pixel fuel x₀ y₀ err c =
      lineLoop d s dc ref x₁ y₁ dx dy sx sy pixel fuel x₀ y₀ err c := by
  induction fuel generalizing x₀ y₀ err c with
  | zero => rfl
  | succ fuel ih =>
    have pixel_eq : dcPixel (d.over m) s dc ref x₀ y₀ pixel c = dcPixel d s dc ref x₀ y₀ pixel c := rfl
    simp only [lineLoop, pixel_eq, ih]

theorem SameFields.mono {hdc : Nat} {fields fields' : List Nat}
    (same : SameFields s hdc m m' fields') (sub : ∀ field ∈ fields, field ∈ fields') :
    SameFields s hdc m m' fields :=
  fun some_ field member => same some_ field (sub field member)

theorem extTextOut_congr {hdc : Nat} {x y : Int32} {flags text : Nat} {count : Int32}
    (same : SameFields s hdc m m' ((DrawCall.extTextOut hdc x y flags text count).fields d s))
    (c : Canvas) :
    ntGdiExtTextOutW (d.over m') s hdc x y flags text count c =
      ntGdiExtTextOutW (d.over m) s hdc x y flags text count c := by
  simp only [DrawCall.fields] at same
  unfold ntGdiExtTextOutW
  cases target : dcTarget s hdc with
  | none => rfl
  | some found =>
    obtain ⟨i, dc, ref⟩ := found
    simp only [target] at same ⊢
    split
    · rfl
    · rename_i counted
      rw [if_neg counted] at same
      by_cases refused : count ≠ 0 ∧ (text = 0 ∨ d.probeRead text (count.toInt.toNat * 2) = false)
      · exact (if_pos refused).trans (if_pos refused).symm
      · rw [if_neg refused] at same
        refine (if_neg refused).trans (Eq.trans ?_ (if_neg refused).symm)
        have text_eq : dcTextColor (d.over m') s hdc = dcTextColor (d.over m) s hdc :=
          attrColor_congr fun some_ => same some_ 0x28 (by simp)
        have bk_eq : dcBkColor (d.over m') s hdc = dcBkColor (d.over m) s hdc :=
          attrColor_congr fun some_ => same some_ 0x20 (by simp)
        rw [text_eq, bk_eq]
        rfl

theorem patBlt_congr {hdc : Nat} {x y w h : Int32} {rop : UInt32}
    (same : SameFields s hdc m m' ((DrawCall.patBlt hdc x y w h rop).fields d s)) (c : Canvas) :
    ntGdiPatBlt (d.over m') s hdc x y w h rop c = ntGdiPatBlt (d.over m) s hdc x y w h rop c := by
  simp only [DrawCall.fields] at same
  unfold ntGdiPatBlt
  cases target : dcTarget s hdc with
  | none => rfl
  | some found =>
    obtain ⟨i, dc, ref⟩ := found
    simp only [target] at same ⊢
    by_cases black : rop = blackness
    · simp only [if_pos black]
      rfl
    · by_cases white : rop = whiteness
      · simp only [if_neg black, if_pos white]
        rfl
      · rw [if_neg (by simp [black, white])] at same
        simp only [if_neg black, if_neg white, dcBrushColor_congr same]
        rfl

theorem lineTo_congr {hdc : Nat} {x y : Int32}
    (same : SameFields s hdc m m' ((DrawCall.lineTo hdc x y).fields d s)) (fuel : Nat) (c : Canvas) :
    ntGdiLineTo (d.over m') s hdc x y fuel c = ntGdiLineTo (d.over m) s hdc x y fuel c := by
  simp only [DrawCall.fields] at same
  unfold ntGdiLineTo
  cases target : dcTarget s hdc with
  | none => rfl
  | some found =>
    obtain ⟨i, dc, ref⟩ := found
    simp only [target] at same ⊢
    simp only [dcPenColor_congr same, lineLoop_over]
    rfl

theorem rectangle_congr {hdc : Nat} {left top right bottom : Int32}
    (same : SameFields s hdc m m' ((DrawCall.rectangle hdc left top right bottom).fields d s))
    (c : Canvas) :
    ntGdiRectangle (d.over m') s hdc left top right bottom c =
      ntGdiRectangle (d.over m) s hdc left top right bottom c := by
  simp only [DrawCall.fields] at same
  unfold ntGdiRectangle
  cases target : dcTarget s hdc with
  | none => rfl
  | some found =>
    obtain ⟨i, dc, ref⟩ := found
    simp only [target] at same ⊢
    split
    · rfl
    · rename_i ordered
      rw [if_neg ordered] at same
      rw [dcBrushColor_congr (same.mono fun _ => List.mem_append_left _),
        dcPenColor_congr (same.mono fun _ => List.mem_append_right _)]
      rfl

/-- A service draws the same where the memories agree on what it reads. -/
theorem draw_congr {call : DrawCall} (same : SameFields s call.hdc m m' (call.fields d s))
    (fuel : Nat) (c : Canvas) :
    call.draw (d.over m') s fuel c = call.draw (d.over m) s fuel c := by
  cases call with
  | extTextOut => exact congrArg Prod.snd (extTextOut_congr same c)
  | patBlt => exact congrArg Prod.snd (patBlt_congr same c)
  | lineTo => exact congrArg (fun r => r.2.2) (lineTo_congr same fuel c)
  | rectangle => exact congrArg Prod.snd (rectangle_congr same c)

end

/-- The fields that the service looks up are in the arena, at the block that the cell points to. -/
def BlockInArena (d : Display) (s : GdiState) (call : DrawCall) : Prop :=
  dcAttr s call.hdc = 0 ∨ ∀ field ∈ call.fields d s,
    gdiAttrVa ≤ dcAttr s call.hdc + field ∧ dcAttr s call.hdc + field + 4 ≤ gdiAttrVa + gdiAttrSize

theorem dcAttr_stored_lt (s : GdiState) (table : Nat → UInt64) (hdc : Nat) :
    dcAttr (s.stored table) hdc < 2 ^ 64 := by
  simp only [dcAttr]
  split
  · decide
  · exact (table (hdc % 0x10000)).toNat_lt

theorem fields_lt {d : Display} {s : GdiState} {call : DrawCall} {field : Nat}
    (member : field ∈ call.fields d s) : field < 0x3C := by
  have brush : ∀ dc, field ∈ brushFields s dc → field < 0x3C := by
    intro dc
    unfold brushFields
    split <;> simp +contextual
  have pen : ∀ dc, field ∈ penFields s dc → field < 0x3C := by
    intro dc
    unfold penFields
    split <;> simp +contextual
  cases call with
  | extTextOut =>
    simp only [DrawCall.fields] at member
    split at member
    · cases member
    · split at member
      · cases member
      · split at member
        · cases member
        · simp at member
          omega
  | patBlt =>
    simp only [DrawCall.fields] at member
    split at member
    · cases member
    · split at member
      · cases member
      · exact brush _ member
  | lineTo =>
    simp only [DrawCall.fields] at member
    split at member
    · cases member
    · exact pen _ member
  | rectangle =>
    simp only [DrawCall.fields] at member
    split at member
    · cases member
    · split at member
      · cases member
      · exact (List.mem_append.mp member).elim (brush _) (pen _)

/-- An address that wraps around is near zero, and the arena is not. -/
theorem inAttrArena_wrap {attr field : Nat} (word : attr < 2 ^ 64) (small : field < 0x3C) :
    InAttrArena (wrap64 (attr + field)) ↔
      gdiAttrVa ≤ attr + field ∧ attr + field + 4 ≤ gdiAttrVa + gdiAttrSize := by
  have base : gdiAttrVa = 0x1340000 := rfl
  have size : gdiAttrSize = 0x10000 := rfl
  rw [InAttrArena, wrap64]
  omega

/-- For whatever the client stored in the table, the colour look-ups of a service stay in the
arena and show nothing else exactly if the cell of the handle is null or points to a place from
which the fields that the service reads are in the arena. -/
theorem colours_confined_iff (d : Display) (s : GdiState) (table : Nat → UInt64) (call : DrawCall) :
    ColoursConfined d (s.stored table) call ↔ BlockInArena d (s.stored table) call := by
  have word := dcAttr_stored_lt s table call.hdc
  have inside : (∀ a ∈ call.reads d (s.stored table), InAttrArena a) ↔
      BlockInArena d (s.stored table) call := by
    rw [DrawCall.reads, BlockInArena]
    by_cases null : dcAttr (s.stored table) call.hdc = 0
    · simp [null]
    · rw [if_neg null, List.forall_mem_map]
      constructor
      · exact fun all => Or.inr fun field member =>
          (inAttrArena_wrap word (fields_lt member)).mp (all field member)
      · rintro (zero | all) field member
        · exact absurd zero null
        · exact (inAttrArena_wrap word (fields_lt member)).mpr (all field member)
  refine ⟨fun confined => inside.mp confined.reads, fun block => ⟨inside.mpr block, ?_⟩⟩
  intro m m' same fuel c
  refine draw_congr (fun some_ field member => ?_) fuel c
  have here : InAttrArena (wrap64 (dcAttr (s.stored table) call.hdc + field)) := by
    refine inside.mpr block _ ?_
    rw [DrawCall.reads, if_neg some_]
    exact List.mem_map_of_mem member
  exact load_congr fun a low high => same a (Nat.le_trans here.1 low) (Nat.lt_of_lt_of_le high here.2)

/-- A window on a screen of one pixel. -/
def onePixelScreen : GfxFramebuffer := ⟨true, true, 4, 1, 1, 16, 8, 0⟩

def onePixelDisplay : Display where
  framebuffer := onePixelScreen
  overlay _ _ := zeroSurface
  font _ _ := 0
  probeRead _ _ := true
  probeWrite _ _ := true
  word _ := 0
  dword _ := 0

def onePixelWindow : GdiState := (w32kCreateWindowDc onePixelScreen bootGdi 1 0 0 1 1).2

/-- A client that stores a kernel address in the cell of its device context sees the byte that
is there, as the red of a filled pixel. -/
theorem kernel_byte_drawn :
    ¬ ∀ (d : Display) (s : GdiState) (table : Nat → UInt64) (call : DrawCall),
      ColoursConfined d (s.stored table) call := by
  intro all
  have confined := all onePixelDisplay onePixelWindow (fun _ => 0xFFFFFFFF80000000)
    (.patBlt 0x10001 0 0 1 1 0x00F00021)
  have same : SameArena (fun _ => 0) (Function.update (fun _ => 0) 0xFFFFFFFF80000030 0xFF) := by
    have base : gdiAttrVa = 0x1340000 := rfl
    have size : gdiAttrSize = 0x10000 := rfl
    exact fun a low high => Function.update_of_ne (by omega) _ _
  have canvas := confined.pixels _ _ same 0 ⟨fun _ _ => 0, []⟩
  have red := congrArg (fun c => c.pixels .framebuffer 0) canvas
  exact absurd red (by decide)

end W32k
