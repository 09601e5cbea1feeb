import Svindows.W32k.Objects

/-!
# GDI drawing services

Every drawing service reads the fields of a surface through the pointer its
device context keeps, and reads or writes pixels behind that surface's `Bits`.
A canvas keeps the pixels together with every such access.

A pointer to the surface of a bitmap may be followed after the slot was given
to another object; `overlay` is what the bytes of that object then read as.
Signed arithmetic wraps.
-/

namespace W32k

open Nt

/-- One use of memory by a drawing service. -/
inductive Access where
  | surface (ref : SurfaceRef)
  | pixel (memory : PixelMemory) (index : Nat)
  deriving DecidableEq

structure Canvas where
  pixels : PixelMemory → Nat → UInt32
  touched : List Access

def Canvas.write (c : Canvas) (memory : PixelMemory) (index : Nat) (pixel : UInt32) : Canvas where
  pixels := Function.update c.pixels memory (Function.update (c.pixels memory) index pixel)
  touched := .pixel memory index :: c.touched

def Canvas.read (c : Canvas) (memory : PixelMemory) (index : Nat) : UInt32 × Canvas :=
  (c.pixels memory index, { c with touched := .pixel memory index :: c.touched })

def Canvas.look (c : Canvas) (ref : SurfaceRef) : Canvas :=
  { c with touched := .surface ref :: c.touched }

/-- What the services find outside the object table: the framebuffer, the glyph
rows of the font, and the caller's memory with the checks on it. -/
structure Display where
  framebuffer : GfxFramebuffer
  overlay : SurfaceRef → GdiBody → W32kSurface
  font : Nat → Nat → Nat
  probeRead : Nat → Nat → Bool
  probeWrite : Nat → Nat → Bool
  word : Nat → Nat
  dword : Nat → UInt32

/-- The surface found behind a pointer into the object table. -/
def surfaceAt (d : Display) (s : GdiState) : SurfaceRef → W32kSurface
  | .screen i =>
    match (s.objects i).body with
    | .dc dc => dc.screenSurface
    | body => d.overlay (.screen i) body
  | .bitmap i =>
    match (s.objects i).body with
    | .bitmap bitmap => bitmap.surface
    | body => d.overlay (.bitmap i) body

def gfxColor (fb : GfxFramebuffer) (r g b : UInt32) : UInt32 :=
  UInt32.ofNat (r.toNat <<< fb.redShift) ||| UInt32.ofNat (g.toNat <<< fb.greenShift) |||
    UInt32.ofNat (b.toNat <<< fb.blueShift)

/-- A `COLORREF` is `0x00BBGGRR`. -/
def gdiPixel (d : Display) (color : UInt32) : UInt32 :=
  gfxColor d.framebuffer (color &&& 0xFF) ((color >>> 8) &&& 0xFF) ((color >>> 16) &&& 0xFF)

/-- The pixels of `surface_fill` once the rectangle is inside the surface. -/
def fillRows (surface : W32kSurface) (x y w h : Int32) (pixel : UInt32) (c : Canvas) : Canvas :=
  (List.range h.toInt.toNat).foldl (fun c row =>
    (List.range w.toInt.toNat).foldl (fun c col =>
      c.write surface.bits
        ((y.toInt.toNat + row) * surface.stride.toNat % 2 ^ 32 + x.toInt.toNat + col) pixel) c) c

def surfaceFill (d : Display) (s : GdiState) (ref : SurfaceRef) (x y w h : Int32) (pixel : UInt32)
    (c : Canvas) : Canvas :=
  let surface := surfaceAt d s ref
  let c := c.look ref
  if surface.bits = .null ∨ w ≤ 0 ∨ h ≤ 0 then c
  else
    let w := if x < 0 then w + x else w
    let x := if x < 0 then 0 else x
    let h := if y < 0 then h + y else h
    let y := if y < 0 then 0 else y
    if surface.width.toInt32 ≤ x ∨ surface.height.toInt32 ≤ y then c
    else
      let w := if surface.width.toInt32 < x + w then surface.width.toInt32 - x else w
      let h := if surface.height.toInt32 < y + h then surface.height.toInt32 - y else h
      if w ≤ 0 ∨ h ≤ 0 then c else fillRows surface x y w h pixel c

def surfacePixel (d : Display) (s : GdiState) (ref : SurfaceRef) (x y : Int32) (pixel : UInt32)
    (c : Canvas) : Canvas :=
  let surface := surfaceAt d s ref
  let c := c.look ref
  if surface.bits = .null ∨ x < 0 ∨ y < 0 ∨ surface.width.toInt32 ≤ x ∨
      surface.height.toInt32 ≤ y then c
  else c.write surface.bits (y.toUInt32 * surface.stride + x.toUInt32).toNat pixel

/-- `dc_clip`: the part of a rectangle inside the clip box, in surface
coordinates. -/
def dcClip (dc : W32kDc) (x y w h : Int32) : Option (Int32 × Int32 × Int32 × Int32) :=
  let left := dc.orgX + x
  let top := dc.orgY + y
  let right := left + w
  let bottom := top + h
  let clipRight := dc.clipX + dc.clipW
  let clipBottom := dc.clipY + dc.clipH
  let left := if left < dc.clipX then dc.clipX else left
  let top := if top < dc.clipY then dc.clipY else top
  let right := if clipRight < right then clipRight else right
  let bottom := if clipBottom < bottom then clipBottom else bottom
  if right ≤ left ∨ bottom ≤ top then none else some (left, top, right - left, bottom - top)

/-- `dc_fill` on a device context whose surface is `ref`. -/
def dcFill (d : Display) (s : GdiState) (dc : W32kDc) (ref : SurfaceRef) (x y w h : Int32)
    (color : UInt32) (c : Canvas) : Canvas :=
  match dcClip dc x y w h with
  | none => c
  | some (x, y, w, h) => surfaceFill d s ref x y w h (gdiPixel d color) c

/-- One pixel that is clipped on its own. -/
def dcPixel (d : Display) (s : GdiState) (dc : W32kDc) (ref : SurfaceRef) (x y : Int32)
    (pixel : UInt32) (c : Canvas) : Canvas :=
  match dcClip dc x y 1 1 with
  | none => c
  | some (x, y, _, _) => surfacePixel d s ref x y pixel c

/-- `dc_glyph`: the character's eight by sixteen cell. -/
def dcGlyph (d : Display) (s : GdiState) (dc : W32kDc) (ref : SurfaceRef) (x y : Int32) (ch : Nat)
    (fg bg : UInt32) (filled : Bool) (c : Canvas) : Canvas :=
  let glyph := d.font (if 32 ≤ ch ∧ ch < 127 then ch - 32 else 0)
  (List.range 16).foldl (fun c row =>
    (List.range 8).foldl (fun c col =>
      let set := (glyph row).testBit col
      if set = false ∧ filled = false then c
      else
        dcPixel d s dc ref (x + Int32.ofNat col) (y + Int32.ofNat row)
          (if set then gdiPixel d fg else gdiPixel d bg) c) c) c

/-- `dc_attr`: the caller's attribute block, or 0. -/
def dcAttr (s : GdiState) (hdc : Nat) : Nat :=
  let index := hdc % 0x10000
  if index = 0 ∨ gdiMaxObjects ≤ index then 0 else (s.cells index).userInfo

/-- A colour of the attribute block, or a default when there is none. -/
def attrColor (d : Display) (s : GdiState) (hdc offset : Nat) (default : UInt32) : UInt32 :=
  if dcAttr s hdc = 0 then default else d.dword (wrap64 (dcAttr s hdc + offset))

def dcTextColor (d : Display) (s : GdiState) (hdc : Nat) : UInt32 := attrColor d s hdc 0x28 0
def dcBkColor (d : Display) (s : GdiState) (hdc : Nat) : UInt32 := attrColor d s hdc 0x20 0xFFFFFF

/-- `dc_brush_color`: the colour and whether the brush is hollow. -/
def dcBrushColor (d : Display) (s : GdiState) (hdc : Nat) (dc : W32kDc) : UInt32 × Bool :=
  match (gdiObject s dc.selectedBrush (some .brush)).map fun i => (s.objects i).body with
  | some (.brush brush) => (brush.color, brush.hollow)
  | _ => (attrColor d s hdc 0x30 0xFFFFFF, false)

def dcPenColor (d : Display) (s : GdiState) (hdc : Nat) (dc : W32kDc) : UInt32 × Bool :=
  match (gdiObject s dc.selectedPen (some .pen)).map fun i => (s.objects i).body with
  | some (.pen pen) => (pen.color, pen.hollow)
  | _ => (attrColor d s hdc 0x38 0, false)

/-- The device context of a handle together with the surface it draws on. -/
def dcTarget (s : GdiState) (hdc : Nat) : Option (Nat × W32kDc × SurfaceRef) :=
  match dcFromHandle s hdc with
  | none => none
  | some (i, dc) =>
    match dc.surface with
    | none => none
    | some ref => some (i, dc, ref)

def blackness : UInt32 := 0x00000042
def whiteness : UInt32 := 0x00FF0062

def ntGdiPatBlt (d : Display) (s : GdiState) (hdc : Nat) (x y w h : Int32) (rop : UInt32)
    (c : Canvas) : Nat × Canvas :=
  match dcTarget s hdc with
  | none => (0, c)
  | some (_, dc, ref) =>
    let (color, hollow) :=
      if rop = blackness then (0, false)
      else if rop = whiteness then (0xFFFFFF, false)
      else dcBrushColor d s hdc dc
    if hollow then (1, c) else (1, dcFill d s dc ref x y w h color c)

/-- One pixel of `NtGdiBitBlt`: a source position outside the surface is passed over. -/
def bltPixel (d : Display) (s : GdiState) (dst : W32kDc) (dstRef : SurfaceRef) (src : W32kDc)
    (srcRef : SurfaceRef) (x y sx sy : Int32) (row col : Nat) (c : Canvas) : Canvas :=
  let surface := surfaceAt d s srcRef
  let sourceX := src.orgX + sx + Int32.ofNat col
  let sourceY := src.orgY + sy + Int32.ofNat row
  if sourceX < 0 ∨ sourceY < 0 then c
  else if surface.width.toInt32 ≤ sourceX ∨ surface.height.toInt32 ≤ sourceY then c.look srcRef
  else
    let (pixel, c) :=
      (c.look srcRef).read surface.bits
        (sourceY.toUInt32 * surface.stride + sourceX.toUInt32).toNat
    dcPixel d s dst dstRef (x + Int32.ofNat col) (y + Int32.ofNat row) pixel c

def ntGdiBitBlt (d : Display) (s : GdiState) (hdc : Nat) (x y w h : Int32) (hsrc : Nat)
    (sx sy : Int32) (rop : UInt32) (c : Canvas) : Nat × Canvas :=
  match dcTarget s hdc, dcTarget s hsrc with
  | none, _ => (0, c)
  | some (_, dst, ref), none =>
    if rop = blackness ∨ rop = whiteness then
      (1, dcFill d s dst ref x y w h (if rop = blackness then 0 else 0xFFFFFF) c)
    else (0, c)
  | some (_, dst, dstRef), some (_, src, srcRef) =>
    (1, (List.range h.toInt.toNat).foldl (fun c row =>
      (List.range w.toInt.toNat).foldl (fun c col =>
        bltPixel d s dst dstRef src srcRef x y sx sy row col c) c) c)

def ntGdiSetPixel (d : Display) (s : GdiState) (hdc : Nat) (x y : Int32) (color : Nat)
    (c : Canvas) : Nat × Canvas :=
  match dcTarget s hdc with
  | none => (2 ^ 64 - 1, c)
  | some (_, dc, ref) => (color, dcPixel d s dc ref x y (gdiPixel d (.ofNat color)) c)

/-- `NtGdiMoveTo`: what it writes to the caller's point, and the new position. -/
def ntGdiMoveTo (d : Display) (s : GdiState) (hdc : Nat) (x y : Int32) (old : Nat) :
    Nat × Option (Int32 × Int32) × GdiState :=
  match dcFromHandle s hdc with
  | none => (0, none, s)
  | some (i, dc) =>
    (1, if old ≠ 0 ∧ d.probeWrite old 8 = true then some (dc.curX, dc.curY) else none,
      s.setBody i (.dc { dc with curX := x, curY := y }))

/-- The loop of `NtGdiLineTo`, for `fuel` of its pixels. -/
def lineLoop (d : Display) (s : GdiState) (dc : W32kDc) (ref : SurfaceRef)
    (x₁ y₁ dx dy sx sy : Int32) (pixel : UInt32) :
    Nat → Int32 → Int32 → Int32 → Canvas → Canvas
  | 0, _, _, _, c => c
  | fuel + 1, x₀, y₀, err, c =>
    let c := dcPixel d s dc ref x₀ y₀ pixel c
    if x₀ = x₁ ∧ y₀ = y₁ then c
    else
      let e₂ := err * 2
      let (err, x₀) := if -dy < e₂ then (err - dy, x₀ + sx) else (err, x₀)
      let (err, y₀) := if e₂ < dx then (err + dx, y₀ + sy) else (err, y₀)
      lineLoop d s dc ref x₁ y₁ dx dy sx sy pixel fuel x₀ y₀ err c

def ntGdiLineTo (d : Display) (s : GdiState) (hdc : Nat) (x₁ y₁ : Int32) (fuel : Nat)
    (c : Canvas) : Nat × GdiState × Canvas :=
  match dcTarget s hdc with
  | none => (0, s, c)
  | some (i, dc, ref) =>
    let (color, hollow) := dcPenColor d s hdc dc
    let moved := s.setBody i (.dc { dc with curX := x₁, curY := y₁ })
    if hollow then (1, moved, c)
    else
      let dx := if dc.curX < x₁ then x₁ - dc.curX else dc.curX - x₁
      let dy := if dc.curY < y₁ then y₁ - dc.curY else dc.curY - y₁
      let sx := if dc.curX < x₁ then 1 else -1
      let sy := if dc.curY < y₁ then 1 else -1
      (1, moved, lineLoop d s dc ref x₁ y₁ dx dy sx sy (gdiPixel d color) fuel dc.curX dc.curY
        (dx - dy) c)

/-- `NtGdiRectangle`: the brush fills it and the pen draws its four edges. -/
def ntGdiRectangle (d : Display) (s : GdiState) (hdc : Nat) (left top right bottom : Int32)
    (c : Canvas) : Nat × Canvas :=
  match dcTarget s hdc with
  | none => (0, c)
  | some (_, dc, ref) =>
    if right < left ∨ bottom < top then (0, c)
    else
      let (fill, brushHollow) := dcBrushColor d s hdc dc
      let (edge, penHollow) := dcPenColor d s hdc dc
      let c :=
        if brushHollow then c
        else dcFill d s dc ref left top (right - left) (bottom - top) fill c
      if penHollow then (1, c)
      else
        let c := dcFill d s dc ref left top (right - left) 1 edge c
        let c := dcFill d s dc ref left (bottom - 1) (right - left) 1 edge c
        let c := dcFill d s dc ref left top 1 (bottom - top) edge c
        (1, dcFill d s dc ref (right - 1) top 1 (bottom - top) edge c)

/-- `NtGdiExtTextOutW`; flag 2 is `ETO_OPAQUE`, and a character the font does not
have becomes a question mark. -/
def ntGdiExtTextOutW (d : Display) (s : GdiState) (hdc : Nat) (x y : Int32) (flags : Nat)
    (text : Nat) (count : Int32) (c : Canvas) : Nat × Canvas :=
  match dcTarget s hdc with
  | none => (0, c)
  | some (_, dc, ref) =>
    if count < 0 ∨ 4096 < count then (0, c)
    else if count ≠ 0 ∧ (text = 0 ∨ d.probeRead text (count.toInt.toNat * 2) = false) then (0, c)
    else
      let fg := dcTextColor d s hdc
      let bg := dcBkColor d s hdc
      let filled := flags.testBit 1
      let c := if filled then dcFill d s dc ref x y (count * 8) 16 bg c else c
      (1, (List.range count.toInt.toNat).foldl (fun c i =>
        let wide := d.word (text + 2 * i)
        let ch := if 32 ≤ wide ∧ wide < 127 then wide else 63
        dcGlyph d s dc ref (x + Int32.ofNat i * 8) y ch fg bg filled c) c)

/-- `NtGdiGetDeviceCaps`: the size is that of the surface, or the screen's. -/
def ntGdiGetDeviceCaps (d : Display) (s : GdiState) (hdc : Nat) (cap : UInt32) (c : Canvas) :
    Int × Canvas :=
  match dcFromHandle s hdc with
  | none => (0, c)
  | some (_, dc) =>
    let (width, height, c) :=
      match dc.surface with
      | none => (d.framebuffer.width.toInt32, d.framebuffer.height.toInt32, c)
      | some ref =>
        ((surfaceAt d s ref).width.toInt32, (surfaceAt d s ref).height.toInt32, c.look ref)
    let result : Int :=
      match cap.toNat with
      | 0 => 0x4000
      | 2 => 1
      | 4 => (width * 254 / 960).toInt
      | 6 => (height * 254 / 960).toInt
      | 8 => width.toInt
      | 10 => height.toInt
      | 12 => 32
      | 14 => 1
      | 16 => -1
      | 18 => -1
      | 22 => 1
      | 24 => -1
      | 38 => 0x93
      | 88 => 96
      | 90 => 96
      | 108 => 24
      | _ => 0
    (result, c)

end W32k
