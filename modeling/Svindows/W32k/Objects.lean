import Mathlib.Logic.Function.Basic
import Svindows.Nt.Defs

/-!
# GDI objects

The object table of `win32k/gdiobj.c`: 512 slots that are handed out in turn
and reused, device contexts that keep a pointer to the surface they draw on,
and bitmaps whose pixels are a block of the kernel pool.
-/

namespace W32k

open Nt

/-- `GfxFramebuffer`; `based` says that its address is not null. -/
structure GfxFramebuffer where
  present : Bool
  based : Bool
  pitch : UInt32
  width : UInt32
  height : UInt32
  redShift : Nat
  greenShift : Nat
  blueShift : Nat

def gfxAvailable (fb : GfxFramebuffer) : Bool := fb.present && fb.based

/-- The memory a surface's `Bits` point to. A pool block has the number of its
allocation, so a block that was freed is never confused with a later one. -/
inductive PixelMemory where
  | null
  | framebuffer
  | block (b : Nat)
  deriving DecidableEq

structure W32kSurface where
  bits : PixelMemory
  width : UInt32
  height : UInt32
  stride : UInt32
  isScreen : Bool
  deriving DecidableEq

/-- A surface in the object table: `u.Dc.ScreenSurface` or `u.Bitmap.Surface` of a slot. -/
inductive SurfaceRef where
  | screen (i : Nat)
  | bitmap (i : Nat)
  deriving DecidableEq

structure W32kDc where
  surface : Option SurfaceRef
  screenSurface : W32kSurface
  hwnd : Nat
  orgX : Int32
  orgY : Int32
  clipX : Int32
  clipY : Int32
  clipW : Int32
  clipH : Int32
  curX : Int32
  curY : Int32
  selectedBrush : Nat
  selectedPen : Nat
  selectedFont : Nat
  selectedBitmap : Nat
  deriving DecidableEq

structure W32kBrush where
  color : UInt32
  hollow : Bool
  deriving DecidableEq

structure W32kBitmap where
  surface : W32kSurface
  storage : Option Nat
  deriving DecidableEq

inductive GdiType where
  | dc | region | bitmap | font | brush | pen
  deriving DecidableEq

def GdiType.code : GdiType → Nat
  | .dc => 0x01
  | .region => 0x04
  | .bitmap => 0x05
  | .font => 0x0A
  | .brush => 0x10
  | .pen => 0x30

/-- The union of an object, with the member its type selects. -/
inductive GdiBody where
  | dc (dc : W32kDc)
  | region
  | bitmap (bitmap : W32kBitmap)
  | font
  | brush (brush : W32kBrush)
  | pen (pen : W32kBrush)
  deriving DecidableEq

def GdiBody.type : GdiBody → GdiType
  | .dc _ => .dc
  | .region => .region
  | .bitmap _ => .bitmap
  | .font => .font
  | .brush _ => .brush
  | .pen _ => .pen

def zeroSurface : W32kSurface := ⟨.null, 0, 0, 0, false⟩

def zeroDc : W32kDc :=
  ⟨none, zeroSurface, 0, 0, 0, 0, 0, 0, 0, 0, 0, 0, 0, 0, 0⟩

/-- The object after `memset`, seen as one of type `type`. -/
def GdiBody.zero : GdiType → GdiBody
  | .dc => .dc zeroDc
  | .region => .region
  | .bitmap => .bitmap ⟨zeroSurface, none⟩
  | .font => .font
  | .brush => .brush ⟨0, false⟩
  | .pen => .pen ⟨0, false⟩

/-- A slot. `live` is `Type != 0`: freeing a slot clears its type and leaves the
rest of it as it was. -/
structure W32kObject where
  live : Bool
  upper : Nat
  body : GdiBody
  deriving DecidableEq

/-- A `GDICELL64`; the kernel address of the object is its slot. -/
structure GdiCell where
  kernelInfo : Option Nat
  processId : Nat
  upper : Nat
  type : Nat
  userInfo : Nat
  deriving DecidableEq

def gdiMaxObjects : Nat := 512
def gdiAttrVa : Nat := 0x1340000
def gdiAttrSize : Nat := 0x10000
def dcAttrSize : Nat := 0x200
def w32kDcCache : Nat := 64
def processClientId : Nat := 4

/-- The state of the file: its object table and counters, the published cells,
the device contexts kept for windows, and the pool blocks of the bitmaps with
their size in bytes and their pixels. -/
structure GdiState where
  objects : Nat → W32kObject
  nextIndex : Nat
  attrNext : Nat
  cells : Nat → GdiCell
  windowDc : Nat → Nat
  blocks : Nat → Option Nat
  nextBlock : Nat
  pixels : PixelMemory → Nat → UInt32

def zeroObject : W32kObject := ⟨false, 0, .region⟩
def zeroCell : GdiCell := ⟨none, 0, 0, 0, 0⟩

/-- `W32kInitializeGdi`. -/
def w32kInitializeGdi (s : GdiState) : GdiState :=
  { s with
    objects := fun _ => zeroObject
    nextIndex := 1
    attrNext := gdiAttrVa
    cells := fun _ => zeroCell }

/-- The object table at boot. -/
def bootGdi : GdiState where
  objects _ := zeroObject
  nextIndex := 1
  attrNext := gdiAttrVa
  cells _ := zeroCell
  windowDc _ := 0
  blocks _ := none
  nextBlock := 0
  pixels _ _ := 0

def GdiState.setObject (s : GdiState) (i : Nat) (object : W32kObject) : GdiState :=
  { s with objects := Function.update s.objects i object }

def GdiState.setBody (s : GdiState) (i : Nat) (body : GdiBody) : GdiState :=
  s.setObject i { s.objects i with body := body }

def GdiState.setCell (s : GdiState) (i : Nat) (cell : GdiCell) : GdiState :=
  { s with cells := Function.update s.cells i cell }

/-- The slot of the handle; `type` is `none` for a caller that takes any type. -/
def gdiObject (s : GdiState) (handle : Nat) (type : Option GdiType) : Option Nat :=
  let index := handle % 0x10000
  if index = 0 ∨ gdiMaxObjects ≤ index then none
  else if (s.objects index).live = false ∨ (type ≠ none ∧ type ≠ some (s.objects index).body.type) then
    none
  else if (s.objects index).upper ≠ handle / 0x10000 % 0x10000 then none
  else some index

/-- The search of `gdi_allocate` for a free slot, `tries` of them. -/
def gdiAllocateLoop (type : GdiType) (userInfo : Nat) : Nat → GdiState → Option Nat × GdiState
  | 0, s => (none, s)
  | tries + 1, s =>
    let index := s.nextIndex
    let s := { s with nextIndex := if gdiMaxObjects ≤ index + 1 then 1 else index + 1 }
    if index = 0 ∨ (s.objects index).live = true then gdiAllocateLoop type userInfo tries s
    else
      (some index,
        (s.setObject index ⟨true, type.code, .zero type⟩).setCell index
          ⟨some index, processClientId, type.code, type.code, userInfo⟩)

/-- `gdi_allocate`: the slot it filled. -/
def gdiAllocate (s : GdiState) (type : GdiType) (userInfo : Nat) : Option Nat × GdiState :=
  gdiAllocateLoop type userInfo gdiMaxObjects s

/-- The handle of a slot; the type and the index take different bits. -/
def gdiHandle (type : GdiType) (i : Nat) : Nat := type.code * 0x10000 + i

def gdiFree (s : GdiState) (handle : Nat) : GdiState :=
  let index := handle % 0x10000
  if index = 0 ∨ gdiMaxObjects ≤ index ∨ (s.objects index).live = false then s
  else (s.setObject index { s.objects index with live := false }).setCell index zeroCell

/-- `gdi_allocate_attr`: the address of a `DC_ATTR` block. -/
def gdiAllocateAttr (s : GdiState) : Option Nat × GdiState :=
  if gdiAttrVa + gdiAttrSize < s.attrNext + dcAttrSize then (none, s)
  else (some s.attrNext, { s with attrNext := s.attrNext + dcAttrSize })

/-- `ExAllocatePoolWithTag`; `room` says whether the pool has the memory. -/
def exAllocatePool (s : GdiState) (bytes : Nat) (room : Bool) : Option Nat × GdiState :=
  if room then
    (some s.nextBlock,
      { s with
        blocks := Function.update s.blocks s.nextBlock (some bytes)
        nextBlock := s.nextBlock + 1 })
  else (none, s)

def exFreePool (s : GdiState) (b : Nat) : GdiState :=
  { s with blocks := Function.update s.blocks b none }

def screenSurface (fb : GfxFramebuffer) : W32kSurface :=
  ⟨.framebuffer, fb.width, fb.height, fb.pitch / 4, true⟩

/-- `W32kCreateWindowDc`. -/
def w32kCreateWindowDc (fb : GfxFramebuffer) (s : GdiState) (hwnd : Nat)
    (x y width height : Int32) : Nat × GdiState :=
  if gfxAvailable fb = false then (0, s)
  else
    match gdiAllocateAttr s with
    | (none, s) => (0, s)
    | (some attr, s) =>
      match gdiAllocate s .dc attr with
      | (none, s) => (0, s)
      | (some i, s) =>
        (gdiHandle .dc i,
          s.setBody i (.dc { zeroDc with
            surface := some (.screen i)
            screenSurface := screenSurface fb
            hwnd := hwnd
            orgX := x
            orgY := y
            clipX := x
            clipY := y
            clipW := if width < 0 then 0 else width
            clipH := if height < 0 then 0 else height }))

/-- `dc_from_handle`: the device context and its slot. -/
def dcFromHandle (s : GdiState) (hdc : Nat) : Option (Nat × W32kDc) :=
  match gdiObject s hdc (some .dc) with
  | none => none
  | some i =>
    match (s.objects i).body with
    | .dc dc => some (i, dc)
    | _ => none

def w32kReleaseDc (s : GdiState) (hdc : Nat) : GdiState :=
  if (gdiObject s hdc (some .dc)).isSome then gdiFree s hdc else s

/-- `W32kAcquireWindowDc`. -/
def w32kAcquireWindowDc (fb : GfxFramebuffer) (s : GdiState) (hwnd : Nat)
    (x y width height : Int32) : Nat × GdiState :=
  let slot := if w32kDcCache ≤ hwnd % 0x10000 then 0 else hwnd % 0x10000
  let cached := s.windowDc slot
  let create :=
    let (hdc, s) := w32kCreateWindowDc fb s hwnd x y width height
    (hdc, if hdc = 0 then s else { s with windowDc := Function.update s.windowDc slot hdc })
  match if cached = 0 then none else dcFromHandle s cached with
  | none => create
  | some (i, dc) =>
    if dc.hwnd = hwnd then
      (cached,
        s.setBody i (.dc { dc with
          orgX := x
          orgY := y
          clipX := x
          clipY := y
          clipW := if width < 0 then 0 else width
          clipH := if height < 0 then 0 else height }))
    else create

def w32kDestroyWindowDc (s : GdiState) (hwnd : Nat) : GdiState :=
  let slot := hwnd % 0x10000
  if w32kDcCache ≤ slot ∨ s.windowDc slot = 0 then s
  else
    let s := w32kReleaseDc s (s.windowDc slot)
    { s with windowDc := Function.update s.windowDc slot 0 }

/-- `NtGdiGetEntry` at a buffer that `probed` accepts. -/
def ntGdiGetEntry (s : GdiState) (handle : Nat) (probed : Bool) : NtStatus × Option GdiCell :=
  if probed = false then (statusAccessViolation, none)
  else
    let index := handle % 0x10000
    if index = 0 ∨ gdiMaxObjects ≤ index ∨ (s.objects index).live = false then
      (statusInvalidHandle, some zeroCell)
    else (statusSuccess, some (s.cells index))

/-- The services whose object needs no more than its type and a body. -/
def createWith (s : GdiState) (type : GdiType) (body : GdiBody) : Nat × GdiState :=
  match gdiAllocate s type 0 with
  | (none, s) => (0, s)
  | (some i, s) => (gdiHandle type i, s.setBody i body)

def ntGdiCreateSolidBrush (s : GdiState) (color : UInt32) : Nat × GdiState :=
  createWith s .brush (.brush ⟨color, false⟩)

/-- Pen style 5 is `PS_NULL`. -/
def ntGdiCreatePen (s : GdiState) (style : Int32) (color : UInt32) : Nat × GdiState :=
  createWith s .pen (.pen ⟨color, decide (style = 5)⟩)

def ntGdiHfontCreate (s : GdiState) : Nat × GdiState := createWith s .font .font

def ntGdiCreateRectRgn (s : GdiState) : Nat × GdiState := createWith s .region .region

/-- `NtGdiDeleteObjectApp` takes any handle: only its index is looked at. -/
def ntGdiDeleteObjectApp (s : GdiState) (handle : Nat) : Nat × GdiState :=
  let index := handle % 0x10000
  if index = 0 ∨ gdiMaxObjects ≤ index then (0, s)
  else if (s.objects index).live = false then (0, s)
  else
    let s :=
      match (s.objects index).body with
      | .bitmap { storage := some b, .. } => exFreePool s b
      | _ => s
    (1, gdiFree s handle)

def ntGdiCreateCompatibleDC (s : GdiState) : Nat × GdiState :=
  match gdiAllocateAttr s with
  | (none, s) => (0, s)
  | (some attr, s) =>
    match gdiAllocate s .dc attr with
    | (none, s) => (0, s)
    | (some i, s) => (gdiHandle .dc i, s)

/-- `gdi_create_bitmap`. -/
def gdiCreateBitmap (s : GdiState) (width height : Int32) (room : Bool) : Nat × GdiState :=
  if width ≤ 0 ∨ height ≤ 0 ∨ 8192 < width ∨ 8192 < height then (0, s)
  else
    match exAllocatePool s (width.toInt.toNat * height.toInt.toNat * 4) room with
    | (none, s) => (0, s)
    | (some bits, s) =>
      let s := { s with pixels := Function.update s.pixels (.block bits) fun _ => 0 }
      match gdiAllocate s .bitmap 0 with
      | (none, s) => (0, exFreePool s bits)
      | (some i, s) =>
        (gdiHandle .bitmap i,
          s.setBody i (.bitmap
            ⟨⟨.block bits, width.toUInt32, height.toUInt32, width.toUInt32, false⟩, some bits⟩))

def ntGdiCreateCompatibleBitmap (s : GdiState) (cx cy : Int32) (room : Bool) : Nat × GdiState :=
  gdiCreateBitmap s cx cy room

/-- The planes, the depth and the initial pixels are not looked at. -/
def ntGdiCreateBitmap (s : GdiState) (cx cy : Int32) (room : Bool) : Nat × GdiState :=
  gdiCreateBitmap s cx cy room

/-- `NtGdiSelectBitmap`: the device context draws on the bitmap from here on. -/
def ntGdiSelectBitmap (s : GdiState) (hdc handle : Nat) : Nat × GdiState :=
  match dcFromHandle s hdc, gdiObject s handle (some .bitmap) with
  | some (i, dc), some k =>
    match (s.objects k).body with
    | .bitmap bitmap =>
      (dc.selectedBitmap,
        s.setBody i (.dc { dc with
          selectedBitmap := handle
          surface := some (.bitmap k)
          orgX := 0
          orgY := 0
          clipX := 0
          clipY := 0
          clipW := bitmap.surface.width.toInt32
          clipH := bitmap.surface.height.toInt32 }))
    | _ => (0, s)
  | _, _ => (0, s)

def ntGdiSelectBrush (s : GdiState) (hdc handle : Nat) : Nat × GdiState :=
  match dcFromHandle s hdc, gdiObject s handle (some .brush) with
  | some (i, dc), some _ =>
    (dc.selectedBrush, s.setBody i (.dc { dc with selectedBrush := handle }))
  | _, _ => (0, s)

def ntGdiSelectPen (s : GdiState) (hdc handle : Nat) : Nat × GdiState :=
  match dcFromHandle s hdc, gdiObject s handle (some .pen) with
  | some (i, dc), some _ => (dc.selectedPen, s.setBody i (.dc { dc with selectedPen := handle }))
  | _, _ => (0, s)

/-- The font handle is not checked. -/
def ntGdiSelectFont (s : GdiState) (hdc handle : Nat) : Nat × GdiState :=
  match dcFromHandle s hdc with
  | some (i, dc) => (dc.selectedFont, s.setBody i (.dc { dc with selectedFont := handle }))
  | none => (0, s)

def ntGdiGetDCObject (s : GdiState) (hdc type : Nat) : Nat :=
  match dcFromHandle s hdc with
  | none => 0
  | some (_, dc) =>
    if type = GdiType.code .brush then dc.selectedBrush
    else if type = GdiType.code .pen then dc.selectedPen
    else if type = GdiType.code .font then dc.selectedFont
    else if type = GdiType.code .bitmap then dc.selectedBitmap
    else 0

/-- Slot `i` holds the device context `dc`. -/
def GdiState.LiveDc (s : GdiState) (i : Nat) (dc : W32kDc) : Prop :=
  (s.objects i).live = true ∧ (s.objects i).body = .dc dc

/-- Slot `i` holds the bitmap `bitmap`. -/
def GdiState.LiveBitmap (s : GdiState) (i : Nat) (bitmap : W32kBitmap) : Prop :=
  (s.objects i).live = true ∧ (s.objects i).body = .bitmap bitmap

theorem gdiObject_some {s : GdiState} {handle i : Nat} {type : GdiType}
    (found : gdiObject s handle (some type) = some i) :
    (s.objects i).live = true ∧ (s.objects i).body.type = type := by
  unfold gdiObject at found
  dsimp only at found
  split at found
  · cases found
  · split at found
    · cases found
    · rename_i fits
      split at found
      · cases found
      · cases found
        push Not at fits
        refine ⟨by simpa using fits.1, ?_⟩
        have same := fits.2 (by simp)
        exact (Option.some.inj same).symm

theorem gdiObject_index {s : GdiState} {handle i : Nat} {type : Option GdiType}
    (found : gdiObject s handle type = some i) : i = handle % 0x10000 := by
  unfold gdiObject at found
  dsimp only at found
  split at found
  · cases found
  · split at found
    · cases found
    · split at found
      · cases found
      · exact (Option.some.inj found).symm

theorem dcFromHandle_some {s : GdiState} {hdc i : Nat} {dc : W32kDc}
    (found : dcFromHandle s hdc = some (i, dc)) : s.LiveDc i dc := by
  unfold dcFromHandle at found
  split at found
  · cases found
  · rename_i k here
    split at found
    · rename_i body
      cases found
      exact ⟨(gdiObject_some here).1, body⟩
    · cases found

theorem gdiAllocateLoop_succ (type : GdiType) (userInfo tries : Nat) (s : GdiState) :
    gdiAllocateLoop type userInfo (tries + 1) s =
      if s.nextIndex = 0 ∨ (s.objects s.nextIndex).live = true then
        gdiAllocateLoop type userInfo tries { s with
          nextIndex := if gdiMaxObjects ≤ s.nextIndex + 1 then 1 else s.nextIndex + 1 }
      else (some s.nextIndex,
        ({ s with nextIndex := if gdiMaxObjects ≤ s.nextIndex + 1 then 1 else s.nextIndex + 1
          }.setObject s.nextIndex ⟨true, type.code, .zero type⟩).setCell s.nextIndex
          ⟨some s.nextIndex, processClientId, type.code, type.code, userInfo⟩) :=
  rfl

/-- The search fills a free slot and changes nothing else but the search position. -/
theorem gdiAllocateLoop_cases (type : GdiType) (userInfo tries : Nat) (s : GdiState) :
    (∃ n, gdiAllocateLoop type userInfo tries s = (none, { s with nextIndex := n })) ∨
    ∃ n i, (s.objects i).live = false ∧
      gdiAllocateLoop type userInfo tries s = (some i,
        ({ s with nextIndex := n }.setObject i ⟨true, type.code, .zero type⟩).setCell i
          ⟨some i, processClientId, type.code, type.code, userInfo⟩) := by
  induction tries generalizing s with
  | zero => exact Or.inl ⟨s.nextIndex, rfl⟩
  | succ tries ih =>
    rw [gdiAllocateLoop_succ]
    split
    · exact ih _
    · rename_i free
      push Not at free
      exact Or.inr ⟨_, s.nextIndex, by simpa using free.2, rfl⟩

theorem gdiAllocate_cases (s : GdiState) (type : GdiType) (userInfo : Nat) :
    (∃ n, gdiAllocate s type userInfo = (none, { s with nextIndex := n })) ∨
    ∃ n i, (s.objects i).live = false ∧
      gdiAllocate s type userInfo = (some i,
        ({ s with nextIndex := n }.setObject i ⟨true, type.code, .zero type⟩).setCell i
          ⟨some i, processClientId, type.code, type.code, userInfo⟩) :=
  gdiAllocateLoop_cases type userInfo gdiMaxObjects s

theorem gdiAllocateAttr_cases (s : GdiState) :
    gdiAllocateAttr s = (none, s) ∨
      gdiAllocateAttr s = (some s.attrNext, { s with attrNext := s.attrNext + dcAttrSize }) := by
  unfold gdiAllocateAttr
  split
  · exact Or.inl rfl
  · exact Or.inr rfl

end W32k
