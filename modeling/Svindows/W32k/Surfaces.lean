import Svindows.Lib.Runs
import Svindows.W32k.Drawing

/-!
# Drawing surfaces

A device context keeps the address of the surface it draws on. Selecting a
bitmap stores an address inside the bitmap's slot, and deleting the bitmap
does not look for device contexts that still have it: that deletion is the only
step of the file that leaves a device context with a dangling surface.
-/

namespace W32k

/-- A call with the arguments it looks at; `room` says whether the pool has the
memory, `fuel` how many pixels of a line are drawn. -/
inductive GdiService where
  | createCompatibleDC
  | createCompatibleBitmap (cx cy : Int32) (room : Bool)
  | createBitmap (cx cy : Int32) (room : Bool)
  | selectBitmap (hdc handle : Nat)
  | deleteObjectApp (handle : Nat)
  | acquireWindowDc (hwnd : Nat) (x y width height : Int32)
  | releaseDc (hdc : Nat)
  | destroyWindowDc (hwnd : Nat)
  | createSolidBrush (color : UInt32)
  | createPen (style : Int32) (color : UInt32)
  | hfontCreate
  | createRectRgn
  | selectBrush (hdc handle : Nat)
  | selectPen (hdc handle : Nat)
  | selectFont (hdc handle : Nat)
  | resetGdi
  | patBlt (hdc : Nat) (x y w h : Int32) (rop : UInt32)
  | bitBlt (hdc : Nat) (x y w h : Int32) (hsrc : Nat) (sx sy : Int32) (rop : UInt32)
  | setPixel (hdc : Nat) (x y : Int32) (color : Nat)
  | moveTo (hdc : Nat) (x y : Int32) (old : Nat)
  | lineTo (hdc : Nat) (x y : Int32) (fuel : Nat)
  | rectangle (hdc : Nat) (left top right bottom : Int32)
  | extTextOut (hdc : Nat) (x y : Int32) (flags text : Nat) (count : Int32)
  | getDeviceCaps (hdc : Nat) (cap : UInt32)

/-- The canvas a service starts from. -/
def GdiState.canvas (s : GdiState) : Canvas := ⟨s.pixels, []⟩

/-- The state with what a service drew. -/
def GdiState.paint (s : GdiState) (c : Canvas) : GdiState := { s with pixels := c.pixels }

/-- What the services that draw leave on the canvas. -/
def draw (d : Display) (s : GdiState) : GdiService → Option Canvas
  | .patBlt hdc x y w h rop => some (ntGdiPatBlt d s hdc x y w h rop s.canvas).2
  | .bitBlt hdc x y w h hsrc sx sy rop =>
    some (ntGdiBitBlt d s hdc x y w h hsrc sx sy rop s.canvas).2
  | .setPixel hdc x y color => some (ntGdiSetPixel d s hdc x y color s.canvas).2
  | .lineTo hdc x y fuel => some (ntGdiLineTo d s hdc x y fuel s.canvas).2.2
  | .rectangle hdc left top right bottom =>
    some (ntGdiRectangle d s hdc left top right bottom s.canvas).2
  | .extTextOut hdc x y flags text count =>
    some (ntGdiExtTextOutW d s hdc x y flags text count s.canvas).2
  | .getDeviceCaps hdc cap => some (ntGdiGetDeviceCaps d s hdc cap s.canvas).2
  | _ => none

/-- The object table after a call. -/
def table (d : Display) (s : GdiState) : GdiService → GdiState
  | .createCompatibleDC => (ntGdiCreateCompatibleDC s).2
  | .createCompatibleBitmap cx cy room => (ntGdiCreateCompatibleBitmap s cx cy room).2
  | .createBitmap cx cy room => (ntGdiCreateBitmap s cx cy room).2
  | .selectBitmap hdc handle => (ntGdiSelectBitmap s hdc handle).2
  | .deleteObjectApp handle => (ntGdiDeleteObjectApp s handle).2
  | .acquireWindowDc hwnd x y width height =>
    (w32kAcquireWindowDc d.framebuffer s hwnd x y width height).2
  | .releaseDc hdc => w32kReleaseDc s hdc
  | .destroyWindowDc hwnd => w32kDestroyWindowDc s hwnd
  | .createSolidBrush color => (ntGdiCreateSolidBrush s color).2
  | .createPen style color => (ntGdiCreatePen s style color).2
  | .hfontCreate => (ntGdiHfontCreate s).2
  | .createRectRgn => (ntGdiCreateRectRgn s).2
  | .selectBrush hdc handle => (ntGdiSelectBrush s hdc handle).2
  | .selectPen hdc handle => (ntGdiSelectPen s hdc handle).2
  | .selectFont hdc handle => (ntGdiSelectFont s hdc handle).2
  | .resetGdi => w32kInitializeGdi s
  | .moveTo hdc x y old => (ntGdiMoveTo d s hdc x y old).2.2
  | .lineTo hdc x y fuel => (ntGdiLineTo d s hdc x y fuel s.canvas).2.1
  | _ => s

/-- One call, with the framebuffer and the caller's memory as they are then. -/
structure GdiCall where
  display : Display
  service : GdiService

def GdiState.call (s : GdiState) (c : GdiCall) : GdiState :=
  match draw c.display s c.service with
  | none => table c.display s c.service
  | some drawn => (table c.display s c.service).paint drawn

/-- The memory a call's drawing reads or writes. -/
def GdiState.touched (s : GdiState) (c : GdiCall) : List Access :=
  match draw c.display s c.service with
  | none => []
  | some drawn => drawn.touched

/-- Every device context draws on nothing, on its own screen surface, or on a
bitmap that is there with its pixels. -/
def SurfacesAlive (s : GdiState) : Prop :=
  ∀ i dc, s.LiveDc i dc →
    dc.surface = none ∨ dc.surface = some (.screen i) ∨
    ∃ k bitmap b, dc.surface = some (.bitmap k) ∧ s.LiveBitmap k bitmap ∧
      bitmap.storage = some b ∧ s.blocks b ≠ none

/-- The memory is what the pointer was made for: the surface of a live object, the
framebuffer, or a pixel inside a pool block that is not free. -/
def Safe (s : GdiState) : Access → Prop
  | .surface (.screen i) => ∃ dc, s.LiveDc i dc
  | .surface (.bitmap i) => ∃ bitmap, s.LiveBitmap i bitmap
  | .pixel .null _ => False
  | .pixel .framebuffer _ => True
  | .pixel (.block b) index => ∃ bytes, s.blocks b = some bytes ∧ 4 * index + 4 ≤ bytes

/-- The surface of a bitmap is its storage, row after row. -/
structure Backed (s : GdiState) (bitmap : W32kBitmap) (b : Nat) : Prop where
  storage : bitmap.storage = some b
  bits : bitmap.surface.bits = .block b
  stride : bitmap.surface.stride = bitmap.surface.width
  width : bitmap.surface.width.toNat ≤ 8192
  height : bitmap.surface.height.toNat ≤ 8192
  block : s.blocks b = some (bitmap.surface.width.toNat * bitmap.surface.height.toNat * 4)

/-- What every run keeps, also one that deletes a selected bitmap. -/
structure Books (s : GdiState) : Prop where
  bitmap : ∀ k bitmap, s.LiveBitmap k bitmap → ∃ b, Backed s bitmap b
  apart : ∀ j k left right b, s.LiveBitmap j left → s.LiveBitmap k right →
    left.storage = some b → right.storage = some b → j = k
  fresh : ∀ b, s.nextBlock ≤ b → s.blocks b = none
  screen : ∀ i dc k, s.LiveDc i dc → dc.surface = some (.screen k) →
    k = i ∧ dc.screenSurface.bits = .framebuffer

/-- The handle's slot holds a bitmap that a device context draws on. -/
def DrawnOn (s : GdiState) (handle : Nat) : Prop :=
  handle % 0x10000 ≠ 0 ∧ handle % 0x10000 < gdiMaxObjects ∧
  (∃ bitmap, s.LiveBitmap (handle % 0x10000) bitmap) ∧
  ∃ i dc, s.LiveDc i dc ∧ dc.surface = some (.bitmap (handle % 0x10000))

/-- A body that a new slot may have when it is not a bitmap. -/
def GdiBody.Plain (fresh : GdiBody) (i : Nat) : Prop :=
  (∀ bitmap, fresh ≠ .bitmap bitmap) ∧
  ∀ dc, fresh = .dc dc → dc.surface = none ∨
    dc.surface = some (.screen i) ∧ dc.screenSurface.bits = .framebuffer

/-- How a call changes the objects and the pool: a slot is filled, a device
context or a bitmap appears, a device context is rebound, a slot is freed. -/
inductive Change (s t : GdiState) : Prop
  | same (objects : t.objects = s.objects) (blocks : t.blocks = s.blocks)
      (next : t.nextBlock = s.nextBlock)
  | wasted (objects : t.objects = s.objects)
      (blocks : t.blocks = Function.update s.blocks s.nextBlock none)
      (next : t.nextBlock = s.nextBlock + 1)
  | fill (i upper : Nat) (body : GdiBody) (free : (s.objects i).live = false)
      (plain : body.Plain i)
      (objects : t.objects = Function.update s.objects i ⟨true, upper, body⟩)
      (blocks : t.blocks = s.blocks) (next : t.nextBlock = s.nextBlock)
  | picture (i upper bytes : Nat) (bitmap : W32kBitmap) (free : (s.objects i).live = false)
      (objects : t.objects = Function.update s.objects i ⟨true, upper, .bitmap bitmap⟩)
      (blocks : t.blocks = Function.update s.blocks s.nextBlock (some bytes))
      (next : t.nextBlock = s.nextBlock + 1) (backed : Backed t bitmap s.nextBlock)
  | rebind (i : Nat) (dc dc' : W32kDc) (live : s.LiveDc i dc)
      (screen : dc'.screenSurface = dc.screenSurface)
      (surface : dc'.surface = dc.surface ∨
        ∃ k bitmap, s.LiveBitmap k bitmap ∧ dc'.surface = some (.bitmap k))
      (objects : t.objects = Function.update s.objects i { s.objects i with body := .dc dc' })
      (blocks : t.blocks = s.blocks) (next : t.nextBlock = s.nextBlock)
  | drop (i : Nat) (unused : ∀ k dc, s.LiveDc k dc → dc.surface ≠ some (.bitmap i))
      (objects : t.objects = Function.update s.objects i { s.objects i with live := false })
      (blocks : t.blocks = s.blocks ∨ ∃ bitmap b, s.LiveBitmap i bitmap ∧
        bitmap.storage = some b ∧ t.blocks = Function.update s.blocks b none)
      (next : t.nextBlock = s.nextBlock)
  | reset (objects : t.objects = fun _ => zeroObject) (blocks : t.blocks = s.blocks)
      (next : t.nextBlock = s.nextBlock)

section Change

variable {s t : GdiState} {i : Nat} {object : W32kObject}

theorem liveDc_update (objects : t.objects = Function.update s.objects i object) {j : Nat}
    {dc : W32kDc} (live : t.LiveDc j dc) :
    (j = i ∧ object.live = true ∧ object.body = .dc dc) ∨ (j ≠ i ∧ s.LiveDc j dc) := by
  unfold GdiState.LiveDc at live
  rw [objects] at live
  by_cases here : j = i
  · subst here
    rw [Function.update_self] at live
    exact Or.inl ⟨rfl, live⟩
  · rw [Function.update_of_ne here] at live
    exact Or.inr ⟨here, live⟩

theorem liveBitmap_update (objects : t.objects = Function.update s.objects i object) {j : Nat}
    {bitmap : W32kBitmap} (live : t.LiveBitmap j bitmap) :
    (j = i ∧ object.live = true ∧ object.body = .bitmap bitmap) ∨
      (j ≠ i ∧ s.LiveBitmap j bitmap) := by
  unfold GdiState.LiveBitmap at live
  rw [objects] at live
  by_cases here : j = i
  · subst here
    rw [Function.update_self] at live
    exact Or.inl ⟨rfl, live⟩
  · rw [Function.update_of_ne here] at live
    exact Or.inr ⟨here, live⟩

theorem liveBitmap_elsewhere (objects : t.objects = Function.update s.objects i object) {j : Nat}
    {bitmap : W32kBitmap} (elsewhere : j ≠ i) (live : s.LiveBitmap j bitmap) :
    t.LiveBitmap j bitmap := by
  unfold GdiState.LiveBitmap
  rw [objects, Function.update_of_ne elsewhere]
  exact live

theorem Backed.congr {bitmap : W32kBitmap} {b : Nat} (backed : Backed s bitmap b)
    (same : t.blocks b = s.blocks b) : Backed t bitmap b :=
  { backed with block := by rw [same, backed.block] }

/-- The bitmaps keep their books when the live ones are live before with the same
block. -/
theorem Books.of_bitmaps (books : Books s)
    (old : ∀ k bitmap, t.LiveBitmap k bitmap → s.LiveBitmap k bitmap)
    (blocks : ∀ k bitmap b, t.LiveBitmap k bitmap → bitmap.storage = some b →
      t.blocks b = s.blocks b)
    (fresh : ∀ b, t.nextBlock ≤ b → t.blocks b = none)
    (screen : ∀ i dc k, t.LiveDc i dc → dc.surface = some (.screen k) →
      k = i ∧ dc.screenSurface.bits = .framebuffer) : Books t := by
  refine ⟨?_, ?_, fresh, screen⟩
  · intro k bitmap live
    obtain ⟨b, backed⟩ := books.bitmap k bitmap (old k bitmap live)
    exact ⟨b, backed.congr (blocks k bitmap b live backed.storage)⟩
  · intro j k left right b liveLeft liveRight
    exact books.apart j k left right b (old _ _ liveLeft) (old _ _ liveRight)

/-- The same with every block as it was. -/
theorem Books.of_blocks (books : Books s)
    (old : ∀ k bitmap, t.LiveBitmap k bitmap → s.LiveBitmap k bitmap)
    (blocks : t.blocks = s.blocks) (next : s.nextBlock ≤ t.nextBlock)
    (screen : ∀ i dc k, t.LiveDc i dc → dc.surface = some (.screen k) →
      k = i ∧ dc.screenSurface.bits = .framebuffer) : Books t := by
  refine books.of_bitmaps old (fun _ _ _ _ _ => by rw [blocks]) ?_ screen
  intro b beyond
  rw [blocks]
  exact books.fresh b (next.trans beyond)

theorem Books.same (books : Books s) (objects : t.objects = s.objects)
    (blocks : t.blocks = s.blocks) (next : s.nextBlock ≤ t.nextBlock) : Books t := by
  refine books.of_blocks ?_ blocks next ?_
  · intro k bitmap live
    rwa [GdiState.LiveBitmap, objects] at live
  · intro i dc k live
    rw [GdiState.LiveDc, objects] at live
    exact books.screen i dc k live

/-- Freeing a block that was never handed out. -/
theorem Books.wasted_eq (books : Books s)
    (blocks : t.blocks = Function.update s.blocks s.nextBlock none) : t.blocks = s.blocks := by
  rw [blocks, ← books.fresh s.nextBlock le_rfl, Function.update_eq_self]

theorem Books.older (books : Books s) {k b : Nat} {old : W32kBitmap} (live : s.LiveBitmap k old)
    (storage : old.storage = some b) : b < s.nextBlock := by
  obtain ⟨b', before⟩ := books.bitmap k old live
  cases storage.symm.trans before.storage
  by_contra beyond
  have none := books.fresh b (by omega)
  rw [before.block] at none
  cases none

/-- A new bitmap has a block of its own. -/
theorem Books.picture (books : Books s) {upper bytes : Nat} {bitmap : W32kBitmap}
    (objects : t.objects = Function.update s.objects i ⟨true, upper, .bitmap bitmap⟩)
    (blocks : t.blocks = Function.update s.blocks s.nextBlock (some bytes))
    (next : t.nextBlock = s.nextBlock + 1) (backed : Backed t bitmap s.nextBlock) : Books t := by
  refine ⟨?_, ?_, ?_, ?_⟩
  · intro k found live
    rcases liveBitmap_update objects live with ⟨rfl, _, new⟩ | ⟨_, old⟩
    · cases new
      exact ⟨s.nextBlock, backed⟩
    · obtain ⟨b, before⟩ := books.bitmap k found old
      have here := books.older old before.storage
      refine ⟨b, before.congr ?_⟩
      rw [blocks, Function.update_of_ne (by omega)]
  · intro j k left right b liveLeft liveRight storageLeft storageRight
    rcases liveBitmap_update objects liveLeft with ⟨rfl, _, newLeft⟩ | ⟨_, oldLeft⟩ <;>
      rcases liveBitmap_update objects liveRight with ⟨rfl, _, newRight⟩ | ⟨_, oldRight⟩
    · rfl
    · cases newLeft
      cases storageLeft.symm.trans backed.storage
      exact absurd (books.older oldRight storageRight) (lt_irrefl _)
    · cases newRight
      cases storageRight.symm.trans backed.storage
      exact absurd (books.older oldLeft storageLeft) (lt_irrefl _)
    · exact books.apart j k left right b oldLeft oldRight storageLeft storageRight
  · intro b beyond
    rw [blocks, Function.update_of_ne (by omega)]
    exact books.fresh b (by omega)
  · intro j dc k live surface
    rcases liveDc_update objects live with ⟨_, _, new⟩ | ⟨_, old⟩
    · cases new
    · exact books.screen j dc k old surface

/-- A slot is freed, with the block of the bitmap in it. -/
theorem Books.drop (books : Books s)
    (objects : t.objects = Function.update s.objects i { s.objects i with live := false })
    (blocks : t.blocks = s.blocks ∨ ∃ bitmap b, s.LiveBitmap i bitmap ∧
      bitmap.storage = some b ∧ t.blocks = Function.update s.blocks b none)
    (next : t.nextBlock = s.nextBlock) : Books t := by
  have old : ∀ k bitmap, t.LiveBitmap k bitmap → k ≠ i ∧ s.LiveBitmap k bitmap := by
    intro k bitmap live
    rcases liveBitmap_update objects live with ⟨_, dead, _⟩ | old
    · cases dead
    · exact old
  refine books.of_bitmaps (fun k bitmap live => (old k bitmap live).2) ?_ ?_ ?_
  · intro k bitmap b live storage
    rcases blocks with blocks | ⟨gone, b', liveGone, storageGone, blocks⟩
    · rw [blocks]
    · rw [blocks]
      refine Function.update_of_ne ?_ _ _
      rintro rfl
      exact (old k bitmap live).1
        (books.apart k i bitmap gone b (old k bitmap live).2 liveGone storage storageGone)
  · intro b beyond
    have none := books.fresh b (next ▸ beyond)
    rcases blocks with blocks | ⟨_, b', _, _, blocks⟩
    · rw [blocks, none]
    · rw [blocks]
      by_cases here : b = b'
      · rw [here, Function.update_self]
      · rw [Function.update_of_ne here, none]
  · intro j dc k live surface
    rcases liveDc_update objects live with ⟨_, dead, _⟩ | ⟨_, before⟩
    · cases dead
    · exact books.screen j dc k before surface

theorem Change.books (books : Books s) (change : Change s t) : Books t := by
  cases change with
  | same objects blocks next => exact books.same objects blocks next.ge
  | wasted objects blocks next => exact books.same objects (books.wasted_eq blocks) (by omega)
  | fill i upper body free plain objects blocks next =>
    refine books.of_blocks ?_ blocks next.ge ?_
    · intro k bitmap live
      rcases liveBitmap_update objects live with ⟨_, _, new⟩ | ⟨_, old⟩
      · exact absurd new (plain.1 bitmap)
      · exact old
    · intro j dc k live surface
      rcases liveDc_update objects live with ⟨rfl, _, new⟩ | ⟨_, old⟩
      · rcases plain.2 dc new with nothing | ⟨own, bits⟩
        · rw [nothing] at surface
          cases surface
        · rw [own] at surface
          cases surface
          exact ⟨rfl, bits⟩
      · exact books.screen j dc k old surface
  | picture i upper bytes bitmap free objects blocks next backed =>
    exact books.picture objects blocks next backed
  | rebind i dc dc' live screen surface objects blocks next =>
    refine books.of_blocks ?_ blocks next.ge ?_
    · intro k bitmap found
      rcases liveBitmap_update objects found with ⟨_, _, new⟩ | ⟨_, old⟩
      · cases new
      · exact old
    · intro j found k now points
      rcases liveDc_update objects now with ⟨rfl, _, new⟩ | ⟨_, old⟩
      · cases new
        rcases surface with kept | ⟨k', bitmap, _, selected⟩
        · rw [kept] at points
          rw [screen]
          exact books.screen j dc k live points
        · rw [selected] at points
          cases points
      · exact books.screen j found k old points
  | drop i unused objects blocks next => exact books.drop objects blocks next
  | reset objects blocks next =>
    have nothing : ∀ k, (t.objects k).live = false := by
      intro k
      rw [objects]
      rfl
    refine books.of_blocks ?_ blocks next.ge ?_
    · intro k bitmap live
      exact absurd live.1 (by simp [nothing])
    · intro i dc k live
      exact absurd live.1 (by simp [nothing])

theorem SurfacesAlive.of_dcs (alive : SurfacesAlive s)
    (old : ∀ j dc, t.LiveDc j dc → s.LiveDc j dc)
    (bitmaps : ∀ j dc k bitmap b, t.LiveDc j dc → dc.surface = some (.bitmap k) →
      s.LiveBitmap k bitmap → bitmap.storage = some b → s.blocks b ≠ none →
      t.LiveBitmap k bitmap ∧ t.blocks b ≠ none) : SurfacesAlive t := by
  intro j dc live
  rcases alive j dc (old j dc live) with nothing | own | ⟨k, bitmap, b, points, found, storage, kept⟩
  · exact Or.inl nothing
  · exact Or.inr (Or.inl own)
  · obtain ⟨now, block⟩ := bitmaps j dc k bitmap b live points found storage kept
    exact Or.inr (Or.inr ⟨k, bitmap, b, points, now, storage, block⟩)

theorem Change.alive (books : Books s) (alive : SurfacesAlive s) (change : Change s t) :
    SurfacesAlive t := by
  cases change with
  | same objects blocks next =>
    refine alive.of_dcs ?_ ?_
    · intro j dc live
      rwa [GdiState.LiveDc, objects] at live
    · intro j dc k bitmap b _ _ found _ kept
      rw [GdiState.LiveBitmap, objects, blocks]
      exact ⟨found, kept⟩
  | wasted objects blocks next =>
    refine alive.of_dcs ?_ ?_
    · intro j dc live
      rwa [GdiState.LiveDc, objects] at live
    · intro j dc k bitmap b _ _ found _ kept
      rw [GdiState.LiveBitmap, objects, books.wasted_eq blocks]
      exact ⟨found, kept⟩
  | fill i upper body free plain objects blocks next =>
    intro j dc live
    rcases liveDc_update objects live with ⟨rfl, _, new⟩ | ⟨_, old⟩
    · rcases plain.2 dc new with nothing | ⟨own, _⟩
      · exact Or.inl nothing
      · exact Or.inr (Or.inl own)
    · rcases alive j dc old with nothing | own | ⟨k, bitmap, b, points, found, storage, kept⟩
      · exact Or.inl nothing
      · exact Or.inr (Or.inl own)
      · have elsewhere : k ≠ i := by
          rintro rfl
          rw [found.1] at free
          cases free
        exact Or.inr (Or.inr ⟨k, bitmap, b, points,
          liveBitmap_elsewhere objects elsewhere found, storage, by rwa [blocks]⟩)
  | picture i upper bytes bitmap free objects blocks next backed =>
    refine alive.of_dcs ?_ ?_
    · intro j dc live
      rcases liveDc_update objects live with ⟨_, _, new⟩ | ⟨_, old⟩
      · cases new
      · exact old
    · intro j dc k found b _ _ here _ kept
      have elsewhere : k ≠ i := by
        rintro rfl
        rw [here.1] at free
        cases free
      refine ⟨liveBitmap_elsewhere objects elsewhere here, ?_⟩
      have older : b ≠ s.nextBlock := by
        rintro rfl
        exact kept (books.fresh _ le_rfl)
      rwa [blocks, Function.update_of_ne older]
  | rebind i dc dc' live screen surface objects blocks next =>
    have elsewhere : ∀ k bitmap, s.LiveBitmap k bitmap → t.LiveBitmap k bitmap := by
      intro k bitmap found
      refine liveBitmap_elsewhere objects ?_ found
      rintro rfl
      cases live.2.symm.trans found.2
    intro j other now
    rcases liveDc_update objects now with ⟨rfl, _, new⟩ | ⟨_, old⟩
    · cases new
      rcases surface with kept | ⟨k, bitmap, found, selected⟩
      · rw [kept]
        rcases alive j dc live with nothing | own | ⟨k, bitmap, b, points, found, storage, block⟩
        · exact Or.inl nothing
        · exact Or.inr (Or.inl own)
        · exact Or.inr (Or.inr ⟨k, bitmap, b, points, elsewhere k bitmap found, storage,
            by rwa [blocks]⟩)
      · obtain ⟨b, backed⟩ := books.bitmap k bitmap found
        refine Or.inr (Or.inr ⟨k, bitmap, b, selected, elsewhere k bitmap found, backed.storage, ?_⟩)
        rw [blocks, backed.block]
        exact Option.some_ne_none _
    · rcases alive j other old with nothing | own | ⟨k, bitmap, b, points, found, storage, block⟩
      · exact Or.inl nothing
      · exact Or.inr (Or.inl own)
      · exact Or.inr (Or.inr ⟨k, bitmap, b, points, elsewhere k bitmap found, storage,
          by rwa [blocks]⟩)
  | drop i unused objects blocks next =>
    refine alive.of_dcs ?_ ?_
    · intro j dc live
      rcases liveDc_update objects live with ⟨_, dead, _⟩ | ⟨_, old⟩
      · cases dead
      · exact old
    · intro j dc k bitmap b live points found storage kept
      rcases liveDc_update objects live with ⟨_, dead, _⟩ | ⟨_, old⟩
      · cases dead
      · have elsewhere : k ≠ i := by
          rintro rfl
          exact unused j dc old points
        refine ⟨liveBitmap_elsewhere objects elsewhere found, ?_⟩
        rcases blocks with blocks | ⟨gone, b', liveGone, storageGone, blocks⟩
        · rwa [blocks]
        · rw [blocks, Function.update_of_ne]
          · exact kept
          · rintro rfl
            exact elsewhere (books.apart k i bitmap gone b found liveGone storage storageGone)
  | reset objects blocks next =>
    intro j dc live
    rw [GdiState.LiveDc, objects] at live
    cases live.1

end Change

section Calls

variable {s : GdiState}

/-- A change of the tables beside the objects. -/
theorem Change.of_eq {s t u : GdiState} (change : Change s t) (objects : u.objects = t.objects)
    (blocks : u.blocks = t.blocks) (next : u.nextBlock = t.nextBlock) : Change s u := by
  cases change with
  | same h₁ h₂ h₃ => exact .same (objects.trans h₁) (blocks.trans h₂) (next.trans h₃)
  | wasted h₁ h₂ h₃ => exact .wasted (objects.trans h₁) (blocks.trans h₂) (next.trans h₃)
  | fill i upper body free plain h₁ h₂ h₃ =>
    exact .fill i upper body free plain (objects.trans h₁) (blocks.trans h₂) (next.trans h₃)
  | picture i upper bytes bitmap free h₁ h₂ h₃ backed =>
    exact .picture i upper bytes bitmap free (objects.trans h₁) (blocks.trans h₂) (next.trans h₃)
      (backed.congr (by rw [blocks]))
  | rebind i dc dc' live screen surface h₁ h₂ h₃ =>
    exact .rebind i dc dc' live screen surface (objects.trans h₁) (blocks.trans h₂) (next.trans h₃)
  | drop i unused h₁ h₂ h₃ =>
    exact .drop i unused (objects.trans h₁) (by rwa [blocks]) (next.trans h₃)
  | reset h₁ h₂ h₃ => exact .reset (objects.trans h₁) (blocks.trans h₂) (next.trans h₃)

theorem setDc_change {i : Nat} {dc dc' : W32kDc} (live : s.LiveDc i dc)
    (screen : dc'.screenSurface = dc.screenSurface)
    (surface : dc'.surface = dc.surface ∨
      ∃ k bitmap, s.LiveBitmap k bitmap ∧ dc'.surface = some (.bitmap k)) :
    Change s (s.setBody i (.dc dc')) :=
  .rebind i dc dc' live screen surface rfl rfl rfl

theorem createWith_change (s : GdiState) (type : GdiType) (body : GdiBody)
    (plain : ∀ i, body.Plain i) : Change s (createWith s type body).2 := by
  unfold createWith
  rcases gdiAllocate_cases s type 0 with ⟨n, made⟩ | ⟨n, i, free, made⟩
  · rw [made]
    exact .same rfl rfl rfl
  · rw [made]
    exact .fill i type.code body free (plain i)
      (by simp [GdiState.setBody, GdiState.setObject, GdiState.setCell]) rfl rfl

theorem createWindowDc_change (fb : GfxFramebuffer) (s : GdiState) (hwnd : Nat)
    (x y width height : Int32) : Change s (w32kCreateWindowDc fb s hwnd x y width height).2 := by
  unfold w32kCreateWindowDc
  split
  · exact .same rfl rfl rfl
  rcases gdiAllocateAttr_cases s with full | taken
  · rw [full]
    exact .same rfl rfl rfl
  · rw [taken]
    dsimp only
    rcases gdiAllocate_cases { s with attrNext := s.attrNext + dcAttrSize } .dc s.attrNext with
      ⟨n, made⟩ | ⟨n, i, free, made⟩
    · rw [made]
      exact .same rfl rfl rfl
    · rw [made]
      refine .fill i _ _ free ?_
        (by simp [GdiState.setBody, GdiState.setObject, GdiState.setCell]; rfl) rfl rfl
      refine ⟨by simp, ?_⟩
      rintro dc ⟨rfl⟩
      exact Or.inr ⟨rfl, rfl⟩

theorem createCompatibleDC_change (s : GdiState) : Change s (ntGdiCreateCompatibleDC s).2 := by
  unfold ntGdiCreateCompatibleDC
  rcases gdiAllocateAttr_cases s with full | taken
  · rw [full]
    exact .same rfl rfl rfl
  · rw [taken]
    dsimp only
    rcases gdiAllocate_cases { s with attrNext := s.attrNext + dcAttrSize } .dc s.attrNext with
      ⟨n, made⟩ | ⟨n, i, free, made⟩
    · rw [made]
      exact .same rfl rfl rfl
    · rw [made]
      refine .fill i _ _ free ?_ rfl rfl rfl
      refine ⟨by simp [GdiBody.zero], ?_⟩
      rintro dc ⟨rfl⟩
      exact Or.inl rfl

theorem toUInt32_toNat {x : Int32} (sign : 0 ≤ x.toInt) : x.toUInt32.toNat = x.toInt.toNat :=
  Int32.toNat_toUInt32_of_le (Int32.le_iff_toInt_le.mpr sign)

/-- A rectangle that is refused leaves the pool as it was, one number later. -/
theorem createBitmap_change (s : GdiState) (width height : Int32) (room : Bool) :
    Change s (gdiCreateBitmap s width height room).2 := by
  unfold gdiCreateBitmap
  split
  · exact .same rfl rfl rfl
  rename_i fits
  simp only [not_or, Int32.not_le, Int32.not_lt] at fits
  obtain ⟨width₀, height₀, width₁, height₁⟩ := fits
  unfold exAllocatePool
  cases room with
  | false => exact .same rfl rfl rfl
  | true =>
    rw [if_pos rfl]
    dsimp only
    generalize bytes : width.toInt.toNat * height.toInt.toNat * 4 = size
    rcases gdiAllocate_cases
        { s with
          blocks := Function.update s.blocks s.nextBlock (some size)
          nextBlock := s.nextBlock + 1
          pixels := Function.update s.pixels (.block s.nextBlock) fun _ => 0 } .bitmap 0 with
      ⟨n, made⟩ | ⟨n, i, free, made⟩
    · rw [made]
      exact .wasted rfl (by simp [exFreePool]) rfl
    · rw [made]
      refine .picture i _ size _ free
        (by simp [GdiState.setBody, GdiState.setObject, GdiState.setCell]; rfl) rfl rfl ?_
      rw [Int32.lt_iff_toInt_lt] at width₀ height₀
      have wide := toUInt32_toNat (le_of_lt width₀)
      have high := toUInt32_toNat (le_of_lt height₀)
      rw [Int32.le_iff_toInt_le] at width₁ height₁
      refine ⟨rfl, rfl, rfl, ?_, ?_, ?_⟩
      · dsimp only
        rw [wide]
        exact Int.toNat_le.mpr width₁
      · dsimp only
        rw [high]
        exact Int.toNat_le.mpr height₁
      · dsimp only
        rw [wide, high, bytes]
        exact Function.update_self _ _ _

theorem acquireWindowDc_change (fb : GfxFramebuffer) (s : GdiState) (hwnd : Nat)
    (x y width height : Int32) : Change s (w32kAcquireWindowDc fb s hwnd x y width height).2 := by
  have create := createWindowDc_change fb s hwnd x y width height
  unfold w32kAcquireWindowDc
  dsimp only
  generalize (if w32kDcCache ≤ hwnd % 0x10000 then 0 else hwnd % 0x10000) = slot
  have created : Change s (if (w32kCreateWindowDc fb s hwnd x y width height).1 = 0 then
      (w32kCreateWindowDc fb s hwnd x y width height).2
    else
      { (w32kCreateWindowDc fb s hwnd x y width height).2 with
        windowDc := Function.update (w32kCreateWindowDc fb s hwnd x y width height).2.windowDc slot
          (w32kCreateWindowDc fb s hwnd x y width height).1 }) := by
    split
    · exact create
    · exact create.of_eq rfl rfl rfl
  split
  · exact created
  · rename_i i dc here
    split at here
    · cases here
    · split
      · exact setDc_change (dcFromHandle_some here) rfl (Or.inl rfl)
      · exact created

theorem selectBitmap_change (s : GdiState) (hdc handle : Nat) :
    Change s (ntGdiSelectBitmap s hdc handle).2 := by
  unfold ntGdiSelectBitmap
  split
  · rename_i i dc k found here
    split
    · rename_i bitmap body
      exact setDc_change (dcFromHandle_some found) rfl
        (Or.inr ⟨k, bitmap, ⟨(gdiObject_some here).1, body⟩, rfl⟩)
    · exact .same rfl rfl rfl
  · exact .same rfl rfl rfl

/-- The other selections change the device context and not its surface. -/
theorem selectBrush_change (s : GdiState) (hdc handle : Nat) :
    Change s (ntGdiSelectBrush s hdc handle).2 := by
  unfold ntGdiSelectBrush
  split
  · rename_i found _
    exact setDc_change (dcFromHandle_some found) rfl (Or.inl rfl)
  · exact .same rfl rfl rfl

theorem selectPen_change (s : GdiState) (hdc handle : Nat) :
    Change s (ntGdiSelectPen s hdc handle).2 := by
  unfold ntGdiSelectPen
  split
  · rename_i found _
    exact setDc_change (dcFromHandle_some found) rfl (Or.inl rfl)
  · exact .same rfl rfl rfl

theorem selectFont_change (s : GdiState) (hdc handle : Nat) :
    Change s (ntGdiSelectFont s hdc handle).2 := by
  unfold ntGdiSelectFont
  split
  · rename_i found
    exact setDc_change (dcFromHandle_some found) rfl (Or.inl rfl)
  · exact .same rfl rfl rfl

theorem moveTo_change (d : Display) (s : GdiState) (hdc : Nat) (x y : Int32) (old : Nat) :
    Change s (ntGdiMoveTo d s hdc x y old).2.2 := by
  unfold ntGdiMoveTo
  split
  · exact .same rfl rfl rfl
  · rename_i found
    exact setDc_change (dcFromHandle_some found) rfl (Or.inl rfl)

theorem dcTarget_some {hdc i : Nat} {dc : W32kDc} {ref : SurfaceRef}
    (found : dcTarget s hdc = some (i, dc, ref)) : s.LiveDc i dc ∧ dc.surface = some ref := by
  unfold dcTarget at found
  split at found
  · cases found
  · rename_i here
    split at found
    · cases found
    · rename_i points
      cases found
      exact ⟨dcFromHandle_some here, points⟩

theorem lineTo_change (d : Display) (s : GdiState) (hdc : Nat) (x y : Int32) (fuel : Nat)
    (c : Canvas) : Change s (ntGdiLineTo d s hdc x y fuel c).2.1 := by
  unfold ntGdiLineTo
  split
  · exact .same rfl rfl rfl
  · rename_i found
    dsimp only
    split
    all_goals exact setDc_change (dcTarget_some found).1 rfl (Or.inl rfl)

/-- Freeing a slot that no device context draws on. -/
theorem gdiFree_change (s : GdiState) (handle : Nat)
    (unused : (s.objects (handle % 0x10000)).live = true → ∀ k dc, s.LiveDc k dc →
      dc.surface ≠ some (.bitmap (handle % 0x10000))) : Change s (gdiFree s handle) := by
  unfold gdiFree
  dsimp only
  split
  · exact .same rfl rfl rfl
  · rename_i index
    simp only [not_or, Bool.not_eq_false] at index
    exact .drop _ (unused index.2.2) rfl (Or.inl rfl) rfl

theorem releaseDc_change (alive : SurfacesAlive s) (hdc : Nat) :
    Change s (w32kReleaseDc s hdc) := by
  unfold w32kReleaseDc
  split
  · rename_i found
    obtain ⟨i, here⟩ := Option.isSome_iff_exists.mp found
    refine gdiFree_change s hdc ?_
    intro _ k dc live points
    rcases alive k dc live with nothing | own | ⟨k', bitmap, b, bound, target, _, _⟩
    · rw [nothing] at points
      cases points
    · rw [own] at points
      cases points
    · -- the slot that is freed holds a device context, so it is no bitmap's
      rw [bound] at points
      cases points
      have type := (gdiObject_some here).2
      rw [gdiObject_index here, target.2] at type
      cases type
  · exact .same rfl rfl rfl

theorem destroyWindowDc_change (alive : SurfacesAlive s) (hwnd : Nat) :
    Change s (w32kDestroyWindowDc s hwnd) := by
  unfold w32kDestroyWindowDc
  dsimp only
  split
  · exact .same rfl rfl rfl
  · exact (releaseDc_change alive _).of_eq rfl rfl rfl

/-- Deleting a live object frees its slot, and its pixels when it is a bitmap. -/
theorem deleteObjectApp_live {handle : Nat} (index₀ : handle % 0x10000 ≠ 0)
    (index₁ : handle % 0x10000 < gdiMaxObjects)
    (live : (s.objects (handle % 0x10000)).live = true) :
    (ntGdiDeleteObjectApp s handle).2.objects = Function.update s.objects (handle % 0x10000)
      { s.objects (handle % 0x10000) with live := false } ∧
    ((ntGdiDeleteObjectApp s handle).2.blocks = s.blocks ∨
      ∃ bitmap b, s.LiveBitmap (handle % 0x10000) bitmap ∧ bitmap.storage = some b ∧
        (ntGdiDeleteObjectApp s handle).2.blocks = Function.update s.blocks b none) ∧
    (ntGdiDeleteObjectApp s handle).2.nextBlock = s.nextBlock := by
  have valid : ¬ (handle % 0x10000 = 0 ∨ gdiMaxObjects ≤ handle % 0x10000 ∨
      (s.objects (handle % 0x10000)).live = false) := by
    rw [live]
    simp only [Bool.true_eq_false, or_false, not_or, not_le]
    exact ⟨index₀, index₁⟩
  unfold ntGdiDeleteObjectApp
  dsimp only
  rw [if_neg (not_or.mpr ⟨index₀, not_le.mpr index₁⟩), if_neg (by rw [live]; exact Bool.noConfusion)]
  split
  · rename_i surface b body
    have freed : gdiFree (exFreePool s b) handle = _ := if_neg valid
    rw [freed]
    exact ⟨rfl, Or.inr ⟨_, b, ⟨live, body⟩, rfl, rfl⟩, rfl⟩
  · have freed : gdiFree s handle = _ := if_neg valid
    rw [freed]
    exact ⟨rfl, Or.inl rfl, rfl⟩

theorem deleteObjectApp_change {handle : Nat} (alive : SurfacesAlive s)
    (kept : ¬ DrawnOn s handle) : Change s (ntGdiDeleteObjectApp s handle).2 := by
  by_cases valid : handle % 0x10000 ≠ 0 ∧ handle % 0x10000 < gdiMaxObjects ∧
      (s.objects (handle % 0x10000)).live = true
  · obtain ⟨index₀, index₁, live⟩ := valid
    obtain ⟨objects, blocks, next⟩ := deleteObjectApp_live index₀ index₁ live
    refine .drop (handle % 0x10000) ?_ objects blocks next
    intro k dc here points
    rcases alive k dc here with nothing | own | ⟨k', bitmap, b, bound, target, _, _⟩
    · rw [nothing] at points
      cases points
    · rw [own] at points
      cases points
    · rw [bound] at points
      cases points
      exact kept ⟨index₀, index₁, ⟨bitmap, target⟩, k, dc, here, bound⟩
  · unfold ntGdiDeleteObjectApp
    dsimp only
    split
    · exact .same rfl rfl rfl
    · rename_i index
      push Not at index
      split
      · exact .same rfl rfl rfl
      · rename_i live
        rw [Bool.not_eq_false] at live
        exact absurd ⟨index.1, index.2, live⟩ valid

theorem call_change (alive : SurfacesAlive s) (c : GdiCall)
    (kept : ∀ handle, c.service = .deleteObjectApp handle → ¬ DrawnOn s handle) :
    Change s (s.call c) := by
  have made : Change s (table c.display s c.service) := by
    cases service : c.service with
    | createCompatibleDC => exact createCompatibleDC_change s
    | createCompatibleBitmap cx cy room => exact createBitmap_change s cx cy room
    | createBitmap cx cy room => exact createBitmap_change s cx cy room
    | selectBitmap hdc handle => exact selectBitmap_change s hdc handle
    | deleteObjectApp handle => exact deleteObjectApp_change alive (kept handle service)
    | acquireWindowDc hwnd x y width height =>
      exact acquireWindowDc_change c.display.framebuffer s hwnd x y width height
    | releaseDc hdc => exact releaseDc_change alive hdc
    | destroyWindowDc hwnd => exact destroyWindowDc_change alive hwnd
    | createSolidBrush color => exact createWith_change s _ _ fun _ => ⟨by simp, by simp⟩
    | createPen style color => exact createWith_change s _ _ fun _ => ⟨by simp, by simp⟩
    | hfontCreate => exact createWith_change s _ _ fun _ => ⟨by simp, by simp⟩
    | createRectRgn => exact createWith_change s _ _ fun _ => ⟨by simp, by simp⟩
    | selectBrush hdc handle => exact selectBrush_change s hdc handle
    | selectPen hdc handle => exact selectPen_change s hdc handle
    | selectFont hdc handle => exact selectFont_change s hdc handle
    | resetGdi => exact .reset rfl rfl rfl
    | moveTo hdc x y old => exact moveTo_change c.display s hdc x y old
    | lineTo hdc x y fuel => exact lineTo_change c.display s hdc x y fuel s.canvas
    | patBlt hdc x y w h rop => exact .same rfl rfl rfl
    | bitBlt hdc x y w h hsrc sx sy rop => exact .same rfl rfl rfl
    | setPixel hdc x y color => exact .same rfl rfl rfl
    | rectangle hdc left top right bottom => exact .same rfl rfl rfl
    | extTextOut hdc x y flags text count => exact .same rfl rfl rfl
    | getDeviceCaps hdc cap => exact .same rfl rfl rfl
  unfold GdiState.call
  split
  · exact made
  · exact made.of_eq rfl rfl rfl

end Calls

end W32k
