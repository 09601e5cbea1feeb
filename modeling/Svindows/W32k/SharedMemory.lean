import Svindows.Lib.ByteMemory
import Svindows.W32k.Objects

/-!
# Memory shared with USER32 and GDI32

The handle tables, the arena of USER object heads, SERVERINFO and the arena of
`DC_ATTR` blocks have fixed addresses in the process. Mapping a page replaces
the page that was there. A write to a page that is not mapped stops the
machine; the kernel's writes do not see the read-only bit.

`heads`, `attrs`, `published` and `info` record what has been handed out.
-/

namespace W32k

open Nt ByteMemory

def gdiSharedTableVa : Nat := 0x1000000
def gdiSharedTableSize : Nat := 0x10000 * 24
def userSharedTableVa : Nat := 0x1180000
def userSharedTableSize : Nat := 0x10000 * 24
def userObjectArenaVa : Nat := 0x1300000
def userObjectArenaSize : Nat := 0x40000
def serverInfoVa : Nat := 0x1320000
def serverInfoSize : Nat := 0x4000
def userObjectSlots : Nat := userObjectArenaSize / 0x200
def userCursorCache : Nat := 32

/-- A cached cursor of `NtUserFindExistingCursorIcon`. -/
structure CursorKey where
  module : Nat
  resource : Nat
  handle : Nat
  deriving DecidableEq

structure SharedState where
  mem : Memory
  mapped : Nat → Bool
  nextWindow : Nat
  nextObject : Nat
  cursors : List CursorKey
  gdi : GdiState
  heads : List Nat
  attrs : List Nat
  published : Bool
  info : Option Memory

/-- The pages of a range that is no longer than a page are mapped. -/
def SharedState.canWrite (s : SharedState) (a n : Nat) : Bool :=
  s.mapped (a / pageSize) && s.mapped ((a + n - 1) / pageSize)

/-- A new page of zeroes at `va`. -/
def SharedState.mapZero (s : SharedState) (va : Nat) : SharedState :=
  { s with
    mem := fill s.mem va pageSize 0
    mapped := Function.update s.mapped (va / pageSize) true }

/-- The loops of `PsCreateUserProcess`, `n` pages long. -/
def SharedState.mapZeroPages (s : SharedState) (va : Nat) : Nat → SharedState
  | 0 => s
  | n + 1 => (s.mapZeroPages va n).mapZero (va + n * pageSize)

def screenSize (fb : GfxFramebuffer) : Int32 × Int32 :=
  if gfxAvailable fb then (fb.width.toInt32, fb.height.toInt32) else (1024, 768)

/-- `aiSysMet`: the metrics by their index. -/
def systemMetrics (width height : Int32) : List (Nat × Int32) :=
  [ (0, width), (1, height), (2, 17), (3, 17), (4, 23), (5, 1), (6, 1), (7, 3), (8, 3), (9, 17),
    (10, 17), (11, 32), (12, 32), (13, 32), (14, 32), (15, 19), (16, width), (17, height - 23),
    (19, 1), (20, 17), (21, 17), (28, 132), (29, 39), (30, 18), (31, 22), (32, 4), (33, 4),
    (34, 132), (35, 39), (36, 4), (37, 4), (38, 75), (39, 75), (43, 2), (45, 2), (46, 2),
    (47, 160), (48, 24), (49, 16), (50, 16), (51, 17), (52, 16), (53, 15), (54, 19), (55, 19),
    (56, 8), (57, 160), (58, 24), (59, width + 12), (60, height + 12), (61, width + 8),
    (62, height + 8), (63, 3), (68, 4), (69, 4), (71, 19), (72, 19), (75, 1), (76, 0), (77, 0),
    (78, width), (79, height), (80, 1), (81, 1), (83, 1), (84, 1) ]

def sysColors : List Nat :=
  [ 0x00C8C8C8, 0x00000000, 0x00D1B499, 0x00DBCDBF, 0x00F0F0F0, 0x00FFFFFF, 0x00646464,
    0x00000000, 0x00000000, 0x00000000, 0x00B4B4B4, 0x00FCF7F4, 0x00ABABAB, 0x00D77800,
    0x00FFFFFF, 0x00F0F0F0, 0x00A0A0A0, 0x006D6D6D, 0x00000000, 0x00000000, 0x00FFFFFF,
    0x00696969, 0x00E3E3E3, 0x00000000, 0x00FFFFE1, 0x00000000, 0x00CC6600, 0x00EAD1B9,
    0x00F2E4D7, 0x00FF9933, 0x00F0F0F0 ]

/-- The 32-bit words of SERVERINFO with their offsets: metrics and colours. -/
def serverInfoWords (fb : GfxFramebuffer) : List (Nat × Nat) :=
  (systemMetrics (screenSize fb).1 (screenSize fb).2).map
    (fun metric => (0x758 + 4 * metric.1, metric.2.toUInt32.toNat)) ++
  sysColors.zipIdx.map fun color => (0x1360 + 4 * color.2, color.1)

/-- `W32kInitializeServerInfo` once its pages are zero; `cHandleEntries` comes first. -/
def fillServerInfo (fb : GfxFramebuffer) (m : Memory) : Memory :=
  (serverInfoWords fb).foldl (fun m word => store m (serverInfoVa + word.1) 4 word.2)
    (store m (serverInfoVa + 8) 8 0x10000)

/-- The pages of SERVERINFO, as long as there is `room` for them. -/
def mapInfoPages (room : Nat → Bool) (s : SharedState) : Nat → Bool × SharedState
  | 0 => (true, s)
  | n + 1 =>
    match mapInfoPages room s n with
    | (false, t) => (false, t)
    | (true, t) => if room n then (true, t.mapZero (serverInfoVa + n * pageSize)) else (false, t)

/-- `W32kInitializeServerInfo`. -/
def w32kInitializeServerInfo (fb : GfxFramebuffer) (room : Nat → Bool) (s : SharedState) :
    SharedState :=
  match mapInfoPages room s (serverInfoSize / pageSize) with
  | (false, t) => t
  | (true, t) =>
    { t with
      mem := fillServerInfo fb t.mem
      info := some (t.info.getD (fillServerInfo fb t.mem)) }

/-- `PsCreateUserProcess` in the shared range; `frame` is what the page of the
desktop range held before. Without memory it does not return. -/
def psCreateUserProcess (room : Bool) (frame : Memory) (s : SharedState) : Option SharedState :=
  if room = false then none
  else
    let s := s.mapZeroPages gdiSharedTableVa (gdiSharedTableSize / pageSize)
    let s := s.mapZeroPages gdiAttrVa (gdiAttrSize / pageSize)
    let s := { s with
      gdi := w32kInitializeGdi s.gdi
      mem := fill s.mem gdiSharedTableVa gdiSharedTableSize 0 }
    let s := s.mapZeroPages userSharedTableVa (userSharedTableSize / pageSize)
    let s := s.mapZeroPages userObjectArenaVa (userObjectArenaSize / pageSize)
    let range := userObjectArenaVa + userObjectArenaSize
    let m := overlay s.mem frame range pageSize
    some { s with
      mapped := Function.update s.mapped (range / pageSize) true
      mem := store (store m range 8 userObjectArenaVa) (range + 8) 8
        (userObjectArenaVa + userObjectArenaSize)
      published := true }

/-- The entry of a handle in the shared table: object, owner, type, flags and generation. -/
def storeEntry (m : Memory) (index head type : Nat) : Memory :=
  let entry := userSharedTableVa + index * 24
  store (store (store (store (store m entry 8 head) (entry + 8) 8 0) (entry + 16) 1 type)
    (entry + 17) 1 0) (entry + 18) 2 1

/-- A zeroed head with its own handle and the entry that points to it. -/
def SharedState.handOut (s : SharedState) (index type : Nat) : Option SharedState :=
  let head := userObjectArenaVa + index * 0x200
  if s.canWrite head 0x200 && s.canWrite (userSharedTableVa + index * 24) 20 then
    let m := store (store (fill s.mem head 0x200 0) head 8 (0x10000 + index)) (head + 8) 4 1
    some { s with mem := storeEntry m index head type, heads := s.heads ++ [index] }
  else none

/-- `KiUserAllocateObject`. -/
def kiUserAllocateObject (s : SharedState) (type : Nat) : Option (Nat × SharedState) :=
  if userObjectSlots ≤ s.nextObject then some (0, s)
  else
    match { s with nextObject := s.nextObject + 1 }.handOut s.nextObject type with
    | none => none
    | some t => some (0x10000 + s.nextObject, t)

/-- `NtUserFindExistingCursorIcon`; `buffer` is the name's buffer when the resource
can be read. -/
def ntUserFindExistingCursorIcon (s : SharedState) (module resource : Nat)
    (buffer : Option Nat) : Option (Nat × SharedState) :=
  let key := if resource = 0 then resource else buffer.getD resource
  match s.cursors.find? fun c => c.module = module ∧ c.resource = key with
  | some c => some (c.handle, s)
  | none =>
    match kiUserAllocateObject s 3 with
    | none => none
    | some (handle, t) =>
      if handle ≠ 0 ∧ t.cursors.length < userCursorCache then
        some (handle, { t with cursors := t.cursors ++ [⟨module, key, handle⟩] })
      else some (handle, t)

def ntUserCreateAcceleratorTable (s : SharedState) : Option (Nat × SharedState) :=
  kiUserAllocateObject s 8

/-- The arguments of `NtUserCreateWindowEx` that reach the window's head; the class
has the extra bytes and the window procedure, `shell` says that it is the
desktop's or the taskbar's. -/
structure WindowArgs where
  style : Nat
  exStyle : Nat
  parent : Nat
  cls : Option (Nat × Nat)
  shell : Bool

/-- `KiPublishWindowState`, and the visible bit of the shell's windows. -/
def publishWindowState (m : Memory) (window : Nat) (args : WindowArgs) : Memory :=
  let m := store (store (store m (window + 0x30) 4 args.style) (window + 0x34) 4 args.exStyle)
    (window + 0x42) 2 0
  let m :=
    match args.cls with
    | some (extra, wndProc) => store (store m (window + 0xE8) 4 extra) (window + 0x148) 8 wndProc
    | none => store m (window + 0xE8) 4 0x40
  let m := store m (window + 0x100) 8 args.parent
  if args.shell then store m (window + 0x30) 4 (args.style ||| 0x10000000) else m

/-- `NtUserCreateWindowEx` up to the window procedure. -/
def ntUserCreateWindowEx (s : SharedState) (args : WindowArgs) : Option (Nat × SharedState) :=
  if 128 ≤ s.nextWindow then some (0, s)
  else
    match { s with nextWindow := s.nextWindow + 1 }.handOut s.nextWindow 1 with
    | none => none
    | some t =>
      some (0x10000 + s.nextWindow,
        { t with mem := publishWindowState t.mem (userObjectArenaVa + s.nextWindow * 0x200) args })

/-- A `GDICELL64` as it is published. -/
def storeCell (m : Memory) (index : Nat) (cell : GdiCell) (address : Nat → Nat) : Memory :=
  let entry := gdiSharedTableVa + index * 24
  store (store (store (store (store m entry 8 ((cell.kernelInfo.map address).getD 0))
    (entry + 8) 4 cell.processId) (entry + 12) 2 cell.upper) (entry + 14) 2 cell.type)
    (entry + 16) 8 cell.userInfo

/-- A creation of a device context seen from the shared memory. When the object
table took an attribute block, the block is zeroed; when a device context was
made, its cell is published and its colours are set. `address` gives the kernel
addresses of the slots. -/
def SharedState.makeDc (s : SharedState) (made : Nat × GdiState) (colors : List (Nat × Nat))
    (address : Nat → Nat) : Option (Nat × SharedState) :=
  if made.2.attrNext = s.gdi.attrNext then some (made.1, { s with gdi := made.2 })
  else
    let attr := s.gdi.attrNext
    if s.canWrite attr dcAttrSize = false then none
    else
      let t := { s with
        gdi := made.2
        mem := fill s.mem attr dcAttrSize 0
        attrs := s.attrs ++ [attr] }
      let index := made.1 % 0x10000
      if made.1 = 0 then some (0, t)
      else if s.canWrite (gdiSharedTableVa + index * 24) 24 = false then none
      else
        let m := storeCell t.mem index (made.2.cells index) address
        some (made.1, { t with
          mem := colors.foldl (fun m color => store m (attr + color.1) 4 color.2) m })

def compatibleColors : List (Nat × Nat) :=
  [(0x20, 0xFFFFFF), (0x24, 0xFFFFFF), (0x30, 0xFFFFFF), (0x34, 0xFFFFFF)]

def windowColors : List (Nat × Nat) := [(0x28, 0), (0x2C, 0)] ++ compatibleColors

inductive SharedCall where
  | initializeServerInfo (room : Nat → Bool)
  | createUserProcess (room : Bool) (frame : Memory)
  | createWindow (args : WindowArgs)
  | findExistingCursorIcon (module resource : Nat) (buffer : Option Nat)
  | createAcceleratorTable
  | createCompatibleDC (address : Nat → Nat)
  | acquireWindowDc (hwnd : Nat) (x y width height : Int32) (address : Nat → Nat)

/-- A call; there is no state after one that stops the machine. -/
def SharedState.call (fb : GfxFramebuffer) (s : SharedState) : SharedCall → Option SharedState
  | .initializeServerInfo room => some (w32kInitializeServerInfo fb room s)
  | .createUserProcess room frame => psCreateUserProcess room frame s
  | .createWindow args => (ntUserCreateWindowEx s args).map Prod.snd
  | .findExistingCursorIcon module resource buffer =>
    (ntUserFindExistingCursorIcon s module resource buffer).map Prod.snd
  | .createAcceleratorTable => (ntUserCreateAcceleratorTable s).map Prod.snd
  | .createCompatibleDC address =>
    (s.makeDc (ntGdiCreateCompatibleDC s.gdi) compatibleColors address).map Prod.snd
  | .acquireWindowDc hwnd x y width height address =>
    (s.makeDc (w32kAcquireWindowDc fb s.gdi hwnd x y width height) windowColors address).map
      Prod.snd

end W32k
