import Svindows.User.Callbacks
import Svindows.User.InputEvents

/-!
# The window services

The services of `ke/syscall.c` that make, show, move, paint and destroy windows,
over the queues and update regions of all threads and the callback state of each.
Painting itself and the window heads in user memory are left out; what user
memory holds, and whether a probe of it succeeds, is given with each call.
-/

namespace User

open Nt Ob

/-- `g_win_kind`. -/
inductive WinKind where
  | none
  | desktop
  | taskbar
  | generic
  deriving DecidableEq, Repr

/-- What `g_win_kind`, `g_win_x`, `g_win_y`, `g_win_w` and `g_win_h` hold for a slot. -/
structure WinPaint where
  kind : WinKind
  x : Int
  y : Int
  w : Nat
  h : Nat
  deriving DecidableEq, Repr

structure WindowState where
  user : UserState
  nextWindowIndex : Nat
  windows : Nat → WinPaint
  kernel : CallbackKernel
  /-- The callback fields of each thread, by its id. -/
  fields : Nat → CallbackFields

def wsVisible : Nat := 0x10000000

def int32 (x : Nat) : Int := Int.bmod x (2 ^ 32)

def slotOf (hwnd : Nat) : Nat := hwnd % 0x10000

/-- The bit `mask`, a power of two, is set in `flags`. -/
def hasFlag (flags mask : Nat) : Bool := flags / mask % 2 = 1

def WindowState.invalidate (s : WindowState) (slot : Nat) : WindowState :=
  { s with user := kiUserInvalidateWindow s.user slot }

def WindowState.validate (s : WindowState) (slot : Nat) : WindowState :=
  { s with user := kiUserValidateWindow s.user slot }

def ntUserInvalidateRect (s : WindowState) (a : Nat → Nat) : WindowState :=
  s.invalidate (slotOf (a 0))

def ntUserValidateRect (s : WindowState) (a : Nat → Nat) : WindowState :=
  s.validate (slotOf (a 0))

def ntUserRedrawWindow (s : WindowState) (a : Nat → Nat) : WindowState :=
  if hasFlag (a 3) 0x8 then s.validate (slotOf (a 0))
  else if hasFlag (a 3) 0x1 then s.invalidate (slotOf (a 0))
  else s

def ntUserShowWindow (s : WindowState) (a : Nat → Nat) : WindowState :=
  if a 1 % 0x10 = 0 then s.validate (slotOf (a 0)) else s.invalidate (slotOf (a 0))

/-- Where `NtUserSetWindowPos` puts a window. -/
def movedTo (window : WinPaint) (a : Nat → Nat) : WinPaint :=
  let window := if hasFlag (a 6) 0x2 then window
    else { window with x := int32 (a 2), y := int32 (a 3) }
  if hasFlag (a 6) 0x1 then window else { window with w := wrap32 (a 4), h := wrap32 (a 5) }

def WindowState.moveWindow (s : WindowState) (a : Nat → Nat) : WindowState :=
  let slot := slotOf (a 0)
  if slot ≠ 0 ∧ slot < 128 ∧ (s.windows slot).kind ≠ .none then
    { s with windows := Function.update s.windows slot (movedTo (s.windows slot) a) }
  else s

/-- Anything but a pure no-op move invalidates, unless `SWP_NOREDRAW` is given. -/
def redraws (flags : Nat) : Bool :=
  !hasFlag flags 0x8 && (hasFlag flags 0x40 || !(hasFlag flags 0x1 || hasFlag flags 0x2))

def ntUserSetWindowPos (s : WindowState) (a : Nat → Nat) : WindowState :=
  let s := s.moveWindow a
  let s := if hasFlag (a 6) 0x80 then s.validate (slotOf (a 0)) else s
  if redraws (a 6) then s.invalidate (slotOf (a 0)) else s

/-- `NtUserBeginPaint`; `writable` says whether the `PAINTSTRUCT` can be written. The
result is the width and height of the rectangle to paint. -/
def ntUserBeginPaint (s : WindowState) (writable : Bool) (a : Nat → Nat) :
    Option (Nat × Nat) × WindowState :=
  if a 1 = 0 ∨ writable = false then (none, s)
  else
    let slot := slotOf (a 0)
    let size := if slot ≠ 0 ∧ slot < 128 then ((s.windows slot).w, (s.windows slot).h) else (0, 0)
    (some size, s.validate slot)

/-- How a call enters the kernel, and the memory it finds. -/
structure Entry where
  pages : Bool
  memory : UserMemory
  frame : UserFrame

/-- The state after a service of thread `current` that may enter a window procedure. -/
def WindowState.serve (s : WindowState) (current : Nat) (e : Entry) (service : CallbackService) :
    WindowState :=
  let r := (kiSystemCallEntry e.pages e.frame service
    ⟨s.kernel, s.fields current, e.memory, s.user.windowOwner⟩).2.2
  { s with
    kernel := r.kernel
    fields := Function.update s.fields current r.fields
    user := { s.user with windowOwner := r.windowOwner } }

/-- A registered class, as far as creating a window looks at it. -/
structure UserClass where
  name : String
  wndProc : Nat
  deriving DecidableEq, Repr

def createKind : Option UserClass → WinKind
  | some cls =>
    if cls.name = "WorkerW" then .desktop
    else if cls.name = "Shell_TrayWnd" then .taskbar
    else .generic
  | none => .generic

/-- A window that is created visible owes its first `WM_PAINT` at once. -/
def createdDirty (cls : Option UserClass) (a : Nat → Nat) : Bool :=
  hasFlag (a 4) wsVisible || createKind cls = .desktop || createKind cls = .taskbar

/-- The window at slot `index` of thread `current`, before its procedure is called. -/
def WindowState.addWindow (s : WindowState) (current : Nat) (cls : Option UserClass)
    (a : Nat → Nat) : WindowState :=
  let index := s.nextWindowIndex
  let s := { s with
    nextWindowIndex := index + 1
    user := { s.user with windowOwner := Function.update s.user.windowOwner index current }
    windows := Function.update s.windows index
      ⟨createKind cls, int32 (a 5), int32 (a 6), wrap32 (a 7), wrap32 (a 8)⟩ }
  if createdDirty cls a then s.invalidate index else s

/-- `cls` is what `KiClassForCreate` finds. -/
def ntUserCreateWindowEx (s : WindowState) (current : Nat) (e : Entry) (cls : Option UserClass)
    (a : Nat → Nat) : WindowState :=
  if s.nextWindowIndex ≥ 128 then s.serve current e (.other 0 s.kernel)
  else
    (s.addWindow current cls a).serve current e
      (.createWindow (0x10000 + s.nextWindowIndex) ((cls.map UserClass.wndProc).getD 0))

def ntUserDestroyWindow (s : WindowState) (a : Nat → Nat) : WindowState :=
  let slot := slotOf (a 0)
  if slot ≠ 0 ∧ slot < 128 then
    { s with
      user := { s.user with
        windowOwner := Function.update s.user.windowOwner slot 0
        activeHwnd := if s.user.activeHwnd = a 0 then 0 else s.user.activeHwnd }
      windows := Function.update s.windows slot { s.windows slot with kind := .none } }
  else s

/-- `KiUserGetInputEvent` by thread `current`; `made` is what `PsCreateNotificationEvent`
delivers if it is called. -/
def getInputEvent (user : UserState) (current : Nat) (made : Option (ObjectRef × Nat)) :
    UserState :=
  match kiUserQueueForThread current with
  | none => user
  | some i =>
    match (user.queues i).inputEvent with
    | some _ => kiUserSyncInputEvent user i
    | none =>
      match made with
      | some (event, handle) => user.listen i event handle
      | none => user

/-- The event and handle a call of `PsCreateNotificationEvent` makes. -/
def madeEvent (ob : ObState) (eventType : TypeRef) (block : Option ObjectRef) :
    Option (ObjectRef × Nat) :=
  let r := psCreateNotificationEvent ob eventType block
  if ntSuccess r.1 then some (r.2.1, r.2.2.1) else none

theorem kiUserGetInputEvent_user (ob : ObState) (user : UserState) (eventType : TypeRef)
    (current : Nat) (block : Option ObjectRef) :
    (kiUserGetInputEvent ob user eventType current block).2.2 =
      getInputEvent user current (madeEvent ob eventType block) := by
  unfold kiUserGetInputEvent getInputEvent madeEvent
  cases kiUserQueueForThread current with
  | none => rfl
  | some i =>
    dsimp only
    cases (user.queues i).inputEvent with
    | some event => rfl
    | none =>
      dsimp only
      cases ntSuccess (psCreateNotificationEvent ob eventType block).1 with
      | true => rfl
      | false => rfl

/-- The owners and the update counts of all windows are the same. -/
structure SameWindows (s u : UserState) : Prop where
  owner : u.windowOwner = s.windowOwner
  update : u.windowUpdate = s.windowUpdate

theorem SameWindows.refl (s : UserState) : SameWindows s s := ⟨rfl, rfl⟩

theorem SameWindows.trans {s t u : UserState} (first : SameWindows s t) (second : SameWindows t u) :
    SameWindows s u :=
  ⟨second.owner.trans first.owner, second.update.trans first.update⟩

theorem SameWindows.sync (s : UserState) (i : Nat) : SameWindows s (kiUserSyncInputEvent s i) := by
  unfold kiUserSyncInputEvent
  split
  · exact .refl s
  · exact ⟨rfl, rfl⟩

theorem SameWindows.syncQueue (s : UserState) (i : Nat) (q : UserMsgQueue) :
    SameWindows s (kiUserSyncInputEvent (s.setQueue i q) i) :=
  (show SameWindows s (s.setQueue i q) from ⟨rfl, rfl⟩).trans (.sync _ i)

theorem SameWindows.syncOwner (s : UserState) (slot : Nat) : SameWindows s (syncOwner s slot) := by
  unfold User.syncOwner
  split
  · exact .refl s
  · exact .sync s _

theorem SameWindows.enqueueMessage (s : UserState) (current hwnd message wParam lParam : Nat)
    (x y : Int) :
    SameWindows s (kiUserEnqueueMessage s current hwnd message wParam lParam x y).2 := by
  unfold kiUserEnqueueMessage User.enqueue
  split
  · exact .refl s
  · dsimp only
    split
    · exact .refl s
    · exact .syncQueue s _ _

theorem SameWindows.enqueueThreadMessage (s : UserState) (t message wParam lParam : Nat) :
    SameWindows s (kiUserEnqueueThreadMessage s t message wParam lParam).2 := by
  unfold kiUserEnqueueThreadMessage User.enqueue
  split
  · exact .refl s
  · dsimp only
    split
    · exact .refl s
    · exact .syncQueue s _ _

theorem SameWindows.queueCharacter (s : UserState) (current character : Nat) :
    SameWindows s (kiUserQueueCharacter s current character) := by
  unfold kiUserQueueCharacter
  split
  · exact .refl s
  · exact .enqueueMessage s _ _ _ _ _ _ _

theorem SameWindows.queueButton (s : UserState) (current buttons bit down up wParam lParam : Nat)
    (x y : Int) : SameWindows s (queueButton s current buttons bit down up wParam lParam x y) := by
  unfold User.queueButton
  split
  · exact .enqueueMessage s _ _ _ _ _ _ _
  · exact .refl s

theorem SameWindows.queueMouse (s : UserState) (current : Nat) (x y : Int) (buttons : Nat) :
    SameWindows s (kiUserQueueMouse s current x y buttons) := by
  unfold kiUserQueueMouse
  split
  · exact ⟨rfl, rfl⟩
  · have moved := SameWindows.enqueueMessage s current s.activeHwnd wmMouseMove (buttons % 4)
      ((y % 0x10000).toNat * 0x10000 + (x % 0x10000).toNat) x y
    have left := moved.trans (.queueButton _ current buttons 0 wmLButtonDown wmLButtonUp
      (buttons % 4) ((y % 0x10000).toNat * 0x10000 + (x % 0x10000).toNat) x y)
    have right := left.trans (.queueButton _ current buttons 1 wmRButtonDown wmRButtonUp
      (buttons % 4) ((y % 0x10000).toNat * 0x10000 + (x % 0x10000).toNat) x y)
    exact right.trans ⟨rfl, rfl⟩

theorem SameWindows.getInputEvent (s : UserState) (current : Nat)
    (made : Option (ObjectRef × Nat)) : SameWindows s (User.getInputEvent s current made) := by
  unfold User.getInputEvent UserState.listen
  split
  · exact .refl s
  · split
    · exact .sync s _
    · split
      · exact .syncQueue s _ _
      · exact .refl s

/-- Invalidating a slot sets its update count. -/
theorem invalidateWindow_windows (s : UserState) (slot : Nat) :
    (kiUserInvalidateWindow s slot).windowOwner = s.windowOwner ∧
      (kiUserInvalidateWindow s slot).windowUpdate =
        if slot = 0 ∨ slot ≥ userPaintSlots then s.windowUpdate
        else Function.update s.windowUpdate slot userPaintRedelivery := by
  unfold kiUserInvalidateWindow
  split
  · exact ⟨rfl, rfl⟩
  · exact ⟨(SameWindows.syncOwner _ slot).owner, (SameWindows.syncOwner _ slot).update⟩

/-- Validating a slot clears its update count. -/
theorem validateWindow_windows (s : UserState) (slot : Nat) :
    (kiUserValidateWindow s slot).windowOwner = s.windowOwner ∧
      (kiUserValidateWindow s slot).windowUpdate =
        if slot = 0 ∨ slot ≥ userPaintSlots then s.windowUpdate
        else Function.update s.windowUpdate slot 0 := by
  unfold kiUserValidateWindow
  split
  · exact ⟨rfl, rfl⟩
  · exact ⟨(SameWindows.syncOwner _ slot).owner, (SameWindows.syncOwner _ slot).update⟩

/-- A take leaves the owners alone, and lowers at most the count of the window it makes
a `WM_PAINT` for. -/
theorem takeMessage_windows (s : UserState) (t : Nat) (remove : Bool) :
    (kiUserTakeMessage s t remove).2.windowOwner = s.windowOwner ∧
      ((kiUserTakeMessage s t remove).2.windowUpdate = s.windowUpdate ∨
        (kiUserNextUpdateWindow s t ≠ 0 ∧ (kiUserTakeMessage s t remove).2.windowUpdate =
          Function.update s.windowUpdate (kiUserNextUpdateWindow s t)
            (s.windowUpdate (kiUserNextUpdateWindow s t) - 1))) := by
  unfold kiUserTakeMessage
  split
  · exact ⟨rfl, .inl rfl⟩
  · dsimp only
    split
    · unfold takePaint
      dsimp only
      split
      · exact ⟨rfl, .inl rfl⟩
      · rename_i some_
        split
        · exact ⟨(SameWindows.sync _ _).owner, .inr ⟨some_, (SameWindows.sync _ _).update⟩⟩
        · exact ⟨rfl, .inr ⟨some_, rfl⟩⟩
    · split
      · exact ⟨(SameWindows.syncQueue s _ _).owner, .inl (SameWindows.syncQueue s _ _).update⟩
      · exact ⟨rfl, .inl rfl⟩

inductive WindowOp where
  | post (poster : Nat) (a : Nat → Nat)
  | postThread (a : Nat → Nat)
  | character (current character : Nat)
  | mouse (current : Nat) (x y : Int) (buttons : Nat)
  | take (t : Nat) (remove : Bool)
  | invalidateRect (a : Nat → Nat)
  | validateRect (a : Nat → Nat)
  | redrawWindow (a : Nat → Nat)
  | showWindow (a : Nat → Nat)
  | setWindowPos (a : Nat → Nat)
  | beginPaint (writable : Bool) (a : Nat → Nat)
  | createWindowEx (current : Nat) (e : Entry) (cls : Option UserClass) (a : Nat → Nat)
  | destroyWindow (a : Nat → Nat)
  | callbackReturn (current : Nat) (e : Entry) (result : Nat)
  | messageCall (current : Nat) (e : Entry) (hwnd message lParam : Nat)
  | dispatchMessage (current : Nat) (e : Entry) (msg : Option (Nat × Nat × Nat))
  | otherCall (current : Nat) (e : Entry) (rax : Nat) (kernel : CallbackKernel)
  | getInputEvent (current : Nat) (made : Option (ObjectRef × Nat))
  | tick (count : Nat)

def WindowState.after (s : WindowState) : WindowOp → WindowState
  | .post poster a => { s with user := (ntUserPostMessage s.user poster a).2 }
  | .postThread a => { s with user := (ntUserPostThreadMessage s.user a).2 }
  | .character current character =>
    { s with user := kiUserQueueCharacter s.user current character }
  | .mouse current x y buttons => { s with user := kiUserQueueMouse s.user current x y buttons }
  | .take t remove => { s with user := (kiUserTakeMessage s.user t remove).2 }
  | .invalidateRect a => ntUserInvalidateRect s a
  | .validateRect a => ntUserValidateRect s a
  | .redrawWindow a => ntUserRedrawWindow s a
  | .showWindow a => ntUserShowWindow s a
  | .setWindowPos a => ntUserSetWindowPos s a
  | .beginPaint writable a => (ntUserBeginPaint s writable a).2
  | .createWindowEx current e cls a => ntUserCreateWindowEx s current e cls a
  | .destroyWindow a => ntUserDestroyWindow s a
  | .callbackReturn current e result => s.serve current e (.callbackReturn result)
  | .messageCall current e hwnd message lParam =>
    s.serve current e (.messageCall hwnd message lParam)
  | .dispatchMessage current e msg => s.serve current e (.dispatchMessage msg)
  | .otherCall current e rax kernel => s.serve current e (.other rax kernel)
  | .getInputEvent current made => { s with user := getInputEvent s.user current made }
  | .tick count => { s with user := { s.user with tickCount := count } }

/-- The state at boot. -/
structure WindowStart (s : WindowState) : Prop where
  queues : ∀ i, (s.user.queues i).head = 0 ∧ (s.user.queues i).tail = 0 ∧
    (s.user.queues i).inputEvent = none
  owners : ∀ slot, s.user.windowOwner slot = 0
  updates : ∀ slot, s.user.windowUpdate slot = 0
  index : s.nextWindowIndex = 1
  fields : ∀ t, s.fields t = .zero

/-- One operation. A new event is none of those that other queues hold: these are not
freed. -/
def WindowStep (s : WindowState) (op : WindowOp) (t : WindowState) : Prop :=
  (∀ current event handle, op = .getInputEvent current (some (event, handle)) →
    ∀ i, (s.user.queues i).inputEvent ≠ some event) ∧ t = s.after op

end User
