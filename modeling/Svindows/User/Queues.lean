import Svindows.Lib.Ring
import Svindows.Ob.Object

/-!
# Posted messages and update regions

The per-thread message queues of `ke/syscall.c`, the owner and the update count
of each window slot, and the input event of each queue. What `KeSetEvent` and
`KeResetEvent` do to an event is the dispatcher's; here the calls are kept in
order. A thread is known by its id, and 0 stands for no thread.
-/

namespace User

open Nt Ob

def userMessageQueueCapacity : Nat := 64
def userMaxThreadQueues : Nat := 64
def userPaintSlots : Nat := 128
def userPaintRedelivery : Nat := 4

def wmPaint : Nat := 0x000F
def wmChar : Nat := 0x0102
def wmMouseMove : Nat := 0x0200
def wmLButtonDown : Nat := 0x0201
def wmLButtonUp : Nat := 0x0202
def wmRButtonDown : Nat := 0x0204
def wmRButtonUp : Nat := 0x0205

/-- `USER_MSG_LOCAL`; its padding and private words are always 0. -/
structure UserMsg where
  hwnd : Nat
  message : Nat
  wParam : Nat
  lParam : Nat
  time : Nat
  ptX : Int
  ptY : Int
  deriving DecidableEq, Repr

def UserMsg.zero : UserMsg := ⟨0, 0, 0, 0, 0, 0, 0⟩

structure UserMsgQueue where
  msgs : Nat → UserMsg
  head : Nat
  tail : Nat
  inputEvent : Option ObjectRef
  inputEventHandle : Nat

structure UserState where
  /-- `g_user_thread_queues`. -/
  queues : Nat → UserMsgQueue
  windowOwner : Nat → Nat
  windowUpdate : Nat → Nat
  activeHwnd : Nat
  mouseButtons : Nat
  /-- What `KeGetTickCount` returns. -/
  tickCount : Nat
  /-- The calls of `KeSetEvent` (true) and `KeResetEvent` (false) so far. -/
  eventCalls : List (ObjectRef × Bool)

def UserState.setQueue (s : UserState) (i : Nat) (q : UserMsgQueue) : UserState :=
  { s with queues := Function.update s.queues i q }

def kiUserQueueForThread (threadId : Nat) : Option Nat :=
  if threadId = 0 ∨ threadId > userMaxThreadQueues then none else some (threadId - 1)

def kiUserWindowOwner (s : UserState) (hwnd : Nat) : Nat :=
  let slot := hwnd % 0x10000
  if slot = 0 ∨ slot ≥ 128 then 0 else s.windowOwner slot

/-- The first window of thread `tid` that still owes a `WM_PAINT`, or 0. -/
def kiUserNextUpdateWindow (s : UserState) (tid : Nat) : Nat :=
  if tid = 0 then 0
  else ((List.range userPaintSlots).find? fun slot =>
    slot ≠ 0 ∧ s.windowUpdate slot ≠ 0 ∧ s.windowOwner slot = tid).getD 0

/-- `KiUserSyncInputEvent` on queue `i`, which belongs to thread `i + 1`. -/
def kiUserSyncInputEvent (s : UserState) (i : Nat) : UserState :=
  match (s.queues i).inputEvent with
  | none => s
  | some event =>
    let signaled := (s.queues i).head ≠ (s.queues i).tail ∨ kiUserNextUpdateWindow s (i + 1) ≠ 0
    { s with eventCalls := s.eventCalls ++ [(event, decide signaled)] }

/-- What both enqueue routines do once they have the queue. -/
def enqueue (s : UserState) (i : Nat) (msg : UserMsg) : Bool × UserState :=
  let queue := s.queues i
  let next := (queue.head + 1) % userMessageQueueCapacity
  if next = queue.tail then (false, s)
  else
    let s := s.setQueue i { queue with
      msgs := Function.update queue.msgs queue.head { msg with
        time := wrap32 (s.tickCount * 10) }
      head := next }
    (true, kiUserSyncInputEvent s i)

/-- The thread a message for `hwnd` goes to: the window's owner, or the thread
that posts when there is none. -/
def targetThread (s : UserState) (current hwnd : Nat) : Nat :=
  let tid := if hwnd ≠ 0 then kiUserWindowOwner s hwnd else 0
  if tid = 0 then current else tid

def kiUserEnqueueMessage (s : UserState) (current hwnd message wParam lParam : Nat) (x y : Int) :
    Bool × UserState :=
  match kiUserQueueForThread (targetThread s current hwnd) with
  | none => (false, s)
  | some i => enqueue s i { UserMsg.zero with hwnd, message, wParam, lParam, ptX := x, ptY := y }

def kiUserEnqueueThreadMessage (s : UserState) (targetTid message wParam lParam : Nat) :
    Bool × UserState :=
  match kiUserQueueForThread targetTid with
  | none => (false, s)
  | some i => enqueue s i { UserMsg.zero with message, wParam, lParam }

def ntUserPostMessage (s : UserState) (current : Nat) (a : Nat → Nat) : Bool × UserState :=
  kiUserEnqueueMessage s current (a 0) (wrap32 (a 1)) (a 2) (a 3) 0 0

def ntUserPostThreadMessage (s : UserState) (a : Nat → Nat) : Bool × UserState :=
  kiUserEnqueueThreadMessage s (wrap32 (a 0)) (wrap32 (a 1)) (a 2) (a 3)

/-- `current` is the thread the interrupt came to. -/
def kiUserQueueCharacter (s : UserState) (current character : Nat) : UserState :=
  if s.activeHwnd = 0 then s
  else (kiUserEnqueueMessage s current s.activeHwnd wmChar character 1 0 0).2

def buttonMessage (buttons bit down up : Nat) : Nat := if buttons.testBit bit then down else up

/-- The message for a button that changed, if it did. -/
def queueButton (s : UserState) (current buttons bit down up wParam lParam : Nat) (x y : Int) :
    UserState :=
  if buttons.testBit bit ≠ s.mouseButtons.testBit bit then
    (kiUserEnqueueMessage s current s.activeHwnd (buttonMessage buttons bit down up)
      wParam lParam x y).2
  else s

def kiUserQueueMouse (s : UserState) (current : Nat) (x y : Int) (buttons : Nat) : UserState :=
  if s.activeHwnd = 0 then { s with mouseButtons := buttons }
  else
    let wParam := buttons % 4
    let lParam := (y % 0x10000).toNat * 0x10000 + (x % 0x10000).toNat
    let s := (kiUserEnqueueMessage s current s.activeHwnd wmMouseMove wParam lParam x y).2
    let s := queueButton s current buttons 0 wmLButtonDown wmLButtonUp wParam lParam x y
    let s := queueButton s current buttons 1 wmRButtonDown wmRButtonUp wParam lParam x y
    { s with mouseButtons := buttons }

def syncOwner (s : UserState) (slot : Nat) : UserState :=
  match kiUserQueueForThread (s.windowOwner slot) with
  | none => s
  | some i => kiUserSyncInputEvent s i

def kiUserInvalidateWindow (s : UserState) (slot : Nat) : UserState :=
  if slot = 0 ∨ slot ≥ userPaintSlots then s
  else syncOwner { s with windowUpdate := Function.update s.windowUpdate slot userPaintRedelivery }
    slot

def kiUserValidateWindow (s : UserState) (slot : Nat) : UserState :=
  if slot = 0 ∨ slot ≥ userPaintSlots then s
  else syncOwner { s with windowUpdate := Function.update s.windowUpdate slot 0 } slot

/-- A `WM_PAINT` made up for the first window that owes one. -/
def takePaint (s : UserState) (i tid : Nat) : Option UserMsg × UserState :=
  let slot := kiUserNextUpdateWindow s tid
  if slot = 0 then (none, s)
  else
    let out := { UserMsg.zero with
      hwnd := 0x10000 + slot
      message := wmPaint
      time := wrap32 (s.tickCount * 10) }
    let owed := s.windowUpdate slot - 1
    let u := { s with windowUpdate := Function.update s.windowUpdate slot owed }
    (some out, if owed = 0 then kiUserSyncInputEvent u i else u)

def kiUserTakeMessage (s : UserState) (current : Nat) (remove : Bool) :
    Option UserMsg × UserState :=
  match kiUserQueueForThread current with
  | none => (none, s)
  | some i =>
    let queue := s.queues i
    if queue.tail = queue.head then takePaint s i current
    else
      (some (queue.msgs queue.tail),
        if remove then
          kiUserSyncInputEvent (s.setQueue i { queue with
            tail := (queue.tail + 1) % userMessageQueueCapacity }) i
        else s)

end User
