import Svindows.Lib.Runs
import Svindows.User.Queues

/-!
# The queues are bounded FIFOs

Beside the state each thread has two lists: the messages accepted for it and
those it has removed. What is pending is what was accepted and not removed.
-/

namespace User

open Nt Ob

/-- The messages waiting for thread `t`, oldest first. -/
def pending (s : UserState) (t : Nat) : List UserMsg :=
  let queue := s.queues (t - 1)
  Ring.contents queue.msgs userMessageQueueCapacity queue.head queue.tail

/-- The indices of every queue are indices of its ring. -/
def Ringed (s : UserState) : Prop :=
  ∀ i, (s.queues i).head < userMessageQueueCapacity ∧ (s.queues i).tail < userMessageQueueCapacity

/-- Threads that have a queue. -/
def HasQueue (t : Nat) : Prop := 1 ≤ t ∧ t ≤ 64

variable {t : Nat} {s : UserState}

theorem kiUserQueueForThread_eq (has : HasQueue t) : kiUserQueueForThread t = some (t - 1) := by
  have range : ¬ (t = 0 ∨ t > userMaxThreadQueues) := by
    have upper := has.2
    have lower := has.1
    unfold userMaxThreadQueues
    omega
  rw [kiUserQueueForThread, if_neg range]

theorem kiUserQueueForThread_none (has : ¬ HasQueue t) : kiUserQueueForThread t = none := by
  have range : t = 0 ∨ t > userMaxThreadQueues := by
    unfold HasQueue at has
    unfold userMaxThreadQueues
    omega
  rw [kiUserQueueForThread, if_pos range]

theorem sync_queues (s : UserState) (i : Nat) : (kiUserSyncInputEvent s i).queues = s.queues := by
  unfold kiUserSyncInputEvent
  split
  · rfl
  · rfl

theorem pending_congr {u : UserState} (same : u.queues = s.queues) (t : Nat) :
    pending u t = pending s t := by
  unfold pending
  rw [same]

theorem Ringed.congr {u : UserState} (ringed : Ringed s) (same : u.queues = s.queues) :
    Ringed u := by
  unfold Ringed
  rw [same]
  exact ringed

theorem Ringed.setQueue (ringed : Ringed s) {i : Nat} {q : UserMsgQueue}
    (head : q.head < userMessageQueueCapacity) (tail : q.tail < userMessageQueueCapacity) :
    Ringed (s.setQueue i q) := by
  intro k
  by_cases here : k = i
  · subst here
    simp only [UserState.setQueue, Function.update_self]
    exact ⟨head, tail⟩
  · simp only [UserState.setQueue, Function.update_of_ne here]
    exact ringed k

theorem pending_setQueue_ne (s : UserState) {i t : Nat} (q : UserMsgQueue) (other : t - 1 ≠ i) :
    pending (s.setQueue i q) t = pending s t := by
  unfold pending UserState.setQueue
  simp only [Function.update_of_ne other]

/-- The message as it is put in a queue. -/
def stamped (s : UserState) (msg : UserMsg) : UserMsg :=
  { msg with time := wrap32 (s.tickCount * 10) }

/-- What posting `msg` to thread `t` does: refused when 63 messages are pending,
and then without effect, else the last of the pending messages. -/
structure Posts (s : UserState) (t : Nat) (msg : UserMsg) (r : Bool × UserState) : Prop where
  refused_iff : r.1 = false ↔ (pending s t).length = 63
  refused : r.1 = false → r.2 = s
  accepted : r.1 = true → pending r.2 t = pending s t ++ [stamped s msg]
  others : ∀ t', HasQueue t' → t' ≠ t → pending r.2 t' = pending s t'

theorem enqueue_posts (ringed : Ringed s) {t : Nat} (has : HasQueue t) (msg : UserMsg) :
    Posts s t msg (enqueue s (t - 1) msg) ∧ Ringed (enqueue s (t - 1) msg).2 := by
  obtain ⟨head, tail⟩ := ringed (t - 1)
  have full := Ring.full_iff head tail
  have count : (pending s t).length =
      Ring.size userMessageQueueCapacity (s.queues (t - 1)).head (s.queues (t - 1)).tail :=
    Ring.length_contents _
  have most : userMessageQueueCapacity - 1 = 63 := rfl
  rw [← count, most] at full
  unfold enqueue
  dsimp only
  split
  · rename_i no
    refine ⟨⟨⟨fun _ => full.mp no, fun _ => rfl⟩, fun _ => rfl, ?_, fun _ _ _ => rfl⟩, ringed⟩
    intro wrong
    exact absurd wrong (by simp)
  · rename_i room
    refine ⟨⟨⟨?_, fun many => absurd (full.mpr many) room⟩, ?_, ?_, ?_⟩, ?_⟩
    · intro wrong
      exact absurd wrong (by simp)
    · intro wrong
      exact absurd wrong (by simp)
    · intro _
      rw [pending_congr (sync_queues _ _)]
      unfold pending UserState.setQueue
      simp only [Function.update_self]
      exact Ring.contents_push head tail _ _ room
    · intro t' has' other
      rw [pending_congr (sync_queues _ _)]
      refine pending_setQueue_ne s _ ?_
      have lower := has.1
      have lower' := has'.1
      omega
    · refine Ringed.congr ?_ (sync_queues _ _)
      exact ringed.setQueue (Ring.next_lt head) tail

/-- The owner of the window, or the thread that posts when it has none. -/
def recipient (s : UserState) (poster hwnd : Nat) : Nat :=
  if kiUserWindowOwner s hwnd ≠ 0 then kiUserWindowOwner s hwnd else poster

theorem targetThread_eq (s : UserState) (poster hwnd : Nat) :
    targetThread s poster hwnd = recipient s poster hwnd := by
  unfold targetThread recipient
  by_cases window : hwnd = 0
  · have none : kiUserWindowOwner s 0 = 0 := rfl
    simp [window, none]
  · by_cases owner : kiUserWindowOwner s hwnd = 0
    · simp [window, owner]
    · simp [window, owner]

def windowMessage (hwnd message wParam lParam : Nat) (x y : Int) : UserMsg :=
  ⟨hwnd, message, wParam, lParam, 0, x, y⟩

def threadMessage (message wParam lParam : Nat) : UserMsg :=
  ⟨0, message, wParam, lParam, 0, 0, 0⟩

theorem kiUserEnqueueMessage_posts (ringed : Ringed s) {poster hwnd : Nat}
    (has : HasQueue (recipient s poster hwnd)) (message wParam lParam : Nat) (x y : Int) :
    Posts s (recipient s poster hwnd) (windowMessage hwnd message wParam lParam x y)
        (kiUserEnqueueMessage s poster hwnd message wParam lParam x y) ∧
      Ringed (kiUserEnqueueMessage s poster hwnd message wParam lParam x y).2 := by
  unfold kiUserEnqueueMessage
  rw [targetThread_eq, kiUserQueueForThread_eq has]
  exact enqueue_posts ringed has (windowMessage hwnd message wParam lParam x y)

theorem kiUserEnqueueThreadMessage_posts (ringed : Ringed s) {t : Nat}
    (has : HasQueue t) (message wParam lParam : Nat) :
    Posts s t (threadMessage message wParam lParam)
        (kiUserEnqueueThreadMessage s t message wParam lParam) ∧
      Ringed (kiUserEnqueueThreadMessage s t message wParam lParam).2 := by
  unfold kiUserEnqueueThreadMessage
  rw [kiUserQueueForThread_eq has]
  exact enqueue_posts ringed has (threadMessage message wParam lParam)

theorem kiUserEnqueueMessage_none {poster hwnd : Nat}
    (has : ¬ HasQueue (recipient s poster hwnd)) (message wParam lParam : Nat) (x y : Int) :
    kiUserEnqueueMessage s poster hwnd message wParam lParam x y = (false, s) := by
  unfold kiUserEnqueueMessage
  rw [targetThread_eq, kiUserQueueForThread_none has]

theorem kiUserEnqueueThreadMessage_none (has : ¬ HasQueue t) (message wParam lParam : Nat) :
    kiUserEnqueueThreadMessage s t message wParam lParam = (false, s) := by
  unfold kiUserEnqueueThreadMessage
  rw [kiUserQueueForThread_none has]

theorem takePaint_queues (s : UserState) (i tid : Nat) : (takePaint s i tid).2.queues = s.queues := by
  unfold takePaint
  dsimp only
  split
  · rfl
  · split
    · rw [sync_queues]
    · rfl

/-- A message made up for a window of thread `t` that owes a paint. -/
def IsPaint (s : UserState) (t : Nat) (msg : UserMsg) : Prop :=
  msg.message = wmPaint ∧ msg.hwnd = 0x10000 + kiUserNextUpdateWindow s t

/-- What a take by thread `t` does: the oldest pending message, which goes when
it is removed; a paint message only when none is pending. -/
structure Takes (s : UserState) (t : Nat) (remove : Bool) (r : Option UserMsg × UserState) :
    Prop where
  oldest : ∀ msg rest, pending s t = msg :: rest → r.1 = some msg
  removes : ∀ msg rest, pending s t = msg :: rest → remove = true → pending r.2 t = rest
  peeks : pending s t ≠ [] → remove = false → r.2 = s
  paints : pending s t = [] → r.2.queues = s.queues ∧ ∀ msg, r.1 = some msg → IsPaint s t msg
  others : ∀ t', HasQueue t' → t' ≠ t → pending r.2 t' = pending s t'

theorem takePaint_isPaint {i : Nat} {msg : UserMsg}
    (made : (takePaint s i t).1 = some msg) : IsPaint s t msg := by
  unfold takePaint at made
  dsimp only at made
  split at made
  · exact absurd made (by simp)
  · obtain rfl := Option.some.inj made
    exact ⟨rfl, rfl⟩

theorem kiUserTakeMessage_takes (ringed : Ringed s) {t : Nat} (has : HasQueue t) (remove : Bool) :
    Takes s t remove (kiUserTakeMessage s t remove) ∧ Ringed (kiUserTakeMessage s t remove).2 := by
  obtain ⟨head, tail⟩ := ringed (t - 1)
  have empty : pending s t = [] ↔ (s.queues (t - 1)).tail = (s.queues (t - 1)).head :=
    Ring.contents_eq_nil tail
  unfold kiUserTakeMessage
  rw [kiUserQueueForThread_eq has]
  dsimp only
  split
  · rename_i none
    have nothing := empty.mpr none
    refine ⟨⟨?_, ?_, fun some_ => absurd nothing some_, ?_, ?_⟩, ?_⟩
    · intro msg rest some_
      exact absurd (nothing.symm.trans some_) (by simp)
    · intro msg rest some_
      exact absurd (nothing.symm.trans some_) (by simp)
    · intro _
      exact ⟨takePaint_queues _ _ _, fun msg made => takePaint_isPaint made⟩
    · intro t' _ _
      exact pending_congr (takePaint_queues _ _ _) t'
    · exact ringed.congr (takePaint_queues _ _ _)
  · rename_i some_
    have split_ : pending s t = (s.queues (t - 1)).msgs (s.queues (t - 1)).tail ::
        Ring.contents (s.queues (t - 1)).msgs userMessageQueueCapacity (s.queues (t - 1)).head
          (((s.queues (t - 1)).tail + 1) % userMessageQueueCapacity) :=
      Ring.contents_pop head tail _ some_
    refine ⟨⟨?_, ?_, ?_, fun none => absurd (empty.mp none) some_, ?_⟩, ?_⟩
    · intro msg rest here
      rw [split_] at here
      rw [(List.cons.inj here).1]
    · intro msg rest here removed
      rw [split_] at here
      rw [if_pos removed, pending_congr (sync_queues _ _), ← (List.cons.inj here).2]
      unfold pending UserState.setQueue
      simp only [Function.update_self]
    · intro _ kept
      rw [kept]
      rfl
    · intro t' has' other
      dsimp only
      split
      · rw [pending_congr (sync_queues _ _)]
        refine pending_setQueue_ne s _ ?_
        have lower := has.1
        have lower' := has'.1
        omega
      · rfl
    · dsimp only
      split
      · refine Ringed.congr ?_ (sync_queues _ _)
        exact ringed.setQueue head (Ring.next_lt tail)
      · exact ringed

theorem syncOwner_queues (s : UserState) (slot : Nat) : (syncOwner s slot).queues = s.queues := by
  unfold syncOwner
  split
  · rfl
  · exact sync_queues s _

theorem kiUserInvalidateWindow_queues (s : UserState) (slot : Nat) :
    (kiUserInvalidateWindow s slot).queues = s.queues := by
  unfold kiUserInvalidateWindow
  split
  · rfl
  · rw [syncOwner_queues]

theorem kiUserValidateWindow_queues (s : UserState) (slot : Nat) :
    (kiUserValidateWindow s slot).queues = s.queues := by
  unfold kiUserValidateWindow
  split
  · rfl
  · rw [syncOwner_queues]

/-- The state, and for each thread the messages accepted for it and removed by it. -/
structure Mail where
  user : UserState
  accepted : Nat → List UserMsg
  removed : Nat → List UserMsg

/-- A post of `msg` to thread `t` with result `r`, noted. -/
def Mail.note (w : Mail) (t : Nat) (msg : UserMsg) (r : Bool × UserState) : Mail :=
  { w with
    user := r.2
    accepted := if r.1 then Function.update w.accepted t (w.accepted t ++ [stamped w.user msg])
      else w.accepted }

def Mail.postMessage (w : Mail) (poster hwnd message wParam lParam : Nat) (x y : Int) : Mail :=
  w.note (recipient w.user poster hwnd) (windowMessage hwnd message wParam lParam x y)
    (kiUserEnqueueMessage w.user poster hwnd message wParam lParam x y)

def Mail.postThreadMessage (w : Mail) (t message wParam lParam : Nat) : Mail :=
  w.note t (threadMessage message wParam lParam)
    (kiUserEnqueueThreadMessage w.user t message wParam lParam)

def Mail.queueCharacter (w : Mail) (current character : Nat) : Mail :=
  if w.user.activeHwnd = 0 then w
  else w.postMessage current w.user.activeHwnd wmChar character 1 0 0

def Mail.queueButton (w : Mail) (current buttons bit down up wParam lParam : Nat) (x y : Int) :
    Mail :=
  if buttons.testBit bit ≠ w.user.mouseButtons.testBit bit then
    w.postMessage current w.user.activeHwnd (buttonMessage buttons bit down up) wParam lParam x y
  else w

def Mail.setMouseButtons (w : Mail) (buttons : Nat) : Mail :=
  { w with user := { w.user with mouseButtons := buttons } }

def Mail.queueMouse (w : Mail) (current : Nat) (x y : Int) (buttons : Nat) : Mail :=
  if w.user.activeHwnd = 0 then w.setMouseButtons buttons
  else
    let wParam := buttons % 4
    let lParam := (y % 0x10000).toNat * 0x10000 + (x % 0x10000).toNat
    let w := w.postMessage current w.user.activeHwnd wmMouseMove wParam lParam x y
    let w := w.queueButton current buttons 0 wmLButtonDown wmLButtonUp wParam lParam x y
    let w := w.queueButton current buttons 1 wmRButtonDown wmRButtonUp wParam lParam x y
    w.setMouseButtons buttons

/-- A take by thread `t`; unless a paint message is made up for want of others,
what it returns is noted when it is removed. -/
def Mail.take (w : Mail) (t : Nat) (remove : Bool) : Mail :=
  let r := kiUserTakeMessage w.user t remove
  { w with
    user := r.2
    removed := if remove && !(pending w.user t).isEmpty then
        Function.update w.removed t (w.removed t ++ r.1.toList)
      else w.removed }

theorem Mail.queueButton_user (w : Mail) (current buttons bit down up wParam lParam : Nat)
    (x y : Int) :
    (w.queueButton current buttons bit down up wParam lParam x y).user =
      User.queueButton w.user current buttons bit down up wParam lParam x y := by
  unfold Mail.queueButton User.queueButton
  split
  · rfl
  · rfl

/-- The notes do not change what the mouse interrupt does. -/
theorem Mail.queueMouse_user (w : Mail) (current : Nat) (x y : Int) (buttons : Nat) :
    (w.queueMouse current x y buttons).user = kiUserQueueMouse w.user current x y buttons := by
  unfold Mail.queueMouse kiUserQueueMouse
  by_cases inactive : w.user.activeHwnd = 0
  · rw [if_pos inactive, if_pos inactive]
    rfl
  · rw [if_neg inactive, if_neg inactive]
    simp only [Mail.setMouseButtons, Mail.queueButton_user]
    rfl

theorem Mail.queueCharacter_user (w : Mail) (current character : Nat) :
    (w.queueCharacter current character).user =
      kiUserQueueCharacter w.user current character := by
  unfold Mail.queueCharacter kiUserQueueCharacter
  split
  · rfl
  · rfl

inductive MailOp where
  | post (poster : Nat) (a : Nat → Nat)
  | postThread (a : Nat → Nat)
  | character (current character : Nat)
  | mouse (current : Nat) (x y : Int) (buttons : Nat)
  | take (t : Nat) (remove : Bool)
  | invalidate (slot : Nat)
  | validate (slot : Nat)
  /-- A window is made or destroyed. -/
  | own (slot t : Nat)
  | activate (hwnd : Nat)
  | tick (count : Nat)
  /-- A queue gets its input event. -/
  | listen (i : Nat) (event : ObjectRef) (handle : Nat)

def UserState.listen (s : UserState) (i : Nat) (event : ObjectRef) (handle : Nat) : UserState :=
  kiUserSyncInputEvent (s.setQueue i { s.queues i with
    inputEvent := some event
    inputEventHandle := handle }) i

/-- What the kernel does, without the notes. -/
def UserState.served (s : UserState) : MailOp → UserState
  | .post poster a => (ntUserPostMessage s poster a).2
  | .postThread a => (ntUserPostThreadMessage s a).2
  | .character current character => kiUserQueueCharacter s current character
  | .mouse current x y buttons => kiUserQueueMouse s current x y buttons
  | .take t remove => (kiUserTakeMessage s t remove).2
  | .invalidate slot => kiUserInvalidateWindow s slot
  | .validate slot => kiUserValidateWindow s slot
  | .own slot t => { s with windowOwner := Function.update s.windowOwner slot t }
  | .activate hwnd => { s with activeHwnd := hwnd }
  | .tick count => { s with tickCount := count }
  | .listen i event handle => s.listen i event handle

def Mail.after (w : Mail) : MailOp → Mail
  | .post poster a => w.note (recipient w.user poster (a 0))
      (windowMessage (a 0) (wrap32 (a 1)) (a 2) (a 3) 0 0) (ntUserPostMessage w.user poster a)
  | .postThread a => w.note (wrap32 (a 0)) (threadMessage (wrap32 (a 1)) (a 2) (a 3))
      (ntUserPostThreadMessage w.user a)
  | .character current character => w.queueCharacter current character
  | .mouse current x y buttons => w.queueMouse current x y buttons
  | .take t remove => w.take t remove
  | .invalidate slot => { w with user := kiUserInvalidateWindow w.user slot }
  | .validate slot => { w with user := kiUserValidateWindow w.user slot }
  | .own slot t => { w with user := { w.user with
      windowOwner := Function.update w.user.windowOwner slot t } }
  | .activate hwnd => { w with user := { w.user with activeHwnd := hwnd } }
  | .tick count => { w with user := { w.user with tickCount := count } }
  | .listen i event handle => { w with user := w.user.listen i event handle }

theorem Mail.after_user (w : Mail) (op : MailOp) : (w.after op).user = w.user.served op := by
  cases op with
  | character current character => exact w.queueCharacter_user current character
  | mouse current x y buttons => exact w.queueMouse_user current x y buttons
  | _ => rfl

/-- The queues at boot, with nothing posted yet. -/
def MailStart (w : Mail) : Prop :=
  (∀ i, (w.user.queues i).head = 0 ∧ (w.user.queues i).tail = 0) ∧
    (∀ t, w.accepted t = []) ∧ ∀ t, w.removed t = []

def MailStep (w : Mail) (op : MailOp) (v : Mail) : Prop := v = w.after op

/-- What was accepted and not removed is pending. -/
structure Delivered (w : Mail) : Prop where
  ringed : Ringed w.user
  fifo : ∀ t, HasQueue t → w.accepted t = w.removed t ++ pending w.user t

variable {w : Mail}

theorem Delivered.congr (kept : Delivered w) {u : UserState}
    (same : u.queues = w.user.queues) : Delivered { w with user := u } :=
  ⟨kept.ringed.congr same, fun t has => by
    rw [pending_congr same]
    exact kept.fifo t has⟩

theorem Delivered.note (kept : Delivered w) {t : Nat} {msg : UserMsg}
    {r : Bool × UserState} (posts : Posts w.user t msg r) (ringed : Ringed r.2) :
    Delivered (w.note t msg r) := by
  refine ⟨ringed, ?_⟩
  intro t' has
  cases result : r.1 with
  | false =>
    simp only [Mail.note, result, posts.refused result]
    exact kept.fifo t' has
  | true =>
    simp only [Mail.note, result, if_true]
    by_cases here : t' = t
    · subst here
      rw [Function.update_self, posts.accepted result, kept.fifo t' has, List.append_assoc]
    · rw [Function.update_of_ne here, posts.others t' has here]
      exact kept.fifo t' has

theorem Mail.note_refused (w : Mail) (t : Nat) (msg : UserMsg) :
    w.note t msg (false, w.user) = w :=
  rfl

theorem Delivered.postMessage (kept : Delivered w)
    (poster hwnd message wParam lParam : Nat) (x y : Int) :
    Delivered (w.postMessage poster hwnd message wParam lParam x y) := by
  unfold Mail.postMessage
  by_cases has : HasQueue (recipient w.user poster hwnd)
  · obtain ⟨posts, ringed⟩ :=
      kiUserEnqueueMessage_posts kept.ringed has message wParam lParam x y
    exact kept.note posts ringed
  · rw [kiUserEnqueueMessage_none has, Mail.note_refused]
    exact kept

theorem Delivered.postThreadMessage (kept : Delivered w) (t message wParam lParam : Nat) :
    Delivered (w.postThreadMessage t message wParam lParam) := by
  unfold Mail.postThreadMessage
  by_cases has : HasQueue t
  · obtain ⟨posts, ringed⟩ := kiUserEnqueueThreadMessage_posts kept.ringed has message wParam lParam
    exact kept.note posts ringed
  · rw [kiUserEnqueueThreadMessage_none has, Mail.note_refused]
    exact kept

theorem Delivered.queueButton (kept : Delivered w)
    (current buttons bit down up wParam lParam : Nat) (x y : Int) :
    Delivered (w.queueButton current buttons bit down up wParam lParam x y) := by
  unfold Mail.queueButton
  split
  · exact kept.postMessage _ _ _ _ _ _ _
  · exact kept

theorem Delivered.queueMouse (kept : Delivered w) (current : Nat) (x y : Int)
    (buttons : Nat) : Delivered (w.queueMouse current x y buttons) := by
  unfold Mail.queueMouse
  split
  · exact kept.congr rfl
  · have moved := kept.postMessage current w.user.activeHwnd wmMouseMove (buttons % 4)
      ((y % 0x10000).toNat * 0x10000 + (x % 0x10000).toNat) x y
    have left := moved.queueButton current buttons 0 wmLButtonDown wmLButtonUp (buttons % 4)
      ((y % 0x10000).toNat * 0x10000 + (x % 0x10000).toNat) x y
    have right := left.queueButton current buttons 1 wmRButtonDown wmRButtonUp (buttons % 4)
      ((y % 0x10000).toNat * 0x10000 + (x % 0x10000).toNat) x y
    exact right.congr rfl

theorem kiUserTakeMessage_none (has : ¬ HasQueue t) (remove : Bool) :
    kiUserTakeMessage s t remove = (none, s) := by
  unfold kiUserTakeMessage
  rw [kiUserQueueForThread_none has]

theorem Mail.take_removed_ne (w : Mail) (t : Nat) (remove : Bool) {t' : Nat} (other : t' ≠ t) :
    (w.take t remove).removed t' = w.removed t' := by
  unfold Mail.take
  dsimp only
  split
  · rw [Function.update_of_ne other]
  · rfl

theorem Delivered.take (kept : Delivered w) (t : Nat) (remove : Bool) :
    Delivered (w.take t remove) := by
  by_cases has : HasQueue t
  · obtain ⟨takes, ringed⟩ := kiUserTakeMessage_takes kept.ringed has remove
    refine ⟨ringed, ?_⟩
    intro t' has'
    show w.accepted t' = (w.take t remove).removed t' ++
      pending (kiUserTakeMessage w.user t remove).2 t'
    by_cases here : t' = t
    · subst here
      have before := kept.fifo t' has
      cases waiting : pending w.user t' with
      | nil =>
        rw [pending_congr (takes.paints waiting).1 t', before]
        simp [Mail.take, waiting]
      | cons msg rest =>
        cases remove with
        | false =>
          rw [takes.peeks (by simp [waiting]) rfl, before]
          simp [Mail.take]
        | true =>
          rw [takes.removes msg rest waiting rfl, before, waiting]
          simp [Mail.take, waiting, takes.oldest msg rest waiting]
    · rw [takes.others t' has' here, kept.fifo t' has', Mail.take_removed_ne w t remove here]
  · have still : (w.take t remove).user = w.user := by
      simp only [Mail.take, kiUserTakeMessage_none has]
    refine ⟨kept.ringed.congr (by rw [still]), ?_⟩
    intro t' has'
    have other : t' ≠ t := fun same => has (same ▸ has')
    rw [still, Mail.take_removed_ne w t remove other]
    exact kept.fifo t' has'

theorem listen_pending (s : UserState) (i : Nat) (event : ObjectRef) (handle t : Nat) :
    pending (s.listen i event handle) t = pending s t := by
  unfold UserState.listen
  rw [pending_congr (sync_queues _ _)]
  unfold pending UserState.setQueue
  by_cases here : t - 1 = i
  · simp only [here, Function.update_self]
  · simp only [Function.update_of_ne here]

theorem Ringed.listen (ringed : Ringed s) (i : Nat) (event : ObjectRef)
    (handle : Nat) : Ringed (s.listen i event handle) := by
  unfold UserState.listen
  refine Ringed.congr ?_ (sync_queues _ _)
  exact ringed.setQueue (ringed i).1 (ringed i).2

theorem Delivered.after (kept : Delivered w) (op : MailOp) : Delivered (w.after op) := by
  cases op with
  | post poster a => exact kept.postMessage poster (a 0) (wrap32 (a 1)) (a 2) (a 3) 0 0
  | postThread a => exact kept.postThreadMessage (wrap32 (a 0)) (wrap32 (a 1)) (a 2) (a 3)
  | character current character =>
    simp only [Mail.after, Mail.queueCharacter]
    split
    · exact kept
    · exact kept.postMessage _ _ _ _ _ _ _
  | mouse current x y buttons => exact kept.queueMouse current x y buttons
  | take t remove => exact kept.take t remove
  | invalidate slot => exact kept.congr (kiUserInvalidateWindow_queues w.user slot)
  | validate slot => exact kept.congr (kiUserValidateWindow_queues w.user slot)
  | own slot t => exact kept.congr rfl
  | activate hwnd => exact kept.congr rfl
  | tick count => exact kept.congr rfl
  | listen i event handle =>
    refine ⟨kept.ringed.listen i event handle, ?_⟩
    intro t has
    simp only [Mail.after]
    rw [listen_pending]
    exact kept.fifo t has

/-- In every interleaving each queue is a FIFO of at most 63 messages, kept
apart from the others. -/
theorem message_queues_are_fifos {w : Mail} (run : Runs.Reachable MailStart MailStep w) :
    (∀ t, HasQueue t → w.accepted t = w.removed t ++ pending w.user t) ∧
    (∀ op, (w.after op).user = w.user.served op) ∧
    (∀ poster a, HasQueue (recipient w.user poster (a 0)) →
      Posts w.user (recipient w.user poster (a 0))
        (windowMessage (a 0) (wrap32 (a 1)) (a 2) (a 3) 0 0) (ntUserPostMessage w.user poster a)) ∧
    (∀ a, HasQueue (wrap32 (a 0)) → Posts w.user (wrap32 (a 0))
      (threadMessage (wrap32 (a 1)) (a 2) (a 3)) (ntUserPostThreadMessage w.user a)) ∧
    (∀ poster hwnd message wParam lParam x y, HasQueue (recipient w.user poster hwnd) →
      Posts w.user (recipient w.user poster hwnd) (windowMessage hwnd message wParam lParam x y)
        (kiUserEnqueueMessage w.user poster hwnd message wParam lParam x y)) ∧
    (∀ t message wParam lParam, HasQueue t →
      Posts w.user t (threadMessage message wParam lParam)
        (kiUserEnqueueThreadMessage w.user t message wParam lParam)) ∧
    (∀ t remove, HasQueue t → Takes w.user t remove (kiUserTakeMessage w.user t remove)) := by
  have delivered : Delivered w := by
    refine run.invariant ?_ ?_
    · rintro v ⟨empty, accepted, removed⟩
      refine ⟨?_, ?_⟩
      · intro i
        rw [(empty i).1, (empty i).2]
        exact ⟨by decide, by decide⟩
      · intro t _
        have none : pending v.user t = [] := by
          refine (Ring.contents_eq_nil ?_).mpr ?_
          · rw [(empty (t - 1)).2]
            decide
          · rw [(empty (t - 1)).1, (empty (t - 1)).2]
        rw [accepted, removed, none]
        rfl
    · rintro v op _ kept rfl
      exact kept.after op
  refine ⟨delivered.fifo, w.after_user, ?_, ?_, ?_, ?_, ?_⟩
  · intro poster a has
    exact (kiUserEnqueueMessage_posts delivered.ringed has _ _ _ _ _).1
  · intro a has
    exact (kiUserEnqueueThreadMessage_posts delivered.ringed has _ _ _).1
  · intro poster hwnd message wParam lParam x y has
    exact (kiUserEnqueueMessage_posts delivered.ringed has message wParam lParam x y).1
  · intro t message wParam lParam has
    exact (kiUserEnqueueThreadMessage_posts delivered.ringed has message wParam lParam).1
  · intro t remove has
    exact (kiUserTakeMessage_takes delivered.ringed has remove).1

/-- Empty queues and no windows. -/
def bootMail : Mail where
  user :=
    { queues := fun _ => ⟨fun _ => .zero, 0, 0, none, 0⟩
      windowOwner := fun _ => 0
      windowUpdate := fun _ => 0
      activeHwnd := 0
      mouseButtons := 0
      tickCount := 0
      eventCalls := [] }
  accepted := fun _ => []
  removed := fun _ => []

/-- Two messages for thread 1, one of them its own, which it then takes. -/
theorem message_queues_are_fifos_two_messages :
    let w := (((bootMail.after (.postThread fun k => if k = 0 then 1 else 7)).after
      (.post 1 fun k => if k = 0 then 0 else 8)).after (.take 1 true)).after (.take 1 true)
    w.removed 1 = [⟨0, 7, 7, 7, 0, 0, 0⟩, ⟨0, 8, 8, 8, 0, 0, 0⟩] ∧
      w.accepted 1 = w.removed 1 ++ pending w.user 1 := by
  refine ⟨by decide, ?_⟩
  have boot : Runs.Reachable MailStart MailStep bootMail :=
    .of_initial ⟨fun _ => ⟨rfl, rfl⟩, fun _ => rfl, fun _ => rfl⟩
  have first := boot.next (l := .postThread fun k => if k = 0 then 1 else 7) rfl
  have second := first.next (l := .post 1 fun k => if k = 0 then 0 else 8) rfl
  have taken := (second.next (l := .take 1 true) rfl).next (l := .take 1 true) rfl
  exact (message_queues_are_fifos taken).1 1 ⟨by decide, by decide⟩

end User
