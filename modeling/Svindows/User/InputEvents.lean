import Svindows.Ob.HandleTable
import Svindows.Ob.LifetimeRuns
import Svindows.User.QueueRuns

/-!
# Input events

A queue keeps the address of its input event and no reference to it: the event
lives by the handle that was made for it. It stays alive as long as nobody
closes that handle.
-/

namespace User

open Nt Ob

/-- `PsCreateNotificationEvent`: the status, the event and its handle. -/
def psCreateNotificationEvent (s : ObState) (eventType : TypeRef) (block : Option ObjectRef) :
    NtStatus × ObjectRef × Nat × ObState :=
  let (status, s) := obCreateObject s eventType block 1
  match ntSuccess status, block with
  | true, some o =>
    let (status, handle, s) := obCreateHandle s o genericAll 1
    if ntSuccess status then (statusSuccess, o, handle, obDereferenceObject s o)
    else (statusNoMemory, 0, 0, obDereferenceObject s o)
  | _, _ => (statusNoMemory, 0, 0, s)

/-- `KiUserGetInputEvent` by the thread `current`. -/
def kiUserGetInputEvent (ob : ObState) (user : UserState) (eventType : TypeRef) (current : Nat)
    (block : Option ObjectRef) : Nat × ObState × UserState :=
  match kiUserQueueForThread current with
  | none => (0, ob, user)
  | some i =>
    match (user.queues i).inputEvent with
    | some _ => ((user.queues i).inputEventHandle, ob, kiUserSyncInputEvent user i)
    | none =>
      let (status, event, handle, ob) := psCreateNotificationEvent ob eventType block
      if ntSuccess status then (handle, ob, user.listen i event handle) else (0, ob, user)

/-- `u` is `s` after operations that change no input event and signal none but
those of the queues. -/
structure Signals (s u : UserState) : Prop where
  event : ∀ i, (u.queues i).inputEvent = (s.queues i).inputEvent
  handle : ∀ i, (u.queues i).inputEventHandle = (s.queues i).inputEventHandle
  calls : ∃ calls, u.eventCalls = s.eventCalls ++ calls ∧
    ∀ c ∈ calls, ∃ i, (s.queues i).inputEvent = some c.1

theorem Signals.refl (s : UserState) : Signals s s :=
  ⟨fun _ => rfl, fun _ => rfl, [], (List.append_nil _).symm, fun c hc => absurd hc (by simp)⟩

theorem Signals.trans {s t u : UserState} (first : Signals s t) (second : Signals t u) :
    Signals s u := by
  refine ⟨fun i => (second.event i).trans (first.event i),
    fun i => (second.handle i).trans (first.handle i), ?_⟩
  obtain ⟨calls₁, same₁, mine₁⟩ := first.calls
  obtain ⟨calls₂, same₂, mine₂⟩ := second.calls
  refine ⟨calls₁ ++ calls₂, by rw [same₂, same₁, List.append_assoc], ?_⟩
  intro c hc
  rcases List.mem_append.mp hc with hc | hc
  · exact mine₁ c hc
  · obtain ⟨i, here⟩ := mine₂ c hc
    exact ⟨i, (first.event i).symm.trans here⟩

/-- A change of other fields. -/
theorem Signals.of_queues {s u : UserState} (queues : u.queues = s.queues)
    (calls : u.eventCalls = s.eventCalls) : Signals s u := by
  refine ⟨fun i => by rw [queues], fun i => by rw [queues], [], ?_, fun c hc => absurd hc (by simp)⟩
  rw [calls, List.append_nil]

theorem Signals.setQueue {s : UserState} {i : Nat} {q : UserMsgQueue}
    (event : q.inputEvent = (s.queues i).inputEvent)
    (handle : q.inputEventHandle = (s.queues i).inputEventHandle) :
    Signals s (s.setQueue i q) := by
  refine ⟨?_, ?_, [], (List.append_nil _).symm, fun c hc => absurd hc (by simp)⟩
  · intro k
    by_cases here : k = i
    · subst here
      simp only [UserState.setQueue, Function.update_self, event]
    · simp only [UserState.setQueue, Function.update_of_ne here]
  · intro k
    by_cases here : k = i
    · subst here
      simp only [UserState.setQueue, Function.update_self, handle]
    · simp only [UserState.setQueue, Function.update_of_ne here]

theorem Signals.sync (s : UserState) (i : Nat) : Signals s (kiUserSyncInputEvent s i) := by
  unfold kiUserSyncInputEvent
  split
  · exact Signals.refl s
  · rename_i event here
    refine ⟨fun _ => rfl, fun _ => rfl, _, rfl, ?_⟩
    intro c hc
    rw [List.mem_singleton] at hc
    exact ⟨i, by rw [here, hc]⟩

theorem Signals.enqueue (s : UserState) (i : Nat) (msg : UserMsg) :
    Signals s (enqueue s i msg).2 := by
  unfold User.enqueue
  dsimp only
  split
  · exact Signals.refl s
  · refine Signals.trans ?_ (Signals.sync _ i)
    exact Signals.setQueue rfl rfl

theorem Signals.enqueueMessage (s : UserState) (current hwnd message wParam lParam : Nat)
    (x y : Int) :
    Signals s (kiUserEnqueueMessage s current hwnd message wParam lParam x y).2 := by
  unfold kiUserEnqueueMessage
  split
  · exact Signals.refl s
  · exact Signals.enqueue s _ _

theorem Signals.enqueueThreadMessage (s : UserState) (t message wParam lParam : Nat) :
    Signals s (kiUserEnqueueThreadMessage s t message wParam lParam).2 := by
  unfold kiUserEnqueueThreadMessage
  split
  · exact Signals.refl s
  · exact Signals.enqueue s _ _

theorem Signals.queueButton (s : UserState) (current buttons bit down up wParam lParam : Nat)
    (x y : Int) : Signals s (queueButton s current buttons bit down up wParam lParam x y) := by
  unfold User.queueButton
  split
  · exact Signals.enqueueMessage s _ _ _ _ _ _ _
  · exact Signals.refl s

theorem Signals.queueMouse (s : UserState) (current : Nat) (x y : Int) (buttons : Nat) :
    Signals s (kiUserQueueMouse s current x y buttons) := by
  unfold kiUserQueueMouse
  split
  · exact Signals.of_queues rfl rfl
  · have moved := Signals.enqueueMessage s current s.activeHwnd wmMouseMove (buttons % 4)
      ((y % 0x10000).toNat * 0x10000 + (x % 0x10000).toNat) x y
    have left := moved.trans (Signals.queueButton _ current buttons 0 wmLButtonDown wmLButtonUp
      (buttons % 4) ((y % 0x10000).toNat * 0x10000 + (x % 0x10000).toNat) x y)
    have right := left.trans (Signals.queueButton _ current buttons 1 wmRButtonDown wmRButtonUp
      (buttons % 4) ((y % 0x10000).toNat * 0x10000 + (x % 0x10000).toNat) x y)
    exact right.trans (Signals.of_queues rfl rfl)

theorem Signals.syncOwner (s : UserState) (slot : Nat) : Signals s (syncOwner s slot) := by
  unfold User.syncOwner
  split
  · exact Signals.refl s
  · exact Signals.sync s _

theorem Signals.take (s : UserState) (t : Nat) (remove : Bool) :
    Signals s (kiUserTakeMessage s t remove).2 := by
  unfold kiUserTakeMessage
  split
  · exact Signals.refl s
  · dsimp only
    split
    · unfold takePaint
      dsimp only
      split
      · exact Signals.refl s
      · split
        · refine Signals.trans ?_ (Signals.sync _ _)
          exact Signals.of_queues rfl rfl
        · exact Signals.of_queues rfl rfl
    · split
      · refine Signals.trans ?_ (Signals.sync _ _)
        exact Signals.setQueue rfl rfl
      · exact Signals.refl s

/-- Every operation but the one that gives a queue its event. -/
theorem Signals.after (w : Mail) (op : MailOp) (other : ∀ i e h, op ≠ .listen i e h) :
    Signals w.user (w.after op).user := by
  cases op with
  | post poster a => exact Signals.enqueueMessage _ _ _ _ _ _ _ _
  | postThread a => exact Signals.enqueueThreadMessage _ _ _ _ _
  | character current character =>
    simp only [Mail.after, Mail.queueCharacter]
    split
    · exact Signals.refl _
    · exact Signals.enqueueMessage _ _ _ _ _ _ _ _
  | mouse current x y buttons =>
    simp only [Mail.after, Mail.queueMouse_user]
    exact Signals.queueMouse _ _ _ _ _
  | take t remove => exact Signals.take _ _ _
  | invalidate slot =>
    simp only [Mail.after, kiUserInvalidateWindow]
    split
    · exact Signals.refl _
    · refine Signals.trans ?_ (Signals.syncOwner _ slot)
      exact Signals.of_queues rfl rfl
  | validate slot =>
    simp only [Mail.after, kiUserValidateWindow]
    split
    · exact Signals.refl _
    · refine Signals.trans ?_ (Signals.syncOwner _ slot)
      exact Signals.of_queues rfl rfl
  | own slot t => exact Signals.of_queues rfl rfl
  | activate hwnd => exact Signals.of_queues rfl rfl
  | tick count => exact Signals.of_queues rfl rfl
  | listen i e h => exact absurd rfl (other i e h)

/-- `PsCreateNotificationEvent` as operations of the object manager. -/
def notify (w : Ob.World) (eventType : TypeRef) (o : ObjectRef) : Ob.World :=
  ((w.after (.create eventType (some o) 1)).after (.createHandle o genericAll 1)).after
    (.dereference o)

theorem create_returns (s : ObState) {eventType : TypeRef} (typed : eventType ≠ 0)
    (o : ObjectRef) : (obCreateObject s eventType (some o) 1).1 = statusSuccess := by
  have given : ¬ (eventType = 0 ∨ 1 = 0) := by simp [typed]
  simp only [obCreateObject, if_neg given]

theorem after_create_ob (w : Ob.World) (eventType : TypeRef) (o : ObjectRef) :
    (w.after (.create eventType (some o) 1)).ob = (obCreateObject w.ob eventType (some o) 1).2 :=
  rfl

theorem obCreateHandle_root (w : Ob.World) (o : ObjectRef) (access : AccessMask) (out : Nat) :
    (w.after (.createHandle o access out)).ob.rootDirectory = w.ob.rootDirectory := by
  simp only [World.after, obCreateHandle]
  split
  · rfl
  · split
    · rfl
    · rfl

theorem psCreateNotificationEvent_eq (w : Ob.World) {eventType : TypeRef} (typed : eventType ≠ 0)
    (o : ObjectRef) :
    let made := (w.after (.create eventType (some o) 1)).ob
    let r := psCreateNotificationEvent w.ob eventType (some o)
    r.2.2.2 = (notify w eventType o).ob ∧
      ntSuccess r.1 = ntSuccess (obCreateHandle made o genericAll 1).1 ∧
      (ntSuccess r.1 = true →
        r.2.1 = o ∧ r.2.2.1 = (obCreateHandle made o genericAll 1).2.1) := by
  have created := create_returns w.ob typed o
  have success : ntSuccess statusSuccess = true := rfl
  have failure : ntSuccess statusNoMemory = false := rfl
  simp only [notify, after_create_ob]
  simp only [psCreateNotificationEvent, created, success, World.after, World.release]
  generalize (obCreateObject w.ob eventType (some o) 1).2 = made
  cases result : ntSuccess (obCreateHandle made o genericAll 1).1 with
  | true => simp [success]
  | false => simp [failure]

theorem notify_refs {w : Ob.World} {eventType : TypeRef} (typed : eventType ≠ 0)
    (o : ObjectRef) : (notify w eventType o).refs = w.refs := by
  have created := create_returns w.ob typed o
  have success : ntSuccess statusSuccess = true := rfl
  funext p
  simp only [notify, World.after, World.release, created, success, if_true]
  by_cases here : p = o
  · subst here
    simp
  · simp [here]

theorem notify_created {w : Ob.World} {eventType : TypeRef} (typed : eventType ≠ 0)
    (o : ObjectRef) :
    (notify w eventType o).created = Function.update w.created o (w.created o + 1) := by
  have created := create_returns w.ob typed o
  have success : ntSuccess statusSuccess = true := rfl
  simp only [notify, World.after, World.release, created, success, if_true]

/-- The object manager and the queues; `born i` is how many objects had been
deleted at the address of the event of queue `i` when it was made. -/
structure Desk where
  life : Ob.World
  mail : Mail
  eventType : TypeRef
  born : Nat → Nat

inductive DeskOp where
  | life (op : LifeOp)
  | mail (op : MailOp)
  | getInputEvent (current : Nat) (block : Option ObjectRef)

/-- The queue that gets an event when the thread asks for one, if any does. -/
def Desk.eventless (d : Desk) (current : Nat) : Option Nat :=
  match kiUserQueueForThread current with
  | none => none
  | some i => if (d.mail.user.queues i).inputEvent = none then some i else none

def Desk.after (d : Desk) : DeskOp → Desk
  | .life op => { d with life := d.life.after op }
  | .mail op => { d with mail := d.mail.after op }
  | .getInputEvent current block =>
    let r := kiUserGetInputEvent d.life.ob d.mail.user d.eventType current block
    match d.eventless current, block with
    | some i, some o =>
      { d with
        life := ⟨r.2.1, d.life.refs, Function.update d.life.created o (d.life.created o + 1)⟩
        mail := { d.mail with user := r.2.2 }
        born := Function.update d.born i (r.2.1.deleted.count o) }
    | _, _ =>
      { d with
        life := { d.life with ob := r.2.1 }
        mail := { d.mail with user := r.2.2 } }

/-- What the kernel keeps to: its own use of references, blocks the pool
grants, and one way to give a queue its event. -/
def Desk.Allows (d : Desk) : DeskOp → Prop
  | .life op => Allowed d.life op
  | .mail op => ∀ i e h, op ≠ .listen i e h
  | .getInputEvent _ block => Ob.Grantable d.life.ob block

/-- No handle of an input event is closed, and no count of references overflows. -/
def Desk.Spares (d : Desk) : DeskOp → Prop
  | .life op => Room d.life.ob op ∧ ∀ i, (d.mail.user.queues i).inputEvent ≠ none →
      op ≠ .closeHandle (d.mail.user.queues i).inputEventHandle
  | .mail _ | .getInputEvent _ _ => True

structure DeskStart (d : Desk) : Prop where
  booted : Booted d.life
  typed : d.eventType ≠ 0
  none : ∀ i, (d.mail.user.queues i).inputEvent = none

def Desk.Step (d : Desk) (op : DeskOp) (e : Desk) : Prop := d.Allows op ∧ e = d.after op

def Desk.SparingStep (d : Desk) (op : DeskOp) (e : Desk) : Prop := d.Step op e ∧ d.Spares op

/-- Every input event is the object that was made for the queue. -/
def EventsAlive (d : Desk) : Prop :=
  ∀ i e, (d.mail.user.queues i).inputEvent = some e →
    d.life.ob.live e = true ∧ d.life.ob.deleted.count e = d.born i

/-- An operation signals live objects only. -/
def SignalsLive (d : Desk) (op : DeskOp) : Prop :=
  ∃ calls, (d.after op).mail.user.eventCalls = d.mail.user.eventCalls ++ calls ∧
    ∀ c ∈ calls, (d.after op).life.ob.live c.1 = true

/-- The handle made for each event is still open. -/
structure Kept (d : Desk) : Prop where
  accounted : Accounted d.life
  typed : d.eventType ≠ 0
  slot : ∀ i e, (d.mail.user.queues i).inputEvent = some e →
    e ≠ 0 ∧ ∃ k < obMaxHandles, (d.mail.user.queues i).inputEventHandle = indexToHandle k ∧
      (d.life.ob.handles k).object = e
  born : ∀ i e, (d.mail.user.queues i).inputEvent = some e →
    d.life.ob.deleted.count e = d.born i

variable {d : Desk} {i : Nat} {o : ObjectRef}

theorem Kept.live (kept : Kept d) {e : ObjectRef}
    (event : (d.mail.user.queues i).inputEvent = some e) : d.life.ob.live e = true := by
  obtain ⟨notNull, k, hk, _, here⟩ := kept.slot i e event
  have live := kept.accounted.counted.slots k hk (by rw [here]; exact notNull)
  rwa [here] at live

theorem Kept.life (kept : Kept d) {op : LifeOp} (allowed : Allowed d.life op)
    (spares : d.Spares (.life op)) : Kept { d with life := d.life.after op } := by
  have accounted := kept.accounted.after allowed spares.1
  have slots : ∀ i e, (d.mail.user.queues i).inputEvent = some e →
      e ≠ 0 ∧ ∃ k < obMaxHandles, (d.mail.user.queues i).inputEventHandle = indexToHandle k ∧
        ((d.life.after op).ob.handles k).object = e := by
    intro i e event
    obtain ⟨notNull, k, hk, handle, here⟩ := kept.slot i e event
    have spared := spares.2 i (by rw [event]; simp)
    rw [handle] at spared
    refine ⟨notNull, k, hk, handle, ?_⟩
    rw [World.after_slot (by rw [here]; exact notNull) spared, here]
  refine ⟨accounted, kept.typed, slots, ?_⟩
  intro i e event
  obtain ⟨notNull, k, hk, _, here⟩ := slots i e event
  have before := kept.live event
  have after := accounted.counted.slots k hk (by rw [here]; exact notNull)
  rw [here] at after
  -- alive before and after, and not made anew: it was not deleted in between
  have made := World.after_created allowed before
  have count₁ := kept.accounted.placed.incarnations e
  have count₂ := accounted.placed.incarnations e
  rw [before] at count₁
  rw [after, made] at count₂
  have same := kept.born i e event
  show (d.life.after op).ob.deleted.count e = d.born i
  simp only [if_true] at count₁ count₂
  omega

theorem Kept.mail (kept : Kept d) {u : Mail} (signals : Signals d.mail.user u.user) :
    Kept { d with mail := u } := by
  refine ⟨kept.accounted, kept.typed, ?_, ?_⟩
  · intro i e event
    have event : (u.user.queues i).inputEvent = some e := event
    rw [signals.event] at event
    show e ≠ 0 ∧ ∃ k < obMaxHandles, (u.user.queues i).inputEventHandle = indexToHandle k ∧ _
    rw [signals.handle]
    exact kept.slot i e event
  · intro i e event
    have event : (u.user.queues i).inputEvent = some e := event
    rw [signals.event] at event
    exact kept.born i e event

theorem Kept.signals (kept : Kept d) {u : UserState} (signals : Signals d.mail.user u) :
    ∃ calls, u.eventCalls = d.mail.user.eventCalls ++ calls ∧
      ∀ c ∈ calls, d.life.ob.live c.1 = true := by
  obtain ⟨calls, same, mine⟩ := signals.calls
  refine ⟨calls, same, ?_⟩
  intro c hc
  obtain ⟨i, event⟩ := mine c hc
  exact kept.live event

/-- The three operations of making an event are each allowed and spare the others. -/
theorem Kept.notify (kept : Kept d) (fresh : d.life.ob.live o = false)
    (window : InWindow o) : Kept { d with life := User.notify d.life d.eventType o } := by
  have typed := kept.typed
  have rootLive := kept.accounted.counted.held _ kept.accounted.counted.rootHeld
  have notRoot : o ≠ d.life.ob.rootDirectory := by
    rintro rfl
    exact absurd (rootLive.symm.trans fresh) (by simp)
  have given : ¬ (d.eventType = 0 ∨ 1 = 0) := by simp [typed]
  have created := create_returns d.life.ob typed o
  have success : ntSuccess statusSuccess = true := rfl
  have state : (obCreateObject d.life.ob d.eventType (some o) 1).2 =
      { d.life.ob.setHeader o (newHeader d.eventType) with
        live := Function.update d.life.ob.live o true
        types := Function.update d.life.ob.types d.eventType { d.life.ob.types d.eventType with
          totalObjects := wrap32 ((d.life.ob.types d.eventType).totalObjects + 1) } } := by
    simp only [obCreateObject, if_neg given]
    rfl
  have first : Kept { d with life := d.life.after (.create d.eventType (some o) 1) } := by
    refine kept.life ?_ ⟨?_, fun i _ => by simp⟩
    · intro b hb
      obtain rfl := Option.some.inj hb
      exact ⟨fresh, window⟩
    · intro b hb
      exact absurd hb (by simp [LifeOp.target])
  have second : Kept { d with
      life := (d.life.after (.create d.eventType (some o) 1)).after
        (.createHandle o genericAll 1) } := by
    refine first.life (.inr ?_) ⟨?_, fun i _ => by simp⟩
    · show (obCreateObject d.life.ob d.eventType (some o) 1).2.live o = true
      rw [state]
      exact Function.update_self _ _ _
    · intro b hb _
      obtain rfl := Option.some.inj hb
      show ((obCreateObject d.life.ob d.eventType (some o) 1).2.headers o).pointerCount < _
      rw [state]
      simp [ObState.setHeader, newHeader]
  refine second.life ?_ ⟨?_, fun i _ => by simp⟩
  · have root : ((d.life.after (.create d.eventType (some o) 1)).after
        (.createHandle o genericAll 1)).ob.rootDirectory = d.life.ob.rootDirectory := by
      rw [obCreateHandle_root, after_create_ob, state]
      rfl
    have refs : ((d.life.after (.create d.eventType (some o) 1)).after
        (.createHandle o genericAll 1)).refs o = d.life.refs o + 1 := by
      simp [World.after, created, success]
    show (if o = _ then 1 else 0) < _
    rw [root, if_neg notRoot, refs]
    omega
  · intro b hb
    exact absurd hb (by simp [LifeOp.target])

theorem obCreateHandle_opens {s : ObState} {access : AccessMask} {out : Nat}
    (success : ntSuccess (obCreateHandle s o access out).1 = true) :
    ∃ k < obMaxHandles, (obCreateHandle s o access out).2.1 = indexToHandle k ∧
      ((obCreateHandle s o access out).2.2.handles k).object = o := by
  unfold obCreateHandle at success ⊢
  split at success
  · exact absurd (show ntSuccess statusInvalidParameter = true from success) (by decide)
  · rename_i good
    rw [if_neg good]
    cases slot : freeSlot s with
    | none =>
      rw [slot] at success
      exact absurd (show ntSuccess statusInsufficientResources = true from success) (by decide)
    | some k =>
      refine ⟨k, (freeSlot_some slot).1, rfl, ?_⟩
      simp [ObState.setEntry, ObState.setHeader, ObState.setType, obReferenceObject]

theorem eventless_some {current : Nat} (lacks : d.eventless current = some i) :
    kiUserQueueForThread current = some i ∧ (d.mail.user.queues i).inputEvent = none := by
  unfold Desk.eventless at lacks
  split at lacks
  · exact absurd lacks (by simp)
  · rename_i k queue
    split at lacks
    · rename_i here
      obtain rfl := Option.some.inj lacks
      exact ⟨queue, here⟩
    · exact absurd lacks (by simp)

/-- Without an event to make, the call at most signals the one there is. -/
theorem getInputEvent_existing {current : Nat} (lacks : d.eventless current = none)
    (block : Option ObjectRef) :
    let r := kiUserGetInputEvent d.life.ob d.mail.user d.eventType current block
    r.2.1 = d.life.ob ∧ Signals d.mail.user r.2.2 := by
  unfold Desk.eventless at lacks
  unfold kiUserGetInputEvent
  split at lacks
  · exact ⟨rfl, Signals.refl _⟩
  · rename_i i queue
    split at lacks
    · exact absurd lacks (by simp)
    · rename_i some_
      split
      · exact ⟨rfl, Signals.sync _ _⟩
      · rename_i nothing
        exact absurd nothing some_

theorem getInputEvent_new {current : Nat} (lacks : d.eventless current = some i)
    (block : Option ObjectRef) :
    let r := psCreateNotificationEvent d.life.ob d.eventType block
    (kiUserGetInputEvent d.life.ob d.mail.user d.eventType current block).2 =
      (r.2.2.2, if ntSuccess r.1 then d.mail.user.listen i r.2.1 r.2.2.1 else d.mail.user) := by
  obtain ⟨queue, nothing⟩ := eventless_some lacks
  simp only [kiUserGetInputEvent, queue, nothing]
  split
  · rfl
  · rfl

theorem psCreateNotificationEvent_none (s : ObState) (eventType : TypeRef) :
    psCreateNotificationEvent s eventType none = (statusNoMemory, 0, 0, s) := by
  have same : (obCreateObject s eventType none 1).2 = s := by
    unfold obCreateObject
    split
    · rfl
    · rfl
  simp only [psCreateNotificationEvent, same]
  cases ntSuccess (obCreateObject s eventType none 1).1 with
  | true => rfl
  | false => rfl

theorem listen_queue (s : UserState) (i : Nat) (event : ObjectRef) (handle k : Nat) :
    ((s.listen i event handle).queues k).inputEvent =
        (if k = i then some event else (s.queues k).inputEvent) ∧
      ((s.listen i event handle).queues k).inputEventHandle =
        if k = i then handle else (s.queues k).inputEventHandle := by
  unfold UserState.listen
  rw [sync_queues]
  by_cases here : k = i
  · subst here
    simp [UserState.setQueue]
  · simp [UserState.setQueue, here]

theorem listen_calls (s : UserState) (i : Nat) (event : ObjectRef) (handle : Nat) :
    ∃ b, (s.listen i event handle).eventCalls = s.eventCalls ++ [(event, b)] := by
  unfold UserState.listen kiUserSyncInputEvent
  simp only [UserState.setQueue, Function.update_self]
  exact ⟨_, rfl⟩

/-- A queue gets the event that was just made. -/
theorem Kept.listen (kept : Kept d) {k : Nat} (notNull : o ≠ 0)
    (hk : k < obMaxHandles) (here : (d.life.ob.handles k).object = o) :
    Kept { d with
      mail := { d.mail with user := d.mail.user.listen i o (indexToHandle k) }
      born := Function.update d.born i (d.life.ob.deleted.count o) } := by
  refine ⟨kept.accounted, kept.typed, ?_, ?_⟩
  · intro j e event
    obtain ⟨events, handles⟩ := listen_queue d.mail.user i o (indexToHandle k) j
    rw [events] at event
    show e ≠ 0 ∧ ∃ k' < obMaxHandles,
      ((d.mail.user.listen i o (indexToHandle k)).queues j).inputEventHandle = _ ∧ _
    rw [handles]
    by_cases mine : j = i
    · rw [if_pos mine] at event ⊢
      obtain rfl := Option.some.inj event
      exact ⟨notNull, k, hk, rfl, here⟩
    · rw [if_neg mine] at event ⊢
      exact kept.slot j e event
  · intro j e event
    obtain ⟨events, _⟩ := listen_queue d.mail.user i o (indexToHandle k) j
    rw [events] at event
    show d.life.ob.deleted.count e = Function.update d.born i (d.life.ob.deleted.count o) j
    by_cases mine : j = i
    · rw [if_pos mine] at event
      obtain rfl := Option.some.inj event
      rw [mine, Function.update_self]
    · rw [if_neg mine] at event
      rw [Function.update_of_ne mine]
      exact kept.born j e event

theorem Kept.reborn (kept : Kept d) (n : Nat) (lacks : (d.mail.user.queues i).inputEvent = none) :
    Kept { d with born := Function.update d.born i n } := by
  refine ⟨kept.accounted, kept.typed, kept.slot, ?_⟩
  intro j e event
  have other : j ≠ i := by
    rintro rfl
    exact absurd (lacks.symm.trans event) (by simp)
  show d.life.ob.deleted.count e = Function.update d.born i n j
  rw [Function.update_of_ne other]
  exact kept.born j e event

theorem Kept.getInputEvent (kept : Kept d) {current : Nat} {block : Option ObjectRef}
    (allowed : d.Allows (.getInputEvent current block)) :
    Kept (d.after (.getInputEvent current block)) ∧
      SignalsLive d (.getInputEvent current block) := by
  cases queue : d.eventless current with
  | none =>
    obtain ⟨same, signals⟩ := getInputEvent_existing queue block
    have state : d.after (.getInputEvent current block) = { d with
        mail := { d.mail with
          user := (kiUserGetInputEvent d.life.ob d.mail.user d.eventType current block).2.2 } } := by
      simp only [Desk.after, queue, same]
    unfold SignalsLive
    rw [state]
    exact ⟨kept.mail signals, kept.signals signals⟩
  | some i =>
    obtain ⟨_, nothing⟩ := eventless_some queue
    have result := getInputEvent_new queue block
    cases block with
    | none =>
      rw [psCreateNotificationEvent_none] at result
      have failure : ntSuccess statusNoMemory = false := rfl
      simp only [failure, Bool.false_eq_true, if_false] at result
      have state : d.after (.getInputEvent current none) = d := by
        simp only [Desk.after, queue, result]
      unfold SignalsLive
      rw [state]
      exact ⟨kept, [], (List.append_nil _).symm, fun c hc => absurd hc (by simp)⟩
    | some o =>
      obtain ⟨fresh, window⟩ := allowed o rfl
      obtain ⟨ob, success, values⟩ := psCreateNotificationEvent_eq d.life kept.typed o
      have made := kept.notify fresh window
      have life : (⟨(User.notify d.life d.eventType o).ob, d.life.refs,
          Function.update d.life.created o (d.life.created o + 1)⟩ : Ob.World) =
          User.notify d.life d.eventType o := by
        rw [← notify_refs kept.typed o, ← notify_created kept.typed o]
      have notNull : o ≠ 0 := by
        rintro rfl
        exact absurd window.1 (by decide)
      have state : d.after (.getInputEvent current (some o)) = { d with
          life := User.notify d.life d.eventType o
          mail := { d.mail with
            user := (kiUserGetInputEvent d.life.ob d.mail.user d.eventType current
              (some o)).2.2 }
          born := Function.update d.born i
            ((User.notify d.life d.eventType o).ob.deleted.count o) } := by
        simp only [Desk.after, queue, result, ob, life]
      unfold SignalsLive
      rw [state]
      simp only [result]
      cases done : ntSuccess (psCreateNotificationEvent d.life.ob d.eventType (some o)).1 with
      | false =>
        simp only [Bool.false_eq_true, if_false]
        refine ⟨made.reborn _ nothing, [], (List.append_nil _).symm, ?_⟩
        intro c hc
        exact absurd hc (by simp)
      | true =>
        obtain ⟨event, handle⟩ := values done
        rw [done] at success
        obtain ⟨k, hk, value, here⟩ := obCreateHandle_opens success.symm
        rw [value] at handle
        have slot : ((User.notify d.life d.eventType o).ob.handles k).object = o := by
          simp only [User.notify, World.after, World.release, obDereferenceObject_handles]
          exact here
        simp only [if_true, event, handle]
        refine ⟨made.listen notNull hk slot, ?_⟩
        obtain ⟨b, calls⟩ := listen_calls d.mail.user i o (indexToHandle k)
        refine ⟨_, calls, ?_⟩
        intro c hc
        rw [List.mem_singleton] at hc
        rw [hc]
        have alive := made.accounted.counted.slots k hk (by rw [slot]; exact notNull)
        rwa [slot] at alive

theorem Kept.step (kept : Kept d) {op : DeskOp} (allowed : d.Allows op)
    (spares : d.Spares op) : Kept (d.after op) ∧ SignalsLive d op := by
  cases op with
  | life op =>
    refine ⟨kept.life allowed spares, [], (List.append_nil _).symm, ?_⟩
    intro c hc
    exact absurd hc (by simp)
  | mail op =>
    have signals := Signals.after d.mail op allowed
    exact ⟨kept.mail signals, kept.signals signals⟩
  | getInputEvent current block => exact kept.getInputEvent allowed

/-- In every run that closes no handle of an input event, and overflows no
count of references, the input events are alive and only live objects are
signaled. -/
theorem input_events_stay_alive {d : Desk} (run : Runs.Reachable DeskStart Desk.SparingStep d) :
    EventsAlive d ∧ ∀ op, d.Allows op → d.Spares op → SignalsLive d op := by
  have kept : Kept d := by
    refine run.invariant ?_ ?_
    · rintro e ⟨booted, typed, none⟩
      refine ⟨booted.accounted, typed, ?_, ?_⟩
      · intro i o event
        exact absurd ((none i).symm.trans event) (by simp)
      · intro i o event
        exact absurd ((none i).symm.trans event) (by simp)
    · rintro e op _ kept ⟨⟨allowed, rfl⟩, spares⟩
      exact (kept.step allowed spares).1
  refine ⟨fun i e event => ⟨kept.live event, kept.born i e event⟩, ?_⟩
  intro op allowed spares
  exact (kept.step allowed spares).2

/-- The desk at boot. -/
def bootDesk : Desk := ⟨bootWorld, bootMail, 2, fun _ => 0⟩

theorem bootDesk_start : DeskStart bootDesk :=
  ⟨bootWorld_booted, by decide, fun _ => rfl⟩

/-- Thread 1 asks for its input event. -/
def askForEvent : DeskOp := .getInputEvent 1 (some (mmKernelHeapBase + 4096))

theorem askForEvent_allowed : bootDesk.Allows askForEvent := by
  intro o ho
  obtain rfl := Option.some.inj ho
  exact ⟨by decide, ⟨by decide, by decide⟩⟩

theorem input_events_stay_alive_one_event :
    ((bootDesk.after askForEvent).mail.user.queues 0).inputEvent = some (mmKernelHeapBase + 4096) ∧
      (bootDesk.after askForEvent).life.ob.live (mmKernelHeapBase + 4096) = true := by
  have event : ((bootDesk.after askForEvent).mail.user.queues 0).inputEvent =
      some (mmKernelHeapBase + 4096) := by decide +kernel
  have run : Runs.Reachable DeskStart Desk.SparingStep (bootDesk.after askForEvent) :=
    (Runs.Reachable.of_initial bootDesk_start).next
      (l := askForEvent) ⟨⟨askForEvent_allowed, rfl⟩, trivial⟩
  have alive : EventsAlive (bootDesk.after askForEvent) := (input_events_stay_alive run).1
  have mine := alive 0 (mmKernelHeapBase + 4096) event
  exact ⟨event, mine.1⟩

/-- Closing its handle deletes the event while the queue still points to it. -/
theorem closing_the_handle_deletes_the_event :
    ¬ ∀ d, Runs.Reachable DeskStart Desk.Step d → EventsAlive d := by
  intro claim
  have first : Runs.Reachable DeskStart Desk.Step (bootDesk.after askForEvent) :=
    (Runs.Reachable.of_initial bootDesk_start).next (l := askForEvent) ⟨askForEvent_allowed, rfl⟩
  have allowed : (bootDesk.after askForEvent).Allows (.life (.closeHandle 4)) := trivial
  have second := first.next (l := .life (.closeHandle 4)) ⟨allowed, rfl⟩
  have alive := (claim _ second 0 (mmKernelHeapBase + 4096) (by decide +kernel)).1
  have dead : ((bootDesk.after askForEvent).after (.life (.closeHandle 4))).life.ob.live
      (mmKernelHeapBase + 4096) = false := by decide +kernel
  exact absurd (alive.symm.trans dead) (by decide)

end User
