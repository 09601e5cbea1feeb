import Svindows.Ke.Signals
import Svindows.Lib.Runs
import Svindows.User.Windows

/-!
# Input events and pending work

The input event of a thread is to be signaled exactly while its queue holds a
message or a window of its owes a `WM_PAINT`. Each service that changes a queue or
an update region brings the event of that thread in step. The services that change
the owner of a window do not: a window that still owes a `WM_PAINT` may leave, or
enter, the hands of a thread whose event stays as it was.
-/

namespace User

open Nt Ob

/-- One call of `KeSetEvent` or `KeResetEvent`. -/
def signalCall (k : Ke.KeState) (c : ObjectRef × Bool) : Ke.KeState :=
  if c.2 then Ke.keSetEvent k c.1 else Ke.keResetEvent k c.1

/-- The event is signaled by the calls so far; it was made unsignaled. -/
def Signaled (s : UserState) (event : ObjectRef) : Prop :=
  ∀ k : Ke.KeState, (k.headers event).signalState = 0 →
    0 < ((s.eventCalls.foldl signalCall k).headers event).signalState

/-- What the last call on the event was, if there was one. -/
def lastCall (calls : List (ObjectRef × Bool)) (event : ObjectRef) : Bool :=
  calls.foldl (fun signaled c => if c.1 = event then c.2 else signaled) false

theorem lastCall_append (calls : List (ObjectRef × Bool)) (c : ObjectRef × Bool)
    (event : ObjectRef) :
    lastCall (calls ++ [c]) event = if c.1 = event then c.2 else lastCall calls event := by
  simp only [lastCall, List.foldl_append, List.foldl_cons, List.foldl_nil]

theorem signalCall_signalState (k : Ke.KeState) (c : ObjectRef × Bool) (event : ObjectRef) :
    ((signalCall k c).headers event).signalState =
      if c.1 = event then (if c.2 then 1 else 0) else (k.headers event).signalState := by
  unfold signalCall
  cases c.2 with
  | true =>
    simp only [if_true, Ke.keSetEvent]
    rw [(Ke.Quiet.signalObject _ _).signal]
    by_cases here : event = c.1
    · simp [here]
    · simp [here, Ne.symm here]
  | false =>
    by_cases here : event = c.1
    · simp [here, Ke.keResetEvent]
    · simp [here, Ne.symm here, Ke.keResetEvent]

theorem calls_signalState (calls : List (ObjectRef × Bool)) (k : Ke.KeState) (event : ObjectRef)
    (unsignaled : (k.headers event).signalState = 0) :
    ((calls.foldl signalCall k).headers event).signalState =
      if lastCall calls event then 1 else 0 := by
  induction calls using List.reverseRecOn with
  | nil => simpa [lastCall] using unsignaled
  | append_singleton calls c ih =>
    rw [List.foldl_append, List.foldl_cons, List.foldl_nil, signalCall_signalState, lastCall_append]
    by_cases here : c.1 = event
    · simp only [here, if_true]
    · simp only [here, if_false]
      exact ih

theorem signaled_iff (s : UserState) (event : ObjectRef) :
    Signaled s event ↔ lastCall s.eventCalls event = true := by
  constructor
  · intro signaled
    have state := calls_signalState s.eventCalls
      (Ke.keInitializeScheduler fun _ => ⟨.eventNotification, 0, 0, []⟩) event rfl
    have positive := signaled (Ke.keInitializeScheduler fun _ => ⟨.eventNotification, 0, 0, []⟩) rfl
    rw [state] at positive
    by_contra reset
    rw [if_neg reset] at positive
    exact absurd positive (by decide)
  · intro last k unsignaled
    rw [calls_signalState s.eventCalls k event unsignaled, last]
    decide

/-- Some window of thread `t` owes a `WM_PAINT`. -/
def Owes (s : UserState) (t : Nat) : Prop :=
  ∃ slot, 0 < slot ∧ slot < userPaintSlots ∧ s.windowUpdate slot ≠ 0 ∧ s.windowOwner slot = t

/-- Thread `i + 1` has something to do. -/
def Work (s : UserState) (i : Nat) : Prop :=
  (s.queues i).head ≠ (s.queues i).tail ∨ Owes s (i + 1)

/-- `KiUserNextUpdateWindow` returns the lowest slot of thread `t` that owes a paint, or 0
when there is none. -/
theorem nextUpdateWindow_cases (s : UserState) {t : Nat} (thread : t ≠ 0) :
    (kiUserNextUpdateWindow s t = 0 ∧ ¬ Owes s t) ∨
      (0 < kiUserNextUpdateWindow s t ∧ kiUserNextUpdateWindow s t < userPaintSlots ∧
        s.windowUpdate (kiUserNextUpdateWindow s t) ≠ 0 ∧
        s.windowOwner (kiUserNextUpdateWindow s t) = t ∧
        ∀ k, 0 < k → k < kiUserNextUpdateWindow s t → s.windowOwner k = t →
          s.windowUpdate k = 0) := by
  unfold kiUserNextUpdateWindow
  rw [if_neg thread]
  cases found : (List.range userPaintSlots).find? fun slot =>
      slot ≠ 0 ∧ s.windowUpdate slot ≠ 0 ∧ s.windowOwner slot = t with
  | none =>
    refine .inl ⟨rfl, ?_⟩
    rintro ⟨slot, positive, small, owed, mine⟩
    have none := List.find?_range_eq_none.mp found slot small
    simp [Nat.pos_iff_ne_zero.mp positive, owed, mine] at none
  | some slot =>
    obtain ⟨here, small, before⟩ := List.find?_range_eq_some.mp found
    rw [decide_eq_true_iff] at here
    refine .inr ⟨Nat.pos_of_ne_zero here.1, List.mem_range.mp small, here.2.1, here.2.2, ?_⟩
    intro k positive low mine
    have passed := before k low
    simpa [Nat.pos_iff_ne_zero.mp positive, mine] using passed

theorem nextUpdateWindow_ne_zero (s : UserState) {t : Nat} (thread : t ≠ 0) :
    kiUserNextUpdateWindow s t ≠ 0 ↔ Owes s t := by
  rcases nextUpdateWindow_cases s thread with ⟨none, owes⟩ | ⟨positive, small, owed, mine, -⟩
  · exact iff_of_false (fun some_ => some_ none) owes
  · exact iff_of_true (Nat.pos_iff_ne_zero.mp positive) ⟨_, positive, small, owed, mine⟩

/-- Every input event is in step, belongs to one queue, and that queue to a thread. -/
structure EventsSynced (s : UserState) : Prop where
  mirrors : ∀ i event, (s.queues i).inputEvent = some event →
    (lastCall s.eventCalls event = true ↔ Work s i)
  distinct : ∀ i j event, (s.queues i).inputEvent = some event →
    (s.queues j).inputEvent = some event → i = j
  few : ∀ i event, (s.queues i).inputEvent = some event → i < userMaxThreadQueues

/-- The events and the calls on them are the same. -/
structure SameEvents (s u : UserState) : Prop where
  event : ∀ i, (u.queues i).inputEvent = (s.queues i).inputEvent
  calls : u.eventCalls = s.eventCalls

variable {s u : UserState} {i : Nat}

/-- No event has to change. -/
theorem EventsSynced.unchanged (synced : EventsSynced s) (same : SameEvents s u)
    (work : ∀ i event, (s.queues i).inputEvent = some event → (Work u i ↔ Work s i)) :
    EventsSynced u where
  mirrors i event here := by
    rw [same.event] at here
    rw [same.calls, work i event here]
    exact synced.mirrors i event here
  distinct i j event := by
    rw [same.event, same.event]
    exact synced.distinct i j event
  few i event := by
    rw [same.event]
    exact synced.few i event

theorem work_congr (head : (u.queues i).head = (s.queues i).head)
    (tail : (u.queues i).tail = (s.queues i).tail) (owes : Owes u (i + 1) ↔ Owes s (i + 1)) :
    Work u i ↔ Work s i := by
  unfold Work
  rw [head, tail, owes]

theorem synced_of_others
    (mirrors : ∀ j event, j ≠ i → (u.queues j).inputEvent = some event →
      (lastCall u.eventCalls event = true ↔ Work u j))
    (distinct : ∀ j k event, (u.queues j).inputEvent = some event →
      (u.queues k).inputEvent = some event → j = k)
    (few : ∀ j event, (u.queues j).inputEvent = some event → j < userMaxThreadQueues) :
    EventsSynced (kiUserSyncInputEvent u i) := by
  unfold kiUserSyncInputEvent
  cases mine : (u.queues i).inputEvent with
  | none =>
    refine ⟨?_, distinct, few⟩
    intro j event here
    refine mirrors j event ?_ here
    rintro rfl
    exact absurd (mine.symm.trans here) (by simp)
  | some own =>
    refine ⟨?_, distinct, few⟩
    intro j event here
    rw [lastCall_append]
    by_cases equal : j = i
    · subst equal
      have same : own = event := Option.some.inj (mine.symm.trans here)
      have worked : (u.queues j).head ≠ (u.queues j).tail ∨
          kiUserNextUpdateWindow u (j + 1) ≠ 0 ↔ Work u j :=
        or_congr Iff.rfl (nextUpdateWindow_ne_zero u (Nat.succ_ne_zero j))
      rw [if_pos same, decide_eq_true_iff]
      exact worked
    · have other : own ≠ event := by
        rintro rfl
        exact equal (distinct j i own here mine)
      rw [if_neg other]
      exact mirrors j event equal here

theorem EventsSynced.sync (synced : EventsSynced s)
    (same : SameEvents s u) (work : ∀ j event, j ≠ i → (s.queues j).inputEvent = some event →
      (Work u j ↔ Work s j)) : EventsSynced (kiUserSyncInputEvent u i) := by
  refine synced_of_others ?_ ?_ ?_
  · intro j event other here
    rw [same.event] at here
    rw [same.calls, work j event other here]
    exact synced.mirrors j event here
  · intro j k event
    rw [same.event, same.event]
    exact synced.distinct j k event
  · intro j event
    rw [same.event]
    exact synced.few j event

theorem SameEvents.refl (s : UserState) : SameEvents s s := ⟨fun _ => rfl, rfl⟩

theorem SameEvents.setQueue {q : UserMsgQueue}
    (event : q.inputEvent = (s.queues i).inputEvent) : SameEvents s (s.setQueue i q) := by
  refine ⟨?_, rfl⟩
  intro j
  by_cases here : j = i
  · subst here
    simp only [UserState.setQueue, Function.update_self, event]
  · simp only [UserState.setQueue, Function.update_of_ne here]

theorem work_setQueue {j : Nat} (q : UserMsgQueue) (other : j ≠ i) :
    Work (s.setQueue i q) j ↔ Work s j := by
  refine work_congr ?_ ?_ Iff.rfl
  · simp only [UserState.setQueue, Function.update_of_ne other]
  · simp only [UserState.setQueue, Function.update_of_ne other]

/-- A queue changes, and its event with it. -/
theorem EventsSynced.requeue {q : UserMsgQueue} (synced : EventsSynced s)
    (event : q.inputEvent = (s.queues i).inputEvent) :
    EventsSynced (kiUserSyncInputEvent (s.setQueue i q) i) :=
  synced.sync (SameEvents.setQueue event) fun _ _ other _ => work_setQueue q other

theorem EventsSynced.enqueue (synced : EventsSynced s) (i : Nat) (msg : UserMsg) :
    EventsSynced (User.enqueue s i msg).2 := by
  unfold User.enqueue
  dsimp only
  split
  · exact synced
  · exact synced.requeue rfl

theorem EventsSynced.enqueueMessage (synced : EventsSynced s)
    (current hwnd message wParam lParam : Nat) (x y : Int) :
    EventsSynced (kiUserEnqueueMessage s current hwnd message wParam lParam x y).2 := by
  unfold kiUserEnqueueMessage
  split
  · exact synced
  · exact synced.enqueue _ _

theorem EventsSynced.enqueueThreadMessage (synced : EventsSynced s)
    (t message wParam lParam : Nat) :
    EventsSynced (kiUserEnqueueThreadMessage s t message wParam lParam).2 := by
  unfold kiUserEnqueueThreadMessage
  split
  · exact synced
  · exact synced.enqueue _ _

theorem EventsSynced.queueCharacter (synced : EventsSynced s)
    (current character : Nat) : EventsSynced (kiUserQueueCharacter s current character) := by
  unfold kiUserQueueCharacter
  split
  · exact synced
  · exact synced.enqueueMessage _ _ _ _ _ _ _

theorem EventsSynced.queueButton (synced : EventsSynced s)
    (current buttons bit down up wParam lParam : Nat) (x y : Int) :
    EventsSynced (queueButton s current buttons bit down up wParam lParam x y) := by
  unfold User.queueButton
  split
  · exact synced.enqueueMessage _ _ _ _ _ _ _
  · exact synced

theorem EventsSynced.setMouseButtons (synced : EventsSynced s) (buttons : Nat) :
    EventsSynced { s with mouseButtons := buttons } :=
  synced.unchanged ⟨fun _ => rfl, rfl⟩ fun _ _ _ => Iff.rfl

theorem EventsSynced.queueMouse (synced : EventsSynced s) (current : Nat)
    (x y : Int) (buttons : Nat) : EventsSynced (kiUserQueueMouse s current x y buttons) := by
  unfold kiUserQueueMouse
  split
  · exact synced.setMouseButtons buttons
  · have moved := synced.enqueueMessage current s.activeHwnd wmMouseMove (buttons % 4)
      ((y % 0x10000).toNat * 0x10000 + (x % 0x10000).toNat) x y
    have left := moved.queueButton current buttons 0 wmLButtonDown wmLButtonUp (buttons % 4)
      ((y % 0x10000).toNat * 0x10000 + (x % 0x10000).toNat) x y
    have right := left.queueButton current buttons 1 wmRButtonDown wmRButtonUp (buttons % 4)
      ((y % 0x10000).toNat * 0x10000 + (x % 0x10000).toNat) x y
    exact right.setMouseButtons buttons

theorem queueForThread_some {t : Nat} (queue : kiUserQueueForThread t = some i) :
    t = i + 1 ∧ i < userMaxThreadQueues := by
  unfold kiUserQueueForThread at queue
  split at queue
  · exact absurd queue (by simp)
  · have index := Option.some.inj queue
    omega

theorem owes_update {slot t : Nat} (other : s.windowOwner slot ≠ t) (n : Nat) :
    Owes { s with windowUpdate := Function.update s.windowUpdate slot n } t ↔ Owes s t := by
  have elsewhere : ∀ k, s.windowOwner k = t → k ≠ slot := by
    rintro k mine rfl
    exact other mine
  constructor
  · rintro ⟨k, positive, small, owed, mine⟩
    simp only [Function.update_of_ne (elsewhere k mine)] at owed
    exact ⟨k, positive, small, owed, mine⟩
  · rintro ⟨k, positive, small, owed, mine⟩
    refine ⟨k, positive, small, ?_, mine⟩
    simp only [Function.update_of_ne (elsewhere k mine)]
    exact owed

/-- Setting the update count of a slot and bringing its owner in step. -/
theorem EventsSynced.region (synced : EventsSynced s) (slot n : Nat) :
    EventsSynced
      (syncOwner { s with windowUpdate := Function.update s.windowUpdate slot n } slot) := by
  unfold syncOwner
  cases queue : kiUserQueueForThread (s.windowOwner slot) with
  | none =>
    refine synced.unchanged ⟨fun _ => rfl, rfl⟩ ?_
    intro i event here
    refine work_congr rfl rfl (owes_update ?_ n)
    have few := synced.few i event here
    intro mine
    rw [mine, kiUserQueueForThread, if_neg (by omega)] at queue
    exact absurd queue (by simp)
  | some i =>
    refine synced.sync ⟨fun _ => rfl, rfl⟩ ?_
    intro j event other here
    refine work_congr rfl rfl (owes_update ?_ n)
    have owner := (queueForThread_some queue).1
    omega

theorem EventsSynced.invalidateWindow (synced : EventsSynced s) (slot : Nat) :
    EventsSynced (kiUserInvalidateWindow s slot) := by
  unfold kiUserInvalidateWindow
  split
  · exact synced
  · exact synced.region slot _

theorem EventsSynced.validateWindow (synced : EventsSynced s) (slot : Nat) :
    EventsSynced (kiUserValidateWindow s slot) := by
  unfold kiUserValidateWindow
  split
  · exact synced
  · exact synced.region slot _

/-- Handing out a `WM_PAINT`. The event need not change while the window owes more. -/
theorem EventsSynced.takePaint (synced : EventsSynced s) (i : Nat) :
    EventsSynced (User.takePaint s i (i + 1)).2 := by
  unfold User.takePaint
  dsimp only
  split
  · exact synced
  · rename_i some_
    have thread : i + 1 ≠ 0 := Nat.succ_ne_zero i
    obtain ⟨none, -⟩ | ⟨positive, small, owed, mine, -⟩ := nextUpdateWindow_cases s thread
    · exact absurd none some_
    · generalize kiUserNextUpdateWindow s (i + 1) = slot at *
      have others : ∀ j, j ≠ i → ∀ n, (Owes { s with
          windowUpdate := Function.update s.windowUpdate slot n } (j + 1) ↔ Owes s (j + 1)) := by
        intro j other n
        refine owes_update ?_ n
        rw [mine]
        omega
      split
      · refine synced.sync ⟨fun _ => rfl, rfl⟩ ?_
        intro j event other here
        exact work_congr rfl rfl (others j other _)
      · rename_i more
        refine synced.unchanged ⟨fun _ => rfl, rfl⟩ ?_
        intro j event here
        refine work_congr rfl rfl ?_
        by_cases equal : j = i
        · subst equal
          refine iff_of_true ⟨slot, positive, small, ?_, mine⟩ ⟨slot, positive, small, owed, mine⟩
          simpa using more
        · exact others j equal _

theorem EventsSynced.takeMessage (synced : EventsSynced s) (current : Nat)
    (remove : Bool) : EventsSynced (kiUserTakeMessage s current remove).2 := by
  unfold kiUserTakeMessage
  cases queue : kiUserQueueForThread current with
  | none => exact synced
  | some i =>
    dsimp only
    split
    · rw [(queueForThread_some queue).1]
      exact synced.takePaint i
    · split
      · exact synced.requeue rfl
      · exact synced

theorem EventsSynced.listen (synced : EventsSynced s)
    (small : i < userMaxThreadQueues) {event : ObjectRef}
    (fresh : ∀ j, (s.queues j).inputEvent ≠ some event) (handle : Nat) :
    EventsSynced (s.listen i event handle) := by
  unfold UserState.listen
  have here : ∀ q, ((s.setQueue i q).queues i).inputEvent = q.inputEvent := by
    intro q
    simp only [UserState.setQueue, Function.update_self]
  have there : ∀ q j, j ≠ i → (s.setQueue i q).queues j = s.queues j := by
    intro q j other
    simp only [UserState.setQueue, Function.update_of_ne other]
  refine synced_of_others ?_ ?_ ?_
  · intro j own other mine
    rw [there _ j other] at mine
    rw [work_setQueue _ other]
    exact synced.mirrors j own mine
  · intro j k own mine yours
    by_cases first : j = i
    · subst first
      rw [here] at mine
      by_contra other
      rw [there _ k (Ne.symm other), ← mine] at yours
      exact fresh k yours
    · rw [there _ j first] at mine
      by_cases second : k = i
      · subst second
        rw [here] at yours
        rw [← yours] at mine
        exact absurd mine (fresh j)
      · rw [there _ k second] at yours
        exact synced.distinct j k own mine yours
  · intro j own mine
    by_cases first : j = i
    · rw [first]
      exact small
    · rw [there _ j first] at mine
      exact synced.few j own mine

theorem EventsSynced.getInputEvent (synced : EventsSynced s) (current : Nat)
    {made : Option (ObjectRef × Nat)}
    (fresh : ∀ event handle, made = some (event, handle) →
      ∀ j, (s.queues j).inputEvent ≠ some event) :
    EventsSynced (User.getInputEvent s current made) := by
  unfold User.getInputEvent
  cases queue : kiUserQueueForThread current with
  | none => exact synced
  | some i =>
    dsimp only
    cases (s.queues i).inputEvent with
    | some event => exact synced.sync (SameEvents.refl s) fun _ _ _ _ => Iff.rfl
    | none =>
      cases made with
      | none => exact synced
      | some pair =>
        exact synced.listen (queueForThread_some queue).2 (fresh pair.1 pair.2 rfl) pair.2

/-- The input event of thread `t` need not change when it gets or loses a window in
`slot`: there is none, no paint is owed there, or other work is pending. -/
def Indifferent (s : UserState) (t slot : Nat) : Prop :=
  ¬ HasQueue t ∨ (s.queues (t - 1)).inputEvent = none ∨ s.windowUpdate slot = 0 ∨
    (s.queues (t - 1)).head ≠ (s.queues (t - 1)).tail ∨
    ∃ k, k ≠ slot ∧ 0 < k ∧ k < userPaintSlots ∧ s.windowUpdate k ≠ 0 ∧ s.windowOwner k = t

/-- A slot with a new owner. -/
def UserState.own (s : UserState) (slot t : Nat) : UserState :=
  { s with windowOwner := Function.update s.windowOwner slot t }

theorem owes_own {slot t v : Nat}
    (same : s.windowUpdate slot = 0 ∨ (s.windowOwner slot ≠ t ∧ v ≠ t)) :
    Owes (s.own slot v) t ↔ Owes s t := by
  have elsewhere : ∀ k, k ≠ slot → (s.own slot v).windowOwner k = s.windowOwner k :=
    fun k other => Function.update_of_ne other _ _
  constructor
  · rintro ⟨k, positive, small, owed, mine⟩
    have other : k ≠ slot := by
      rintro rfl
      rcases same with clean | ⟨-, new⟩
      · exact owed clean
      · have owner : (s.own k v).windowOwner k = v := Function.update_self ..
        exact new (owner.symm.trans mine)
    exact ⟨k, positive, small, owed, by rwa [elsewhere k other] at mine⟩
  · rintro ⟨k, positive, small, owed, mine⟩
    have other : k ≠ slot := by
      rintro rfl
      rcases same with clean | ⟨old, -⟩
      · exact owed clean
      · exact old mine
    exact ⟨k, positive, small, owed, by rwa [elsewhere k other]⟩

theorem Indifferent.work {slot : Nat} {event : ObjectRef} (v : Nat)
    (few : i < userMaxThreadQueues) (here : (s.queues i).inputEvent = some event)
    (indifferent : Indifferent s (i + 1) slot) : Work (s.own slot v) i ↔ Work s i := by
  have has : HasQueue (i + 1) := ⟨by omega, few⟩
  rcases indifferent with none | none | clean | waiting | ⟨k, other, positive, small, owed, mine⟩
  · exact absurd has none
  · exact absurd (here.symm.trans none) (by simp)
  · exact work_congr rfl rfl (owes_own (.inl clean))
  · exact iff_of_true (.inl waiting) (.inl waiting)
  · refine iff_of_true (.inr ⟨k, positive, small, owed, ?_⟩) (.inr ⟨k, positive, small, owed, mine⟩)
    rw [← mine]
    exact Function.update_of_ne other _ _

/-- A new owner for a slot, with both the old and the new owner indifferent. -/
theorem EventsSynced.own (synced : EventsSynced s) {slot t : Nat}
    (old : Indifferent s (s.windowOwner slot) slot) (new : Indifferent s t slot) :
    EventsSynced (s.own slot t) := by
  refine synced.unchanged ⟨fun _ => rfl, rfl⟩ ?_
  intro i event here
  have few := synced.few i event here
  by_cases mine : s.windowOwner slot = i + 1
  · rw [mine] at old
    exact old.work t few here
  · by_cases yours : t = i + 1
    · rw [yours] at new
      exact new.work t few here
    · exact work_congr rfl rfl (owes_own (.inr ⟨mine, yours⟩))

theorem indifferent_zero (s : UserState) (slot : Nat) : Indifferent s 0 slot :=
  .inl fun has => absurd has.1 (by decide)

/-- A window nobody owns gets an owner, who is brought in step at once. -/
theorem EventsSynced.own_invalidate (synced : EventsSynced s) {slot t : Nat}
    (free : s.windowOwner slot = 0) (positive : slot ≠ 0) (small : slot < userPaintSlots) :
    EventsSynced (kiUserInvalidateWindow (s.own slot t) slot) := by
  have valid : ¬ (slot = 0 ∨ slot ≥ userPaintSlots) := by omega
  have owner : (s.own slot t).windowOwner slot = t := Function.update_self ..
  have others : ∀ j, t ≠ j + 1 → ∀ n, (Work { s.own slot t with
      windowUpdate := Function.update (s.own slot t).windowUpdate slot n } j ↔ Work s j) := by
    intro j other n
    refine work_congr rfl rfl ?_
    rw [owes_update (s := s.own slot t) (by rwa [owner]) n]
    exact owes_own (.inr ⟨by omega, other⟩)
  unfold kiUserInvalidateWindow
  rw [if_neg valid]
  unfold syncOwner
  simp only [owner]
  cases queue : kiUserQueueForThread t with
  | none =>
    refine synced.unchanged ⟨fun _ => rfl, rfl⟩ ?_
    intro i event here
    have few := synced.few i event here
    refine others i ?_ _
    rintro rfl
    rw [kiUserQueueForThread, if_neg (by omega)] at queue
    exact absurd queue (by simp)
  | some i =>
    refine synced.sync ⟨fun _ => rfl, rfl⟩ ?_
    intro j event other here
    have mine := (queueForThread_some queue).1
    exact others j (by omega) _

/-- `NtCallbackReturn` refuses the creation of a window. -/
def Refuses (t : CallbackFields) (result : Nat) : Prop :=
  t.callbackActive = true ∧ ((t.callbackContinue = cbContCreateNcCreate ∧ result = 0) ∨
    (t.callbackContinue = cbContCreateWmCreate ∧ result = 2 ^ 64 - 1))

/-- The owner that a slot loses, and the one it gets, is indifferent to that. -/
def KeepsWork (s : WindowState) : WindowOp → Prop
  | .destroyWindow a =>
    slotOf (a 0) ≠ 0 ∧ slotOf (a 0) < 128 →
      Indifferent s.user (s.user.windowOwner (slotOf (a 0))) (slotOf (a 0))
  | .callbackReturn current _ result =>
    let slot := slotOf (s.fields current).callbackWindow
    Refuses (s.fields current) result → slot ≠ 0 ∧ slot < 128 →
      Indifferent s.user (s.user.windowOwner slot) slot
  | .createWindowEx current _ cls a =>
    s.nextWindowIndex < 128 → createdDirty cls a = false →
      Indifferent s.user current s.nextWindowIndex
  | _ => True

/-- A slot loses its owner when the creation of its window is refused. -/
theorem ntCallbackReturn_owner (pages : Bool) (result : Nat) (s : CallbackState) :
    (Refuses s.fields result ∧ (ntCallbackReturn pages result s).2.windowOwner =
      (disown s.fields.callbackWindow s).windowOwner) ∨
    (ntCallbackReturn pages result s).2.windowOwner = s.windowOwner := by
  unfold ntCallbackReturn
  dsimp only
  split
  · exact .inr rfl
  · rename_i active
    rw [Bool.not_eq_true, Bool.not_eq_false'] at active
    split
    · rename_i first
      split
      · rename_i none
        exact .inl ⟨⟨active, .inl ⟨first, none⟩⟩, rfl⟩
      · refine .inr ?_
        split
        · split
          · rfl
          · rfl
        · rfl
    · split
      · rename_i second
        split
        · rename_i refused
          exact .inl ⟨⟨active, .inr ⟨second, refused⟩⟩, rfl⟩
        · exact .inr rfl
      · exact .inr rfl

theorem leave_owner (frame : UserFrame) (s : CallbackState) :
    (leave frame s).2.windowOwner = s.windowOwner := by
  unfold leave
  split
  · rfl
  · rfl

/-- Other services leave the owners alone. -/
theorem run_owner (pages : Bool) (s : CallbackState) (service : CallbackService)
    (other : ∀ result, service ≠ .callbackReturn result) :
    (service.run pages s).2.windowOwner = s.windowOwner := by
  have sent : ∀ hwnd message lParam,
      (kiSendToWindowProc pages hwnd message lParam s).2.windowOwner = s.windowOwner := by
    intro hwnd message lParam
    unfold kiSendToWindowProc
    split
    · rfl
    · rfl
  cases service with
  | messageCall hwnd message lParam => exact sent _ _ _
  | dispatchMessage msg =>
    cases msg with
    | none => rfl
    | some msg =>
      simp only [CallbackService.run, ntUserDispatchMessage]
      split
      · rfl
      · exact sent _ _ _
  | createWindow hwnd wndProc =>
    simp only [CallbackService.run, createWindowCallback]
    split
    · rfl
    · rfl
  | callbackReturn result => exact absurd rfl (other result)
  | other rax kernel => rfl

theorem serve_user (s : WindowState) (current : Nat) (e : Entry) (service : CallbackService) :
    (s.serve current e service).user = { s.user with
      windowOwner := ((service.run e.pages (mirror e.frame
        ⟨s.kernel, s.fields current, e.memory, s.user.windowOwner⟩)).2).windowOwner } := by
  simp only [WindowState.serve, kiSystemCallEntry, leave_owner]

theorem serve_other (s : WindowState) (current : Nat) (e : Entry) (service : CallbackService)
    (other : ∀ result, service ≠ .callbackReturn result) :
    (s.serve current e service).user = s.user := by
  rw [serve_user, run_owner e.pages _ service other]
  rfl

theorem serve_callbackReturn (s : WindowState) (current : Nat) (e : Entry) (result : Nat) :
    (Refuses (s.fields current) result ∧ slotOf (s.fields current).callbackWindow ≠ 0 ∧
      slotOf (s.fields current).callbackWindow < 128 ∧
      (s.serve current e (.callbackReturn result)).user =
        s.user.own (slotOf (s.fields current).callbackWindow) 0) ∨
    (s.serve current e (.callbackReturn result)).user = s.user := by
  rw [serve_user]
  rcases ntCallbackReturn_owner e.pages result (mirror e.frame
    ⟨s.kernel, s.fields current, e.memory, s.user.windowOwner⟩) with ⟨refuses, owner⟩ | owner
  · simp only [CallbackService.run, owner]
    unfold disown
    dsimp only
    split
    · rename_i valid
      exact .inl ⟨refuses, valid.1, valid.2, rfl⟩
    · exact .inr rfl
  · simp only [CallbackService.run, owner]
    exact .inr rfl

/-- The events are in step, and slots not yet given out have no owner. -/
structure WindowsSynced (s : WindowState) : Prop where
  events : EventsSynced s.user
  unowned : ∀ slot, s.nextWindowIndex ≤ slot → slot < 128 → s.user.windowOwner slot = 0
  index : 0 < s.nextWindowIndex

section Steps

variable {s : WindowState}

theorem WindowsSynced.next (synced : WindowsSynced s) {t : WindowState}
    (events : EventsSynced t.user) (owner : t.user.windowOwner = s.user.windowOwner)
    (index : t.nextWindowIndex = s.nextWindowIndex) : WindowsSynced t := by
  refine ⟨events, ?_, ?_⟩
  · rw [owner, index]
    exact synced.unowned
  · rw [index]
    exact synced.index

theorem WindowsSynced.disowned (synced : WindowsSynced s) {t : WindowState} {slot : Nat}
    (events : EventsSynced t.user) (owner : t.user.windowOwner =
      Function.update s.user.windowOwner slot 0)
    (index : t.nextWindowIndex = s.nextWindowIndex) : WindowsSynced t := by
  refine ⟨events, ?_, ?_⟩
  · rw [owner, index]
    intro k above small
    by_cases here : k = slot
    · rw [here, Function.update_self]
    · rw [Function.update_of_ne here]
      exact synced.unowned k above small
  · rw [index]
    exact synced.index

theorem WindowsSynced.invalidate (synced : WindowsSynced s) (slot : Nat) :
    WindowsSynced (s.invalidate slot) :=
  synced.next (synced.events.invalidateWindow slot) (invalidateWindow_windows s.user slot).1 rfl

theorem WindowsSynced.validate (synced : WindowsSynced s) (slot : Nat) :
    WindowsSynced (s.validate slot) :=
  synced.next (synced.events.validateWindow slot) (validateWindow_windows s.user slot).1 rfl

theorem WindowsSynced.setWindowPos (synced : WindowsSynced s) (a : Nat → Nat) :
    WindowsSynced (ntUserSetWindowPos s a) := by
  have moved : WindowsSynced (s.moveWindow a) := by
    unfold WindowState.moveWindow
    dsimp only
    split
    · exact synced.next synced.events rfl rfl
    · exact synced
  unfold ntUserSetWindowPos
  dsimp only
  generalize s.moveWindow a = u at *
  have hidden : WindowsSynced (if hasFlag (a 6) 0x80 then u.validate (slotOf (a 0)) else u) := by
    split
    · exact moved.validate _
    · exact moved
  split
  · exact hidden.invalidate _
  · exact hidden

/-- A new window, brought in step at once or with an indifferent creator. -/
theorem WindowsSynced.addWindow (synced : WindowsSynced s) (small : s.nextWindowIndex < 128)
    {current : Nat} {cls : Option UserClass} {a : Nat → Nat}
    (keeps : createdDirty cls a = false → Indifferent s.user current s.nextWindowIndex) :
    WindowsSynced (s.addWindow current cls a) := by
  have free := synced.unowned s.nextWindowIndex le_rfl small
  have unowned : ∀ slot, s.nextWindowIndex + 1 ≤ slot → slot < 128 →
      (s.user.own s.nextWindowIndex current).windowOwner slot = 0 := by
    intro slot above low
    have other : slot ≠ s.nextWindowIndex := by omega
    exact (Function.update_of_ne other _ _).trans (synced.unowned slot (by omega) low)
  unfold WindowState.addWindow
  dsimp only
  split
  · refine ⟨synced.events.own_invalidate free (by have := synced.index; omega) small, ?_,
      Nat.succ_pos _⟩
    intro slot above low
    show (kiUserInvalidateWindow (s.user.own s.nextWindowIndex current) _).windowOwner slot = 0
    rw [(invalidateWindow_windows _ _).1]
    exact unowned slot above low
  · rename_i clean
    refine ⟨synced.events.own ?_ (keeps (Bool.not_eq_true _ ▸ clean)), unowned, Nat.succ_pos _⟩
    rw [free]
    exact indifferent_zero _ _

/-- One operation keeps the events in step if it keeps the work of the owners it
changes. -/
theorem WindowsSynced.step (synced : WindowsSynced s) {op : WindowOp} {t : WindowState}
    (step : WindowStep s op t) (keeps : KeepsWork s op) : WindowsSynced t := by
  obtain ⟨fresh, rfl⟩ := step
  cases op with
  | post poster a =>
    exact synced.next (synced.events.enqueueMessage _ _ _ _ _ _ _)
      (SameWindows.enqueueMessage s.user _ _ _ _ _ _ _).owner rfl
  | postThread a =>
    exact synced.next (synced.events.enqueueThreadMessage _ _ _ _)
      (SameWindows.enqueueThreadMessage s.user _ _ _ _).owner rfl
  | character current character =>
    exact synced.next (synced.events.queueCharacter _ _)
      (SameWindows.queueCharacter s.user _ _).owner rfl
  | mouse current x y buttons =>
    exact synced.next (synced.events.queueMouse _ _ _ _)
      (SameWindows.queueMouse s.user _ _ _ _).owner rfl
  | take t remove =>
    exact synced.next (synced.events.takeMessage t remove) (takeMessage_windows s.user t remove).1
      rfl
  | invalidateRect a => exact synced.invalidate _
  | validateRect a => exact synced.validate _
  | redrawWindow a =>
    simp only [WindowState.after, ntUserRedrawWindow]
    split
    · exact synced.validate _
    · split
      · exact synced.invalidate _
      · exact synced
  | showWindow a =>
    simp only [WindowState.after, ntUserShowWindow]
    split
    · exact synced.validate _
    · exact synced.invalidate _
  | setWindowPos a => exact synced.setWindowPos a
  | beginPaint writable a =>
    simp only [WindowState.after, ntUserBeginPaint]
    split
    · exact synced
    · exact synced.validate _
  | createWindowEx current e cls a =>
    simp only [WindowState.after, ntUserCreateWindowEx]
    split
    · have same := serve_other s current e (.other 0 s.kernel) (by simp)
      exact synced.next (by rw [same]; exact synced.events) (by rw [same]) rfl
    · rename_i room
      have added := synced.addWindow (not_le.mp room) (keeps (not_le.mp room))
      have same := serve_other (s.addWindow current cls a) current e
        (.createWindow (0x10000 + s.nextWindowIndex) ((cls.map UserClass.wndProc).getD 0)) (by simp)
      exact added.next (by rw [same]; exact added.events) (by rw [same]) rfl
  | destroyWindow a =>
    simp only [WindowState.after, ntUserDestroyWindow]
    split
    · rename_i valid
      have disowned : EventsSynced (s.user.own (slotOf (a 0)) 0) :=
        synced.events.own (keeps valid) (indifferent_zero _ _)
      exact synced.disowned (disowned.unchanged ⟨fun _ => rfl, rfl⟩ fun _ _ _ => Iff.rfl) rfl rfl
    · exact synced
  | callbackReturn current e result =>
    rcases serve_callbackReturn s current e result with ⟨refuses, positive, small, same⟩ | same
    · have disowned := synced.events.own (keeps refuses ⟨positive, small⟩) (indifferent_zero _ _)
      exact synced.disowned (by rw [WindowState.after, same]; exact disowned)
        (by rw [WindowState.after, same]; rfl) rfl
    · exact synced.next (by rw [WindowState.after, same]; exact synced.events)
        (by rw [WindowState.after, same]) rfl
  | messageCall current e hwnd message lParam =>
    have same := serve_other s current e (.messageCall hwnd message lParam) (by simp)
    exact synced.next (by rw [WindowState.after, same]; exact synced.events)
      (by rw [WindowState.after, same]) rfl
  | dispatchMessage current e msg =>
    have same := serve_other s current e (.dispatchMessage msg) (by simp)
    exact synced.next (by rw [WindowState.after, same]; exact synced.events)
      (by rw [WindowState.after, same]) rfl
  | otherCall current e rax kernel =>
    have same := serve_other s current e (.other rax kernel) (by simp)
    exact synced.next (by rw [WindowState.after, same]; exact synced.events)
      (by rw [WindowState.after, same]) rfl
  | getInputEvent current made =>
    refine synced.next (synced.events.getInputEvent current ?_)
      (SameWindows.getInputEvent s.user current made).owner rfl
    intro event handle here
    exact fresh current event handle (by rw [here])
  | tick count =>
    exact synced.next (synced.events.unchanged ⟨fun _ => rfl, rfl⟩ fun _ _ _ => Iff.rfl) rfl rfl

end Steps

/-- An operation that changes an owner only where the event need not change. -/
def QuietStep (s : WindowState) (op : WindowOp) (t : WindowState) : Prop :=
  WindowStep s op t ∧ KeepsWork s op

/-- The input event of every thread that has one is signaled iff the thread has a
message or owes a `WM_PAINT`. -/
def EventsMirror (s : WindowState) : Prop :=
  ∀ t event, HasQueue t → (s.user.queues (t - 1)).inputEvent = some event →
    (Signaled s.user event ↔
      (s.user.queues (t - 1)).head ≠ (s.user.queues (t - 1)).tail ∨ Owes s.user t)

theorem WindowStart.synced {s : WindowState} (start : WindowStart s) : WindowsSynced s := by
  have none : ∀ i event, (s.user.queues i).inputEvent ≠ some event := by
    intro i event here
    exact absurd ((start.queues i).2.2.symm.trans here) (by simp)
  refine ⟨⟨?_, ?_, ?_⟩, fun slot _ _ => start.owners slot, ?_⟩
  · intro i event here
    exact absurd here (none i event)
  · intro i j event here
    exact absurd here (none i event)
  · intro i event here
    exact absurd here (none i event)
  · rw [start.index]
    decide

/-- In every run in which windows change hands only where the events need not change,
the input events mirror the pending work. -/
theorem input_events_mirror_work {s : WindowState} (run : Runs.Reachable WindowStart QuietStep s) :
    EventsMirror s := by
  have synced : WindowsSynced s :=
    run.invariant (fun _ start => start.synced) fun _ _ _ kept edge => kept.step edge.1 edge.2
  intro t event has here
  have index : t - 1 + 1 = t := by
    have := has.1
    omega
  have work := synced.events.mirrors (t - 1) event here
  rw [signaled_iff, work, Work, index]

/-- The desktop before anything has happened. -/
def bootWindows : WindowState :=
  ⟨bootMail.user, 1, fun _ => ⟨.none, 0, 0, 0, 0⟩, ⟨0, 0, 0, 0⟩, fun _ => .zero⟩

theorem bootWindows_start : WindowStart bootWindows :=
  ⟨fun _ => ⟨rfl, rfl, rfl⟩, fun _ => rfl, fun _ => rfl, rfl, fun _ => rfl⟩

def plainEntry : Entry := ⟨true, ⟨fun _ => 0, fun _ => true, fun _ => true⟩, ⟨0x1000, 0x2000, 0x202⟩⟩

/-- Thread 1 asks for its input event and makes a visible window. -/
def dirtyWindow : WindowState :=
  (bootWindows.after (.getInputEvent 1 (some (0x5000, 4)))).after
    (.createWindowEx 1 plainEntry none fun k => if k = 4 then wsVisible else 0)

theorem dirtyWindow_reachable : Runs.Reachable WindowStart QuietStep dirtyWindow := by
  have asked : QuietStep bootWindows (.getInputEvent 1 (some (0x5000, 4)))
      (bootWindows.after (.getInputEvent 1 (some (0x5000, 4)))) :=
    ⟨⟨fun _ _ _ _ _ => by simp [bootWindows, bootMail], rfl⟩, trivial⟩
  refine ((Runs.Reachable.of_initial bootWindows_start).next asked).next
    (l := .createWindowEx 1 plainEntry none fun k => if k = 4 then wsVisible else 0)
    ⟨⟨fun _ _ _ other => (by cases other), rfl⟩, ?_⟩
  intro _ clean
  exact absurd clean (by decide)

theorem input_events_mirror_work_dirty : Signaled dirtyWindow.user 0x5000 := by
  have mirror := input_events_mirror_work dirtyWindow_reachable 1 0x5000 ⟨by decide, by decide⟩
    (by decide +kernel)
  exact mirror.mpr (.inr ⟨1, by decide, by decide, by decide +kernel, by decide +kernel⟩)

/-- Once its window is destroyed, thread 1 has nothing to do and a signaled event. -/
theorem destroyed_window_leaves_event :
    ¬ ∀ s, Runs.Reachable WindowStart WindowStep s → EventsMirror s := by
  intro claim
  have run : Runs.Reachable WindowStart WindowStep
      (dirtyWindow.after (.destroyWindow fun _ => 0x10001)) :=
    (dirtyWindow_reachable.mono fun _ _ _ edge => edge.1).next
      (l := .destroyWindow fun _ => 0x10001) ⟨fun _ _ _ other => (by cases other), rfl⟩
  have mirror := claim _ run 1 0x5000 ⟨by decide, by decide⟩ (by decide +kernel)
  have idle : kiUserNextUpdateWindow
      (dirtyWindow.after (.destroyWindow fun _ => 0x10001)).user 1 = 0 := by decide +kernel
  have signaled : Signaled (dirtyWindow.after (.destroyWindow fun _ => 0x10001)).user 0x5000 := by
    rw [signaled_iff]
    decide +kernel
  rcases mirror.mp signaled with waiting | owes
  · exact absurd waiting (by decide +kernel)
  · exact (nextUpdateWindow_ne_zero _ (by decide)).mpr owes idle

end User
