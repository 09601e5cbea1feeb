import Svindows.User.PendingWork

/-!
# Delivery of WM_PAINT

The update count of a slot is what its window still owes: an invalidation sets it to
`USER_PAINT_REDELIVERY`, every `WM_PAINT` that is made up for the window takes one
from it, peeked at or removed, and a validation takes the rest. A `WM_PAINT` that
was posted is a message like any other.
-/

namespace User

open Nt Ob

/-- Nothing is posted to thread `t`, which has a queue. -/
def nothingPosted (s : UserState) (t : Nat) : Bool :=
  match kiUserQueueForThread t with
  | some i => (s.queues i).tail = (s.queues i).head
  | none => false

/-- The take returns a `WM_PAINT` for the window in `slot`. -/
def returnsPaint (s : UserState) (slot t : Nat) (remove : Bool) : Bool :=
  match (kiUserTakeMessage s t remove).1 with
  | some msg => msg.message = wmPaint && msg.hwnd = 0x10000 + slot
  | none => false

/-- The `WM_PAINT` messages for `slot` that an operation returns. -/
def returnedPaints (slot : Nat) (s : WindowState) : WindowOp → Nat
  | .take t remove => if returnsPaint s.user slot t remove then 1 else 0
  | _ => 0

/-- Those of them that are made up because nothing is posted. -/
def madePaints (slot : Nat) (s : WindowState) : WindowOp → Nat
  | .take t remove =>
    if nothingPosted s.user t && returnsPaint s.user slot t remove then 1 else 0
  | _ => 0

/-- The operation ends with an invalidation of `slot`. -/
def invalidates (slot : Nat) (s : WindowState) : WindowOp → Bool
  | .invalidateRect a => slotOf (a 0) = slot
  | .redrawWindow a => !hasFlag (a 3) 0x8 && hasFlag (a 3) 0x1 && slotOf (a 0) = slot
  | .showWindow a => a 1 % 0x10 ≠ 0 && slotOf (a 0) = slot
  | .setWindowPos a => redraws (a 6) && slotOf (a 0) = slot
  | .createWindowEx _ _ cls a =>
    s.nextWindowIndex < 128 && createdDirty cls a && s.nextWindowIndex = slot
  | _ => false

/-- The operation ends with a validation of `slot`; a `BeginPaint` does if it succeeds. -/
def validates (slot : Nat) : WindowOp → Bool
  | .validateRect a => slotOf (a 0) = slot
  | .redrawWindow a => hasFlag (a 3) 0x8 && slotOf (a 0) = slot
  | .showWindow a => a 1 % 0x10 = 0 && slotOf (a 0) = slot
  | .setWindowPos a => !redraws (a 6) && hasFlag (a 6) 0x80 && slotOf (a 0) = slot
  | .beginPaint writable a => a 1 ≠ 0 && writable && slotOf (a 0) = slot
  | _ => false

/-- A slot a window can be in. -/
def Slot (slot : Nat) : Prop := 0 < slot ∧ slot < userPaintSlots

theorem invalidate_count (s : WindowState) {slot : Nat} (valid : Slot slot) (k : Nat) :
    (s.invalidate k).user.windowUpdate slot =
      if k = slot then userPaintRedelivery else s.user.windowUpdate slot := by
  unfold WindowState.invalidate
  rw [(invalidateWindow_windows s.user k).2]
  by_cases here : k = slot
  · subst here
    rw [if_neg (by unfold Slot at valid; omega), if_pos rfl, Function.update_self]
  · rw [if_neg here]
    split
    · rfl
    · rw [Function.update_of_ne (Ne.symm here)]

theorem validate_count (s : WindowState) {slot : Nat} (valid : Slot slot) (k : Nat) :
    (s.validate k).user.windowUpdate slot =
      if k = slot then 0 else s.user.windowUpdate slot := by
  unfold WindowState.validate
  rw [(validateWindow_windows s.user k).2]
  by_cases here : k = slot
  · subst here
    rw [if_neg (by unfold Slot at valid; omega), if_pos rfl, Function.update_self]
  · rw [if_neg here]
    split
    · rfl
    · rw [Function.update_of_ne (Ne.symm here)]

theorem moveWindow_user (s : WindowState) (a : Nat → Nat) : (s.moveWindow a).user = s.user := by
  unfold WindowState.moveWindow
  dsimp only
  split
  · rfl
  · rfl

theorem addWindow_count (s : WindowState) {slot : Nat} (valid : Slot slot) (current : Nat)
    (cls : Option UserClass) (a : Nat → Nat) :
    (s.addWindow current cls a).user.windowUpdate slot =
      if createdDirty cls a = true ∧ s.nextWindowIndex = slot then userPaintRedelivery
      else s.user.windowUpdate slot := by
  unfold WindowState.addWindow
  dsimp only
  cases createdDirty cls a with
  | true =>
    rw [if_pos rfl, invalidate_count _ valid]
    simp only [true_and]
  | false => simp

theorem serve_count (s : WindowState) (current : Nat) (e : Entry) (service : CallbackService) :
    (s.serve current e service).user.windowUpdate = s.user.windowUpdate := by
  rw [serve_user]

variable {s : UserState} {t slot : Nat}

/-- Without a posted message, a take hands out the lowest window that owes a paint. -/
theorem take_nothingPosted (empty : nothingPosted s t = true) (remove : Bool) :
    ∃ i, t = i + 1 ∧ kiUserTakeMessage s t remove = takePaint s i t := by
  unfold nothingPosted at empty
  unfold kiUserTakeMessage
  cases queue : kiUserQueueForThread t with
  | none =>
    rw [queue] at empty
    exact absurd empty (by simp)
  | some i =>
    rw [queue, decide_eq_true_iff] at empty
    exact ⟨i, (queueForThread_some queue).1, if_pos empty⟩

theorem takePaint_windowUpdate (owes : kiUserNextUpdateWindow s t ≠ 0)
    (i : Nat) : (takePaint s i t).2.windowUpdate =
      Function.update s.windowUpdate (kiUserNextUpdateWindow s t)
        (s.windowUpdate (kiUserNextUpdateWindow s t) - 1) := by
  simp only [takePaint, if_neg owes]
  split
  · exact (SameWindows.sync _ _).update
  · rfl

theorem take_posted (posted : nothingPosted s t = false)
    (remove : Bool) : (kiUserTakeMessage s t remove).2.windowUpdate = s.windowUpdate := by
  unfold nothingPosted at posted
  unfold kiUserTakeMessage
  cases queue : kiUserQueueForThread t with
  | none => rfl
  | some i =>
    rw [queue, decide_eq_false_iff_not] at posted
    dsimp only
    rw [if_neg posted]
    cases remove with
    | true => exact (SameWindows.syncQueue s _ _).update
    | false => rfl

/-- Every `WM_PAINT` that is made up takes one from the count of its window. -/
theorem take_count (s : UserState) (slot t : Nat) (remove : Bool) :
    (kiUserTakeMessage s t remove).2.windowUpdate slot +
      (if nothingPosted s t && returnsPaint s slot t remove then 1 else 0) =
      s.windowUpdate slot := by
  cases empty : nothingPosted s t with
  | false => simp [take_posted empty remove]
  | true =>
    obtain ⟨i, thread, take⟩ := take_nothingPosted empty remove
    simp only [returnsPaint, take, Bool.true_and]
    obtain ⟨none, -⟩ | ⟨positive, -, owed, -, -⟩ :=
      nextUpdateWindow_cases s (t := t) (by omega)
    · simp [takePaint, none]
    · have owes := Nat.pos_iff_ne_zero.mp positive
      rw [takePaint_windowUpdate owes i]
      simp only [takePaint, if_neg owes]
      by_cases here : kiUserNextUpdateWindow s t = slot
      · subst here
        simp only [Function.update_self, decide_true, Bool.and_self, if_true]
        omega
      · simp [Function.update_of_ne (Ne.symm here), here]

theorem after_count (s : WindowState) {slot : Nat} (valid : Slot slot) (op : WindowOp) :
    (s.after op).user.windowUpdate slot + madePaints slot s op =
      if invalidates slot s op then userPaintRedelivery
      else if validates slot op then 0
      else s.user.windowUpdate slot := by
  cases op with
  | post poster a =>
    exact congrFun (SameWindows.enqueueMessage s.user _ _ _ _ _ _ _).update slot
  | postThread a => exact congrFun (SameWindows.enqueueThreadMessage s.user _ _ _ _).update slot
  | character current character =>
    exact congrFun (SameWindows.queueCharacter s.user _ _).update slot
  | mouse current x y buttons => exact congrFun (SameWindows.queueMouse s.user _ _ _ _).update slot
  | take t remove => exact take_count s.user slot t remove
  | invalidateRect a =>
    have dirty := invalidate_count s valid (slotOf (a 0))
    simp only [WindowState.after, ntUserInvalidateRect, invalidates, validates, madePaints]
    simpa using dirty
  | validateRect a =>
    have clean := validate_count s valid (slotOf (a 0))
    simp only [WindowState.after, ntUserValidateRect, invalidates, validates, madePaints]
    simpa using clean
  | redrawWindow a =>
    have clean := validate_count s valid (slotOf (a 0))
    have dirty := invalidate_count s valid (slotOf (a 0))
    simp only [WindowState.after, ntUserRedrawWindow, invalidates, validates, madePaints]
    by_cases cleans : hasFlag (a 3) 0x8 = true
    · simpa [cleans] using clean
    · by_cases dirties : hasFlag (a 3) 0x1 = true
      · simpa [cleans, dirties] using dirty
      · simp [cleans, dirties]
  | showWindow a =>
    have clean := validate_count s valid (slotOf (a 0))
    have dirty := invalidate_count s valid (slotOf (a 0))
    simp only [WindowState.after, ntUserShowWindow, invalidates, validates, madePaints]
    by_cases hide : a 1 % 0x10 = 0
    · simpa [hide] using clean
    · simpa [hide] using dirty
  | setWindowPos a =>
    simp only [WindowState.after, ntUserSetWindowPos, invalidates, validates, madePaints]
    have moved := moveWindow_user s a
    generalize s.moveWindow a = u at *
    have clean := validate_count u valid (slotOf (a 0))
    rw [moved] at clean
    by_cases hides : hasFlag (a 6) 0x80 = true
    · have dirty := invalidate_count (u.validate (slotOf (a 0))) valid (slotOf (a 0))
      by_cases draws : redraws (a 6) = true
      · by_cases here : slotOf (a 0) = slot
        · simpa [hides, draws, here] using dirty
        · simpa [hides, draws, here, clean] using dirty
      · simpa [hides, draws] using clean
    · have dirty := invalidate_count u valid (slotOf (a 0))
      by_cases draws : redraws (a 6) = true
      · simpa [hides, draws, moved] using dirty
      · simp [hides, draws, moved]
  | beginPaint writable a =>
    have clean := validate_count s valid (slotOf (a 0))
    simp only [WindowState.after, ntUserBeginPaint, invalidates, validates, madePaints]
    by_cases null : a 1 = 0
    · simp [null]
    · cases writable with
      | true => simpa [null] using clean
      | false => simp
  | createWindowEx current e cls a =>
    simp only [WindowState.after, ntUserCreateWindowEx, invalidates, validates, madePaints]
    by_cases room : s.nextWindowIndex < 128
    · rw [if_neg (not_le.mpr room), serve_count, addWindow_count s valid]
      simp [room]
    · rw [if_pos (not_lt.mp room), serve_count]
      simp [room]
  | destroyWindow a =>
    simp only [WindowState.after, ntUserDestroyWindow, invalidates, validates, madePaints]
    split
    · rfl
    · rfl
  | callbackReturn current e result =>
    exact congrFun (serve_count s current e (.callbackReturn result)) slot
  | messageCall current e hwnd message lParam =>
    exact congrFun (serve_count s current e (.messageCall hwnd message lParam)) slot
  | dispatchMessage current e msg =>
    exact congrFun (serve_count s current e (.dispatchMessage msg)) slot
  | otherCall current e rax kernel =>
    exact congrFun (serve_count s current e (.other rax kernel)) slot
  | getInputEvent current made =>
    exact congrFun (SameWindows.getInputEvent s.user current made).update slot
  | tick count => rfl

/-- No operation ends with both. -/
theorem not_invalidates {op : WindowOp} (clean : validates slot op = true)
    (s : WindowState) : invalidates slot s op = false := by
  cases op with
  | redrawWindow a =>
    simp only [validates, Bool.and_eq_true] at clean
    simp [invalidates, clean.1]
  | showWindow a =>
    simp only [validates, Bool.and_eq_true, decide_eq_true_eq] at clean
    simp [invalidates, clean.1]
  | setWindowPos a =>
    simp only [validates, Bool.and_eq_true, Bool.not_eq_true'] at clean
    simp [invalidates, clean.1.1]
  | validateRect a => rfl
  | beginPaint writable a => rfl
  | _ => exact absurd clean (by simp [validates])

/-- A run that invalidates `slot` nowhere. -/
def Undisturbed (slot : Nat) : WindowState → List WindowOp → Prop :=
  Runs.Along WindowState.after fun s op => invalidates slot s op = false

/-- A run without invalidations makes up no more `WM_PAINT` messages than are owed. -/
theorem madePaints_le (valid : Slot slot) {s : WindowState} {ops : List WindowOp}
    (undisturbed : Undisturbed slot s ops) :
    Runs.total WindowState.after (madePaints slot) s ops ≤ s.user.windowUpdate slot := by
  refine Runs.total_le (fun s => s.user.windowUpdate slot) ?_ undisturbed
  intro s op quiet
  have count := after_count s valid op
  rw [quiet] at count
  by_cases clean : validates slot op = true
  · simp only [Bool.false_eq_true, if_false, clean, if_true] at count
    omega
  · simp only [Bool.false_eq_true, if_false, clean] at count
    omega

theorem take_of_owes (valid : Slot slot) (has : HasQueue t)
    (mine : s.windowOwner slot = t) (owed : s.windowUpdate slot ≠ 0) (remove : Bool) :
    (kiUserTakeMessage s t remove).1 ≠ none := by
  have thread : t ≠ 0 := by
    have := has.1
    omega
  have owes := (nextUpdateWindow_ne_zero s thread).mpr ⟨slot, valid.1, valid.2, owed, mine⟩
  unfold kiUserTakeMessage
  rw [kiUserQueueForThread_eq has]
  dsimp only
  split
  · simp [takePaint, owes]
  · simp

theorem made_lowest {remove : Bool}
    (empty : nothingPosted s t = true) (made : returnsPaint s slot t remove = true) :
    s.windowOwner slot = t ∧ s.windowUpdate slot ≠ 0 ∧
      ∀ k, 0 < k → k < slot → s.windowOwner k = t → s.windowUpdate k = 0 := by
  obtain ⟨i, thread, take⟩ := take_nothingPosted empty remove
  simp only [returnsPaint, take] at made
  obtain ⟨none, -⟩ | ⟨positive, -, owed, mine, lowest⟩ :=
    nextUpdateWindow_cases s (t := t) (by omega)
  · simp [takePaint, none] at made
  · have owes := Nat.pos_iff_ne_zero.mp positive
    simp only [takePaint, if_neg owes, decide_true, Bool.true_and, decide_eq_true_iff] at made
    have here : kiUserNextUpdateWindow s t = slot := by omega
    rw [← here]
    exact ⟨mine, owed, lowest⟩

/-- The `WM_PAINT` messages made up for a window are bounded by its last invalidation and
end with a validation; while one is owed the owner gets a message, and the lowest window
is served first. -/
theorem paints_bounded_and_kept (s : WindowState) (slot : Nat) (valid : Slot slot) :
    (∀ op ops, invalidates slot s op = true → Undisturbed slot (s.after op) ops →
      Runs.total WindowState.after (madePaints slot) (s.after op) ops ≤ userPaintRedelivery) ∧
    (∀ op ops, validates slot op = true → Undisturbed slot (s.after op) ops →
      Runs.total WindowState.after (madePaints slot) (s.after op) ops = 0) ∧
    (∀ t remove, HasQueue t → s.user.windowOwner slot = t → s.user.windowUpdate slot ≠ 0 →
      (kiUserTakeMessage s.user t remove).1 ≠ none) ∧
    ∀ t remove, nothingPosted s.user t = true → returnsPaint s.user slot t remove = true →
      s.user.windowOwner slot = t ∧ s.user.windowUpdate slot ≠ 0 ∧
        ∀ k, 0 < k → k < slot → s.user.windowOwner k = t → s.user.windowUpdate k = 0 := by
  refine ⟨?_, ?_, ?_, ?_⟩
  · intro op ops dirty undisturbed
    have count := after_count s valid op
    rw [dirty, if_pos rfl] at count
    have bound := madePaints_le valid undisturbed
    omega
  · intro op ops clean undisturbed
    have count := after_count s valid op
    rw [not_invalidates clean s, clean] at count
    simp only [Bool.false_eq_true, if_false, if_true] at count
    have bound := madePaints_le valid undisturbed
    omega
  · intro t remove has mine owed
    exact take_of_owes valid has mine owed remove
  · intro t remove empty made
    exact made_lowest empty made

/-- A visible window in slot 1. -/
def visibleWindow : WindowOp :=
  .createWindowEx 1 plainEntry none fun k => if k = 4 then wsVisible else 0

theorem paints_bounded_and_kept_peeks :
    invalidates 1 bootWindows visibleWindow = true ∧
      Runs.total WindowState.after (madePaints 1) (bootWindows.after visibleWindow)
        (List.replicate 6 (.take 1 false)) ≤ 4 := by
  have dirty : invalidates 1 bootWindows visibleWindow = true := by decide
  refine ⟨dirty, ?_⟩
  refine (paints_bounded_and_kept bootWindows 1 ⟨by decide, by decide⟩).1 visibleWindow _ dirty ?_
  exact ⟨rfl, rfl, rfl, rfl, rfl, rfl, trivial⟩

/-- Five peeks at one posted `WM_PAINT` return it five times, and a `BeginPaint` whose
`PAINTSTRUCT` cannot be written leaves the next `WM_PAINT` owed. -/
theorem posted_paints_are_returned :
    (¬ ∀ s slot op ops, Runs.Reachable WindowStart WindowStep s → Slot slot →
      invalidates slot s op = true → Undisturbed slot (s.after op) ops →
      Runs.total WindowState.after (returnedPaints slot) (s.after op) ops ≤ userPaintRedelivery) ∧
    ¬ ∀ s slot writable a ops, Runs.Reachable WindowStart WindowStep s → Slot slot →
      slotOf (a 0) = slot → Undisturbed slot (s.after (.beginPaint writable a)) ops →
      Runs.total WindowState.after (returnedPaints slot) (s.after (.beginPaint writable a)) ops = 0 := by
  have booted : Runs.Reachable WindowStart WindowStep bootWindows :=
    Runs.Reachable.of_initial bootWindows_start
  refine ⟨fun claim => ?_, fun claim => ?_⟩
  · have bound := claim bootWindows 1 visibleWindow
      (.post 2 (fun k => if k = 0 then 0x10001 else if k = 1 then wmPaint else 0) ::
        List.replicate 5 (.take 1 false)) booted ⟨by decide, by decide⟩ (by decide)
      ⟨rfl, rfl, rfl, rfl, rfl, rfl, trivial⟩
    exact absurd bound (by decide +kernel)
  · have shown : Runs.Reachable WindowStart WindowStep (bootWindows.after visibleWindow) :=
      booted.next (l := visibleWindow) ⟨fun _ _ _ other => (by cases other), rfl⟩
    have none := claim (bootWindows.after visibleWindow) 1 false (fun _ => 0x10001) [.take 1 true]
      shown ⟨by decide, by decide⟩ (by decide) ⟨rfl, trivial⟩
    exact absurd none (by decide +kernel)

end User
