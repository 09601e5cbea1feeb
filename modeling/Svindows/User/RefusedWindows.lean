import Svindows.User.CallbackRuns
import Svindows.User.PendingWork

/-!
# Windows whose creation is refused

`NtUserCreateWindowEx` enters a window in the owner table, the paint table, the
update counts and the shared handle table before its procedure is asked. When the
procedure refuses, `NtCallbackReturn` takes back the owner and nothing else, and no
code ever clears an entry of the handle table.
-/

namespace User

open Nt Ob

/-- `USER_HANDLE_ENTRY_LOCAL`. -/
structure UserHandleEntry where
  object : Nat
  owner : Nat
  type : Nat
  flags : Nat
  generation : Nat
  deriving DecidableEq, Repr

def UserHandleEntry.empty : UserHandleEntry := ⟨0, 0, 0, 0, 0⟩

def userTypeWindow : Nat := 1

def processUserObjectArenaSize : Nat := 0x40000
def userObjectSlots : Nat := processUserObjectArenaSize / 0x200

/-- The head of the object at `index` in the arena. -/
def objectHead (index : Nat) : Nat := processUserObjectArenaVa + index * 0x200

/-- What the kernel fills in for a new object; ring 3 only reads the table. -/
def objectEntry (type index : Nat) : UserHandleEntry := ⟨objectHead index, 0, type, 0, 1⟩

structure SharedWindows where
  windows : WindowState
  entries : Nat → UserHandleEntry
  /-- `g_user_next_object`. -/
  nextObject : Nat

def SharedWindows.publish (s : SharedWindows) (type index : Nat) : SharedWindows :=
  { s with entries := Function.update s.entries index (objectEntry type index) }

/-- `KiUserAllocateObject`: the handle, or 0. -/
def kiUserAllocateObject (s : SharedWindows) (type : Nat) : Nat × SharedWindows :=
  if s.nextObject ≥ userObjectSlots then (0, s)
  else (0x10000 + s.nextObject,
    { s.publish type s.nextObject with nextObject := s.nextObject + 1 })

inductive SharedOp where
  | window (op : WindowOp)
  /-- A new cursor or accelerator table. -/
  | allocateObject (type : Nat)

/-- The operation gives out the next slot. -/
def givesSlot (s : WindowState) : WindowOp → Bool
  | .createWindowEx .. => s.nextWindowIndex < 128
  | _ => false

def SharedWindows.after (s : SharedWindows) : SharedOp → SharedWindows
  | .window op =>
    let windows := s.windows.after op
    if givesSlot s.windows op then
      { s.publish userTypeWindow s.windows.nextWindowIndex with windows := windows }
    else { s with windows := windows }
  | .allocateObject type => (kiUserAllocateObject s type).2

/-- The state at boot; cursors and accelerators start above the windows. -/
structure SharedStart (s : SharedWindows) : Prop where
  windows : WindowStart s.windows
  kinds : ∀ slot, (s.windows.windows slot).kind = .none
  entries : ∀ index, s.entries index = .empty
  objects : s.nextObject = 200

def SharedStep (s : SharedWindows) (op : SharedOp) (t : SharedWindows) : Prop :=
  (∀ w, op = .window w → WindowStep s.windows w (s.windows.after w)) ∧ t = s.after op

/-- The thread is in a callback that creates `hwnd`. -/
def CallbackFields.Creates (t : CallbackFields) (hwnd : Nat) : Prop :=
  t.callbackActive = true ∧ (t.callbackContinue = cbContCreateNcCreate ∨
    t.callbackContinue = cbContCreateWmCreate) ∧ t.callbackWindow = hwnd

theorem Refuses.creates {t : CallbackFields} {result : Nat} (refuses : Refuses t result) :
    t.Creates t.callbackWindow := by
  obtain ⟨active, ⟨first, -⟩ | ⟨second, -⟩⟩ := refuses
  · exact ⟨active, .inl first, rfl⟩
  · exact ⟨active, .inr second, rfl⟩

variable {hwnd : Nat} {pages : Bool}

theorem kiStartUserCallback_creates {mem : UserMemory} {call : CallbackCall}
    {k : CallbackKernel} {t : CallbackFields}
    (creates : ((kiStartUserCallback pages mem call k t).2.2).Creates hwnd) :
    t.Creates hwnd ∨ (call.continuation ≠ cbContSimple ∧ call.window = hwnd) := by
  unfold kiStartUserCallback at creates
  split at creates
  · exact .inl creates
  · generalize claimCallback pages k = claim at creates
    obtain ⟨thunk, stack, k⟩ := claim
    dsimp only at creates
    split at creates
    · exact .inl creates
    · obtain ⟨-, stage, window⟩ := creates
      refine .inr ⟨?_, window⟩
      intro simple
      dsimp only at stage
      rw [simple] at stage
      exact absurd stage (by decide)

theorem kiSendToWindowProc_creates {target message lParam : Nat} {s : CallbackState}
    (creates : ((kiSendToWindowProc pages target message lParam s).2.fields).Creates hwnd) :
    s.fields.Creates hwnd := by
  unfold kiSendToWindowProc at creates
  split at creates
  · exact creates
  · exact (kiStartUserCallback_creates creates).resolve_right fun other => other.1 rfl

theorem kiChainUserCallback_creates {call : CallbackCall} {k : CallbackKernel} {t : CallbackFields}
    (creates : ((kiChainUserCallback pages call k t).2.2).Creates hwnd) :
    t.Creates hwnd ∨ call.window = hwnd := by
  unfold kiChainUserCallback at creates
  split at creates
  · exact .inl creates
  · dsimp only at creates
    split at creates
    · exact .inl creates
    · exact .inr creates.2.2

theorem finishCallback_creates (s : CallbackState) (hwnd : Nat) :
    ¬ ((finishCallback s).fields).Creates hwnd := by
  intro creates
  exact absurd creates.1 (by simp [finishCallback, kiFinishCallbackToCaller])

/-- A callback that returns makes the window it made before, or none. -/
theorem ntCallbackReturn_creates {result : Nat} {s : CallbackState}
    (creates : ((ntCallbackReturn pages result s).2.fields).Creates hwnd) :
    s.fields.Creates hwnd := by
  unfold ntCallbackReturn at creates
  dsimp only at creates
  split at creates
  · exact creates
  · rename_i active
    rw [Bool.not_eq_true, Bool.not_eq_false'] at active
    split at creates
    · rename_i first
      split at creates
      · exact absurd creates (finishCallback_creates _ _)
      · split at creates
        · split at creates
          · rcases kiChainUserCallback_creates creates with same | window
            · exact same
            · exact ⟨active, .inl first, window⟩
          · exact absurd creates (finishCallback_creates _ _)
        · exact absurd creates (finishCallback_creates _ _)
    · split at creates
      · split at creates
        · exact absurd creates (finishCallback_creates _ _)
        · exact absurd creates (finishCallback_creates _ _)
      · exact absurd creates (finishCallback_creates _ _)

/-- A service makes the window its thread was making, or the one it has just added. -/
theorem run_creates {s : CallbackState} {service : CallbackService}
    (creates : ((service.run pages s).2.fields).Creates hwnd) :
    s.fields.Creates hwnd ∨ ∃ wndProc, service = .createWindow hwnd wndProc := by
  cases service with
  | messageCall target message lParam => exact .inl (kiSendToWindowProc_creates creates)
  | dispatchMessage msg =>
    simp only [CallbackService.run, ntUserDispatchMessage] at creates
    split at creates
    · exact .inl creates
    · split at creates
      · exact .inl creates
      · exact .inl (kiSendToWindowProc_creates creates)
  | createWindow target wndProc =>
    simp only [CallbackService.run, createWindowCallback] at creates
    split at creates
    · exact .inl creates
    · rcases kiStartUserCallback_creates creates with same | ⟨-, window⟩
      · exact .inl same
      · exact .inr ⟨wndProc, congrArg (CallbackService.createWindow · wndProc) window⟩
  | callbackReturn result => exact .inl (ntCallbackReturn_creates creates)
  | other rax kernel => exact .inl creates

theorem serve_creates {s : WindowState} {current t : Nat} {e : Entry} {service : CallbackService}
    (creates : ((s.serve current e service).fields t).Creates hwnd) :
    (s.fields t).Creates hwnd ∨ ∃ wndProc, service = .createWindow hwnd wndProc := by
  by_cases here : t = current
  · subst here
    simp only [WindowState.serve, Function.update_self, kiSystemCallEntry, leave_fields] at creates
    exact run_creates creates
  · simp only [WindowState.serve, Function.update_of_ne here] at creates
    exact .inl creates

theorem addWindow_frame (s : WindowState) (current : Nat) (cls : Option UserClass)
    (a : Nat → Nat) : (s.addWindow current cls a).fields = s.fields ∧
      (s.addWindow current cls a).nextWindowIndex = s.nextWindowIndex + 1 := by
  unfold WindowState.addWindow
  dsimp only
  split
  · exact ⟨rfl, rfl⟩
  · exact ⟨rfl, rfl⟩

/-- The services that enter no procedure leave the callbacks and the slots alone. -/
theorem setWindowPos_frame (s : WindowState) (a : Nat → Nat) :
    (ntUserSetWindowPos s a).fields = s.fields ∧
      (ntUserSetWindowPos s a).nextWindowIndex = s.nextWindowIndex := by
  have moved : (s.moveWindow a).fields = s.fields ∧
      (s.moveWindow a).nextWindowIndex = s.nextWindowIndex := by
    unfold WindowState.moveWindow
    dsimp only
    split
    · exact ⟨rfl, rfl⟩
    · exact ⟨rfl, rfl⟩
  unfold ntUserSetWindowPos
  dsimp only
  generalize s.moveWindow a = u at *
  split
  · split
    · exact moved
    · exact moved
  · split
    · exact moved
    · exact moved

/-- From `s` to `u` the next slot is given out or not, and a window whose creation begins
is in that slot. -/
structure Adds (s u : WindowState) (slot : Bool) : Prop where
  index : u.nextWindowIndex = s.nextWindowIndex + if slot then 1 else 0
  creates : ∀ t hwnd, (u.fields t).Creates hwnd → (s.fields t).Creates hwnd ∨
    (slot = true ∧ hwnd = 0x10000 + s.nextWindowIndex)

theorem Adds.same {s u : WindowState} (frame : u.fields = s.fields ∧
    u.nextWindowIndex = s.nextWindowIndex) : Adds s u false where
  index := frame.2
  creates := fun _ _ creates => .inl (frame.1 ▸ creates)

theorem Adds.served (s : WindowState) (current : Nat) (e : Entry) {service : CallbackService}
    (other : ∀ hwnd wndProc, service ≠ .createWindow hwnd wndProc) :
    Adds s (s.serve current e service) false where
  index := rfl
  creates := fun t hwnd creates => by
    rcases serve_creates creates with same | ⟨wndProc, made⟩
    · exact .inl same
    · exact absurd made (other hwnd wndProc)

theorem adds_createWindowEx (s : WindowState) (current : Nat) (e : Entry) (cls : Option UserClass)
    (a : Nat → Nat) :
    Adds s (ntUserCreateWindowEx s current e cls a) (decide (s.nextWindowIndex < 128)) := by
  unfold ntUserCreateWindowEx
  split
  · rename_i full
    rw [decide_eq_false (not_lt.mpr full)]
    exact .served s current e (by simp)
  · rename_i room
    rw [decide_eq_true (not_le.mp room)]
    obtain ⟨fields, index⟩ := addWindow_frame s current cls a
    refine ⟨index, ?_⟩
    intro t hwnd creates
    rcases serve_creates creates with same | ⟨wndProc, made⟩
    · exact .inl (fields ▸ same)
    · exact .inr ⟨rfl, (CallbackService.createWindow.inj made).1.symm⟩

theorem after_adds (s : WindowState) (op : WindowOp) : Adds s (s.after op) (givesSlot s op) := by
  cases op with
  | redrawWindow a =>
    refine .same ?_
    simp only [WindowState.after, ntUserRedrawWindow]
    split
    · exact ⟨rfl, rfl⟩
    · split
      · exact ⟨rfl, rfl⟩
      · exact ⟨rfl, rfl⟩
  | showWindow a =>
    refine .same ?_
    simp only [WindowState.after, ntUserShowWindow]
    split
    · exact ⟨rfl, rfl⟩
    · exact ⟨rfl, rfl⟩
  | setWindowPos a => exact .same (setWindowPos_frame s a)
  | beginPaint writable a =>
    refine .same ?_
    simp only [WindowState.after, ntUserBeginPaint]
    split
    · exact ⟨rfl, rfl⟩
    · exact ⟨rfl, rfl⟩
  | createWindowEx current e cls a => exact adds_createWindowEx s current e cls a
  | destroyWindow a =>
    refine .same ?_
    simp only [WindowState.after, ntUserDestroyWindow]
    split
    · exact ⟨rfl, rfl⟩
    · exact ⟨rfl, rfl⟩
  | callbackReturn current e result => exact .served s current e (by simp)
  | messageCall current e hwnd message lParam => exact .served s current e (by simp)
  | dispatchMessage current e msg => exact .served s current e (by simp)
  | otherCall current e rax kernel => exact .served s current e (by simp)
  | post poster a => exact .same ⟨rfl, rfl⟩
  | postThread a => exact .same ⟨rfl, rfl⟩
  | character current character => exact .same ⟨rfl, rfl⟩
  | mouse current x y buttons => exact .same ⟨rfl, rfl⟩
  | take t remove => exact .same ⟨rfl, rfl⟩
  | invalidateRect a => exact .same ⟨rfl, rfl⟩
  | validateRect a => exact .same ⟨rfl, rfl⟩
  | getInputEvent current made => exact .same ⟨rfl, rfl⟩
  | tick count => exact .same ⟨rfl, rfl⟩

/-- The slots given out are in the handle table, and every creation is of one of them. -/
structure Published (s : SharedWindows) : Prop where
  index : 0 < s.windows.nextWindowIndex
  few : s.windows.nextWindowIndex ≤ 128
  objects : 128 < s.nextObject
  entries : ∀ i, 0 < i → i < s.windows.nextWindowIndex → s.entries i = objectEntry userTypeWindow i
  creating : ∀ t hwnd, (s.windows.fields t).Creates hwnd →
    ∃ i, 0 < i ∧ i < s.windows.nextWindowIndex ∧ hwnd = 0x10000 + i

theorem givesSlot_room {s : WindowState} {op : WindowOp} (gives : givesSlot s op = true) :
    s.nextWindowIndex < 128 := by
  cases op with
  | createWindowEx current e cls a => exact of_decide_eq_true gives
  | _ => exact absurd gives Bool.false_ne_true

theorem Published.step {s t : SharedWindows} {op : SharedOp} (published : Published s)
    (step : SharedStep s op t) : Published t := by
  obtain ⟨-, rfl⟩ := step
  have index := published.index
  have few := published.few
  cases op with
  | window op =>
    have adds := after_adds s.windows op
    simp only [SharedWindows.after]
    cases gives : givesSlot s.windows op with
    | false =>
      rw [gives] at adds
      have same : (s.windows.after op).nextWindowIndex = s.windows.nextWindowIndex := adds.index
      rw [if_neg (by decide)]
      refine ⟨?_, ?_, published.objects, ?_, ?_⟩
      · rwa [same]
      · rwa [same]
      · rw [same]
        exact published.entries
      · intro t hwnd creates
        rw [same]
        exact published.creating t hwnd ((adds.creates t hwnd creates).resolve_right (by simp))
    | true =>
      rw [gives] at adds
      have next : (s.windows.after op).nextWindowIndex = s.windows.nextWindowIndex + 1 := adds.index
      have room := givesSlot_room gives
      rw [if_pos rfl]
      refine ⟨?_, ?_, published.objects, ?_, ?_⟩
      · rw [next]
        exact Nat.succ_pos _
      · rw [next]
        exact room
      · rw [next]
        intro i positive below
        by_cases new : i = s.windows.nextWindowIndex
        · rw [new]
          exact Function.update_self ..
        · exact (Function.update_of_ne new _ _).trans (published.entries i positive (by omega))
      · intro t hwnd creates
        rw [next]
        rcases adds.creates t hwnd creates with old | ⟨-, new⟩
        · obtain ⟨i, positive, below, same⟩ := published.creating t hwnd old
          exact ⟨i, positive, Nat.lt_succ_of_lt below, same⟩
        · exact ⟨_, index, Nat.lt_succ_self _, new⟩
  | allocateObject type =>
    have objects := published.objects
    simp only [SharedWindows.after, kiUserAllocateObject]
    split
    · exact published
    · refine ⟨index, few, Nat.lt_succ_of_lt objects, ?_, published.creating⟩
      intro i positive below
      -- cursors and accelerators lie above the windows
      have low : i < s.windows.nextWindowIndex := below
      have other : i ≠ s.nextObject := by omega
      exact (Function.update_of_ne other _ _).trans (published.entries i positive low)

theorem SharedStart.published {s : SharedWindows} (start : SharedStart s) : Published s := by
  have one := start.windows.index
  refine ⟨?_, ?_, ?_, ?_, ?_⟩
  · omega
  · omega
  · rw [start.objects]
    decide
  · intro i positive below
    omega
  · intro t hwnd creates
    have idle := creates.1
    rw [start.windows.fields t] at idle
    exact absurd idle (by decide)

/-- What is there of a window that was never created: nothing. -/
structure NoWindow (s : SharedWindows) (slot : Nat) : Prop where
  owner : s.windows.user.windowOwner slot = 0
  kind : (s.windows.windows slot).kind = .none
  update : s.windows.user.windowUpdate slot = 0
  entry : s.entries slot = .empty

/-- A refusal takes back the owner of the window and leaves the rest, its entry in the
handle table among it. -/
structure OnlyDisowned (s u : SharedWindows) (slot : Nat) : Prop where
  owner : u.windows.user.windowOwner slot = 0
  paint : u.windows.windows = s.windows.windows
  update : u.windows.user.windowUpdate = s.windows.user.windowUpdate
  entry : u.entries slot = objectEntry userTypeWindow slot

theorem disown_owner (s : CallbackState) (valid : slotOf hwnd ≠ 0 ∧ slotOf hwnd < 128) :
    (disown hwnd s).windowOwner = Function.update s.windowOwner (slotOf hwnd) 0 := by
  unfold slotOf at *
  simp only [disown, if_pos valid]

theorem ntCallbackReturn_refused (pages : Bool) {result : Nat} {s : CallbackState}
    (refuses : Refuses s.fields result) :
    ntCallbackReturn pages result s = (0, finishCallback (disown s.fields.callbackWindow s)) := by
  obtain ⟨active, ⟨first, rfl⟩ | ⟨second, rfl⟩⟩ := refuses
  · simp [ntCallbackReturn, active, first]
  · simp [ntCallbackReturn, active, second, cbContCreateNcCreate, cbContCreateWmCreate]

theorem Published.refused {s : SharedWindows} (published : Published s) {current result : Nat}
    (e : Entry) (refuses : Refuses (s.windows.fields current) result) :
    OnlyDisowned s (s.after (.window (.callbackReturn current e result)))
      (slotOf (s.windows.fields current).callbackWindow) := by
  obtain ⟨i, positive, below, window⟩ := published.creating current _ refuses.creates
  have few := published.few
  have slot : slotOf (s.windows.fields current).callbackWindow = i := by
    rw [window, slotOf]
    omega
  have valid : slotOf (s.windows.fields current).callbackWindow ≠ 0 ∧
      slotOf (s.windows.fields current).callbackWindow < 128 := by omega
  have owner : (s.windows.serve current e (.callbackReturn result)).user = s.windows.user.own
      (slotOf (s.windows.fields current).callbackWindow) 0 := by
    have refused := ntCallbackReturn_refused e.pages (s := mirror e.frame
      ⟨s.windows.kernel, s.windows.fields current, e.memory, s.windows.user.windowOwner⟩) refuses
    rw [serve_user, CallbackService.run, refused]
    exact congrArg (fun owner => { s.windows.user with windowOwner := owner })
      (disown_owner _ valid)
  refine ⟨?_, rfl, ?_, ?_⟩
  · change (s.windows.serve current e (.callbackReturn result)).user.windowOwner _ = 0
    rw [owner]
    exact Function.update_self ..
  · change (s.windows.serve current e (.callbackReturn result)).user.windowUpdate = _
    rw [owner]
    rfl
  · rw [slot]
    exact published.entries i positive below

/-- A refused creation always leaves a window: its entry stays in the handle table. -/
theorem refused_windows_stay {s : SharedWindows} (run : Runs.Reachable SharedStart SharedStep s)
    {current result : Nat} (e : Entry) (refuses : Refuses (s.windows.fields current) result) :
    OnlyDisowned s (s.after (.window (.callbackReturn current e result)))
        (slotOf (s.windows.fields current).callbackWindow) ∧
      ¬ NoWindow (s.after (.window (.callbackReturn current e result)))
        (slotOf (s.windows.fields current).callbackWindow) := by
  have published : Published s :=
    run.invariant (fun _ start => start.published) fun _ _ _ kept step => kept.step step
  have left := published.refused e refuses
  refine ⟨left, fun none => ?_⟩
  have type := congrArg UserHandleEntry.type (left.entry.symm.trans none.entry)
  exact absurd type Nat.one_ne_zero

def bootShared : SharedWindows := ⟨bootWindows, fun _ => .empty, 200⟩

theorem bootShared_start : SharedStart bootShared :=
  ⟨bootWindows_start, fun _ => rfl, fun _ => rfl, rfl⟩

/-- Thread 1 makes a window, whose procedure is to hear of it first. -/
def createsWindow : WindowOp :=
  .createWindowEx 1 plainEntry (some ⟨"Edit", 0x4000⟩) fun _ => 0

def creatingShared : SharedWindows := bootShared.after (.window createsWindow)

theorem creatingShared_reachable : Runs.Reachable SharedStart SharedStep creatingShared := by
  refine (Runs.Reachable.of_initial bootShared_start).next (l := .window createsWindow) ⟨?_, rfl⟩
  rintro w same
  obtain rfl := SharedOp.window.inj same
  exact ⟨fun _ _ _ other => (by cases other), rfl⟩

theorem creatingShared_refuses : Refuses (creatingShared.windows.fields 1) 0 :=
  ⟨by decide, .inl ⟨by decide, rfl⟩⟩

theorem refused_windows_stay_first :
    ¬ NoWindow (creatingShared.after (.window (.callbackReturn 1 plainEntry 0))) 1 :=
  (refused_windows_stay creatingShared_reachable plainEntry creatingShared_refuses).2

/-- `WM_NCCREATE` returns 0, and the window is still painted. -/
theorem refused_window_painted :
    ¬ ∀ s, Runs.Reachable SharedStart SharedStep s → ∀ current e result,
      Refuses (s.windows.fields current) result →
        NoWindow (s.after (.window (.callbackReturn current e result)))
          (slotOf (s.windows.fields current).callbackWindow) := by
  intro claim
  have none := claim _ creatingShared_reachable 1 plainEntry 0 creatingShared_refuses
  exact absurd none.kind (by decide)

end User
