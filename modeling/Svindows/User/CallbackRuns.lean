import Svindows.Lib.Runs
import Svindows.User.Callbacks

/-!
# Callbacks return to the interrupted caller

Each system call either leaves a thread's callback fields alone or starts,
chains or finishes a callback. The frame captured at the start stays what it is
until the finish, and the finish returns to it.
-/

namespace User

open Nt

/-- The fields after a start with this thunk, stack pointer and return address. -/
def CallbackFields.started (t : CallbackFields) (thunk rsp saved : Nat) (call : CallbackCall) :
    CallbackFields :=
  { t with
    origRip := t.userRip
    origRsp := t.userRsp
    origRflags := t.userRflags
    savedReturnAddress := saved
    callbackActive := true
    callbackRip := thunk
    callbackRsp := rsp
    callbackFlags := 0x202
    callbackContinue := call.continuation
    callbackWindow := call.window
    callbackMsg := call.msg
    callbackLParam := call.lParam
    redirectPending := true }

def CallbackFields.chained (t : CallbackFields) (thunk : Nat) (call : CallbackCall) :
    CallbackFields :=
  { t with
    callbackRip := thunk
    callbackRsp := thunkRsp t.callbackRsp
    callbackContinue := call.continuation
    callbackWindow := call.window
    callbackMsg := call.msg
    callbackLParam := call.lParam
    redirectPending := true }

/-- The word the interrupted stub returns through, 0 when it cannot be read. -/
def returnSlot (mem : UserMemory) (rsp : Nat) : Nat :=
  if mem.readable rsp then mem.word rsp else 0

/-- A call starts a message of its own or the creation of a window. -/
def CallbackCall.Fresh (call : CallbackCall) : Prop :=
  call.continuation = cbContSimple ∨
    call.continuation = cbContCreateNcCreate ∧ call.msg = wmNcCreate

inductive Effect (mem : UserMemory) (service : CallbackService) (t : CallbackFields) :
    CallbackFields → Prop where
  | same : Effect mem service t t
  | start (thunk rsp : Nat) (call : CallbackCall) (fresh : call.Fresh)
      (idle : t.callbackActive = false) :
      Effect mem service t (t.started thunk rsp (returnSlot mem t.userRsp) call)
  | chain (thunk : Nat) (call : CallbackCall) (active : t.callbackActive = true)
      (creating : t.callbackContinue = cbContCreateNcCreate)
      (next : call.continuation = cbContCreateWmCreate ∧ call.msg = wmCreate) :
      Effect mem service t (t.chained thunk call)
  | finish (result : Nat) (active : t.callbackActive = true)
      (returns : service = .callbackReturn result) :
      Effect mem service t (kiFinishCallbackToCaller mem t).2

theorem kiStartUserCallback_effect (pages : Bool) (mem : UserMemory) (call : CallbackCall)
    (k : CallbackKernel) (t : CallbackFields) (service : CallbackService) (fresh : call.Fresh) :
    Effect mem service t (kiStartUserCallback pages mem call k t).2.2 := by
  unfold kiStartUserCallback
  split
  · exact .same
  · rename_i free
    have idle : t.callbackActive = false := by
      cases active : t.callbackActive with
      | false => rfl
      | true => exact absurd (by simp [active]) free
    generalize claimCallback pages k = claim
    obtain ⟨thunk, stack, k⟩ := claim
    dsimp only
    split
    · exact .same
    · exact .start thunk (thunkRsp (stack - 0x100)) call fresh idle

theorem kiSendToWindowProc_effect (pages : Bool) (hwnd message lParam : Nat) (s : CallbackState)
    (service : CallbackService) :
    Effect s.memory service s.fields
      (kiSendToWindowProc pages hwnd message lParam s).2.fields := by
  unfold kiSendToWindowProc
  split
  · exact .same
  · exact kiStartUserCallback_effect _ _ _ _ _ _ (.inl rfl)

theorem disown_fields (hwnd : Nat) (s : CallbackState) :
    (disown hwnd s).fields = s.fields ∧ (disown hwnd s).memory = s.memory := by
  unfold disown
  dsimp only
  split
  · exact ⟨rfl, rfl⟩
  · exact ⟨rfl, rfl⟩

theorem finishCallback_effect {s u : CallbackState} {mem : UserMemory} {result : Nat}
    (active : s.fields.callbackActive = true) (fields : u.fields = s.fields) :
    Effect mem (.callbackReturn result) s.fields (finishCallback u).fields := by
  have same : (finishCallback u).fields = (kiFinishCallbackToCaller mem s.fields).2 := by
    simp only [finishCallback, kiFinishCallbackToCaller, fields]
  rw [same]
  exact .finish result active rfl

theorem ntCallbackReturn_effect (pages : Bool) (result : Nat) (s : CallbackState) :
    Effect s.memory (.callbackReturn result) s.fields
      (ntCallbackReturn pages result s).2.fields := by
  unfold ntCallbackReturn
  dsimp only
  split
  · exact .same
  · rename_i busy
    have active : s.fields.callbackActive = true := by
      cases active : s.fields.callbackActive with
      | true => rfl
      | false => exact absurd (by simp [active]) busy
    split
    · rename_i creating
      split
      · exact finishCallback_effect active (disown_fields _ s).1
      · -- the chain either gets a thunk or falls back to the finish
        split
        · unfold kiChainUserCallback
          split
          · exact finishCallback_effect active rfl
          · dsimp only
            split
            · exact finishCallback_effect active rfl
            · exact .chain _ ⟨cbContCreateWmCreate, s.fields.callbackWindow, wmCreate,
                s.fields.callbackLParam⟩ active creating ⟨rfl, rfl⟩
        · exact finishCallback_effect active rfl
    · split
      · split
        · exact finishCallback_effect active (disown_fields _ s).1
        · exact finishCallback_effect active rfl
      · exact finishCallback_effect active rfl

/-- All that a service can do to a thread. -/
theorem run_effect (pages : Bool) (s : CallbackState) (service : CallbackService) :
    Effect s.memory service s.fields (service.run pages s).2.fields := by
  cases service with
  | messageCall hwnd message lParam => exact kiSendToWindowProc_effect _ _ _ _ _ _
  | dispatchMessage msg =>
    simp only [CallbackService.run, ntUserDispatchMessage]
    split
    · exact .same
    · split
      · exact .same
      · exact kiSendToWindowProc_effect _ _ _ _ _ _
  | createWindow hwnd wndProc =>
    simp only [CallbackService.run, createWindowCallback]
    split
    · exact .same
    · exact kiStartUserCallback_effect _ _ _ _ _ _ (.inr ⟨rfl, rfl⟩)
  | callbackReturn result => exact ntCallbackReturn_effect pages result s
  | other rax kernel => exact .same

/-- A system call: the caller's frame and service, and what the rest of the
system has made of memory and the arenas since the last one. -/
structure SysCall where
  frame : UserFrame
  service : CallbackService
  pages : Bool
  kernel : CallbackKernel
  memory : UserMemory
  windowOwner : Nat → Nat

/-- A thread, the frame and return address its chain of callbacks captured, and
the messages the chain has delivered. -/
structure Tracked where
  state : CallbackState
  captured : Option (UserFrame × Nat)
  delivered : List Nat

/-- The state the service runs in. -/
def Tracked.entered (w : Tracked) (c : SysCall) : CallbackState :=
  mirror c.frame ⟨c.kernel, w.state.fields, c.memory, c.windowOwner⟩

/-- The state the service leaves. -/
def Tracked.served (w : Tracked) (c : SysCall) : CallbackState :=
  (c.service.run c.pages (w.entered c)).2

/-- Where the call returns to. -/
def Tracked.returnsTo (w : Tracked) (c : SysCall) : UserFrame :=
  (kiSystemCallEntry c.pages c.frame c.service
    ⟨c.kernel, w.state.fields, c.memory, c.windowOwner⟩).1

def Tracked.after (w : Tracked) (c : SysCall) : Tracked where
  state := (kiSystemCallEntry c.pages c.frame c.service
    ⟨c.kernel, w.state.fields, c.memory, c.windowOwner⟩).2.2
  captured :=
    if !(w.served c).fields.callbackActive then none
    else if w.state.fields.callbackActive then w.captured
    else some (c.frame, returnSlot c.memory c.frame.rsp)
  delivered :=
    if !(w.served c).fields.callbackActive then []
    else if !w.state.fields.callbackActive then [(w.served c).fields.callbackMsg]
    else if (w.served c).fields.redirectPending then
      w.delivered ++ [(w.served c).fields.callbackMsg]
    else w.delivered

def CallbackStart (w : Tracked) : Prop :=
  w.state.fields.callbackActive = false ∧ w.state.fields.redirectPending = false ∧
    w.captured = none ∧ w.delivered = []

def CallbackStep (w : Tracked) (c : SysCall) (v : Tracked) : Prop := v = w.after c

/-- How far a chain is and what it has delivered. -/
def Stage (t : CallbackFields) (delivered : List Nat) : Prop :=
  t.callbackContinue = cbContCreateNcCreate ∧ delivered = [wmNcCreate] ∨
  t.callbackContinue = cbContCreateWmCreate ∧ delivered = [wmNcCreate, wmCreate] ∨
  t.callbackContinue = cbContSimple ∧ delivered.length = 1

/-- The captured frame is in the thread. -/
def Holds (t : CallbackFields) (f : UserFrame) (ret : Nat) : Prop :=
  t.origRip = f.rip ∧ t.origRsp = f.rsp ∧ t.origRflags = f.rflags ∧ t.savedReturnAddress = ret

structure Follows (w : Tracked) : Prop where
  settled : w.state.fields.redirectPending = false
  idle : w.captured = none → w.state.fields.callbackActive = false ∧ w.delivered = []
  chain : ∀ f ret, w.captured = some (f, ret) →
    w.state.fields.callbackActive = true ∧ Holds w.state.fields f ret ∧
      Stage w.state.fields w.delivered

theorem leave_fields (frame : UserFrame) (s : CallbackState) :
    (leave frame s).2.fields = { s.fields with redirectPending := false } ∧
      (leave frame s).1 = if s.fields.redirectPending then
        ⟨s.fields.callbackRip, s.fields.callbackRsp, s.fields.callbackFlags⟩ else frame := by
  unfold leave
  cases pending : s.fields.redirectPending with
  | true => simp
  | false =>
    have same : s.fields = { s.fields with redirectPending := false } := by
      rw [← pending]
    exact ⟨same, rfl⟩

theorem Tracked.after_fields (w : Tracked) (c : SysCall) :
    (w.after c).state.fields = { (w.served c).fields with redirectPending := false } :=
  (leave_fields c.frame (w.served c)).1

theorem Tracked.returnsTo_eq (w : Tracked) (c : SysCall) :
    w.returnsTo c = if (w.served c).fields.redirectPending then
        ⟨(w.served c).fields.callbackRip, (w.served c).fields.callbackRsp,
          (w.served c).fields.callbackFlags⟩
      else c.frame :=
  (leave_fields c.frame (w.served c)).2

theorem Tracked.effect (w : Tracked) (c : SysCall) :
    Effect c.memory c.service (w.entered c).fields (w.served c).fields :=
  run_effect c.pages (w.entered c) c.service

/-- A chain in flight is the captured one. -/
theorem Follows.captured {w : Tracked} (follows : Follows w)
    (active : w.state.fields.callbackActive = true) :
    ∃ f ret, w.captured = some (f, ret) ∧ Holds w.state.fields f ret ∧
      Stage w.state.fields w.delivered := by
  cases frame : w.captured with
  | none => exact absurd (active.symm.trans (follows.idle frame).1) (by simp)
  | some pair =>
    obtain ⟨f, ret⟩ := pair
    obtain ⟨_, holds, stage⟩ := follows.chain f ret frame
    exact ⟨f, ret, rfl, holds, stage⟩

/-- After a finish nothing is captured. -/
theorem Follows.of_inactive {w : Tracked} {c : SysCall}
    (done : (w.served c).fields.callbackActive = false) : Follows (w.after c) := by
  have fields := w.after_fields c
  refine ⟨?_, ?_, ?_⟩
  · rw [fields]
  · intro _
    rw [fields]
    exact ⟨done, by simp [Tracked.after, done]⟩
  · intro f ret some_
    exact absurd some_ (by simp [Tracked.after, done])

theorem Follows.step {w : Tracked} (follows : Follows w) (c : SysCall) : Follows (w.after c) := by
  have fields := w.after_fields c
  have effect := w.effect c
  generalize hu : (w.served c).fields = u at fields effect
  cases effect with
  | same =>
    cases active : w.state.fields.callbackActive with
    | false => exact Follows.of_inactive (by rw [hu]; exact active)
    | true =>
      obtain ⟨f, ret, here, holds, stage⟩ := follows.captured active
      have here' : (w.after c).captured = some (f, ret) := by
        have still : (w.served c).fields.callbackActive = true := by rw [hu]; exact active
        simp [Tracked.after, still, active, here]
      have quiet : (w.served c).fields.redirectPending = false := by
        rw [hu]
        exact follows.settled
      have delivered : (w.after c).delivered = w.delivered := by
        have still : (w.served c).fields.callbackActive = true := by rw [hu]; exact active
        simp [Tracked.after, still, active, quiet]
      refine ⟨by rw [fields], fun none => absurd (here'.symm.trans none) (by simp), ?_⟩
      intro g ret' same
      obtain ⟨rfl, rfl⟩ := Prod.mk.inj (Option.some.inj (here'.symm.trans same))
      rw [fields, delivered]
      exact ⟨active, holds, stage⟩
  | start thunk rsp call fresh idle =>
    have before : w.state.fields.callbackActive = false := idle
    have still : (w.served c).fields.callbackActive = true := by rw [hu]; rfl
    have here' : (w.after c).captured = some (c.frame, returnSlot c.memory c.frame.rsp) := by
      simp [Tracked.after, still, before]
    have delivered : (w.after c).delivered = [call.msg] := by
      simp [Tracked.after, before, hu, CallbackFields.started]
    refine ⟨by rw [fields], fun none => absurd (here'.symm.trans none) (by simp), ?_⟩
    intro g ret' same
    obtain ⟨rfl, rfl⟩ := Prod.mk.inj (Option.some.inj (here'.symm.trans same))
    rw [fields, delivered]
    refine ⟨rfl, ⟨rfl, rfl, rfl, rfl⟩, ?_⟩
    rcases fresh with simple | ⟨creating, msg⟩
    · exact .inr (.inr ⟨simple, rfl⟩)
    · exact .inl ⟨creating, by rw [msg]⟩
  | chain thunk call active creating next =>
    have before : w.state.fields.callbackActive = true := active
    have still : (w.served c).fields.callbackActive = true := by rw [hu]; exact active
    obtain ⟨f, ret, here, holds, stage⟩ := follows.captured before
    have here' : (w.after c).captured = some (f, ret) := by
      simp [Tracked.after, still, before, here]
    have delivered : (w.after c).delivered = w.delivered ++ [call.msg] := by
      simp [Tracked.after, before, hu, CallbackFields.chained, active]
    have first : w.delivered = [wmNcCreate] := by
      have creating : w.state.fields.callbackContinue = cbContCreateNcCreate := creating
      rcases stage with ⟨_, one⟩ | ⟨other, _⟩ | ⟨other, _⟩
      · exact one
      · exact absurd (creating.symm.trans other) (by decide)
      · exact absurd (creating.symm.trans other) (by decide)
    refine ⟨by rw [fields], fun none => absurd (here'.symm.trans none) (by simp), ?_⟩
    intro g ret' same
    obtain ⟨rfl, rfl⟩ := Prod.mk.inj (Option.some.inj (here'.symm.trans same))
    rw [fields, delivered, first, next.2]
    exact ⟨active, holds, .inr (.inl ⟨next.1, rfl⟩)⟩
  | finish result active returns => exact Follows.of_inactive (by rw [hu]; rfl)

/-- The call that ends a chain is an `NtCallbackReturn`, and it returns to the
captured frame. -/
theorem Follows.finish {w : Tracked} (follows : Follows w) (c : SysCall)
    (active : w.state.fields.callbackActive = true)
    (done : (w.after c).state.fields.callbackActive = false) :
    ∃ result f ret, c.service = .callbackReturn result ∧ w.captured = some (f, ret) ∧
      w.returnsTo c = f := by
  have fields := w.after_fields c
  have effect := w.effect c
  have goes := w.returnsTo_eq c
  obtain ⟨f, ret, here, ⟨rip, rsp, rflags, _⟩, _⟩ := follows.captured active
  rw [fields] at done
  generalize (w.served c).fields = u at done effect goes
  cases effect with
  | same | chain thunk call _ _ _ => exact absurd (active.symm.trans done) (by simp)
  | start thunk rsp call fresh idle => exact absurd (active.symm.trans idle) (by simp)
  | finish result _ returns =>
    refine ⟨result, f, ret, returns, here, ?_⟩
    rw [goes]
    show (⟨w.state.fields.origRip, w.state.fields.origRsp, w.state.fields.origRflags⟩ :
      UserFrame) = f
    rw [rip, rsp, rflags]

theorem ntCallbackReturn_finishes (pages : Bool) (result : Nat) {s : CallbackState}
    (active : s.fields.callbackActive = true)
    (last : s.fields.callbackContinue ≠ cbContCreateNcCreate) :
    (ntCallbackReturn pages result s).2.fields.callbackActive = false := by
  unfold ntCallbackReturn
  simp only [active, Bool.not_true, Bool.false_eq_true, if_false, if_neg last]
  split
  · split
    · rfl
    · rfl
  · rfl

/-- A start is refused without effect while a chain is active or a redirect is
pending. -/
theorem kiStartUserCallback_refused (pages : Bool) (mem : UserMemory) (call : CallbackCall)
    (k : CallbackKernel) {t : CallbackFields}
    (busy : t.callbackActive = true ∨ t.redirectPending = true) :
    kiStartUserCallback pages mem call k t = (false, k, t) := by
  unfold kiStartUserCallback
  have either : (t.callbackActive || t.redirectPending) = true := by
    rcases busy with busy | busy
    · simp [busy]
    · simp [busy]
  rw [if_pos either]

theorem Follows.delivered_le {w : Tracked} (follows : Follows w) :
    w.delivered.length ≤ 1 ∨ w.delivered = [wmNcCreate, wmCreate] := by
  cases active : w.state.fields.callbackActive with
  | false =>
    cases frame : w.captured with
    | none =>
      rw [(follows.idle frame).2]
      exact .inl (Nat.zero_le _)
    | some pair =>
      have other := (follows.chain pair.1 pair.2 frame).1
      exact absurd (other.symm.trans active) (by simp)
  | true =>
    obtain ⟨_, _, _, _, stage⟩ := follows.captured active
    rcases stage with ⟨_, one⟩ | ⟨_, two⟩ | ⟨_, one⟩
    · rw [one]
      exact .inl (Nat.le_refl _)
    · exact .inr two
    · exact .inl (Nat.le_of_eq one)

/-- Callbacks return to the interrupted caller, whatever the thread calls. -/
theorem callbacks_return_to_caller {w : Tracked}
    (run : Runs.Reachable CallbackStart CallbackStep w) :
    (∀ f ret, w.captured = some (f, ret) →
      w.state.fields.callbackActive = true ∧ Holds w.state.fields f ret) ∧
    (w.captured = none → w.state.fields.callbackActive = false) ∧
    (∀ c, w.state.fields.callbackActive = true →
      (w.after c).state.fields.callbackActive = true → (w.after c).captured = w.captured) ∧
    (∀ c, w.state.fields.callbackActive = true →
      (w.after c).state.fields.callbackActive = false →
      ∃ result f ret, c.service = .callbackReturn result ∧ w.captured = some (f, ret) ∧
        w.returnsTo c = f) ∧
    (∀ c result, c.service = .callbackReturn result → w.state.fields.callbackActive = true →
      w.state.fields.callbackContinue ≠ cbContCreateNcCreate →
      (w.after c).state.fields.callbackActive = false) ∧
    (∀ pages mem call k t, t.callbackActive = true ∨ t.redirectPending = true →
      kiStartUserCallback pages mem call k t = (false, k, t)) ∧
    (w.delivered.length ≤ 1 ∨ w.delivered = [wmNcCreate, wmCreate]) := by
  have follows : Follows w := by
    refine run.invariant ?_ ?_
    · rintro v ⟨idle, settled, none, nothing⟩
      refine ⟨settled, fun _ => ⟨idle, nothing⟩, ?_⟩
      intro f ret some_
      exact absurd (none.symm.trans some_) (by simp)
    · rintro v c _ follows rfl
      exact follows.step c
  refine ⟨?_, fun none => (follows.idle none).1, ?_, follows.finish, ?_, ?_,
    follows.delivered_le⟩
  · intro f ret here
    obtain ⟨active, holds, _⟩ := follows.chain f ret here
    exact ⟨active, holds⟩
  · intro c active still
    rw [w.after_fields c] at still
    have still : (w.served c).fields.callbackActive = true := still
    simp [Tracked.after, still, active]
  · intro c result service active last
    rw [w.after_fields c]
    show (c.service.run c.pages (w.entered c)).2.fields.callbackActive = false
    rw [service]
    exact ntCallbackReturn_finishes c.pages result active last
  · intro pages mem call k t busy
    exact kiStartUserCallback_refused pages mem call k busy

/-- A window of slot 1 whose procedure is at 0x5000. -/
def oneWindow : UserMemory where
  word := fun a => if a = processUserObjectArenaVa + 0x200 + wndWndProcOff then 0x5000 else 7
  readable := fun _ => true
  writable := fun _ => true

def noCallbacks : CallbackKernel := ⟨0, 0, 0, 0⟩

def idleThread : Tracked := ⟨⟨noCallbacks, .zero, oneWindow, fun _ => 1⟩, none, []⟩

/-- A call from this frame with that memory. -/
def callFrom (rip : Nat) (service : CallbackService) : SysCall :=
  ⟨⟨rip, 0x8000, 0x246⟩, service, true, noCallbacks, oneWindow, fun _ => 1⟩

/-- A send from 0x4000, and the procedure's return from 0x6000. -/
theorem callbacks_return_to_caller_one_send :
    ((idleThread.after (callFrom 0x4000 (.messageCall 1 0x10 0))).returnsTo
      (callFrom 0x6000 (.callbackReturn 5))) = ⟨0x4000, 0x8000, 0x246⟩ := by
  have start : Runs.Reachable CallbackStart CallbackStep idleThread :=
    .of_initial ⟨rfl, rfl, rfl, rfl⟩
  have sent := start.next (l := callFrom 0x4000 (.messageCall 1 0x10 0)) rfl
  obtain ⟨result, f, ret, _, here, goes⟩ := (callbacks_return_to_caller sent).2.2.2.1
    (callFrom 0x6000 (.callbackReturn 5)) (by decide) (by decide)
  have captured : (idleThread.after (callFrom 0x4000 (.messageCall 1 0x10 0))).captured =
      some (⟨0x4000, 0x8000, 0x246⟩, 7) := by decide
  obtain ⟨rfl, _⟩ := Prod.mk.inj (Option.some.inj (captured.symm.trans here))
  exact goes

end User
