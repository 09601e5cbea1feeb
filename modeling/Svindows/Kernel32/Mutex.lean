import Svindows.Lib.Runs
import Svindows.Ps.Semaphores

/-!
# Mutexes

The mutex functions of `kernel32.c` over the event and wait services. A mutex is
a notification event that is created signalled. No wait takes the signal of a
notification event away, so a wait on a mutex succeeds at once whoever holds it:
threads are kept apart only as long as they keep apart themselves.
-/

namespace Kernel32

open Nt Ob Ke Ps

/-- `CreateEventW`; the handle is 0 on failure. -/
def createEventW (s : PsState) (manualReset initialState : Nat) (writable : Bool)
    (block : Option ObjectRef) : Nat × PsState :=
  let (status, handle, s) :=
    ntCreateEvent s writable (if manualReset ≠ 0 then 0 else 1) initialState block
  if !ntSuccess status then (0, s) else (handle, s)

/-- `CreateMutexExW` makes nothing of its flags. -/
def createMutexExW (s : PsState) (_flags : Nat) (writable : Bool) (block : Option ObjectRef) :
    Nat × PsState :=
  createEventW s 1 1 writable block

def createMutexW (s : PsState) (initialOwner : Nat) (writable : Bool)
    (block : Option ObjectRef) : Nat × PsState :=
  createMutexExW s (if initialOwner ≠ 0 then 1 else 0) writable block

def releaseMutex (s : PsState) (handle : Nat) : Nat × PsState :=
  let (status, s) := ntSetEvent s handle
  if !ntSuccess status then (0, s) else (1, s)

def waitObject0 : Nat := 0
def waitFailed : Nat := 0xffffffff

/-- The timeout of a wait of `ms` milliseconds, in units of 100 ns. -/
def waitInterval (ms : Nat) : Option Int :=
  if ms ≠ 0xffffffff then some (if ms ≠ 0 then -(ms : Int) * 10000 else 0) else none

/-- What `WaitForSingleObject` makes of the status. -/
def waitResult (status : NtStatus) : Nat :=
  if status = statusTimeout then statusTimeout
  else if !ntSuccess status then waitFailed else waitObject0

/-- `WaitForSingleObject`; no result while it blocks. -/
def waitForSingleObject (s : PsState) (handle ms : Nat) : Option Nat × PsState :=
  let (status, s) := ntWaitForSingleObject s handle (waitInterval ms)
  (status.map waitResult, s)

/-- The rest of a `WaitForSingleObject` that has blocked, when its thread runs again. -/
def resumeWaitForSingleObject (s : PsState) (f : WaitFrame) : Option Nat × PsState :=
  let (status, s) := resumeService s f
  (status.map waitResult, s)

/-- The system, with the mutexes there are and how often each thread has acquired
one and not released it. -/
structure MutexBooks where
  ps : PsState
  isMutex : ObjectRef → Bool
  held : ObjectRef → ThreadRef → Nat

inductive MutexOp where
  | create (flags : Nat) (writable : Bool) (block : Option ObjectRef)
  | wait (handle ms : Nat)
  | release (handle : Nat)
  /-- The current thread comes back from a wait that had blocked. -/
  | resume
  | clockTick
  | yield

/-- The object behind an event handle. -/
def eventOf (s : PsState) (handle : Nat) : ObjectRef :=
  (obReferenceObjectByHandle s.ob handle 0 s.eventType 1).2.1

/-- The object an operation tests, if it comes to a test. -/
def MutexOp.tests (s : PsState) : MutexOp → Option HeaderRef
  | .wait handle _ =>
    let r := referenceWaitable s handle
    if ntSuccess r.1 then some r.2.1 else none
  | .resume =>
    match (s.ke.threads s.ke.current).frame with
    | some f =>
      if (s.ke.threads s.ke.current).waitStatus = statusTimeout then none else f.objects.head?
    | none => none
  | _ => none

/-- Run an operation on the current thread; no result when it blocks or has none. -/
def MutexOp.run (s : PsState) : MutexOp → Option Nat × PsState
  | .create flags writable block =>
    let r := createMutexExW s flags writable block
    (some r.1, r.2)
  | .wait handle ms => waitForSingleObject s handle ms
  | .release handle =>
    let r := releaseMutex s handle
    (some r.1, r.2)
  | .resume =>
    match (s.ke.threads s.ke.current).frame with
    | some f => resumeWaitForSingleObject s f
    | none => (none, s)
  | .clockTick => (none, { s with ke := keClockTick s.ke })
  | .yield => (none, { s with ke := keYield s.ke })

namespace MutexBooks

/-- Book one more or one less for a thread. -/
def book (w : MutexBooks) (o : ObjectRef) (t : ThreadRef) (count : Nat) :
    ObjectRef → ThreadRef → Nat :=
  Function.update w.held o (Function.update (w.held o) t count)

/-- Bit 0 of the flags, `CREATE_MUTEX_INITIAL_OWNER`, makes the creator the owner. -/
def after (w : MutexBooks) (op : MutexOp) : MutexBooks where
  ps := (op.run w.ps).2
  isMutex :=
    match op with
    | .create flags writable (some o) =>
      Function.update w.isMutex o ((createMutexExW w.ps flags writable (some o)).1 ≠ 0)
    | _ => w.isMutex
  held :=
    match op with
    | .create flags writable (some o) =>
      Function.update w.held o fun t =>
        if (createMutexExW w.ps flags writable (some o)).1 ≠ 0 ∧ flags % 2 = 1 ∧
          t = w.ps.ke.current then 1 else 0
    | .release handle =>
      let o := eventOf w.ps handle
      if (releaseMutex w.ps handle).1 ≠ 0 then
        w.book o w.ps.ke.current (w.held o w.ps.ke.current - 1)
      else w.held
    | op =>
      match op.tests w.ps with
      | some o =>
        if w.isMutex o = true ∧ (op.run w.ps).1 = some waitObject0 then
          w.book o w.ps.ke.current (w.held o w.ps.ke.current + 1)
        else w.held
      | none => w.held

/-- A thread inside a wait can only resume it, a new object lies in a free block, and
only who holds a mutex releases it. -/
def Allowed (w : MutexBooks) : MutexOp → Prop
  | .clockTick | .yield => True
  | .resume => (w.ps.ke.threads w.ps.ke.current).frame ≠ none
  | .create _ _ block =>
    (w.ps.ke.threads w.ps.ke.current).frame = none ∧
      ∀ o, block = some o → w.ps.ob.live o = false
  | .wait _ _ => (w.ps.ke.threads w.ps.ke.current).frame = none
  | .release handle =>
    (w.ps.ke.threads w.ps.ke.current).frame = none ∧
      w.isMutex (eventOf w.ps handle) = true ∧
      0 < w.held (eventOf w.ps handle) w.ps.ke.current

def Step (w : MutexBooks) (op : MutexOp) (u : MutexBooks) : Prop := w.Allowed op ∧ u = w.after op

structure Start (w : MutexBooks) : Prop where
  mutexes : ∀ o, w.isMutex o = false
  held : ∀ o t, w.held o t = 0
  frames : ∀ t, (w.ps.ke.threads t).frame = none

/-- At most one thread has a mutex. -/
def Exclusive (w : MutexBooks) : Prop :=
  ∀ o t u, 0 < w.held o t → 0 < w.held o u → t = u

/-- The operation does not come to test a mutex that another thread holds. -/
def Polite (w : MutexBooks) (op : MutexOp) : Prop :=
  ∀ o, op.tests w.ps = some o → w.isMutex o = true →
    ∀ u, u ≠ w.ps.ke.current → w.held o u = 0

def PoliteStep (w : MutexBooks) (op : MutexOp) (u : MutexBooks) : Prop :=
  w.Polite op ∧ w.Step op u

end MutexBooks

def Signalled (s : KeState) (o : HeaderRef) : Prop :=
  (s.headers o).type = .eventNotification ∧ (s.headers o).signalState = 1

theorem Signalled.quiet {s u : KeState} {o : HeaderRef} (signalled : Signalled s o)
    (quiet : Quiet s u) : Signalled u o :=
  ⟨(quiet.type o).trans signalled.1, (quiet.signal o).trans signalled.2⟩

theorem Signalled.canAcquire {s : KeState} {o : HeaderRef} (signalled : Signalled s o) :
    kiCanAcquire (s.headers o) = true := by
  simp [kiCanAcquire, signalled.1, signalled.2]

/-- What a wait on one object does: no mutex loses its signal, a wait on a mutex
succeeds, and no blocked call appears but this one. -/
structure SingleWait (s : KeState) (h : HeaderRef) (r : Option NtStatus × KeState) : Prop where
  signalled : ∀ o, Signalled s o → Signalled r.2 o
  succeeds : Signalled s h → r.1 = some statusWait0
  frames : ∀ t f, (r.2.threads t).frame = some f →
    (s.threads t).frame = some f ∨ f.objects = [h] ∧ f.waitAll = false

theorem SingleWait.waitPass {s : KeState} {h : HeaderRef} {f : WaitFrame}
    (single : f.objects = [h]) (any : f.waitAll = false) : SingleWait s h (waitPass s f) := by
  simp only [Ke.waitPass, tryAcquire, single, any, Bool.false_eq_true, if_false, acquireAny]
  by_cases can : kiCanAcquire (s.headers h) = true
  · simp only [can, if_true]
    refine ⟨?_, fun _ => rfl, fun t g hg => Or.inl hg⟩
    rintro o ⟨type, signal⟩
    by_cases ho : o = h
    · subst ho
      simp [Signalled, kiConsumeSignal, type, signal]
    · simp [Signalled, ho, type, signal]
  · simp only [can, if_false, Bool.false_eq_true]
    have unsignalled : Signalled s h → False := fun signalled => can signalled.canAcquire
    split
    · exact ⟨fun o signalled => signalled, fun signalled => (unsignalled signalled).elim,
        fun t g hg => Or.inl hg⟩
    · have blocked := Blocked.of_arm s f
      refine ⟨?_, fun signalled => (unsignalled signalled).elim, ?_⟩
      · rintro o ⟨type, signal⟩
        exact ⟨(blocked.type o).trans type, (blocked.signal o).trans signal⟩
      · intro t g hg
        rw [blocked.frame t] at hg
        split at hg
        · cases hg
          exact Or.inr ⟨single, any⟩
        · exact Or.inl hg

theorem SingleWait.timeout (s : KeState) (h : HeaderRef) (ticks : Nat) :
    SingleWait s h (keWaitForSingleObjectTimeout s h ticks) := by
  have few : ¬ ([h].length = 0 ∨ keMaximumWaitObjects < [h].length) := by
    simp [keMaximumWaitObjects]
  simp only [keWaitForSingleObjectTimeout, keWaitForMultipleObjects, if_neg few]
  exact .waitPass rfl rfl

/-- A thread that comes back from its wait looks at the object again, unless its
time is over. -/
theorem SingleWait.resume {s : KeState} {h : HeaderRef} {f : WaitFrame}
    (single : f.objects = [h]) (any : f.waitAll = false)
    (timely : (s.threads s.current).waitStatus ≠ statusTimeout) :
    SingleWait s h (resumeWait s f) := by
  have quiet := Quiet.unlink s s.current
  have threads : (kiUnlinkThreadWait s s.current).threads = s.threads :=
    (unlinkBlocks_threads s s.current _).1
  simp only [resumeWait, threads, if_neg timely]
  generalize kiUnlinkThreadWait s s.current = v at quiet threads ⊢
  set u := v.setThread s.current
    { s.threads s.current with waitBlockCount := 0, frame := none } with hu
  have headers : u.headers = v.headers := rfl
  have wait : SingleWait u h (Ke.waitPass u f) := .waitPass single any
  have kept : ∀ o, Signalled s o → Signalled u o := by
    intro o signalled
    rw [Signalled, headers]
    exact signalled.quiet quiet
  refine ⟨fun o signalled => wait.signalled o (kept o signalled),
    fun signalled => wait.succeeds (kept h signalled), ?_⟩
  intro t g hg
  rcases wait.frames t g hg with old | new
  · rw [hu, setThread_threads] at old
    split at old
    · cases old
    · exact Or.inl (threads ▸ old)
  · exact Or.inr new

theorem createObject_ke (s : PsState) (type : TypeRef) (init : KeState → HeaderRef → KeState)
    (block : Option ObjectRef) :
    ((createObject s type init block).1 = statusNoMemory ∧
      (createObject s type init block).2.2.ke = s.ke) ∨
    ∃ o, block = some o ∧ (createObject s type init block).2.2.ke = init s.ke o := by
  cases block with
  | none =>
    left
    rw [createObject_refused]
    exact ⟨rfl, rfl⟩
  | some o =>
    by_cases typed : type = 0
    · left
      subst typed
      exact ⟨rfl, rfl⟩
    · right
      exact ⟨o, rfl, (createObject_made s typed init o).1⟩

/-- A creation fails and leaves the dispatcher alone, or makes a signalled
notification event in its block. -/
theorem createMutexExW_ke (s : PsState) (flags : Nat) (writable : Bool)
    (block : Option ObjectRef) :
    ((createMutexExW s flags writable block).1 = 0 ∧
      (createMutexExW s flags writable block).2.ke = s.ke) ∨
    ∃ o, block = some o ∧
      (createMutexExW s flags writable block).2.ke = keInitializeEvent s.ke o true true := by
  cases writable with
  | false => exact Or.inl ⟨rfl, rfl⟩
  | true =>
    unfold createMutexExW createEventW ntCreateEvent
    have made := createObject_ke s s.eventType
      (fun ke o => keInitializeEvent ke o true true) block
    simp only [Bool.not_true, Bool.false_eq_true, if_false, ne_eq, one_ne_zero, not_false_eq_true,
      if_true, decide_true, Nat.reduceMod]
    generalize createObject s s.eventType (fun ke o => keInitializeEvent ke o true true) block = r
      at made ⊢
    obtain ⟨status, handle, after⟩ := r
    rcases made with ⟨failed, ke⟩ | ⟨o, rfl, ke⟩
    · obtain rfl : status = statusNoMemory := failed
      exact Or.inl ⟨rfl, ke⟩
    · refine Or.inr ⟨o, rfl, ?_⟩
      dsimp only
      split <;> exact ke

theorem keInitializeEvent_signalled (s : KeState) (o h : HeaderRef)
    (signalled : h = o ∨ Signalled s h) : Signalled (keInitializeEvent s o true true) h := by
  by_cases ho : h = o
  · simp [Signalled, keInitializeEvent, ho]
  · rcases signalled with same | ⟨type, signal⟩
    · exact absurd same ho
    · simp [Signalled, keInitializeEvent, ho, type, signal]

theorem releaseMutex_ke (s : PsState) (handle : Nat) :
    (∀ o, Signalled s.ke o → Signalled (releaseMutex s handle).2.ke o) ∧
      ∀ t, ((releaseMutex s handle).2.ke.threads t).frame = (s.ke.threads t).frame := by
  simp only [releaseMutex, ntSetEvent]
  split
  · exact ⟨fun _ signalled => by split <;> exact signalled, fun _ => by split <;> rfl⟩
  · generalize (obReferenceObjectByHandle s.ob handle 0 s.eventType 1).2.1 = e
    have quiet := Quiet.signalObject
      (s.ke.setHeader e { s.ke.headers e with signalState := 1 }) e
    constructor
    · rintro o ⟨type, signal⟩
      have set : Signalled (s.ke.setHeader e { s.ke.headers e with signalState := 1 }) o := by
        by_cases ho : o = e
        · subst ho
          simp [Signalled, type]
        · simp [Signalled, ho, type, signal]
      split <;> exact set.quiet quiet
    · intro t
      split <;> exact quiet.frame t

theorem waitForSingleObject_ke (s : PsState) (handle ms : Nat) :
    (∀ o, Signalled s.ke o → Signalled (waitForSingleObject s handle ms).2.ke o) ∧
    (∀ o, (MutexOp.wait handle ms).tests s = some o → Signalled s.ke o →
      (waitForSingleObject s handle ms).1 = some waitObject0) ∧
    ∀ t f, ((waitForSingleObject s handle ms).2.ke.threads t).frame = some f →
      (s.ke.threads t).frame = some f ∨ ∃ h, f.objects = [h] ∧ f.waitAll = false := by
  simp only [waitForSingleObject, ntWaitForSingleObject, MutexOp.tests]
  cases found : ntSuccess (referenceWaitable s handle).1 with
  | false => simp +contextual
  | true =>
    simp only [Bool.not_true, Bool.false_eq_true, if_false, if_true, Option.some.injEq]
    have wait := SingleWait.timeout s.ke (referenceWaitable s handle).2.1
      (timeoutToTicks s.ke (waitInterval ms))
    generalize keWaitForSingleObjectTimeout s.ke (referenceWaitable s handle).2.1
      (timeoutToTicks s.ke (waitInterval ms)) = r at wait ⊢
    obtain ⟨result, ke, -⟩ := finishWait_spec { s with ob := (referenceWaitable s handle).2.2 }
      s.ke.current [(referenceWaitable s handle).2.1] r
    rw [result, ke]
    refine ⟨wait.signalled, ?_, ?_⟩
    · rintro o rfl signalled
      rw [wait.succeeds signalled]
      rfl
    · intro t f hf
      exact (wait.frames t f hf).imp_right fun new => ⟨_, new⟩

theorem resumeWaitForSingleObject_ke {s : PsState} {f : WaitFrame} {h : HeaderRef}
    (single : f.objects = [h]) (any : f.waitAll = false) :
    (∀ o, Signalled s.ke o → Signalled (resumeWaitForSingleObject s f).2.ke o) ∧
    ((s.ke.threads s.ke.current).waitStatus ≠ statusTimeout → Signalled s.ke h →
      (resumeWaitForSingleObject s f).1 = some waitObject0) ∧
    ∀ t g, ((resumeWaitForSingleObject s f).2.ke.threads t).frame = some g →
      (s.ke.threads t).frame = some g ∨ ∃ h, g.objects = [h] ∧ g.waitAll = false := by
  simp only [resumeWaitForSingleObject, resumeService]
  obtain ⟨result, ke, -⟩ := finishWait_spec s s.ke.current (s.pending s.ke.current)
    (resumeWait s.ke f)
  rw [result, ke]
  by_cases timely : (s.ke.threads s.ke.current).waitStatus = statusTimeout
  · have threads : (kiUnlinkThreadWait s.ke s.ke.current).threads = s.ke.threads :=
      (unlinkBlocks_threads s.ke s.ke.current _).1
    have quiet := Quiet.unlink s.ke s.ke.current
    simp only [resumeWait, threads, timely, if_true]
    refine ⟨?_, fun late => absurd rfl late, ?_⟩
    · intro o signalled
      have unlinked := signalled.quiet quiet
      exact unlinked
    intro t g hg
    rw [setThread_threads] at hg
    split at hg
    · cases hg
    · exact Or.inl (threads ▸ hg)
  · have wait := SingleWait.resume single any timely
    refine ⟨wait.signalled, ?_, ?_⟩
    · intro _ signalled
      rw [wait.succeeds signalled]
      rfl
    · intro t g hg
      exact (wait.frames t g hg).imp_right fun new => ⟨_, new⟩

/-- What every operation keeps. -/
structure MutexInv (w : MutexBooks) : Prop where
  signalled : ∀ o, w.isMutex o = true → Signalled w.ps.ke o
  frames : ∀ t f, (w.ps.ke.threads t).frame = some f → ∃ h, f.objects = [h] ∧ f.waitAll = false

namespace MutexInv

variable {w : MutexBooks}

/-- Where no mutex appears, it is enough that none loses its signal. -/
theorem of_kept {u : MutexBooks} (inv : MutexInv w) (same : u.isMutex = w.isMutex)
    (kept : ∀ o, Signalled w.ps.ke o → Signalled u.ps.ke o)
    (frames : ∀ t f, (u.ps.ke.threads t).frame = some f →
      (w.ps.ke.threads t).frame = some f ∨ ∃ h, f.objects = [h] ∧ f.waitAll = false) :
    MutexInv u where
  signalled o mutex := kept o (inv.signalled o (same ▸ mutex))
  frames t f hf := (frames t f hf).elim (inv.frames t f) id

theorem of_quiet {u : MutexBooks} (inv : MutexInv w) (same : u.isMutex = w.isMutex)
    (quiet : Quiet w.ps.ke u.ps.ke) : MutexInv u :=
  inv.of_kept same (fun _ signalled => signalled.quiet quiet)
    fun t _ hf => Or.inl ((quiet.frame t).symm.trans hf)

theorem create (inv : MutexInv w) (flags : Nat) (writable : Bool) (block : Option ObjectRef) :
    MutexInv (w.after (.create flags writable block)) := by
  rcases createMutexExW_ke w.ps flags writable block with ⟨failed, ke⟩ | ⟨o, rfl, ke⟩
  · have same : (w.after (.create flags writable block)).ps.ke = w.ps.ke := ke
    refine ⟨?_, fun t f hf => inv.frames t f (same ▸ hf)⟩
    intro h mutex
    rw [same]
    cases block with
    | none => exact inv.signalled h mutex
    | some o =>
      simp only [MutexBooks.after, Function.update_apply] at mutex
      split at mutex
      · simp [failed] at mutex
      · exact inv.signalled h mutex
  · have init : (w.after (.create flags writable (some o))).ps.ke =
        keInitializeEvent w.ps.ke o true true := ke
    refine ⟨?_, fun t f hf => inv.frames t f (by rw [init] at hf; exact hf)⟩
    intro h mutex
    rw [init]
    refine keInitializeEvent_signalled w.ps.ke o h ?_
    simp only [MutexBooks.after, Function.update_apply] at mutex
    split at mutex
    next same => exact Or.inl same
    next => exact Or.inr (inv.signalled h mutex)

theorem step (inv : MutexInv w) (op : MutexOp) : MutexInv (w.after op) := by
  cases op with
  | create flags writable block => exact inv.create flags writable block
  | wait handle ms =>
    obtain ⟨kept, -, frames⟩ := waitForSingleObject_ke w.ps handle ms
    exact inv.of_kept rfl kept frames
  | release handle =>
    obtain ⟨kept, frames⟩ := releaseMutex_ke w.ps handle
    exact inv.of_kept rfl kept fun t f hf => Or.inl ((frames t).symm.trans hf)
  | resume =>
    cases frame : (w.ps.ke.threads w.ps.ke.current).frame with
    | none =>
      have same : (w.after .resume).ps = w.ps := by simp [MutexBooks.after, MutexOp.run, frame]
      exact inv.of_quiet rfl (same ▸ .refl _)
    | some f =>
      obtain ⟨h, single, any⟩ := inv.frames _ f frame
      obtain ⟨kept, -, frames⟩ := resumeWaitForSingleObject_ke (s := w.ps) single any
      have same : (w.after .resume).ps = (resumeWaitForSingleObject w.ps f).2 := by
        simp [MutexBooks.after, MutexOp.run, frame]
      refine inv.of_kept rfl ?_ ?_
      · rw [same]
        exact kept
      · rw [same]
        exact frames
  | clockTick => exact inv.of_quiet rfl (.clockTick _)
  | yield => exact inv.of_quiet rfl (.schedule _)

theorem test_succeeds (inv : MutexInv w) {op : MutexOp} {o : HeaderRef}
    (tests : op.tests w.ps = some o) (mutex : w.isMutex o = true) :
    (op.run w.ps).1 = some waitObject0 := by
  have signalled := inv.signalled o mutex
  cases op with
  | wait handle ms => exact (waitForSingleObject_ke w.ps handle ms).2.1 o tests signalled
  | resume =>
    simp only [MutexOp.tests] at tests
    simp only [MutexOp.run]
    split at tests
    next f frame =>
      obtain ⟨h, single, any⟩ := inv.frames _ f frame
      split at tests
      · cases tests
      next timely =>
        rw [single] at tests
        cases tests
        exact (resumeWaitForSingleObject_ke single any).2.1 timely signalled
    · cases tests
  | _ => cases tests

end MutexInv

namespace MutexBooks

variable {w : MutexBooks}

/-- Fewer acquisitions exclude no less. -/
theorem Exclusive.of_held {u : MutexBooks} (exclusive : w.Exclusive)
    (held : ∀ o t, 0 < u.held o t → 0 < w.held o t) : u.Exclusive := by
  intro o t t' ht ht'
  exact exclusive o t t' (held o t ht) (held o t' ht')

/-- One more acquisition is exclusive if and only if nobody else has the mutex. -/
theorem exclusive_book_iff (exclusive : w.Exclusive) {u : MutexBooks} (o : ObjectRef)
    (t : ThreadRef) (held : u.held = w.book o t (w.held o t + 1)) :
    u.Exclusive ↔ ∀ x, x ≠ t → w.held o x = 0 := by
  have other : ∀ x, x ≠ t → u.held o x = w.held o x := by
    intro x hx
    simp [held, book, hx]
  have own : u.held o t = w.held o t + 1 := by simp [held, book]
  have rest : ∀ p, p ≠ o → u.held p = w.held p := by
    intro p hp
    simp [held, book, hp]
  constructor
  · intro after x hx
    by_contra holds
    refine hx (after o x t ?_ ?_)
    · rw [other x hx]
      omega
    · omega
  · intro nobody p x y hx hy
    by_cases hp : p = o
    · subst hp
      have only : ∀ z, 0 < u.held p z → z = t := by
        intro z hz
        by_contra hne
        rw [other z hne, nobody z hne] at hz
        omega
      exact (only x hx).trans (only y hy).symm
    · rw [rest p hp] at hx hy
      exact exclusive p x y hx hy

theorem Exclusive.create (exclusive : w.Exclusive) (flags : Nat) (writable : Bool)
    (block : Option ObjectRef) : (w.after (.create flags writable block)).Exclusive := by
  cases block with
  | none => exact exclusive
  | some o =>
    intro p x y hx hy
    simp only [after, Function.update_apply] at hx hy
    by_cases hp : p = o
    · simp only [hp, if_true] at hx hy
      split at hx
      next first =>
        split at hy
        next second => exact first.2.2.trans second.2.2.symm
        next => exact absurd hy (by decide)
      next => exact absurd hx (by decide)
    · simp only [hp, if_false] at hx hy
      exact exclusive p x y hx hy

theorem Exclusive.release (exclusive : w.Exclusive) (handle : Nat) :
    (w.after (.release handle)).Exclusive := by
  refine exclusive.of_held ?_
  intro o t ht
  simp only [after] at ht
  split at ht
  · simp only [book, Function.update_apply] at ht
    by_cases ho : o = eventOf w.ps handle
    · simp only [ho, if_true, Function.update_apply] at ht ⊢
      split at ht
      next same =>
        rw [same]
        omega
      next => exact ht
    · simp only [ho, if_false] at ht
      exact ht
  · exact ht

/-- An operation that may test a mutex keeps the exclusion if and only if nobody else
has that mutex. -/
theorem exclusive_test_iff (inv : MutexInv w) (exclusive : w.Exclusive) {op : MutexOp}
    (held : (w.after op).held =
      match op.tests w.ps with
      | some o =>
        if w.isMutex o = true ∧ (op.run w.ps).1 = some waitObject0 then
          w.book o w.ps.ke.current (w.held o w.ps.ke.current + 1)
        else w.held
      | none => w.held) :
    (w.after op).Exclusive ↔ w.Polite op := by
  cases tests : op.tests w.ps with
  | none =>
    rw [tests] at held
    dsimp only at held
    have polite : w.Polite op := by
      intro o tested
      rw [tests] at tested
      cases tested
    exact iff_of_true (exclusive.of_held fun o t ht => held ▸ ht) polite
  | some o =>
    rw [tests] at held
    dsimp only at held
    by_cases mutex : w.isMutex o = true
    · rw [if_pos ⟨mutex, inv.test_succeeds tests mutex⟩] at held
      rw [exclusive_book_iff exclusive o w.ps.ke.current held]
      constructor
      · intro nobody p tested _
        rw [tests] at tested
        cases tested
        exact nobody
      · intro polite
        exact polite o tests mutex
    · rw [if_neg fun both => mutex both.1] at held
      have polite : w.Polite op := by
        intro p tested isMutex
        rw [tests] at tested
        cases tested
        exact absurd isMutex mutex
      exact iff_of_true (exclusive.of_held fun o t ht => held ▸ ht) polite

theorem exclusive_after_iff (inv : MutexInv w) (exclusive : w.Exclusive) (op : MutexOp) :
    (w.after op).Exclusive ↔ w.Polite op := by
  have untested : ∀ {op}, MutexOp.tests w.ps op = none → w.Polite op := by
    intro op none o tested
    rw [none] at tested
    cases tested
  cases op with
  | create flags writable block =>
    exact iff_of_true (exclusive.create flags writable block) (untested rfl)
  | release handle => exact iff_of_true (exclusive.release handle) (untested rfl)
  | wait handle ms => exact exclusive_test_iff inv exclusive rfl
  | resume => exact exclusive_test_iff inv exclusive rfl
  | clockTick => exact exclusive_test_iff inv exclusive rfl
  | yield => exact exclusive_test_iff inv exclusive rfl

theorem Start.invariant (start : w.Start) : MutexInv w ∧ w.Exclusive := by
  refine ⟨⟨?_, ?_⟩, ?_⟩
  · intro o mutex
    rw [start.mutexes o] at mutex
    cases mutex
  · intro t f hf
    rw [start.frames t] at hf
    cases hf
  · intro o t u ht
    rw [start.held o t] at ht
    cases ht

end MutexBooks

/-- While no thread comes to test a mutex that another holds, mutexes exclude; and the
first such test lets a second thread in. -/
theorem mutexes_exclude {w : MutexBooks}
    (run : Runs.Reachable MutexBooks.Start MutexBooks.PoliteStep w) :
    w.Exclusive ∧ ∀ op u, w.Step op u → (u.Exclusive ↔ w.Polite op) := by
  have inv : MutexInv w ∧ w.Exclusive := by
    refine run.invariant (fun w start => start.invariant) ?_
    rintro w op _ ⟨inv, exclusive⟩ ⟨polite, _, rfl⟩
    exact ⟨inv.step op, (MutexBooks.exclusive_after_iff inv exclusive op).mpr polite⟩
  refine ⟨inv.2, ?_⟩
  rintro op _ ⟨_, rfl⟩
  exact MutexBooks.exclusive_after_iff inv.1 inv.2 op

/-- Two threads, and no mutex yet. -/
def twoThreads : MutexBooks where
  ps :=
    { ke := keYield (keCreateThread (keCreateThread
        (keInitializeScheduler fun _ => ⟨.eventNotification, 0, 0, []⟩) 1 none) 2 none)
      ob := bootWorld.ob
      eventType := 2
      threadType := 3
      semaphoreType := 4
      pending := fun _ => [] }
  isMutex _ := false
  held _ _ := 0

theorem twoThreads_start : twoThreads.Start where
  mutexes _ := rfl
  held _ _ := rfl
  frames := by
    intro t
    simp only [twoThreads, keYield]
    rw [(Quiet.schedule _).frame t]
    by_cases h2 : t = 2
    · simp [h2, keCreateThread, KThread.zero]
    · by_cases h1 : t = 1
      · simp [h1, keCreateThread, KThread.zero]
      · by_cases h0 : t = 0 <;>
          simp [h2, h1, h0, keCreateThread, keInitializeScheduler, idleThread, KThread.zero]

/-- The first thread has made a mutex. -/
def mutexMade : MutexBooks := twoThreads.after (.create 0 true (some (mmKernelHeapBase + 4096)))

/-- It has waited for it, and the second thread runs. -/
def mutexTaken : MutexBooks := (mutexMade.after (.wait 4 0xffffffff)).after .yield

theorem mutexMade_held (o : ObjectRef) (t : ThreadRef) : mutexMade.held o t = 0 := by
  simp only [mutexMade, MutexBooks.after, Function.update_apply]
  split <;> simp [twoThreads]

theorem mutexTaken_reachable :
    Runs.Reachable MutexBooks.Start MutexBooks.PoliteStep mutexTaken := by
  have created : twoThreads.PoliteStep (.create 0 true (some (mmKernelHeapBase + 4096)))
      mutexMade := by
    refine ⟨?_, ⟨twoThreads_start.frames _, ?_⟩, rfl⟩
    · intro o tests
      cases tests
    · intro o ho
      cases ho
      decide
  have waited : mutexMade.PoliteStep (.wait 4 0xffffffff)
      (mutexMade.after (.wait 4 0xffffffff)) := by
    refine ⟨fun o _ _ u _ => mutexMade_held o u, ?_, rfl⟩
    change _ = _
    decide +kernel
  have yielded : (mutexMade.after (.wait 4 0xffffffff)).PoliteStep .yield mutexTaken := by
    refine ⟨?_, trivial, rfl⟩
    intro o tests
    cases tests
  have start : Runs.Reachable MutexBooks.Start MutexBooks.PoliteStep twoThreads :=
    .of_initial twoThreads_start
  exact ((start.next created).next waited).next yielded

theorem mutexTaken_step :
    mutexTaken.Step (.wait 4 0xffffffff) (mutexTaken.after (.wait 4 0xffffffff)) := by
  refine ⟨?_, rfl⟩
  change _ = _
  decide +kernel

/-- The second thread waits for the mutex that the first one holds, and gets it. -/
theorem two_threads_hold_one_mutex :
    Runs.Reachable MutexBooks.Start MutexBooks.Step (mutexTaken.after (.wait 4 0xffffffff)) ∧
      (mutexTaken.after (.wait 4 0xffffffff)).held (mmKernelHeapBase + 4096) 1 = 1 ∧
      (mutexTaken.after (.wait 4 0xffffffff)).held (mmKernelHeapBase + 4096) 2 = 1 := by
  have taken : Runs.Reachable MutexBooks.Start MutexBooks.Step mutexTaken :=
    mutexTaken_reachable.mono fun _ _ _ step => step.2
  exact ⟨taken.next mutexTaken_step, by decide +kernel, by decide +kernel⟩

theorem mutexes_exclude_until_second_wait :
    mutexTaken.held (mmKernelHeapBase + 4096) 1 = 1 ∧ mutexTaken.Exclusive :=
  ⟨by decide +kernel, (mutexes_exclude mutexTaken_reachable).1⟩

end Kernel32
