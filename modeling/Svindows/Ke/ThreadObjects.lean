import Svindows.Ke.Signals
import Svindows.Ke.Waits

/-!
# Threads and the objects they signal

A thread made with a termination object keeps it until it terminates, and then
signals it and lets it go in one step. No other operation changes a termination
object, ends a thread, or touches the signal of a header of type `ThreadObject`:
a satisfied wait does not consume it, and the services that set, reset or release
are called on objects of other types.
-/

namespace Ke

open Nt

/-- From `s` to `u` no thread ends or changes its termination object, and the signals of
the thread objects stay. -/
structure Keeps (s u : KeState) : Prop where
  termination : ∀ t, (u.threads t).terminationObject = (s.threads t).terminationObject
  ended : ∀ t, (u.threads t).state = .terminated ↔ (s.threads t).state = .terminated
  signal : ∀ h, (s.headers h).type = .thread →
    (u.headers h).type = .thread ∧ (u.headers h).signalState = (s.headers h).signalState
  listed : ∀ t ∈ s.processThreads, t ∈ u.processThreads

namespace Keeps

theorem refl (s : KeState) : Keeps s s :=
  ⟨fun _ => rfl, fun _ => Iff.rfl, fun _ type => ⟨type, rfl⟩, fun _ listed => listed⟩

theorem trans {s u v : KeState} (first : Keeps s u) (second : Keeps u v) : Keeps s v where
  termination := fun t => (second.termination t).trans (first.termination t)
  ended := fun t => (second.ended t).trans (first.ended t)
  signal := fun h type => by
    obtain ⟨type, same⟩ := first.signal h type
    obtain ⟨type, same'⟩ := second.signal h type
    exact ⟨type, same'.trans same⟩
  listed := fun t listed => second.listed t (first.listed t listed)

/-- A change that leaves all signals alone. -/
theorem of_quiet {s u : KeState} (quiet : Quiet s u)
    (termination : ∀ t, (u.threads t).terminationObject = (s.threads t).terminationObject)
    (ended : ∀ t, (u.threads t).state = .terminated ↔ (s.threads t).state = .terminated)
    (listed : u.processThreads = s.processThreads) : Keeps s u where
  termination := termination
  ended := ended
  signal := fun h type => ⟨(quiet.type h).trans type, quiet.signal h⟩
  listed := fun t member => by rw [listed]; exact member

theorem setThread (s : KeState) (t : ThreadRef) {k : KThread}
    (termination : k.terminationObject = (s.threads t).terminationObject)
    (ended : k.state = .terminated ↔ (s.threads t).state = .terminated) :
    Keeps s (s.setThread t k) where
  termination := fun u => by
    by_cases hu : u = t
    · simp [hu, termination]
    · simp [hu]
  ended := fun u => by
    by_cases hu : u = t
    · simp [hu, ended]
    · simp [hu]
  signal := fun _ type => ⟨type, rfl⟩
  listed := fun _ member => member

/-- Any change to a header of another type. -/
theorem setHeader (s : KeState) {h : HeaderRef} (d : DispatcherHeader)
    (other : (s.headers h).type ≠ .thread) : Keeps s (s.setHeader h d) where
  termination := fun _ => rfl
  ended := fun _ => Iff.rfl
  signal := fun g type => by
    have apart : g ≠ h := by
      rintro rfl
      exact other type
    simp [apart, type]
  listed := fun _ member => member

theorem schedule {s : KeState} (switching : Switching s) : Keeps s (kiSchedule s) := by
  obtain ⟨-, listed, -, -⟩ := kiSchedule_frame s
  refine .of_quiet (.schedule s) ?_ ?_ listed
  · intro t
    have same := kiSchedule_sameWait s t
    rw [KThread.SameWait] at same
    rw [same]
  · intro t
    constructor
    · intro ended
      rw [kiSchedule_state] at ended
      split at ended
      · exact absurd ended (by decide)
      split at ended
      · exact absurd ended (by decide)
      · exact ended
    · exact switching.schedule_terminated

theorem wake (s : KeState) (t : ThreadRef) (status : NtStatus) :
    Keeps s (kiWakeWaitingThread s t status) := by
  by_cases waiting : (s.threads t).state = .waiting
  · refine .of_quiet (.wake s t status) ?_ ?_ ?_
    · intro u
      rw [kiWakeWaitingThread_eq status waiting]
      by_cases hu : u = t <;> simp [hu, KThread.woken]
    · intro u
      rw [kiWakeWaitingThread_eq status waiting]
      by_cases hu : u = t <;> simp [hu, KThread.woken, waiting]
    · rw [kiWakeWaitingThread_eq status waiting]
      rfl
  · rw [kiWakeWaitingThread_other status waiting]
    exact .refl s

theorem signalLoop (h : HeaderRef) (fuel : Nat) :
    ∀ s : KeState, Keeps s (signalLoop h fuel s) := by
  induction fuel with
  | zero => exact Keeps.refl
  | succ fuel ih =>
    intro s
    simp only [Ke.signalLoop]
    split
    · exact .refl s
    · rename_i b rest _
      have popped : Keeps s (s.setHeader h { s.headers h with waitList := rest }) :=
        .of_quiet (.setWaitList s h rest) (fun _ => rfl) (fun _ => Iff.rfl) rfl
      exact (popped.trans (.wake _ b.thread statusSuccess)).trans (ih _)

theorem signalObject (s : KeState) (h : HeaderRef) : Keeps s (kiSignalObject s h) :=
  .signalLoop h _ s

theorem expire (ts : List ThreadRef) : ∀ s : KeState, Keeps s (expireWaits s ts) := by
  induction ts with
  | nil => exact Keeps.refl
  | cons t ts ih =>
    intro s
    simp only [expireWaits]
    split
    · exact (Keeps.wake s t statusTimeout).trans (ih _)
    · exact ih s

theorem countTick (s : KeState) : Keeps s (countTick s) := by
  have ticked : Keeps s { s with tickCount := wrap64 (s.tickCount + 1) } :=
    ⟨fun _ => rfl, fun _ => Iff.rfl, fun _ type => ⟨type, rfl⟩, fun _ listed => listed⟩
  have expired := ticked.trans (.expire s.processThreads _)
  exact expired.trans (.setThread _ _ rfl Iff.rfl)

/-- A wait does not consume the signal of a thread. -/
theorem consumeSignal (s : KeState) (h : HeaderRef) :
    Keeps s (s.setHeader h (kiConsumeSignal (s.headers h))) where
  termination := fun _ => rfl
  ended := fun _ => Iff.rfl
  signal := fun g type => by
    by_cases hg : g = h
    · subst hg
      simp [kiConsumeSignal, type]
    · simp [hg, type]
  listed := fun _ member => member

theorem consumeSignals (hs : List HeaderRef) :
    ∀ s : KeState, Keeps s (consumeSignals s hs) := by
  induction hs with
  | nil => exact Keeps.refl
  | cons h hs ih => exact fun s => (Keeps.consumeSignal s h).trans (ih _)

theorem acquireAny {s u : KeState} {status : NtStatus} {hs : List HeaderRef} {i : Nat}
    (got : acquireAny s i hs = some (status, u)) : Keeps s u := by
  induction hs generalizing i with
  | nil => exact absurd got (by simp [Ke.acquireAny])
  | cons h hs ih =>
    simp only [Ke.acquireAny] at got
    split at got
    · obtain ⟨-, rfl⟩ := Prod.mk.inj (Option.some.inj got)
      exact .consumeSignal s h
    · exact ih got

theorem tryAcquire {s u : KeState} {status : NtStatus} {hs : List HeaderRef} {all : Bool}
    (got : tryAcquire s hs all = some (status, u)) : Keeps s u := by
  simp only [Ke.tryAcquire] at got
  split at got
  · split at got
    · obtain ⟨-, rfl⟩ := Prod.mk.inj (Option.some.inj got)
      exact .consumeSignals hs s
    · exact absurd got (by simp)
  · exact .acquireAny got

theorem armBlocks (t : ThreadRef) (hs : List HeaderRef) :
    ∀ (s : KeState) (i : Nat), Keeps s (armBlocks s t i hs) := by
  induction hs with
  | nil => exact fun s _ => .refl s
  | cons h hs ih =>
    intro s i
    have linked : Keeps s (s.setThread t { s.threads t with
        waitObject := Function.update (s.threads t).waitObject i h }) := .setThread s t rfl Iff.rfl
    have listed := fun u : KeState => Keeps.of_quiet
      (.setWaitList u h ((u.headers h).waitList ++ [⟨t, i⟩])) (fun _ => rfl) (fun _ => Iff.rfl) rfl
    exact (linked.trans (listed _)).trans (ih _ _)

theorem armWait {s : KeState} (settled : Settled s) (f : WaitFrame) : Keeps s (armWait s f) := by
  have prepared : Keeps s (s.setThread s.current { s.threads s.current with
      waitBlockCount := f.objects.length
      waitStatus := statusPending
      waitDeadline := f.deadline }) := .setThread s _ rfl Iff.rfl
  have armed := prepared.trans (.armBlocks s.current f.objects _ 0)
  have running : ¬ (s.threads s.current).state = .terminated := by
    rw [settled.currentRunning]
    decide
  refine armed.trans (.setThread _ _ rfl ?_)
  rw [armed.ended]
  simp [running]

theorem waitPass {s : KeState} (settled : Settled s) (notIdle : s.current ≠ idleThread)
    (f : WaitFrame) : Settled (waitPass s f).2 ∧ Keeps s (waitPass s f).2 := by
  simp only [Ke.waitPass]
  split
  · rename_i got
    exact ⟨settled.same (tryAcquire_onlyHeaders got).sameRun, .tryAcquire got⟩
  · split
    · exact ⟨settled, .refl s⟩
    · obtain ⟨others, waiting, -, -, -, only, -, -⟩ := armWait_eq s f
      have left : Switching (Ke.armWait s f) := by
        refine settled.leave notIdle ?_ (Or.inl waiting) only.readyQueue only.current
          only.processThreads
        intro t ht
        rw [others t ht]
      exact ⟨left.schedule, (Keeps.armWait settled f).trans (.schedule left)⟩

theorem resumeWait {s : KeState} (settled : Settled s) (notIdle : s.current ≠ idleThread)
    (f : WaitFrame) : Settled (resumeWait s f).2 ∧ Keeps s (resumeWait s f).2 := by
  obtain ⟨threads, queue, current, listed, next, ticks⟩ :=
    unlinkBlocks_threads s s.current (s.threads s.current).waitBlockCount
  have only : OnlyHeaders s (kiUnlinkThreadWait s s.current) :=
    ⟨threads, queue, current, listed, next, ticks⟩
  have unlinked : Keeps s (kiUnlinkThreadWait s s.current) :=
    .of_quiet (.unlink s s.current) (fun t => by rw [only.threads])
      (fun t => by rw [only.threads]) only.processThreads
  have cleared := unlinked.trans (.setThread _ s.current (k := {
    (kiUnlinkThreadWait s s.current).threads s.current with
      waitBlockCount := 0, frame := none }) rfl Iff.rfl)
  have settled' : Settled ((kiUnlinkThreadWait s s.current).setThread s.current {
      (kiUnlinkThreadWait s s.current).threads s.current with
        waitBlockCount := 0, frame := none }) := by
    refine (settled.same only.sameRun).same ⟨?_, ?_, rfl, rfl, rfl, rfl⟩
    · intro t
      by_cases ht : t = s.current <;> simp [ht]
    · intro t
      by_cases ht : t = s.current <;> simp [ht]
  simp only [Ke.resumeWait]
  split
  · exact ⟨settled', cleared⟩
  · obtain ⟨after, keeps⟩ := waitPass settled' (by simpa [only.current] using notIdle) f
    exact ⟨after, cleared.trans keeps⟩

end Keeps

/-- Operations that are not those of a thread's own end: a service on an object is called
on one that is no thread, and the kernel's own threads have no termination object. -/
def WaitOp.Elsewhere (s : KeState) : WaitOp → Prop
  | .create _ termination => termination = none
  | .setEvent h | .resetEvent h | .releaseSemaphore h _ | .releaseMutant h =>
    (s.headers h).type ≠ .thread
  | .terminate => False
  | .yield | .clockTick | .wait .. | .resume _ => True

theorem Settled.raise {s : KeState} (settled : Settled s) (g : HeaderRef) (v : Int)
    (other : (s.headers g).type ≠ .thread) :
    Settled (kiSignalObject (s.setHeader g { s.headers g with signalState := v }) g) ∧
      Keeps s (kiSignalObject (s.setHeader g { s.headers g with signalState := v }) g) := by
  have raised : Settled (s.setHeader g { s.headers g with signalState := v }) :=
    settled.same ⟨fun _ => rfl, fun _ => rfl, rfl, rfl, rfl, rfl⟩
  obtain ⟨done, current, state⟩ := raised.toSwitching.signal raised.busy g
    ((s.setHeader g { s.headers g with signalState := v }).headers g).waitList.length
  refine ⟨⟨done, ?_⟩, (Keeps.setHeader s _ other).trans (.signalObject _ g)⟩
  have here : (kiSignalObject (s.setHeader g { s.headers g with signalState := v }) g).current =
      s.current := current
  rw [here]
  exact state.trans raised.currentRunning

theorem Settled.elsewhere {s : KeState} (settled : Settled s) {op : WaitOp}
    (allowed : op.Allowed s) (elsewhere : op.Elsewhere s) (fresh : ∀ t, t ∉ s.processThreads →
      (s.threads t).terminationObject = none) :
    Settled (op.apply s) ∧ Keeps s (op.apply s) := by
  cases op with
  | create t termination =>
    have new := settled.unlisted t allowed
    obtain rfl : termination = none := elsewhere
    refine ⟨settled.create allowed, ?_, ?_, fun _ type => ⟨type, rfl⟩,
      fun u member => List.mem_append_left _ member⟩
    · intro u
      by_cases hu : u = t
      · simp [WaitOp.apply, keCreateThread, hu, KThread.zero, fresh t allowed]
      · simp [WaitOp.apply, keCreateThread, hu]
    · intro u
      by_cases hu : u = t
      · simp [WaitOp.apply, keCreateThread, hu, new]
      · simp [WaitOp.apply, keCreateThread, hu]
  | yield => exact ⟨settled.toSwitching.schedule, .schedule settled.toSwitching⟩
  | clockTick =>
    refine ⟨settled.clockTick, ?_⟩
    simp only [WaitOp.apply, keClockTick_eq]
    split
    · exact (Keeps.countTick s).trans (.schedule settled.counted.toSwitching)
    · exact .countTick s
  | wait objects waitAll timeoutTicks =>
    simp only [WaitOp.apply, keWaitForMultipleObjects]
    split
    · exact ⟨settled, .refl s⟩
    · exact Keeps.waitPass settled allowed.1 _
  | resume f => exact Keeps.resumeWait settled allowed.1 f
  | setEvent h => exact settled.raise h 1 elsewhere
  | resetEvent h =>
    exact ⟨settled.same ⟨fun _ => rfl, fun _ => rfl, rfl, rfl, rfl, rfl⟩, .setHeader s _ elsewhere⟩
  | releaseSemaphore h count => exact settled.raise h _ elsewhere
  | releaseMutant h => exact settled.raise h 1 elsewhere
  | terminate => exact elsewhere.elim

/-- The current thread ends: its termination object, if it has one, is signaled and let go. -/
structure Ends (s u : KeState) : Prop where
  state : (u.threads s.current).state = .terminated
  released : (u.threads s.current).terminationObject = none
  termination : ∀ t, t ≠ s.current →
    (u.threads t).terminationObject = (s.threads t).terminationObject
  ended : ∀ t, t ≠ s.current →
    ((u.threads t).state = .terminated ↔ (s.threads t).state = .terminated)
  signaled : ∀ h, (s.threads s.current).terminationObject = some h → (u.headers h).signalState = 1
  signal : ∀ h, (s.headers h).type = .thread → (u.headers h).type = .thread ∧
    ((s.threads s.current).terminationObject ≠ some h →
      (u.headers h).signalState = (s.headers h).signalState)
  listed : ∀ t ∈ s.processThreads, t ∈ u.processThreads

theorem Ends.keeps {s u v : KeState} (ends : Ends s u) (keeps : Keeps u v)
    (typed : ∀ h, (s.threads s.current).terminationObject = some h →
      (s.headers h).type = .thread) : Ends s v where
  state := (keeps.ended _).mpr ends.state
  released := (keeps.termination _).trans ends.released
  termination := fun t other => (keeps.termination t).trans (ends.termination t other)
  ended := fun t other => (keeps.ended t).trans (ends.ended t other)
  signaled := fun h owned =>
    (keeps.signal h (ends.signal h (typed h owned)).1).2.trans (ends.signaled h owned)
  signal := fun h type => by
    obtain ⟨type, same⟩ := ends.signal h type
    obtain ⟨type, same'⟩ := keeps.signal h type
    exact ⟨type, fun other => same'.trans (same other)⟩
  listed := fun t member => keeps.listed t (ends.listed t member)

theorem markTerminated_ends {s : KeState} (typed : ∀ h,
    (s.threads s.current).terminationObject = some h → (s.headers h).type = .thread) :
    Ends s (markTerminated s) := by
  simp only [markTerminated, signalTermination]
  split
  · rename_i none
    have none : (s.threads s.current).terminationObject = Option.none := by simpa using none
    refine ⟨by simp, by simp [none], fun t other => by simp [other], fun t other => by simp [other],
      fun h owned => ?_, fun h type => ⟨type, fun _ => rfl⟩, fun _ member => member⟩
    exact absurd (none.symm.trans owned) (by simp)
  · rename_i g owned
    have owned : (s.threads s.current).terminationObject = some g := by simpa using owned
    have keeps := Keeps.signalObject ((s.setThread s.current
      { s.threads s.current with state := .terminated }).setHeader g
        { s.headers g with signalState := 1 }) g
    refine ⟨?_, by simp, ?_, ?_, ?_, ?_, keeps.listed⟩
    · simpa using (keeps.ended s.current).mpr (by simp)
    · intro t other
      simpa [other] using keeps.termination t
    · intro t other
      simpa [other] using keeps.ended t
    · intro h same
      obtain rfl : g = h := Option.some.inj (owned.symm.trans same)
      have signal := (keeps.signal g (by simpa using typed g owned)).2
      simpa using signal
    · intro h type
      by_cases same : h = g
      · subst same
        exact ⟨(keeps.signal h (by simpa using type)).1, fun other => absurd owned other⟩
      · have signal := keeps.signal h (by simpa [same] using type)
        exact ⟨signal.1, fun _ => by simpa [same] using signal.2⟩

theorem Settled.ends {s : KeState} (settled : Settled s) (notIdle : s.current ≠ idleThread)
    (typed : ∀ h, (s.threads s.current).terminationObject = some h →
      (s.headers h).type = .thread) : Ends s (keTerminateThread s) :=
  (markTerminated_ends typed).keeps (.schedule (settled.terminating notIdle)) typed

end Ke
