import Svindows.Ke.Signals
import Svindows.Ke.Waits

/-!
# What happens to a blocked wait

Between the moment it blocks and the moment it runs on, a wait keeps its frame
and its deadline, and only the clock marks it as timed out, when the deadline
has come.
-/

namespace Ke

open Nt

/-- From `k` to `k'` the thread has run no code of its own, and the clock has
not been past `due`. -/
structure Carried (due : Nat) (k k' : KThread) : Prop where
  frame : k'.frame = k.frame
  waiting : k'.state = .waiting → k.state = .waiting ∧ k'.waitDeadline = k.waitDeadline
  timedOut : k'.waitStatus = statusTimeout → k.waitStatus = statusTimeout ∨
    (k.state = .waiting ∧ k.waitDeadline ≠ 0 ∧ k.waitDeadline ≤ due)

theorem Carried.refl (due : Nat) (k : KThread) : Carried due k k :=
  ⟨rfl, fun waiting => ⟨waiting, rfl⟩, Or.inl⟩

theorem Carried.trans {due : Nat} {k k' k'' : KThread} (first : Carried due k k')
    (second : Carried due k' k'') : Carried due k k'' where
  frame := second.frame.trans first.frame
  waiting := by
    intro waiting
    obtain ⟨waiting, deadline⟩ := second.waiting waiting
    obtain ⟨waiting, same⟩ := first.waiting waiting
    exact ⟨waiting, deadline.trans same⟩
  timedOut := by
    intro late
    rcases second.timedOut late with late | ⟨waiting, some, past⟩
    · exact first.timedOut late
    · obtain ⟨waiting, same⟩ := first.waiting waiting
      rw [same] at some past
      exact Or.inr ⟨waiting, some, past⟩

/-- No thread has run code of its own wait, and the clock stands. -/
structure Carries (s u : KeState) : Prop where
  thread : ∀ t, Carried s.tickCount (s.threads t) (u.threads t)
  ticks : u.tickCount = s.tickCount

theorem Carries.of_threads {s u : KeState} (threads : u.threads = s.threads)
    (ticks : u.tickCount = s.tickCount) : Carries s u :=
  ⟨fun t => by rw [threads]; exact .refl _ _, ticks⟩

theorem Carries.refl (s : KeState) : Carries s s := .of_threads rfl rfl

theorem Carries.trans {s u v : KeState} (first : Carries s u) (second : Carries u v) :
    Carries s v where
  thread := by
    intro t
    have later := second.thread t
    rw [first.ticks] at later
    exact (first.thread t).trans later
  ticks := second.ticks.trans first.ticks

theorem Carries.setThread (s : KeState) (t : ThreadRef) {k : KThread}
    (same : Carried s.tickCount (s.threads t) k) : Carries s (s.setThread t k) := by
  refine ⟨fun u => ?_, rfl⟩
  by_cases hu : u = t
  · rw [setThread_threads, if_pos hu, hu]
    exact same
  · rw [setThread_threads, if_neg hu]
    exact .refl _ _

theorem Carries.schedule (s : KeState) : Carries s (kiSchedule s) := by
  obtain ⟨_, _, _, ticks⟩ := kiSchedule_frame s
  refine ⟨fun t => ?_, ticks⟩
  have same := kiSchedule_sameWait s t
  rw [KThread.SameWait] at same
  refine ⟨by rw [same], ?_, ?_⟩
  · intro waiting
    refine ⟨?_, by rw [same]⟩
    rw [kiSchedule_state] at waiting
    split at waiting
    · exact absurd waiting (by decide)
    · split at waiting
      · exact absurd waiting (by decide)
      · exact waiting
  · intro late
    rw [same] at late
    exact Or.inl late

/-- Waking a thread, because of a signal or when its deadline has come. -/
theorem Carries.wake (s : KeState) (t : ThreadRef) {status : NtStatus}
    (late : status = statusTimeout → (s.threads t).waitDeadline ≠ 0 ∧
      (s.threads t).waitDeadline ≤ s.tickCount) :
    Carries s (kiWakeWaitingThread s t status) := by
  by_cases waiting : (s.threads t).state = .waiting
  · rw [kiWakeWaitingThread_eq status waiting]
    refine ⟨fun u => ?_, rfl⟩
    by_cases hu : u = t
    · simp only [setThread_threads, if_pos hu]
      subst hu
      refine ⟨rfl, fun wrong => absurd wrong ?_, fun timeout => Or.inr ⟨waiting, late timeout⟩⟩
      simp [KThread.woken]
    · simp only [setThread_threads, if_neg hu]
      exact .refl _ _
  · rw [kiWakeWaitingThread_other status waiting]
    exact .refl s

theorem Carries.signalLoop (h : HeaderRef) (fuel : Nat) :
    ∀ s : KeState, Carries s (signalLoop h fuel s) := by
  induction fuel with
  | zero => exact Carries.refl
  | succ fuel ih =>
    intro s
    simp only [Ke.signalLoop]
    split
    · exact .refl s
    · rename_i b rest _
      have popped : Carries s (s.setHeader h { s.headers h with waitList := rest }) :=
        .of_threads rfl rfl
      have woken : Carries _ (kiWakeWaitingThread
          (s.setHeader h { s.headers h with waitList := rest }) b.thread statusSuccess) :=
        .wake _ _ fun wrong => absurd wrong (by decide)
      exact (popped.trans woken).trans (ih _)

/-- Giving an object another signal state and draining its list. -/
theorem Carries.raise (s : KeState) (h : HeaderRef) (d : DispatcherHeader) :
    Carries s (kiSignalObject (s.setHeader h d) h) := by
  have set : Carries s (s.setHeader h d) := .of_threads rfl rfl
  exact set.trans (.signalLoop h _ _)

theorem Carries.expire (ts : List ThreadRef) : ∀ s : KeState, Carries s (expireWaits s ts) := by
  induction ts with
  | nil => exact Carries.refl
  | cons t ts ih =>
    intro s
    simp only [expireWaits]
    split
    · rename_i due
      exact (Carries.wake s t fun _ => due.2).trans (ih _)
    · exact ih s

theorem Carries.clockTick (s : KeState) :
    Carries { s with tickCount := wrap64 (s.tickCount + 1) } (keClockTick s) := by
  have expired := Carries.expire s.processThreads { s with tickCount := wrap64 (s.tickCount + 1) }
  have spent : ∀ u, Carries u (spendQuantum u) := fun u => .setThread u u.current
    ⟨rfl, fun waiting => ⟨waiting, rfl⟩, Or.inl⟩
  have counted := expired.trans (spent _)
  rw [keClockTick_eq]
  split
  · exact counted.trans (.schedule _)
  · exact counted

theorem Carries.terminate (s : KeState) : Carries s (keTerminateThread s) := by
  have marked : Carries s (s.setThread s.current
      { s.threads s.current with state := .terminated }) :=
    .setThread s s.current ⟨rfl, fun wrong => absurd wrong (by simp), Or.inl⟩
  refine (marked.trans ?_).trans (.schedule _)
  simp only [signalTermination]
  split
  · exact .refl _
  · exact (Carries.raise _ _ _).trans
      (.setThread _ _ ⟨rfl, fun waiting => ⟨waiting, rfl⟩, Or.inl⟩)

/-- A thread that has blocked in `f`. -/
structure BlockedIn (f : WaitFrame) (k : KThread) : Prop where
  frame : k.frame = some f
  deadline : k.waitDeadline = f.deadline
  status : k.waitStatus = statusPending

theorem armWait_blocked (s : KeState) (f : WaitFrame) :
    BlockedIn f ((armWait s f).threads s.current) := by
  have thread := armBlocks_thread (s.setThread s.current { s.threads s.current with
    waitBlockCount := f.objects.length, waitStatus := statusPending, waitDeadline := f.deadline })
    s.current 0 f.objects
  refine ⟨?_, ?_, ?_⟩ <;> simp [armWait, thread]

theorem waitPass_cases (s : KeState) {f : WaitFrame}
    (few : f.objects.length ≤ keMaximumWaitObjects) :
    (∃ status u, waitPass s f = (some status, u) ∧ Carries s u ∧
      (status = statusTimeout →
        f.timeoutTicks = 0 ∨ (f.deadline ≠ 0 ∧ f.deadline ≤ s.tickCount))) ∨
    ∃ u, waitPass s f = (none, u) ∧ u.tickCount = s.tickCount ∧
      BlockedIn f (u.threads s.current) ∧
      ∀ t, t ≠ s.current → Carried s.tickCount (s.threads t) (u.threads t) := by
  simp only [waitPass]
  cases taken : tryAcquire s f.objects f.waitAll with
  | some r =>
    obtain ⟨status, u⟩ := r
    have only := tryAcquire_onlyHeaders taken
    have satisfied := (tryAcquire_consumed few taken).1
    exact Or.inl ⟨status, u, rfl, .of_threads only.threads only.tickCount,
      fun wrong => absurd wrong satisfied⟩
  | none =>
    by_cases ended : f.timeoutTicks = 0 ∨ (f.deadline ≠ 0 ∧ f.deadline ≤ s.tickCount)
    · simp only [if_pos ended]
      exact Or.inl ⟨statusTimeout, s, rfl, .refl s, fun _ => ended⟩
    · simp only [if_neg ended]
      obtain ⟨others, _, _, _, _, only, _, _⟩ := armWait_eq s f
      have blocked := armWait_blocked s f
      have scheduled := Carries.schedule (armWait s f)
      have ticks : (armWait s f).tickCount = s.tickCount := only.tickCount
      refine Or.inr ⟨_, rfl, scheduled.ticks.trans ticks, ?_, ?_⟩
      · have same := kiSchedule_sameWait (armWait s f) s.current
        rw [KThread.SameWait] at same
        rw [kiBlockCurrentThread]
        exact ⟨by rw [same]; exact blocked.frame, by rw [same]; exact blocked.deadline,
          by rw [same]; exact blocked.status⟩
      · intro t other
        have later := scheduled.thread t
        rw [ticks, others t other] at later
        exact later

end Ke
