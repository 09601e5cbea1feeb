import Svindows.Ke.Scheduler

/-!
# Switching to the idle thread

`KiSchedule` picks the next thread before it returns the outgoing one to the
queue. When the queue is empty it picks the idle thread, and the thread that
yields or has used up its quantum waits in the queue while the processor halts.
-/

namespace Ke

/-- The state `KiSchedule` is entered with, if the operation calls it. -/
def SchedOp.entry (s : KeState) : SchedOp → Option KeState
  | .yield => some s
  | .clockTick =>
    if ((countTick s).threads (countTick s).current).quantum ≤ 0 then some (countTick s) else none
  | .block wait headers => some (markWaiting s wait headers)
  | .terminate => some (markTerminated s)
  | .create _ _ | .createRefused | .ready _ => none

theorem apply_of_entry {s e : KeState} {op : SchedOp} (enters : op.entry s = some e) :
    op.apply s = kiSchedule e := by
  cases op with
  | create t termination | createRefused | ready t => exact absurd enters (by simp [SchedOp.entry])
  | yield | block wait headers | terminate =>
    obtain rfl := Option.some.inj enters
    rfl
  | clockTick =>
    simp only [SchedOp.entry] at enters
    split at enters
    · rename_i due
      obtain rfl := Option.some.inj enters
      rw [SchedOp.apply, keClockTick_eq, if_pos due]
    · exact absurd enters (by simp)

theorem Settled.enters {s e : KeState} {op : SchedOp} (h : Settled s) (allowed : op.Allowed s)
    (enters : op.entry s = some e) : Switching e := by
  cases op with
  | create t termination | createRefused | ready t => exact absurd enters (by simp [SchedOp.entry])
  | yield =>
    obtain rfl := Option.some.inj enters
    exact h.toSwitching
  | clockTick =>
    simp only [SchedOp.entry] at enters
    split at enters
    · obtain rfl := Option.some.inj enters
      exact h.counted.toSwitching
    · exact absurd enters (by simp)
  | block wait headers =>
    obtain rfl := Option.some.inj enters
    exact h.blocking allowed wait headers
  | terminate =>
    obtain rfl := Option.some.inj enters
    exact h.terminating allowed

/-- The switch from `e` to `u` leaves nothing ready behind when it goes to the
idle thread, and the only thread that can run keeps running. -/
structure IdlesLast (e u : KeState) : Prop where
  nothingReady : u.current = idleThread → ∀ t, (u.threads t).state ≠ .ready
  keepsRunning : e.readyQueue = [] → e.current ≠ idleThread →
    (e.threads e.current).state = .running → u.current = e.current

/-- Something is queued, or the outgoing thread is not to be queued. -/
def HasSuccessor (e : KeState) : Prop := e.readyQueue ≠ [] ∨ ¬ Requeued e

/-- The scheduler idles too early exactly when it is entered by a running thread
with nobody behind it. -/
theorem Switching.idlesLast_iff {e : KeState} (h : Switching e) :
    IdlesLast e (kiSchedule e) ↔ HasSuccessor e := by
  constructor
  · intro last
    by_contra alone
    obtain ⟨empty, running⟩ : e.readyQueue = [] ∧ Requeued e := by
      simpa [HasSuccessor] using alone
    have stays := last.keepsRunning empty running.1 running.2
    have idle : (kiSchedule e).current = idleThread := by
      rw [kiSchedule_current, nextThread, empty]
      rfl
    exact running.1 (stays.symm.trans idle)
  · intro successor
    refine ⟨?_, ?_⟩
    · intro idle t ready
      have empty : e.readyQueue = [] := by
        rw [kiSchedule_current] at idle
        rcases nextThread_cases e with ⟨empty, _⟩ | queue
        · exact empty
        · have queued := (h.queued idleThread).mp (by rw [queue, idle]; exact List.mem_cons_self)
          rw [h.idleRunning] at queued
          exact absurd queued (by decide)
      have out : ¬ Requeued e := successor.resolve_left (not_not.mpr empty)
      have queued := (h.schedule.queued t).mpr ready
      rw [kiSchedule_readyQueue, if_neg out, empty] at queued
      exact absurd queued List.not_mem_nil
    · intro empty notIdle running
      exact absurd ⟨notIdle, running⟩ (successor.resolve_left (not_not.mpr empty))

/-- If the operation switches, it switches to the idle thread last. -/
def SwitchesWell (s : KeState) (op : SchedOp) : Prop :=
  ∀ e, op.entry s = some e → IdlesLast e (op.apply s)

/-- If the operation enters the scheduler, there is somebody to switch to. -/
def EntersWithSuccessor (s : KeState) (op : SchedOp) : Prop :=
  ∀ e, op.entry s = some e → HasSuccessor e

/-- In every run the idle thread is the last resort of every switch if and only
if no thread that still runs enters the scheduler with an empty queue. -/
theorem idle_last_iff {s : KeState} {ops : List SchedOp} (start : SchedStart s)
    (allowed : Runs.Along SchedOp.apply SchedOp.Allowed s ops) :
    Runs.Along SchedOp.apply SwitchesWell s ops ↔
      Runs.Along SchedOp.apply EntersWithSuccessor s ops := by
  refine Runs.along_congr (I := Settled) ?_ ?_ (settled_of_start start) allowed
  · intro u op settled issued _
    exact settled.step ⟨issued, rfl⟩
  · intro u op settled issued
    refine forall₂_congr fun e enters => ?_
    rw [apply_of_entry enters]
    exact (settled.enters issued enters).idlesLast_iff

/-- The boot context yields to the first thread. -/
theorem idle_last_first_thread :
    Runs.Along SchedOp.apply SwitchesWell (keInitializeScheduler plainHeaders)
      [.create 1 none, .yield] := by
  have allowed : Runs.Along SchedOp.apply SchedOp.Allowed (keInitializeScheduler plainHeaders)
      [.create 1 none, .yield] := by
    refine ⟨?_, trivial, trivial⟩
    simp [SchedOp.Allowed, keInitializeScheduler, idleThread]
  refine (idle_last_iff ⟨plainHeaders, rfl⟩ allowed).mpr ⟨?_, ?_, trivial⟩
  · intro e enters
    exact absurd enters (by simp [SchedOp.entry])
  · intro e enters
    obtain rfl := Option.some.inj enters
    exact Or.inl (by decide)

/-- The first thread yields while there is no other: it is ready and the idle
thread runs. -/
theorem only_thread_yields_to_idle : ∃ s ops, SchedStart s ∧
    Runs.Along SchedOp.apply SchedOp.Allowed s ops ∧
    ¬ Runs.Along SchedOp.apply SwitchesWell s ops := by
  refine ⟨keInitializeScheduler plainHeaders, [.create 1 none, .yield, .yield],
    ⟨plainHeaders, rfl⟩, ⟨?_, trivial, trivial, trivial⟩, ?_⟩
  · simp [SchedOp.Allowed, keInitializeScheduler, idleThread]
  · rintro ⟨_, _, last, _⟩
    have idle : (SchedOp.apply afterYield .yield).current = idleThread := by decide
    exact (last afterYield rfl).nothingReady idle 1 (by decide)

end Ke
