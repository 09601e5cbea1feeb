import Svindows.Ke.Thread

/-!
# What each kernel primitive changes

One description for each primitive, field by field: the scheduler touches only
states, quanta, the queue and the current thread; unlinking touches only wait
lists; waking a thread is unlinking plus one state change. The invariants are
proved from these and never look inside the definitions again.
-/

namespace Ke

open Nt

@[simp] theorem setThread_threads (s : KeState) (t u : ThreadRef) (k : KThread) :
    (s.setThread t k).threads u = if u = t then k else s.threads u := by
  simp [KeState.setThread, Function.update_apply]

@[simp] theorem setHeader_headers (s : KeState) (h g : HeaderRef) (d : DispatcherHeader) :
    (s.setHeader h d).headers g = if g = h then d else s.headers g := by
  simp [KeState.setHeader, Function.update_apply]

@[simp] theorem setThread_headers (s : KeState) (t : ThreadRef) (k : KThread) :
    (s.setThread t k).headers = s.headers := rfl

@[simp] theorem setThread_readyQueue (s : KeState) (t : ThreadRef) (k : KThread) :
    (s.setThread t k).readyQueue = s.readyQueue := rfl

@[simp] theorem setThread_current (s : KeState) (t : ThreadRef) (k : KThread) :
    (s.setThread t k).current = s.current := rfl

@[simp] theorem setThread_processThreads (s : KeState) (t : ThreadRef) (k : KThread) :
    (s.setThread t k).processThreads = s.processThreads := rfl

@[simp] theorem setThread_nextThreadId (s : KeState) (t : ThreadRef) (k : KThread) :
    (s.setThread t k).nextThreadId = s.nextThreadId := rfl

@[simp] theorem setThread_tickCount (s : KeState) (t : ThreadRef) (k : KThread) :
    (s.setThread t k).tickCount = s.tickCount := rfl

@[simp] theorem setHeader_threads (s : KeState) (h : HeaderRef) (d : DispatcherHeader) :
    (s.setHeader h d).threads = s.threads := rfl

@[simp] theorem setHeader_readyQueue (s : KeState) (h : HeaderRef) (d : DispatcherHeader) :
    (s.setHeader h d).readyQueue = s.readyQueue := rfl

@[simp] theorem setHeader_current (s : KeState) (h : HeaderRef) (d : DispatcherHeader) :
    (s.setHeader h d).current = s.current := rfl

@[simp] theorem setHeader_processThreads (s : KeState) (h : HeaderRef) (d : DispatcherHeader) :
    (s.setHeader h d).processThreads = s.processThreads := rfl

@[simp] theorem setHeader_nextThreadId (s : KeState) (h : HeaderRef) (d : DispatcherHeader) :
    (s.setHeader h d).nextThreadId = s.nextThreadId := rfl

@[simp] theorem setHeader_tickCount (s : KeState) (h : HeaderRef) (d : DispatcherHeader) :
    (s.setHeader h d).tickCount = s.tickCount := rfl

/-- Everything about a thread but its state and its quantum. -/
def KThread.SameWait (k k' : KThread) : Prop :=
  k' = { k with state := k'.state, quantum := k'.quantum }

/-- The thread the scheduler picks. -/
def nextThread (s : KeState) : ThreadRef := s.readyQueue.headD idleThread

/-- The outgoing thread goes back to the queue. -/
def Requeued (s : KeState) : Prop :=
  s.current ≠ idleThread ∧ (s.threads s.current).state = .running

instance (s : KeState) : Decidable (Requeued s) := inferInstanceAs (Decidable (_ ∧ _))

theorem kiSchedule_current (s : KeState) : (kiSchedule s).current = nextThread s := by
  simp only [kiSchedule, switchTo, requeue, nextThread]
  split <;> split <;> simp_all

theorem kiSchedule_readyQueue (s : KeState) : (kiSchedule s).readyQueue =
    s.readyQueue.tail ++ if Requeued s then [s.current] else [] := by
  by_cases hr : Requeued s
  · have hr' : s.current ≠ idleThread ∧ (s.threads s.current).state = .running := hr
    simp only [kiSchedule, switchTo, requeue]
    rw [if_pos hr', if_pos hr]
    split <;> simp
  · have hr' : ¬ (s.current ≠ idleThread ∧ (s.threads s.current).state = .running) := hr
    simp only [kiSchedule, switchTo, requeue]
    rw [if_neg hr', if_neg hr]
    split <;> simp

theorem kiSchedule_state (s : KeState) (t : ThreadRef) :
    ((kiSchedule s).threads t).state =
      if t = nextThread s then .running
      else if t = s.current ∧ Requeued s then .ready
      else (s.threads t).state := by
  by_cases hr : Requeued s
  · have hr' : s.current ≠ idleThread ∧ (s.threads s.current).state = .running := hr
    simp only [kiSchedule, switchTo, requeue, nextThread]
    rw [if_pos hr']
    split <;> by_cases ht : t = s.readyQueue.headD idleThread <;>
      by_cases hc : t = s.current <;> simp_all
  · have hr' : ¬ (s.current ≠ idleThread ∧ (s.threads s.current).state = .running) := hr
    simp only [kiSchedule, switchTo, requeue, nextThread]
    rw [if_neg hr']
    split <;> by_cases ht : t = s.readyQueue.headD idleThread <;> simp_all

theorem kiSchedule_sameWait (s : KeState) (t : ThreadRef) :
    (s.threads t).SameWait ((kiSchedule s).threads t) := by
  simp only [kiSchedule, switchTo, requeue, KThread.SameWait]
  split <;> split <;> simp only [setThread_threads] <;> split <;> try split
  all_goals simp_all

theorem kiSchedule_frame (s : KeState) :
    (kiSchedule s).headers = s.headers ∧ (kiSchedule s).processThreads = s.processThreads ∧
      (kiSchedule s).nextThreadId = s.nextThreadId ∧ (kiSchedule s).tickCount = s.tickCount := by
  simp only [kiSchedule, switchTo, requeue]
  split <;> split <;> simp

theorem unlinkBlocks_threads (s : KeState) (t : ThreadRef) (n : Nat) :
    (unlinkBlocks s t n).threads = s.threads ∧ (unlinkBlocks s t n).readyQueue = s.readyQueue ∧
      (unlinkBlocks s t n).current = s.current ∧
      (unlinkBlocks s t n).processThreads = s.processThreads ∧
      (unlinkBlocks s t n).nextThreadId = s.nextThreadId ∧
      (unlinkBlocks s t n).tickCount = s.tickCount := by
  induction n with
  | zero => exact ⟨rfl, rfl, rfl, rfl, rfl, rfl⟩
  | succ n ih => exact ih

theorem unlinkBlocks_headers (s : KeState) (t : ThreadRef) (n : Nat) (h : HeaderRef) :
    (unlinkBlocks s t n).headers h =
      { s.headers h with waitList := (s.headers h).waitList.filter fun b =>
          ¬ (b.thread = t ∧ b.index < n) } := by
  induction n with
  | zero =>
    have all : ((s.headers h).waitList.filter fun b => ¬ (b.thread = t ∧ b.index < 0)) =
        (s.headers h).waitList := by
      refine List.filter_eq_self.mpr ?_
      simp
    rw [all]
    rfl
  | succ n ih =>
    simp only [unlinkBlocks, unlinkBlock, ih, List.filter_filter]
    congr 1
    refine List.filter_congr ?_
    intro b _
    have grow : (b ≠ ⟨t, n⟩ ∧ ¬ (b.thread = t ∧ b.index < n)) ↔
        ¬ (b.thread = t ∧ b.index < n + 1) := by
      obtain ⟨u, i⟩ := b
      simp only [ne_eq, WaitBlock.mk.injEq]
      by_cases hu : u = t
      · simp only [hu, true_and]
        omega
      · simp [hu]
    rw [← Bool.decide_and]
    simp only [grow]

/-- The wait list without the first blocks of `t`. -/
def withoutBlocks (s : KeState) (t : ThreadRef) (h : HeaderRef) : List WaitBlock :=
  (s.headers h).waitList.filter fun b =>
    ¬ (b.thread = t ∧ b.index < (s.threads t).waitBlockCount)

theorem kiUnlinkThreadWait_headers (s : KeState) (t : ThreadRef) (h : HeaderRef) :
    (kiUnlinkThreadWait s t).headers h =
      { s.headers h with waitList := withoutBlocks s t h } :=
  unlinkBlocks_headers s t _ h

/-- What a woken thread looks like. -/
def KThread.woken (k : KThread) (status : NtStatus) : KThread :=
  { k with waitStatus := status, waitDeadline := 0, state := .ready }

/-- Waking a waiting thread, in one equation. -/
theorem kiWakeWaitingThread_eq {s : KeState} {t : ThreadRef} (status : NtStatus)
    (waiting : (s.threads t).state = .waiting) :
    kiWakeWaitingThread s t status =
      { s.setThread t ((s.threads t).woken status) with
        readyQueue := s.readyQueue ++ [t]
        headers := fun h => { s.headers h with waitList := withoutBlocks s t h } } := by
  obtain ⟨threads, queue, current, listed, nextId, ticks⟩ :=
    unlinkBlocks_threads s t (s.threads t).waitBlockCount
  have headers : (unlinkBlocks s t (s.threads t).waitBlockCount).headers =
      fun h => { s.headers h with waitList := withoutBlocks s t h } :=
    funext fun h => unlinkBlocks_headers s t _ h
  simp only [kiWakeWaitingThread, waiting, ne_eq, not_true, if_false, kiUnlinkThreadWait]
  generalize unlinkBlocks s t (s.threads t).waitBlockCount = u at *
  obtain ⟨uThreads, uList, uQueue, uCurrent, uNext, uTicks, uHeaders⟩ := u
  dsimp only at threads queue current listed nextId ticks headers
  subst threads queue current listed nextId ticks headers
  simp only [kiReadyThread, setThread_threads, if_true, waiting, KThread.woken]
  simp only [KeState.setThread, Function.update_idem]

theorem kiWakeWaitingThread_other {s : KeState} {t : ThreadRef} (status : NtStatus)
    (awake : (s.threads t).state ≠ .waiting) : kiWakeWaitingThread s t status = s := by
  simp only [kiWakeWaitingThread]
  rw [if_pos awake]

end Ke
