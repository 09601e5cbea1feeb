import Mathlib.Data.List.Nodup
import Svindows.Lib.Runs
import Svindows.Ke.Effects

/-!
# The scheduler invariant

`KiSchedule` is entered with the outgoing thread running, waiting or
terminated; `Switching` is what holds at that point, `Settled` what holds
between operations. The idle thread is never queued and keeps its running
state while another thread has the processor.
-/

namespace Ke

open Nt

/-- What the scheduler relies on when it is entered. -/
structure Switching (s : KeState) : Prop where
  idleListed : idleThread ∈ s.processThreads
  unlisted : ∀ t, t ∉ s.processThreads → (s.threads t).state = .initialized
  idleRunning : (s.threads idleThread).state = .running
  running : ∀ t, (s.threads t).state = .running → t = s.current ∨ t = idleThread
  queueNodup : s.readyQueue.Nodup
  queued : ∀ t, t ∈ s.readyQueue ↔ (s.threads t).state = .ready
  outgoing : (s.threads s.current).state ≠ .ready ∧ (s.threads s.current).state ≠ .initialized

/-- What holds between operations. -/
structure Settled (s : KeState) : Prop extends Switching s where
  currentRunning : (s.threads s.current).state = .running

/-- Two states that agree on everything the scheduler looks at. -/
structure SameRun (s s' : KeState) : Prop where
  state : ∀ t, (s'.threads t).state = (s.threads t).state
  threadId : ∀ t, (s'.threads t).threadId = (s.threads t).threadId
  readyQueue : s'.readyQueue = s.readyQueue
  current : s'.current = s.current
  processThreads : s'.processThreads = s.processThreads
  nextThreadId : s'.nextThreadId = s.nextThreadId

variable {s s' : KeState} {t : ThreadRef}

theorem Switching.same (h : Switching s) (same : SameRun s s') : Switching s' where
  idleListed := by rw [same.processThreads]; exact h.idleListed
  unlisted := by
    intro t ht
    rw [same.processThreads] at ht
    rw [same.state]
    exact h.unlisted t ht
  idleRunning := (same.state _).trans h.idleRunning
  running := by
    intro t ht
    rw [same.state] at ht
    rw [same.current]
    exact h.running t ht
  queueNodup := by rw [same.readyQueue]; exact h.queueNodup
  queued := by
    intro t
    rw [same.readyQueue, same.state]
    exact h.queued t
  outgoing := by rw [same.current, same.state]; exact h.outgoing

theorem Settled.same (h : Settled s) (same : SameRun s s') : Settled s' where
  toSwitching := h.toSwitching.same same
  currentRunning := by rw [same.current, same.state]; exact h.currentRunning

theorem nextThread_cases (s : KeState) :
    (s.readyQueue = [] ∧ nextThread s = idleThread) ∨
      s.readyQueue = nextThread s :: s.readyQueue.tail := by
  cases hq : s.readyQueue with
  | nil => exact Or.inl ⟨rfl, by simp [nextThread, hq]⟩
  | cons t q => exact Or.inr (by simp [nextThread, hq])

/-- The thread picked is idle or comes from the head of the queue. -/
theorem Switching.next_state (h : Switching s) :
    nextThread s = idleThread ∨ (s.threads (nextThread s)).state = .ready := by
  rcases nextThread_cases s with ⟨_, idle⟩ | queue
  · exact Or.inl idle
  · refine Or.inr ((h.queued _).mp ?_)
    rw [queue]
    exact List.mem_cons_self

theorem Switching.mem_tail (h : Switching s) {t : ThreadRef} :
    t ∈ s.readyQueue.tail ↔ (s.threads t).state = .ready ∧ t ≠ nextThread s := by
  rcases nextThread_cases s with ⟨empty, idle⟩ | queue
  · rw [← h.queued, empty]
    simp
  · have nodup := h.queueNodup
    rw [← h.queued]
    rw [queue, List.nodup_cons] at nodup
    constructor
    · intro ht
      refine ⟨List.mem_of_mem_tail ht, ?_⟩
      rintro rfl
      exact nodup.1 ht
    · rintro ⟨ht, other⟩
      rw [queue] at ht
      exact (List.mem_cons.mp ht).resolve_left other

/-- From any legal entry, the scheduler leaves a settled state. -/
theorem Switching.schedule (h : Switching s) : Settled (kiSchedule s) := by
  obtain ⟨_, listed, _, _⟩ := kiSchedule_frame s
  have next := h.next_state
  have currentRuns : ((kiSchedule s).threads (kiSchedule s).current).state = .running := by
    rw [kiSchedule_current, kiSchedule_state, if_pos rfl]
  have requeuedState : Requeued s → (s.threads s.current).state = .running := fun hr => hr.2
  refine ⟨⟨?_, ?_, ?_, ?_, ?_, ?_, ?_⟩, currentRuns⟩
  · rw [listed]
    exact h.idleListed
  · intro t ht
    rw [listed] at ht
    have fresh := h.unlisted t ht
    have notNext : t ≠ nextThread s := by
      rintro rfl
      rcases next with idle | ready
      · rw [idle] at ht
        exact ht h.idleListed
      · rw [fresh] at ready
        exact absurd ready (by decide)
    rw [kiSchedule_state, if_neg notNext, if_neg, fresh]
    rintro ⟨rfl, hr⟩
    rw [fresh] at requeuedState
    exact absurd (requeuedState hr) (by decide)
  · rw [kiSchedule_state]
    split
    · rfl
    · rw [if_neg, h.idleRunning]
      rintro ⟨here, hr⟩
      exact hr.1 here.symm
  · intro t ht
    rw [kiSchedule_current]
    rw [kiSchedule_state] at ht
    by_cases hn : t = nextThread s
    · exact Or.inl hn
    · rw [if_neg hn] at ht
      split at ht
      · exact absurd ht (by decide)
      · rename_i stays
        rcases h.running t ht with rfl | idle
        · by_cases hi : s.current = idleThread
          · exact Or.inr hi
          · exact absurd ⟨rfl, hi, ht⟩ stays
        · exact Or.inr idle
  · rw [kiSchedule_readyQueue]
    have tail := h.queueNodup.tail
    split
    · rw [List.nodup_append]
      refine ⟨tail, List.nodup_singleton _, ?_⟩
      intro a ha b hb same
      rw [List.mem_singleton] at hb
      subst hb same
      exact h.outgoing.1 (h.mem_tail.mp ha).1
    · simpa using tail
  · intro t
    rw [kiSchedule_readyQueue, kiSchedule_state, List.mem_append, h.mem_tail]
    by_cases hn : t = nextThread s
    · rw [if_pos hn]
      have notBack : ¬ (Requeued s ∧ t = s.current) := by
        rintro ⟨hr, rfl⟩
        rcases next with idle | ready
        · exact hr.1 (hn.trans idle)
        · rw [← hn] at ready
          exact h.outgoing.1 ready
      by_cases hr : Requeued s
      · have : nextThread s ≠ s.current := fun hc => notBack ⟨hr, hn.trans hc⟩
        simp [hr, hn, this]
      · simp [hr, hn]
    · rw [if_neg hn]
      by_cases hr : Requeued s
      · by_cases hc : t = s.current
        · simp [hr, hc]
        · simp [hr, hc, hn]
      · simp [hr, hn]
  · rw [currentRuns]
    decide

/-- Readying a waiting thread other than the current one. -/
theorem Switching.wake (h : Switching s)
    (busy : (s.threads s.current).state ≠ .waiting) (t : ThreadRef) (status : NtStatus) :
    Switching (kiWakeWaitingThread s t status) ∧
      (kiWakeWaitingThread s t status).current = s.current ∧
      ((kiWakeWaitingThread s t status).threads s.current).state =
        (s.threads s.current).state := by
  by_cases waiting : (s.threads t).state = .waiting
  · rw [kiWakeWaitingThread_eq status waiting]
    have other : s.current ≠ t := by
      rintro rfl
      exact busy waiting
    have notIdle : idleThread ≠ t := by
      rintro rfl
      rw [h.idleRunning] at waiting
      exact absurd waiting (by decide)
    refine ⟨⟨h.idleListed, ?_, ?_, ?_, ?_, ?_, ?_⟩, rfl, ?_⟩
    · intro u hu
      have fresh := h.unlisted u hu
      have : u ≠ t := by
        rintro rfl
        rw [fresh] at waiting
        exact absurd waiting (by decide)
      simp [this, fresh]
    · simp [notIdle, h.idleRunning]
    · intro u hu
      by_cases hut : u = t
      · simp [hut, KThread.woken] at hu
      · simp only [setThread_threads, if_neg hut] at hu
        exact h.running u hu
    · rw [List.nodup_append]
      refine ⟨h.queueNodup, List.nodup_singleton _, ?_⟩
      intro a ha b hb same
      rw [List.mem_singleton] at hb
      subst hb same
      rw [h.queued, waiting] at ha
      exact absurd ha (by decide)
    · intro u
      by_cases hut : u = t
      · simp [hut, KThread.woken]
      · simp [hut, h.queued]
    · simp [other, h.outgoing]
    · simp [other]
  · rw [kiWakeWaitingThread_other status waiting]
    exact ⟨h, rfl, rfl⟩

/-- The same for the whole loop of `KiSignalObject`, whatever is on the list. -/
theorem Switching.signal (h : Switching s)
    (busy : (s.threads s.current).state ≠ .waiting) (g : HeaderRef) (fuel : Nat) :
    Switching (signalLoop g fuel s) ∧ (signalLoop g fuel s).current = s.current ∧
      ((signalLoop g fuel s).threads s.current).state = (s.threads s.current).state := by
  induction fuel generalizing s with
  | zero => exact ⟨h, rfl, rfl⟩
  | succ fuel ih =>
    simp only [signalLoop]
    split
    · exact ⟨h, rfl, rfl⟩
    · rename_i b rest _
      have popped : SameRun s (s.setHeader g { s.headers g with waitList := rest }) :=
        ⟨fun _ => rfl, fun _ => rfl, rfl, rfl, rfl, rfl⟩
      obtain ⟨woken, current, state⟩ := (h.same popped).wake busy b.thread statusSuccess
      have still : ((kiWakeWaitingThread (s.setHeader g { s.headers g with waitList := rest })
          b.thread statusSuccess).threads (kiWakeWaitingThread
          (s.setHeader g { s.headers g with waitList := rest }) b.thread
          statusSuccess).current).state ≠ .waiting := by
        rw [current, state]
        exact busy
      obtain ⟨done, current', state'⟩ := ih woken still
      refine ⟨done, current'.trans current, ?_⟩
      rw [current] at state'
      exact state'.trans state

theorem Settled.expire (h : Settled s) (ts : List ThreadRef) : Settled (expireWaits s ts) := by
  induction ts generalizing s with
  | nil => exact h
  | cons t ts ih =>
    simp only [expireWaits]
    refine ih ?_
    split
    · have busy : (s.threads s.current).state ≠ .waiting := by
        rw [h.currentRunning]
        decide
      obtain ⟨woken, current, state⟩ := h.toSwitching.wake busy t statusTimeout
      refine ⟨woken, ?_⟩
      have same : (kiTimeoutThreadWait s t).current = s.current := current
      rw [same]
      exact state.trans h.currentRunning
    · exact h

/-- Thread ids are handed out in order of creation. -/
structure Numbered (s : KeState) : Prop where
  listNodup : s.processThreads.Nodup
  ids : s.processThreads.map (fun t => (s.threads t).threadId) =
    (List.range s.processThreads.length).map wrap32
  next : s.nextThreadId = wrap32 s.processThreads.length

/-- Nothing about the numbering has changed. -/
structure SameIds (s s' : KeState) : Prop where
  threadId : ∀ t, (s'.threads t).threadId = (s.threads t).threadId
  processThreads : s'.processThreads = s.processThreads
  nextThreadId : s'.nextThreadId = s.nextThreadId

theorem SameIds.refl (s : KeState) : SameIds s s := ⟨fun _ => rfl, rfl, rfl⟩

theorem SameIds.trans {t u : KeState} (h : SameIds s t) (h' : SameIds t u) : SameIds s u :=
  ⟨fun k => (h'.threadId k).trans (h.threadId k), h'.processThreads.trans h.processThreads,
    h'.nextThreadId.trans h.nextThreadId⟩

theorem Numbered.same (h : Numbered s) (same : SameIds s s') : Numbered s' where
  listNodup := by rw [same.processThreads]; exact h.listNodup
  ids := by
    rw [same.processThreads]
    simp only [same.threadId]
    exact h.ids
  next := by rw [same.nextThreadId, same.processThreads]; exact h.next

theorem schedule_sameIds (s : KeState) : SameIds s (kiSchedule s) := by
  obtain ⟨_, listed, next, _⟩ := kiSchedule_frame s
  refine ⟨fun t => ?_, listed, next⟩
  have same := kiSchedule_sameWait s t
  rw [KThread.SameWait] at same
  rw [same]

theorem setThread_sameIds {k : KThread}
    (same : k.threadId = (s.threads t).threadId) : SameIds s (s.setThread t k) := by
  refine ⟨fun u => ?_, rfl, rfl⟩
  by_cases hu : u = t
  · simp [hu, same]
  · simp [hu]

theorem wake_sameIds (s : KeState) (t : ThreadRef) (status : NtStatus) :
    SameIds s (kiWakeWaitingThread s t status) := by
  by_cases waiting : (s.threads t).state = .waiting
  · rw [kiWakeWaitingThread_eq status waiting]
    have same : SameIds s (s.setThread t ((s.threads t).woken status)) := setThread_sameIds rfl
    exact ⟨same.threadId, rfl, rfl⟩
  · rw [kiWakeWaitingThread_other status waiting]
    exact .refl s

theorem signal_sameIds (g : HeaderRef) (fuel : Nat) (s : KeState) :
    SameIds s (signalLoop g fuel s) := by
  induction fuel generalizing s with
  | zero => exact .refl s
  | succ fuel ih =>
    simp only [signalLoop]
    split
    · exact .refl s
    · rename_i b rest _
      have popped : SameIds s (s.setHeader g { s.headers g with waitList := rest }) :=
        ⟨fun _ => rfl, rfl, rfl⟩
      exact (popped.trans (wake_sameIds _ _ _)).trans (ih _)

theorem expire_sameIds (s : KeState) (ts : List ThreadRef) : SameIds s (expireWaits s ts) := by
  induction ts generalizing s with
  | nil => exact .refl s
  | cons t ts ih =>
    simp only [expireWaits]
    split
    · exact (wake_sameIds s t statusTimeout).trans (ih _)
    · exact ih _

/-- Fewer than 2^32 creations give every thread its own id. -/
theorem Numbered.distinct (h : Numbered s) (few : s.processThreads.length ≤ 2 ^ 32)
    {t u : ThreadRef} (ht : t ∈ s.processThreads) (hu : u ∈ s.processThreads) (other : t ≠ u) :
    (s.threads t).threadId ≠ (s.threads u).threadId := by
  have words : (List.range s.processThreads.length).map wrap32 =
      List.range s.processThreads.length := by
    rw [List.map_congr_left (g := id), List.map_id]
    intro n hn
    have := List.mem_range.mp hn
    exact Nat.mod_eq_of_lt (by omega)
  have nodup : (s.processThreads.map fun t => (s.threads t).threadId).Nodup := by
    rw [h.ids, words]
    exact List.nodup_range
  intro same
  exact other (List.inj_on_of_nodup_map nodup ht hu same)

inductive SchedOp where
  /-- `KeCreateThread` or `KeCreateUserThread`; the pool grants the thread at `t`. -/
  | create (t : ThreadRef) (termination : Option HeaderRef)
  /-- A creation whose thread or stack allocation is refused. -/
  | createRefused
  | yield
  | clockTick
  /-- The current thread marks itself waiting, with any wait blocks linked on
  any lists, and calls `KiBlockCurrentThread`. -/
  | block (wait : KThread) (headers : HeaderRef → DispatcherHeader)
  | ready (t : ThreadRef)
  | terminate

/-- The current thread after it marked itself waiting. -/
def markWaiting (s : KeState) (wait : KThread) (headers : HeaderRef → DispatcherHeader) :
    KeState :=
  { s.setThread s.current { wait with
      state := .waiting
      threadId := (s.threads s.current).threadId
      quantum := (s.threads s.current).quantum } with headers := headers }

/-- The state an operation leads to. -/
def SchedOp.apply (s : KeState) : SchedOp → KeState
  | .create t termination => keCreateThread s t termination
  | .createRefused => s
  | .yield => keYield s
  | .clockTick => keClockTick s
  | .block wait headers => kiBlockCurrentThread (markWaiting s wait headers)
  | .ready t => kiReadyThread s t
  | .terminate => keTerminateThread s

/-- When an operation can be issued: new threads are at fresh addresses, and
the idle thread neither blocks nor terminates. -/
def SchedOp.Allowed (s : KeState) : SchedOp → Prop
  | .create t _ => t ∉ s.processThreads
  | .block _ _ | .terminate => s.current ≠ idleThread
  | _ => True

def SchedStep (s : KeState) (op : SchedOp) (s' : KeState) : Prop :=
  op.Allowed s ∧ s' = op.apply s

def SchedStart (s : KeState) : Prop := ∃ headers, s = keInitializeScheduler headers

theorem Settled.busy (h : Settled s) : (s.threads s.current).state ≠ .waiting := by
  rw [h.currentRunning]
  decide

theorem Settled.create (h : Settled s) {t : ThreadRef}
    {termination : Option HeaderRef} (fresh : t ∉ s.processThreads) :
    Settled (keCreateThread s t termination) := by
  have new := h.unlisted t fresh
  have notCurrent : s.current ≠ t := by
    rintro rfl
    rw [h.currentRunning] at new
    exact absurd new (by decide)
  have notIdle : idleThread ≠ t := by
    rintro rfl
    exact fresh h.idleListed
  refine ⟨⟨?_, ?_, ?_, ?_, ?_, ?_, ?_⟩, ?_⟩
  · exact List.mem_append_left _ h.idleListed
  · intro u hu
    simp only [keCreateThread, List.mem_append, List.mem_singleton, not_or] at hu
    simp [keCreateThread, hu.2, h.unlisted u hu.1]
  · simp [keCreateThread, notIdle, h.idleRunning]
  · intro u hu
    by_cases hut : u = t
    · simp [keCreateThread, hut] at hu
    · simp only [keCreateThread, setThread_threads, if_neg hut] at hu
      exact h.running u hu
  · simp only [keCreateThread, List.nodup_append]
    refine ⟨h.queueNodup, List.nodup_singleton _, ?_⟩
    intro a ha b hb same
    rw [List.mem_singleton] at hb
    subst hb same
    rw [h.queued, new] at ha
    exact absurd ha (by decide)
  · intro u
    by_cases hut : u = t
    · simp [keCreateThread, hut]
    · simp [keCreateThread, hut, h.queued]
  · simp [keCreateThread, notCurrent, h.outgoing]
  · simp [keCreateThread, notCurrent, h.currentRunning]

theorem Settled.ready (h : Settled s) (t : ThreadRef) : Settled (kiReadyThread s t) := by
  by_cases waiting : (s.threads t).state = .waiting
  · have eq : kiReadyThread s t =
        { s.setThread t { s.threads t with state := .ready } with
          readyQueue := s.readyQueue ++ [t] } := by
      simp only [kiReadyThread, if_pos waiting]
    -- readying is a wake without the unlinking, which the scheduler cannot see
    obtain ⟨woken, current, state⟩ := h.toSwitching.wake h.busy t statusSuccess
    have same : SameRun (kiWakeWaitingThread s t statusSuccess) (kiReadyThread s t) := by
      rw [kiWakeWaitingThread_eq statusSuccess waiting, eq]
      refine ⟨fun u => ?_, fun u => ?_, rfl, rfl, rfl, rfl⟩ <;>
        by_cases hu : u = t <;> simp [hu, KThread.woken]
    refine Settled.same ⟨woken, ?_⟩ same
    rw [current]
    exact state.trans h.currentRunning
  · have eq : kiReadyThread s t = s := by
      simp only [kiReadyThread, if_neg waiting]
    rw [eq]
    exact h

/-- A current thread other than idle gives up its running state. -/
theorem Settled.leave (h : Settled s) (notIdle : s.current ≠ idleThread)
    (others : ∀ t, t ≠ s.current → (s'.threads t).state = (s.threads t).state)
    (left : (s'.threads s.current).state = .waiting ∨ (s'.threads s.current).state = .terminated)
    (queue : s'.readyQueue = s.readyQueue) (current : s'.current = s.current)
    (listed : s'.processThreads = s.processThreads) : Switching s' where
  idleListed := by rw [listed]; exact h.idleListed
  unlisted := by
    intro t ht
    rw [listed] at ht
    have fresh := h.unlisted t ht
    rw [others t, fresh]
    rintro rfl
    rw [h.currentRunning] at fresh
    exact absurd fresh (by decide)
  idleRunning := by rw [others _ notIdle.symm]; exact h.idleRunning
  running := by
    intro t ht
    rw [current]
    by_cases hc : t = s.current
    · exact Or.inl hc
    · rw [others t hc] at ht
      exact h.running t ht
  queueNodup := by rw [queue]; exact h.queueNodup
  queued := by
    intro t
    rw [queue]
    by_cases hc : t = s.current
    · subst hc
      rw [h.queued, h.currentRunning]
      rcases left with left | left <;> simp [left]
    · rw [others t hc]
      exact h.queued t
  outgoing := by
    rw [current]
    rcases left with left | left <;> simp [left]

theorem Settled.blocking (h : Settled s) (notIdle : s.current ≠ idleThread)
    (wait : KThread) (headers : HeaderRef → DispatcherHeader) :
    Switching (markWaiting s wait headers) := by
  refine h.leave notIdle ?_ (Or.inl ?_) rfl rfl rfl
  · intro t ht
    simp [markWaiting, ht]
  · simp [markWaiting]

theorem Settled.block (h : Settled s) (notIdle : s.current ≠ idleThread)
    (wait : KThread) (headers : HeaderRef → DispatcherHeader) :
    Settled (kiBlockCurrentThread (markWaiting s wait headers)) :=
  (h.blocking notIdle wait headers).schedule

theorem Switching.signalTermination (h : Switching s)
    (busy : (s.threads s.current).state ≠ .waiting) :
    Switching (signalTermination s s.current) := by
  simp only [Ke.signalTermination]
  split
  · exact h
  · rename_i g _
    have raised : SameRun s (s.setHeader g { s.headers g with signalState := 1 }) :=
      ⟨fun _ => rfl, fun _ => rfl, rfl, rfl, rfl, rfl⟩
    obtain ⟨done, current, state⟩ := (h.same raised).signal busy g
      ((s.setHeader g { s.headers g with signalState := 1 }).headers g).waitList.length
    refine done.same ⟨fun t => ?_, fun t => ?_, rfl, rfl, rfl, rfl⟩ <;>
      by_cases ht : t = s.current <;> simp [ht, kiSignalObject]

/-- The current thread after it marked itself terminated and signalled its object. -/
def markTerminated (s : KeState) : KeState :=
  signalTermination (s.setThread s.current { s.threads s.current with state := .terminated })
    s.current

theorem Settled.terminating (h : Settled s) (notIdle : s.current ≠ idleThread) :
    Switching (markTerminated s) := by
  have left : Switching (s.setThread s.current
      { s.threads s.current with state := .terminated }) := by
    refine h.leave notIdle ?_ (Or.inr ?_) rfl rfl rfl
    · intro t ht
      simp [ht]
    · simp
  refine left.signalTermination ?_
  simp

theorem Settled.terminate (h : Settled s) (notIdle : s.current ≠ idleThread) :
    Settled (keTerminateThread s) :=
  (h.terminating notIdle).schedule

/-- The state after a tick has been counted, before it may end the quantum. -/
def countTick (s : KeState) : KeState :=
  spendQuantum (expireWaits { s with tickCount := wrap64 (s.tickCount + 1) } s.processThreads)

theorem Settled.counted (h : Settled s) : Settled (countTick s) := by
  have ticked : Settled { s with tickCount := wrap64 (s.tickCount + 1) } :=
    h.same ⟨fun _ => rfl, fun _ => rfl, rfl, rfl, rfl, rfl⟩
  have expired := ticked.expire s.processThreads
  simp only [countTick]
  generalize expireWaits { s with tickCount := wrap64 (s.tickCount + 1) } s.processThreads = u
    at expired
  refine expired.same ⟨fun t => ?_, fun t => ?_, rfl, rfl, rfl, rfl⟩ <;>
    by_cases ht : t = u.current <;> simp [ht, spendQuantum]

theorem keClockTick_eq (s : KeState) : keClockTick s =
    if ((countTick s).threads (countTick s).current).quantum ≤ 0 then kiSchedule (countTick s)
    else countTick s := rfl

theorem Settled.clockTick (h : Settled s) : Settled (keClockTick s) := by
  have counted := h.counted
  rw [keClockTick_eq]
  split
  · exact counted.toSwitching.schedule
  · exact counted

theorem Settled.step {op : SchedOp} (h : Settled s) (step : SchedStep s op s') : Settled s' := by
  obtain ⟨allowed, rfl⟩ := step
  cases op with
  | create t termination => exact h.create allowed
  | createRefused => exact h
  | yield => exact h.toSwitching.schedule
  | clockTick => exact h.clockTick
  | block wait headers => exact h.block allowed wait headers
  | ready t => exact h.ready t
  | terminate => exact h.terminate allowed

theorem settled_of_start (start : SchedStart s) : Settled s := by
  obtain ⟨headers, rfl⟩ := start
  have state : ∀ t, ((keInitializeScheduler headers).threads t).state =
      if t = idleThread then .running else .initialized := by
    intro t
    by_cases ht : t = idleThread <;> simp [keInitializeScheduler, ht, KThread.zero]
  refine ⟨⟨?_, ?_, ?_, ?_, ?_, ?_, ?_⟩, ?_⟩
  · simp [keInitializeScheduler]
  · intro t ht
    simp only [keInitializeScheduler, List.mem_singleton] at ht
    rw [state, if_neg ht]
  · rw [state, if_pos rfl]
  · intro t ht
    rw [state] at ht
    split at ht
    · rename_i idle
      exact Or.inr idle
    · exact absurd ht (by decide)
  · exact List.nodup_nil
  · intro t
    rw [state]
    split <;> simp [keInitializeScheduler]
  · simp [keInitializeScheduler]
  · simp [keInitializeScheduler]

theorem Numbered.create (h : Numbered s) {t : ThreadRef}
    {termination : Option HeaderRef} (fresh : t ∉ s.processThreads) :
    Numbered (keCreateThread s t termination) where
  listNodup := by
    simp only [keCreateThread, List.nodup_append]
    refine ⟨h.listNodup, List.nodup_singleton _, ?_⟩
    intro a ha b hb same
    rw [List.mem_singleton] at hb
    subst hb same
    exact fresh ha
  ids := by
    have old : s.processThreads.map (fun u => ((keCreateThread s t termination).threads u).threadId)
        = s.processThreads.map fun u => (s.threads u).threadId := by
      refine List.map_congr_left ?_
      intro u hu
      have : u ≠ t := by
        rintro rfl
        exact fresh hu
      simp [keCreateThread, this]
    have listed : (keCreateThread s t termination).processThreads = s.processThreads ++ [t] := rfl
    rw [listed, List.map_append, old, h.ids, List.length_append, List.length_singleton,
      List.range_succ, List.map_append]
    simp [keCreateThread, h.next]
  next := by
    simp only [keCreateThread, h.next, List.length_append, List.length_singleton, wrap32]
    omega

theorem terminate_sameIds (s : KeState) : SameIds s (keTerminateThread s) := by
  have left : SameIds s (s.setThread s.current
      { s.threads s.current with state := .terminated }) := setThread_sameIds rfl
  refine (left.trans ?_).trans (schedule_sameIds _)
  generalize s.setThread s.current { s.threads s.current with state := .terminated } = u
  simp only [signalTermination]
  split
  · exact .refl u
  · rename_i g _
    have raised : SameIds u (u.setHeader g { u.headers g with signalState := 1 }) :=
      ⟨fun _ => rfl, rfl, rfl⟩
    exact (raised.trans (signal_sameIds g _ _)).trans (setThread_sameIds rfl)

theorem clockTick_sameIds (s : KeState) : SameIds s (keClockTick s) := by
  have ticked : SameIds s { s with tickCount := wrap64 (s.tickCount + 1) } :=
    ⟨fun _ => rfl, rfl, rfl⟩
  have expired := ticked.trans (expire_sameIds _ s.processThreads)
  simp only [keClockTick]
  generalize expireWaits { s with tickCount := wrap64 (s.tickCount + 1) } s.processThreads = u
    at expired
  have spent : SameIds s (spendQuantum u) := expired.trans (setThread_sameIds rfl)
  split
  · exact spent.trans (schedule_sameIds _)
  · exact spent

theorem Numbered.step {op : SchedOp} (h : Numbered s) (step : SchedStep s op s') : Numbered s' := by
  obtain ⟨allowed, rfl⟩ := step
  cases op with
  | create t termination => exact h.create allowed
  | createRefused => exact h
  | yield => exact h.same (schedule_sameIds s)
  | clockTick => exact h.same (clockTick_sameIds s)
  | block wait headers =>
    have marked : SameIds s (markWaiting s wait headers) :=
      ⟨(setThread_sameIds (s := s) (t := s.current) (k := { wait with
        state := .waiting, threadId := (s.threads s.current).threadId
        quantum := (s.threads s.current).quantum }) rfl).threadId, rfl, rfl⟩
    exact h.same (marked.trans (schedule_sameIds _))
  | ready t =>
    refine h.same ?_
    simp only [SchedOp.apply, kiReadyThread]
    split
    · have set : SameIds s (s.setThread t { s.threads t with state := .ready }) :=
        setThread_sameIds rfl
      exact ⟨set.threadId, rfl, rfl⟩
    · exact .refl s
  | terminate => exact h.same (terminate_sameIds s)

theorem numbered_of_start (start : SchedStart s) : Numbered s := by
  obtain ⟨headers, rfl⟩ := start
  refine ⟨List.nodup_singleton _, ?_, ?_⟩
  · simp [keInitializeScheduler, KThread.zero, wrap32]
  · simp [keInitializeScheduler, wrap32]

theorem Switching.schedule_terminated (h : Switching s) {t : ThreadRef}
    (dead : (s.threads t).state = .terminated) :
    ((kiSchedule s).threads t).state = .terminated := by
  rw [kiSchedule_state, if_neg, if_neg, dead]
  · rintro ⟨rfl, hr⟩
    rw [hr.2] at dead
    exact absurd dead (by decide)
  · rintro rfl
    rcases h.next_state with idle | ready
    · rw [idle, h.idleRunning] at dead
      exact absurd dead (by decide)
    · rw [ready] at dead
      exact absurd dead (by decide)

theorem wake_terminated {u : ThreadRef} {status : NtStatus}
    (dead : (s.threads t).state = .terminated) :
    ((kiWakeWaitingThread s u status).threads t).state = .terminated := by
  by_cases waiting : (s.threads u).state = .waiting
  · rw [kiWakeWaitingThread_eq status waiting]
    have : t ≠ u := by
      rintro rfl
      rw [dead] at waiting
      exact absurd waiting (by decide)
    simp [this, dead]
  · rw [kiWakeWaitingThread_other status waiting]
    exact dead

theorem signal_terminated (g : HeaderRef) (fuel : Nat) (dead : (s.threads t).state = .terminated) :
    ((signalLoop g fuel s).threads t).state = .terminated := by
  induction fuel generalizing s with
  | zero => exact dead
  | succ fuel ih =>
    simp only [signalLoop]
    split
    · exact dead
    · exact ih (wake_terminated dead)

theorem signalTermination_terminated {u : ThreadRef} (dead : (s.threads t).state = .terminated) :
    ((signalTermination s u).threads t).state = .terminated := by
  simp only [signalTermination]
  split
  · exact dead
  · rename_i g _
    have raised : ((kiSignalObject (s.setHeader g { s.headers g with signalState := 1 })
        g).threads t).state = .terminated := signal_terminated g _ dead
    by_cases ht : t = u
    · subst ht
      simpa using raised
    · simpa [ht] using raised

theorem expire_terminated (ts : List ThreadRef) (dead : (s.threads t).state = .terminated) :
    ((expireWaits s ts).threads t).state = .terminated := by
  induction ts generalizing s with
  | nil => exact dead
  | cons u ts ih =>
    simp only [expireWaits]
    refine ih ?_
    split
    · exact wake_terminated dead
    · exact dead

theorem Settled.step_terminated {op : SchedOp} (h : Settled s)
    (step : SchedStep s op s') (dead : (s.threads t).state = .terminated) :
    (s'.threads t).state = .terminated := by
  obtain ⟨allowed, rfl⟩ := step
  have notCurrent : t ≠ s.current := by
    rintro rfl
    rw [h.currentRunning] at dead
    exact absurd dead (by decide)
  cases op with
  | create u termination =>
    have : t ≠ u := by
      rintro rfl
      rw [h.unlisted t allowed] at dead
      exact absurd dead (by decide)
    simp [SchedOp.apply, keCreateThread, this, dead]
  | createRefused => exact dead
  | yield => exact h.toSwitching.schedule_terminated dead
  | clockTick =>
    have ticked : Settled { s with tickCount := wrap64 (s.tickCount + 1) } :=
      h.same ⟨fun _ => rfl, fun _ => rfl, rfl, rfl, rfl, rfl⟩
    have expired := ticked.expire s.processThreads
    have still := expire_terminated (s := { s with tickCount := wrap64 (s.tickCount + 1) })
      s.processThreads dead
    simp only [SchedOp.apply, keClockTick]
    generalize expireWaits { s with tickCount := wrap64 (s.tickCount + 1) } s.processThreads = u
      at expired still
    have same : SameRun u (spendQuantum u) := by
      refine ⟨fun t => ?_, fun t => ?_, rfl, rfl, rfl, rfl⟩ <;>
        by_cases ht : t = u.current <;> simp [ht, spendQuantum]
    split
    · exact (expired.same same).toSwitching.schedule_terminated ((same.state t).trans still)
    · exact (same.state t).trans still
  | block wait headers =>
    refine (h.blocking allowed wait headers).schedule_terminated ?_
    simp [markWaiting, notCurrent, dead]
  | ready u =>
    simp only [SchedOp.apply, kiReadyThread]
    split
    · rename_i waiting
      have : t ≠ u := by
        rintro rfl
        rw [dead] at waiting
        exact absurd waiting (by decide)
      simp [this, dead]
    · exact dead
  | terminate =>
    refine (h.terminating allowed).schedule_terminated ?_
    exact signalTermination_terminated (by simp [notCurrent, dead])

/-- What holds of the scheduler between operations. -/
structure SchedulerOk (s : KeState) : Prop where
  currentRunning : (s.threads s.current).state = .running
  runningOnly : ∀ t, (s.threads t).state = .running → t = s.current ∨ t = idleThread
  queueExact : ∀ t, t ∈ s.readyQueue ↔ (s.threads t).state = .ready
  queueOnce : s.readyQueue.Nodup
  idleOff : idleThread ∉ s.readyQueue
  waitingOff : ∀ t, (s.threads t).state = .waiting → t ∉ s.readyQueue
  terminatedOff : ∀ t, (s.threads t).state = .terminated → t ∉ s.readyQueue
  distinctIds : s.processThreads.length ≤ 2 ^ 32 → ∀ t ∈ s.processThreads,
    ∀ u ∈ s.processThreads, t ≠ u → (s.threads t).threadId ≠ (s.threads u).threadId

theorem Settled.ok (h : Settled s) (numbered : Numbered s) : SchedulerOk s where
  currentRunning := h.currentRunning
  runningOnly := h.running
  queueExact := h.queued
  queueOnce := h.queueNodup
  idleOff := by
    rw [h.queued, h.idleRunning]
    decide
  waitingOff := by
    intro t ht
    rw [h.queued, ht]
    decide
  terminatedOff := by
    intro t ht
    rw [h.queued, ht]
    decide
  distinctIds := fun few _ ht _ hu other => numbered.distinct few ht hu other

/-- Between any two operations the scheduler is in order, and a thread that has
terminated is not current in any later state. -/
theorem scheduler_invariant {s : KeState} (run : Runs.Reachable SchedStart SchedStep s) :
    SchedulerOk s ∧ ∀ t, (s.threads t).state = .terminated → ∀ s',
      Relation.ReflTransGen (fun a b => ∃ op, SchedStep a op b) s s' → s'.current ≠ t := by
  have settled : Settled s := run.invariant (fun _ start => settled_of_start start)
    (fun _ _ _ h step => h.step step)
  have numbered : Numbered s := run.invariant (fun _ start => numbered_of_start start)
    (fun _ _ _ h step => h.step step)
  refine ⟨settled.ok numbered, ?_⟩
  intro t dead s' path
  have later : Settled s' ∧ (s'.threads t).state = .terminated := by
    induction path with
    | refl => exact ⟨settled, dead⟩
    | tail _ edge ih =>
      obtain ⟨op, edge⟩ := edge
      exact ⟨ih.1.step edge, ih.1.step_terminated edge ih.2⟩
  rintro rfl
  rw [later.1.currentRunning] at later
  exact absurd later.2 (by decide)

/-- Dispatcher objects for the concrete runs below. -/
def plainHeaders : HeaderRef → DispatcherHeader := fun _ => ⟨.eventNotification, 0, 0, []⟩

/-- The state after one thread is created and the boot context yields to it. -/
def afterYield : KeState := keYield (keCreateThread (keInitializeScheduler plainHeaders) 1 none)

theorem afterYield_reachable : Runs.Reachable SchedStart SchedStep afterYield := by
  have start : SchedStart (keInitializeScheduler plainHeaders) := ⟨plainHeaders, rfl⟩
  have created : SchedStep (keInitializeScheduler plainHeaders) (.create 1 none)
      (keCreateThread (keInitializeScheduler plainHeaders) 1 none) := by
    refine ⟨?_, rfl⟩
    simp [SchedOp.Allowed, keInitializeScheduler, idleThread]
  exact ((Runs.Reachable.of_initial start).next created).next (l := .yield) ⟨trivial, rfl⟩

/-- The run that creates thread 1, yields to it and lets it terminate. -/
theorem scheduler_invariant_yield : SchedulerOk afterYield ∧
    (keTerminateThread afterYield).current ≠ 1 ∧
    ((keTerminateThread afterYield).threads 1).state = .terminated := by
  have ended : Runs.Reachable SchedStart SchedStep (keTerminateThread afterYield) :=
    afterYield_reachable.next (l := .terminate) ⟨(by decide : afterYield.current ≠ idleThread), rfl⟩
  have dead : ((keTerminateThread afterYield).threads 1).state = .terminated := by decide
  exact ⟨(scheduler_invariant afterYield_reachable).1,
    (scheduler_invariant ended).2 1 dead _ .refl, dead⟩

/-- While another thread runs, the idle thread is marked running as well. -/
theorem idle_running_beside_current : ∃ s, Runs.Reachable SchedStart SchedStep s ∧
    ¬ (∀ t, (s.threads t).state = .running ↔ t = s.current) := by
  refine ⟨afterYield, afterYield_reachable, ?_⟩
  intro only
  have idle : (afterYield.threads idleThread).state = .running := by decide
  have current : afterYield.current = 1 := by decide
  have := (only idleThread).mp idle
  rw [current] at this
  exact absurd this (by decide)

end Ke
