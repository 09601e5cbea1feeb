import Mathlib.Logic.Function.Basic
import Svindows.Nt.Defs

/-!
# Threads, dispatcher objects and the scheduler

One state holds what `ke/thread.c` and `ke/dispatcher.c` share: the threads
with their wait blocks, the process thread list, the ready queue, the tick
count and every dispatcher header. A `LIST_ENTRY` ring is the list of its
members from head to tail. A thread that is switched out inside a wait keeps
the locals of that call in `frame`; every other kernel path runs with
interrupts masked and is one step.
-/

namespace Ke

open Nt

/-- The address of a `KTHREAD`. -/
abbrev ThreadRef := Nat

/-- The address of a `DISPATCHER_HEADER`. -/
abbrev HeaderRef := Nat

/-- `&g_idle_thread`. -/
def idleThread : ThreadRef := 0

def defaultQuantum : Int := 2
def keMaximumWaitObjects : Nat := 64

inductive KThreadState where
  | initialized | ready | running | waiting | terminated
  deriving DecidableEq, Repr

inductive DispatcherType where
  | eventNotification | eventSynchronization | semaphore | mutant | thread
  deriving DecidableEq, Repr

/-- `WaitBlocks[index]` of a thread, as it is linked on a wait list. -/
structure WaitBlock where
  thread : ThreadRef
  index : Nat
  deriving DecidableEq, Repr

structure DispatcherHeader where
  type : DispatcherType
  signalState : Int
  /-- `Limit` of the `KSEMAPHORE` around the header. -/
  limit : Int
  waitList : List WaitBlock

/-- The locals of a `KeWaitForMultipleObjects` call that has blocked. -/
structure WaitFrame where
  objects : List HeaderRef
  waitAll : Bool
  timeoutTicks : Nat
  deadline : Nat
  deriving DecidableEq, Repr

structure KThread where
  state : KThreadState
  quantum : Int
  threadId : Nat
  /-- `WaitBlocks[i].Object`. -/
  waitObject : Nat → HeaderRef
  waitBlockCount : Nat
  waitDeadline : Nat
  waitStatus : NtStatus
  terminationObject : Option HeaderRef
  frame : Option WaitFrame

/-- A `KTHREAD` after `memset`. -/
def KThread.zero : KThread := ⟨.initialized, 0, 0, fun _ => 0, 0, 0, 0, none, none⟩

structure KeState where
  threads : ThreadRef → KThread
  processThreads : List ThreadRef
  readyQueue : List ThreadRef
  current : ThreadRef
  nextThreadId : Nat
  tickCount : Nat
  headers : HeaderRef → DispatcherHeader

def KeState.setThread (s : KeState) (t : ThreadRef) (k : KThread) : KeState :=
  { s with threads := Function.update s.threads t k }

def KeState.setHeader (s : KeState) (h : HeaderRef) (d : DispatcherHeader) : KeState :=
  { s with headers := Function.update s.headers h d }

/-- `KeInitializeScheduler`, over whatever dispatcher objects there are. -/
def keInitializeScheduler (headers : HeaderRef → DispatcherHeader) : KeState where
  threads := Function.update (fun _ => KThread.zero) idleThread
    { KThread.zero with state := .running }
  processThreads := [idleThread]
  readyQueue := []
  current := idleThread
  nextThreadId := 1
  tickCount := 0
  headers := headers

/-- `KepAllocThread` and `KepEnqueueThread` when the pool grants the thread at
`t`; a refused allocation changes nothing. `NtCreateThreadEx` fills in the
termination object before the thread can run. -/
def keCreateThread (s : KeState) (t : ThreadRef) (termination : Option HeaderRef) : KeState :=
  { s.setThread t { KThread.zero with
      state := .ready
      quantum := defaultQuantum
      threadId := s.nextThreadId
      terminationObject := termination } with
    nextThreadId := wrap32 (s.nextThreadId + 1)
    readyQueue := s.readyQueue ++ [t]
    processThreads := s.processThreads ++ [t] }

/-- Return the outgoing thread to the queue if it can still run. -/
def requeue (s : KeState) (prev : ThreadRef) : KeState :=
  if prev ≠ idleThread ∧ (s.threads prev).state = .running then
    { s.setThread prev { s.threads prev with state := .ready } with
      readyQueue := s.readyQueue ++ [prev] }
  else s

/-- Make `next` the running thread. -/
def switchTo (s : KeState) (next : ThreadRef) : KeState :=
  if s.current = next then
    s.setThread next { s.threads next with state := .running }
  else
    { s.setThread next { s.threads next with state := .running, quantum := defaultQuantum } with
      current := next }

def kiSchedule (s : KeState) : KeState :=
  switchTo (requeue { s with readyQueue := s.readyQueue.tail } s.current)
    (s.readyQueue.headD idleThread)

def keYield (s : KeState) : KeState := kiSchedule s

def kiReadyThread (s : KeState) (t : ThreadRef) : KeState :=
  if (s.threads t).state = .waiting then
    { s.setThread t { s.threads t with state := .ready } with
      readyQueue := s.readyQueue ++ [t] }
  else s

def kiBlockCurrentThread (s : KeState) : KeState := kiSchedule s

def kiCanAcquire (h : DispatcherHeader) : Bool :=
  match h.type with
  | .eventNotification | .thread | .eventSynchronization | .semaphore | .mutant =>
    0 < h.signalState

def kiConsumeSignal (h : DispatcherHeader) : DispatcherHeader :=
  match h.type with
  | .eventNotification | .thread => h
  | .eventSynchronization => { h with signalState := 0 }
  | .semaphore | .mutant => { h with signalState := h.signalState - 1 }

/-- Take a wait block off whatever list it is on. -/
def unlinkBlock (s : KeState) (b : WaitBlock) : KeState :=
  { s with headers := fun h =>
      { s.headers h with waitList := (s.headers h).waitList.filter fun c => c ≠ b } }

def unlinkBlocks (s : KeState) (t : ThreadRef) : Nat → KeState
  | 0 => s
  | n + 1 => unlinkBlock (unlinkBlocks s t n) ⟨t, n⟩

def kiUnlinkThreadWait (s : KeState) (t : ThreadRef) : KeState :=
  unlinkBlocks s t (s.threads t).waitBlockCount

def kiWakeWaitingThread (s : KeState) (t : ThreadRef) (status : NtStatus) : KeState :=
  if (s.threads t).state ≠ .waiting then s
  else
    let s := kiUnlinkThreadWait s t
    kiReadyThread (s.setThread t { s.threads t with waitStatus := status, waitDeadline := 0 }) t

/-- The loop of `KiSignalObject`: pop a block, wake its thread, until none is left. -/
def signalLoop (h : HeaderRef) : Nat → KeState → KeState
  | 0, s => s
  | fuel + 1, s =>
    match (s.headers h).waitList with
    | [] => s
    | b :: rest =>
      signalLoop h fuel (kiWakeWaitingThread (s.setHeader h { s.headers h with waitList := rest })
        b.thread statusSuccess)

/-- `KiSignalObject`: each round takes at least one block off the list. -/
def kiSignalObject (s : KeState) (h : HeaderRef) : KeState :=
  signalLoop h (s.headers h).waitList.length s

def kiTimeoutThreadWait (s : KeState) (t : ThreadRef) : KeState :=
  kiWakeWaitingThread s t statusTimeout

def keSetEvent (s : KeState) (h : HeaderRef) : KeState :=
  kiSignalObject (s.setHeader h { s.headers h with signalState := 1 }) h

def keResetEvent (s : KeState) (h : HeaderRef) : KeState :=
  s.setHeader h { s.headers h with signalState := 0 }

/-- `LONG` addition. -/
def addLong (x y : Int) : Int := Int.bmod (x + y) (2 ^ 32)

/-- The count a release leaves: the sum, capped at a nonzero limit. -/
def releasedCount (h : DispatcherHeader) (count : Int) : Int :=
  let sum := addLong h.signalState count
  if h.limit ≠ 0 ∧ h.limit < sum then h.limit else sum

def keReleaseSemaphore (s : KeState) (h : HeaderRef) (count : Int) : KeState :=
  kiSignalObject (s.setHeader h
    { s.headers h with signalState := releasedCount (s.headers h) count }) h

def keReleaseMutant (s : KeState) (h : HeaderRef) : KeState :=
  kiSignalObject (s.setHeader h { s.headers h with signalState := 1 }) h

def consumeSignals (s : KeState) : List HeaderRef → KeState
  | [] => s
  | h :: hs => consumeSignals (s.setHeader h (kiConsumeSignal (s.headers h))) hs

/-- The any-wait scan from position `i` on. -/
def acquireAny (s : KeState) : Nat → List HeaderRef → Option (NtStatus × KeState)
  | _, [] => none
  | i, h :: hs =>
    if kiCanAcquire (s.headers h) then
      some (statusWait0 + i, s.setHeader h (kiConsumeSignal (s.headers h)))
    else acquireAny s (i + 1) hs

/-- Satisfy the wait without blocking, if its objects allow it. -/
def tryAcquire (s : KeState) (objects : List HeaderRef) (waitAll : Bool) :
    Option (NtStatus × KeState) :=
  if waitAll then
    if objects.all fun h => kiCanAcquire (s.headers h) then
      some (statusWait0, consumeSignals s objects)
    else none
  else acquireAny s 0 objects

/-- Link `WaitBlocks[i]`, `WaitBlocks[i + 1]`, ... on the objects in turn. -/
def armBlocks (s : KeState) (t : ThreadRef) : Nat → List HeaderRef → KeState
  | _, [] => s
  | i, h :: hs =>
    let s := s.setThread t { s.threads t with
      waitObject := Function.update (s.threads t).waitObject i h }
    let s := s.setHeader h { s.headers h with
      waitList := (s.headers h).waitList ++ [⟨t, i⟩] }
    armBlocks s t (i + 1) hs

/-- Prepare the current thread's wait and mark it waiting. -/
def armWait (s : KeState) (f : WaitFrame) : KeState :=
  let t := s.current
  let s := s.setThread t { s.threads t with
    waitBlockCount := f.objects.length
    waitStatus := statusPending
    waitDeadline := f.deadline }
  let s := armBlocks s t 0 f.objects
  s.setThread t { s.threads t with state := .waiting, frame := some f }

/-- One pass of the loop of `KeWaitForMultipleObjects`: the status it returns,
or none when it blocks. -/
def waitPass (s : KeState) (f : WaitFrame) : Option NtStatus × KeState :=
  match tryAcquire s f.objects f.waitAll with
  | some (status, s) => (some status, s)
  | none =>
    if f.timeoutTicks = 0 ∨ (f.deadline ≠ 0 ∧ f.deadline ≤ s.tickCount) then
      (some statusTimeout, s)
    else (none, kiBlockCurrentThread (armWait s f))

/-- The largest tick count stands for an infinite wait. -/
def infiniteTicks : Nat := 2 ^ 64 - 1

def waitDeadlineOf (s : KeState) (timeoutTicks : Nat) : Nat :=
  if timeoutTicks = infiniteTicks then 0 else wrap64 (s.tickCount + timeoutTicks)

def keWaitForMultipleObjects (s : KeState) (objects : List HeaderRef) (waitAll : Bool)
    (timeoutTicks : Nat) : Option NtStatus × KeState :=
  if objects.length = 0 ∨ keMaximumWaitObjects < objects.length then
    (some statusInvalidParameter, s)
  else waitPass s ⟨objects, waitAll, timeoutTicks, waitDeadlineOf s timeoutTicks⟩

/-- The code behind `KiBlockCurrentThread` in the wait loop, when the current
thread runs again. -/
def resumeWait (s : KeState) (f : WaitFrame) : Option NtStatus × KeState :=
  let t := s.current
  let s := kiUnlinkThreadWait s t
  let timedOut := (s.threads t).waitStatus = statusTimeout
  let s := s.setThread t { s.threads t with waitBlockCount := 0, frame := none }
  if timedOut then (some statusTimeout, s) else waitPass s f

def signalTermination (s : KeState) (t : ThreadRef) : KeState :=
  match (s.threads t).terminationObject with
  | none => s
  | some h =>
    let s := kiSignalObject (s.setHeader h { s.headers h with signalState := 1 }) h
    s.setThread t { s.threads t with terminationObject := none }

def keTerminateThread (s : KeState) : KeState :=
  let t := s.current
  let s := s.setThread t { s.threads t with state := .terminated }
  kiSchedule (signalTermination s t)

/-- The timeout scan over the process thread list. -/
def expireWaits (s : KeState) : List ThreadRef → KeState
  | [] => s
  | t :: ts =>
    let k := s.threads t
    expireWaits (if k.state = .waiting ∧ k.waitDeadline ≠ 0 ∧ k.waitDeadline ≤ s.tickCount then
      kiTimeoutThreadWait s t else s) ts

def spendQuantum (s : KeState) : KeState :=
  let k := s.threads s.current
  s.setThread s.current { k with quantum := if 0 < k.quantum then k.quantum - 1 else k.quantum }

def keClockTick (s : KeState) : KeState :=
  let s := { s with tickCount := wrap64 (s.tickCount + 1) }
  let s := spendQuantum (expireWaits s s.processThreads)
  if (s.threads s.current).quantum ≤ 0 then kiSchedule s else s

end Ke
