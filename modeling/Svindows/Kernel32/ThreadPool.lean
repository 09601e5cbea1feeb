import Mathlib.Logic.Function.Basic
import Svindows.Lib.Runs

/-!
# Thread-pool work

`SubmitThreadpoolWork` puts a work item on an intrusive list under a spin lock and
releases a semaphore; worker threads wait for the semaphore, take the first item
and call it. Every statement that touches shared memory and every system call is a
step of the thread that executes it. A flag of the item, outside the lock, says that
it was submitted and keeps it from being queued twice.
-/

namespace Kernel32

def maxThreadpoolWorkItems : Nat := 32

abbrev WorkItem := Fin maxThreadpoolWorkItems

/-- `g_threadpool_worker_state`. -/
inductive WorkerState where
  | none | starting | ready
  deriving DecidableEq

/-- The memory of the pool. A semaphore is the number of its creation, and 0 is the null handle.
The last four fields are history: the items linked and not yet unlinked, and for each
item how many submissions took its flag, how many of them returned with last error 0,
and how often it was called. -/
structure PoolMemory where
  used : WorkItem → Bool
  callback : WorkItem → Bool
  submitted : WorkItem → Bool
  next : WorkItem → Option WorkItem
  head : Option WorkItem
  tail : Option WorkItem
  lock : Bool
  workerState : WorkerState
  semaphore : Nat
  counts : Nat → Nat
  queued : List WorkItem
  entered : WorkItem → Nat
  accepted : WorkItem → Nat
  invoked : WorkItem → Nat

/-- What a thread does next. The first group is `SubmitThreadpoolWork`, with
`threadpool_ensure_workers` from `ensure` to `await`; the second is
`threadpool_worker_start`. -/
inductive PoolPc where
  /-- Outside, with the last error of the thread. -/
  | idle (lastError : Nat)
  | ensure (w : WorkItem)
  | claim (w : WorkItem)
  | createSemaphore (w : WorkItem)
  /-- `n` workers are created. -/
  | createThread (w : WorkItem) (n : Nat)
  | await (w : WorkItem)
  | take (w : WorkItem)
  | lock (w : WorkItem)
  | clearNext (w : WorkItem)
  | link (w : WorkItem)
  | setTail (w : WorkItem)
  | unlock (w : WorkItem)
  | release (w : WorkItem)
  | retract (w : WorkItem)
  | start
  | wait (semaphore : Nat)
  | lockQueue
  | first
  | pop (w : WorkItem)
  | trimTail (w : WorkItem)
  | detach (w : WorkItem)
  | leave (w : Option WorkItem)
  | call (w : WorkItem)
  | finish (w : WorkItem)
  deriving DecidableEq

/-- What a step leaves open: the argument of a call, and whether a system call succeeds. -/
structure PoolChoice where
  handle : Option WorkItem
  succeeds : Bool

def errorInvalidParameter : Nat := 87
def errorNotEnoughMemory : Nat := 8
def semaphoreMaximum : Nat := 0x7FFFFFFF

/-- One step of a thread, with the threads that it creates. -/
def advance (m : PoolMemory) (c : PoolChoice) : PoolPc → PoolMemory × PoolPc × List PoolPc
  | .idle _ =>
    match c.handle with
    | none => (m, .idle errorInvalidParameter, [])
    | some w =>
      if m.used w = false ∨ m.callback w = false ∨ m.submitted w = true then
        (m, .idle errorInvalidParameter, [])
      else (m, .ensure w, [])
  | .ensure w => if m.workerState = .ready then (m, .take w, []) else (m, .claim w, [])
  | .claim w =>
    if m.workerState = .none then ({ m with workerState := .starting }, .createSemaphore w, [])
    else (m, .await w, [])
  | .createSemaphore w =>
    if c.succeeds then
      ({ m with
        semaphore := m.semaphore + 1
        counts := Function.update m.counts (m.semaphore + 1) 0 }, .createThread w 0, [])
    else ({ m with workerState := .none }, .idle errorNotEnoughMemory, [])
  | .createThread w n =>
    if 4 ≤ n then ({ m with workerState := .ready }, .take w, [])
    else if c.succeeds then (m, .createThread w (n + 1), [.start])
    else ({ m with workerState := .none }, .idle errorNotEnoughMemory, [])
  | .await w =>
    if m.workerState = .starting then (m, .await w, [])
    else if m.workerState = .ready then (m, .take w, [])
    else (m, .idle errorNotEnoughMemory, [])
  | .take w =>
    if m.submitted w = false then
      ({ m with
        submitted := Function.update m.submitted w true
        entered := Function.update m.entered w (m.entered w + 1) }, .lock w, [])
    else (m, .idle errorInvalidParameter, [])
  | .lock w =>
    if m.lock = false then ({ m with lock := true }, .clearNext w, []) else (m, .lock w, [])
  | .clearNext w => ({ m with next := Function.update m.next w none }, .link w, [])
  | .link w =>
    match m.tail with
    | some last =>
      ({ m with
        next := Function.update m.next last (some w)
        queued := m.queued ++ [w] }, .setTail w, [])
    | none => ({ m with head := some w, queued := m.queued ++ [w] }, .setTail w, [])
  | .setTail w => ({ m with tail := some w }, .unlock w, [])
  | .unlock w => ({ m with lock := false }, .release w, [])
  | .release w =>
    if c.succeeds = true ∧ m.counts m.semaphore < semaphoreMaximum then
      ({ m with
        counts := Function.update m.counts m.semaphore (m.counts m.semaphore + 1)
        accepted := Function.update m.accepted w (m.accepted w + 1) }, .idle 0, [])
    else (m, .retract w, [])
  | .retract w =>
    ({ m with submitted := Function.update m.submitted w false }, .idle errorNotEnoughMemory, [])
  | .start => (m, .wait m.semaphore, [])
  | .wait g =>
    if c.succeeds = false then (m, .start, [])
    else if 0 < m.counts g then
      ({ m with counts := Function.update m.counts g (m.counts g - 1) }, .lockQueue, [])
    else (m, .wait g, [])
  | .lockQueue =>
    if m.lock = false then ({ m with lock := true }, .first, []) else (m, .lockQueue, [])
  | .first =>
    match m.head with
    | none => (m, .leave none, [])
    | some w => (m, .pop w, [])
  | .pop w => ({ m with head := m.next w, queued := m.queued.erase w }, .trimTail w, [])
  | .trimTail w =>
    if m.head = none then ({ m with tail := none }, .detach w, []) else (m, .detach w, [])
  | .detach w => ({ m with next := Function.update m.next w none }, .leave (some w), [])
  | .leave none => ({ m with lock := false }, .start, [])
  | .leave (some w) => ({ m with lock := false }, .call w, [])
  | .call w => ({ m with invoked := Function.update m.invoked w (m.invoked w + 1) }, .finish w, [])
  | .finish w => ({ m with submitted := Function.update m.submitted w false }, .start, [])

theorem advance_created {m : PoolMemory} {c : PoolChoice} {pc : PoolPc} (pc' : PoolPc) :
    pc' ∈ (advance m c pc).2.2 → pc' = .start := by
  fun_cases advance m c pc <;> simp

/-- The memory and the threads of the process. -/
structure Pool where
  memory : PoolMemory
  threads : List PoolPc

/-- A step of thread `t`. -/
def Pool.next (s : Pool) (t : Nat) (c : PoolChoice) : Pool :=
  match s.threads[t]? with
  | none => s
  | some pc =>
    let (memory, pc, created) := advance s.memory c pc
    ⟨memory, s.threads.set t pc ++ created⟩

/-- The pool before the first submission, for whatever work items were created, in a process
with `n` threads. -/
def poolAtStart (used callback : WorkItem → Bool) (n : Nat) : Pool where
  memory :=
    { used := used
      callback := callback
      submitted := fun _ => false
      next := fun _ => none
      head := none
      tail := none
      lock := false
      workerState := .none
      semaphore := 0
      counts := fun _ => 0
      queued := []
      entered := fun _ => 0
      accepted := fun _ => 0
      invoked := fun _ => 0 }
  threads := List.replicate n (.idle 0)

def PoolStart (s : Pool) : Prop := ∃ used callback n, s = poolAtStart used callback n

/-- A step of some thread, with its number and what the step leaves open. -/
def PoolStep (s : Pool) (l : Nat × PoolChoice) (t : Pool) : Prop := t = s.next l.1 l.2

end Kernel32
