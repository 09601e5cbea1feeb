import Svindows.Lib.Runs
import Svindows.Ps.Semaphores

/-!
# Signal conservation for semaphores

In every run in which all-waits are covered, the count of a semaphore stays
between 0 and its limit and accounts for every unit released and taken. An
all-wait that names a semaphore twice and finds a single unit breaks the range.
-/

namespace Ps

open Nt Ob Ke

structure Audit.Start (w : Audit) : Prop where
  ledger : ∀ h, w.ledger h = none
  frames : ∀ t, (w.ps.ke.threads t).frame = none
  semaphoreType : w.ps.semaphoreType ≠ 0
  eventType : w.ps.eventType ≠ 0
  distinct : w.ps.eventType ≠ w.ps.semaphoreType

def Audit.Step (w : Audit) (op : SemOp) (u : Audit) : Prop := op.Allowed w.ps ∧ u = w.after op

/-- A step whose test, if it is a satisfied all-wait, finds enough units. -/
def Audit.CoveredStep (w : Audit) (op : SemOp) (u : Audit) : Prop :=
  w.Step op u ∧ ∀ objects waitAll, op.tests w.ps = some (objects, waitAll) →
    Covered w.ps.ke objects waitAll

theorem Audit.Start.books {w : Audit} (start : w.Start) : Books w where
  balanced := fun h L hL => absurd ((start.ledger h).symm.trans hL) (by simp)
  frames := fun t f hf => absurd ((start.frames t).symm.trans hf) (by simp)
  semaphoreType := start.semaphoreType
  eventType := start.eventType
  distinct := start.distinct

theorem Books.step {w u : Audit} {op : SemOp} (books : Books w) (step : w.CoveredStep op u) :
    Books u := by
  obtain ⟨⟨allowed, rfl⟩, covered⟩ := step
  cases op with
  | createSemaphore writable initial limit block =>
    exact books.createSemaphore writable initial limit block allowed.2.2.1.2
  | createEvent writable eventType initial block =>
    exact books.createEvent writable eventType initial block
  | setEvent handle => exact (books.changeEvent handle).1
  | resetEvent handle => exact (books.changeEvent handle).2
  | close handle => exact books.quiet (.refl _) (.close _ handle) rfl rfl
  | release handle units => exact books.release handle units allowed.2.2
  | waitSingle handle timeout => exact books.waitSingle handle timeout
  | waitMultiple count handles waitType timeout =>
    exact books.waitMultiple count handles waitType timeout covered
  | resume => exact books.resume covered
  | clockTick => exact books.quiet (.clockTick _) (.refl _) rfl rfl
  | yield => exact books.quiet (.schedule _) (.refl _) rfl rfl

/-- The wait services, and the rest of one that has blocked. -/
def SemOp.IsWait : SemOp → Prop
  | .waitSingle .. | .waitMultiple .. | .resume => True
  | _ => False

theorem Books.wait_takes_nothing {w : Audit} (books : Books w) {op : SemOp} (isWait : op.IsWait)
    {status : NtStatus} (ended : (op.run w.ps).1 = some status) (failed : Unsuccessful status)
    (h : HeaderRef) :
    ((op.run w.ps).2.ke.headers h).signalState = (w.ps.ke.headers h).signalState := by
  have nothing : ∀ {s : PsState} {t : ThreadRef} {referenced : List ObjectRef}
      {objects : List HeaderRef} {waitAll : Bool} {r : Option NtStatus × KeState},
      WaitOutcome w.ps.ke objects waitAll r → (Ps.finishWait s t referenced r).1 = some status →
      ((Ps.finishWait s t referenced r).2.ke.headers h).signalState =
        (w.ps.ke.headers h).signalState := by
    intro s t referenced objects waitAll r outcome result
    obtain ⟨same, ke, _⟩ := finishWait_spec s t referenced r
    rw [ke]
    refine outcome.nothing ?_ h
    intro other hr
    rw [same, hr] at result
    rw [Option.some.inj result]
    exact failed
  cases op with
  | waitSingle handle timeout =>
    simp only [SemOp.run, ntWaitForSingleObject] at ended ⊢
    split
    · rfl
    · rename_i success
      rw [if_neg success] at ended
      exact nothing (keWaitForMultipleObjects_outcome _ _ _ _) ended
  | waitMultiple count handles waitType timeout =>
    simp only [SemOp.run, ntWaitForMultipleObjects] at ended ⊢
    split
    · rfl
    · rename_i valid
      rw [if_neg valid] at ended
      cases handles with
      | none => rfl
      | some read =>
        dsimp only at ended ⊢
        split
        · rfl
        · rename_i success
          rw [if_neg success] at ended
          exact nothing (keWaitForMultipleObjects_outcome _ _ _ _) ended
  | resume =>
    simp only [SemOp.run] at ended ⊢
    cases frame : (w.ps.ke.threads w.ps.ke.current).frame with
    | none => rfl
    | some f =>
      simp only [frame, resumeService] at ended ⊢
      exact nothing (resumeWait_outcome (books.frames _ f frame)) ended
  | _ => exact absurd isWait (by simp [SemOp.IsWait])

/-- A refused release changes nothing, as long as reference counts are right. -/
theorem ntReleaseSemaphore_refused {s : PsState} {handle : Nat} {release : Int}
    (refused : (ntReleaseSemaphore s handle release).1 ≠ statusSuccess)
    {world : World} (same : world.ob = s.ob) (counted : WellCounted world) :
    (ntReleaseSemaphore s handle release).2 = s := by
  simp only [ntReleaseSemaphore] at refused ⊢
  split
  · rfl
  · rename_i positive
    rw [if_neg positive] at refused
    cases index : handleToIndex handle with
    | none => simp [obReferenceObjectByHandle, index, ntSuccess, statusInvalidHandle]
    | some i =>
      have hi := (handleToIndex_some.mp index).1
      simp only [obReferenceObjectByHandle, index] at refused ⊢
      by_cases vacant : 1 = 0 ∨ (s.ob.handles i).object = 0
      · simp only [if_pos vacant]
        rfl
      · simp only [if_neg vacant] at refused ⊢
        by_cases other : s.semaphoreType ≠ 0 ∧
            (s.ob.headers (s.ob.handles i).object).type ≠ s.semaphoreType
        · simp only [if_pos other]
          rfl
        · simp only [if_neg other] at refused ⊢
          split at refused
          · rename_i denied
            simp only [if_pos denied]
            rfl
          · rename_i granted
            simp only [if_neg granted]
            have used : (world.ob.handles i).object ≠ 0 := by
              rw [same]
              exact fun h => vacant (Or.inr h)
            have back := counted.dereference_reference hi used
            rw [same] at back
            have good : ntSuccess statusSuccess = true := rfl
            simp only [good, Bool.not_true, Bool.false_eq_true, if_false] at refused ⊢
            split
            · rw [back]
            · rename_i accepted
              rw [if_neg accepted] at refused
              exact absurd rfl refused

/-- Signal conservation. -/
structure Conserved (w : Audit) : Prop where
  range : ∀ h L, w.ledger h = some L → (w.ps.ke.headers h).limit = L.limit ∧
    0 ≤ (w.ps.ke.headers h).signalState ∧ (w.ps.ke.headers h).signalState ≤ L.limit
  books : ∀ h L, w.ledger h = some L →
    L.initial + L.released = (w.ps.ke.headers h).signalState + L.consumed
  unsatisfied : ∀ op : SemOp, op.IsWait → ∀ status, (op.run w.ps).1 = some status →
    Unsuccessful status → ∀ h,
      ((op.run w.ps).2.ke.headers h).signalState = (w.ps.ke.headers h).signalState
  refused : ∀ handle release, (ntReleaseSemaphore w.ps handle release).1 ≠ statusSuccess →
    (ntReleaseSemaphore w.ps handle release).2.ke = w.ps.ke ∧
    ∀ world : World, world.ob = w.ps.ob → WellCounted world →
      (ntReleaseSemaphore w.ps handle release).2 = w.ps

/-- In every run in which a satisfied all-wait finds a unit for each position at
which it names a semaphore, signals are conserved. -/
theorem semaphore_conservation {w : Audit} (run : Runs.Reachable Audit.Start Audit.CoveredStep w) :
    Conserved w := by
  have books : Books w := run.invariant (fun _ start => start.books)
    (fun _ _ _ books step => books.step step)
  refine ⟨?_, ?_, ?_, ?_⟩
  · intro h L hL
    have b := books.balanced h L hL
    exact ⟨b.limit, b.low, b.high⟩
  · intro h L hL
    exact (books.balanced h L hL).books
  · intro op isWait status ended failed h
    exact books.wait_takes_nothing isWait ended failed h
  · intro handle release refused
    refine ⟨?_, fun world same counted => ntReleaseSemaphore_refused refused same counted⟩
    obtain ⟨_, _, _, ⟨_, ke⟩ | ⟨success, _⟩⟩ := ntReleaseSemaphore_cases w.ps handle release
    · exact ke
    · exact absurd success refused

/-- One thread runs and no semaphore exists. -/
def oneThread : Audit where
  ps :=
    { ke := keYield (keCreateThread
        (keInitializeScheduler fun _ => ⟨.eventNotification, 0, 0, []⟩) 1 none)
      ob := bootWorld.ob
      eventType := 2
      threadType := 3
      semaphoreType := 4
      pending := fun _ => [] }
  ledger := fun _ => none

/-- A semaphore is made with the counts given, as the object behind handle 4. -/
def withSemaphore (initial limit : Int) : Audit :=
  oneThread.after (.createSemaphore true initial limit (some (mmKernelHeapBase + 4096)))

theorem oneThread_start : oneThread.Start where
  ledger := fun _ => rfl
  frames := by
    intro t
    simp only [oneThread, keYield]
    rw [(Quiet.schedule _).frame t]
    by_cases h1 : t = 1
    · simp [h1, keCreateThread, KThread.zero]
    · by_cases h0 : t = 0 <;>
        simp [h1, h0, keCreateThread, keInitializeScheduler, idleThread, KThread.zero]
  semaphoreType := by decide
  eventType := by decide
  distinct := by decide

theorem withSemaphore_step {initial limit : Int} (hi : IsLong initial) (hl : IsLong limit) :
    oneThread.Step (.createSemaphore true initial limit (some (mmKernelHeapBase + 4096)))
      (withSemaphore initial limit) := by
  refine ⟨⟨oneThread_start.frames _, hi, hl, ?_⟩, rfl⟩
  intro o ho
  obtain rfl := Option.some.inj ho
  decide

/-- A unit is released and another taken by a wait. -/
theorem semaphore_conservation_one_wait :
    (((withSemaphore 1 2).after (.release 4 1)).after (.waitSingle 4 none)).ledger
        (mmKernelHeapBase + 4096) = some ⟨1, 2, 1, 1⟩ ∧
      Conserved (((withSemaphore 1 2).after (.release 4 1)).after (.waitSingle 4 none)) := by
  refine ⟨by decide +kernel, semaphore_conservation ?_⟩
  have start : Runs.Reachable Audit.Start Audit.CoveredStep oneThread := .of_initial oneThread_start
  have made : oneThread.CoveredStep _ (withSemaphore 1 2) :=
    ⟨withSemaphore_step ⟨by decide, by decide⟩ ⟨by decide, by decide⟩,
      fun _ _ tests => absurd tests (by simp [SemOp.tests])⟩
  have released : (withSemaphore 1 2).CoveredStep (.release 4 1)
      ((withSemaphore 1 2).after (.release 4 1)) :=
    ⟨⟨⟨by decide +kernel, by decide, by decide⟩, rfl⟩,
      fun _ _ tests => absurd tests (by simp [SemOp.tests])⟩
  refine ((start.next made).next released).next (l := .waitSingle 4 none) ⟨⟨?_, rfl⟩, ?_⟩
  · change _ = _
    decide +kernel
  · intro objects waitAll tests all
    simp only [SemOp.tests] at tests
    split at tests
    · rw [← (Prod.mk.inj (Option.some.inj tests)).2] at all
      exact absurd all (by decide)
    · exact absurd tests (by simp)

/-- An all-wait that names a semaphore twice takes two units where there is one. -/
theorem all_wait_takes_more_than_there_is :
    ¬ ∀ w, Runs.Reachable Audit.Start Audit.Step w → Conserved w := by
  intro claim
  have start : Runs.Reachable Audit.Start Audit.Step oneThread := .of_initial oneThread_start
  have made : oneThread.Step _ (withSemaphore 1 1) :=
    withSemaphore_step ⟨by decide, by decide⟩ ⟨by decide, by decide⟩
  have waited : (withSemaphore 1 1).Step (.waitMultiple 2 (some fun _ => 4) 0 (some 0))
      ((withSemaphore 1 1).after (.waitMultiple 2 (some fun _ => 4) 0 (some 0))) := by
    refine ⟨?_, rfl⟩
    change _ = _
    decide +kernel
  have range := (claim _ ((start.next made).next waited)).range (mmKernelHeapBase + 4096)
    ⟨1, 1, 0, 2⟩ (by decide +kernel)
  have count : (((withSemaphore 1 1).after (.waitMultiple 2 (some fun _ => 4) 0
      (some 0))).ps.ke.headers (mmKernelHeapBase + 4096)).signalState = -1 := by decide +kernel
  rw [count] at range
  omega

end Ps
