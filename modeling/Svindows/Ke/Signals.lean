import Svindows.Ke.Effects

/-!
# What happens to signals

Scheduling, waking, blocking and the clock leave every object's signal state
alone; only a satisfied wait takes from it. An all-wait takes one unit from an
object for each of its positions in the array, an any-wait one unit from the
object at the position it returns.
-/

namespace Ke

open Nt

/-- The signals of all objects and the blocked calls of all threads are the same. -/
structure Quiet (s u : KeState) : Prop where
  type : ∀ h, (u.headers h).type = (s.headers h).type
  signal : ∀ h, (u.headers h).signalState = (s.headers h).signalState
  limit : ∀ h, (u.headers h).limit = (s.headers h).limit
  frame : ∀ t, (u.threads t).frame = (s.threads t).frame

theorem Quiet.refl (s : KeState) : Quiet s s :=
  ⟨fun _ => rfl, fun _ => rfl, fun _ => rfl, fun _ => rfl⟩

variable {s u : KeState} {status : NtStatus} {objects : List HeaderRef} {waitAll : Bool}

theorem Quiet.trans {v : KeState} (first : Quiet s u) (second : Quiet u v) : Quiet s v where
  type := fun h => (second.type h).trans (first.type h)
  signal := fun h => (second.signal h).trans (first.signal h)
  limit := fun h => (second.limit h).trans (first.limit h)
  frame := fun t => (second.frame t).trans (first.frame t)

theorem Quiet.setThread (s : KeState) (t : ThreadRef) {k : KThread}
    (same : k.frame = (s.threads t).frame) : Quiet s (s.setThread t k) where
  type := fun _ => rfl
  signal := fun _ => rfl
  limit := fun _ => rfl
  frame := by
    intro u
    by_cases hu : u = t <;> simp [hu, same]

theorem Quiet.setWaitList (s : KeState) (h : HeaderRef) (waitList : List WaitBlock) :
    Quiet s (s.setHeader h { s.headers h with waitList := waitList }) where
  type := by
    intro g
    by_cases hg : g = h <;> simp [hg]
  signal := by
    intro g
    by_cases hg : g = h <;> simp [hg]
  limit := by
    intro g
    by_cases hg : g = h <;> simp [hg]
  frame := fun _ => rfl

theorem Quiet.schedule (s : KeState) : Quiet s (kiSchedule s) := by
  obtain ⟨headers, _⟩ := kiSchedule_frame s
  refine ⟨?_, ?_, ?_, ?_⟩
  · intro h
    rw [headers]
  · intro h
    rw [headers]
  · intro h
    rw [headers]
  · intro t
    have same := kiSchedule_sameWait s t
    rw [KThread.SameWait] at same
    rw [same]

theorem Quiet.unlink (s : KeState) (t : ThreadRef) : Quiet s (kiUnlinkThreadWait s t) where
  type := fun h => by rw [kiUnlinkThreadWait_headers]
  signal := fun h => by rw [kiUnlinkThreadWait_headers]
  limit := fun h => by rw [kiUnlinkThreadWait_headers]
  frame := fun u => by rw [kiUnlinkThreadWait, (unlinkBlocks_threads s t _).1]

theorem Quiet.wake (s : KeState) (t : ThreadRef) (status : NtStatus) :
    Quiet s (kiWakeWaitingThread s t status) := by
  by_cases waiting : (s.threads t).state = .waiting
  · rw [kiWakeWaitingThread_eq status waiting]
    refine ⟨fun _ => rfl, fun _ => rfl, fun _ => rfl, ?_⟩
    intro u
    by_cases hu : u = t <;> simp [hu, KThread.woken]
  · rw [kiWakeWaitingThread_other status waiting]
    exact .refl s

theorem Quiet.signalLoop (s : KeState) (h : HeaderRef) (fuel : Nat) :
    Quiet s (signalLoop h fuel s) := by
  induction fuel generalizing s with
  | zero => exact .refl s
  | succ fuel ih =>
    simp only [Ke.signalLoop]
    split
    · exact .refl s
    · exact ((Quiet.setWaitList s h _).trans (.wake _ _ _)).trans (ih _)

theorem Quiet.signalObject (s : KeState) (h : HeaderRef) : Quiet s (kiSignalObject s h) :=
  .signalLoop s h _

theorem Quiet.expire (s : KeState) (ts : List ThreadRef) : Quiet s (expireWaits s ts) := by
  induction ts generalizing s with
  | nil => exact .refl s
  | cons t ts ih =>
    simp only [expireWaits]
    split
    · exact (Quiet.wake s t statusTimeout).trans (ih _)
    · exact ih s

theorem Quiet.clockTick (s : KeState) : Quiet s (keClockTick s) := by
  have ticked : Quiet s { s with tickCount := wrap64 (s.tickCount + 1) } :=
    ⟨fun _ => rfl, fun _ => rfl, fun _ => rfl, fun _ => rfl⟩
  have expired := ticked.trans (.expire _ s.processThreads)
  have spent : ∀ u, Quiet u (spendQuantum u) := fun u => .setThread u u.current rfl
  simp only [keClockTick]
  split
  · exact (expired.trans (spent _)).trans (.schedule _)
  · exact expired.trans (spent _)

/-- Blocking changes no signal, and only the current thread's blocked call. -/
structure Blocked (s u : KeState) (f : WaitFrame) : Prop where
  type : ∀ h, (u.headers h).type = (s.headers h).type
  signal : ∀ h, (u.headers h).signalState = (s.headers h).signalState
  limit : ∀ h, (u.headers h).limit = (s.headers h).limit
  frame : ∀ t, (u.threads t).frame = if t = s.current then some f else (s.threads t).frame

theorem Quiet.armBlocks (s : KeState) (t : ThreadRef) (i : Nat) (hs : List HeaderRef) :
    Quiet s (armBlocks s t i hs) := by
  induction hs generalizing s i with
  | nil => exact .refl s
  | cons h hs ih =>
    refine Quiet.trans (.setThread s t (k := { s.threads t with
      waitObject := Function.update (s.threads t).waitObject i h }) rfl) ?_
    exact (Quiet.setWaitList _ h _).trans (ih _ _)

theorem Blocked.of_arm (s : KeState) (f : WaitFrame) :
    Blocked s (kiBlockCurrentThread (armWait s f)) f := by
  have armed := (Quiet.setThread s s.current (k := { s.threads s.current with
      waitBlockCount := f.objects.length
      waitStatus := statusPending
      waitDeadline := f.deadline }) rfl).trans (.armBlocks _ s.current 0 f.objects)
  have scheduled := Quiet.schedule (armWait s f)
  refine ⟨?_, ?_, ?_, ?_⟩
  · intro h
    exact (scheduled.type h).trans (armed.type h)
  · intro h
    exact (scheduled.signal h).trans (armed.signal h)
  · intro h
    exact (scheduled.limit h).trans (armed.limit h)
  · intro t
    refine (scheduled.frame t).trans ?_
    by_cases ht : t = s.current
    · simp [armWait, ht]
    · simp only [armWait, setThread_threads, if_neg ht]
      exact armed.frame t

/-- The units a wait on `objects` that returns `status` takes from `h`. -/
def unitsTaken (objects : List HeaderRef) (waitAll : Bool) (status : NtStatus) (h : HeaderRef) :
    Nat :=
  if status = statusTimeout ∨ ntSuccess status = false then 0
  else if waitAll then objects.count h
  else if objects[status - statusWait0]? = some h then 1 else 0

theorem kiConsumeSignal_frame (d : DispatcherHeader) :
    (kiConsumeSignal d).type = d.type ∧ (kiConsumeSignal d).limit = d.limit ∧
      (d.type = .semaphore → (kiConsumeSignal d).signalState = d.signalState - 1) := by
  simp only [kiConsumeSignal]
  split <;> simp_all

/-- Only the signal states of objects changed. -/
structure Consumed (s u : KeState) (taken : HeaderRef → Nat) : Prop where
  type : ∀ h, (u.headers h).type = (s.headers h).type
  limit : ∀ h, (u.headers h).limit = (s.headers h).limit
  signal : ∀ h, (s.headers h).type = .semaphore →
    (u.headers h).signalState = (s.headers h).signalState - taken h
  threads : u.threads = s.threads

theorem Consumed.one (s : KeState) (g : HeaderRef) :
    Consumed s (s.setHeader g (kiConsumeSignal (s.headers g))) fun h => if g = h then 1 else 0 := by
  obtain ⟨type, limit, signal⟩ := kiConsumeSignal_frame (s.headers g)
  refine ⟨?_, ?_, ?_, rfl⟩
  · intro h
    by_cases hg : h = g <;> simp [hg, type]
  · intro h
    by_cases hg : h = g <;> simp [hg, limit]
  · intro h sem
    by_cases hg : h = g
    · subst hg
      simp [signal sem]
    · simp [hg, Ne.symm hg]

theorem consumeSignals_consumed (s : KeState) (hs : List HeaderRef) :
    Consumed s (consumeSignals s hs) fun h => hs.count h := by
  induction hs generalizing s with
  | nil => exact ⟨fun _ => rfl, fun _ => rfl, fun _ _ => by simp [consumeSignals], rfl⟩
  | cons g hs ih =>
    have first := Consumed.one s g
    have rest := ih (s.setHeader g (kiConsumeSignal (s.headers g)))
    simp only [consumeSignals]
    refine ⟨?_, ?_, ?_, rest.threads.trans first.threads⟩
    · intro h
      exact (rest.type h).trans (first.type h)
    · intro h
      exact (rest.limit h).trans (first.limit h)
    · intro h sem
      rw [rest.signal h ((first.type h).trans sem), first.signal h sem, List.count_cons]
      by_cases hg : g = h
      · simp only [hg, if_true, beq_self_eq_true]
        omega
      · simp [hg]

theorem acquireAny_consumed {i : Nat} {hs : List HeaderRef}
    (taken : acquireAny s i hs = some (status, u)) :
    ∃ j h, i + j = status ∧ hs[j]? = some h ∧ kiCanAcquire (s.headers h) = true ∧
      Consumed s u fun g => if h = g then 1 else 0 := by
  induction hs generalizing i with
  | nil => exact absurd taken (by simp [acquireAny])
  | cons h hs ih =>
    simp only [acquireAny] at taken
    split at taken
    · rename_i can
      obtain ⟨rfl, rfl⟩ := Prod.mk.inj (Option.some.inj taken)
      exact ⟨0, h, Nat.add_comm _ _, by simp, can, .one s h⟩
    · obtain ⟨j, g, rfl, found, can, consumed⟩ := ih taken
      exact ⟨j + 1, g, by omega, by simpa using found, can, consumed⟩

/-- A satisfied wait takes what it should, and every object it takes from was signalled. -/
theorem tryAcquire_consumed (few : objects.length ≤ keMaximumWaitObjects)
    (taken : tryAcquire s objects waitAll = some (status, u)) :
    status ≠ statusTimeout ∧ ntSuccess status = true ∧
      Consumed s u (unitsTaken objects waitAll status) ∧
      (waitAll = true → ∀ h ∈ objects, kiCanAcquire (s.headers h) = true) ∧
      (waitAll = false → ∀ h, 0 < unitsTaken objects waitAll status h →
        kiCanAcquire (s.headers h) = true) := by
  have max : keMaximumWaitObjects = 64 := rfl
  simp only [tryAcquire] at taken
  split at taken
  · rename_i all
    split at taken
    · rename_i can
      obtain ⟨rfl, rfl⟩ := Prod.mk.inj (Option.some.inj taken)
      have units : unitsTaken objects waitAll statusWait0 = fun h => objects.count h := by
        funext h
        simp [unitsTaken, all, statusWait0, statusTimeout, ntSuccess]
      rw [units]
      refine ⟨by decide, rfl, consumeSignals_consumed s objects, ?_, ?_⟩
      · intro _
        exact List.all_eq_true.mp can
      · intro any
        exact absurd (all.symm.trans any) (by decide)
    · exact absurd taken (by simp)
  · rename_i any
    obtain ⟨j, h, rfl, found, can, consumed⟩ := acquireAny_consumed taken
    rw [Nat.zero_add]
    have bound := (List.getElem?_eq_some_iff.mp found).1
    have timely : j ≠ statusTimeout := by
      simp only [statusTimeout]
      omega
    have success : ntSuccess j = true :=
      decide_eq_true (Nat.lt_of_lt_of_le bound (few.trans (by decide)))
    have units : unitsTaken objects waitAll j = fun g => if h = g then 1 else 0 := by
      funext g
      have position : j - statusWait0 = j := Nat.sub_zero j
      simp only [unitsTaken, timely, success, any, position, found]
      simp
    rw [units]
    refine ⟨timely, success, consumed, fun all => absurd all any, ?_⟩
    intro _ g some
    by_cases hg : h = g
    · rw [← hg]
      exact can
    · simp only [if_neg hg] at some
      exact absurd some (by decide)

/-- The units taken by a wait with this result; a blocked wait has taken none. -/
def takenBy (objects : List HeaderRef) (waitAll : Bool) (result : Option NtStatus)
    (h : HeaderRef) : Nat :=
  match result with
  | some status => unitsTaken objects waitAll status h
  | none => 0

/-- A status that is not a satisfied wait's. -/
def Unsuccessful (status : NtStatus) : Prop := status = statusTimeout ∨ ntSuccess status = false

/-- What a wait has done when it returns or blocks. -/
structure WaitOutcome (s : KeState) (objects : List HeaderRef) (waitAll : Bool)
    (r : Option NtStatus × KeState) : Prop where
  type : ∀ h, (r.2.headers h).type = (s.headers h).type
  limit : ∀ h, (r.2.headers h).limit = (s.headers h).limit
  signal : ∀ h, (s.headers h).type = .semaphore →
    (r.2.headers h).signalState = (s.headers h).signalState - takenBy objects waitAll r.1 h
  ready : ∀ h, 0 < takenBy objects waitAll r.1 h →
    if waitAll then ∀ g ∈ objects, kiCanAcquire (s.headers g) = true
    else kiCanAcquire (s.headers h) = true
  nothing : (∀ status, r.1 = some status → Unsuccessful status) →
    ∀ h, (r.2.headers h).signalState = (s.headers h).signalState
  frame : ∀ t f, (r.2.threads t).frame = some f →
    (s.threads t).frame = some f ∨ f.objects = objects

theorem takenBy_unsuccessful (failed : Unsuccessful status) (h : HeaderRef) :
    takenBy objects waitAll (some status) h = 0 := if_pos failed

/-- A wait that ends without taking anything. -/
theorem WaitOutcome.of_quiet (quiet : Quiet s u) (failed : Unsuccessful status) :
    WaitOutcome s objects waitAll (some status, u) where
  type := quiet.type
  limit := quiet.limit
  signal := fun h _ => by
    rw [takenBy_unsuccessful failed, quiet.signal]
    simp
  ready := fun h some => by
    rw [takenBy_unsuccessful failed] at some
    exact absurd some (by decide)
  nothing := fun _ => quiet.signal
  frame := fun t f hf => Or.inl ((quiet.frame t).symm.trans hf)

theorem waitPass_outcome {f : WaitFrame} (few : f.objects.length ≤ keMaximumWaitObjects) :
    WaitOutcome s f.objects f.waitAll (waitPass s f) := by
  simp only [waitPass]
  cases taken : tryAcquire s f.objects f.waitAll with
  | some r =>
    obtain ⟨status, u⟩ := r
    obtain ⟨timely, success, consumed, all, any⟩ := tryAcquire_consumed few taken
    refine ⟨consumed.type, consumed.limit, consumed.signal, ?_, ?_, ?_⟩
    · intro h some
      split
      · rename_i waitAll
        exact all waitAll
      · rename_i waitAny
        exact any (Bool.eq_false_iff.mpr waitAny) h some
    · intro failed
      rcases failed status rfl with timeout | error
      · exact absurd timeout timely
      · exact absurd (error.symm.trans success) (by decide)
    · intro t g hg
      dsimp only at hg
      rw [consumed.threads] at hg
      exact Or.inl hg
  | none =>
    dsimp only
    split
    · exact .of_quiet (.refl s) (Or.inl rfl)
    · have blocked := Blocked.of_arm s f
      refine ⟨blocked.type, blocked.limit, ?_, ?_, fun _ => blocked.signal, ?_⟩
      · intro h _
        simp only [takenBy]
        rw [blocked.signal]
        simp
      · intro h some
        exact absurd some (by simp [takenBy])
      · intro t g hg
        rw [blocked.frame] at hg
        split at hg
        · exact Or.inr (by rw [Option.some.inj hg])
        · exact Or.inl hg

theorem WaitOutcome.after_quiet
    {r : Option NtStatus × KeState} (quiet : ∀ h, u.headers h = { s.headers h with
      waitList := (u.headers h).waitList })
    (frames : ∀ t f, (u.threads t).frame = some f → (s.threads t).frame = some f)
    (outcome : WaitOutcome u objects waitAll r) : WaitOutcome s objects waitAll r := by
  have type : ∀ h, (u.headers h).type = (s.headers h).type := fun h => by rw [quiet h]
  have signal : ∀ h, (u.headers h).signalState = (s.headers h).signalState :=
    fun h => by rw [quiet h]
  have limit : ∀ h, (u.headers h).limit = (s.headers h).limit := fun h => by rw [quiet h]
  have can : ∀ h, kiCanAcquire (u.headers h) = kiCanAcquire (s.headers h) := by
    intro h
    simp only [kiCanAcquire, type, signal]
  refine ⟨?_, ?_, ?_, ?_, ?_, ?_⟩
  · intro h
    exact (outcome.type h).trans (type h)
  · intro h
    exact (outcome.limit h).trans (limit h)
  · intro h sem
    rw [outcome.signal h ((type h).trans sem), signal h]
  · intro h some
    have ready := outcome.ready h some
    simp only [can] at ready
    exact ready
  · intro failed h
    exact (outcome.nothing failed h).trans (signal h)
  · intro t f hf
    rcases outcome.frame t f hf with old | new
    · exact Or.inl (frames t f old)
    · exact Or.inr new

theorem resumeWait_outcome {f : WaitFrame} (few : f.objects.length ≤ keMaximumWaitObjects) :
    WaitOutcome s f.objects f.waitAll (resumeWait s f) := by
  have unlinked := Quiet.unlink s s.current
  simp only [resumeWait]
  generalize hu : kiUnlinkThreadWait s s.current = u at unlinked
  have headers : ∀ h, (u.setThread s.current { u.threads s.current with
      waitBlockCount := 0, frame := none }).headers h =
      { s.headers h with waitList := (u.headers h).waitList } := by
    intro h
    rw [setThread_headers, ← hu, kiUnlinkThreadWait_headers]
  have frames : ∀ t g, ((u.setThread s.current { u.threads s.current with
      waitBlockCount := 0, frame := none }).threads t).frame = some g →
      (s.threads t).frame = some g := by
    intro t g hg
    by_cases ht : t = s.current
    · simp [ht] at hg
    · simp only [setThread_threads, if_neg ht] at hg
      exact (unlinked.frame t).symm.trans hg
  split
  · exact WaitOutcome.after_quiet headers frames (.of_quiet (.refl _) (Or.inl rfl))
  · exact WaitOutcome.after_quiet headers frames (waitPass_outcome few)

theorem keWaitForMultipleObjects_outcome (s : KeState) (objects : List HeaderRef) (waitAll : Bool)
    (timeoutTicks : Nat) :
    WaitOutcome s objects waitAll (keWaitForMultipleObjects s objects waitAll timeoutTicks) := by
  simp only [keWaitForMultipleObjects]
  split
  · exact .of_quiet (.refl s) (Or.inr rfl)
  · rename_i valid
    have few : objects.length ≤ keMaximumWaitObjects := by
      rw [not_or, not_lt] at valid
      exact valid.2
    exact waitPass_outcome (f := ⟨objects, waitAll, timeoutTicks, waitDeadlineOf s timeoutTicks⟩) few

/-- An all-wait that finds all its objects signalled finds a unit for each
position at which it names a semaphore. -/
def Covered (s : KeState) (objects : List HeaderRef) (waitAll : Bool) : Prop :=
  waitAll = true → (∀ g ∈ objects, kiCanAcquire (s.headers g) = true) →
    ∀ h ∈ objects, (s.headers h).type = .semaphore →
      (objects.count h : Int) ≤ (s.headers h).signalState

theorem kiCanAcquire_pos {d : DispatcherHeader} (can : kiCanAcquire d = true) :
    0 < d.signalState := by
  simp only [kiCanAcquire] at can
  split at can <;> exact of_decide_eq_true can

theorem WaitOutcome.enough
    {r : Option NtStatus × KeState} (outcome : WaitOutcome s objects waitAll r)
    (covered : Covered s objects waitAll) {h : HeaderRef}
    (sem : (s.headers h).type = .semaphore) (low : 0 ≤ (s.headers h).signalState) :
    (takenBy objects waitAll r.1 h : Int) ≤ (s.headers h).signalState := by
  by_cases none : takenBy objects waitAll r.1 h = 0
  · rw [none]
    exact low
  · have some : 0 < takenBy objects waitAll r.1 h := Nat.pos_of_ne_zero none
    have ready := outcome.ready h some
    generalize hr : r.1 = result at some ready none
    cases result with
    | none => exact absurd some (by simp [takenBy])
    | some status =>
      simp only [takenBy, unitsTaken] at some ⊢
      split at some
      · exact absurd some (by decide)
      · rename_i success
        rw [if_neg success]
        split at some
        · rename_i all
          rw [if_pos all] at ready ⊢
          have member : h ∈ objects := List.count_pos_iff.mp some
          exact covered all ready h member sem
        · rename_i any
          rw [if_neg any] at ready ⊢
          have positive := kiCanAcquire_pos ready
          split <;> omega

end Ke
