import Svindows.Ke.Timeouts
import Svindows.Ps.SemaphoreRuns

/-!
# Relative timeouts and delays

An interval is a negative count of 100 ns units, and a tick is 10 ms.
`timeout_to_ticks` rounds up, `NtDelayExecution` rounds down to at least one
tick and negates the interval as it is.
-/

namespace Ps

open Nt Ob Ke

/-- The ticks an interval takes, rounded up. -/
def intervalTicks (v : Int) : Nat := (-(v / 100000)).toNat

/-- The result of a signed operation, unless it overflows. -/
def int64 (x : Int) : Option Int := if -2 ^ 63 ≤ x ∧ x < 2 ^ 63 then some x else none

/-- The result of an unsigned operation, unless it overflows. -/
def uint64 (x : Nat) : Option Nat := if x < 2 ^ 64 then some x else none

/-- The branch of `timeout_to_ticks` for negative values, operation by operation. -/
def relativeTicks (value : Int) : Option Nat := do
  let above ← int64 (value + 1)
  let negated ← int64 (-above)
  let units ← uint64 (negated.toNat + 1)
  let rounded ← uint64 (units + 99999)
  some (rounded / 100000)

/-- The ticks `NtDelayExecution` waits for. The negation wraps at the smallest
interval and gives 2^63 all the same. -/
def delayTicks (iv : Int) : Nat :=
  let wait := (if iv < 0 then (-iv).toNat else 0) / 100000
  if wait = 0 then 1 else wait

def IsInt64 (v : Int) : Prop := -2 ^ 63 ≤ v ∧ v < 2 ^ 63

theorem int64_fits {x : Int} (range : IsInt64 x) : int64 x = some x := if_pos range

theorem uint64_fits {x : Nat} (range : x < 2 ^ 64) : uint64 x = some x := if_pos range

variable {v : Int} {ticks : Nat} {s : KeState}

theorem relativeTicks_eq (range : IsInt64 v) (negative : v < 0) :
    relativeTicks v = some (intervalTicks v) := by
  have low := range.1
  have above := int64_fits (x := v + 1) ⟨by omega, by omega⟩
  have negated := int64_fits (x := -(v + 1)) ⟨by omega, by omega⟩
  have units := uint64_fits (x := (-(v + 1)).toNat + 1) (by omega)
  have rounded := uint64_fits (x := (-(v + 1)).toNat + 1 + 99999) (by omega)
  have value : ((-(v + 1)).toNat + 1 + 99999) / 100000 = intervalTicks v := by
    simp only [intervalTicks]
    omega
  simp only [relativeTicks, Option.bind_eq_bind]
  rw [above, Option.bind_some, negated, Option.bind_some, units, Option.bind_some, rounded,
    Option.bind_some, value]

theorem timeoutToTicks_negative (s : KeState) {v : Int} (negative : v < 0) :
    timeoutToTicks s (some v) = intervalTicks v := by
  simp only [timeoutToTicks]
  rw [if_neg (by omega), if_pos negative, intervalTicks]
  omega

theorem intervalTicks_pos (negative : v < 0) : 0 < intervalTicks v := by
  simp only [intervalTicks]
  omega

theorem intervalTicks_lt (range : IsInt64 v) : intervalTicks v < infiniteTicks := by
  have low := range.1
  simp only [intervalTicks, infiniteTicks]
  omega

theorem intervalTicks_enough (v : Int) : -v ≤ (intervalTicks v : Int) * 100000 := by
  simp only [intervalTicks]
  omega

/-- Rounding down is right for intervals shorter than a tick and for whole ticks. -/
theorem delayTicks_eq_iff (negative : v < 0) :
    delayTicks v = intervalTicks v ↔ -v < 100000 ∨ 100000 ∣ v := by
  simp only [delayTicks, intervalTicks, if_pos negative]
  split <;> omega

/-- The interval of a call and the tick it began at. -/
structure Interval where
  value : Int
  began : Nat

/-- `ticks` is the number of clock ticks ever, `delaying` the `target` of a
thread inside the loop of `NtDelayExecution`, and `call` what a thread's last
timed call was given, if that was a relative time. -/
structure Timers where
  ticks : Nat
  delaying : ThreadRef → Option Nat
  call : ThreadRef → Option Interval

structure Timing where
  ps : PsState
  timers : Timers

inductive TimeOp where
  | service (op : SemOp)
  /-- `NtDelayExecution`, with the interval behind its pointer if there is one. -/
  | delay (interval : Option Int)
  /-- The loop of `NtDelayExecution` goes on. -/
  | delayed
  | create (t : ThreadRef) (termination : Option HeaderRef)
  | terminate

/-- One test of the loop of `NtDelayExecution`. -/
def delayTest (s : PsState) (delaying : ThreadRef → Option Nat) (target : Nat) :
    Option NtStatus × PsState × (ThreadRef → Option Nat) :=
  if s.ke.tickCount < target then
    (none, { s with ke := keYield s.ke }, Function.update delaying s.ke.current (some target))
  else (some statusSuccess, s, Function.update delaying s.ke.current none)

def ntDelayExecution (s : PsState) (delaying : ThreadRef → Option Nat) (interval : Option Int) :
    Option NtStatus × PsState × (ThreadRef → Option Nat) :=
  match interval with
  | none => (some statusSuccess, s, delaying)
  | some iv => delayTest s delaying (wrap64 (s.ke.tickCount + delayTicks iv))

/-- Run an operation; no status when the current thread is still inside a call. -/
def TimeOp.run (w : Timing) : TimeOp → Option NtStatus × PsState × (ThreadRef → Option Nat)
  | .service op => ((op.run w.ps).1, (op.run w.ps).2, w.timers.delaying)
  | .delay interval => ntDelayExecution w.ps w.timers.delaying interval
  | .delayed =>
    match w.timers.delaying w.ps.ke.current with
    | some target => delayTest w.ps w.timers.delaying target
    | none => (none, w.ps, w.timers.delaying)
  | .create t termination =>
    (none, { w.ps with ke := keCreateThread w.ps.ke t termination },
      Function.update w.timers.delaying t none)
  | .terminate => (none, { w.ps with ke := keTerminateThread w.ps.ke }, w.timers.delaying)

/-- The time given to the call an operation begins, if it begins a timed one. -/
def TimeOp.begins : TimeOp → Option (Option Int)
  | .service (.waitSingle _ timeout) => some timeout
  | .service (.waitMultiple _ _ _ timeout) => some timeout
  | .delay interval => some interval
  | _ => none

/-- A relative time, as it is given at a tick. -/
def relative (ticks : Nat) (time : Option Int) : Option Interval :=
  time.bind fun v => if v < 0 then some ⟨v, ticks⟩ else none

def Timing.after (w : Timing) (op : TimeOp) : Timing where
  ps := (op.run w).2.1
  timers :=
    { ticks := match op with
        | .service .clockTick => w.timers.ticks + 1
        | _ => w.timers.ticks
      delaying := (op.run w).2.2
      call := match op.begins with
        | some time =>
          Function.update w.timers.call w.ps.ke.current (relative w.timers.ticks time)
        | none => w.timers.call }

/-- A thread inside a delay can only go on with it. -/
def TimeOp.Allowed (w : Timing) : TimeOp → Prop
  | .service op => op.Allowed w.ps ∧ (op = .clockTick ∨ w.timers.delaying w.ps.ke.current = none) ∧
      ∀ v, (TimeOp.service op).begins = some (some v) → IsInt64 v
  | .delay interval => (w.ps.ke.threads w.ps.ke.current).frame = none ∧
      w.timers.delaying w.ps.ke.current = none ∧ ∀ v, interval = some v → IsInt64 v
  | .delayed => w.timers.delaying w.ps.ke.current ≠ none
  | .create t _ => t ∉ w.ps.ke.processThreads
  | .terminate => (w.ps.ke.threads w.ps.ke.current).frame = none ∧
      w.timers.delaying w.ps.ke.current = none

/-- A blocked wait that was given an interval. -/
structure FrameFor (f : WaitFrame) (i : Interval) (ticks : Nat) : Prop where
  negative : i.value < 0
  timeout : f.timeoutTicks = intervalTicks i.value
  deadline : f.deadline = wrap64 i.began + intervalTicks i.value
  began : i.began ≤ ticks

/-- The thread's wait is over when the clock says so, and not before. -/
structure OnTime (k : KThread) (f : WaitFrame) (i : Interval) (ticks : Nat) : Prop
    extends FrameFor f i ticks where
  waiting : k.state = .waiting → k.waitDeadline = f.deadline
  timedOut : k.waitStatus = statusTimeout → i.began + intervalTicks i.value ≤ ticks

structure TimersKept (s : KeState) (g : Timers) : Prop where
  clock : s.tickCount = wrap64 g.ticks
  few : ∀ t f, (s.threads t).frame = some f → f.objects.length ≤ keMaximumWaitObjects
  apart : ∀ t, g.delaying t ≠ none → (s.threads t).frame = none
  waits : ∀ t f i, (s.threads t).frame = some f → g.call t = some i →
    OnTime (s.threads t) f i g.ticks
  delays : ∀ t target i, g.delaying t = some target → g.call t = some i →
    i.began ≤ g.ticks ∧ target = wrap64 i.began + intervalTicks i.value

/-- A deadline the clock has come to lies as many ticks back. -/
theorem began_add_le {began n : Nat} (since : began ≤ ticks)
    (past : wrap64 began + n ≤ wrap64 ticks) : began + n ≤ ticks := by
  simp only [wrap64] at past
  omega

theorem OnTime.carried {k k' : KThread} {f : WaitFrame} {i : Interval}
    (h : OnTime k f i ticks) (same : Carried (wrap64 ticks) k k') : OnTime k' f i ticks where
  toFrameFor := h.toFrameFor
  waiting := by
    intro waiting
    obtain ⟨waiting, deadline⟩ := same.waiting waiting
    exact deadline.trans (h.waiting waiting)
  timedOut := by
    intro late
    rcases same.timedOut late with late | ⟨waiting, _, past⟩
    · exact h.timedOut late
    · rw [h.waiting waiting, h.deadline] at past
      exact began_add_le h.began past

theorem TimersKept.carry {u : KeState} {g : Timers} (kept : TimersKept s g)
    (carries : Carries s u) : TimersKept u g where
  clock := carries.ticks.trans kept.clock
  few := by
    intro t f frame
    rw [(carries.thread t).frame] at frame
    exact kept.few t f frame
  apart := by
    intro t inside
    rw [(carries.thread t).frame]
    exact kept.apart t inside
  waits := by
    intro t f i frame call
    have same := carries.thread t
    rw [same.frame] at frame
    rw [kept.clock] at same
    exact (kept.waits t f i frame call).carried same
  delays := kept.delays

/-- The clock moves on by one tick. -/
theorem TimersKept.tick {g : Timers} (kept : TimersKept s g) :
    TimersKept { s with tickCount := wrap64 (s.tickCount + 1) } { g with ticks := g.ticks + 1 } where
  clock := by
    show wrap64 (s.tickCount + 1) = wrap64 (g.ticks + 1)
    rw [kept.clock]
    simp only [wrap64]
    omega
  few := kept.few
  apart := kept.apart
  waits := by
    intro t f i frame call
    have h := kept.waits t f i frame call
    exact ⟨⟨h.negative, h.timeout, h.deadline, Nat.le_succ_of_le h.began⟩, h.waiting,
      fun late => Nat.le_succ_of_le (h.timedOut late)⟩
  delays := by
    intro t target i inside call
    obtain ⟨began, same⟩ := kept.delays t target i inside call
    exact ⟨Nat.le_succ_of_le began, same⟩

/-- A thread outside of timed calls may be given any interval. -/
theorem TimersKept.begin {g : Timers} (kept : TimersKept s g) {t : ThreadRef}
    (out : (s.threads t).frame = none) (idle : g.delaying t = none) (i : Option Interval) :
    TimersKept s { g with call := Function.update g.call t i } where
  clock := kept.clock
  few := kept.few
  apart := kept.apart
  waits := by
    intro u f j frame call
    have other : u ≠ t := by
      rintro rfl
      rw [out] at frame
      exact absurd frame (by simp)
    simp only [Function.update_of_ne other] at call
    exact kept.waits u f j frame call
  delays := by
    intro u target j inside call
    have other : u ≠ t := by
      rintro rfl
      have inside : g.delaying u = some target := inside
      rw [idle] at inside
      exact absurd inside (by simp)
    simp only [Function.update_of_ne other] at call
    exact kept.delays u target j inside call

/-- The pass of a wait: it blocks as it should, and it times out only when the
interval is over. -/
theorem TimersKept.pass {g : Timers} (kept : TimersKept s g) {f : WaitFrame}
    (idle : g.delaying s.current = none)
    (few : f.objects.length ≤ keMaximumWaitObjects)
    (given : ∀ i, g.call s.current = some i → FrameFor f i g.ticks) :
    TimersKept (waitPass s f).2 g ∧ ((waitPass s f).1 = some statusTimeout →
      ∀ i, g.call s.current = some i → i.began + intervalTicks i.value ≤ g.ticks) := by
  rcases waitPass_cases s few with ⟨status, u, result, carries, late⟩ |
    ⟨u, result, ticks, blocked, others⟩
  · rw [result]
    refine ⟨kept.carry carries, ?_⟩
    intro timeout i call
    have frame := given i call
    rcases late (Option.some.inj timeout) with zero | ⟨_, past⟩
    · rw [frame.timeout] at zero
      exact absurd zero (Nat.ne_of_gt (intervalTicks_pos frame.negative))
    · rw [frame.deadline, kept.clock] at past
      exact began_add_le frame.began past
  · rw [result]
    refine ⟨⟨ticks.trans kept.clock, ?_, ?_, ?_, kept.delays⟩, fun wrong => absurd wrong (by simp)⟩
    · intro t e frame
      by_cases ht : t = s.current
      · rw [ht, blocked.frame] at frame
        rw [← Option.some.inj frame]
        exact few
      · rw [(others t ht).frame] at frame
        exact kept.few t e frame
    · intro t inside
      have ht : t ≠ s.current := by
        rintro rfl
        exact inside idle
      rw [(others t ht).frame]
      exact kept.apart t inside
    · intro t e i frame call
      by_cases ht : t = s.current
      · subst ht
        rw [blocked.frame] at frame
        rw [← Option.some.inj frame]
        refine ⟨given i call, fun _ => blocked.deadline, fun wrong => ?_⟩
        rw [blocked.status] at wrong
        exact absurd wrong (by decide)
      · have same := others t ht
        rw [same.frame] at frame
        rw [kept.clock] at same
        exact (kept.waits t e i frame call).carried same

/-- The operations that neither wait nor tick. -/
def SemOp.IsPlain (op : SemOp) : Prop := ¬ op.IsWait ∧ op ≠ .clockTick

theorem createObject_carries (s : PsState) (type : TypeRef) {init : KeState → HeaderRef → KeState}
    (sets : ∀ k h, Carries k (init k h)) (block : Option ObjectRef) :
    Carries s.ke (createObject s type init block).2.2.ke := by
  simp only [createObject]
  split
  · exact sets _ _
  · exact .refl s.ke

theorem SemOp.carries (s : PsState) {op : SemOp} (plain : op.IsPlain) :
    Carries s.ke (op.run s).2.ke := by
  cases op with
  | createSemaphore writable initial limit block =>
    have sets : ∀ k h, Carries k (keInitializeSemaphore k h initial limit) :=
      fun _ _ => .of_threads rfl rfl
    simp only [SemOp.run, ntCreateSemaphore]
    split
    · exact .refl s.ke
    · split
      · exact .refl s.ke
      · exact createObject_carries s s.semaphoreType sets block
  | createEvent writable eventType initial block =>
    have sets : ∀ k h, Carries k
        (keInitializeEvent k h (decide (eventType = 0)) (decide (initial % 256 ≠ 0))) :=
      fun _ _ => .of_threads rfl rfl
    simp only [SemOp.run, ntCreateEvent]
    split
    · exact .refl s.ke
    · split <;> exact createObject_carries s s.eventType sets block
  | setEvent handle =>
    simp only [SemOp.run, ntSetEvent]
    split
    · exact .refl s.ke
    · exact .raise s.ke _ _
  | resetEvent handle =>
    simp only [SemOp.run, ntResetEvent]
    split
    · exact .refl s.ke
    · exact .of_threads rfl rfl
  | close handle => exact .refl s.ke
  | release handle units =>
    simp only [SemOp.run, ntReleaseSemaphore]
    split
    · exact .refl s.ke
    · split
      · exact .refl s.ke
      · split
        · exact .refl s.ke
        · exact .raise s.ke _ _
  | yield => exact .schedule s.ke
  | clockTick => exact absurd rfl plain.2
  | waitSingle handle timeout | waitMultiple count handles waitType timeout =>
    exact absurd trivial plain.1
  | resume => exact absurd trivial plain.1

/-- A wait fails on its arguments or comes to its first pass. -/
def FirstPass (k : KeState) (time : Option Int) (r : Option NtStatus × KeState) : Prop :=
  (∃ status, r = (some status, k) ∧ status ≠ statusTimeout) ∨
  ∃ f : WaitFrame, f.objects.length ≤ keMaximumWaitObjects ∧
    f.timeoutTicks = timeoutToTicks k time ∧
    f.deadline = waitDeadlineOf k (timeoutToTicks k time) ∧ r = waitPass k f

theorem finishWait_firstPass (s u : PsState) (objects : List ObjectRef) (hs : List HeaderRef)
    (all : Bool) (time : Option Int) :
    let r := finishWait u s.ke.current objects
      (keWaitForMultipleObjects s.ke hs all (timeoutToTicks s.ke time))
    FirstPass s.ke time (r.1, r.2.ke) := by
  intro r
  obtain ⟨result, ke, _⟩ := finishWait_spec u s.ke.current objects
    (keWaitForMultipleObjects s.ke hs all (timeoutToTicks s.ke time))
  have whole : (r.1, r.2.ke) =
      keWaitForMultipleObjects s.ke hs all (timeoutToTicks s.ke time) := Prod.ext result ke
  rw [whole, keWaitForMultipleObjects]
  split
  · exact Or.inl ⟨_, rfl, by decide⟩
  · rename_i valid
    exact Or.inr ⟨_, Nat.le_of_not_lt fun wrong => valid (Or.inr wrong), rfl, rfl, rfl⟩

theorem begins_firstPass (s : PsState) {op : SemOp} {time : Option Int}
    (begins : (TimeOp.service op).begins = some time) :
    FirstPass s.ke time ((op.run s).1, (op.run s).2.ke) := by
  have failed : ∀ {status : NtStatus}, (!ntSuccess status) = true → status ≠ statusTimeout := by
    rintro status bad rfl
    exact absurd bad (by decide)
  cases op with
  | waitSingle handle timeout =>
    obtain rfl := Option.some.inj begins
    simp only [SemOp.run, ntWaitForSingleObject]
    split
    · rename_i bad
      exact Or.inl ⟨_, rfl, failed bad⟩
    · exact finishWait_firstPass s _ _ _ _ _
  | waitMultiple count handles waitType timeout =>
    obtain rfl := Option.some.inj begins
    simp only [SemOp.run, ntWaitForMultipleObjects]
    split
    · exact Or.inl ⟨_, rfl, by decide⟩
    · cases handles with
      | none => exact Or.inl ⟨_, rfl, by decide⟩
      | some read =>
        dsimp only
        split
        · rename_i bad
          exact Or.inl ⟨_, rfl, failed bad⟩
        · exact finishWait_firstPass s _ _ _ _ _
  | _ => exact absurd begins (by simp [TimeOp.begins])

/-- A wait that goes on, after its thread has left the lists. -/
def leaveLists (k : KeState) : KeState :=
  let u := kiUnlinkThreadWait k k.current
  u.setThread k.current { u.threads k.current with waitBlockCount := 0, frame := none }

theorem resumeWait_eq (k : KeState) (f : WaitFrame) : resumeWait k f =
    if (k.threads k.current).waitStatus = statusTimeout then (some statusTimeout, leaveLists k)
    else waitPass (leaveLists k) f := by
  have threads : (kiUnlinkThreadWait k k.current).threads = k.threads :=
    (unlinkBlocks_threads k k.current _).1
  simp only [resumeWait, leaveLists, threads]

theorem TimersKept.leave {g : Timers} (kept : TimersKept s g) : TimersKept (leaveLists s) g := by
  obtain ⟨threads, _, _, _, _, ticks⟩ :=
    unlinkBlocks_threads s s.current (s.threads s.current).waitBlockCount
  have others : ∀ t, t ≠ s.current → (leaveLists s).threads t = s.threads t := by
    intro t other
    simp [leaveLists, kiUnlinkThreadWait, threads, other]
  have out : ((leaveLists s).threads s.current).frame = none := by
    simp [leaveLists]
  refine ⟨?_, ?_, ?_, ?_, kept.delays⟩
  · simp only [leaveLists, kiUnlinkThreadWait, setThread_tickCount, ticks]
    exact kept.clock
  · intro t f frame
    by_cases ht : t = s.current
    · rw [ht, out] at frame
      exact absurd frame (by simp)
    · rw [others t ht] at frame
      exact kept.few t f frame
  · intro t inside
    by_cases ht : t = s.current
    · rw [ht]
      exact out
    · rw [others t ht]
      exact kept.apart t inside
  · intro t f i frame call
    by_cases ht : t = s.current
    · rw [ht, out] at frame
      exact absurd frame (by simp)
    · rw [others t ht] at frame ⊢
      exact kept.waits t f i frame call

def TimeOp.IsDelay : TimeOp → Prop
  | .delay _ | .delayed => True
  | _ => False

/-- A call that begins counts its interval in whole ticks, rounded up, and
nothing on the way overflows. -/
def CountsTicks (w : Timing) (op : TimeOp) : Prop :=
  ∀ v, op.begins = some (some v) → v < 0 →
    (¬ op.IsDelay → relativeTicks v = some (intervalTicks v)) ∧
    (op.IsDelay → int64 (-v) = some (-v) ∧ delayTicks v = intervalTicks v) ∧
    uint64 (w.ps.ke.tickCount + intervalTicks v) = some (w.ps.ke.tickCount + intervalTicks v)

/-- The operation ends a wait by its timeout, or a delay. -/
def TimeOp.EndsCall (op : TimeOp) (status : NtStatus) : Prop :=
  match op with
  | .service op => op.IsWait ∧ status = statusTimeout
  | op => op.IsDelay

/-- A call that ends has lasted as long as its interval. -/
def EndsLate (w : Timing) (op : TimeOp) : Prop :=
  ∀ status i, (op.run w).1 = some status → op.EndsCall status →
    (w.after op).timers.call w.ps.ke.current = some i →
    -i.value ≤ (((w.after op).timers.ticks : Int) - i.began) * 100000

structure KeepsTime (w : Timing) (op : TimeOp) : Prop where
  counts : CountsTicks w op
  late : EndsLate w op

/-- An interval that begins ends before the tick count does; one for a delay is
shorter than a tick or consists of whole ticks. -/
def Measured (w : Timing) (op : TimeOp) : Prop :=
  ∀ v, op.begins = some (some v) → v < 0 →
    w.ps.ke.tickCount + intervalTicks v < 2 ^ 64 ∧ (op.IsDelay → -v < 100000 ∨ 100000 ∣ v)

/-- Nobody is inside a call. -/
structure Timing.Start (w : Timing) : Prop where
  clock : w.ps.ke.tickCount = wrap64 w.timers.ticks
  frames : ∀ t, (w.ps.ke.threads t).frame = none
  delaying : ∀ t, w.timers.delaying t = none

theorem Timing.Start.kept {w : Timing} (start : w.Start) : TimersKept w.ps.ke w.timers where
  clock := start.clock
  few := fun t f frame => absurd ((start.frames t).symm.trans frame) (by simp)
  apart := fun t _ => start.frames t
  waits := fun t f i frame => absurd ((start.frames t).symm.trans frame) (by simp)
  delays := fun t target i inside => absurd ((start.delaying t).symm.trans inside) (by simp)

theorem begins_int64 {w : Timing} {op : TimeOp} (allowed : op.Allowed w) {v : Int}
    (begins : op.begins = some (some v)) : IsInt64 v := by
  cases op with
  | service op => exact allowed.2.2 v begins
  | delay interval => exact allowed.2.2 v (Option.some.inj begins)
  | _ => exact absurd begins (by simp [TimeOp.begins])

theorem countsTicks_iff {w : Timing} {op : TimeOp} (allowed : op.Allowed w) :
    CountsTicks w op ↔ Measured w op := by
  refine forall_congr' fun v => forall₂_congr fun begins negative => ?_
  have range := begins_int64 allowed begins
  have fits : uint64 (w.ps.ke.tickCount + intervalTicks v) =
      some (w.ps.ke.tickCount + intervalTicks v) ↔
      w.ps.ke.tickCount + intervalTicks v < 2 ^ 64 := by
    simp only [uint64]
    split <;> simp_all
  rw [fits]
  constructor
  · rintro ⟨_, delay, room⟩
    exact ⟨room, fun isDelay => (delayTicks_eq_iff negative).mp (delay isDelay).2⟩
  · rintro ⟨room, whole⟩
    refine ⟨fun _ => relativeTicks_eq range negative, fun isDelay => ?_, room⟩
    have whole := whole isDelay
    have low := range.1
    refine ⟨int64_fits ⟨by omega, ?_⟩, (delayTicks_eq_iff negative).mpr whole⟩
    -- 2^63 is not a multiple of 100000
    omega

/-- What an interval that has been over for some time comes to in 100 ns. -/
theorem interval_over {i : Interval} (past : i.began + intervalTicks i.value ≤ ticks) :
    -i.value ≤ ((ticks : Int) - i.began) * 100000 := by
  have enough := intervalTicks_enough i.value
  omega

theorem relative_some {time : Option Int} {i : Interval} (given : relative ticks time = some i) :
    time = some i.value ∧ i.value < 0 ∧ i.began = ticks := by
  simp only [relative, Option.bind_eq_some_iff] at given
  obtain ⟨v, rfl, given⟩ := given
  split at given
  · obtain rfl := Option.some.inj given
    exact ⟨rfl, ‹_›, rfl⟩
  · exact absurd given (by simp)

/-- A thread enters the loop of a delay or leaves it. -/
theorem TimersKept.setDelaying {g : Timers} (kept : TimersKept s g) {t : ThreadRef}
    {x : Option Nat} (out : x ≠ none → (s.threads t).frame = none)
    (given : ∀ target i, x = some target → g.call t = some i →
      i.began ≤ g.ticks ∧ target = wrap64 i.began + intervalTicks i.value) :
    TimersKept s { g with delaying := Function.update g.delaying t x } where
  clock := kept.clock
  few := kept.few
  apart := by
    intro u inside
    by_cases hu : u = t
    · rw [hu] at inside ⊢
      simp only [Function.update_self] at inside
      exact out inside
    · simp only [Function.update_of_ne hu] at inside
      exact kept.apart u inside
  waits := kept.waits
  delays := by
    intro u target i inside call
    by_cases hu : u = t
    · subst hu
      simp only [Function.update_self] at inside
      exact given target i inside call
    · simp only [Function.update_of_ne hu] at inside
      exact kept.delays u target i inside call

theorem TimersKept.testDelay {s : PsState} {g : Timers} (kept : TimersKept s.ke g) {target : Nat}
    (out : (s.ke.threads s.ke.current).frame = none)
    (given : ∀ i, g.call s.ke.current = some i →
      i.began ≤ g.ticks ∧ target = wrap64 i.began + intervalTicks i.value) :
    let r := delayTest s g.delaying target
    TimersKept r.2.1.ke { g with delaying := r.2.2 } ∧ (∀ status, r.1 = some status →
      ∀ i, g.call s.ke.current = some i → i.began + intervalTicks i.value ≤ g.ticks) := by
  intro r
  simp only [r, delayTest]
  split
  · refine ⟨?_, fun status wrong => absurd wrong (by simp)⟩
    refine TimersKept.carry (kept.setDelaying (fun _ => out) ?_) (.schedule s.ke)
    intro other i same call
    rw [← Option.some.inj same]
    exact given i call
  · rename_i past
    refine ⟨kept.setDelaying (fun wrong => absurd rfl wrong)
      (fun _ _ wrong => absurd wrong (by simp)), fun _ _ i call => ?_⟩
    obtain ⟨began, same⟩ := given i call
    rw [same, kept.clock] at past
    exact began_add_le began (Nat.le_of_not_lt past)

theorem TimersKept.create {g : Timers} (kept : TimersKept s g) (t : ThreadRef)
    (termination : Option HeaderRef) :
    TimersKept (keCreateThread s t termination)
      { g with delaying := Function.update g.delaying t none } := by
  have others : ∀ u, u ≠ t → (keCreateThread s t termination).threads u = s.threads u := by
    intro u hu
    simp [keCreateThread, hu]
  have new : ((keCreateThread s t termination).threads t).frame = none := by
    simp [keCreateThread, KThread.zero]
  refine ⟨kept.clock, ?_, ?_, ?_, ?_⟩
  · intro u f frame
    by_cases hu : u = t
    · rw [hu, new] at frame
      exact absurd frame (by simp)
    · rw [others u hu] at frame
      exact kept.few u f frame
  · intro u inside
    by_cases hu : u = t
    · rw [hu]
      exact new
    · rw [others u hu]
      simp only [Function.update_of_ne hu] at inside
      exact kept.apart u inside
  · intro u f i frame call
    by_cases hu : u = t
    · rw [hu, new] at frame
      exact absurd frame (by simp)
    · rw [others u hu] at frame ⊢
      exact kept.waits u f i frame call
  · intro u target i inside call
    by_cases hu : u = t
    · rw [hu] at inside
      simp at inside
    · simp only [Function.update_of_ne hu] at inside
      exact kept.delays u target i inside call

/-- The timers once a thread has begun a timed call. -/
def Timers.given (g : Timers) (t : ThreadRef) (time : Option Int) : Timers :=
  { g with call := Function.update g.call t (relative g.ticks time) }

theorem TimersKept.beginWait {s : PsState} {g : Timers} (kept : TimersKept s.ke g)
    {time : Option Int} {r : Option NtStatus × KeState} (pass : FirstPass s.ke time r)
    (out : (s.ke.threads s.ke.current).frame = none) (idle : g.delaying s.ke.current = none)
    (range : ∀ v, time = some v → IsInt64 v)
    (room : ∀ v, time = some v → v < 0 → s.ke.tickCount + intervalTicks v < 2 ^ 64) :
    TimersKept r.2 (g.given s.ke.current time) ∧ (r.1 = some statusTimeout →
      ∀ i, (g.given s.ke.current time).call s.ke.current = some i →
        i.began + intervalTicks i.value ≤ g.ticks) := by
  have begun : TimersKept s.ke (g.given s.ke.current time) := kept.begin out idle _
  rcases pass with ⟨status, rfl, other⟩ | ⟨f, few, timeout, deadline, rfl⟩
  · exact ⟨begun, fun wrong => absurd (Option.some.inj wrong) other⟩
  · refine begun.pass idle few ?_
    intro i call
    have call : relative g.ticks time = some i := by simpa [Timers.given] using call
    obtain ⟨rfl, negative, began⟩ := relative_some call
    have ticks := timeoutToTicks_negative s.ke negative
    have finite := Nat.ne_of_lt (intervalTicks_lt (range _ rfl))
    have room := room _ rfl negative
    refine ⟨negative, timeout.trans ticks, ?_, began.le⟩
    rw [deadline, ticks, waitDeadlineOf, if_neg finite, began, ← kept.clock, wrap64,
      Nat.mod_eq_of_lt room]

/-- A wait that goes on. -/
theorem TimersKept.resume {g : Timers} (kept : TimersKept s g) {f : WaitFrame}
    (inside : (s.threads s.current).frame = some f) :
    TimersKept (resumeWait s f).2 g ∧ ((resumeWait s f).1 = some statusTimeout →
      ∀ i, g.call s.current = some i → i.began + intervalTicks i.value ≤ g.ticks) := by
  have left := kept.leave
  have current : (leaveLists s).current = s.current :=
    (unlinkBlocks_threads s s.current (s.threads s.current).waitBlockCount).2.2.1
  have idle : g.delaying (leaveLists s).current = none := by
    rw [current]
    by_contra delaying
    rw [kept.apart _ delaying] at inside
    exact absurd inside (by simp)
  rw [resumeWait_eq]
  split
  · rename_i late
    exact ⟨left, fun _ i call => (kept.waits _ f i inside call).timedOut late⟩
  · have pass := left.pass idle (kept.few _ f inside)
    rw [current] at pass
    exact pass fun i call => (kept.waits _ f i inside call).toFrameFor

theorem TimersKept.service {w : Timing} {op : SemOp} (kept : TimersKept w.ps.ke w.timers)
    (allowed : (TimeOp.service op).Allowed w) (measured : Measured w (.service op)) :
    TimersKept (w.after (.service op)).ps.ke (w.after (.service op)).timers ∧
      EndsLate w (.service op) := by
  have begin : ∀ time, (TimeOp.service op).begins = some time → op ≠ .clockTick →
      (w.ps.ke.threads w.ps.ke.current).frame = none →
      TimersKept (op.run w.ps).2.ke (w.timers.given w.ps.ke.current time) ∧
      ((op.run w.ps).1 = some statusTimeout →
        ∀ i, (w.timers.given w.ps.ke.current time).call w.ps.ke.current = some i →
          i.began + intervalTicks i.value ≤ w.timers.ticks) := by
    intro time begins other out
    exact kept.beginWait (begins_firstPass w.ps begins) out (allowed.2.1.resolve_left other)
      (fun v same => allowed.2.2 v (by rw [begins, same]))
      (fun v same negative => (measured v (by rw [begins, same]) negative).1)
  have plain : op.IsPlain → (w.after (.service op)).timers = w.timers →
      TimersKept (w.after (.service op)).ps.ke (w.after (.service op)).timers ∧
      EndsLate w (.service op) := by
    intro isPlain same
    rw [same]
    exact ⟨kept.carry (op.carries w.ps isPlain), fun _ _ _ ends => absurd ends.1 isPlain.1⟩
  cases op with
  | waitSingle handle timeout =>
    obtain ⟨still, late⟩ := begin timeout rfl (by simp) allowed.1
    exact ⟨still, fun status i result ends call => interval_over (late (by
      rw [← ends.2]
      exact result) i call)⟩
  | waitMultiple count handles waitType timeout =>
    obtain ⟨still, late⟩ := begin timeout rfl (by simp) allowed.1
    exact ⟨still, fun status i result ends call => interval_over (late (by
      rw [← ends.2]
      exact result) i call)⟩
  | resume =>
    cases inside : (w.ps.ke.threads w.ps.ke.current).frame with
    | none => exact absurd inside allowed.1
    | some f =>
      obtain ⟨still, late⟩ := kept.resume inside
      obtain ⟨result, ke, _⟩ := finishWait_spec w.ps w.ps.ke.current
        (w.ps.pending w.ps.ke.current) (resumeWait w.ps.ke f)
      have run : SemOp.run w.ps .resume = resumeService w.ps f := by
        simp only [SemOp.run, inside]
      have state : (w.after (.service .resume)).ps.ke = (resumeWait w.ps.ke f).2 := by
        simp only [Timing.after, TimeOp.run, run]
        exact ke
      refine ⟨by rw [state]; exact still, ?_⟩
      intro status i ended ends call
      refine interval_over (late ?_ i call)
      rw [← result, ← ends.2, ← ended]
      simp only [TimeOp.run, run]
      rfl
  | clockTick =>
    exact ⟨kept.tick.carry (.clockTick w.ps.ke), fun _ _ _ ends => absurd ends.1 (by
      simp [SemOp.IsWait])⟩
  | _ => exact plain ⟨by simp [SemOp.IsWait], by simp⟩ rfl

theorem TimersKept.step {w : Timing} {op : TimeOp} (kept : TimersKept w.ps.ke w.timers)
    (allowed : op.Allowed w) (measured : Measured w op) :
    TimersKept (w.after op).ps.ke (w.after op).timers ∧ EndsLate w op := by
  cases op with
  | service op => exact kept.service allowed measured
  | delay interval =>
    obtain ⟨out, idle, range⟩ := allowed
    have begun : TimersKept w.ps.ke (w.timers.given w.ps.ke.current interval) :=
      kept.begin out idle _
    cases interval with
    | none =>
      refine ⟨begun, fun status i _ _ call => ?_⟩
      simp [Timing.after, TimeOp.begins, relative] at call
    | some v =>
      have target : ∀ i, (w.timers.given w.ps.ke.current (some v)).call w.ps.ke.current = some i →
          i.began ≤ w.timers.ticks ∧ wrap64 (w.ps.ke.tickCount + delayTicks v) =
            wrap64 i.began + intervalTicks i.value := by
        intro i call
        have call : relative w.timers.ticks (some v) = some i := by
          simpa [Timers.given] using call
        obtain ⟨same, negative, began⟩ := relative_some call
        obtain rfl := Option.some.inj same
        obtain ⟨room, whole⟩ := measured i.value rfl negative
        refine ⟨began.le, ?_⟩
        rw [(delayTicks_eq_iff negative).mpr (whole trivial), began, ← kept.clock, wrap64,
          Nat.mod_eq_of_lt room]
      obtain ⟨still, late⟩ := begun.testDelay out target
      exact ⟨still, fun status i ended _ call => interval_over (late status ended i call)⟩
  | delayed =>
    cases inside : w.timers.delaying w.ps.ke.current with
    | none => exact absurd inside allowed
    | some target =>
      have out := kept.apart w.ps.ke.current (by simp [inside])
      obtain ⟨still, late⟩ := kept.testDelay out
        fun i call => kept.delays _ target i inside call
      have run : TimeOp.run w .delayed = delayTest w.ps w.timers.delaying target := by
        simp only [TimeOp.run, inside]
      refine ⟨?_, fun status i ended _ call => ?_⟩
      · simp only [Timing.after, run]
        exact still
      · rw [run] at ended
        exact interval_over (late status ended i call)
  | create t termination =>
    exact ⟨kept.create t termination, fun _ _ wrong => absurd wrong (by simp [TimeOp.run])⟩
  | terminate =>
    exact ⟨kept.carry (.terminate w.ps.ke), fun _ _ wrong => absurd wrong (by simp [TimeOp.run])⟩

/-- In every run all relative times are counted right, without overflow, and
none is over too early if and only if every time that is given ends before the
tick count does and no delay of more than a tick has a part of a tick. -/
theorem relative_times_kept_iff {w : Timing} {ops : List TimeOp} (start : w.Start)
    (allowed : Runs.Along Timing.after (fun w op => op.Allowed w) w ops) :
    Runs.Along Timing.after KeepsTime w ops ↔ Runs.Along Timing.after Measured w ops := by
  refine Runs.along_congr (I := fun w => TimersKept w.ps.ke w.timers) ?_ ?_ start.kept allowed
  · intro u op kept issued keeps
    exact (kept.step issued ((countsTicks_iff issued).mp keeps.counts)).1
  · intro u op kept issued
    rw [← countsTicks_iff issued]
    refine ⟨KeepsTime.counts, fun counts => ⟨counts, ?_⟩⟩
    exact (kept.step issued ((countsTicks_iff issued).mp counts)).2

/-- One thread runs, at tick 0. -/
def freshTiming : Timing := ⟨oneThread.ps, ⟨0, fun _ => none, fun _ => none⟩⟩

theorem freshTiming_start : freshTiming.Start where
  clock := by decide
  frames := oneThread_start.frames
  delaying := fun _ => rfl

/-- A delay of a tick, and the clock ticks. -/
theorem relative_times_kept_one_tick :
    Runs.Along Timing.after KeepsTime freshTiming
      [.delay (some (-100000)), .service .clockTick] := by
  have allowed : Runs.Along Timing.after (fun w op => op.Allowed w) freshTiming
      [.delay (some (-100000)), .service .clockTick] := by
    refine ⟨⟨freshTiming_start.frames _, rfl, ?_⟩, ⟨trivial, Or.inl rfl, ?_⟩, trivial⟩
    · rintro v same
      obtain rfl := Option.some.inj same
      exact ⟨by decide, by decide⟩
    · intro v begins
      exact absurd begins (by simp [TimeOp.begins])
  refine (relative_times_kept_iff freshTiming_start allowed).mpr ⟨?_, ?_, trivial⟩
  · intro v begins _
    obtain rfl := Option.some.inj (Option.some.inj begins)
    exact ⟨by decide, fun _ => Or.inr (by decide)⟩
  · intro v begins
    exact absurd begins (by simp [TimeOp.begins])

/-- A delay of one tick and a half begins at tick 0; the clock ticks, the thread
gets the processor back, and the call returns at tick 1. -/
theorem delay_over_too_early : ∃ w ops, Timing.Start w ∧
    Runs.Along Timing.after (fun w op => op.Allowed w) w ops ∧
    ¬ Runs.Along Timing.after KeepsTime w ops := by
  refine ⟨freshTiming, [.delay (some (-150000)), .service .clockTick, .service .yield, .delayed],
    freshTiming_start, ⟨⟨freshTiming_start.frames _, rfl, ?_⟩, ⟨trivial, Or.inl rfl, ?_⟩,
    ⟨trivial, Or.inr ?_, ?_⟩, ?_, trivial⟩, ?_⟩
  · rintro v same
    obtain rfl := Option.some.inj same
    exact ⟨by decide, by decide⟩
  · intro v begins
    exact absurd begins (by simp [TimeOp.begins])
  · decide +kernel
  · intro v begins
    exact absurd begins (by simp [TimeOp.begins])
  · show _ ≠ none
    decide +kernel
  · rintro ⟨_, _, _, last, _⟩
    have past := last.late statusSuccess ⟨-150000, 0⟩ (by decide +kernel) trivial rfl
    exact absurd past (by decide +kernel)

end Ps
