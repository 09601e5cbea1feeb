import Mathlib.Logic.Function.Basic
import Svindows.Lib.Threads

/-!
# Timer queues

Each timer has a thread of its own. It calls back once for each period until the timer is
stopped, and then once more to say that it is done. `DeleteTimerQueueTimer` stops a timer and, if
asked to, waits for its thread. A timer is never freed, so that its number is its address.
-/

namespace Kernel32

open Threads

abbrev TimerRef := Nat

/-- `TIMERQ_K`. -/
structure Timer where
  callback : Nat
  param : Nat
  due : Nat
  period : Nat
  stop : Bool

/-- A call that a timer has made. -/
structure TimerCall where
  timer : TimerRef
  callback : Nat
  param : Nat
  fired : Bool
  deriving DecidableEq

/-- `calls` are all calls, the last one first; `joined` are the timers whose thread a deletion
has waited for, `changed` those that `ChangeTimerQueueTimer` was called on. -/
structure TimerMemory where
  timers : TimerRef → Timer
  made : Nat
  published : TimerRef → Bool
  ended : TimerRef → Bool
  joined : TimerRef → Bool
  changed : TimerRef → Bool
  calls : List TimerCall

/-- Where a thread is in the calls it makes. -/
inductive TimerUse where
  | idle
  | createThread (t : TimerRef)
  | publish (t : TimerRef)
  | setStop (t : TimerRef) (wait : Bool)
  | join (t : TimerRef)
  | setDue (t : TimerRef) (due period : Nat)
  | setPeriod (t : TimerRef) (period : Nat)
  deriving DecidableEq

/-- A thread runs its own code, or that of a callback of a timer; the other places are
`timerq_thread`. -/
inductive TimerPc where
  | user (inside : Option (TimerRef × Bool)) (use : TimerUse)
  | due (t : TimerRef)
  | test (t : TimerRef)
  | call (t : TimerRef)
  | period (t : TimerRef)
  | final (t : TimerRef)
  | exit (t : TimerRef)
  | gone
  deriving DecidableEq

inductive TimerRequest where
  | create (out : Bool) (callback param due period : Nat)
  | delete (timer : Option TimerRef) (wait : Bool)
  | change (timer : Option TimerRef) (due period : Nat)
  /-- The callback returns. -/
  | return

/-- What a step leaves open: what is called, and whether an allocation or a new thread is granted. -/
structure TimerChoice where
  request : TimerRequest
  succeeds : Bool

def TimerMemory.setTimer (m : TimerMemory) (t : TimerRef) (timer : Timer) : TimerMemory :=
  { m with timers := Function.update m.timers t timer }

def TimerMemory.log (m : TimerMemory) (t : TimerRef) (fired : Bool) : TimerMemory :=
  { m with calls := ⟨t, (m.timers t).callback, (m.timers t).param, fired⟩ :: m.calls }

/-- A step of a thread. Only timers that were handed out are deleted or changed. -/
def advanceTimers (m : TimerMemory) (c : TimerChoice) : TimerPc → TimerMemory × TimerPc × List TimerPc
  | .user inside .idle =>
    match c.request with
    | .create out callback param due period =>
      if out = false ∨ callback = 0 then (m, .user inside .idle, [])
      else if c.succeeds then
        ({ m.setTimer m.made ⟨callback, param, due, period, false⟩ with made := m.made + 1 },
          .user inside (.createThread m.made), [])
      else (m, .user inside .idle, [])
    | .delete none _ => (m, .user inside .idle, [])
    | .delete (some t) wait =>
      if m.published t then (m, .user inside (.setStop t wait), []) else (m, .user inside .idle, [])
    | .change none _ _ => (m, .user inside .idle, [])
    | .change (some t) due period =>
      if m.published t then (m, .user inside (.setDue t due period), [])
      else (m, .user inside .idle, [])
    | .return =>
      match inside with
      | none => (m, .user none .idle, [])
      | some (t, false) => (m, .period t, [])
      | some (t, true) => (m, .exit t, [])
  | .user inside (.createThread t) =>
    if c.succeeds then (m, .user inside (.publish t), [.due t]) else (m, .user inside .idle, [])
  | .user inside (.publish t) =>
    ({ m with published := Function.update m.published t true }, .user inside .idle, [])
  | .user inside (.setStop t true) =>
    (m.setTimer t { m.timers t with stop := true }, .user inside (.join t), [])
  | .user inside (.setStop t false) =>
    (m.setTimer t { m.timers t with stop := true }, .user inside .idle, [])
  | .user inside (.join t) =>
    if m.ended t then ({ m with joined := Function.update m.joined t true }, .user inside .idle, [])
    else (m, .user inside (.join t), [])
  | .user inside (.setDue t due period) =>
    ({ m.setTimer t { m.timers t with due := due } with
      changed := Function.update m.changed t true }, .user inside (.setPeriod t period), [])
  | .user inside (.setPeriod t period) =>
    ({ m.setTimer t { m.timers t with period := period } with
      changed := Function.update m.changed t true }, .user inside .idle, [])
  | .due t => (m, .test t, [])
  | .test t => if (m.timers t).stop then (m, .final t, []) else (m, .call t, [])
  | .call t => (m.log t false, .user (some (t, false)) .idle, [])
  | .period t => if (m.timers t).period = 0 then (m, .final t, []) else (m, .test t, [])
  | .final t => (m.log t true, .user (some (t, true)) .idle, [])
  | .exit t => ({ m with ended := Function.update m.ended t true }, .gone, [])
  | .gone => (m, .gone, [])

/-- One case for every place and all that it leaves open. -/
alias advanceTimers_cases := advanceTimers.fun_cases_unfolding

abbrev TimerSystem := System TimerMemory TimerPc

/-- A process with `n` threads before the first timer. -/
def timersAtStart (n : Nat) : TimerSystem where
  memory :=
    { timers := fun _ => ⟨0, 0, 0, 0, false⟩
      made := 0
      published := fun _ => false
      ended := fun _ => false
      joined := fun _ => false
      changed := fun _ => false
      calls := [] }
  threads := List.replicate n (.user none .idle)

def TimersStart (s : TimerSystem) : Prop := ∃ n, s = timersAtStart n

/-- How often a timer has called with this flag. -/
def called (t : TimerRef) (fired : Bool) (calls : List TimerCall) : Nat :=
  calls.countP fun call => call.timer = t ∧ call.fired = fired

theorem called_cons (t u : TimerRef) (fired flag : Bool) (callback param : Nat)
    (calls : List TimerCall) : called t fired (⟨u, callback, param, flag⟩ :: calls) =
      called t fired calls + if u = t ∧ flag = fired then 1 else 0 := by
  simp [called, List.countP_cons]

namespace TimerPc

/-- In a callback of the timer. -/
def within (t : TimerRef) : Option (TimerRef × Bool) → Nat
  | none => 0
  | some (u, _) => if u = t then 1 else 0

@[simp] theorem within_some (t u : TimerRef) (fired : Bool) :
    within t (some (u, fired)) = if u = t then 1 else 0 := rfl

/-- The timer's thread, or a callback that it makes. -/
def runs (t : TimerRef) : TimerPc → Nat
  | .user inside _ => within t inside
  | .due u | .test u | .call u | .period u | .final u | .exit u => if u = t then 1 else 0
  | .gone => 0

/-- About to create the timer's thread. -/
def creates (t : TimerRef) : TimerPc → Nat
  | .user _ (.createThread u) => if u = t then 1 else 0
  | _ => 0

/-- The timer a thread is about to set something of. -/
def target : TimerPc → Option TimerRef
  | .user _ (.createThread t) | .user _ (.publish t) | .user _ (.setStop t _) => some t
  | .user _ (.setDue t _ _) | .user _ (.setPeriod t _) => some t
  | _ => none

/-- In the last callback of the timer. -/
def ending (t : TimerRef) : Option (TimerRef × Bool) → Nat
  | some (u, true) => if u = t then 1 else 0
  | _ => 0

@[simp] theorem ending_false (t u : TimerRef) : ending t (some (u, false)) = 0 := rfl

@[simp] theorem ending_true (t u : TimerRef) :
    ending t (some (u, true)) = if u = t then 1 else 0 := rfl

/-- In the last callback of the timer or behind it. -/
def finished (t : TimerRef) : TimerPc → Nat
  | .user inside _ => ending t inside
  | .exit u => if u = t then 1 else 0
  | _ => 0

/-- Before the first call, as long as the timer has one period only. -/
def unfired (t : TimerRef) : TimerPc → Nat
  | .user _ (.createThread u) | .due u | .test u | .call u => if u = t then 1 else 0
  | _ => 0

/-- About to call although the timer may have been stopped. -/
def late (t : TimerRef) : TimerPc → Nat
  | .call u => if u = t then 1 else 0
  | _ => 0

end TimerPc

section

variable {m : TimerMemory} {c : TimerChoice} {pc : TimerPc} {t : TimerRef}

/-- Whether the timer is among the first ones. -/
def born (t made : Nat) : Nat := if t < made then 1 else 0

theorem born_succ (t made : Nat) : born t (made + 1) = born t made + if made = t then 1 else 0 := by
  rw [born, born]
  split_ifs <;> omega

/-- What stands for a timer: its thread, or the one that will create it. -/
def TimerPc.stands (t : TimerRef) (pc : TimerPc) : Nat := pc.runs t + pc.creates t

theorem advanceTimers_stands : (advanceTimers m c pc).2.1.stands t +
      sumOver (TimerPc.stands t) (advanceTimers m c pc).2.2 +
      ((advanceTimers m c pc).1.ended t).toNat + born t m.made ≤
    pc.stands t + (m.ended t).toNat + born t (advanceTimers m c pc).1.made := by
  fun_cases advanceTimers m c pc <;> simp only [TimerPc.stands, TimerPc.runs, TimerPc.creates,
    TimerPc.within_some, TimerMemory.setTimer, TimerMemory.log, sumOver_nil, sumOver_cons, born_succ,
    Function.update_apply]
  all_goals try omega
  case case29 u =>
    split_ifs with same same' same'
    · rw [Bool.toNat_true]
      omega
    · exact absurd same.symm same'
    · exact absurd same'.symm same
    · omega

/-- The last call of a timer is made by the thread that is in it, or that has ended. -/
theorem advanceTimers_finished (alone : pc.stands t + (m.ended t).toNat ≤ 1) :
    called t true (advanceTimers m c pc).1.calls + pc.finished t + (m.ended t).toNat =
      called t true m.calls + ((advanceTimers m c pc).2.1.finished t +
        sumOver (TimerPc.finished t) (advanceTimers m c pc).2.2) +
      ((advanceTimers m c pc).1.ended t).toNat := by
  revert alone
  fun_cases advanceTimers m c pc <;> intro alone <;> simp only [TimerPc.stands, TimerPc.runs,
    TimerPc.creates, TimerPc.finished, TimerPc.ending_true, TimerPc.ending_false,
    TimerMemory.setTimer, TimerMemory.log, called_cons, sumOver_nil, sumOver_cons,
    Function.update_apply, Bool.false_eq_true, and_false, and_true, if_false] at alone ⊢
  all_goals try omega
  case case29 u =>
    by_cases same : u = t
    · rw [if_pos same] at alone
      rw [if_pos same, if_pos same.symm, Bool.toNat_true]
      omega
    · rw [if_neg same, if_neg (Ne.symm same)]

theorem advanceTimers_late (stopped : (m.timers t).stop = true) :
    called t false (advanceTimers m c pc).1.calls + ((advanceTimers m c pc).2.1.late t +
        sumOver (TimerPc.late t) (advanceTimers m c pc).2.2) =
      called t false m.calls + pc.late t := by
  revert stopped
  fun_cases advanceTimers m c pc <;> intro stopped <;> simp only [TimerPc.late,
    TimerMemory.setTimer, TimerMemory.log, called_cons, sumOver_nil, sumOver_cons,
    Bool.true_eq_false, and_false, and_true, if_false]
  all_goals try omega
  case case24 u running =>
    have apart : u ≠ t := by
      rintro rfl
      exact running stopped
    rw [if_neg apart]

theorem advanceTimers_period (unchanged : (advanceTimers m c pc).1.changed t = false) :
    m.changed t = false ∧
      (t < m.made → ((advanceTimers m c pc).1.timers t).period = (m.timers t).period) := by
  revert unchanged
  fun_cases advanceTimers m c pc <;> intro unchanged <;> try exact ⟨unchanged, fun _ => rfl⟩
  all_goals simp only [TimerMemory.setTimer, Function.update_apply] at unchanged ⊢
  case case2 =>
    refine ⟨unchanged, fun old => ?_⟩
    rw [if_neg (Nat.ne_of_lt old)]
  case case16 | case17 =>
    refine ⟨unchanged, fun _ => ?_⟩
    split_ifs with same
    · rw [same]
    · rfl
  all_goals
    split_ifs at unchanged with same
    refine ⟨unchanged, fun _ => ?_⟩
    rw [if_neg same]

theorem advanceTimers_unfired (known : pc.stands t ≤ born t m.made)
    (once : t < m.made → (m.timers t).period = 0) :
    called t false (advanceTimers m c pc).1.calls + ((advanceTimers m c pc).2.1.unfired t +
        sumOver (TimerPc.unfired t) (advanceTimers m c pc).2.2) + born t m.made ≤
      called t false m.calls + pc.unfired t + born t (advanceTimers m c pc).1.made := by
  revert known
  fun_cases advanceTimers m c pc <;> intro known <;> simp only [TimerPc.unfired, TimerPc.stands,
    TimerPc.runs, TimerPc.creates, TimerMemory.setTimer, TimerMemory.log, called_cons, sumOver_nil,
    sumOver_cons, born_succ, Bool.true_eq_false, and_false, and_true, if_false] at known ⊢
  all_goals try omega
  case case27 u periodic =>
    by_cases same : u = t
    · rw [if_pos same, born] at known
      subst same
      have old : u < m.made := by
        by_contra fresh
        rw [if_neg fresh] at known
        omega
      exact absurd (once old) periodic
    · rw [if_neg same]

theorem advanceTimers_made : m.made ≤ (advanceTimers m c pc).1.made := by
  fun_cases advanceTimers m c pc <;> simp [TimerMemory.setTimer, TimerMemory.log]

/-- A thread sets something of timers that exist. -/
theorem advanceTimers_target (published : ∀ u, m.published u = true → u < m.made)
    (known : pc.target = some t → t < m.made)
    (target : (advanceTimers m c pc).2.1.target = some t) : t < (advanceTimers m c pc).1.made := by
  revert known target
  fun_cases advanceTimers m c pc <;> intro known target <;> cases target
  case case2 => exact Nat.lt_succ_self _
  case case5 u wait asked here => exact published _ here
  case case8 due period asked here => exact published _ here
  all_goals exact known rfl

theorem advanceTimers_published (known : pc.target = some t → t < m.made)
    (published : m.published t = true → t < m.made)
    (now : (advanceTimers m c pc).1.published t = true) : t < (advanceTimers m c pc).1.made := by
  refine Nat.lt_of_lt_of_le ?_ advanceTimers_made
  revert known now
  fun_cases advanceTimers m c pc <;> intro known now <;> try exact published now
  case case15 inside u =>
    by_cases same : t = u
    · exact known (congrArg some same.symm)
    · exact published (by simpa [same] using now)

theorem advanceTimers_stopped (known : pc.target = some t → t < m.made)
    (stopped : (m.timers t).stop = true → t < m.made)
    (now : ((advanceTimers m c pc).1.timers t).stop = true) : t < (advanceTimers m c pc).1.made := by
  refine Nat.lt_of_lt_of_le ?_ advanceTimers_made
  revert known now
  fun_cases advanceTimers m c pc <;> intro known now <;> try exact stopped now
  case case2 =>
    simp only [TimerMemory.setTimer, Function.update_apply] at now
    split_ifs at now
    exact stopped now
  all_goals
    simp only [TimerMemory.setTimer, Function.update_apply] at now
    split_ifs at now with same
    · exact known (congrArg some same.symm)
    · exact stopped now

theorem advanceTimers_stays (old : t < m.made) (stopped : (m.timers t).stop = true) :
    ((advanceTimers m c pc).1.timers t).stop = true := by
  fun_cases advanceTimers m c pc <;> try exact stopped
  case case2 =>
    simp only [TimerMemory.setTimer, Function.update_apply]
    rw [if_neg (Nat.ne_of_lt old)]
    exact stopped
  all_goals
    simp only [TimerMemory.setTimer, Function.update_apply]
    split_ifs with same
    · first | rfl | exact same ▸ stopped
    · exact stopped

theorem advanceTimers_ended : m.ended t = true → (advanceTimers m c pc).1.ended t = true := by
  intro ended
  fun_cases advanceTimers m c pc <;> try exact ended
  case case29 => simp [Function.update_apply, ended]

theorem advanceTimers_joined (joined : m.joined t = true → m.ended t = true)
    (now : (advanceTimers m c pc).1.joined t = true) : (advanceTimers m c pc).1.ended t = true := by
  refine advanceTimers_ended ?_
  revert now
  fun_cases advanceTimers m c pc <;> intro now <;> try exact joined now
  case case18 inside u ended =>
    by_cases same : t = u
    · exact same ▸ ended
    · exact joined (by simpa [same] using now)

/-- What a timer calls, and with what, does not change. -/
theorem advanceTimers_own (old : t < m.made) :
    ((advanceTimers m c pc).1.timers t).callback = (m.timers t).callback ∧
      ((advanceTimers m c pc).1.timers t).param = (m.timers t).param := by
  fun_cases advanceTimers m c pc <;> try exact ⟨rfl, rfl⟩
  case case2 =>
    simp only [TimerMemory.setTimer, Function.update_apply]
    rw [if_neg (Nat.ne_of_lt old)]
    exact ⟨rfl, rfl⟩
  all_goals
    simp only [TimerMemory.setTimer, Function.update_apply]
    split_ifs with same
    · rw [same]
      exact ⟨rfl, rfl⟩
    · exact ⟨rfl, rfl⟩

theorem advanceTimers_created {q : TimerPc} (new : q ∈ (advanceTimers m c pc).2.2) (t : TimerRef) :
    q.target ≠ some t := by
  revert new
  fun_cases advanceTimers m c pc <;> intro new <;> try exact absurd new List.not_mem_nil
  case case13 =>
    rw [List.mem_singleton.mp new]
    nofun

/-- A step makes no call, or the thread of a timer makes one with what the timer holds. -/
theorem advanceTimers_calls : (advanceTimers m c pc).1.calls = m.calls ∨ ∃ u fired,
    pc = (if fired then .final u else .call u) ∧ (advanceTimers m c pc).1 = m.log u fired := by
  fun_cases advanceTimers m c pc <;> try exact .inl rfl
  · exact .inr ⟨_, false, rfl, rfl⟩
  · exact .inr ⟨_, true, rfl, rfl⟩

end

structure TimerBooks (s : TimerSystem) : Prop where
  alone : ∀ t, sumOver (TimerPc.stands t) s.threads + (s.memory.ended t).toNat ≤ born t s.memory.made
  finished : ∀ t, called t true s.memory.calls =
    sumOver (TimerPc.finished t) s.threads + (s.memory.ended t).toNat
  unfired : ∀ t, s.memory.changed t = false → (s.memory.timers t).period = 0 →
    called t false s.memory.calls + sumOver (TimerPc.unfired t) s.threads ≤ born t s.memory.made
  target : ∀ p ∈ s.threads, ∀ t, p.target = some t → t < s.memory.made
  published : ∀ t, s.memory.published t = true → t < s.memory.made
  stopped : ∀ t, (s.memory.timers t).stop = true → t < s.memory.made
  joined : ∀ t, s.memory.joined t = true → s.memory.ended t = true
  own : ∀ call ∈ s.memory.calls, call.timer < s.memory.made ∧
    call.callback = (s.memory.timers call.timer).callback ∧
    call.param = (s.memory.timers call.timer).param
  order : s.memory.calls.Pairwise fun later earlier =>
    later.timer = earlier.timer → earlier.fired = false

section

variable {s : TimerSystem} {i : Nat} {c : TimerChoice} {p : TimerPc}

theorem TimerBooks.stands_le (books : TimerBooks s) (here : p ∈ s.threads) (t : TimerRef) :
    p.stands t + (s.memory.ended t).toNat ≤ born t s.memory.made :=
  Nat.le_trans (Nat.add_le_add_right (le_sumOver _ here) _) (books.alone t)

theorem born_le (t made : Nat) : born t made ≤ 1 := by
  rw [born]
  split_ifs <;> omega

theorem unfired_le_stands (t : TimerRef) (p : TimerPc) : p.unfired t ≤ p.stands t := by
  cases p with
  | user inside use => cases use <;> simp [TimerPc.unfired, TimerPc.stands, TimerPc.creates]
  | _ => simp [TimerPc.unfired, TimerPc.stands, TimerPc.runs]

theorem finished_le_runs (t : TimerRef) (p : TimerPc) : p.finished t ≤ p.runs t := by
  cases p with
  | user inside use =>
    match inside with
    | none => exact Nat.le_refl 0
    | some (u, false) => exact Nat.zero_le _
    | some (u, true) => exact Nat.le_refl _
  | _ => simp [TimerPc.finished, TimerPc.runs]

/-- The thread that stands for a timer is the only one. -/
theorem TimerBooks.others (books : TimerBooks s) (here : s.threads[i]? = some p) {t : TimerRef}
    (stands : p.stands t = 1) (f : TimerPc → Nat) (le : ∀ q, f q ≤ q.stands t) (gone : f .gone = 0)
    (none_ : f p = 0) : sumOver f s.threads = 0 ∧ s.memory.ended t = false := by
  have alone := books.alone t
  have few := born_le t s.memory.made
  have without := sumOver_set f here .gone
  have without' := sumOver_set (TimerPc.stands t) here .gone
  have fewer := sumOver_le le (s.threads.set i .gone)
  have zero : TimerPc.stands t .gone = 0 := rfl
  refine ⟨by omega, ?_⟩
  cases ended : s.memory.ended t with
  | false => rfl
  | true =>
    rw [ended, Bool.toNat_true] at alone
    omega

theorem stands_of_call {u : TimerRef} {fired : Bool}
    (place : p = if fired then .final u else .call u) : p.stands u = 1 ∧ p.finished u = 0 := by
  subst place
  cases fired <;> simp [TimerPc.stands, TimerPc.runs, TimerPc.creates, TimerPc.finished]

theorem called_eq_zero {t : TimerRef} {fired : Bool} {calls : List TimerCall}
    (other : ∀ call ∈ calls, call.timer = t → call.fired ≠ fired) : called t fired calls = 0 := by
  refine List.countP_eq_zero.mpr fun call member => ?_
  have apart := other call member
  simpa using apart

theorem TimerBooks.start {s : TimerSystem} (start : TimersStart s) : TimerBooks s := by
  obtain ⟨n, rfl⟩ := start
  have idle : ∀ (f : TimerPc → Nat), f (.user none .idle) = 0 →
      sumOver f (timersAtStart n).threads = 0 := by
    intro f zero
    refine sumOver_eq_zero fun p member => ?_
    rw [List.eq_of_mem_replicate member, zero]
  refine ⟨fun t => ?_, fun t => ?_, fun t _ _ => ?_, ?_, nofun, nofun, nofun, nofun, .nil⟩
  · rw [idle _ rfl]
    exact Nat.zero_le _
  · rw [idle _ rfl]
    rfl
  · rw [idle _ rfl]
    exact Nat.zero_le _
  · intro p member t target
    rw [List.eq_of_mem_replicate member] at target
    cases target

theorem TimerBooks.next (books : TimerBooks s) (here : s.threads[i]? = some p) (c : TimerChoice) :
    TimerBooks (s.next advanceTimers i c) := by
  have member : p ∈ s.threads := List.mem_of_getElem? here
  have memory : (s.next advanceTimers i c).memory = (advanceTimers s.memory c p).1 := by
    rw [next_here here]
  refine ⟨fun t => ?_, fun t => ?_, fun t unchanged once => ?_, ?_, fun t now => ?_, fun t now => ?_,
    fun t now => ?_, ?_, ?_⟩
  · have sum := @sumOver_next _ _ _ advanceTimers s i p (TimerPc.stands t) here c
    have step := @advanceTimers_stands s.memory c p t
    have alone := books.alone t
    rw [memory]
    omega
  · have sum := @sumOver_next _ _ _ advanceTimers s i p (TimerPc.finished t) here c
    have alone := Nat.le_trans (books.stands_le member t) (born_le t _)
    have step := @advanceTimers_finished s.memory c p t alone
    have finished := books.finished t
    rw [memory]
    omega
  · rw [memory] at unchanged once ⊢
    obtain ⟨before, same⟩ := advanceTimers_period unchanged
    have sum := @sumOver_next _ _ _ advanceTimers s i p (TimerPc.unfired t) here c
    have stands := Nat.le_trans (Nat.le_add_right _ _) (books.stands_le member t)
    have once' : t < s.memory.made → (s.memory.timers t).period = 0 := fun old =>
      (same old).symm.trans once
    have step := @advanceTimers_unfired s.memory c p t stands once'
    have old : called t false s.memory.calls + sumOver (TimerPc.unfired t) s.threads ≤
        born t s.memory.made := by
      by_cases old : t < s.memory.made
      · exact books.unfired t before (once' old)
      · have fewer := sumOver_le (unfired_le_stands t) s.threads
        have alone := books.alone t
        have none_ : called t false s.memory.calls = 0 := by
          refine called_eq_zero fun call made same => ?_
          exact absurd (same ▸ (books.own call made).1) old
        omega
    omega
  · intro q inside t target
    rw [memory]
    rcases mem_next here inside with rfl | created | ⟨old, -⟩
    · exact advanceTimers_target books.published (books.target p member t) target
    · exact absurd target (advanceTimers_created created t)
    · exact Nat.lt_of_lt_of_le (books.target q old t target) advanceTimers_made
  · rw [memory] at now ⊢
    exact advanceTimers_published (books.target p member t) (books.published t) now
  · rw [memory] at now ⊢
    exact advanceTimers_stopped (books.target p member t) (books.stopped t) now
  · rw [memory] at now ⊢
    exact advanceTimers_joined (books.joined t) now
  · rw [memory]
    rcases @advanceTimers_calls s.memory c p with same | ⟨u, fired, place, logged⟩
    · rw [same]
      intro call made
      obtain ⟨old, callback, param⟩ := books.own call made
      obtain ⟨callback', param'⟩ := @advanceTimers_own s.memory c p _ old
      exact ⟨Nat.lt_of_lt_of_le old advanceTimers_made, callback.trans callback'.symm,
        param.trans param'.symm⟩
    · obtain ⟨stands, -⟩ := stands_of_call place
      have old : u < s.memory.made := by
        have alone := books.stands_le member u
        by_contra fresh
        rw [born, if_neg fresh] at alone
        omega
      rw [logged]
      intro call made
      rcases List.mem_cons.mp made with rfl | made
      · exact ⟨old, rfl, rfl⟩
      · exact books.own call made
  · rw [memory]
    rcases @advanceTimers_calls s.memory c p with same | ⟨u, fired, place, logged⟩
    · rw [same]
      exact books.order
    · -- the thread that calls has not made the last call
      obtain ⟨stands, outside⟩ := stands_of_call place
      obtain ⟨none_, running⟩ := books.others here stands (TimerPc.finished u)
        (fun q => Nat.le_trans (finished_le_runs u q) (Nat.le_add_right _ _)) rfl outside
      have finished := books.finished u
      rw [none_, running] at finished
      rw [logged]
      refine List.pairwise_cons.mpr ⟨fun earlier made same => ?_, books.order⟩
      by_contra fired
      have counted := List.countP_eq_zero.mp finished earlier made
      simp_all

theorem TimerBooks.of_reachable (run : Runs.Reachable TimersStart (Step advanceTimers) s) :
    TimerBooks s :=
  invariant (fun _ => TimerBooks.start) (fun _ _ c _ books here => books.next here c) run

/-- The calls of a timer, the last one first: some periods, then perhaps the end. -/
theorem calls_of_timer {calls : List TimerCall} {callback param : Nat} (t : TimerRef)
    (own : ∀ call ∈ calls, call.timer = t → call.callback = callback ∧ call.param = param)
    (order : calls.Pairwise fun later earlier => later.timer = earlier.timer → earlier.fired = false) :
    called t true calls ≤ 1 ∧ (calls.filter fun call => call.timer = t) =
      List.replicate (called t true calls) ⟨t, callback, param, true⟩ ++
        List.replicate (called t false calls) ⟨t, callback, param, false⟩ := by
  induction calls with
  | nil => exact ⟨Nat.zero_le _, rfl⟩
  | cons call calls ih =>
    obtain ⟨before, order⟩ := List.pairwise_cons.mp order
    obtain ⟨few, filtered⟩ := ih (fun c member => own c (List.mem_cons_of_mem _ member)) order
    obtain ⟨u, callback', param', fired⟩ := call
    by_cases here : u = t
    · subst here
      obtain ⟨rfl, rfl⟩ := own _ List.mem_cons_self rfl
      have none_ : called u true calls = 0 := by
        refine called_eq_zero fun c member same => ?_
        rw [before c member same.symm]
        exact nofun
      rw [none_, List.replicate_zero, List.nil_append] at filtered
      rw [List.filter_cons_of_pos (by simp), filtered, called_cons, called_cons, none_]
      cases fired with
      | false => simp [List.replicate_succ]
      | true => simp
    · rw [List.filter_cons_of_neg (by simpa using here), called_cons, called_cons]
      simpa [here] using And.intro few filtered

/-- In every run a timer calls with its own function and parameter, for a number of periods and at
most once more to say that it is done; never twice at a time; with no period, for one at most. When
its thread has ended it has said so. -/
theorem timer_calls_in_order (run : Runs.Reachable TimersStart (Step advanceTimers) s)
    (t : TimerRef) :
    (s.memory.calls.filter fun call => call.timer = t) =
        List.replicate (called t true s.memory.calls)
          ⟨t, (s.memory.timers t).callback, (s.memory.timers t).param, true⟩ ++
        List.replicate (called t false s.memory.calls)
          ⟨t, (s.memory.timers t).callback, (s.memory.timers t).param, false⟩ ∧
      called t true s.memory.calls ≤ 1 ∧ sumOver (TimerPc.runs t) s.threads ≤ 1 ∧
      (s.memory.changed t = false → (s.memory.timers t).period = 0 →
        called t false s.memory.calls ≤ 1) ∧
      (s.memory.ended t = true → called t true s.memory.calls = 1 ∧
        sumOver (TimerPc.runs t) s.threads = 0) := by
  have books := TimerBooks.of_reachable run
  have own : ∀ call ∈ s.memory.calls, call.timer = t →
      call.callback = (s.memory.timers t).callback ∧ call.param = (s.memory.timers t).param :=
    fun call made same => same ▸ (books.own call made).2
  obtain ⟨few, filtered⟩ := calls_of_timer t own books.order
  have alone := books.alone t
  have one := born_le t s.memory.made
  have runs := sumOver_le (fun p => Nat.le_add_right (p.runs t) (p.creates t)) s.threads
  change sumOver (TimerPc.runs t) s.threads ≤ sumOver (TimerPc.stands t) s.threads at runs
  refine ⟨filtered, few, by omega, fun unchanged once => ?_, fun ended => ?_⟩
  · have unfired := books.unfired t unchanged once
    omega
  · have finished := books.finished t
    have behind := sumOver_le (finished_le_runs t) s.threads
    rw [ended, Bool.toNat_true] at alone finished
    omega

/-- A timer is created, calls once, and is then deleted by a thread that waits for the end. -/
def stoppedTimer : TimerSystem :=
  (timersAtStart 1).after advanceTimers
    [(0, ⟨.create true 7 9 0 5, true⟩), (0, ⟨.return, true⟩), (0, ⟨.return, true⟩),
      (1, ⟨.return, true⟩), (1, ⟨.return, true⟩), (1, ⟨.return, true⟩),
      (0, ⟨.delete (some 0) true, true⟩), (0, ⟨.return, true⟩),
      (1, ⟨.return, true⟩), (1, ⟨.return, true⟩), (1, ⟨.return, true⟩), (1, ⟨.return, true⟩),
      (1, ⟨.return, true⟩), (1, ⟨.return, true⟩), (0, ⟨.return, true⟩)]

theorem stoppedTimer_reachable : Runs.Reachable TimersStart (Step advanceTimers) stoppedTimer :=
  reachable_after ⟨1, rfl⟩ _

theorem timer_calls_in_order_stopped :
    stoppedTimer.memory.calls = [⟨0, 7, 9, true⟩, ⟨0, 7, 9, false⟩] ∧
      called 0 true stoppedTimer.memory.calls = 1 ∧
      sumOver (TimerPc.runs 0) stoppedTimer.threads = 0 :=
  ⟨by decide, (timer_calls_in_order stoppedTimer_reachable 0).2.2.2.2 (by decide)⟩

theorem late_le_stands (t : TimerRef) (p : TimerPc) : p.late t ≤ p.stands t := by
  cases p <;> simp [TimerPc.late, TimerPc.stands, TimerPc.runs]

theorem TimerBooks.late_after (books : TimerBooks s) {t : TimerRef}
    (stopped : (s.memory.timers t).stop = true) (steps : List (Nat × TimerChoice)) :
    called t false (s.after advanceTimers steps).memory.calls ≤
      called t false s.memory.calls + sumOver (TimerPc.late t) s.threads := by
  induction steps generalizing s with
  | nil => exact Nat.le_add_right _ _
  | cons l steps ih =>
    change called t false ((s.next advanceTimers l.1 l.2).after advanceTimers steps).memory.calls ≤ _
    cases here : s.threads[l.1]? with
    | none =>
      rw [next_none here]
      exact ih books stopped
    | some p =>
      have memory : (s.next advanceTimers l.1 l.2).memory = (advanceTimers s.memory l.2 p).1 := by
        rw [next_here here]
      have still : ((s.next advanceTimers l.1 l.2).memory.timers t).stop = true := by
        rw [memory]
        exact advanceTimers_stays (books.stopped t stopped) stopped
      have rest := ih (books.next here l.2) still
      have sum := @sumOver_next _ _ _ advanceTimers s l.1 p (TimerPc.late t) here l.2
      have step := @advanceTimers_late s.memory l.2 p t stopped
      rw [memory] at rest
      omega

theorem TimerBooks.ended_after (books : TimerBooks s) {t : TimerRef}
    (ended : s.memory.ended t = true) (steps : List (Nat × TimerChoice)) :
    (s.after advanceTimers steps).memory.calls.filter (fun call => call.timer = t) =
        s.memory.calls.filter (fun call => call.timer = t) ∧
      sumOver (TimerPc.runs t) (s.after advanceTimers steps).threads = 0 := by
  induction steps generalizing s with
  | nil =>
    have alone := books.alone t
    have one := born_le t s.memory.made
    have runs := sumOver_le (fun p => Nat.le_add_right (p.runs t) (p.creates t)) s.threads
    change sumOver (TimerPc.runs t) s.threads ≤ sumOver (TimerPc.stands t) s.threads at runs
    rw [ended, Bool.toNat_true] at alone
    exact ⟨rfl, by simp only [System.after, List.foldl_nil]; omega⟩
  | cons l steps ih =>
    change ((s.next advanceTimers l.1 l.2).after advanceTimers steps).memory.calls.filter _ = _ ∧
      sumOver _ ((s.next advanceTimers l.1 l.2).after advanceTimers steps).threads = 0
    cases here : s.threads[l.1]? with
    | none =>
      rw [next_none here]
      exact ih books ended
    | some p =>
      have memory : (s.next advanceTimers l.1 l.2).memory = (advanceTimers s.memory l.2 p).1 := by
        rw [next_here here]
      have still : (s.next advanceTimers l.1 l.2).memory.ended t = true := by
        rw [memory]
        exact advanceTimers_ended ended
      obtain ⟨same, quiet⟩ := ih (books.next here l.2) still
      refine ⟨same.trans ?_, quiet⟩
      rw [memory]
      rcases @advanceTimers_calls s.memory l.2 p with same | ⟨u, fired, place, logged⟩
      · rw [same]
      · -- the thread that calls is not the timer's, which has ended
        obtain ⟨stands, -⟩ := stands_of_call place
        have other : u ≠ t := by
          rintro rfl
          have alone := Nat.le_trans (books.stands_le (List.mem_of_getElem? here) u) (born_le u _)
          rw [ended, stands, Bool.toNat_true] at alone
          omega
        rw [logged, TimerMemory.log, List.filter_cons_of_neg (by simpa using other)]

/-- Whatever runs after a timer was stopped, it calls for one more period at most; and after a
deletion that waited has returned it never calls again, nor is any of its calls under way. -/
theorem deleted_timer_is_quiet (run : Runs.Reachable TimersStart (Step advanceTimers) s)
    (t : TimerRef) (steps : List (Nat × TimerChoice)) :
    ((s.memory.timers t).stop = true →
      called t false (s.after advanceTimers steps).memory.calls ≤
        called t false s.memory.calls + 1) ∧
    (s.memory.joined t = true →
      (s.after advanceTimers steps).memory.calls.filter (fun call => call.timer = t) =
        s.memory.calls.filter (fun call => call.timer = t) ∧
      sumOver (TimerPc.runs t) (s.after advanceTimers steps).threads = 0) := by
  have books := TimerBooks.of_reachable run
  refine ⟨fun stopped => ?_, fun joined => books.ended_after (books.joined t joined) steps⟩
  have after := books.late_after stopped steps
  have late := sumOver_le (late_le_stands t) s.threads
  have alone := books.alone t
  have one := born_le t s.memory.made
  omega

theorem deleted_timer_is_quiet_stopped : stoppedTimer.memory.joined 0 = true ∧
    sumOver (TimerPc.runs 0) (stoppedTimer.after advanceTimers [(0, ⟨.return, true⟩)]).threads = 0 := by
  have joined : stoppedTimer.memory.joined 0 = true := by decide
  exact ⟨joined, ((deleted_timer_is_quiet stoppedTimer_reachable 0 _).2 joined).2⟩

end

end Kernel32
