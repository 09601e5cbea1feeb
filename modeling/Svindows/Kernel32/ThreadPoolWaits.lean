import Mathlib.Data.Fintype.Card
import Mathlib.Data.List.FinRange
import Mathlib.Logic.Function.Basic
import Svindows.Kernel32.ThreadPool
import Svindows.Lib.Threads

/-!
# Thread-pool waits

`SetThreadpoolWait` stores an object in a wait item under a spin lock and sets an event. One
thread, the monitor, waits for that event and for the objects of all armed items, which it
copies under the lock, and disarms and calls an item whose object was signalled. While it waits
it has the objects as they are, or it will be woken to copy them anew.
-/

namespace Kernel32

open Threads

def maxThreadpoolWaitItems : Nat := 32

abbrev WaitItem := Fin maxThreadpoolWaitItems

/-- The memory of the waits. An event is the number of its creation, and 0 is the null handle.
`armed` counts the calls that stored an object in an item; `calls` are the calls of the monitor,
each with the callback and the context it was made with. -/
structure WaitMemory where
  used : WaitItem → Bool
  waiting : WaitItem → Bool
  callback : WaitItem → Nat
  context : WaitItem → Nat
  environment : WaitItem → Nat
  object : WaitItem → Nat
  lock : Bool
  waitState : WorkerState
  control : Nat
  events : Nat
  signalled : Nat → Bool
  armed : WaitItem → Nat
  calls : List (WaitItem × Nat × Nat)

abbrev Snapshot := List (WaitItem × Nat)

/-- What a thread does next: `CreateThreadpoolWait` from `search` to `setUsed`,
`SetThreadpoolWait` from `ensure` to `signal`, with `threadpool_ensure_wait_monitor` in it from
`ensure` to `await`, and `threadpool_wait_monitor_start`. -/
inductive WaitPc where
  /-- Outside, with the last error of the thread. -/
  | idle (lastError : Nat)
  | search (i callback context environment : Nat)
  | setCallback (w : WaitItem) (callback context environment : Nat)
  | setContext (w : WaitItem) (context environment : Nat)
  | setEnvironment (w : WaitItem) (environment : Nat)
  | setUsed (w : WaitItem)
  | ensure (w : WaitItem) (object : Nat)
  | claim (w : WaitItem) (object : Nat)
  | createControl (w : WaitItem) (object : Nat)
  | createMonitor (w : WaitItem) (object : Nat)
  | abandon
  | publish (w : WaitItem) (object : Nat)
  | await (w : WaitItem) (object : Nat)
  | lock (w : WaitItem) (object : Nat)
  | setObject (w : WaitItem) (object : Nat)
  | setWaiting (w : WaitItem) (object : Nat)
  | unlock
  | signal
  | start
  | lockItems (control : Nat)
  /-- `i` items are looked at. -/
  | scan (control i : Nat) (items : Snapshot)
  | wait (control : Nat) (items : Snapshot)
  | lockItem (w : WaitItem) (object : Nat)
  | test (w : WaitItem) (object : Nat)
  | disarm (w : WaitItem)
  | leave (w : Option WaitItem)
  | call (w : WaitItem)
  deriving DecidableEq

inductive WaitCall where
  | create (callback context environment : Nat)
  | set (w : Option WaitItem) (object : Nat)

/-- What a step leaves open: the call, whether a system call succeeds, and which handle a wait
is satisfied by; the first one is the control event. -/
structure WaitChoice where
  call : WaitCall
  succeeds : Bool
  index : Nat

/-- The item is in the snapshots. -/
def WaitMemory.watches (m : WaitMemory) (w : WaitItem) : Bool :=
  m.used w && m.waiting w && m.object w != 0

def advanceWaits (m : WaitMemory) (c : WaitChoice) : WaitPc → WaitMemory × WaitPc × List WaitPc
  | .idle _ =>
    match c.call with
    | .create callback context environment =>
      if callback = 0 then (m, .idle errorInvalidParameter, [])
      else (m, .search 0 callback context environment, [])
    | .set none _ => (m, .idle errorInvalidParameter, [])
    | .set (some w) object =>
      if m.used w = false then (m, .idle errorInvalidParameter, []) else (m, .ensure w object, [])
  | .search i callback context environment =>
    if h : i < maxThreadpoolWaitItems then
      if m.used ⟨i, h⟩ = false then (m, .setCallback ⟨i, h⟩ callback context environment, [])
      else (m, .search (i + 1) callback context environment, [])
    else (m, .idle errorNotEnoughMemory, [])
  | .setCallback w callback context environment =>
    ({ m with callback := Function.update m.callback w callback }, .setContext w context environment,
      [])
  | .setContext w context environment =>
    ({ m with context := Function.update m.context w context }, .setEnvironment w environment, [])
  | .setEnvironment w environment =>
    ({ m with environment := Function.update m.environment w environment }, .setUsed w, [])
  | .setUsed w => ({ m with used := Function.update m.used w true }, .idle 0, [])
  | .ensure w object =>
    if m.waitState = .ready then (m, .lock w object, []) else (m, .claim w object, [])
  | .claim w object =>
    if m.waitState = .none then ({ m with waitState := .starting }, .createControl w object, [])
    else (m, .await w object, [])
  | .createControl w object =>
    if c.succeeds then
      ({ m with
        events := m.events + 1
        control := m.events + 1
        signalled := Function.update m.signalled (m.events + 1) false }, .createMonitor w object, [])
    else ({ m with control := 0 }, .abandon, [])
  | .createMonitor w object =>
    if c.succeeds then (m, .publish w object, [.start]) else (m, .abandon, [])
  | .abandon => ({ m with waitState := .none }, .idle errorNotEnoughMemory, [])
  | .publish w object => ({ m with waitState := .ready }, .lock w object, [])
  | .await w object =>
    if m.waitState = .starting then (m, .await w object, [])
    else if m.waitState = .ready then (m, .lock w object, [])
    else (m, .idle errorNotEnoughMemory, [])
  | .lock w object =>
    if m.lock = false then ({ m with lock := true }, .setObject w object, [])
    else (m, .lock w object, [])
  | .setObject w object =>
    ({ m with object := Function.update m.object w object }, .setWaiting w object, [])
  | .setWaiting w object =>
    ({ m with
      waiting := Function.update m.waiting w (object != 0)
      armed := Function.update m.armed w (m.armed w + (object != 0).toNat) }, .unlock, [])
  | .unlock => ({ m with lock := false }, .signal, [])
  | .signal => ({ m with signalled := Function.update m.signalled m.control true }, .idle 0, [])
  | .start => (m, .lockItems m.control, [])
  | .lockItems g =>
    if m.lock = false then ({ m with lock := true }, .scan g 0 [], []) else (m, .lockItems g, [])
  | .scan g i items =>
    if h : i < maxThreadpoolWaitItems then
      let w : WaitItem := ⟨i, h⟩
      (m, .scan g (i + 1) (if m.watches w then items ++ [(w, m.object w)] else items), [])
    else ({ m with lock := false }, .wait g items, [])
  | .wait g items =>
    -- a wait that fails is tried again after a pause
    if c.succeeds = false then (m, .start, [])
    else
      match c.index with
      | 0 =>
        if m.signalled g then ({ m with signalled := Function.update m.signalled g false }, .start, [])
        else (m, .wait g items, [])
      | k + 1 =>
        match items[k]? with
        | some (w, object) => (m, .lockItem w object, [])
        | none => (m, .wait g items, [])
  | .lockItem w object =>
    if m.lock = false then ({ m with lock := true }, .test w object, [])
    else (m, .lockItem w object, [])
  | .test w object =>
    if m.used w = true ∧ m.waiting w = true ∧ m.object w = object then (m, .disarm w, [])
    else (m, .leave none, [])
  | .disarm w => ({ m with waiting := Function.update m.waiting w false }, .leave (some w), [])
  | .leave none => ({ m with lock := false }, .start, [])
  | .leave (some w) => ({ m with lock := false }, .call w, [])
  | .call w => ({ m with calls := (w, m.callback w, m.context w) :: m.calls }, .start, [])

/-- One case for every place and all that it leaves open. -/
alias advanceWaits_cases := advanceWaits.fun_cases_unfolding

abbrev WaitSystem := System WaitMemory WaitPc

/-- A process with `n` threads before the first call. -/
def waitsAtStart (n : Nat) : WaitSystem where
  memory :=
    { used := fun _ => false
      waiting := fun _ => false
      callback := fun _ => 0
      context := fun _ => 0
      environment := fun _ => 0
      object := fun _ => 0
      lock := false
      waitState := .none
      control := 0
      events := 0
      signalled := fun _ => false
      armed := fun _ => 0
      calls := [] }
  threads := List.replicate n (.idle 0)

def WaitsStart (s : WaitSystem) : Prop := ∃ n, s = waitsAtStart n

/-- How often the item was called. -/
def WaitMemory.called (m : WaitMemory) (w : WaitItem) : Nat := (m.calls.map Prod.fst).count w

/-- The armed items among the first `i`, with their objects. -/
def WaitMemory.watched (m : WaitMemory) (i : Nat) : Snapshot :=
  ((List.finRange maxThreadpoolWaitItems).take i).filterMap fun w =>
    if m.watches w then some (w, m.object w) else none

namespace WaitPc

/-- Between the acquisition and the release of the lock. -/
def critical : WaitPc → Nat
  | .setObject _ _ | .setWaiting _ _ | .unlock => 1
  | .scan _ _ _ | .test _ _ | .disarm _ | .leave _ => 1
  | _ => 0

/-- The monitor. -/
def monitors : WaitPc → Nat
  | .start | .lockItems _ | .scan _ _ _ | .wait _ _ | .lockItem _ _ | .test _ _ => 1
  | .disarm _ | .leave _ | .call _ => 1
  | _ => 0

/-- The monitor, or a thread that is about to create it or has failed to. -/
def stands : WaitPc → Nat
  | .createControl _ _ | .createMonitor _ _ | .abandon => 1
  | pc => pc.monitors

/-- Starting the monitor. -/
def creates : WaitPc → Nat
  | .createControl _ _ | .createMonitor _ _ | .abandon | .publish _ _ => 1
  | _ => 0

/-- With an item changed and the event not yet set. -/
def owes : WaitPc → Nat
  | .setWaiting _ _ | .unlock | .signal => 1
  | _ => 0

/-- About to call `w`, which is disarmed. -/
def pending (w : WaitItem) : WaitPc → Nat
  | .leave (some v) | .call v => if v = w then 1 else 0
  | _ => 0

/-- The item a thread in `SetThreadpoolWait` has found in use. -/
def found : WaitPc → Option WaitItem
  | .ensure w _ | .claim w _ | .createControl w _ | .createMonitor w _ | .publish w _ => some w
  | .await w _ | .lock w _ | .setObject w _ | .setWaiting w _ => some w
  | _ => none

/-- The event the monitor waits for. -/
def controlOf : WaitPc → Option Nat
  | .lockItems g | .scan g _ _ | .wait g _ => some g
  | _ => none

end WaitPc

section

variable {m : WaitMemory} {c : WaitChoice} {pc : WaitPc} {w : WaitItem}

def WaitMemory.starting (m : WaitMemory) : Nat := if m.waitState = .starting then 1 else 0

def WaitMemory.monitored (m : WaitMemory) : Nat := if m.waitState = .none then 0 else 1

theorem advanceWaits_created {q : WaitPc} (new : q ∈ (advanceWaits m c pc).2.2) : q = .start := by
  revert new
  fun_cases advanceWaits m c pc <;> simp

theorem advanceWaits_critical (held : pc.critical ≠ 0 → m.lock = true) :
    (advanceWaits m c pc).1.lock.toNat + pc.critical = m.lock.toNat +
      ((advanceWaits m c pc).2.1.critical + sumOver WaitPc.critical (advanceWaits m c pc).2.2) := by
  fun_cases advanceWaits m c pc <;> simp_all [WaitPc.critical]

theorem advanceWaits_creates (starting : pc.creates ≠ 0 → m.waitState = .starting) :
    (advanceWaits m c pc).1.starting + pc.creates = m.starting +
      ((advanceWaits m c pc).2.1.creates + sumOver WaitPc.creates (advanceWaits m c pc).2.2) := by
  fun_cases advanceWaits m c pc <;> simp_all [WaitPc.creates, WaitMemory.starting]

theorem advanceWaits_stands (starting : pc.creates ≠ 0 → m.waitState = .starting) :
    (advanceWaits m c pc).1.monitored + pc.stands = m.monitored +
      ((advanceWaits m c pc).2.1.stands + sumOver WaitPc.stands (advanceWaits m c pc).2.2) := by
  fun_cases advanceWaits m c pc <;>
    simp_all [WaitPc.stands, WaitPc.monitors, WaitPc.creates, WaitMemory.monitored]

theorem advanceWaits_used (used : m.used w = true) : (advanceWaits m c pc).1.used w = true := by
  fun_cases advanceWaits m c pc <;> simp_all [Function.update_apply]

theorem advanceWaits_waiting (used : ∀ w, m.waiting w = true → m.used w = true)
    (found : pc.found = some w → m.used w = true)
    (waiting : (advanceWaits m c pc).1.waiting w = true) : (advanceWaits m c pc).1.used w = true := by
  refine advanceWaits_used ?_
  revert waiting
  fun_cases advanceWaits m c pc <;> simp_all [Function.update_apply, WaitPc.found]
  -- an item that is armed was found in use
  split_ifs with here
  · exact fun _ => found here.symm
  · exact used w

theorem advanceWaits_found (found : ∀ w, pc.found = some w → m.used w = true)
    (member : (advanceWaits m c pc).2.1.found = some w) : (advanceWaits m c pc).1.used w = true := by
  refine advanceWaits_used ?_
  revert member
  fun_cases advanceWaits m c pc <;> simp_all [WaitPc.found] <;> rintro rfl <;> assumption

theorem advanceWaits_once (w : WaitItem) (disarms : ∀ v, pc = .disarm v → m.waiting v = true) :
    (advanceWaits m c pc).1.called w + ((advanceWaits m c pc).2.1.pending w +
        sumOver (WaitPc.pending w) (advanceWaits m c pc).2.2) +
        ((advanceWaits m c pc).1.waiting w).toNat + m.armed w ≤
      m.called w + pc.pending w + (m.waiting w).toNat + (advanceWaits m c pc).1.armed w := by
  fun_cases advanceWaits m c pc <;> simp_all [WaitPc.pending, WaitMemory.called, List.count_cons]
  case case29 v object =>
    by_cases here : w = v
    · subst here
      simp only [Function.update_self]
      omega
    · simp only [Function.update_of_ne here]
      omega
  case case46 v =>
    by_cases here : v = w
    · subst here
      simp [disarms]
    · simp [here, Function.update_of_ne (Ne.symm here)]

theorem advanceWaits_control {g : Nat} (same : pc.controlOf = some g → g = m.control)
    (member : (advanceWaits m c pc).2.1.controlOf = some g) : g = (advanceWaits m c pc).1.control := by
  revert member
  fun_cases advanceWaits m c pc <;> intro member <;> simp_all [WaitPc.controlOf]

/-- Only the thread that creates the monitor changes the event, and only the monitor consumes it. -/
theorem advanceWaits_event (outside : pc.stands = 0) : (advanceWaits m c pc).1.control = m.control ∧
    ∀ g, m.signalled g = true → (advanceWaits m c pc).1.signalled g = true := by
  revert outside
  fun_cases advanceWaits m c pc <;>
    simp_all [WaitPc.stands, WaitPc.monitors, Function.update_apply]

theorem watched_congr {m' : WaitMemory} (watches : ∀ w, m'.watches w = m.watches w)
    (object : m'.object = m.object) (i : Nat) : m'.watched i = m.watched i := by
  simp only [WaitMemory.watched, watches, object]

/-- The items and their objects change inside the lock. -/
theorem advanceWaits_items (used : ∀ w, m.waiting w = true → m.used w = true)
    (outside : pc.critical = 0) : (∀ w, (advanceWaits m c pc).1.waiting w = m.waiting w) ∧
      ∀ i, (advanceWaits m c pc).1.watched i = m.watched i := by
  revert outside
  fun_cases advanceWaits m c pc <;> intro outside <;> try cases outside
  all_goals try exact ⟨fun _ => rfl, fun _ => rfl⟩
  case case12 v =>
    -- an item that gets used now was not armed
    refine ⟨fun _ => rfl, watched_congr (fun w => ?_) rfl⟩
    simp only [WaitMemory.watches, Function.update_apply]
    split_ifs with here
    · subst here
      cases waits : m.waiting w
      · simp
      · simp [used w waits]
    · rfl

/-- A thread that changes the items sets the event before it is done. -/
theorem advanceWaits_announces (outside : pc.stands = 0)
    (used : ∀ w, m.waiting w = true → m.used w = true) :
    ((advanceWaits m c pc).1.watched maxThreadpoolWaitItems = m.watched maxThreadpoolWaitItems ∨
      (advanceWaits m c pc).2.1.owes = 1) ∧
    (pc.owes ≤ (advanceWaits m c pc).2.1.owes ∨
      (advanceWaits m c pc).1.signalled m.control = true) := by
  cases pc with
  | setObject w object => exact ⟨.inr rfl, .inl (Nat.zero_le _)⟩
  | setWaiting w object => exact ⟨.inr rfl, .inl (Nat.le_refl _)⟩
  | unlock => exact ⟨.inr rfl, .inl (Nat.le_refl _)⟩
  | signal => exact ⟨.inl rfl, .inr (Function.update_self ..)⟩
  | disarm | leave | scan | test => cases outside
  | _ => exact ⟨.inl ((advanceWaits_items used rfl).2 _), .inl (Nat.zero_le _)⟩

end

/-- What holds of the memory by the place where a thread is. -/
def WaitShape (m : WaitMemory) (owed : Nat) : WaitPc → Prop
  | .scan _ i items => items = m.watched i
  | .wait g items => items = m.watched maxThreadpoolWaitItems ∨ m.signalled g = true ∨ 0 < owed
  | .disarm w => m.waiting w = true
  | _ => True

structure WaitsBooks (s : WaitSystem) : Prop where
  critical : InBalance (fun m => m.lock.toNat) WaitPc.critical s
  creates : InBalance WaitMemory.starting WaitPc.creates s
  stands : InBalance WaitMemory.monitored WaitPc.stands s
  used : ∀ w, s.memory.waiting w = true → s.memory.used w = true
  found : ∀ p ∈ s.threads, ∀ w, p.found = some w → s.memory.used w = true
  control : ∀ p ∈ s.threads, ∀ g, p.controlOf = some g → g = s.memory.control
  once : ∀ w, s.memory.called w + sumOver (WaitPc.pending w) s.threads + (s.memory.waiting w).toNat ≤
    s.memory.armed w
  shape : ∀ p ∈ s.threads, WaitShape s.memory (sumOver WaitPc.owes s.threads) p

section

variable {m : WaitMemory} {c : WaitChoice} {pc : WaitPc} {owed owed' : Nat}

theorem watched_succ {i : Nat} (h : i < maxThreadpoolWaitItems) :
    m.watched (i + 1) = if m.watches ⟨i, h⟩ then m.watched i ++ [(⟨i, h⟩, m.object ⟨i, h⟩)]
      else m.watched i := by
  have next : (List.finRange maxThreadpoolWaitItems).take (i + 1) =
      (List.finRange maxThreadpoolWaitItems).take i ++ [⟨i, h⟩] := by
    rw [List.take_succ_eq_append_getElem (by simpa using h), List.getElem_finRange]
    rfl
  rw [WaitMemory.watched, next, List.filterMap_append, List.filterMap_cons, List.filterMap_nil]
  split_ifs with watches
  · rfl
  · exact List.append_nil _

/-- The thread that takes a step keeps its own shape. -/
theorem advanceWaits_shape (shape : WaitShape m owed pc) (owes : pc.owes = 0 → owed ≤ owed') :
    WaitShape (advanceWaits m c pc).1 owed' (advanceWaits m c pc).2.1 := by
  revert shape owes
  fun_cases advanceWaits m c pc <;> intro shape owes
  all_goals try exact trivial
  · exact rfl
  · rename_i g i items more w
    show _ = m.watched (i + 1)
    rw [watched_succ more, show items = m.watched i from shape]
  · rename_i g i items done
    refine .inl ?_
    show items = m.watched maxThreadpoolWaitItems
    rw [show items = m.watched i from shape, WaitMemory.watched, WaitMemory.watched,
      List.take_of_length_le (by simpa using done), List.take_of_length_le (by simp)]
  all_goals try exact shape.imp id (.imp id fun owed_ => Nat.lt_of_lt_of_le owed_ (owes rfl))
  · rename_i armed
    exact armed.2.1

/-- Another thread keeps its shape. -/
theorem other_shape {q : WaitPc} (used : ∀ w, m.waiting w = true → m.used w = true)
    (shape : WaitShape m owed q)
    (control : ∀ g, q.controlOf = some g → g = m.control)
    (lone : q.critical = 1 → pc.critical = 0) (lone' : q.stands = 1 → pc.stands = 0)
    (owes : owed' + pc.owes = owed + (advanceWaits m c pc).2.1.owes) (counted : pc.owes ≤ owed) :
    WaitShape (advanceWaits m c pc).1 owed' q := by
  cases q with
  | scan g i items =>
    show items = _
    rw [(advanceWaits_items used (lone rfl)).2]
    exact shape
  | disarm w =>
    show _ = true
    rw [(advanceWaits_items used (lone rfl)).1]
    exact shape
  | wait g items =>
    have outside := lone' rfl
    obtain ⟨changes, settles⟩ := advanceWaits_announces (c := c) outside used
    rcases settles with more | set
    · rcases shape with current | signalled | waits
      · rcases changes with same | announced
        · exact .inl (same.symm ▸ current)
        · exact .inr (.inr (by omega))
      · exact .inr (.inl ((advanceWaits_event outside).2 g signalled))
      · exact .inr (.inr (by omega))
    · exact .inr (.inl ((control g rfl).symm ▸ set))
  | _ => trivial

end

theorem WaitsBooks.step {s : WaitSystem} (books : WaitsBooks s) {t : Nat} (c : WaitChoice) {p : WaitPc}
    (here : s.threads[t]? = some p) : WaitsBooks (s.next advanceWaits t c) := by
  have member := List.mem_of_getElem? here
  have lock : p.critical ≠ 0 → s.memory.lock = true := by
    have counted := books.critical.le member
    cases locked : s.memory.lock with
    | true => exact fun _ => rfl
    | false =>
      rw [locked] at counted
      exact fun inside => absurd (Nat.le_zero.mp counted) inside
  have starting : p.creates ≠ 0 → s.memory.waitState = .starting := by
    have counted := books.creates.le member
    intro creates
    by_contra other
    rw [WaitMemory.starting, if_neg other] at counted
    exact creates (Nat.le_zero.mp counted)
  have lone : ∀ {q : WaitPc}, q.stands = 1 →
      q.stands + p.stands ≤ sumOver WaitPc.stands s.threads → p.stands = 0 := by
    intro q monitor both
    refine books.stands.lone ?_ both monitor
    rw [WaitMemory.monitored]
    split_ifs <;> decide
  have memory : (s.next advanceWaits t c).memory = (advanceWaits s.memory c p).1 := by
    rw [next_here here]
  have owes := @sumOver_next _ _ _ advanceWaits s t p WaitPc.owes here c
  have few : sumOver WaitPc.owes (advanceWaits s.memory c p).2.2 = 0 :=
    sumOver_eq_zero fun q new => by rw [advanceWaits_created new]; rfl
  constructor
  case critical => exact books.critical.next here (advanceWaits_critical lock)
  case creates => exact books.creates.next here (advanceWaits_creates starting)
  case stands => exact books.stands.next here (advanceWaits_stands starting)
  case used =>
    rw [memory]
    exact fun w => advanceWaits_waiting books.used (books.found p member w)
  case found =>
    rw [memory]
    intro q there w found
    rcases mem_next here there with rfl | new | ⟨old, -⟩
    · exact advanceWaits_found (books.found p member) found
    · rw [advanceWaits_created new] at found
      cases found
    · exact advanceWaits_used (books.found q old w found)
  case control =>
    rw [memory]
    intro q there g same
    rcases mem_next here there with rfl | new | ⟨old, both⟩
    · exact advanceWaits_control (books.control p member g) same
    · rw [advanceWaits_created new] at same
      cases same
    · have monitor : q.stands = 1 := by
        cases q <;> first | rfl | cases same
      rw [books.control q old g same]
      exact (advanceWaits_event (lone monitor (both _))).1.symm
  case once =>
    intro w
    have sum := @sumOver_next _ _ _ advanceWaits s t p (WaitPc.pending w) here c
    have before := books.once w
    have step := advanceWaits_once (m := s.memory) (c := c) w fun v (at_ : p = .disarm v) => by
      have shape := books.shape p member
      rw [at_] at shape
      exact shape
    rw [memory]
    omega
  case shape =>
    rw [memory]
    intro q there
    rcases mem_next here there with rfl | new | ⟨old, both⟩
    · exact advanceWaits_shape (books.shape p member) fun none_ => by omega
    · rw [advanceWaits_created new]
      trivial
    · refine other_shape books.used (books.shape q old) (books.control q old) ?_ ?_ ?_ ?_
      · exact fun inside => books.critical.lone (Bool.toNat_le _) (both _) inside
      · exact fun monitor => lone monitor (both _)
      · omega
      · exact le_sumOver _ member

theorem waitsAtStart_books (n : Nat) : WaitsBooks (waitsAtStart n) := by
  have idle : ∀ p ∈ (waitsAtStart n).threads, p = .idle 0 := fun p there => List.eq_of_mem_replicate there
  have none_ : ∀ f : WaitPc → Nat, f (.idle 0) = 0 → sumOver f (waitsAtStart n).threads = 0 :=
    fun f zero => sumOver_eq_zero fun p there => by rw [idle p there, zero]
  constructor
  case critical => exact none_ _ rfl
  case creates => exact none_ _ rfl
  case stands => exact none_ _ rfl
  case used => exact fun w waiting => waiting
  case once =>
    intro w
    rw [none_ _ rfl]
    exact Nat.le_refl 0
  case found =>
    intro p there w found
    rw [idle p there] at found
    cases found
  case control =>
    intro p there g same
    rw [idle p there] at same
    cases same
  case shape =>
    intro p there
    rw [idle p there]
    trivial

/-- What the waits promise. Of the monitor there is one; an item is called once at most for each
time it was armed; and a monitor that waits does so for the armed items with the objects they
have, unless it is about to be woken to look again. -/
structure WaitsKept (s : WaitSystem) : Prop where
  monitor : sumOver WaitPc.monitors s.threads ≤ 1
  once : ∀ w, s.memory.called w ≤ s.memory.armed w
  watched : ∀ g items, .wait g items ∈ s.threads →
    items = s.memory.watched maxThreadpoolWaitItems ∨ s.memory.signalled g = true ∨
      ∃ p ∈ s.threads, p.owes = 1
  event : ∀ g items, .wait g items ∈ s.threads → g = s.memory.control

theorem threadpool_waits_kept {s : WaitSystem}
    (run : Runs.Reachable WaitsStart (Step advanceWaits) s) : WaitsKept s := by
  have books : WaitsBooks s := by
    refine Threads.invariant ?_ (fun s t c p books here => books.step c here) run
    rintro s ⟨n, rfl⟩
    exact waitsAtStart_books n
  constructor
  case monitor =>
    have fewer : sumOver WaitPc.monitors s.threads ≤ sumOver WaitPc.stands s.threads :=
      sumOver_le (fun p => by cases p <;> simp [WaitPc.stands, WaitPc.monitors]) s.threads
    have one : s.memory.monitored ≤ 1 := by
      rw [WaitMemory.monitored]
      split_ifs <;> decide
    have stands := books.stands
    rw [InBalance] at stands
    omega
  case once =>
    intro w
    have counts := books.once w
    omega
  case watched =>
    intro g items waits
    refine (books.shape _ waits).imp id (.imp id fun owed => ?_)
    obtain ⟨p, there, counts⟩ := exists_of_sumOver_pos owed
    refine ⟨p, there, ?_⟩
    cases p <;> simp_all [WaitPc.owes]
  case event => exact fun g items waits => books.control _ waits g rfl

def firstWait : WaitItem := ⟨0, by decide⟩

/-- A thread creates an item and sets it to an object. The monitor finds the object signalled
and calls the item. -/
def oneWait : WaitSystem :=
  (waitsAtStart 1).after advanceWaits
    (List.replicate 6 (0, ⟨.create 0x1000 7 0, true, 0⟩) ++
      List.replicate 11 (0, ⟨.set (some firstWait) 5, true, 0⟩) ++
      List.replicate 41 (1, ⟨.set none 0, true, 1⟩))

theorem threadpool_waits_kept_one_wait :
    WaitsKept oneWait ∧ oneWait.memory.calls = [(firstWait, 0x1000, 7)] ∧
      oneWait.memory.armed firstWait = 1 :=
  ⟨threadpool_waits_kept (reachable_after ⟨1, rfl⟩ _), by decide +kernel, by decide +kernel⟩

end Kernel32
