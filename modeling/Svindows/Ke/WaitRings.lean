import Svindows.Lib.LinkedLists
import Svindows.Ke.Waits

/-!
# The scheduler on its linked rings

`Thread` keeps the ready queue, the thread list and the wait lists as lists. Here they are the
`LIST_ENTRY` rings of `ntos/rtl.h`: every insertion and removal writes pointers, and every loop
over a list follows them. Each operation returns and leaves the rings of the lists it should.
-/

namespace Ke

open Nt LinkedRing

/-- Where the `LIST_ENTRY` fields are. -/
inductive ListEntry where
  | null
  /-- `g_ready_queue`. -/
  | readyQueue
  /-- `g_system_process.ThreadListHead`. -/
  | threadListHead
  | waitListHead (h : HeaderRef)
  | readyEntry (t : ThreadRef)
  | processEntry (t : ThreadRef)
  /-- `WaitListEntry` of `WaitBlocks[index]`. -/
  | waitListEntry (b : WaitBlock)
  deriving DecidableEq

/-- The thread whose `KTHREAD` an entry is in. -/
def ListEntry.owner : ListEntry → Option ThreadRef
  | .readyEntry t | .processEntry t => some t
  | .waitListEntry b => some b.thread
  | _ => none

/-- `CONTAINING_RECORD`, or the `Thread` field of the wait block. -/
def ListEntry.record (e : ListEntry) : ThreadRef := e.owner.getD 0

/-- The links and the structures around them, whose own lists stay empty. -/
structure LinkedState where
  links : Links ListEntry
  data : KeState

/-- The structures without their lists. -/
def KeState.bare (s : KeState) : KeState :=
  { s with
    readyQueue := []
    processThreads := []
    headers := fun h => { s.headers h with waitList := [] } }

/-- What the rings should hold, with the number of wait blocks each thread has armed. -/
structure ThreadLists where
  ready : List ThreadRef
  listed : List ThreadRef
  waiters : HeaderRef → List WaitBlock
  armed : ThreadRef → Nat

def KeState.lists (s : KeState) : ThreadLists where
  ready := s.readyQueue
  listed := s.processThreads
  waiters := fun h => (s.headers h).waitList
  armed := fun t => (s.threads t).waitBlockCount

namespace ThreadLists

/-- The heads of lists. An armed wait block on no list is a list of its own. -/
def Heads (l : ThreadLists) : ListEntry → Prop
  | .readyQueue | .threadListHead | .waitListHead _ => True
  | .waitListEntry b => b.index < l.armed b.thread ∧ ∀ h, b ∉ l.waiters h
  | _ => False

def members (l : ThreadLists) : ListEntry → List ListEntry
  | .readyQueue => l.ready.map .readyEntry
  | .threadListHead => l.listed.map .processEntry
  | .waitListHead h => (l.waiters h).map .waitListEntry
  | _ => []

/-- The links hold the lists. -/
def On (l : ThreadLists) (m : Links ListEntry) : Prop := Threaded m l.Heads l.members

end ThreadLists

structure Refines (c : LinkedState) (s : KeState) : Prop where
  data : c.data = s.bare
  rings : s.lists.On c.links

namespace LinkedState

def keInitializeScheduler (links : Links ListEntry) (headers : HeaderRef → DispatcherHeader) :
    LinkedState where
  links := insertTail (isolate (isolate links .readyQueue) .threadListHead) .threadListHead
    (.processEntry idleThread)
  data := (Ke.keInitializeScheduler headers).bare

/-- `memset` of a `KTHREAD`. -/
def zeroThread (m : Links ListEntry) (t : ThreadRef) : Links ListEntry where
  next := fun e => if e.owner = some t then .null else m.next e
  prev := fun e => if e.owner = some t then .null else m.prev e

def keCreateThread (c : LinkedState) (t : ThreadRef) (termination : Option HeaderRef) :
    LinkedState where
  links := insertTail (insertTail (zeroThread c.links t) .readyQueue (.readyEntry t))
    .threadListHead (.processEntry t)
  data := { c.data.setThread t { KThread.zero with
      state := .ready
      quantum := defaultQuantum
      threadId := c.data.nextThreadId
      terminationObject := termination } with
    nextThreadId := wrap32 (c.data.nextThreadId + 1) }

def requeue (c : LinkedState) (prev : ThreadRef) : LinkedState :=
  if prev ≠ idleThread ∧ (c.data.threads prev).state = .running then
    ⟨insertTail c.links .readyQueue (.readyEntry prev),
      c.data.setThread prev { c.data.threads prev with state := .ready }⟩
  else c

/-- Take the next thread off the ready queue. -/
def takeNext (c : LinkedState) : ThreadRef × LinkedState :=
  let e := c.links.next .readyQueue
  if e = .readyQueue then (idleThread, c)
  else (e.record, { c with links := remove c.links e })

def kiSchedule (c : LinkedState) : LinkedState :=
  let prev := c.data.current
  let (next, c) := takeNext c
  let c := requeue c prev
  { c with data := switchTo c.data next }

def kiReadyThread (c : LinkedState) (t : ThreadRef) : LinkedState :=
  if (c.data.threads t).state = .waiting then
    ⟨insertTail c.links .readyQueue (.readyEntry t),
      c.data.setThread t { c.data.threads t with state := .ready }⟩
  else c

/-- Take a wait block off its list unless it is a list of its own. -/
def unlinkBlock (m : Links ListEntry) (b : WaitBlock) : Links ListEntry :=
  if m.next (.waitListEntry b) ≠ .waitListEntry b then
    isolate (remove m (.waitListEntry b)) (.waitListEntry b)
  else m

def unlinkBlocks (m : Links ListEntry) (t : ThreadRef) : Nat → Links ListEntry
  | 0 => m
  | n + 1 => unlinkBlock (unlinkBlocks m t n) ⟨t, n⟩

def kiUnlinkThreadWait (c : LinkedState) (t : ThreadRef) : LinkedState :=
  { c with links := unlinkBlocks c.links t (c.data.threads t).waitBlockCount }

def kiWakeWaitingThread (c : LinkedState) (t : ThreadRef) (status : NtStatus) : LinkedState :=
  if (c.data.threads t).state ≠ .waiting then c
  else
    let c := kiUnlinkThreadWait c t
    kiReadyThread ⟨c.links, c.data.setThread t
      { c.data.threads t with waitStatus := status, waitDeadline := 0 }⟩ t

/-- One turn of the loop of `KiSignalObject`. -/
def signalTurn (h : HeaderRef) (c : LinkedState) : LinkedState ⊕ LinkedState :=
  let e := c.links.next (.waitListHead h)
  if e = .waitListHead h then .inl c
  else .inr (kiWakeWaitingThread { c with links := isolate (remove c.links e) e } e.record
    statusSuccess)

def kiSignalObject (fuel : Nat) (c : LinkedState) (h : HeaderRef) : Option LinkedState :=
  Loop.run (signalTurn h) fuel c

/-- Set the count of an object and wake whoever waits on it. -/
def signalWith (fuel : Nat) (c : LinkedState) (h : HeaderRef) (v : Int) : Option LinkedState :=
  kiSignalObject fuel ⟨c.links, c.data.setHeader h { c.data.headers h with signalState := v }⟩ h

def keSetEvent (fuel : Nat) (c : LinkedState) (h : HeaderRef) : Option LinkedState :=
  signalWith fuel c h 1

def keReleaseSemaphore (fuel : Nat) (c : LinkedState) (h : HeaderRef) (count : Int) :
    Option LinkedState :=
  signalWith fuel c h (releasedCount (c.data.headers h) count)

def keReleaseMutant (fuel : Nat) (c : LinkedState) (h : HeaderRef) : Option LinkedState :=
  signalWith fuel c h 1

def keResetEvent (c : LinkedState) (h : HeaderRef) : LinkedState :=
  { c with data := Ke.keResetEvent c.data h }

def armBlocks (c : LinkedState) (t : ThreadRef) : Nat → List HeaderRef → LinkedState
  | _, [] => c
  | i, h :: hs =>
    let e : ListEntry := .waitListEntry ⟨t, i⟩
    armBlocks ⟨insertTail (isolate c.links e) (.waitListHead h) e,
      c.data.setThread t { c.data.threads t with
        waitObject := Function.update (c.data.threads t).waitObject i h }⟩ t (i + 1) hs

def armWait (c : LinkedState) (f : WaitFrame) : LinkedState :=
  let t := c.data.current
  let c := armBlocks ⟨c.links, c.data.setThread t { c.data.threads t with
    waitBlockCount := f.objects.length
    waitStatus := statusPending
    waitDeadline := f.deadline }⟩ t 0 f.objects
  ⟨c.links, c.data.setThread t { c.data.threads t with state := .waiting, frame := some f }⟩

def waitPass (c : LinkedState) (f : WaitFrame) : Option NtStatus × LinkedState :=
  match tryAcquire c.data f.objects f.waitAll with
  | some (status, data) => (some status, { c with data := data })
  | none =>
    if f.timeoutTicks = 0 ∨ (f.deadline ≠ 0 ∧ f.deadline ≤ c.data.tickCount) then
      (some statusTimeout, c)
    else (none, kiSchedule (armWait c f))

def keWaitForMultipleObjects (c : LinkedState) (objects : List HeaderRef) (waitAll : Bool)
    (timeoutTicks : Nat) : Option NtStatus × LinkedState :=
  if objects.length = 0 ∨ keMaximumWaitObjects < objects.length then
    (some statusInvalidParameter, c)
  else waitPass c ⟨objects, waitAll, timeoutTicks, waitDeadlineOf c.data timeoutTicks⟩

def resumeWait (c : LinkedState) (f : WaitFrame) : Option NtStatus × LinkedState :=
  let t := c.data.current
  let c := kiUnlinkThreadWait c t
  let timedOut := (c.data.threads t).waitStatus = statusTimeout
  let c := ⟨c.links, c.data.setThread t
    { c.data.threads t with waitBlockCount := 0, frame := none }⟩
  if timedOut then (some statusTimeout, c) else waitPass c f

def signalTermination (fuel : Nat) (c : LinkedState) (t : ThreadRef) : Option LinkedState :=
  match (c.data.threads t).terminationObject with
  | none => some c
  | some h => (signalWith fuel c h 1).map fun c =>
    ⟨c.links, c.data.setThread t { c.data.threads t with terminationObject := none }⟩

def keTerminateThread (fuel : Nat) (c : LinkedState) : Option LinkedState :=
  let t := c.data.current
  (signalTermination fuel
    ⟨c.links, c.data.setThread t { c.data.threads t with state := .terminated }⟩ t).map kiSchedule

/-- One turn of the timeout scan, at an entry of the thread list. -/
def expireTurn : ListEntry × LinkedState → LinkedState ⊕ (ListEntry × LinkedState)
  | (e, c) =>
    if e = .threadListHead then .inl c
    else
      let k := c.data.threads e.record
      .inr (c.links.next e,
        if k.state = .waiting ∧ k.waitDeadline ≠ 0 ∧ k.waitDeadline ≤ c.data.tickCount then
          kiWakeWaitingThread c e.record statusTimeout
        else c)

def keClockTick (fuel : Nat) (c : LinkedState) : Option LinkedState :=
  let c := { c with data := { c.data with tickCount := wrap64 (c.data.tickCount + 1) } }
  (Loop.run expireTurn fuel (c.links.next .threadListHead, c)).map fun c =>
    let c := { c with data := spendQuantum c.data }
    if (c.data.threads c.data.current).quantum ≤ 0 then kiSchedule c else c

/-- Run an operation; the loops are given fuel. -/
def apply (fuel : Nat) (c : LinkedState) : WaitOp → Option LinkedState
  | .create t termination => some (keCreateThread c t termination)
  | .yield => some (kiSchedule c)
  | .clockTick => keClockTick fuel c
  | .wait objects waitAll timeoutTicks =>
    some (keWaitForMultipleObjects c objects waitAll timeoutTicks).2
  | .resume f => some (resumeWait c f).2
  | .setEvent h => keSetEvent fuel c h
  | .resetEvent h => some (keResetEvent c h)
  | .releaseSemaphore h count => keReleaseSemaphore fuel c h count
  | .releaseMutant h => keReleaseMutant fuel c h
  | .terminate => keTerminateThread fuel c

/-- As for the lists; a new thread is not on the thread list. -/
def Allowed (c : LinkedState) : WaitOp → Prop
  | .create t _ => ¬ ∃ k, c.links.next^[k] .threadListHead = .processEntry t
  | op => op.Allowed c.data

def Step (c : LinkedState) (op : WaitOp) (c' : LinkedState) : Prop :=
  c.Allowed op ∧ ∃ fuel, c.apply fuel op = some c'

/-- The scheduler as it starts, with any objects whose lists are empty. -/
def Start (c : LinkedState) : Prop :=
  ∃ links headers, (∀ h, links.next (.waitListHead h) = .waitListHead h ∧
    links.prev (.waitListHead h) = .waitListHead h) ∧ c = keInitializeScheduler links headers

end LinkedState

namespace ThreadLists

variable {l : ThreadLists} {m : Links ListEntry} {t : ThreadRef} {b : WaitBlock} {h : HeaderRef}

theorem readyEntry_free (fresh : t ∉ l.ready) : Free l.Heads l.members (.readyEntry t) := by
  intro head place _
  cases head <;> simp_all [Heads, members]

theorem processEntry_free (fresh : t ∉ l.listed) : Free l.Heads l.members (.processEntry t) := by
  intro head place _
  cases head <;> simp_all [Heads, members]

theorem waitListEntry_free (unlinked : ∀ h, b ∉ l.waiters h) :
    Free l.Heads l.members (.waitListEntry b) := by
  intro head place _
  cases head <;> simp_all [Heads, members]

theorem On.pushReady (on : l.On m) (fresh : t ∉ l.ready) :
    On { l with ready := l.ready ++ [t] } (insertTail m .readyQueue (.readyEntry t)) := by
  refine (Threaded.insertTail on (h := ListEntry.readyQueue) trivial (readyEntry_free fresh) nofun).mono ?_ ?_
  · intro head place
    cases head <;> simp_all [Heads]
  · intro head place
    cases head <;> simp [members, Function.update_of_ne]

theorem On.pushListed (on : l.On m) (fresh : t ∉ l.listed) :
    On { l with listed := l.listed ++ [t] } (insertTail m .threadListHead (.processEntry t)) := by
  refine (Threaded.insertTail on (h := ListEntry.threadListHead) trivial (processEntry_free fresh)
    nofun).mono ?_ ?_
  · intro head place
    cases head <;> simp_all [Heads]
  · intro head place
    cases head <;> simp [members, Function.update_of_ne]

theorem map_filter_ne {β : Type} [DecidableEq β] {f : β → ListEntry} (inj : Function.Injective f)
    (xs : List β) (x : β) :
    (xs.map f).filter (fun e => e ≠ f x) = (xs.filter fun y => y ≠ x).map f := by
  rw [List.filter_map]
  congr 1
  refine List.filter_congr fun y _ => ?_
  simp [inj.eq_iff]

theorem On.nodup_ready (on : l.On m) : l.ready.Nodup :=
  (List.nodup_cons.mp (on.ring .readyQueue trivial).nodup).2.of_map

theorem On.nodup_waiters (on : l.On m) (h : HeaderRef) : (l.waiters h).Nodup :=
  (List.nodup_cons.mp (on.ring (.waitListHead h) trivial).nodup).2.of_map

theorem filter_ne_self {β : Type} [DecidableEq β] {x : β} {xs : List β} (off : x ∉ xs) :
    xs.filter (fun y => y ≠ x) = xs := by
  refine List.filter_eq_self.mpr fun y member => ?_
  have apart : y ≠ x := fun same => off (same ▸ member)
  simpa using apart

theorem filter_ne_cons {β : Type} [DecidableEq β] {x : β} {xs : List β} (nodup : (x :: xs).Nodup) :
    (x :: xs).filter (fun y => y ≠ x) = xs := by
  rw [List.filter_cons_of_neg (by simp), filter_ne_self (List.nodup_cons.mp nodup).1]

theorem On.popReady {rest : List ThreadRef} (on : l.On m) (queue : l.ready = t :: rest) :
    On { l with ready := rest } (remove m (.readyEntry t)) := by
  have member : ListEntry.readyEntry t ∈ l.members .readyQueue := by simp [members, queue]
  have nodup := on.nodup_ready
  rw [queue] at nodup
  have left : (l.members .readyQueue).filter (fun e => e ≠ .readyEntry t) = rest.map .readyEntry := by
    rw [members, map_filter_ne fun _ _ => ListEntry.readyEntry.inj, queue, filter_ne_cons nodup]
  refine (Threaded.remove on (h := ListEntry.readyQueue) trivial member).mono (fun _ place => place) ?_
  intro head place
  rw [left]
  cases head <;> simp [members, Function.update_of_ne]

/-- A block on a list is on no other. -/
theorem On.waiter_unique {k : HeaderRef} (on : l.On m) (here : b ∈ l.waiters h)
    (there : b ∈ l.waiters k) : h = k := by
  by_contra apart
  exact on.apart (.waitListHead h) (.waitListHead k) trivial trivial (by simpa using apart)
    (List.mem_cons_of_mem _ (List.mem_map_of_mem here))
    (List.mem_cons_of_mem _ (List.mem_map_of_mem there))

/-- A block goes off its list and becomes a list of its own. -/
theorem On.detach (on : l.On m) (here : b ∈ l.waiters h) :
    On { l with waiters := fun k => (l.waiters k).filter fun c => c ≠ b }
      (isolate (remove m (.waitListEntry b)) (.waitListEntry b)) := by
  have member : ListEntry.waitListEntry b ∈ l.members (.waitListHead h) :=
    List.mem_map_of_mem here
  have left : (l.members (.waitListHead h)).filter (fun e => e ≠ .waitListEntry b) =
      ((l.waiters h).filter fun c => c ≠ b).map .waitListEntry :=
    map_filter_ne (fun _ _ => ListEntry.waitListEntry.inj) _ b
  have off := (Threaded.remove on (h := ListEntry.waitListHead h) trivial member)
  have free := on.free_remove (h := ListEntry.waitListHead h) trivial member
  rw [left] at off free
  refine (off.isolate free).mono ?_ ?_
  · intro head place
    cases head with
    | waitListEntry c =>
      by_cases same : c = b
      · exact .inl (congrArg _ same)
      · refine .inr ⟨place.1, fun k inside => place.2 k ?_⟩
        simp [inside, same]
    | _ => exact .inr place
  · intro head place
    cases head with
    | waitListHead k =>
      by_cases same : k = h
      · subst same
        simp [members, Function.update_of_ne]
      · have other : b ∉ l.waiters k := fun there => same (on.waiter_unique there here)
        simp only [members, filter_ne_self other]
        simp [members, Function.update_of_ne, same]
    | waitListEntry c =>
      by_cases same : c = b
      · subst same
        simp [members]
      · simp [members, Function.update_of_ne, same]
    | _ => simp [members, Function.update_of_ne]

theorem On.unlinkBlock (on : l.On m) (armed : b.index < l.armed b.thread) :
    On { l with waiters := fun k => (l.waiters k).filter fun c => c ≠ b }
      (LinkedState.unlinkBlock m b) := by
  by_cases linked : ∃ h, b ∈ l.waiters h
  · obtain ⟨h, here⟩ := linked
    have joined := (on.ring (.waitListHead h) trivial).next_ne (List.mem_map_of_mem here)
    rw [LinkedState.unlinkBlock, if_pos joined]
    exact on.detach here
  · have none_ : ∀ h, b ∉ l.waiters h := fun h here => linked ⟨h, here⟩
    have alone := on.ring (.waitListEntry b) ⟨armed, none_⟩
    have self := alone.empty_iff.mpr rfl
    have whole : (fun k => (l.waiters k).filter fun c => c ≠ b) = l.waiters :=
      funext fun k => filter_ne_self (none_ k)
    rw [LinkedState.unlinkBlock, if_neg (not_not_intro self), whole]
    exact on

/-- A block in no list goes to the end of one. -/
theorem On.arm (on : l.On m) (unlinked : ∀ k, b ∉ l.waiters k) (next : l.armed b.thread = b.index) :
    On { l with
        waiters := Function.update l.waiters h (l.waiters h ++ [b])
        armed := Function.update l.armed b.thread (b.index + 1) }
      (insertTail (isolate m (.waitListEntry b)) (.waitListHead h) (.waitListEntry b)) := by
  have alone := Threaded.isolate on (waitListEntry_free unlinked)
  have head : Function.update l.members (.waitListEntry b) [] (.waitListHead h) =
      (l.waiters h).map .waitListEntry := by
    simp [members, Function.update_of_ne]
  have free : Free (fun e => e = .waitListEntry b ∨ l.Heads e)
      (Function.update l.members (.waitListEntry b) []) (.waitListEntry b) := by
    intro e place apart
    rw [Function.update_of_ne apart]
    exact waitListEntry_free unlinked e (place.resolve_left apart) apart
  have on' := alone.insertTail (h := ListEntry.waitListHead h) (.inr trivial) free nofun
  rw [head] at on'
  refine on'.mono ?_ ?_
  · intro e place
    cases e with
    | waitListEntry c =>
      have apart : c ≠ b := by
        rintro rfl
        exact place.2 h (by simp)
      refine ⟨by simpa using apart, .inr ⟨?_, fun k inside => place.2 k ?_⟩⟩
      · have bound : c.index < Function.update l.armed b.thread (b.index + 1) c.thread := place.1
        by_cases same : c.thread = b.thread
        · rw [same, Function.update_self] at bound
          rw [same, next]
          have other : c.index ≠ b.index := by
            intro index
            exact apart (by cases c; cases b; simp_all)
          omega
        · rwa [Function.update_of_ne same] at bound
      · by_cases same : k = h
        · subst same
          simp [inside]
        · simpa [Function.update_of_ne same] using inside
    | _ => exact ⟨nofun, .inr place⟩
  · intro e place
    cases e with
    | waitListHead k =>
      by_cases same : k = h
      · subst same
        simp [members]
      · simp [members, Function.update_of_ne, same]
    | waitListEntry c =>
      by_cases same : c = b
      · subst same
        simp [members]
      · simp [members, Function.update_of_ne, same]
    | _ => simp [members, Function.update_of_ne]

/-- Fewer blocks count as armed. -/
theorem On.disarm (armed : ThreadRef → Nat) (on : l.On m) (fewer : ∀ t, armed t ≤ l.armed t) :
    On { l with armed := armed } m := by
  refine Threaded.mono on ?_ ?_
  · intro e place
    cases e with
    | waitListEntry c => exact ⟨Nat.lt_of_lt_of_le place.1 (fewer _), place.2⟩
    | _ => exact place
  · intro e _
    cases e <;> rfl

end ThreadLists

end Ke
