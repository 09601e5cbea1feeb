import Svindows.Ke.WaitRings

/-!
# The rings refine the lists

Every operation of the scheduler and the dispatcher returns on the rings and leaves the rings of
the lists that the operation on lists leaves. So what was shown of the lists over whole runs holds
of the rings.
-/

namespace Ke

open Nt LinkedRing

variable {c : LinkedState} {s : KeState} {t : ThreadRef} {h : HeaderRef}

theorem bare_setThread (s : KeState) (t : ThreadRef) (k : KThread) :
    (s.setThread t k).bare = s.bare.setThread t k := rfl

theorem bare_setHeader (s : KeState) (h : HeaderRef) (d : DispatcherHeader) :
    (s.setHeader h d).bare = s.bare.setHeader h { d with waitList := [] } := by
  simp only [KeState.bare, KeState.setHeader]
  congr 1
  funext k
  by_cases same : k = h <;> simp [same]

theorem bare_setList (s : KeState) (h : HeaderRef) (list : List WaitBlock) :
    (s.setHeader h { s.headers h with waitList := list }).bare = s.bare := by
  have same : s.bare.setHeader h (s.bare.headers h) = s.bare := by
    rw [KeState.setHeader, Function.update_eq_self]
  rw [bare_setHeader]
  exact same

theorem lists_setList (s : KeState) (h : HeaderRef) (list : List WaitBlock) :
    (s.setHeader h { s.headers h with waitList := list }).lists =
      { s.lists with waiters := Function.update s.lists.waiters h list } := by
  simp only [KeState.lists, KeState.setHeader]
  congr 1
  funext k
  by_cases same : k = h <;> simp [same]

theorem bare_switchTo (s : KeState) (t : ThreadRef) : (switchTo s t).bare = switchTo s.bare t := by
  have current : s.bare.current = s.current := rfl
  rw [switchTo, switchTo, current]
  split_ifs <;> rfl

/-- The lists do not see a change to a thread that keeps its number of wait blocks. -/
theorem lists_setThread (s : KeState) {k : KThread}
    (count : k.waitBlockCount = (s.threads t).waitBlockCount) :
    (s.setThread t k).lists = s.lists := by
  simp only [KeState.lists, KeState.setThread]
  congr 1
  funext u
  by_cases same : u = t <;> simp [same, count]

theorem lists_switchTo (s : KeState) (t : ThreadRef) : (switchTo s t).lists = s.lists := by
  simp only [switchTo]
  split
  · exact lists_setThread s rfl
  · exact lists_setThread s rfl

theorem Refines.setThread {k : KThread} (refines : Refines c s)
    (fewer : k.waitBlockCount ≤ (s.threads t).waitBlockCount) :
    Refines ⟨c.links, c.data.setThread t k⟩ (s.setThread t k) where
  data := by rw [refines.data, bare_setThread]
  rings := by
    refine refines.rings.disarm (fun u => ((s.setThread t k).threads u).waitBlockCount) fun u => ?_
    change ((s.setThread t k).threads u).waitBlockCount ≤ (s.threads u).waitBlockCount
    by_cases same : u = t
    · simpa [same] using fewer
    · simp [same]

theorem Refines.setHeader {d : DispatcherHeader} (refines : Refines c s)
    (list : d.waitList = (s.headers h).waitList) :
    Refines ⟨c.links, c.data.setHeader h { d with waitList := [] }⟩ (s.setHeader h d) where
  data := by rw [refines.data, bare_setHeader]
  rings := by
    have same : (s.setHeader h d).lists = s.lists := by
      simp only [KeState.lists, KeState.setHeader]
      congr 1
      funext k
      by_cases same : k = h <;> simp [same, list]
    rw [same]
    exact refines.rings

theorem Refines.unlinkBlocks (refines : Refines c s) (n : Nat)
    (armed : n ≤ (s.threads t).waitBlockCount) :
    Refines ⟨LinkedState.unlinkBlocks c.links t n, c.data⟩ (unlinkBlocks s t n) := by
  induction n with
  | zero => exact refines
  | succ n ih =>
    have before := ih (Nat.le_of_succ_le armed)
    obtain ⟨threads, -⟩ := unlinkBlocks_threads s t n
    have rings := before.rings.unlinkBlock (b := ⟨t, n⟩)
      (by rw [KeState.lists, threads]; exact armed)
    exact ⟨before.data, rings⟩

theorem Refines.unlinkThread (refines : Refines c s) (t : ThreadRef) :
    Refines (LinkedState.kiUnlinkThreadWait c t) (kiUnlinkThreadWait s t) := by
  have count : (c.data.threads t).waitBlockCount = (s.threads t).waitBlockCount := by
    rw [refines.data]
    rfl
  rw [LinkedState.kiUnlinkThreadWait, count]
  exact refines.unlinkBlocks _ (le_refl _)

/-- Put a thread that is not queued at the end of the ready queue. -/
theorem Refines.queue {k : KThread} (refines : Refines c s) (fresh : t ∉ s.readyQueue)
    (count : k.waitBlockCount = (s.threads t).waitBlockCount) :
    Refines ⟨insertTail c.links .readyQueue (.readyEntry t), c.data.setThread t k⟩
      { s.setThread t k with readyQueue := s.readyQueue ++ [t] } where
  data := by
    rw [refines.data]
    rfl
  rings := by
    have same := lists_setThread s (t := t) count
    have spelled : KeState.lists { s.setThread t k with readyQueue := s.readyQueue ++ [t] } =
        { s.lists with ready := s.lists.ready ++ [t] } := by
      rw [← same]
      rfl
    rw [spelled]
    exact refines.rings.pushReady fresh

theorem Refines.ready (refines : Refines c s)
    (queued : (s.threads t).state = .waiting → t ∉ s.readyQueue) :
    Refines (LinkedState.kiReadyThread c t) (kiReadyThread s t) := by
  have thread : c.data.threads t = s.threads t := by rw [refines.data]; rfl
  rw [LinkedState.kiReadyThread, kiReadyThread, thread]
  split_ifs with waiting
  · exact refines.queue (queued waiting) rfl
  · exact refines

theorem Refines.wake (refines : Refines c s)
    (queued : (s.threads t).state = .waiting → t ∉ s.readyQueue) (status : NtStatus) :
    Refines (LinkedState.kiWakeWaitingThread c t status) (kiWakeWaitingThread s t status) := by
  have thread : c.data.threads t = s.threads t := by rw [refines.data]; rfl
  obtain ⟨threads, queue, -⟩ := unlinkBlocks_threads s t (s.threads t).waitBlockCount
  have threads' : (kiUnlinkThreadWait s t).threads = s.threads := threads
  have queue' : (kiUnlinkThreadWait s t).readyQueue = s.readyQueue := queue
  simp only [LinkedState.kiWakeWaitingThread, kiWakeWaitingThread, thread]
  split_ifs with awake
  · exact refines
  · rw [not_not] at awake
    have thread' : (LinkedState.kiUnlinkThreadWait c t).data.threads t = s.threads t := thread
    rw [thread', threads']
    refine ((refines.unlinkThread t).setThread (by rw [threads'])).ready fun _ => ?_
    rw [setThread_readyQueue, queue']
    exact queued awake

theorem Switching.not_queued (switching : Switching s) (waiting : (s.threads t).state = .waiting) :
    t ∉ s.readyQueue := by
  intro queued
  rw [switching.queued, waiting] at queued
  cases queued

theorem Refines.bare_thread (refines : Refines c s) (t : ThreadRef) :
    c.data.threads t = s.threads t := by
  rw [refines.data]
  rfl

theorem Refines.popWaiter {b : WaitBlock} {rest : List WaitBlock} (refines : Refines c s)
    (list : (s.headers h).waitList = b :: rest) :
    c.links.next (.waitListHead h) = .waitListEntry b ∧
      Refines ⟨isolate (remove c.links (.waitListEntry b)) (.waitListEntry b), c.data⟩
        (s.setHeader h { s.headers h with waitList := rest }) := by
  have here : b ∈ s.lists.waiters h := by simp [KeState.lists, list]
  have next : c.links.next (.waitListHead h) =
      ((s.headers h).waitList.map .waitListEntry).headD (.waitListHead h) :=
    (refines.rings.ring (.waitListHead h) trivial).next_head
  rw [list] at next
  have waiters : (s.setHeader h { s.headers h with waitList := rest }).lists =
      { s.lists with waiters := fun k => (s.lists.waiters k).filter fun c => c ≠ b } := by
    have left : Function.update s.lists.waiters h rest =
        fun k => (s.lists.waiters k).filter fun c => c ≠ b := by
      funext k
      by_cases same : k = h
      · have nodup : (s.headers h).waitList.Nodup := refines.rings.nodup_waiters h
        have whole : s.lists.waiters h = b :: rest := list
        rw [list] at nodup
        rw [same, Function.update_self, whole, ThreadLists.filter_ne_cons nodup]
      · have other : b ∉ s.lists.waiters k := fun there =>
          same (refines.rings.waiter_unique there here)
        rw [Function.update_of_ne same, ThreadLists.filter_ne_self other]
    rw [lists_setList, left]
  refine ⟨next, ?_, ?_⟩
  · rw [bare_setList]
    exact refines.data
  · rw [waiters]
    exact refines.rings.detach here

theorem wake_length_le (s : KeState) (t : ThreadRef) (status : NtStatus) (h : HeaderRef) :
    ((kiWakeWaitingThread s t status).headers h).waitList.length ≤
      (s.headers h).waitList.length := by
  by_cases waiting : (s.threads t).state = .waiting
  · rw [kiWakeWaitingThread_eq status waiting]
    exact List.length_filter_le _ _
  · rw [kiWakeWaitingThread_other status waiting]

theorem Refines.signalTurn_empty (refines : Refines c s) (list : (s.headers h).waitList = []) :
    LinkedState.signalTurn h c = .inl c := by
  have next : c.links.next (.waitListHead h) =
      ((s.headers h).waitList.map .waitListEntry).headD (.waitListHead h) :=
    (refines.rings.ring (.waitListHead h) trivial).next_head
  rw [list] at next
  exact if_pos next

theorem Refines.signalLoop (refines : Refines c s) (switching : Switching s)
    (busy : (s.threads s.current).state ≠ .waiting) (n : Nat)
    (enough : (s.headers h).waitList.length ≤ n) :
    ∃ c', LinkedState.kiSignalObject (n + 1) c h = some c' ∧ Refines c' (signalLoop h n s) := by
  induction n generalizing c s with
  | zero =>
    have none_ := List.length_eq_zero_iff.mp (Nat.le_zero.mp enough)
    exact ⟨c, Loop.run_inl (refines.signalTurn_empty none_) 0, refines⟩
  | succ n ih =>
    cases list : (s.headers h).waitList with
    | nil =>
      refine ⟨c, Loop.run_inl (refines.signalTurn_empty list) _, ?_⟩
      rw [Ke.signalLoop, list]
      exact refines
    | cons b rest =>
      obtain ⟨first, popped⟩ := refines.popWaiter list
      have same : SameRun s (s.setHeader h { s.headers h with waitList := rest }) :=
        ⟨fun _ => rfl, fun _ => rfl, rfl, rfl, rfl, rfl⟩
      have switching' := switching.same same
      obtain ⟨woken, current, state⟩ := switching'.wake busy b.thread statusSuccess
      have turn := popped.wake (t := b.thread) switching'.not_queued statusSuccess
      have shorter := wake_length_le (s.setHeader h { s.headers h with waitList := rest }) b.thread
        statusSuccess h
      have popped_length : ((s.setHeader h { s.headers h with waitList := rest }).headers
          h).waitList.length = rest.length := by simp
      rw [list, List.length_cons] at enough
      obtain ⟨c', run, refines'⟩ := ih turn woken (by rw [current, state]; exact busy) (by omega)
      refine ⟨c', ?_, ?_⟩
      · rw [LinkedState.kiSignalObject, Loop.run_inr (t := LinkedState.kiWakeWaitingThread
          ⟨isolate (remove c.links (.waitListEntry b)) (.waitListEntry b), c.data⟩ b.thread
          statusSuccess)]
        · exact run
        · simp only [LinkedState.signalTurn, first]
          rfl
      · rw [Ke.signalLoop, list]
        exact refines'

theorem Refines.signalWith (refines : Refines c s) (switching : Switching s)
    (busy : (s.threads s.current).state ≠ .waiting) (h : HeaderRef) (v : Int) :
    ∃ fuel c', LinkedState.signalWith fuel c h v = some c' ∧
      Refines c' (kiSignalObject (s.setHeader h { s.headers h with signalState := v }) h) := by
  have raised := refines.setHeader (h := h) (d := { s.headers h with signalState := v }) rfl
  have same : SameRun s (s.setHeader h { s.headers h with signalState := v }) :=
    ⟨fun _ => rfl, fun _ => rfl, rfl, rfl, rfl, rfl⟩
  have header : c.data.headers h = { s.headers h with waitList := [] } := by
    rw [refines.data]
    rfl
  obtain ⟨c', run, refines'⟩ := raised.signalLoop (h := h) (switching.same same) busy _ (le_refl _)
  refine ⟨((s.setHeader h { s.headers h with signalState := v }).headers h).waitList.length + 1, c',
    ?_, refines'⟩
  rw [LinkedState.signalWith, header]
  exact run

theorem Refines.takeNext (refines : Refines c s) :
    ∃ links, LinkedState.takeNext c = (nextThread s, ⟨links, c.data⟩) ∧
      Refines ⟨links, c.data⟩ { s with readyQueue := s.readyQueue.tail } := by
  have next : c.links.next .readyQueue = (s.readyQueue.map .readyEntry).headD .readyQueue :=
    (refines.rings.ring .readyQueue trivial).next_head
  cases queue : s.readyQueue with
  | nil =>
    rw [queue] at next
    change c.links.next .readyQueue = .readyQueue at next
    have same : { s with readyQueue := ([] : List ThreadRef) } = s := by rw [← queue]
    refine ⟨c.links, ?_, ?_⟩
    · rw [LinkedState.takeNext, next, nextThread, queue]
      rfl
    · rw [List.tail_nil, same]
      exact refines
  | cons t rest =>
    rw [queue] at next
    change c.links.next .readyQueue = .readyEntry t at next
    refine ⟨remove c.links (.readyEntry t), ?_, refines.data, refines.rings.popReady queue⟩
    rw [LinkedState.takeNext, next, nextThread, queue]
    rfl

theorem Refines.requeue (refines : Refines c s)
    (unqueued : (s.threads t).state = .running → t ∉ s.readyQueue) :
    Refines (LinkedState.requeue c t) (requeue s t) := by
  rw [LinkedState.requeue, Ke.requeue, refines.bare_thread]
  split_ifs with runs
  · exact refines.queue (unqueued runs.2) rfl
  · exact refines

theorem Refines.schedule (refines : Refines c s) (switching : Switching s) :
    Refines (LinkedState.kiSchedule c) (kiSchedule s) := by
  obtain ⟨links, taken, popped⟩ := refines.takeNext
  have current : c.data.current = s.current := by rw [refines.data]; rfl
  have back := popped.requeue (t := s.current) fun runs queued => by
    have member := List.mem_of_mem_tail queued
    rw [switching.queued, runs] at member
    cases member
  simp only [LinkedState.kiSchedule, taken, current]
  refine ⟨?_, ?_⟩
  · rw [kiSchedule, bare_switchTo, ← back.data]
    rfl
  · rw [kiSchedule, lists_switchTo]
    exact back.rings

/-- A cleared thread is on no list, so that no ring changes. -/
theorem zeroThread_on {l : ThreadLists} {m : Links ListEntry} (on : l.On m) (unready : t ∉ l.ready)
    (unlisted : t ∉ l.listed) (unlinked : ∀ h, ∀ b ∈ l.waiters h, b.thread ≠ t) :
    ThreadLists.On { l with armed := Function.update l.armed t 0 } (LinkedState.zeroThread m t) := by
  have fewer : ∀ u, Function.update l.armed t 0 u ≤ l.armed u := by
    intro u
    by_cases same : u = t
    · simp [same]
    · simp [same]
  refine Threaded.congr (on.disarm _ fewer) fun e head a node => ?_
  have off : a.owner ≠ some t := by
    rcases List.mem_cons.mp node with rfl | node
    · cases a with
      | waitListEntry b =>
        intro same
        have thread : b.thread = t := Option.some.inj same
        have bound : b.index < Function.update l.armed t 0 b.thread := head.1
        rw [thread, Function.update_self] at bound
        exact absurd bound (Nat.not_lt_zero _)
      | readyEntry u => exact head.elim
      | processEntry u => exact head.elim
      | _ => nofun
    · cases e with
      | readyQueue =>
        obtain ⟨u, member, rfl⟩ := List.mem_map.mp node
        exact fun same => unready (Option.some.inj same ▸ member)
      | threadListHead =>
        obtain ⟨u, member, rfl⟩ := List.mem_map.mp node
        exact fun same => unlisted (Option.some.inj same ▸ member)
      | waitListHead h =>
        obtain ⟨b, member, rfl⟩ := List.mem_map.mp node
        exact fun same => unlinked h b member (Option.some.inj same)
      | _ => cases node
  exact ⟨if_neg off, if_neg off⟩

theorem Refines.create (refines : Refines c s) (unready : t ∉ s.readyQueue)
    (unlisted : t ∉ s.processThreads) (unlinked : ∀ h, ∀ b ∈ (s.headers h).waitList, b.thread ≠ t)
    (termination : Option HeaderRef) :
    Refines (LinkedState.keCreateThread c t termination) (keCreateThread s t termination) where
  data := by
    have next : c.data.nextThreadId = s.nextThreadId := by rw [refines.data]; rfl
    simp only [LinkedState.keCreateThread, keCreateThread, next]
    rw [refines.data]
    rfl
  rings := by
    have cleared := zeroThread_on refines.rings unready unlisted unlinked
    have queued := cleared.pushReady unready
    have listed := queued.pushListed unlisted
    have spelled : (keCreateThread s t termination).lists =
        { s.lists with
          ready := s.readyQueue ++ [t]
          listed := s.processThreads ++ [t]
          armed := Function.update s.lists.armed t 0 } := by
      simp only [KeState.lists, keCreateThread, KeState.setThread]
      congr 1
      funext u
      by_cases same : u = t <;> simp [same, KThread.zero]
    rw [spelled]
    exact listed

/-- The scan follows the ring of the thread list, which waking a thread leaves alone. -/
theorem Refines.expire (done : List ThreadRef) {rest : List ThreadRef} (refines : Refines c s) (settled : Settled s)
    (listed : s.processThreads = done ++ rest) :
    ∃ c', Loop.run LinkedState.expireTurn (rest.length + 1)
        ((rest.map .processEntry).headD .threadListHead, c) = some c' ∧
      Refines c' (expireWaits s rest) := by
  induction rest generalizing done c s with
  | nil => exact ⟨c, rfl, refines⟩
  | cons t rest ih =>
    have ring : IsRing c.links .threadListHead (s.processThreads.map .processEntry) :=
      refines.rings.ring .threadListHead trivial
    rw [listed, List.map_append, List.map_cons] at ring
    have next := ring.next_eq
    have settled' := settled.expire [t]
    have turn : Refines (if (s.threads t).state = .waiting ∧ (s.threads t).waitDeadline ≠ 0 ∧
        (s.threads t).waitDeadline ≤ s.tickCount then
          LinkedState.kiWakeWaitingThread c t statusTimeout else c) (expireWaits s [t]) := by
      rw [expireWaits]
      split_ifs with due
      · exact refines.wake settled.not_queued statusTimeout
      · exact refines
    have listed' : (expireWaits s [t]).processThreads = done ++ [t] ++ rest := by
      rw [expireWaits]
      split_ifs with due
      · rw [List.append_assoc]
        exact (wake_frame s t statusTimeout).1.trans listed
      · rw [List.append_assoc]
        exact listed
    obtain ⟨c', run, refines'⟩ := ih (done ++ [t]) turn settled' listed'
    refine ⟨c', ?_, refines'⟩
    have ticks : c.data.tickCount = s.tickCount := by rw [refines.data]; rfl
    rw [List.length_cons, Loop.run_inr (t := ((rest.map .processEntry).headD .threadListHead, _))]
    · exact run
    · rw [← next, ← ticks, ← refines.bare_thread]
      rfl

theorem Refines.spend (refines : Refines c s) :
    Refines ⟨c.links, spendQuantum c.data⟩ (spendQuantum s) where
  data := by
    rw [refines.data]
    rfl
  rings := by
    rw [spendQuantum, lists_setThread]
    · exact refines.rings
    · rfl

theorem Refines.clockTick (refines : Refines c s) (settled : Settled s) :
    ∃ fuel c', LinkedState.keClockTick fuel c = some c' ∧ Refines c' (keClockTick s) := by
  have ticked : Settled { s with tickCount := wrap64 (s.tickCount + 1) } :=
    settled.same ⟨fun _ => rfl, fun _ => rfl, rfl, rfl, rfl, rfl⟩
  have ticks : c.data.tickCount = s.tickCount := by rw [refines.data]; rfl
  have start : Refines ⟨c.links, { c.data with tickCount := wrap64 (c.data.tickCount + 1) }⟩
      { s with tickCount := wrap64 (s.tickCount + 1) } := by
    refine ⟨?_, refines.rings⟩
    rw [ticks, refines.data]
    rfl
  have first : c.links.next .threadListHead =
      (s.processThreads.map .processEntry).headD .threadListHead :=
    (refines.rings.ring .threadListHead trivial).next_head
  obtain ⟨c', run, scanned⟩ := start.expire [] ticked rfl
  have spent : Refines ⟨c'.links, spendQuantum c'.data⟩ (countTick s) := scanned.spend
  have quantum : ((spendQuantum c'.data).threads (spendQuantum c'.data).current).quantum =
      ((countTick s).threads (countTick s).current).quantum := by
    have data : spendQuantum c'.data = (countTick s).bare := spent.data
    rw [data]
    rfl
  refine ⟨s.processThreads.length + 1,
    if ((countTick s).threads (countTick s).current).quantum ≤ 0 then
      LinkedState.kiSchedule ⟨c'.links, spendQuantum c'.data⟩
    else ⟨c'.links, spendQuantum c'.data⟩, ?_, ?_⟩
  · rw [LinkedState.keClockTick]
    simp only [first]
    rw [run, Option.map_some]
    simp only [quantum]
  · rw [keClockTick_eq]
    split_ifs with spent_up
    · exact spent.schedule settled.counted.toSwitching
    · exact spent

theorem kiConsumeSignal_bare (d : DispatcherHeader) :
    kiConsumeSignal { d with waitList := [] } = { kiConsumeSignal d with waitList := [] } := by
  cases d with
  | mk type signalState limit waitList => cases type <;> rfl

theorem bare_consume (s : KeState) (h : HeaderRef) :
    (s.setHeader h (kiConsumeSignal (s.headers h))).bare =
      s.bare.setHeader h (kiConsumeSignal (s.bare.headers h)) := by
  rw [bare_setHeader, ← kiConsumeSignal_bare]
  rfl

theorem lists_consume (s : KeState) (h : HeaderRef) :
    (s.setHeader h (kiConsumeSignal (s.headers h))).lists = s.lists := by
  simp only [KeState.lists, KeState.setHeader]
  congr 1
  funext k
  by_cases same : k = h
  · simp [same, (kiConsumeSignal_lower _).1]
  · simp [same]

theorem consumeSignals_bare (s : KeState) (hs : List HeaderRef) :
    (consumeSignals s hs).bare = consumeSignals s.bare hs ∧ (consumeSignals s hs).lists = s.lists := by
  induction hs generalizing s with
  | nil => exact ⟨rfl, rfl⟩
  | cons h hs ih =>
    obtain ⟨bare, lists⟩ := ih (s.setHeader h (kiConsumeSignal (s.headers h)))
    refine ⟨?_, lists.trans (lists_consume s h)⟩
    rw [consumeSignals, bare, bare_consume]
    rfl

theorem acquireAny_bare (s : KeState) (i : Nat) (hs : List HeaderRef) :
    acquireAny s.bare i hs = (acquireAny s i hs).map (fun r => (r.1, r.2.bare)) ∧
      ∀ r, acquireAny s i hs = some r → r.2.lists = s.lists := by
  induction hs generalizing i with
  | nil => exact ⟨rfl, nofun⟩
  | cons h hs ih =>
    have same : kiCanAcquire (s.bare.headers h) = kiCanAcquire (s.headers h) := rfl
    rw [acquireAny, acquireAny, same]
    split_ifs with ready
    · refine ⟨?_, ?_⟩
      · rw [Option.map_some, bare_consume]
      · rintro r ⟨⟩
        exact lists_consume s h
    · exact ih (i + 1)

theorem tryAcquire_bare (s : KeState) (objects : List HeaderRef) (waitAll : Bool) :
    tryAcquire s.bare objects waitAll =
        (tryAcquire s objects waitAll).map (fun r => (r.1, r.2.bare)) ∧
      ∀ r, tryAcquire s objects waitAll = some r → r.2.lists = s.lists := by
  have same : (objects.all fun h => kiCanAcquire (s.bare.headers h)) =
      objects.all fun h => kiCanAcquire (s.headers h) := rfl
  rw [tryAcquire, tryAcquire, same]
  split_ifs with all ready
  · obtain ⟨bare, lists⟩ := consumeSignals_bare s objects
    refine ⟨?_, ?_⟩
    · rw [Option.map_some, bare]
    · rintro r ⟨⟩
      exact lists
  · exact ⟨rfl, fun r none_ => by cases none_⟩
  · exact acquireAny_bare s 0 objects

theorem armBlocks_refines {i : Nat} {hs : List HeaderRef} (data : c.data = s.bare)
    (rings : ThreadLists.On { s.lists with armed := Function.update s.lists.armed t i } c.links)
    (unlinked : ∀ j, i ≤ j → ∀ h, (⟨t, j⟩ : WaitBlock) ∉ (s.headers h).waitList)
    (count : i + hs.length = (s.threads t).waitBlockCount) :
    Refines (LinkedState.armBlocks c t i hs) (armBlocks s t i hs) := by
  induction hs generalizing c s i with
  | nil =>
    have armed : i = s.lists.armed t := count
    rw [armed, Function.update_eq_self] at rings
    exact ⟨data, rings⟩
  | cons h hs ih =>
    have armed := rings.arm (b := ⟨t, i⟩) (h := h) (fun k => unlinked i (le_refl i) k)
      (Function.update_self ..)
    rw [Function.update_idem] at armed
    rw [List.length_cons] at count
    have lists := lists_setThread s (t := t)
      (k := { s.threads t with waitObject := Function.update (s.threads t).waitObject i h }) rfl
    refine ih ?_ ?_ ?_ ?_
    · rw [bare_setList, data]
      rfl
    · rw [lists_setList, lists]
      exact armed
    · intro j later k
      by_cases same : k = h
      · have apart : j ≠ i := by omega
        simpa [same, apart] using unlinked j (by omega) h
      · simpa [same] using unlinked j (by omega) k
    · rw [setHeader_threads, setThread_threads, if_pos rfl]
      change i + 1 + hs.length = (s.threads t).waitBlockCount
      omega

theorem Refines.arm (refines : Refines c s) (f : WaitFrame)
    (unlinked : ∀ j h, (⟨s.current, j⟩ : WaitBlock) ∉ (s.headers h).waitList) :
    Refines (LinkedState.armWait c f) (armWait s f) := by
  have current : c.data.current = s.current := by rw [refines.data]; rfl
  have prepared : Refines (LinkedState.armBlocks ⟨c.links, c.data.setThread s.current
      { s.threads s.current with
        waitBlockCount := f.objects.length
        waitStatus := statusPending
        waitDeadline := f.deadline }⟩ s.current 0 f.objects)
      (armBlocks (s.setThread s.current { s.threads s.current with
        waitBlockCount := f.objects.length
        waitStatus := statusPending
        waitDeadline := f.deadline }) s.current 0 f.objects) := by
    refine armBlocks_refines ?_ ?_ (fun j _ h => unlinked j h) ?_
    · rw [bare_setThread, refines.data]
    · refine refines.rings.disarm _ fun u => ?_
      by_cases same : u = s.current <;> simp [same, KeState.lists]
    · simp
  simp only [LinkedState.armWait, current, refines.bare_thread, prepared.bare_thread]
  exact prepared.setThread (le_refl _)

theorem Refines.pass (refines : Refines c s) (settled : Settled s) (notIdle : s.current ≠ idleThread)
    (unlinked : ∀ j h, (⟨s.current, j⟩ : WaitBlock) ∉ (s.headers h).waitList) (f : WaitFrame) :
    (LinkedState.waitPass c f).1 = (waitPass s f).1 ∧
      Refines (LinkedState.waitPass c f).2 (waitPass s f).2 := by
  obtain ⟨bare, lists⟩ := tryAcquire_bare s f.objects f.waitAll
  have ticks : c.data.tickCount = s.tickCount := by rw [refines.data]; rfl
  rw [LinkedState.waitPass, waitPass, refines.data, bare]
  cases got : tryAcquire s f.objects f.waitAll with
  | some r =>
    refine ⟨rfl, rfl, ?_⟩
    rw [lists r got]
    exact refines.rings
  | none =>
    simp only [Option.map_none]
    rw [← refines.data, ticks]
    split_ifs with late
    · exact ⟨rfl, refines⟩
    · obtain ⟨others, waiting, -, -, -, only, -⟩ := armWait_eq s f
      have left : Switching (armWait s f) := settled.leave notIdle
        (fun t ht => by rw [others t ht]) (.inl waiting) only.readyQueue only.current
        only.processThreads
      exact ⟨rfl, (refines.arm f unlinked).schedule left⟩

/-- No block of a running thread is on a list. -/
theorem WaitInv.unlinked (inv : WaitInv s) (j : Nat) (h : HeaderRef) :
    (⟨s.current, j⟩ : WaitBlock) ∉ (s.headers h).waitList :=
  fun linked => inv.settled.busy (inv.waits.mem_waiting linked).1

theorem Refines.resume (refines : Refines c s) (inv : WaitInv s)
    (notIdle : s.current ≠ idleThread) (f : WaitFrame) :
    (LinkedState.resumeWait c f).1 = (resumeWait s f).1 ∧
      Refines (LinkedState.resumeWait c f).2 (resumeWait s f).2 := by
  obtain ⟨threads, queue, current, listed, next, ticks⟩ :=
    unlinkBlocks_threads s s.current (s.threads s.current).waitBlockCount
  have only : OnlyHeaders s (kiUnlinkThreadWait s s.current) :=
    ⟨threads, queue, current, listed, next, ticks⟩
  have here : c.data.current = s.current := by rw [refines.data]; rfl
  have unlinkedThread := refines.unlinkThread s.current
  have cleared := unlinkedThread.setThread (t := s.current)
    (k := { s.threads s.current with waitBlockCount := 0, frame := none }) (Nat.zero_le _)
  have settled : Settled ((kiUnlinkThreadWait s s.current).setThread s.current
      { s.threads s.current with waitBlockCount := 0, frame := none }) := by
    refine (inv.settled.same only.sameRun).same ⟨fun u => ?_, fun u => ?_, rfl, rfl, rfl, rfl⟩ <;>
      by_cases same : u = s.current <;> simp [same, only.threads]
  have unlinked : ∀ j h, (⟨s.current, j⟩ : WaitBlock) ∉
      ((kiUnlinkThreadWait s s.current).headers h).waitList := by
    intro j h linked
    rw [kiUnlinkThreadWait_headers] at linked
    exact inv.unlinked j h (List.mem_of_mem_filter linked)
  simp only [LinkedState.resumeWait, resumeWait, here, unlinkedThread.bare_thread, only.threads]
  split_ifs with timedOut
  · exact ⟨rfl, cleared⟩
  · refine cleared.pass settled ?_ ?_ f
    · rw [setThread_current, only.current]
      exact notIdle
    · intro j h
      rw [setThread_current, only.current]
      exact unlinked j h

theorem Refines.terminate (refines : Refines c s) (settled : Settled s)
    (notIdle : s.current ≠ idleThread) :
    ∃ fuel c', LinkedState.keTerminateThread fuel c = some c' ∧ Refines c' (keTerminateThread s) := by
  have current : c.data.current = s.current := by rw [refines.data]; rfl
  have ended := refines.setThread (t := s.current)
    (k := { s.threads s.current with state := .terminated }) (le_refl _)
  have left : Switching (s.setThread s.current
      { s.threads s.current with state := .terminated }) := by
    refine settled.leave notIdle ?_ (Or.inr ?_) rfl rfl rfl
    · intro t ht
      simp [ht]
    · simp
  have done := settled.terminating notIdle
  have signalled : ∃ fuel c', LinkedState.signalTermination fuel
      ⟨c.links, c.data.setThread s.current { s.threads s.current with state := .terminated }⟩
        s.current = some c' ∧ Refines c' (markTerminated s) := by
    rw [markTerminated, signalTermination]
    cases object : ((s.setThread s.current
        { s.threads s.current with state := .terminated }).threads s.current).terminationObject with
    | none =>
      refine ⟨0, _, ?_, ended⟩
      rw [LinkedState.signalTermination, ended.bare_thread, object]
    | some h =>
      obtain ⟨fuel, c', run, woken⟩ := ended.signalWith left (by simp) h 1
      refine ⟨fuel, _, ?_, woken.setThread (k := { ((kiSignalObject ((s.setThread s.current
        { s.threads s.current with state := .terminated }).setHeader h _) h).threads s.current) with
          terminationObject := none }) (le_refl _)⟩
      rw [LinkedState.signalTermination, ended.bare_thread, object]
      simp only [run, Option.map_some, woken.bare_thread]
  obtain ⟨fuel, c', run, marked⟩ := signalled
  refine ⟨fuel, LinkedState.kiSchedule c', ?_, marked.schedule done⟩
  simp only [LinkedState.keTerminateThread, current, refines.bare_thread, run, Option.map_some]

theorem Refines.start {c : LinkedState} (start : LinkedState.Start c) :
    ∃ s, WaitStart s ∧ Refines c s := by
  obtain ⟨links, headers, alone, rfl⟩ := start
  refine ⟨keInitializeScheduler fun h => { headers h with waitList := [] }, ⟨_, fun _ => rfl, rfl⟩,
    rfl, ?_⟩
  have waiters : Threaded links (fun e => ∃ h, e = ListEntry.waitListHead h) (fun _ => []) := by
    refine ⟨?_, ?_⟩
    · rintro _ ⟨h, rfl⟩
      exact .empty (alone h).1 (alone h).2
    · intro e f _ _ apart
      rw [List.singleton_disjoint, List.mem_singleton]
      exact apart
  have ready := waiters.isolate (e := ListEntry.readyQueue) (fun _ _ _ => List.not_mem_nil)
  have listed := ready.isolate (e := ListEntry.threadListHead) (by
    rintro e (rfl | ⟨h, rfl⟩) - <;> simp)
  have idle := listed.insertTail (h := ListEntry.threadListHead) (e := .processEntry idleThread)
    (.inl rfl) (by rintro e (rfl | rfl | ⟨h, rfl⟩) - <;> simp) nofun
  refine idle.mono ?_ ?_
  · intro e head
    cases e with
    | readyQueue => exact ⟨nofun, .inr (.inl rfl)⟩
    | threadListHead => exact ⟨nofun, .inl rfl⟩
    | waitListHead h => exact ⟨nofun, .inr (.inr ⟨h, rfl⟩)⟩
    | waitListEntry b =>
      have armed := head.1
      by_cases same : b.thread = idleThread <;>
        simp [KeState.lists, keInitializeScheduler, same, KThread.zero] at armed
    | _ => exact head.elim
  · intro e head
    cases e <;> simp [ThreadLists.members, KeState.lists, keInitializeScheduler]

/-- One operation returns and keeps to the lists. -/
theorem Refines.step (refines : Refines c s) (inv : WaitInv s) {op : WaitOp}
    (allowed : c.Allowed op) :
    op.Allowed s ∧ ∃ fuel c', c.apply fuel op = some c' ∧ Refines c' (op.apply s) := by
  have switching := inv.settled.toSwitching
  have busy := inv.settled.busy
  have current : c.data.current = s.current := by rw [refines.data]; rfl
  cases op with
  | create t termination =>
    have ring : IsRing c.links .threadListHead (s.processThreads.map .processEntry) :=
      refines.rings.ring .threadListHead trivial
    have unlisted : t ∉ s.processThreads := by
      intro member
      exact allowed (ring.reach_iff.mpr (List.mem_cons_of_mem _ (List.mem_map_of_mem member)))
    have fresh := inv.settled.unlisted t unlisted
    refine ⟨unlisted, 0, _, rfl, refines.create ?_ unlisted ?_ termination⟩
    · intro queued
      rw [switching.queued, fresh] at queued
      cases queued
    · rintro h b linked rfl
      exact unlisted (inv.waits.listed _ (inv.waits.mem_waiting linked).1)
  | yield =>
    refine ⟨?_, 0, _, rfl, refines.schedule switching⟩
    simpa only [LinkedState.Allowed, WaitOp.Allowed, current, refines.bare_thread] using allowed
  | clockTick => exact ⟨trivial, refines.clockTick inv.settled⟩
  | wait objects waitAll timeoutTicks =>
    have allowed' : WaitOp.Allowed s (.wait objects waitAll timeoutTicks) := by
      simpa only [LinkedState.Allowed, WaitOp.Allowed, current, refines.bare_thread] using allowed
    refine ⟨allowed', 0, _, rfl, ?_⟩
    have ticks : c.data.tickCount = s.tickCount := by rw [refines.data]; rfl
    simp only [WaitOp.apply, LinkedState.keWaitForMultipleObjects, keWaitForMultipleObjects,
      waitDeadlineOf, ticks]
    split_ifs with many
    · exact refines
    · exact (refines.pass inv.settled allowed'.1 inv.unlinked _).2
    · exact (refines.pass inv.settled allowed'.1 inv.unlinked _).2
  | resume f =>
    have allowed' : WaitOp.Allowed s (.resume f) := by
      simpa only [LinkedState.Allowed, WaitOp.Allowed, current, refines.bare_thread] using allowed
    exact ⟨allowed', 0, _, rfl, (refines.resume inv allowed'.1 f).2⟩
  | setEvent h | releaseMutant h => exact ⟨trivial, refines.signalWith switching busy h 1⟩
  | resetEvent h =>
    refine ⟨trivial, 0, _, rfl, ?_⟩
    have header : c.data.headers h = { s.headers h with waitList := [] } := by
      rw [refines.data]
      rfl
    have reset := refines.setHeader (h := h) (d := { s.headers h with signalState := 0 }) rfl
    rw [LinkedState.keResetEvent, keResetEvent, header]
    exact reset
  | releaseSemaphore h count =>
    have header : c.data.headers h = { s.headers h with waitList := [] } := by
      rw [refines.data]
      rfl
    refine ⟨trivial, ?_⟩
    have released := refines.signalWith switching busy h (releasedCount (s.headers h) count)
    simp only [LinkedState.apply, LinkedState.keReleaseSemaphore, header]
    exact released
  | terminate =>
    have allowed' : WaitOp.Allowed s .terminate := by
      simpa only [LinkedState.Allowed, WaitOp.Allowed, current, refines.bare_thread] using allowed
    exact ⟨allowed', refines.terminate inv.settled allowed'.1⟩

open LinkedState in
/-- What an operation returns does not depend on the fuel. -/
theorem LinkedState.apply_unique {op : WaitOp} {n n' : Nat} {d d' : LinkedState}
    (first : c.apply n op = some d) (second : c.apply n' op = some d') : d = d' := by
  have signal : ∀ {c d d' : LinkedState} {h v}, signalWith n c h v = some d →
      signalWith n' c h v = some d' → d = d' := Loop.run_unique
  have ended : ∀ {c d d' : LinkedState} {t}, signalTermination n c t = some d →
      signalTermination n' c t = some d' → d = d' := by
    intro c d d' t first second
    rw [signalTermination] at first second
    cases object : (c.data.threads t).terminationObject with
    | none =>
      rw [object] at first second
      exact Option.some.inj (first.symm.trans second)
    | some h =>
      rw [object] at first second
      obtain ⟨e, run, rfl⟩ := Option.map_eq_some_iff.mp first
      obtain ⟨e', run', rfl⟩ := Option.map_eq_some_iff.mp second
      rw [signal run run']
  cases op with
  | setEvent h => exact signal first second
  | releaseSemaphore h count => exact signal first second
  | releaseMutant h => exact signal first second
  | clockTick =>
    obtain ⟨e, run, rfl⟩ := Option.map_eq_some_iff.mp first
    obtain ⟨e', run', rfl⟩ := Option.map_eq_some_iff.mp second
    rw [Loop.run_unique run run']
  | terminate =>
    obtain ⟨e, run, rfl⟩ := Option.map_eq_some_iff.mp first
    obtain ⟨e', run', rfl⟩ := Option.map_eq_some_iff.mp second
    rw [ended run run']
  | _ => exact Option.some.inj (first.symm.trans second)

/-- The rings hold the lists of a run on lists, and every operation that may come next returns
and leaves the rings of the lists it leaves. -/
def KeepsToLists (c : LinkedState) : Prop :=
  ∃ s, Runs.Reachable WaitStart WaitStep s ∧ Refines c s ∧ ∀ op, c.Allowed op →
    op.Allowed s ∧ ∃ fuel c', c.apply fuel op = some c' ∧ Refines c' (op.apply s)

/-- The rings hold the lists of a run on lists, with what every such run keeps. -/
def HoldsRun (c : LinkedState) : Prop :=
  ∃ s, Runs.Reachable WaitStart WaitStep s ∧ WaitInv s ∧ Refines c s

theorem rings_keep_to_lists (run : Runs.Reachable LinkedState.Start LinkedState.Step c) :
    KeepsToLists c := by
  have starts : ∀ c, LinkedState.Start c → HoldsRun c := fun c start => by
    obtain ⟨s, start', refines⟩ := Refines.start start
    exact ⟨s, .of_initial start', waitInv_of_start start', refines⟩
  have steps : ∀ c op c', HoldsRun c → LinkedState.Step c op c' → HoldsRun c' := by
    rintro c op c' ⟨s, run, inv, refines⟩ ⟨allowed, fuel, returns⟩
    obtain ⟨allowed', fuel', c'', returns', refines'⟩ := refines.step inv allowed
    rw [LinkedState.apply_unique returns returns']
    exact ⟨_, run.next ⟨allowed', rfl⟩, inv.step ⟨allowed', rfl⟩, refines'⟩
  obtain ⟨s, run, inv, refines⟩ := run.invariant starts steps
  exact ⟨s, run, refines, fun op allowed => refines.step inv allowed⟩

/-- The scheduler with every entry alone. -/
def aloneState : LinkedState :=
  LinkedState.keInitializeScheduler ⟨fun e => e, fun e => e⟩ plainHeaders

/-- Thread 1 is created, gets the processor and waits twice on the same event. -/
def linkedTwice : LinkedState :=
  (LinkedState.keWaitForMultipleObjects
    (LinkedState.kiSchedule (LinkedState.keCreateThread aloneState 1 none)) [5, 5] false
    infiniteTicks).2

theorem rings_keep_to_lists_twice :
    linkedTwice.links.next (.waitListHead 5) = .waitListEntry ⟨1, 0⟩ ∧
      linkedTwice.links.next (.waitListEntry ⟨1, 0⟩) = .waitListEntry ⟨1, 1⟩ ∧
      KeepsToLists linkedTwice := by
  have start : LinkedState.Start aloneState := ⟨_, _, fun _ => ⟨rfl, rfl⟩, rfl⟩
  have initially : Runs.Reachable LinkedState.Start LinkedState.Step aloneState := .of_initial start
  have fresh : aloneState.Allowed (.create 1 none) := by
    obtain ⟨s, ⟨headers, -, rfl⟩, refines⟩ := Refines.start start
    have ring := refines.rings.ring .threadListHead trivial
    intro reached
    simpa [ThreadLists.members, KeState.lists, keInitializeScheduler, idleThread] using
      ring.reach_iff.mp reached
  have created := initially.next (l := WaitOp.create 1 none)
    (t := LinkedState.keCreateThread aloneState 1 none) ⟨fresh, 0, rfl⟩
  have yielded := created.next (l := WaitOp.yield)
    (t := LinkedState.kiSchedule (LinkedState.keCreateThread aloneState 1 none)) ⟨(rfl : _ = _), 0, rfl⟩
  have blocked := yielded.next (l := WaitOp.wait [5, 5] false infiniteTicks) (t := linkedTwice)
    ⟨(⟨by decide, rfl⟩ : _ ∧ _), 0, rfl⟩
  exact ⟨by decide, by decide, rings_keep_to_lists blocked⟩

end Ke
