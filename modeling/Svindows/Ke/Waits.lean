import Svindows.Ke.Scheduler

/-!
# No lost wakeup

`Waits` ties the wait lists to the waiting threads: a block is linked exactly
when its thread waits, once, on the object it names, and a waiting thread's
objects do not allow it to proceed. A signal breaks the last part for one
object until its list is drained, so it is stated with that object left out.
-/

namespace Ke

open Nt

/-- The objects do not satisfy the wait. -/
def Unsatisfied (s : KeState) (f : WaitFrame) : Prop :=
  if f.waitAll then ∃ h ∈ f.objects, (s.headers h).signalState ≤ 0
  else ∀ h ∈ f.objects, (s.headers h).signalState ≤ 0

def IsWaiting (s : KeState) (t : ThreadRef) : Prop := (s.threads t).state = .waiting

instance (s : KeState) (t : ThreadRef) : Decidable (IsWaiting s t) :=
  inferInstanceAs (Decidable (_ = _))

/-- Block `i` of `t` belongs on the list of `h`. -/
def Belongs (s : KeState) (t : ThreadRef) (i : Nat) (h : HeaderRef) : Prop :=
  IsWaiting s t ∧ i < (s.threads t).waitBlockCount ∧ (s.threads t).waitObject i = h

instance (s : KeState) (t : ThreadRef) (i : Nat) (h : HeaderRef) :
    Decidable (Belongs s t i h) := inferInstanceAs (Decidable (_ ∧ _ ∧ _))

/-- The wait blocks name the objects of the blocked call. -/
structure Framed (k : KThread) (f : WaitFrame) : Prop where
  frame : k.frame = some f
  count : k.waitBlockCount = f.objects.length
  objects : ∀ i (hi : i < f.objects.length), k.waitObject i = f.objects[i]

/-- The wait lists agree with the waiting threads; `skip` is the object that is
being signalled. -/
structure Waits (s : KeState) (skip : HeaderRef → Prop) : Prop where
  linked : ∀ h t i, (s.headers h).waitList.count ⟨t, i⟩ = if Belongs s t i h then 1 else 0
  framed : ∀ t, IsWaiting s t → ∃ f, Framed (s.threads t) f
  unsatisfied : ∀ t f, IsWaiting s t → (s.threads t).frame = some f →
    (∀ h ∈ f.objects, ¬ skip h) → Unsatisfied s f
  listed : ∀ t, IsWaiting s t → t ∈ s.processThreads

/-- No thread waits beyond its deadline. -/
def Deadlines (s : KeState) : Prop :=
  ∀ t, IsWaiting s t → (s.threads t).waitDeadline ≠ 0 → s.tickCount < (s.threads t).waitDeadline

/-- Nothing is being signalled. -/
def noHeader (_ : HeaderRef) : Prop := False

variable {s s' : KeState} {skip : HeaderRef → Prop} {status : NtStatus} {t : ThreadRef}

theorem Waits.mem_waiting (w : Waits s skip)
    {h : HeaderRef} {b : WaitBlock} (mem : b ∈ (s.headers h).waitList) :
    Belongs s b.thread b.index h := by
  by_contra no
  have count := w.linked h b.thread b.index
  rw [if_neg no] at count
  exact absurd mem (List.count_eq_zero.mp count)

/-- The same waiting threads with the same wait data, the same lists, and no
object that has become more signalled. -/
theorem Waits.same (w : Waits s skip) (waiting : ∀ t, IsWaiting s' t ↔ IsWaiting s t)
    (data : ∀ t, IsWaiting s t → (s'.threads t).waitObject = (s.threads t).waitObject ∧
      (s'.threads t).waitBlockCount = (s.threads t).waitBlockCount ∧
      (s'.threads t).frame = (s.threads t).frame)
    (lists : ∀ h, (s'.headers h).waitList = (s.headers h).waitList)
    (signals : ∀ h, ¬ skip h → (s.headers h).signalState ≤ 0 → (s'.headers h).signalState ≤ 0)
    (listed : ∀ t ∈ s.processThreads, t ∈ s'.processThreads) : Waits s' skip where
  linked := by
    intro h t i
    rw [lists, w.linked]
    have same : Belongs s' t i h ↔ Belongs s t i h := by
      simp only [Belongs, waiting]
      constructor
      · rintro ⟨hw, hi, ho⟩
        obtain ⟨objects, count, _⟩ := data t hw
        exact ⟨hw, count ▸ hi, objects ▸ ho⟩
      · rintro ⟨hw, hi, ho⟩
        obtain ⟨objects, count, _⟩ := data t hw
        exact ⟨hw, count.symm ▸ hi, objects.symm ▸ ho⟩
    simp only [same]
  framed := by
    intro t ht
    rw [waiting] at ht
    obtain ⟨f, frame, count, objects⟩ := w.framed t ht
    obtain ⟨sameObjects, sameCount, sameFrame⟩ := data t ht
    refine ⟨f, sameFrame.trans frame, sameCount.trans count, ?_⟩
    intro i hi
    rw [sameObjects]
    exact objects i hi
  unsatisfied := by
    intro t f ht frame clear
    rw [waiting] at ht
    rw [(data t ht).2.2] at frame
    have old := w.unsatisfied t f ht frame clear
    simp only [Unsatisfied] at old ⊢
    split
    · rw [if_pos ‹_›] at old
      obtain ⟨h, hm, hs⟩ := old
      exact ⟨h, hm, signals h (clear h hm) hs⟩
    · rw [if_neg ‹_›] at old
      intro h hm
      exact signals h (clear h hm) (old h hm)
  listed := by
    intro t ht
    rw [waiting] at ht
    exact listed t (w.listed t ht)

theorem schedule_waiting (h : Switching s) (t : ThreadRef) :
    IsWaiting (kiSchedule s) t ↔ IsWaiting s t := by
  simp only [IsWaiting, kiSchedule_state]
  by_cases hn : t = nextThread s
  · rw [if_pos hn]
    rcases h.next_state with idle | ready
    · rw [hn, idle, h.idleRunning]
    · rw [hn, ready]
      decide
  · rw [if_neg hn]
    by_cases hc : t = s.current ∧ Requeued s
    · rw [if_pos hc, hc.1, hc.2.2]
      decide
    · rw [if_neg hc]

theorem Waits.schedule (w : Waits s skip) (h : Switching s) : Waits (kiSchedule s) skip := by
  obtain ⟨headers, listed, _, _⟩ := kiSchedule_frame s
  refine w.same (schedule_waiting h) ?_ ?_ ?_ ?_
  · intro t _
    have same := kiSchedule_sameWait s t
    rw [KThread.SameWait] at same
    rw [same]
    exact ⟨rfl, rfl, rfl⟩
  · intro g
    rw [headers]
  · intro g _ hs
    rw [headers]
    exact hs
  · intro t ht
    rw [listed]
    exact ht

theorem Deadlines.schedule (d : Deadlines s) (h : Switching s) : Deadlines (kiSchedule s) := by
  obtain ⟨_, _, _, ticks⟩ := kiSchedule_frame s
  intro t ht
  have same := kiSchedule_sameWait s t
  rw [KThread.SameWait] at same
  rw [same, ticks]
  exact d t ((schedule_waiting h t).mp ht)

theorem wake_waiting {u : ThreadRef} :
    IsWaiting (kiWakeWaitingThread s t status) u ↔ IsWaiting s u ∧ u ≠ t := by
  by_cases waiting : (s.threads t).state = .waiting
  · rw [kiWakeWaitingThread_eq status waiting]
    by_cases hu : u = t
    · simp [IsWaiting, hu, KThread.woken]
    · simp [IsWaiting, hu]
  · rw [kiWakeWaitingThread_other status waiting]
    constructor
    · intro hw
      refine ⟨hw, ?_⟩
      rintro rfl
      exact waiting hw
    · exact fun h => h.1

theorem wake_thread {u : ThreadRef} (other : u ≠ t) :
    (kiWakeWaitingThread s t status).threads u = s.threads u := by
  by_cases waiting : (s.threads t).state = .waiting
  · rw [kiWakeWaitingThread_eq status waiting]
    simp [other]
  · rw [kiWakeWaitingThread_other status waiting]

theorem wake_frame (s : KeState) (t : ThreadRef) (status : NtStatus) :
    (kiWakeWaitingThread s t status).processThreads = s.processThreads ∧
      (kiWakeWaitingThread s t status).tickCount = s.tickCount ∧
      (kiWakeWaitingThread s t status).current = s.current ∧
      ∀ h, ((kiWakeWaitingThread s t status).headers h).signalState =
        (s.headers h).signalState := by
  by_cases waiting : (s.threads t).state = .waiting
  · rw [kiWakeWaitingThread_eq status waiting]
    exact ⟨rfl, rfl, rfl, fun _ => rfl⟩
  · rw [kiWakeWaitingThread_other status waiting]
    exact ⟨rfl, rfl, rfl, fun _ => rfl⟩

/-- Taking the blocks of `t` off all lists leaves every other block where it was. -/
theorem Waits.count_without (w : Waits s skip) (t u : ThreadRef) (i : Nat) (h : HeaderRef) :
    (withoutBlocks s t h).count ⟨u, i⟩ = if Belongs s u i h ∧ u ≠ t then 1 else 0 := by
  by_cases hu : u = t
  · have none : ¬ (⟨u, i⟩ : WaitBlock) ∈ withoutBlocks s t h := by
      intro mem
      simp only [withoutBlocks, List.mem_filter] at mem
      have belongs := w.mem_waiting mem.1
      have kept := mem.2
      subst hu
      simp only [decide_eq_true_eq, true_and, not_lt] at kept
      exact absurd belongs.2.1 (by simpa using kept)
    rw [List.count_eq_zero.mpr none, if_neg (fun both => both.2 hu)]
  · have keep : (withoutBlocks s t h).count ⟨u, i⟩ = (s.headers h).waitList.count ⟨u, i⟩ :=
      List.count_filter (by simp [hu])
    rw [keep, w.linked]
    simp [hu]

theorem Waits.wake (w : Waits s skip) (t : ThreadRef)
    (status : NtStatus) : Waits (kiWakeWaitingThread s t status) skip := by
  by_cases waiting : (s.threads t).state = .waiting
  · obtain ⟨listed, _, _, signals⟩ := wake_frame s t status
    refine ⟨?_, ?_, ?_, ?_⟩
    · intro h u i
      have belongs : Belongs (kiWakeWaitingThread s t status) u i h ↔
          Belongs s u i h ∧ u ≠ t := by
        simp only [Belongs, wake_waiting]
        by_cases hu : u = t
        · simp [hu]
        · rw [wake_thread hu]
          simp [hu]
      have list : ((kiWakeWaitingThread s t status).headers h).waitList = withoutBlocks s t h := by
        rw [kiWakeWaitingThread_eq status waiting]
      rw [list, w.count_without]
      simp only [belongs]
    · intro u hu
      obtain ⟨hw, other⟩ := wake_waiting.mp hu
      rw [wake_thread other]
      exact w.framed u hw
    · intro u f hu frame clear
      obtain ⟨hw, other⟩ := wake_waiting.mp hu
      rw [wake_thread other] at frame
      have old := w.unsatisfied u f hw frame clear
      simpa only [Unsatisfied, signals] using old
    · intro u hu
      rw [listed]
      exact w.listed u (wake_waiting.mp hu).1
  · rw [kiWakeWaitingThread_other status waiting]
    exact w

theorem Deadlines.wake (d : Deadlines s) (t : ThreadRef) (status : NtStatus) :
    Deadlines (kiWakeWaitingThread s t status) := by
  obtain ⟨_, ticks, _, _⟩ := wake_frame s t status
  intro u hu
  obtain ⟨hw, other⟩ := wake_waiting.mp hu
  rw [wake_thread other, ticks]
  exact d u hw

/-- Popping a block first changes nothing: its thread's wake removes it anyway. -/
theorem Waits.pop_wake (w : Waits s skip) {g : HeaderRef}
    {b : WaitBlock} {rest : List WaitBlock} (list : (s.headers g).waitList = b :: rest)
    (status : NtStatus) :
    kiWakeWaitingThread (s.setHeader g { s.headers g with waitList := rest }) b.thread status =
      kiWakeWaitingThread s b.thread status := by
  have belongs := w.mem_waiting (h := g) (b := b) (by rw [list]; exact List.mem_cons_self)
  have waiting : (s.threads b.thread).state = .waiting := belongs.1
  rw [kiWakeWaitingThread_eq status waiting, kiWakeWaitingThread_eq (s := s.setHeader g
    { s.headers g with waitList := rest }) status waiting]
  have headers : (fun h => { (s.setHeader g { s.headers g with waitList := rest }).headers h with
      waitList := withoutBlocks (s.setHeader g { s.headers g with waitList := rest }) b.thread h }) =
      fun h => { s.headers h with waitList := withoutBlocks s b.thread h } := by
    funext h
    by_cases hg : h = g
    · subst hg
      have inside := belongs.2.1
      simp [withoutBlocks, list, inside]
    · simp [hg, withoutBlocks]
  rw [headers]
  rfl

theorem Waits.wake_shorter (w : Waits s skip)
    {g : HeaderRef} {b : WaitBlock} {rest : List WaitBlock}
    (list : (s.headers g).waitList = b :: rest) (status : NtStatus) :
    ((kiWakeWaitingThread s b.thread status).headers g).waitList.length ≤ rest.length := by
  have belongs := w.mem_waiting (h := g) (b := b) (by rw [list]; exact List.mem_cons_self)
  have waiting : (s.threads b.thread).state = .waiting := belongs.1
  rw [kiWakeWaitingThread_eq status waiting]
  simp only [withoutBlocks, list]
  rw [List.filter_cons_of_neg (by simp [belongs.2.1])]
  exact List.length_filter_le _ _

theorem Waits.signalLoop (w : Waits s skip)
    (g : HeaderRef) (fuel : Nat) (enough : (s.headers g).waitList.length ≤ fuel) :
    Waits (signalLoop g fuel s) skip ∧ ((Ke.signalLoop g fuel s).headers g).waitList = [] := by
  induction fuel generalizing s with
  | zero => exact ⟨w, List.length_eq_zero_iff.mp (Nat.le_zero.mp enough)⟩
  | succ fuel ih =>
    simp only [Ke.signalLoop]
    split
    · rename_i empty
      exact ⟨w, empty⟩
    · rename_i b rest list
      have shorter := w.wake_shorter list statusSuccess
      rw [list, List.length_cons] at enough
      rw [w.pop_wake list]
      exact ih (w.wake b.thread statusSuccess) (by omega)

theorem Deadlines.signalLoop (d : Deadlines s) (g : HeaderRef) (fuel : Nat) :
    Deadlines (signalLoop g fuel s) := by
  induction fuel generalizing s with
  | zero => exact d
  | succ fuel ih =>
    simp only [Ke.signalLoop]
    split
    · exact d
    · rename_i b rest _
      have popped : Deadlines (s.setHeader g { s.headers g with waitList := rest }) := d
      exact ih (popped.wake b.thread statusSuccess)

/-- Once the list of the signalled object is empty, nobody waits on it. -/
theorem Waits.drained {g : HeaderRef} (w : Waits s (· = g))
    (empty : (s.headers g).waitList = []) : Waits s noHeader := by
  refine { w with unsatisfied := ?_ }
  intro t f ht frame _
  refine w.unsatisfied t f ht frame ?_
  rintro h hm rfl
  obtain ⟨f', framed⟩ := w.framed t ht
  have same : f' = f := Option.some.inj (framed.frame.symm.trans frame)
  subst same
  obtain ⟨i, hi, at_i⟩ := List.getElem_of_mem hm
  have count := w.linked h t i
  have belongs : Belongs s t i h :=
    ⟨ht, by rw [framed.count]; exact hi, (framed.objects i hi).trans at_i⟩
  rw [if_pos belongs, empty] at count
  simp at count

/-- Raising one object's signal and draining its list loses no wakeup. -/
theorem Waits.raise (w : Waits s noHeader) (g : HeaderRef) (v : Int) :
    Waits (kiSignalObject (s.setHeader g { s.headers g with signalState := v }) g) noHeader := by
  have raised : Waits (s.setHeader g { s.headers g with signalState := v }) (· = g) := by
    have weaker : Waits s (· = g) :=
      { w with unsatisfied := fun t f ht frame _ => w.unsatisfied t f ht frame (fun _ _ => id) }
    refine weaker.same (fun _ => Iff.rfl) (fun _ _ => ⟨rfl, rfl, rfl⟩) ?_ ?_ (fun _ h => h)
    · intro h
      by_cases hg : h = g <;> simp [hg]
    · intro h other hs
      simpa [other] using hs
  obtain ⟨drained, empty⟩ := raised.signalLoop g _ (le_refl _)
  exact drained.drained empty

theorem Deadlines.raise (d : Deadlines s) (g : HeaderRef) (v : Int) :
    Deadlines (kiSignalObject (s.setHeader g { s.headers g with signalState := v }) g) := by
  have raised : Deadlines (s.setHeader g { s.headers g with signalState := v }) := d
  exact raised.signalLoop g _

/-- Lowering signals keeps everybody blocked. -/
theorem Waits.lower (w : Waits s noHeader) {g : HeaderRef} {d : DispatcherHeader}
    (list : d.waitList = (s.headers g).waitList)
    (lower : (s.headers g).signalState ≤ 0 → d.signalState ≤ 0) :
    Waits (s.setHeader g d) noHeader := by
  refine w.same (fun _ => Iff.rfl) (fun _ _ => ⟨rfl, rfl, rfl⟩) ?_ ?_ (fun _ h => h)
  · intro h
    by_cases hg : h = g
    · simp [hg, list]
    · simp [hg]
  · intro h _ hs
    by_cases hg : h = g
    · subst hg
      simpa using lower hs
    · simpa [hg] using hs

theorem armBlocks_frame (s : KeState) (t : ThreadRef) (i : Nat) (hs : List HeaderRef) :
    (∀ h, ((armBlocks s t i hs).headers h).signalState = (s.headers h).signalState) ∧
      (∀ u, u ≠ t → (armBlocks s t i hs).threads u = s.threads u) ∧
      (armBlocks s t i hs).readyQueue = s.readyQueue ∧
      (armBlocks s t i hs).current = s.current ∧
      (armBlocks s t i hs).processThreads = s.processThreads ∧
      (armBlocks s t i hs).nextThreadId = s.nextThreadId ∧
      (armBlocks s t i hs).tickCount = s.tickCount := by
  induction hs generalizing s i with
  | nil => exact ⟨fun _ => rfl, fun _ _ => rfl, rfl, rfl, rfl, rfl, rfl⟩
  | cons g hs ih =>
    simp only [armBlocks]
    obtain ⟨signals, others, rest⟩ := ih ((s.setThread t { s.threads t with
      waitObject := Function.update (s.threads t).waitObject i g }).setHeader g
      { s.headers g with waitList := (s.headers g).waitList ++ [⟨t, i⟩] }) (i + 1)
    refine ⟨?_, ?_, rest⟩
    · intro h
      refine (signals h).trans ?_
      by_cases hg : h = g <;> simp [hg]
    · intro u hu
      refine (others u hu).trans ?_
      simp [hu]

theorem armBlocks_thread (s : KeState) (t : ThreadRef) (i : Nat) (hs : List HeaderRef) :
    (armBlocks s t i hs).threads t = { s.threads t with
      waitObject := fun j => if i ≤ j then (hs[j - i]?).getD ((s.threads t).waitObject j)
        else (s.threads t).waitObject j } := by
  induction hs generalizing s i with
  | nil => simp [armBlocks]
  | cons g hs ih =>
    simp only [armBlocks, ih, setHeader_threads, setThread_threads, if_true]
    congr 1
    funext j
    rcases Nat.lt_trichotomy j i with lt | rfl | gt
    · simp [Nat.not_le.mpr lt, show ¬ i + 1 ≤ j by omega, show j ≠ i by omega]
    · simp
    · obtain ⟨k, rfl⟩ : ∃ k, j = i + 1 + k := ⟨j - (i + 1), by omega⟩
      have first : i + 1 + k - (i + 1) = k := by omega
      have second : i + 1 + k - i = k + 1 := by omega
      simp [first, second, show i ≤ i + 1 + k by omega, show i + 1 + k ≠ i by omega]

/-- Arming links each block once, on the object at its index. -/
theorem armBlocks_count (s : KeState) (t u : ThreadRef) (i j : Nat) (hs : List HeaderRef)
    (h : HeaderRef) :
    ((armBlocks s t i hs).headers h).waitList.count ⟨u, j⟩ =
      (s.headers h).waitList.count ⟨u, j⟩ +
        if u = t ∧ i ≤ j ∧ hs[j - i]? = some h then 1 else 0 := by
  induction hs generalizing s i with
  | nil => simp [armBlocks]
  | cons g hs ih =>
    simp only [armBlocks, ih, setThread_headers]
    have here : (((s.setThread t { s.threads t with
        waitObject := Function.update (s.threads t).waitObject i g }).setHeader g
        { s.headers g with waitList := (s.headers g).waitList ++ [⟨t, i⟩] }).headers
        h).waitList.count ⟨u, j⟩ =
        (s.headers h).waitList.count ⟨u, j⟩ + if u = t ∧ j = i ∧ g = h then 1 else 0 := by
      by_cases hg : h = g
      · subst hg
        simp only [setHeader_headers, if_true, List.count_append, List.count_singleton,
          beq_iff_eq, WaitBlock.mk.injEq]
        simp only [eq_comm, and_true]
      · simp [hg, Ne.symm hg]
    rw [here, Nat.add_assoc]
    congr 1
    rcases Nat.lt_trichotomy j i with lt | rfl | gt
    · simp [Nat.not_le.mpr lt, show ¬ i + 1 ≤ j by omega, show j ≠ i by omega]
    · simp
    · obtain ⟨k, rfl⟩ : ∃ k, j = i + 1 + k := ⟨j - (i + 1), by omega⟩
      have first : i + 1 + k - (i + 1) = k := by omega
      have second : i + 1 + k - i = k + 1 := by omega
      simp [first, second, show i ≤ i + 1 + k by omega, show i + 1 + k ≠ i by omega]

theorem kiCanAcquire_iff (d : DispatcherHeader) : kiCanAcquire d = true ↔ 0 < d.signalState := by
  simp only [kiCanAcquire]
  split <;> simp

theorem acquireAny_none {i : Nat} {hs : List HeaderRef}
    (failed : acquireAny s i hs = none) : ∀ h ∈ hs, (s.headers h).signalState ≤ 0 := by
  induction hs generalizing i with
  | nil => simp
  | cons g hs ih =>
    simp only [acquireAny] at failed
    split at failed
    · exact absurd failed (by simp)
    · rename_i no
      intro h hm
      rcases List.mem_cons.mp hm with rfl | hm
      · simpa [kiCanAcquire_iff] using no
      · exact ih failed h hm

theorem tryAcquire_none {f : WaitFrame}
    (failed : tryAcquire s f.objects f.waitAll = none) : Unsatisfied s f := by
  simp only [tryAcquire, Unsatisfied] at failed ⊢
  split
  · rw [if_pos ‹_›] at failed
    split at failed
    · exact absurd failed (by simp)
    · rename_i no
      simpa [kiCanAcquire_iff] using no
  · rw [if_neg ‹_›] at failed
    exact acquireAny_none failed

/-- An object that cannot be acquired is not made acquirable by consuming. -/
theorem kiConsumeSignal_lower (d : DispatcherHeader) :
    (kiConsumeSignal d).waitList = d.waitList ∧
      (d.signalState ≤ 0 → (kiConsumeSignal d).signalState ≤ 0) := by
  have down : d.signalState ≤ 0 → d.signalState - 1 ≤ 0 := by omega
  simp only [kiConsumeSignal]
  split
  · exact ⟨rfl, id⟩
  · exact ⟨rfl, id⟩
  · exact ⟨rfl, fun _ => le_refl 0⟩
  · exact ⟨rfl, down⟩
  · exact ⟨rfl, down⟩

theorem Waits.consume (w : Waits s noHeader) (h : HeaderRef) :
    Waits (s.setHeader h (kiConsumeSignal (s.headers h))) noHeader :=
  w.lower (kiConsumeSignal_lower _).1 (kiConsumeSignal_lower _).2

/-- Acquiring only lowers signals. -/
structure OnlyHeaders (s s' : KeState) : Prop where
  threads : s'.threads = s.threads
  readyQueue : s'.readyQueue = s.readyQueue
  current : s'.current = s.current
  processThreads : s'.processThreads = s.processThreads
  nextThreadId : s'.nextThreadId = s.nextThreadId
  tickCount : s'.tickCount = s.tickCount

theorem OnlyHeaders.sameRun (o : OnlyHeaders s s') : SameRun s s' where
  state := fun t => by rw [o.threads]
  threadId := fun t => by rw [o.threads]
  readyQueue := o.readyQueue
  current := o.current
  processThreads := o.processThreads
  nextThreadId := o.nextThreadId

theorem OnlyHeaders.deadlines (o : OnlyHeaders s s') (d : Deadlines s) : Deadlines s' := by
  intro t
  simp only [IsWaiting, o.threads, o.tickCount]
  exact d t

theorem consumeSignals_onlyHeaders (s : KeState) (hs : List HeaderRef) :
    OnlyHeaders s (consumeSignals s hs) := by
  induction hs generalizing s with
  | nil => exact ⟨rfl, rfl, rfl, rfl, rfl, rfl⟩
  | cons h hs ih =>
    have only := ih (s.setHeader h (kiConsumeSignal (s.headers h)))
    exact ⟨only.threads, only.readyQueue, only.current, only.processThreads, only.nextThreadId,
      only.tickCount⟩

theorem acquireAny_onlyHeaders {u : KeState} {i : Nat} {hs : List HeaderRef}
    (got : acquireAny s i hs = some (status, u)) : OnlyHeaders s u := by
  induction hs generalizing i with
  | nil => exact absurd got (by simp [acquireAny])
  | cons h hs ih =>
    simp only [acquireAny] at got
    split at got
    · obtain ⟨_, rfl⟩ := Prod.mk.inj (Option.some.inj got)
      exact ⟨rfl, rfl, rfl, rfl, rfl, rfl⟩
    · exact ih got

theorem tryAcquire_onlyHeaders {u : KeState} {hs : List HeaderRef}
    {all : Bool} (got : tryAcquire s hs all = some (status, u)) : OnlyHeaders s u := by
  simp only [tryAcquire] at got
  split at got
  · split at got
    · obtain ⟨_, rfl⟩ := Prod.mk.inj (Option.some.inj got)
      exact consumeSignals_onlyHeaders s hs
    · exact absurd got (by simp)
  · exact acquireAny_onlyHeaders got

theorem Waits.consumeSignals (w : Waits s noHeader) (hs : List HeaderRef) :
    Waits (consumeSignals s hs) noHeader := by
  induction hs generalizing s with
  | nil => exact w
  | cons h hs ih => exact ih (w.consume h)

theorem Waits.acquireAny (w : Waits s noHeader) {i : Nat}
    {hs : List HeaderRef} (got : acquireAny s i hs = some (status, s')) : Waits s' noHeader := by
  induction hs generalizing i with
  | nil => exact absurd got (by simp [Ke.acquireAny])
  | cons h hs ih =>
    simp only [Ke.acquireAny] at got
    split at got
    · simp only [Option.some.injEq, Prod.mk.injEq] at got
      obtain ⟨_, rfl⟩ := got
      exact w.consume h
    · exact ih got

theorem Waits.tryAcquire (w : Waits s noHeader)
    {hs : List HeaderRef} {all : Bool} (got : tryAcquire s hs all = some (status, s')) :
    Waits s' noHeader := by
  simp only [Ke.tryAcquire] at got
  split at got
  · split at got
    · simp only [Option.some.injEq, Prod.mk.injEq] at got
      obtain ⟨_, rfl⟩ := got
      exact w.consumeSignals hs
    · exact absurd got (by simp)
  · exact w.acquireAny got

/-- The invariant between operations. -/
structure WaitInv (s : KeState) : Prop where
  settled : Settled s
  waits : Waits s noHeader
  deadlines : Deadlines s

theorem armWait_eq (s : KeState) (f : WaitFrame) :
    (∀ u, u ≠ s.current → (armWait s f).threads u = s.threads u) ∧
      ((armWait s f).threads s.current).state = .waiting ∧
      Framed ((armWait s f).threads s.current) f ∧
      ((armWait s f).threads s.current).waitDeadline = f.deadline ∧
      ((armWait s f).threads s.current).threadId = (s.threads s.current).threadId ∧
      OnlyHeaders { s with threads := (armWait s f).threads } (armWait s f) ∧
      (∀ h, ((armWait s f).headers h).signalState = (s.headers h).signalState) ∧
      ∀ h u j, ((armWait s f).headers h).waitList.count ⟨u, j⟩ =
        (s.headers h).waitList.count ⟨u, j⟩ +
          if u = s.current ∧ f.objects[j]? = some h then 1 else 0 := by
  have frame := armBlocks_frame (s.setThread s.current { s.threads s.current with
    waitBlockCount := f.objects.length, waitStatus := statusPending, waitDeadline := f.deadline })
    s.current 0 f.objects
  have thread := armBlocks_thread (s.setThread s.current { s.threads s.current with
    waitBlockCount := f.objects.length, waitStatus := statusPending, waitDeadline := f.deadline })
    s.current 0 f.objects
  have count := fun u j h => armBlocks_count (s.setThread s.current { s.threads s.current with
    waitBlockCount := f.objects.length, waitStatus := statusPending, waitDeadline := f.deadline })
    s.current u 0 j f.objects h
  simp only [Nat.zero_le, if_true, Nat.sub_zero, true_and] at thread count
  obtain ⟨signals, others, queue, current, listed, next, ticks⟩ := frame
  simp only [armWait]
  refine ⟨?_, ?_, ⟨?_, ?_, ?_⟩, ?_, ?_, ⟨?_, ?_, ?_, ?_, ?_, ?_⟩, ?_, ?_⟩
  · intro u hu
    simp only [setThread_threads, if_neg hu]
    rw [others u hu]
    simp [hu]
  · simp
  · simp
  · simp [thread]
  · intro i hi
    simp [thread, List.getElem?_eq_getElem hi]
  · simp [thread]
  · simp [thread]
  · rfl
  · simp [queue]
  · simp [current]
  · simp [listed]
  · simp [next]
  · simp [ticks]
  · intro h
    simp [signals]
  · intro h u j
    simp [count]

theorem Switching.current_listed (h : Switching s) : s.current ∈ s.processThreads := by
  by_contra no
  exact h.outgoing.2 (h.unlisted _ no)

/-- Blocking keeps the invariant when the wait could not be satisfied. -/
theorem WaitInv.block (inv : WaitInv s) (notIdle : s.current ≠ idleThread)
    {f : WaitFrame} (blocked : Unsatisfied s f)
    (pending : f.deadline ≠ 0 → s.tickCount < f.deadline) :
    WaitInv (kiBlockCurrentThread (armWait s f)) := by
  obtain ⟨others, waiting, framed, deadline, _, only, signals, count⟩ := armWait_eq s f
  have awake : ¬ IsWaiting s s.current := inv.settled.busy
  have left : Switching (armWait s f) := by
    refine inv.settled.leave notIdle ?_ (Or.inl waiting) only.readyQueue only.current
      only.processThreads
    intro t ht
    rw [others t ht]
  have waits : Waits (armWait s f) noHeader := by
    refine ⟨?_, ?_, ?_, ?_⟩
    · intro h u j
      rw [count, inv.waits.linked]
      by_cases hu : u = s.current
      · subst hu
        have old : ¬ Belongs s s.current j h := fun b => awake b.1
        have new : Belongs (armWait s f) s.current j h ↔ f.objects[j]? = some h := by
          simp only [Belongs, IsWaiting, waiting, true_and, framed.count]
          constructor
          · rintro ⟨hj, ho⟩
            rw [framed.objects j hj] at ho
            rw [List.getElem?_eq_getElem hj, ho]
          · intro hj
            obtain ⟨lt, eq⟩ := List.getElem?_eq_some_iff.mp hj
            exact ⟨lt, (framed.objects j lt).trans eq⟩
        simp [old, new]
      · have same : Belongs (armWait s f) u j h ↔ Belongs s u j h := by
          simp only [Belongs, IsWaiting, others u hu]
        simp [hu, same]
    · intro u hu
      by_cases hc : u = s.current
      · subst hc
        exact ⟨f, framed⟩
      · have hw : IsWaiting s u := by
          simpa only [IsWaiting, others u hc] using hu
        rw [others u hc]
        exact inv.waits.framed u hw
    · intro u g hu frame clear
      by_cases hc : u = s.current
      · subst hc
        have same : f = g := Option.some.inj (framed.frame.symm.trans frame)
        subst same
        simpa only [Unsatisfied, signals] using blocked
      · have hw : IsWaiting s u := by
          simpa only [IsWaiting, others u hc] using hu
        rw [others u hc] at frame
        simpa only [Unsatisfied, signals] using inv.waits.unsatisfied u g hw frame clear
    · intro u hu
      rw [only.processThreads]
      by_cases hc : u = s.current
      · rw [hc]
        exact inv.settled.toSwitching.current_listed
      · have hw : IsWaiting s u := by
          simpa only [IsWaiting, others u hc] using hu
        exact inv.waits.listed u hw
  have deadlines : Deadlines (armWait s f) := by
    intro u hu
    rw [only.tickCount]
    by_cases hc : u = s.current
    · rw [hc, deadline]
      exact pending
    · have hw : IsWaiting s u := by
        simpa only [IsWaiting, others u hc] using hu
      rw [others u hc]
      exact inv.deadlines u hw
  exact ⟨left.schedule, waits.schedule left, deadlines.schedule left⟩

theorem WaitInv.pass (inv : WaitInv s) (notIdle : s.current ≠ idleThread)
    (f : WaitFrame) : WaitInv (waitPass s f).2 := by
  simp only [waitPass]
  split
  · rename_i status s' got
    have only := tryAcquire_onlyHeaders got
    exact ⟨inv.settled.same only.sameRun, inv.waits.tryAcquire got, only.deadlines inv.deadlines⟩
  · rename_i failed
    split
    · exact inv
    · rename_i going
      refine inv.block notIdle (tryAcquire_none failed) ?_
      intro nonzero
      by_contra late
      exact going (Or.inr ⟨nonzero, by omega⟩)

theorem setAwake_waits {k : KThread} (w : Waits s noHeader)
    (d : Deadlines s) (before : ¬ IsWaiting s t) (after : k.state ≠ .waiting) :
    Waits (s.setThread t k) noHeader ∧ Deadlines (s.setThread t k) := by
  have waiting : ∀ u, IsWaiting (s.setThread t k) u ↔ IsWaiting s u := by
    intro u
    by_cases hu : u = t
    · subst hu
      have before' : ¬ (s.threads u).state = .waiting := before
      simp [IsWaiting, after, before']
    · simp [IsWaiting, hu]
  have other : ∀ u, IsWaiting s u → u ≠ t := by
    rintro u hu rfl
    exact before hu
  refine ⟨w.same waiting ?_ (fun _ => rfl) (fun _ _ h => h) (fun _ h => h), ?_⟩
  · intro u hu
    simp [other u hu]
  · intro u hu
    have hw := (waiting u).mp hu
    simp only [setThread_threads, if_neg (other u hw)]
    exact d u hw

theorem WaitInv.setAwake (inv : WaitInv s) {t : ThreadRef} {k : KThread}
    (awake : ¬ IsWaiting s t) (state : k.state = (s.threads t).state)
    (id : k.threadId = (s.threads t).threadId) : WaitInv (s.setThread t k) := by
  obtain ⟨waits, deadlines⟩ := setAwake_waits inv.waits inv.deadlines awake
    (by rw [state]; exact awake)
  refine ⟨inv.settled.same ⟨?_, ?_, rfl, rfl, rfl, rfl⟩, waits, deadlines⟩
  · intro u
    by_cases hu : u = t <;> simp [hu, state]
  · intro u
    by_cases hu : u = t <;> simp [hu, id]

theorem WaitInv.resume (inv : WaitInv s) (notIdle : s.current ≠ idleThread)
    (f : WaitFrame) : WaitInv (resumeWait s f).2 := by
  have awake : ¬ IsWaiting s s.current := inv.settled.busy
  obtain ⟨threads, queue, current, listed, next, ticks⟩ :=
    unlinkBlocks_threads s s.current (s.threads s.current).waitBlockCount
  have only : OnlyHeaders s (kiUnlinkThreadWait s s.current) :=
    ⟨threads, queue, current, listed, next, ticks⟩
  -- a running thread has no block linked, so the cleanup finds nothing
  have unlinked : WaitInv (kiUnlinkThreadWait s s.current) := by
    refine ⟨inv.settled.same only.sameRun, ⟨?_, ?_, ?_, ?_⟩, only.deadlines inv.deadlines⟩
    · intro h u i
      rw [kiUnlinkThreadWait_headers, inv.waits.count_without]
      have same : (Belongs s u i h ∧ u ≠ s.current) ↔
          Belongs (kiUnlinkThreadWait s s.current) u i h := by
        simp only [Belongs, IsWaiting, only.threads]
        constructor
        · exact fun b => b.1
        · intro b
          refine ⟨b, ?_⟩
          rintro rfl
          exact awake b.1
      simp only [same]
    · intro u hu
      simp only [IsWaiting, only.threads] at hu ⊢
      exact inv.waits.framed u hu
    · intro u g hu frame clear
      simp only [IsWaiting, only.threads] at hu frame
      have old := inv.waits.unsatisfied u g hu frame clear
      simpa only [Unsatisfied, kiUnlinkThreadWait_headers] using old
    · intro u hu
      simp only [IsWaiting, only.threads] at hu
      rw [only.processThreads]
      exact inv.waits.listed u hu
  have still : ¬ IsWaiting (kiUnlinkThreadWait s s.current) s.current := by
    simpa only [IsWaiting, only.threads] using awake
  have cleared := unlinked.setAwake (t := s.current)
    (k := { (kiUnlinkThreadWait s s.current).threads s.current with
      waitBlockCount := 0, frame := none }) still rfl rfl
  simp only [resumeWait]
  split
  · exact cleared
  · refine cleared.pass ?_ f
    simpa [only.current] using notIdle

theorem WaitInv.raise (inv : WaitInv s) (g : HeaderRef) (v : Int) :
    WaitInv (kiSignalObject (s.setHeader g { s.headers g with signalState := v }) g) := by
  have raised : Settled (s.setHeader g { s.headers g with signalState := v }) :=
    inv.settled.same ⟨fun _ => rfl, fun _ => rfl, rfl, rfl, rfl, rfl⟩
  refine ⟨?_, inv.waits.raise g v, inv.deadlines.raise g v⟩
  obtain ⟨done, current, state⟩ := raised.toSwitching.signal raised.busy g
    ((s.setHeader g { s.headers g with signalState := v }).headers g).waitList.length
  refine ⟨done, ?_⟩
  have here : (kiSignalObject (s.setHeader g { s.headers g with signalState := v }) g).current =
      s.current := current
  rw [here]
  exact state.trans raised.currentRunning

theorem WaitInv.reset (inv : WaitInv s) (g : HeaderRef) : WaitInv (keResetEvent s g) :=
  ⟨inv.settled.same ⟨fun _ => rfl, fun _ => rfl, rfl, rfl, rfl, rfl⟩,
    inv.waits.lower rfl (fun _ => le_refl 0), inv.deadlines⟩

theorem WaitInv.create (inv : WaitInv s) {t : ThreadRef}
    {termination : Option HeaderRef} (fresh : t ∉ s.processThreads) :
    WaitInv (keCreateThread s t termination) := by
  have other : ∀ u, IsWaiting s u → u ≠ t := by
    rintro u hu rfl
    exact fresh (inv.waits.listed u hu)
  have waiting : ∀ u, IsWaiting (keCreateThread s t termination) u ↔ IsWaiting s u := by
    intro u
    by_cases hu : u = t
    · have : ¬ IsWaiting s t := fun hw => other t hw rfl
      simp [IsWaiting, keCreateThread, hu] at this ⊢
      exact this
    · simp [IsWaiting, keCreateThread, hu]
  refine ⟨inv.settled.create fresh, inv.waits.same waiting ?_ (fun _ => rfl) (fun _ _ h => h)
    (fun _ h => List.mem_append_left _ h), ?_⟩
  · intro u hu
    simp [keCreateThread, other u hu]
  · intro u hu
    have hw := (waiting u).mp hu
    have same : (keCreateThread s t termination).threads u = s.threads u := by
      simp [keCreateThread, other u hw]
    rw [same]
    exact inv.deadlines u hw

theorem Waits.expire (w : Waits s skip) (ts : List ThreadRef) : Waits (expireWaits s ts) skip := by
  induction ts generalizing s with
  | nil => exact w
  | cons t ts ih =>
    simp only [expireWaits]
    refine ih ?_
    split
    · exact w.wake t statusTimeout
    · exact w

theorem expire_due (s : KeState) (ts : List ThreadRef) :
    (expireWaits s ts).tickCount = s.tickCount ∧
      ∀ t, IsWaiting (expireWaits s ts) t → (expireWaits s ts).threads t = s.threads t ∧
        (t ∈ ts → (s.threads t).waitDeadline ≠ 0 → s.tickCount < (s.threads t).waitDeadline) := by
  induction ts generalizing s with
  | nil => exact ⟨rfl, fun t _ => ⟨rfl, fun h => by simp at h⟩⟩
  | cons u ts ih =>
    simp only [expireWaits]
    by_cases due : (s.threads u).state = .waiting ∧ (s.threads u).waitDeadline ≠ 0 ∧
        (s.threads u).waitDeadline ≤ s.tickCount
    · rw [if_pos due]
      obtain ⟨ticks, rest⟩ := ih (kiTimeoutThreadWait s u)
      obtain ⟨_, woken, _, _⟩ := wake_frame s u statusTimeout
      refine ⟨ticks.trans woken, ?_⟩
      intro t ht
      obtain ⟨same, due'⟩ := rest t ht
      have other : t ≠ u := by
        have here : IsWaiting (kiTimeoutThreadWait s u) t := by
          simpa only [IsWaiting, same] using ht
        exact (wake_waiting.mp here).2
      have kept : (kiTimeoutThreadWait s u).threads t = s.threads t := wake_thread other
      refine ⟨same.trans kept, ?_⟩
      intro mem nonzero
      have tick : (kiTimeoutThreadWait s u).tickCount = s.tickCount := woken
      rw [kept, tick] at due'
      exact due' ((List.mem_cons.mp mem).resolve_left other) nonzero
    · rw [if_neg due]
      obtain ⟨ticks, rest⟩ := ih s
      refine ⟨ticks, ?_⟩
      intro t ht
      obtain ⟨same, due'⟩ := rest t ht
      refine ⟨same, ?_⟩
      intro mem nonzero
      rcases List.mem_cons.mp mem with rfl | mem
      · have hw : (s.threads t).state = .waiting := by
          simpa only [IsWaiting, same] using ht
        by_contra late
        exact due ⟨hw, nonzero, by omega⟩
      · exact due' mem nonzero

theorem WaitInv.clockTick (inv : WaitInv s) : WaitInv (keClockTick s) := by
  have ticked : Settled { s with tickCount := wrap64 (s.tickCount + 1) } :=
    inv.settled.same ⟨fun _ => rfl, fun _ => rfl, rfl, rfl, rfl, rfl⟩
  have waits : Waits { s with tickCount := wrap64 (s.tickCount + 1) } noHeader :=
    inv.waits.same (fun _ => Iff.rfl) (fun _ _ => ⟨rfl, rfl, rfl⟩) (fun _ => rfl)
      (fun _ _ h => h) (fun _ h => h)
  have listed := waits.listed
  have expired := ticked.expire s.processThreads
  have waits' := waits.expire s.processThreads
  obtain ⟨ticks, due⟩ := expire_due { s with tickCount := wrap64 (s.tickCount + 1) }
    s.processThreads
  have deadlines : Deadlines
      (expireWaits { s with tickCount := wrap64 (s.tickCount + 1) } s.processThreads) := by
    intro t ht
    obtain ⟨same, notDue⟩ := due t ht
    have hw : IsWaiting { s with tickCount := wrap64 (s.tickCount + 1) } t := by
      simpa only [IsWaiting, same] using ht
    rw [same, ticks]
    exact notDue (listed t hw)
  simp only [keClockTick]
  generalize expireWaits { s with tickCount := wrap64 (s.tickCount + 1) } s.processThreads = u
    at expired waits' deadlines
  have spent : WaitInv (spendQuantum u) :=
    WaitInv.setAwake ⟨expired, waits', deadlines⟩ expired.busy rfl rfl
  split
  · exact ⟨spent.settled.toSwitching.schedule, spent.waits.schedule spent.settled.toSwitching,
      spent.deadlines.schedule spent.settled.toSwitching⟩
  · exact spent

theorem WaitInv.yield (inv : WaitInv s) : WaitInv (keYield s) :=
  ⟨inv.settled.toSwitching.schedule, inv.waits.schedule inv.settled.toSwitching,
    inv.deadlines.schedule inv.settled.toSwitching⟩

theorem signalTermination_waits (w : Waits s noHeader)
    (d : Deadlines s) (dead : (s.threads t).state = .terminated) :
    Waits (signalTermination s t) noHeader ∧ Deadlines (signalTermination s t) := by
  simp only [signalTermination]
  split
  · exact ⟨w, d⟩
  · rename_i g _
    have still : ((kiSignalObject (s.setHeader g { s.headers g with signalState := 1 })
        g).threads t).state = .terminated := signal_terminated g _ dead
    refine setAwake_waits (w.raise g 1) (d.raise g 1) ?_ ?_
    · simp only [IsWaiting, still]
      decide
    · simp [still]

theorem WaitInv.terminate (inv : WaitInv s) (notIdle : s.current ≠ idleThread) :
    WaitInv (keTerminateThread s) := by
  have left : Switching (s.setThread s.current
      { s.threads s.current with state := .terminated }) := by
    refine inv.settled.leave notIdle ?_ (Or.inr ?_) rfl rfl rfl
    · intro t ht
      simp [ht]
    · simp
  obtain ⟨waits, deadlines⟩ := setAwake_waits (t := s.current)
    (k := { s.threads s.current with state := .terminated }) inv.waits inv.deadlines
    inv.settled.busy (by simp)
  obtain ⟨waits', deadlines'⟩ := signalTermination_waits (t := s.current) waits deadlines (by simp)
  have switching := left.signalTermination (by simp)
  exact ⟨switching.schedule, waits'.schedule switching, deadlines'.schedule switching⟩

inductive WaitOp where
  | create (t : ThreadRef) (termination : Option HeaderRef)
  | yield
  | clockTick
  /-- The current thread calls `KeWaitForMultipleObjects`. -/
  | wait (objects : List HeaderRef) (waitAll : Bool) (timeoutTicks : Nat)
  /-- The current thread continues a wait it was blocked in. -/
  | resume (f : WaitFrame)
  | setEvent (h : HeaderRef)
  | resetEvent (h : HeaderRef)
  | releaseSemaphore (h : HeaderRef) (count : Int)
  | releaseMutant (h : HeaderRef)
  | terminate

def WaitOp.apply (s : KeState) : WaitOp → KeState
  | .create t termination => keCreateThread s t termination
  | .yield => keYield s
  | .clockTick => keClockTick s
  | .wait objects waitAll timeoutTicks =>
    (keWaitForMultipleObjects s objects waitAll timeoutTicks).2
  | .resume f => (resumeWait s f).2
  | .setEvent h => keSetEvent s h
  | .resetEvent h => keResetEvent s h
  | .releaseSemaphore h count => keReleaseSemaphore s h count
  | .releaseMutant h => keReleaseMutant s h
  | .terminate => keTerminateThread s

/-- A thread blocked in a wait can only continue it, and the idle thread
neither waits nor terminates. Signals and ticks come at any time. -/
def WaitOp.Allowed (s : KeState) : WaitOp → Prop
  | .create t _ => t ∉ s.processThreads
  | .yield => (s.threads s.current).frame = none
  | .wait _ _ _ | .terminate =>
    s.current ≠ idleThread ∧ (s.threads s.current).frame = none
  | .resume f => s.current ≠ idleThread ∧ (s.threads s.current).frame = some f
  | _ => True

def WaitStep (s : KeState) (op : WaitOp) (s' : KeState) : Prop :=
  op.Allowed s ∧ s' = op.apply s

/-- The scheduler as it starts, with any objects nobody waits on. -/
def WaitStart (s : KeState) : Prop :=
  ∃ headers, (∀ h, (headers h).waitList = []) ∧ s = keInitializeScheduler headers

theorem WaitInv.step {op : WaitOp} (inv : WaitInv s) (step : WaitStep s op s') : WaitInv s' := by
  obtain ⟨allowed, rfl⟩ := step
  cases op with
  | create t termination => exact inv.create allowed
  | yield => exact inv.yield
  | clockTick => exact inv.clockTick
  | wait objects waitAll timeoutTicks =>
    simp only [WaitOp.apply, keWaitForMultipleObjects]
    split
    · exact inv
    · exact inv.pass allowed.1 _
  | resume f => exact inv.resume allowed.1 f
  | setEvent h => exact inv.raise h 1
  | resetEvent h => exact inv.reset h
  | releaseSemaphore h count => exact inv.raise h _
  | releaseMutant h => exact inv.raise h 1
  | terminate => exact inv.terminate allowed.1

theorem waitInv_of_start (start : WaitStart s) : WaitInv s := by
  obtain ⟨headers, empty, rfl⟩ := start
  have awake : ∀ t, ¬ IsWaiting (keInitializeScheduler headers) t := by
    intro t
    by_cases ht : t = idleThread <;>
      simp [IsWaiting, keInitializeScheduler, ht, KThread.zero]
  refine ⟨settled_of_start ⟨headers, rfl⟩, ⟨?_, ?_, ?_, ?_⟩, ?_⟩
  · intro h t i
    rw [if_neg (fun b => awake t b.1)]
    simp [keInitializeScheduler, empty]
  · exact fun t ht => absurd ht (awake t)
  · exact fun t _ ht => absurd ht (awake t)
  · exact fun t ht => absurd ht (awake t)
  · exact fun t ht => absurd ht (awake t)

/-- No wakeup is lost. -/
structure NoLostWakeup (s : KeState) : Prop where
  linkedIff : ∀ t i, (∃ h, (⟨t, i⟩ : WaitBlock) ∈ (s.headers h).waitList) ↔
    IsWaiting s t ∧ i < (s.threads t).waitBlockCount
  linkedOnce : ∀ t i, IsWaiting s t → i < (s.threads t).waitBlockCount → ∀ h,
    (s.headers h).waitList.count ⟨t, i⟩ = if h = (s.threads t).waitObject i then 1 else 0
  /-- A waiting thread is inside some wait, of one kind or the other. -/
  blockedIn : ∀ t, IsWaiting s t → ∃ f, (s.threads t).frame = some f
  anyWait : ∀ t f, IsWaiting s t → (s.threads t).frame = some f → f.waitAll = false →
    ∀ i, i < (s.threads t).waitBlockCount →
      ¬ 0 < (s.headers ((s.threads t).waitObject i)).signalState
  allWait : ∀ t f, IsWaiting s t → (s.threads t).frame = some f → f.waitAll = true →
    ¬ ∀ i, i < (s.threads t).waitBlockCount →
      0 < (s.headers ((s.threads t).waitObject i)).signalState
  dueWoken : ∀ t, IsWaiting s t → (s.threads t).waitDeadline ≠ 0 →
    ¬ (s.threads t).waitDeadline ≤ s.tickCount

theorem WaitInv.noLostWakeup (inv : WaitInv s) : NoLostWakeup s where
  linkedIff := by
    intro t i
    constructor
    · rintro ⟨h, mem⟩
      have belongs := inv.waits.mem_waiting mem
      exact ⟨belongs.1, belongs.2.1⟩
    · rintro ⟨hw, hi⟩
      refine ⟨(s.threads t).waitObject i, List.count_pos_iff.mp ?_⟩
      rw [inv.waits.linked, if_pos ⟨hw, hi, rfl⟩]
      decide
  linkedOnce := by
    intro t i hw hi h
    rw [inv.waits.linked]
    simp only [Belongs, hw, hi, true_and, eq_comm]
  blockedIn := by
    intro t hw
    obtain ⟨f, framed⟩ := inv.waits.framed t hw
    exact ⟨f, framed.frame⟩
  anyWait := by
    intro t f hw frame any i hi
    obtain ⟨f', framed⟩ := inv.waits.framed t hw
    have same : f' = f := Option.some.inj (framed.frame.symm.trans frame)
    subst same
    have blocked := inv.waits.unsatisfied t f' hw frame (fun _ _ => id)
    simp only [Unsatisfied, any, Bool.false_eq_true, if_false] at blocked
    rw [framed.count] at hi
    rw [framed.objects i hi]
    have := blocked _ (List.getElem_mem hi)
    omega
  allWait := by
    intro t f hw frame all every
    obtain ⟨f', framed⟩ := inv.waits.framed t hw
    have same : f' = f := Option.some.inj (framed.frame.symm.trans frame)
    subst same
    have blocked := inv.waits.unsatisfied t f' hw frame (fun _ _ => id)
    simp only [Unsatisfied, all, if_true] at blocked
    obtain ⟨h, hm, hs⟩ := blocked
    obtain ⟨i, hi, at_i⟩ := List.getElem_of_mem hm
    have up := every i (by rw [framed.count]; exact hi)
    rw [framed.objects i hi, at_i] at up
    omega
  dueWoken := by
    intro t hw nonzero late
    have := inv.deadlines t hw nonzero
    omega

/-- In every state between operations, linked blocks and waiting threads agree
and no thread waits on what it could have, or past its deadline. -/
theorem no_lost_wakeup {s : KeState} (run : Runs.Reachable WaitStart WaitStep s) :
    NoLostWakeup s := by
  have inv : WaitInv s := run.invariant (fun _ start => waitInv_of_start start)
    (fun _ _ _ inv step => inv.step step)
  exact inv.noLostWakeup

/-- Thread 1 is created, gets the processor and waits twice on the same event. -/
def waitsTwice : KeState :=
  (keWaitForMultipleObjects afterYield [5, 5] false infiniteTicks).2

/-- The event is set while the thread waits on it twice. -/
theorem no_lost_wakeup_event : IsWaiting waitsTwice 1 ∧
    (waitsTwice.headers 5).waitList = [⟨1, 0⟩, ⟨1, 1⟩] ∧ NoLostWakeup waitsTwice ∧
    NoLostWakeup (keSetEvent waitsTwice 5) ∧ ¬ IsWaiting (keSetEvent waitsTwice 5) 1 := by
  have start : Runs.Reachable WaitStart WaitStep (keInitializeScheduler plainHeaders) :=
    .of_initial ⟨plainHeaders, fun _ => rfl, rfl⟩
  have created := start.next (l := .create 1 none)
    (t := keCreateThread (keInitializeScheduler plainHeaders) 1 none)
    ⟨by simp [WaitOp.Allowed, keInitializeScheduler, idleThread], rfl⟩
  have yielded : Runs.Reachable WaitStart WaitStep afterYield :=
    created.next (l := .yield) ⟨by simp [WaitOp.Allowed, keInitializeScheduler, keCreateThread,
      idleThread, KThread.zero], rfl⟩
  have current : afterYield.current = 1 := by decide
  have blocked : Runs.Reachable WaitStart WaitStep waitsTwice := by
    refine yielded.next (l := .wait [5, 5] false infiniteTicks) ⟨⟨?_, ?_⟩, rfl⟩
    · rw [current]
      decide
    · rw [current]
      decide
  have set : Runs.Reachable WaitStart WaitStep (keSetEvent waitsTwice 5) :=
    blocked.next (l := .setEvent 5) ⟨trivial, rfl⟩
  exact ⟨by decide, by decide, no_lost_wakeup blocked, no_lost_wakeup set, by decide⟩

end Ke
