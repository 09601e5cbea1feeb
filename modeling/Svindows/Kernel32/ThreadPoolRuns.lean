import Mathlib.Algebra.Ring.Nat
import Mathlib.Data.List.Nodup
import Mathlib.Data.Fintype.Card
import Svindows.Lib.Threads
import Svindows.Kernel32.ThreadPool

/-!
# The work queue in a run

Three things hold in every state as long as the semaphore takes every release: only
one thread is inside the lock and the list in memory is the queue, up to the
statement that thread is at; an item is in one place if its flag is set and in none
otherwise; and every queued item has a token, in the semaphore or with a thread. A
release that fails breaks all three: it leaves the item queued without a token and
clears its flag, so that the item can be queued again.
-/

namespace Kernel32

/-- From `h` on, the links visit the items of the list in order and end. -/
def Linked (next : WorkItem → Option WorkItem) : Option WorkItem → List WorkItem → Prop
  | h, [] => h = none
  | h, w :: q => h = some w ∧ Linked next (next w) q

/-- The list from the head visits the queued items and ends at the tail. -/
def Chained (m : PoolMemory) : Prop :=
  Linked m.next m.head m.queued ∧ m.tail = m.queued.getLast?

theorem Linked.update {next : WorkItem → Option WorkItem} {h : Option WorkItem} {q : List WorkItem}
    (linked : Linked next h q) {w : WorkItem} (outside : w ∉ q) (v : Option WorkItem) :
    Linked (Function.update next w v) h q := by
  induction q generalizing h with
  | nil => exact linked
  | cons a q ih =>
    have other : a ≠ w := fun same => outside (same ▸ List.mem_cons_self)
    refine ⟨linked.1, ?_⟩
    rw [Function.update_of_ne other]
    exact ih linked.2 fun member => outside (List.mem_cons_of_mem a member)

/-- A last item is linked in behind the others. -/
theorem Linked.append {next : WorkItem → Option WorkItem} {h : Option WorkItem} {q : List WorkItem}
    {w last : WorkItem} (linked : Linked next h q) (nodup : q.Nodup) (outside : w ∉ q)
    (ends : next w = none) (is_last : q.getLast? = some last) :
    Linked (Function.update next last (some w)) h (q ++ [w]) := by
  induction q generalizing h with
  | nil => cases is_last
  | cons a q ih =>
    obtain ⟨fresh, rest⟩ := List.nodup_cons.mp nodup
    have other : w ≠ a := fun same => outside (same ▸ List.mem_cons_self)
    have out : w ∉ q := fun member => outside (List.mem_cons_of_mem a member)
    refine ⟨linked.1, ?_⟩
    cases q with
    | nil =>
      obtain rfl : a = last := by simpa using is_last
      rw [Function.update_self]
      refine ⟨rfl, ?_⟩
      rw [Function.update_of_ne other]
      exact ends
    | cons b q =>
      rw [List.getLast?_cons_cons] at is_last
      have before : a ≠ last := fun same => fresh (same ▸ List.mem_of_getLast? is_last)
      rw [Function.update_of_ne before]
      exact ih linked.2 rest out is_last

theorem Linked.eq_nil {next : WorkItem → Option WorkItem} {q : List WorkItem}
    (linked : Linked next none q) : q = [] := by
  cases q with
  | nil => rfl
  | cons a q => cases linked.1

namespace PoolPc

/-- Between the acquisition and the release of the lock. -/
def critical : PoolPc → Nat
  | .clearNext _ | .link _ | .setTail _ | .unlock _ => 1
  | .first | .pop _ | .trimTail _ | .detach _ | .leave _ => 1
  | _ => 0

/-- Starting the workers. -/
def creates : PoolPc → Nat
  | .createSemaphore _ | .createThread _ _ => 1
  | _ => 0

/-- Bringing item `w` to the queue, or taking it away and calling it. -/
def carries (w : WorkItem) : PoolPc → Nat
  | .lock v | .clearNext v | .link v => if w = v then 1 else 0
  | .trimTail v | .detach v | .leave (some v) | .call v | .finish v => if w = v then 1 else 0
  | _ => 0

/-- Carrying an item `w` that was not called yet. -/
def awaits (w : WorkItem) : PoolPc → Nat
  | .finish _ => 0
  | pc => pc.carries w

/-- In a submission of `w` that did not return yet. -/
def unanswered (w : WorkItem) : PoolPc → Nat
  | .lock v | .clearNext v | .link v | .setTail v | .unlock v | .release v => if w = v then 1 else 0
  | _ => 0

/-- With a token taken from the semaphore for which no item was taken yet. -/
def token : PoolPc → Nat
  | .lockQueue | .first | .pop _ => 1
  | _ => 0

/-- With an item queued for which the semaphore was not released yet. -/
def owes : PoolPc → Nat
  | .setTail _ | .unlock _ | .release _ => 1
  | _ => 0

/-- Where a thread can be before the workers are ready. -/
def early : PoolPc → Bool
  | .idle _ | .ensure _ | .claim _ | .createSemaphore _ | .createThread _ _ | .await _ => true
  | .start | .wait _ => true
  | _ => false

end PoolPc

/-- The sum of `f` over the threads. -/
def total (f : PoolPc → Nat) (threads : List PoolPc) : Nat := (threads.map f).sum

theorem total_set (f : PoolPc → Nat) {threads : List PoolPc} {t : Nat} {pc : PoolPc}
    (here : threads[t]? = some pc) (pc' : PoolPc) (created : List PoolPc) :
    total f (threads.set t pc' ++ created) + f pc = total f threads + (f pc' + total f created) := by
  have moved := Threads.sumOver_set f here pc'
  simp only [total, List.map_append, List.sum_append]
  simp only [Threads.sumOver] at moved
  omega

theorem le_total (f : PoolPc → Nat) {threads : List PoolPc} {pc : PoolPc} (here : pc ∈ threads) :
    f pc ≤ total f threads :=
  Threads.le_sumOver f here

theorem mem_set_cases (f : PoolPc → Nat) {threads : List PoolPc} {t : Nat} {pc pc' other : PoolPc}
    (here : threads[t]? = some pc) (member : other ∈ threads.set t pc') :
    other = pc' ∨ other ∈ threads ∧ f other + f pc ≤ total f threads :=
  (Threads.pair_le_sumOver here member).imp id fun old => ⟨old.1, old.2 f⟩

section

variable {m : PoolMemory} {c : PoolChoice} {pc : PoolPc}

/-- The lock is taken and released by the thread that enters and leaves. -/
theorem advance_critical (held : pc.critical ≠ 0 → m.lock = true) :
    (advance m c pc).1.lock.toNat + pc.critical =
      m.lock.toNat + ((advance m c pc).2.1.critical + total PoolPc.critical (advance m c pc).2.2) := by
  fun_cases advance m c pc <;> simp_all [PoolPc.critical, total]

def WorkerState.isStarting (state : WorkerState) : Nat := if state = .starting then 1 else 0

theorem advance_creates (starting : pc.creates ≠ 0 → m.workerState = .starting) :
    (advance m c pc).1.workerState.isStarting + pc.creates =
      m.workerState.isStarting +
        ((advance m c pc).2.1.creates + total PoolPc.creates (advance m c pc).2.2) := by
  fun_cases advance m c pc <;> simp_all [PoolPc.creates, WorkerState.isStarting, total]

/-- Once the workers are ready they stay so. -/
theorem advance_ready (starting : pc.creates ≠ 0 → m.workerState = .starting)
    (ready : m.workerState = .ready) : (advance m c pc).1.workerState = .ready := by
  fun_cases advance m c pc <;> simp_all [PoolPc.creates]

theorem advance_early (early : m.workerState ≠ .ready → pc.early = true)
    (empty : m.workerState ≠ .ready → ∀ g, m.counts g = 0) :
    (advance m c pc).1.workerState ≠ .ready →
      (advance m c pc).1.queued = m.queued ∧ (advance m c pc).2.1.early = true := by
  fun_cases advance m c pc <;> simp_all [PoolPc.early]
  -- a worker that finds a token
  rename_i g _ some_
  by_contra unready
  rw [empty unready g] at some_
  cases some_

theorem count_singleton_eq (w v : WorkItem) : [v].count w = if w = v then 1 else 0 := by
  by_cases here : v = w
  · simp [here]
  · simp [here, Ne.symm here]

theorem count_erase_add {v : WorkItem} {q : List WorkItem} (there : v ∈ q) (w : WorkItem) :
    (q.erase v).count w + (if w = v then 1 else 0) = q.count w := by
  have some_ := List.count_pos_iff.mpr there
  by_cases here : w = v
  · subst here
    rw [List.count_erase_self, if_pos rfl]
    omega
  · rw [List.count_erase_of_ne here, if_neg here, Nat.add_zero]

/-- An item is in one place if its flag is set. -/
theorem advance_carries (w : WorkItem) (sound : ∀ v, pc ≠ .retract v)
    (flagged : ∀ v, pc = .finish v → m.submitted v = true)
    (there : ∀ v, pc = .pop v → v ∈ m.queued) :
    ((advance m c pc).1.submitted w).toNat + pc.carries w + m.queued.count w =
      (m.submitted w).toNat + ((advance m c pc).2.1.carries w +
        total (PoolPc.carries w) (advance m c pc).2.2) + (advance m c pc).1.queued.count w := by
  fun_cases advance m c pc <;> simp_all [PoolPc.carries, total, count_singleton_eq]
  · -- the flag is set
    rename_i v unset
    by_cases here : w = v <;> simp [here, unset]
  · -- the item is linked behind another one
    omega
  · -- the item is linked as the first
    omega
  · -- the item is unlinked
    have count := count_erase_add there w
    omega
  · -- the flag is cleared
    rename_i v
    by_cases here : w = v <;> simp [here, flagged]

/-- A submission is waiting for its call where the item is, until it is called. -/
theorem advance_awaits (w : WorkItem) (there : ∀ v, pc = .pop v → v ∈ m.queued) :
    (advance m c pc).1.invoked w + ((advance m c pc).2.1.awaits w +
        total (PoolPc.awaits w) (advance m c pc).2.2) + (advance m c pc).1.queued.count w +
        m.entered w =
      m.invoked w + pc.awaits w + m.queued.count w + (advance m c pc).1.entered w := by
  fun_cases advance m c pc <;>
    simp_all [PoolPc.awaits, PoolPc.carries, total, count_singleton_eq]
  · -- the submission takes the flag
    rename_i v _
    by_cases here : w = v
    · simp [here]
      omega
    · simp [here]
  · omega
  · omega
  · have count := count_erase_add there w
    omega
  · -- the call
    rename_i v
    by_cases here : w = v
    · simp [here]
    · simp [here]

theorem advance_unanswered (w : WorkItem) (sound : (advance m c pc).2.1 ≠ .retract w) :
    (advance m c pc).1.accepted w + ((advance m c pc).2.1.unanswered w +
        total (PoolPc.unanswered w) (advance m c pc).2.2) + m.entered w =
      m.accepted w + pc.unanswered w + (advance m c pc).1.entered w := by
  revert sound
  fun_cases advance m c pc <;> simp_all [PoolPc.unanswered, total]
  · rename_i v _
    by_cases here : w = v
    · simp [here]
      omega
    · simp [here]
  · rename_i v _
    by_cases here : w = v <;> simp [here]
  · rename_i v _
    exact fun other here => other here.symm

theorem advance_tokens (sound : ∀ v, (advance m c pc).2.1 ≠ .retract v)
    (stale : ∀ g, g ≠ m.semaphore → m.counts g = 0)
    (unused : pc.creates ≠ 0 → m.counts m.semaphore = 0)
    (some_ : pc = .first → m.head ≠ none) (there : ∀ v, pc = .pop v → v ∈ m.queued) :
    (advance m c pc).1.counts (advance m c pc).1.semaphore +
        ((advance m c pc).2.1.token + total PoolPc.token (advance m c pc).2.2) +
        ((advance m c pc).2.1.owes + total PoolPc.owes (advance m c pc).2.2) + m.queued.length =
      m.counts m.semaphore + pc.token + pc.owes + (advance m c pc).1.queued.length := by
  revert sound
  fun_cases advance m c pc <;> simp_all [PoolPc.token, PoolPc.owes, PoolPc.creates, total]
  · omega
  · omega
  · -- a token is taken from the semaphore in use
    rename_i g _ positive
    obtain rfl : g = m.semaphore := by
      by_contra other
      rw [stale g other] at positive
      cases positive
    rw [Function.update_self]
    omega
  · have positive := List.length_pos_of_mem there
    omega

theorem advance_stale (stale : ∀ g, g ≠ m.semaphore → m.counts g = 0)
    (unused : pc.creates ≠ 0 → m.counts m.semaphore = 0) (g : Nat) :
    g ≠ (advance m c pc).1.semaphore → (advance m c pc).1.counts g = 0 := by
  fun_cases advance m c pc <;> simp_all [PoolPc.creates]
  · rintro -
    by_cases old : g = m.semaphore
    · rw [old, unused]
    · exact stale g old
  · rename_i h _ positive
    intro other
    by_cases same : g = h
    · subst same
      rw [stale g other] at positive
      cases positive
    · rw [Function.update_of_ne same]
      exact stale g other

/-- What the list is like when a thread inside the lock is about to execute its next statement. -/
def ListShape (m : PoolMemory) : PoolPc → Prop
  | .link w => Chained m ∧ m.next w = none
  | .setTail w => Linked m.next m.head m.queued ∧ m.queued.getLast? = some w
  | .pop w => Chained m ∧ m.queued.head? = some w
  | .trimTail w => Linked m.next m.head m.queued ∧ m.tail = (w :: m.queued).getLast?
  | .clearNext _ | .unlock _ | .first | .detach _ | .leave _ => Chained m
  | _ => True

theorem shape_outside (m : PoolMemory) (outside : pc.critical = 0) : ListShape m pc := by
  cases pc <;> first | exact trivial | cases outside

/-- Outside the lock a thread leaves the list alone, and does not release the lock. -/
theorem advance_outside (outside : pc.critical = 0) :
    (advance m c pc).1.next = m.next ∧ (advance m c pc).1.head = m.head ∧
      (advance m c pc).1.tail = m.tail ∧ (advance m c pc).1.queued = m.queued ∧
      ((advance m c pc).1.lock = false → m.lock = false) := by
  fun_cases advance m c pc <;> simp_all [PoolPc.critical]

/-- The lock is released over a list that is whole. -/
theorem advance_unlocks (locked : m.lock = true) (shape : ListShape m pc) :
    (advance m c pc).1.lock = false → Chained (advance m c pc).1 := by
  fun_cases advance m c pc <;> simp_all [ListShape, Chained]

/-- The lock is entered where it is tried for. -/
theorem advance_stays_outside (outside : pc.critical = 0) (submitter : ∀ w, pc ≠ .lock w)
    (worker : pc ≠ .lockQueue) : (advance m c pc).2.1.critical = 0 := by
  fun_cases advance m c pc <;> simp_all [PoolPc.critical]

theorem ListShape.congr {m' : PoolMemory} (next : m'.next = m.next) (head : m'.head = m.head)
    (tail : m'.tail = m.tail) (queued : m'.queued = m.queued) (shape : ListShape m pc) :
    ListShape m' pc := by
  cases pc <;> simp_all [ListShape, Chained]

theorem Chained.congr {m' : PoolMemory} (next : m'.next = m.next) (head : m'.head = m.head)
    (tail : m'.tail = m.tail) (queued : m'.queued = m.queued) (chained : Chained m) : Chained m' := by
  simpa [Chained, next, head, tail, queued] using chained

/-- Each statement inside the lock finds the list as the one before it left it. -/
theorem advance_shape (shape : ListShape m pc) (free : m.lock = false → Chained m)
    (nodup : m.queued.Nodup) (outside : ∀ w, pc.carries w ≠ 0 → w ∉ m.queued) :
    ListShape (advance m c pc).1 (advance m c pc).2.1 := by
  cases pc with
  | lock w | lockQueue =>
    simp only [advance]
    split
    · rename_i unlocked
      exact free unlocked
    · trivial
  | clearNext w =>
    have out : w ∉ m.queued := outside w (by simp [PoolPc.carries])
    exact ⟨⟨shape.1.update out none, shape.2⟩, Function.update_self _ _ _⟩
  | link w =>
    obtain ⟨⟨linked, tail⟩, ends⟩ := shape
    have out : w ∉ m.queued := outside w (by simp [PoolPc.carries])
    simp only [advance]
    split
    · rename_i last is_last
      exact ⟨linked.append nodup out ends (tail.symm.trans is_last), List.getLast?_concat⟩
    · rename_i none_
      have empty : m.queued = [] := List.getLast?_eq_none_iff.mp (tail.symm.trans none_)
      refine ⟨?_, List.getLast?_concat⟩
      rw [empty]
      exact ⟨rfl, ends⟩
  | setTail w => exact ⟨shape.1, shape.2.symm⟩
  | first =>
    simp only [advance]
    split
    · exact shape
    · rename_i w head
      refine ⟨shape, ?_⟩
      cases queue : m.queued with
      | nil =>
        have linked := shape.1
        rw [queue, head] at linked
        cases linked
      | cons a q =>
        have linked := shape.1
        rw [queue, head] at linked
        exact linked.1.symm
  | pop w =>
    obtain ⟨⟨linked, tail⟩, is_first⟩ := shape
    obtain ⟨q, queue⟩ := List.head?_eq_some_iff.mp is_first
    have rest : m.queued.erase w = q := by rw [queue, List.erase_cons_head]
    rw [queue] at linked tail
    change Linked m.next (m.next w) (m.queued.erase w) ∧ m.tail = (w :: m.queued.erase w).getLast?
    rw [rest]
    exact ⟨linked.2, tail⟩
  | trimTail w =>
    obtain ⟨linked, tail⟩ := shape
    simp only [advance]
    split
    · rename_i none_
      rw [none_] at linked
      refine ⟨?_, ?_⟩
      · rw [none_]
        exact linked
      · rw [linked.eq_nil]
        rfl
    · rename_i some_
      refine ⟨linked, ?_⟩
      cases queue : m.queued with
      | nil =>
        rw [queue] at linked
        exact absurd linked some_
      | cons a q => rw [tail, queue, List.getLast?_cons_cons]
  | detach w =>
    have out : w ∉ m.queued := outside w (by simp [PoolPc.carries])
    exact ⟨shape.1.update out none, shape.2⟩
  | unlock w => trivial
  | leave w => cases w <;> exact trivial
  | _ => exact shape_outside _ (advance_stays_outside rfl (by simp) (by simp))

end

/-- What holds in every state while every release of the semaphore succeeds. -/
structure PoolBooks (s : Pool) : Prop where
  critical : total PoolPc.critical s.threads = s.memory.lock.toNat
  creates : total PoolPc.creates s.threads = s.memory.workerState.isStarting
  carries : ∀ w, total (PoolPc.carries w) s.threads + s.memory.queued.count w =
    (s.memory.submitted w).toNat
  awaits : ∀ w, s.memory.invoked w + total (PoolPc.awaits w) s.threads + s.memory.queued.count w =
    s.memory.entered w
  unanswered : ∀ w, s.memory.accepted w + total (PoolPc.unanswered w) s.threads = s.memory.entered w
  tokens : s.memory.counts s.memory.semaphore + total PoolPc.token s.threads +
    total PoolPc.owes s.threads = s.memory.queued.length
  stale : ∀ g, g ≠ s.memory.semaphore → s.memory.counts g = 0
  empty : s.memory.workerState ≠ .ready → s.memory.queued = []
  early : s.memory.workerState ≠ .ready → ∀ pc ∈ s.threads, pc.early = true
  released : ∀ w, .retract w ∉ s.threads
  shape : ∀ pc ∈ s.threads, ListShape s.memory pc
  free : s.memory.lock = false → Chained s.memory

section

variable {s : Pool} {pc : PoolPc}

theorem PoolBooks.nodup (books : PoolBooks s) : s.memory.queued.Nodup := by
  refine List.nodup_iff_count_le_one.mpr fun w => ?_
  have place := books.carries w
  have flag := Bool.toNat_le (s.memory.submitted w)
  omega

theorem PoolBooks.locked (books : PoolBooks s) (here : pc ∈ s.threads) (inside : pc.critical ≠ 0) :
    s.memory.lock = true := by
  have counted := le_total PoolPc.critical here
  rw [books.critical] at counted
  cases lock : s.memory.lock with
  | false =>
    rw [lock] at counted
    exact absurd (Nat.le_zero.mp counted) inside
  | true => rfl

theorem PoolBooks.starting (books : PoolBooks s) (here : pc ∈ s.threads) (creating : pc.creates ≠ 0) :
    s.memory.workerState = .starting := by
  have counted := le_total PoolPc.creates here
  rw [books.creates, WorkerState.isStarting] at counted
  by_contra other
  rw [if_neg other] at counted
  exact creating (Nat.le_zero.mp counted)

theorem PoolBooks.flagged (books : PoolBooks s) {w : WorkItem} (here : pc ∈ s.threads)
    (carrying : pc.carries w ≠ 0) : s.memory.submitted w = true ∧ w ∉ s.memory.queued := by
  have counted := le_total (PoolPc.carries w) here
  have place := books.carries w
  have flag := Bool.toNat_le (s.memory.submitted w)
  refine ⟨?_, List.count_eq_zero.mp (by omega)⟩
  cases set : s.memory.submitted w with
  | false =>
    rw [set] at place
    change _ = 0 at place
    omega
  | true => rfl

theorem PoolBooks.unused (books : PoolBooks s) (unready : s.memory.workerState ≠ .ready) (g : Nat) :
    s.memory.counts g = 0 := by
  have tokens := books.tokens
  rw [books.empty unready] at tokens
  change _ = 0 at tokens
  by_cases current : g = s.memory.semaphore
  · rw [current]
    omega
  · exact books.stale g current

/-- There are fewer tokens than a semaphore can hold. -/
theorem PoolBooks.counts_lt (books : PoolBooks s) :
    s.memory.counts s.memory.semaphore < semaphoreMaximum := by
  have tokens := books.tokens
  have short := books.nodup.length_le_card
  rw [Fintype.card_fin] at short
  have items : maxThreadpoolWorkItems = 32 := rfl
  have maximum : semaphoreMaximum = 0x7FFFFFFF := rfl
  omega

theorem next_eq {t : Nat} (here : s.threads[t]? = some pc) (c : PoolChoice) :
    s.next t c = ⟨(advance s.memory c pc).1,
      s.threads.set t (advance s.memory c pc).2.1 ++ (advance s.memory c pc).2.2⟩ := by
  simp only [Pool.next, here]

theorem advance_retract {m : PoolMemory} {c : PoolChoice}
    (succeeds : ∀ w, pc = .release w → c.succeeds = true ∧ m.counts m.semaphore < semaphoreMaximum)
    (w : WorkItem) : (advance m c pc).2.1 ≠ .retract w := by
  fun_cases advance m c pc <;> simp_all

theorem PoolBooks.step (books : PoolBooks s) {t : Nat} (here : s.threads[t]? = some pc)
    {c : PoolChoice} (succeeds : ∀ w, pc = .release w → c.succeeds = true) :
    PoolBooks (s.next t c) := by
  have member := List.mem_of_getElem? here
  have held := books.locked member
  have starting := books.starting member
  have there : ∀ w, pc = .pop w → w ∈ s.memory.queued := by
    rintro w rfl
    exact List.mem_of_mem_head? (books.shape _ member).2
  have flagged : ∀ w, pc = .finish w → s.memory.submitted w = true := by
    rintro w rfl
    exact (books.flagged member (by simp [PoolPc.carries])).1
  have unused : pc.creates ≠ 0 → s.memory.counts s.memory.semaphore = 0 := fun creating =>
    books.unused (by rw [starting creating]; simp) _
  have some_ : pc = .first → s.memory.head ≠ none := by
    rintro rfl none_
    have chained := (books.shape _ member).1
    rw [none_] at chained
    have counted := le_total PoolPc.token member
    have tokens := books.tokens
    rw [chained.eq_nil] at tokens
    change 1 ≤ _ at counted
    change _ = 0 at tokens
    omega
  have kept : ∀ w, (advance s.memory c pc).2.1 ≠ .retract w :=
    advance_retract fun w eq => ⟨succeeds w eq, books.counts_lt⟩
  have sums := fun f => total_set f here (advance s.memory c pc).2.1 (advance s.memory c pc).2.2
  rw [next_eq here]
  constructor
  case critical =>
    have sum := sums PoolPc.critical
    have local_ := advance_critical (c := c) held
    have old := books.critical
    dsimp only
    omega
  case creates =>
    have sum := sums PoolPc.creates
    have local_ := advance_creates (c := c) starting
    have old := books.creates
    dsimp only
    omega
  case carries =>
    intro w
    have sum := sums (PoolPc.carries w)
    have local_ := advance_carries (c := c) w (fun v eq => books.released v (eq ▸ member)) flagged there
    have old := books.carries w
    dsimp only
    omega
  case awaits =>
    intro w
    have sum := sums (PoolPc.awaits w)
    have local_ := advance_awaits (c := c) w there
    have old := books.awaits w
    dsimp only
    omega
  case unanswered =>
    intro w
    have sum := sums (PoolPc.unanswered w)
    have local_ := advance_unanswered w (kept w)
    have old := books.unanswered w
    dsimp only
    omega
  case tokens =>
    have sum := sums PoolPc.token
    have owed := sums PoolPc.owes
    have local_ := advance_tokens kept books.stale unused some_ there
    have old := books.tokens
    dsimp only
    omega
  case stale => exact advance_stale books.stale unused
  case empty =>
    intro unready
    have before : s.memory.workerState ≠ .ready := fun ready => unready (advance_ready starting ready)
    rw [← books.empty before]
    exact (advance_early (fun _ => books.early before pc member) (fun _ => books.unused before) unready).1
  case early =>
    intro unready other there'
    have before : s.memory.workerState ≠ .ready := fun ready => unready (advance_ready starting ready)
    have own :=
      (advance_early (fun _ => books.early before pc member) (fun _ => books.unused before) unready).2
    rcases List.mem_append.mp there' with old | new
    · rcases mem_set_cases PoolPc.critical here old with rfl | ⟨old, -⟩
      · exact own
      · exact books.early before other old
    · rw [advance_created other new]
      rfl
  case released =>
    intro w there'
    rcases List.mem_append.mp there' with old | new
    · rcases mem_set_cases PoolPc.critical here old with same | ⟨old, -⟩
      · exact kept w same.symm
      · exact books.released w old
    · cases advance_created _ new
  case shape =>
    intro other there'
    rcases List.mem_append.mp there' with old | new
    · rcases mem_set_cases PoolPc.critical here old with rfl | ⟨old, alone⟩
      · exact advance_shape (books.shape pc member) books.free books.nodup
          fun w carrying => (books.flagged member carrying).2
      · by_cases inside : pc.critical = 0
        · obtain ⟨next, head, tail, queued, -⟩ := advance_outside (m := s.memory) (c := c) inside
          exact (books.shape other old).congr next head tail queued
        · have one := Bool.toNat_le s.memory.lock
          rw [books.critical] at alone
          exact shape_outside _ (by omega)
    · rw [advance_created other new]
      trivial
  case free =>
    intro unlocked
    by_cases inside : pc.critical = 0
    · obtain ⟨next, head, tail, queued, lock⟩ := advance_outside (m := s.memory) (c := c) inside
      exact (books.free (lock unlocked)).congr next head tail queued
    · exact advance_unlocks (held inside) (books.shape pc member) unlocked

theorem total_eq_zero {f : PoolPc → Nat} {threads : List PoolPc} (none_ : ∀ pc ∈ threads, f pc = 0) :
    total f threads = 0 := by
  induction threads with
  | nil => rfl
  | cons a threads ih =>
    rw [total, List.map_cons, List.sum_cons, none_ a List.mem_cons_self, Nat.zero_add]
    exact ih fun pc there => none_ pc (List.mem_cons_of_mem a there)

theorem total_le {f g : PoolPc → Nat} (le : ∀ pc, f pc ≤ g pc) (threads : List PoolPc) :
    total f threads ≤ total g threads := by
  induction threads with
  | nil => exact Nat.le_refl 0
  | cons a threads ih => exact Nat.add_le_add (le a) ih

theorem start_books {s : Pool} (start : PoolStart s) : PoolBooks s := by
  obtain ⟨used, callback, n, rfl⟩ := start
  have idle : ∀ pc ∈ (poolAtStart used callback n).threads, pc = .idle 0 := fun pc there =>
    List.eq_of_mem_replicate there
  have nothing : ∀ f : PoolPc → Nat, f (.idle 0) = 0 →
      total f (poolAtStart used callback n).threads = 0 := fun f zero =>
    total_eq_zero fun pc there => by rw [idle pc there, zero]
  constructor
  case critical => exact nothing _ rfl
  case creates => exact nothing _ rfl
  case carries => exact fun w => nothing _ rfl
  case awaits =>
    intro w
    rw [nothing _ rfl]
    rfl
  case unanswered =>
    intro w
    rw [nothing _ rfl]
    rfl
  case tokens =>
    rw [nothing _ rfl, nothing _ rfl]
    rfl
  case stale => exact fun _ _ => rfl
  case empty => exact fun _ => rfl
  case early =>
    intro _ pc there
    rw [idle pc there]
    rfl
  case released =>
    intro w there
    cases idle _ there
  case shape =>
    intro pc there
    rw [idle pc there]
    trivial
  case free => exact fun _ => ⟨rfl, rfl⟩

end

/-- No submission is under way, the workers are back at their wait, and the semaphores are empty. -/
def Drained (s : Pool) : Prop :=
  (∀ pc ∈ s.threads, (∃ e, pc = .idle e) ∨ pc = .start ∨ ∃ g, pc = .wait g) ∧
    ∀ g, s.memory.counts g = 0

/-- What the pool promises. `list` is about the states in which no thread is changing the list;
`called` and `once` say that between two submissions that took the flag of an item there is
exactly one call of it. -/
structure WorkQueueKept (s : Pool) : Prop where
  list : s.memory.lock = false → s.memory.queued.Nodup ∧ Chained s.memory
  dequeued : ∀ w, .pop w ∈ s.threads → w ∈ s.memory.queued
  called : ∀ w, .call w ∈ s.threads → s.memory.invoked w < s.memory.entered w
  once : ∀ w, s.memory.invoked w ≤ s.memory.entered w ∧ s.memory.entered w ≤ s.memory.invoked w + 1
  drained : Drained s → ∀ w, s.memory.invoked w = s.memory.accepted w

theorem PoolBooks.kept {s : Pool} (books : PoolBooks s) : WorkQueueKept s where
  list unlocked := ⟨books.nodup, books.free unlocked⟩
  dequeued w here := List.mem_of_mem_head? (books.shape _ here).2
  called w here := by
    have counted := le_total (PoolPc.awaits w) here
    have place := books.awaits w
    simp only [PoolPc.awaits, PoolPc.carries, if_true] at counted
    omega
  once w := by
    have fewer : total (PoolPc.awaits w) s.threads ≤ total (PoolPc.carries w) s.threads :=
      total_le (fun pc => by cases pc <;> simp [PoolPc.awaits]) s.threads
    have place := books.awaits w
    have flag := books.carries w
    have one := Bool.toNat_le (s.memory.submitted w)
    omega
  drained := by
    rintro ⟨rest, counts⟩ w
    have nothing : ∀ f : PoolPc → Nat, (∀ e, f (.idle e) = 0) → f .start = 0 →
        (∀ g, f (.wait g) = 0) → total f s.threads = 0 := by
      intro f idle start wait
      refine total_eq_zero fun pc here => ?_
      rcases rest pc here with ⟨e, rfl⟩ | rfl | ⟨g, rfl⟩
      · exact idle e
      · exact start
      · exact wait g
    have tokens := books.tokens
    rw [counts, nothing _ (fun _ => rfl) rfl fun _ => rfl, nothing _ (fun _ => rfl) rfl fun _ => rfl]
      at tokens
    have empty := List.length_eq_zero_iff.mp tokens.symm
    have awaits := books.awaits w
    have unanswered := books.unanswered w
    rw [nothing _ (fun _ => rfl) rfl fun _ => rfl] at awaits unanswered
    rw [empty, List.count_nil] at awaits
    omega

/-- A step, in which `ReleaseSemaphore` does not fail. -/
def ReleasesSucceed (s : Pool) (l : Nat × PoolChoice) (t : Pool) : Prop :=
  PoolStep s l t ∧ ∀ w, s.threads[l.1]? = some (.release w) → l.2.succeeds = true

/-- The work queue is kept in every run in which every release of the semaphore succeeds. -/
theorem work_queue_kept {s : Pool} (run : Runs.Reachable PoolStart ReleasesSucceed s) :
    WorkQueueKept s := by
  refine PoolBooks.kept (run.invariant (fun _ => start_books) ?_)
  rintro s ⟨t, c⟩ _ books ⟨rfl, succeeds⟩
  cases here : s.threads[t]? with
  | none =>
    have stays : s.next t c = s := by simp only [Pool.next, here]
    rw [stays]
    exact books
  | some pc =>
    refine books.step here fun w release => succeeds w ?_
    rw [here, release]

/-- The steps of the threads, in the order given. -/
def poolRun (s : Pool) (steps : List (Nat × PoolChoice)) : Pool :=
  steps.foldl (fun s l => s.next l.1 l.2) s

theorem poolRun_reachable {s : Pool} {step : Pool → Nat × PoolChoice → Pool → Prop}
    (reached : Runs.Reachable PoolStart step s) {steps : List (Nat × PoolChoice)}
    (allowed : ∀ s, ∀ l ∈ steps, step s l (s.next l.1 l.2)) :
    Runs.Reachable PoolStart step (poolRun s steps) := by
  induction steps generalizing s with
  | nil => exact reached
  | cons l steps ih =>
    exact ih (reached.next (allowed s l List.mem_cons_self))
      fun s l there => allowed s l (List.mem_cons_of_mem _ there)

def firstItem : WorkItem := ⟨0, by decide⟩

/-- One thread that submits the first item, and the worker that calls it. -/
def oneSubmission : Pool :=
  poolRun (poolAtStart (fun _ => true) (fun _ => true) 1)
    (List.replicate 16 (0, ⟨some firstItem, true⟩) ++ List.replicate 10 (1, ⟨none, true⟩))

theorem work_queue_kept_one_submission :
    WorkQueueKept oneSubmission ∧ oneSubmission.memory.accepted firstItem = 1 ∧
      oneSubmission.memory.invoked firstItem = 1 := by
  refine ⟨work_queue_kept (poolRun_reachable (.of_initial ⟨_, _, _, rfl⟩) ?_), by decide, by decide⟩
  intro s l there
  refine ⟨rfl, fun _ _ => ?_⟩
  rcases List.mem_append.mp there with first | second
  · rw [List.eq_of_mem_replicate first]
  · rw [List.eq_of_mem_replicate second]

/-- One thread that submits the first item twice; the release of the first submission fails. -/
def failedReleases : Pool :=
  poolRun (poolAtStart (fun _ => true) (fun _ => true) 1)
    (List.replicate 15 (0, ⟨some firstItem, true⟩) ++ [(0, ⟨some firstItem, false⟩)] ++
      List.replicate 9 (0, ⟨some firstItem, true⟩))

/-- The item is queued behind itself: the list from the head never ends. -/
theorem failed_release_closes_cycle :
    failedReleases.memory.head = some firstItem ∧
      failedReleases.memory.next firstItem = some firstItem ∧
      failedReleases.memory.lock = false ∧
      ¬ ∀ s, Runs.Reachable PoolStart PoolStep s → WorkQueueKept s := by
  refine ⟨by decide, by decide, by decide, fun all => ?_⟩
  have kept := all failedReleases (poolRun_reachable (.of_initial ⟨_, _, _, rfl⟩) fun _ _ _ => rfl)
  exact absurd (kept.list (by decide)).1 (by decide)

end Kernel32
