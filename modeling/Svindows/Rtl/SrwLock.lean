import Mathlib.Algebra.Order.BigOperators.Group.Finset
import Mathlib.Data.Fintype.Basic
import Svindows.Lib.Runs

/-!
# Slim reader/writer locks

The lock word of `ntdllrtl.c` counts the shared holders in steps of two and has
its lowest bit set for an exclusive holder. Each atomic instruction is a step of
the thread that executes it. The exchange of an exclusive acquisition writes the
word whether it succeeds or not: it loses the count when there are shared
holders, and that is the only way, beside a count that overflows, in which the
word stops describing the holders.
-/

namespace Rtl

/-- Where a thread is in the code of the lock. -/
inductive SrwPc where
  | out
  /-- Before the exchange of `RtlAcquireSRWLockExclusive`. -/
  | exclusive
  /-- Before the read of `RtlAcquireSRWLockShared`. -/
  | shared
  /-- Before its compare-and-swap, with the value it read. -/
  | swap (v : UInt32)
  deriving DecidableEq

/-- A thread with the acquisitions it has not released yet. -/
structure SrwThread where
  pc : SrwPc
  shared : Nat
  exclusive : Nat
  deriving DecidableEq

structure SrwState (T : Type) where
  word : UInt32
  threads : T → SrwThread

/-- The instructions, and the calls of the two acquisitions. -/
inductive SrwAction where
  | callExclusive
  | exchange
  | releaseExclusive
  | callShared
  | read
  | compareSwap
  | releaseShared
  deriving DecidableEq

variable {T : Type} [DecidableEq T]

/-- `RtlInitializeSRWLock`, with no thread in the code. -/
def srwInit : SrwState T := ⟨0, fun _ => ⟨.out, 0, 0⟩⟩

def SrwState.set (s : SrwState T) (t : T) (word : UInt32) (thread : SrwThread) : SrwState T :=
  ⟨word, Function.update s.threads t thread⟩

@[simp] theorem set_word (s : SrwState T) (t : T) (word : UInt32) (thread : SrwThread) :
    (s.set t word thread).word = word := rfl

@[simp] theorem set_threads_self (s : SrwState T) (t : T) (word : UInt32) (thread : SrwThread) :
    (s.set t word thread).threads t = thread := Function.update_self _ _ _

theorem set_threads_of_ne (s : SrwState T) {t u : T} (other : u ≠ t) (word : UInt32)
    (thread : SrwThread) : (s.set t word thread).threads u = s.threads u :=
  Function.update_of_ne other _ _

/-- One step of thread `t`; it releases only what it acquired. -/
def SrwState.step (s : SrwState T) (t : T) : SrwAction → Option (SrwState T)
  | .callExclusive =>
    if (s.threads t).pc = .out then some (s.set t s.word { s.threads t with pc := .exclusive })
    else none
  | .exchange =>
    if (s.threads t).pc = .exclusive then
      if s.word = 0 then
        some (s.set t 1 { s.threads t with
          pc := .out
          exclusive := (s.threads t).exclusive + 1 })
      else some (s.set t 1 (s.threads t))
    else none
  | .releaseExclusive =>
    if (s.threads t).pc = .out ∧ 0 < (s.threads t).exclusive then
      some (s.set t 0 { s.threads t with exclusive := (s.threads t).exclusive - 1 })
    else none
  | .callShared =>
    if (s.threads t).pc = .out then some (s.set t s.word { s.threads t with pc := .shared })
    else none
  | .read =>
    if (s.threads t).pc = .shared then
      if s.word &&& 1 = 0 then some (s.set t s.word { s.threads t with pc := .swap s.word })
      else some s
    else none
  | .compareSwap =>
    match (s.threads t).pc with
    | .swap v =>
      if s.word = v then
        some (s.set t (v + 2) { s.threads t with
          pc := .out
          shared := (s.threads t).shared + 1 })
      else some (s.set t s.word { s.threads t with pc := .shared })
    | _ => none
  | .releaseShared =>
    if (s.threads t).pc = .out ∧ 0 < (s.threads t).shared then
      some (s.set t (s.word - 2) { s.threads t with shared := (s.threads t).shared - 1 })
    else none

variable [Fintype T]

def SrwState.sharedHolders (s : SrwState T) : Nat := ∑ t, (s.threads t).shared

def SrwState.exclusiveHolders (s : SrwState T) : Nat := ∑ t, (s.threads t).exclusive

/-- The word describes the holders, and an exclusive holder is alone. -/
def SrwExclusion (s : SrwState T) : Prop :=
  s.word.toNat = 2 * s.sharedHolders + s.exclusiveHolders ∧ s.exclusiveHolders ≤ 1 ∧
  (s.exclusiveHolders = 0 ∨ s.sharedHolders = 0)

/-- The instructions of an acquisition. -/
def SrwAction.Acquires (a : SrwAction) : Prop :=
  a = .exchange ∨ a = .read ∨ a = .compareSwap

/-- No exchange while there are shared holders, and no acquisition that makes the
count overflow. -/
def SrwGuard (s : SrwState T) (t : T) : SrwAction → Prop
  | .exchange => s.sharedHolders = 0
  | .compareSwap => (s.threads t).pc = .swap s.word → s.sharedHolders + 1 < 2 ^ 31
  | _ => True

theorem sum_update (f : SrwThread → Nat) (threads : T → SrwThread) (t : T) (thread : SrwThread) :
    ∑ u, f (Function.update threads t thread u) + f (threads t) = ∑ u, f (threads u) + f thread := by
  rw [← Finset.add_sum_erase _ _ (Finset.mem_univ t),
    ← Finset.add_sum_erase _ (fun u => f (threads u)) (Finset.mem_univ t), Function.update_self]
  have rest : ∑ u ∈ Finset.univ.erase t, f (Function.update threads t thread u) =
      ∑ u ∈ Finset.univ.erase t, f (threads u) := by
    refine Finset.sum_congr rfl ?_
    intro u hu
    rw [Function.update_of_ne (Finset.ne_of_mem_erase hu)]
  rw [rest]
  omega

variable {s : SrwState T} {t : T}

theorem set_shared (word : UInt32) (thread : SrwThread) :
    (s.set t word thread).sharedHolders + (s.threads t).shared =
      s.sharedHolders + thread.shared :=
  sum_update SrwThread.shared s.threads t thread

theorem set_exclusive (word : UInt32) (thread : SrwThread) :
    (s.set t word thread).exclusiveHolders + (s.threads t).exclusive =
      s.exclusiveHolders + thread.exclusive :=
  sum_update SrwThread.exclusive s.threads t thread

omit [DecidableEq T] in
theorem shared_le (s : SrwState T) (t : T) : (s.threads t).shared ≤ s.sharedHolders :=
  Finset.single_le_sum (f := fun u => (s.threads u).shared) (fun _ _ => Nat.zero_le _)
    (Finset.mem_univ t)

omit [DecidableEq T] in
theorem exclusive_le (s : SrwState T) (t : T) : (s.threads t).exclusive ≤ s.exclusiveHolders :=
  Finset.single_le_sum (f := fun u => (s.threads u).exclusive) (fun _ _ => Nat.zero_le _)
    (Finset.mem_univ t)

/-- The values that were read and wait for their swap are even. -/
def SwapsEven (s : SrwState T) : Prop :=
  ∀ u v, (s.threads u).pc = .swap v → v.toNat % 2 = 0

omit [Fintype T] in
theorem SwapsEven.set (even : SwapsEven s) {word : UInt32} {thread : SrwThread}
    (here : ∀ v, thread.pc = .swap v → v.toNat % 2 = 0) : SwapsEven (s.set t word thread) := by
  intro u v waits
  by_cases same : u = t
  · subst same
    rw [set_threads_self] at waits
    exact here v waits
  · rw [set_threads_of_ne s same] at waits
    exact even u v waits

omit [Fintype T] in
theorem SwapsEven.step (even : SwapsEven s) {a : SrwAction} {s' : SrwState T}
    (made : s.step t a = some s') : SwapsEven s' := by
  cases a with
  | callExclusive | callShared =>
    obtain ⟨_, ⟨⟩⟩ := Option.ite_none_right_eq_some.mp made
    exact even.set (by simp)
  | exchange =>
    obtain ⟨pc, made⟩ := Option.ite_none_right_eq_some.mp made
    split at made
    · cases made
      exact even.set (by simp)
    · cases made
      exact even.set (by simp [pc])
  | releaseExclusive | releaseShared =>
    obtain ⟨⟨pc, _⟩, ⟨⟩⟩ := Option.ite_none_right_eq_some.mp made
    exact even.set (by simp [pc])
  | read =>
    obtain ⟨pc, made⟩ := Option.ite_none_right_eq_some.mp made
    split at made
    · rename_i low
      cases made
      refine even.set ?_
      rintro v ⟨rfl⟩
      have bit := congrArg UInt32.toNat low
      rw [UInt32.toNat_and] at bit
      have one : (1 : UInt32).toNat = 1 := rfl
      rw [one, Nat.and_one_is_mod] at bit
      exact bit
    · cases made
      exact even
  | compareSwap =>
    simp only [SrwState.step] at made
    split at made
    · split at made
      · cases made
        exact even.set (by simp)
      · cases made
        exact even.set (by simp)
    · cases made

/-- A new word and a new place of thread `t`, by what the holders come to. -/
theorem SrwExclusion.set {word : UInt32} {thread : SrwThread} (shared exclusive : Nat)
    (readers : shared + (s.threads t).shared = s.sharedHolders + thread.shared)
    (writers : exclusive + (s.threads t).exclusive = s.exclusiveHolders + thread.exclusive)
    (value : word.toNat = 2 * shared + exclusive) (one : exclusive ≤ 1)
    (alone : exclusive = 0 ∨ shared = 0) : SrwExclusion (s.set t word thread) := by
  have sharedHolders := set_shared (s := s) (t := t) word thread
  have exclusiveHolders := set_exclusive (s := s) (t := t) word thread
  rw [SrwExclusion, set_word]
  omega

/-- A step that changes no acquisition and no word. -/
theorem SrwExclusion.stay (lock : SrwExclusion s) {thread : SrwThread}
    (shared : thread.shared = (s.threads t).shared)
    (exclusive : thread.exclusive = (s.threads t).exclusive) :
    SrwExclusion (s.set t s.word thread) :=
  .set s.sharedHolders s.exclusiveHolders (by rw [shared]) (by rw [exclusive]) lock.1 lock.2.1
    lock.2.2

theorem SrwExclusion.exchange (lock : SrwExclusion s) {s' : SrwState T}
    (nobody : s.sharedHolders = 0) (made : s.step t .exchange = some s') :
    SrwExclusion s' ∧
      ((s'.threads t).exclusive = (s.threads t).exclusive → s'.word = s.word) := by
  obtain ⟨word, one, alone⟩ := id lock
  have mine := shared_le s t
  obtain ⟨pc, made⟩ := Option.ite_none_right_eq_some.mp made
  split at made
  · rename_i free
    cases made
    rw [free] at word
    have zero : (0 : UInt32).toNat = 0 := rfl
    refine ⟨.set 0 1 ?_ ?_ rfl le_rfl (.inr rfl), fun same => ?_⟩
    · show 0 + (s.threads t).shared = s.sharedHolders + (s.threads t).shared
      omega
    · show 1 + (s.threads t).exclusive = s.exclusiveHolders + ((s.threads t).exclusive + 1)
      omega
    · rw [set_threads_self] at same
      dsimp only at same
      omega
  · rename_i taken
    cases made
    have unit : s.word = 1 := by
      have positive : s.word.toNat ≠ 0 := fun zero => taken (UInt32.toNat_inj.mp zero)
      refine UInt32.toNat_inj.mp ?_
      have one : (1 : UInt32).toNat = 1 := rfl
      omega
    refine ⟨?_, fun _ => unit.symm⟩
    rw [← unit]
    exact lock.stay rfl rfl

theorem SrwExclusion.releaseExclusive (lock : SrwExclusion s) {s' : SrwState T}
    (made : s.step t .releaseExclusive = some s') : SrwExclusion s' := by
  obtain ⟨word, one, alone⟩ := id lock
  have mineAlone := exclusive_le s t
  obtain ⟨⟨pc, held⟩, ⟨⟩⟩ := Option.ite_none_right_eq_some.mp made
  refine .set 0 0 ?_ ?_ rfl (Nat.zero_le 1) (.inl rfl)
  · show 0 + (s.threads t).shared = s.sharedHolders + (s.threads t).shared
    omega
  · show 0 + (s.threads t).exclusive = s.exclusiveHolders + ((s.threads t).exclusive - 1)
    omega

theorem SrwExclusion.compareSwap (lock : SrwExclusion s) (even : SwapsEven s) {s' : SrwState T}
    (guard : SrwGuard s t .compareSwap) (made : s.step t .compareSwap = some s') :
    SrwExclusion s' ∧ ((s'.threads t).shared = (s.threads t).shared → s'.word = s.word) := by
  obtain ⟨word, one, alone⟩ := id lock
  simp only [SrwState.step] at made
  split at made
  · rename_i v pc
    split at made
    · rename_i same
      cases made
      have few : s.sharedHolders + 1 < 2 ^ 31 := guard (by rw [pc, same])
      have evenWord := even t v pc
      rw [same] at word
      have two : (2 : UInt32).toNat = 2 := rfl
      refine ⟨.set (s.sharedHolders + 1) s.exclusiveHolders ?_ rfl ?_ one ?_, fun same => ?_⟩
      · show s.sharedHolders + 1 + _ = s.sharedHolders + ((s.threads t).shared + 1)
        omega
      · rw [UInt32.toNat_add, two, Nat.mod_eq_of_lt (by omega)]
        omega
      · omega
      · rw [set_threads_self] at same
        dsimp only at same
        omega
    · cases made
      exact ⟨lock.stay rfl rfl, fun _ => rfl⟩
  · cases made

theorem SrwExclusion.releaseShared (lock : SrwExclusion s) {s' : SrwState T}
    (made : s.step t .releaseShared = some s') : SrwExclusion s' := by
  obtain ⟨word, one, alone⟩ := id lock
  have mine := shared_le s t
  obtain ⟨⟨pc, held⟩, ⟨⟩⟩ := Option.ite_none_right_eq_some.mp made
  have two : (2 : UInt32).toNat = 2 := rfl
  refine .set (s.sharedHolders - 1) s.exclusiveHolders ?_ rfl ?_ one ?_
  · show s.sharedHolders - 1 + _ = s.sharedHolders + ((s.threads t).shared - 1)
    omega
  · rw [UInt32.toNat_sub_of_le]
    · omega
    · rw [UInt32.le_iff_toNat_le]
      omega
  · omega

/-- The step keeps the exclusion, and an acquisition that fails leaves the word. -/
theorem SrwExclusion.step (lock : SrwExclusion s) (even : SwapsEven s) {a : SrwAction}
    {s' : SrwState T} (guard : SrwGuard s t a) (made : s.step t a = some s') :
    SrwExclusion s' ∧ (a.Acquires → (s'.threads t).shared = (s.threads t).shared →
      (s'.threads t).exclusive = (s.threads t).exclusive → s'.word = s.word) := by
  cases a with
  | callExclusive | callShared =>
    obtain ⟨_, ⟨⟩⟩ := Option.ite_none_right_eq_some.mp made
    exact ⟨lock.stay rfl rfl, fun _ _ _ => rfl⟩
  | exchange =>
    obtain ⟨kept, failed⟩ := lock.exchange guard made
    exact ⟨kept, fun _ _ same => failed same⟩
  | releaseExclusive =>
    exact ⟨lock.releaseExclusive made, by rintro (_ | _ | _) <;> contradiction⟩
  | read =>
    obtain ⟨pc, made⟩ := Option.ite_none_right_eq_some.mp made
    split at made
    · cases made
      exact ⟨lock.stay rfl rfl, fun _ _ _ => rfl⟩
    · cases made
      exact ⟨lock, fun _ _ _ => rfl⟩
  | compareSwap =>
    obtain ⟨kept, failed⟩ := lock.compareSwap even guard made
    exact ⟨kept, fun _ same _ => failed same⟩
  | releaseShared =>
    exact ⟨lock.releaseShared made, by rintro (_ | _ | _) <;> contradiction⟩

/-- An exchange over shared holders, or one holder too many, breaks the exclusion. -/
theorem SrwExclusion.broken (lock : SrwExclusion s) (even : SwapsEven s) {a : SrwAction}
    {s' : SrwState T} (wild : ¬ SrwGuard s t a) (made : s.step t a = some s') :
    ¬ SrwExclusion s' := by
  obtain ⟨word, one, alone⟩ := id lock
  intro after
  obtain ⟨wordAfter, _, _⟩ := after
  cases a with
  | exchange =>
    obtain ⟨pc, made⟩ := Option.ite_none_right_eq_some.mp made
    have somebody : s.sharedHolders ≠ 0 := wild
    split at made
    · rename_i free
      rw [free] at word
      have zero : (0 : UInt32).toNat = 0 := rfl
      omega
    · cases made
      have sharedHolders := set_shared (s := s) (t := t) 1 (s.threads t)
      have unit : (1 : UInt32).toNat = 1 := rfl
      rw [set_word] at wordAfter
      omega
  | compareSwap =>
    simp only [SrwGuard, Classical.not_imp, not_lt] at wild
    simp only [SrwState.step] at made
    obtain ⟨pc, many⟩ := wild
    rw [pc] at made
    simp only [↓reduceIte] at made
    cases made
    have evenWord := even t s.word pc
    have bound := s.word.toNat_lt
    have sharedHolders := set_shared (s := s) (t := t) (s.word + 2) { s.threads t with
      pc := .out, shared := (s.threads t).shared + 1 }
    dsimp only at sharedHolders
    have two : (2 : UInt32).toNat = 2 := rfl
    rw [set_word, UInt32.toNat_add, two] at wordAfter
    omega
  | callExclusive => exact wild trivial
  | releaseExclusive => exact wild trivial
  | callShared => exact wild trivial
  | read => exact wild trivial
  | releaseShared => exact wild trivial

/-- A step of any thread. -/
def SrwStep (s : SrwState T) (l : T × SrwAction) (s' : SrwState T) : Prop :=
  s.step l.1 l.2 = some s'

def SrwGuarded (s : SrwState T) (l : T × SrwAction) (s' : SrwState T) : Prop :=
  SrwGuard s l.1 l.2 ∧ SrwStep s l s'

omit [DecidableEq T] in
theorem srwInit_exclusion : SrwExclusion (srwInit : SrwState T) := by
  simp [SrwExclusion, SrwState.sharedHolders, SrwState.exclusiveHolders, srwInit]

theorem reachable_exclusion {s : SrwState T}
    (run : Runs.Reachable (· = srwInit) SrwGuarded s) : SrwExclusion s ∧ SwapsEven s := by
  have start : ∀ s : SrwState T, s = srwInit → SrwExclusion s ∧ SwapsEven s := by
    rintro s rfl
    refine ⟨srwInit_exclusion, ?_⟩
    rintro u v ⟨⟩
  have kept : ∀ (s : SrwState T) l s', SrwExclusion s ∧ SwapsEven s → SrwGuarded s l s' →
      SrwExclusion s' ∧ SwapsEven s' := by
    rintro s l s' ⟨lock, even⟩ ⟨guard, made⟩
    exact ⟨(lock.step even guard made).1, even.step made⟩
  exact run.invariant start kept

/-- The lock excludes in every run without an exchange over shared holders and
without an overflow, and each such step breaks it at once. -/
theorem srw_lock_excludes :
    (∀ s : SrwState T, Runs.Reachable (· = srwInit) SrwGuarded s →
      SrwExclusion s ∧ ∀ t a s', SrwGuard s t a → s.step t a = some s' → a.Acquires →
        (s'.threads t).shared = (s.threads t).shared →
        (s'.threads t).exclusive = (s.threads t).exclusive → s'.word = s.word) ∧
    ∀ (s : SrwState T) t a s', Runs.Reachable (· = srwInit) SrwGuarded s → ¬ SrwGuard s t a →
      s.step t a = some s' → ¬ SrwExclusion s' := by
  constructor
  · intro s run
    obtain ⟨lock, even⟩ := reachable_exclusion run
    refine ⟨lock, ?_⟩
    intro t a s' guard made
    exact (lock.step even guard made).2
  · intro s t a s' run wild made
    obtain ⟨lock, even⟩ := reachable_exclusion run
    exact lock.broken even wild made

/-- One thread holds the lock shared, the other is about to exchange. -/
def readerAndWriter : SrwState Bool :=
  ((((srwInit.set true 0 ⟨.shared, 0, 0⟩).set true 0 ⟨.swap 0, 0, 0⟩).set true 2 ⟨.out, 1, 0⟩).set
    false 2 ⟨.exclusive, 0, 0⟩)

theorem readerAndWriter_reachable :
    Runs.Reachable (· = srwInit) SrwGuarded readerAndWriter := by
  have start : Runs.Reachable (· = srwInit) SrwGuarded (srwInit : SrwState Bool) := .of_initial rfl
  have called := start.next (l := (true, SrwAction.callShared)) ⟨trivial, rfl⟩
  have read := called.next (l := (true, SrwAction.read)) ⟨trivial, rfl⟩
  have swapped := read.next (l := (true, SrwAction.compareSwap)) ⟨fun _ => by decide, rfl⟩
  exact swapped.next (l := (false, SrwAction.callExclusive)) ⟨trivial, rfl⟩

/-- The writer fails and leaves 1 in the word of a lock that is held shared. -/
theorem failed_writer_overwrites_count :
    Runs.Reachable (· = srwInit) SrwStep readerAndWriter ∧
    ∃ s', readerAndWriter.step false .exchange = some s' ∧
      s'.sharedHolders = 1 ∧ s'.exclusiveHolders = 0 ∧ readerAndWriter.word = 2 ∧ s'.word = 1 := by
  refine ⟨readerAndWriter_reachable.mono fun _ _ _ edge => edge.2, _, rfl, ?_⟩
  exact ⟨by decide, by decide, rfl, rfl⟩

theorem srw_lock_excludes_reader :
    SrwExclusion readerAndWriter ∧
    ∀ s', readerAndWriter.step false .exchange = some s' → ¬ SrwExclusion s' := by
  refine ⟨(srw_lock_excludes.1 _ readerAndWriter_reachable).1, ?_⟩
  intro s' made
  refine srw_lock_excludes.2 _ false .exchange s' readerAndWriter_reachable ?_ made
  have one : readerAndWriter.sharedHolders = 1 := by decide
  intro nobody
  rw [SrwGuard, one] at nobody
  cases nobody

end Rtl
