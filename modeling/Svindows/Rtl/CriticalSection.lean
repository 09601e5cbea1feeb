import Mathlib.Logic.Function.Basic
import Mathlib.Tactic.Linarith
import Svindows.Lib.Runs

/-!
# Critical sections

`RtlEnterCriticalSection`, `RtlTryEnterCriticalSection` and
`RtlLeaveCriticalSection` of `ntdllrtl.c`, where every read, write and
compare-and-swap of the three words is a step of its own. A thread is known by
its id, which is not 0.

The recursion count is a 32-bit word: it is the nesting depth as long as no
thread nests `2 ^ 31` deep.
-/

namespace Rtl

/-- Where a thread is in the three functions. `once` is true for
`RtlTryEnterCriticalSection`. -/
inductive CsPc where
  | out
  /-- Before the owner is read. -/
  | readOwner (once : Bool)
  /-- The owner before it reads the count, and before it writes it back. -/
  | readCount
  | writeCount (v : Int32)
  /-- Before the compare-and-swap of the lock count. -/
  | swap (once : Bool)
  | setOwner
  | setCount
  /-- `RtlLeaveCriticalSection`: the count is read and written. -/
  | readLeave
  | writeLeave (v : Int32)
  | clearOwner
  /-- `__sync_lock_release` writes 0, the next statement writes -1. -/
  | releaseLock
  | freeLock
  deriving DecidableEq

/-- `depth` is the number of completed enters without a completed leave. -/
structure CsThread where
  pc : CsPc
  depth : Nat
  deriving DecidableEq

structure CsState where
  lockCount : Int32
  recursionCount : Int32
  owningThread : Nat
  threads : Nat → CsThread

/-- `RtlInitializeCriticalSection`, with no thread in the code. -/
def csInit : CsState := ⟨-1, 0, 0, fun _ => ⟨.out, 0⟩⟩

inductive CsAction where
  | enter
  | tryEnter
  | leave
  /-- The next read, write or compare-and-swap. -/
  | go
  deriving DecidableEq

def CsState.at (s : CsState) (t : Nat) (thread : CsThread) : CsState :=
  { s with threads := Function.update s.threads t thread }

def CsState.move (s : CsState) (t : Nat) (pc : CsPc) : CsState :=
  s.at t { s.threads t with pc := pc }

/-- The next instruction of thread `t`. -/
def CsState.go (s : CsState) (t : Nat) : Option CsState :=
  let depth := (s.threads t).depth
  match (s.threads t).pc with
  | .out => none
  | .readOwner once =>
    some (if s.owningThread = t then s.move t .readCount else s.move t (.swap once))
  | .readCount => some (s.move t (.writeCount s.recursionCount))
  | .writeCount v => some { s.at t ⟨.out, depth + 1⟩ with recursionCount := v + 1 }
  | .swap once =>
    if s.lockCount = -1 then some { s.move t .setOwner with lockCount := 0 }
    else if once then some (s.move t .out)
    else some s
  | .setOwner => some { s.move t .setCount with owningThread := t }
  | .setCount => some { s.at t ⟨.out, depth + 1⟩ with recursionCount := 1 }
  | .readLeave => some (s.move t (.writeLeave s.recursionCount))
  | .writeLeave v =>
    if v - 1 = 0 then some { s.move t .clearOwner with recursionCount := v - 1 }
    else some { s.at t ⟨.out, depth - 1⟩ with recursionCount := v - 1 }
  | .clearOwner => some { s.move t .releaseLock with owningThread := 0 }
  | .releaseLock => some { s.move t .freeLock with lockCount := 0 }
  | .freeLock => some { s.at t ⟨.out, depth - 1⟩ with lockCount := -1 }

/-- A step of the thread with id `t`; it leaves only what it entered. -/
def CsState.step (s : CsState) (t : Nat) (a : CsAction) : Option CsState :=
  if t = 0 then none
  else
    match a with
    | .enter => if (s.threads t).pc = .out then some (s.move t (.readOwner false)) else none
    | .tryEnter => if (s.threads t).pc = .out then some (s.move t (.readOwner true)) else none
    | .leave =>
      if (s.threads t).pc = .out ∧ 0 < (s.threads t).depth then some (s.move t .readLeave) else none
    | .go => s.go t

/-- Two states with the same three words. -/
def SameWords (s s' : CsState) : Prop :=
  s'.lockCount = s.lockCount ∧ s'.recursionCount = s.recursionCount ∧
  s'.owningThread = s.owningThread

/-- At most one thread is inside, its depth is counted, and an idle section is free. -/
structure CsExclusion (s : CsState) : Prop where
  alone : ∀ t u, 0 < (s.threads t).depth → 0 < (s.threads u).depth → t = u
  counted : ∀ t, 0 < (s.threads t).depth → (s.threads t).pc = .out →
    s.recursionCount.toInt = (s.threads t).depth
  free : (∀ t, (s.threads t).depth = 0 ∧ (s.threads t).pc = .out) →
    s.lockCount = -1 ∧ s.owningThread = 0

/-- A step of a `RtlTryEnterCriticalSection` that does not succeed: the read of an
owner that is another thread, or the failed swap that returns FALSE. -/
def CsState.TryFails (s : CsState) (t : Nat) : Prop :=
  ((s.threads t).pc = .readOwner true ∧ s.owningThread ≠ t) ∨
  ((s.threads t).pc = .swap true ∧ s.lockCount ≠ -1)

/-- The count still fits after the step. -/
def CsFits (s : CsState) (t : Nat) : Prop :=
  ∀ v, (s.threads t).pc = .writeCount v → (s.threads t).depth + 1 < 2 ^ 31

/-- A thread that neither holds the section nor is taking it. -/
def CsThread.Outside (thread : CsThread) : Prop :=
  thread.depth = 0 ∧
  (thread.pc = .out ∨ (∃ once, thread.pc = .readOwner once) ∨ ∃ once, thread.pc = .swap once)

/-- The words while thread `h` has the lock, by where `h` is. -/
def CsState.Holds (s : CsState) (h : Nat) : Prop :=
  s.lockCount = 0 ∧
  match (s.threads h).pc with
  | .setOwner => (s.threads h).depth = 0 ∧ s.owningThread = 0
  | .setCount => (s.threads h).depth = 0 ∧ s.owningThread = h
  | .clearOwner => (s.threads h).depth = 1 ∧ s.owningThread = h
  | .releaseLock | .freeLock => (s.threads h).depth = 1 ∧ s.owningThread = 0
  | .swap _ => False
  | .writeCount v | .writeLeave v =>
    0 < (s.threads h).depth ∧ s.owningThread = h ∧ v.toInt = (s.threads h).depth
  | .out | .readOwner _ | .readCount | .readLeave =>
    0 < (s.threads h).depth ∧ s.owningThread = h ∧
      s.recursionCount.toInt = (s.threads h).depth

/-- The section is free, or one thread has the lock; all others are outside. -/
def CsInv (s : CsState) : Prop :=
  (s.lockCount = -1 ∧ s.owningThread = 0 ∧ ∀ u, (s.threads u).Outside) ∨
  ∃ h, h ≠ 0 ∧ s.Holds h ∧ ∀ u, u ≠ h → (s.threads u).Outside

theorem CsInv.exclusion {s : CsState} (inv : CsInv s) : CsExclusion s := by
  rcases inv with ⟨free, unowned, outside⟩ | ⟨h, _, holds, outside⟩
  · refine ⟨?_, ?_, fun _ => ⟨free, unowned⟩⟩
    · intro t u inside
      rw [(outside t).1] at inside
      cases inside
    · intro t inside
      rw [(outside t).1] at inside
      cases inside
  · have only : ∀ t, 0 < (s.threads t).depth → t = h := by
      intro t inside
      by_contra other
      rw [(outside t other).1] at inside
      cases inside
    refine ⟨?_, ?_, ?_⟩
    · intro t u inside inside'
      rw [only t inside, only u inside']
    · intro t inside idle
      rw [only t inside] at idle ⊢
      have state := holds.2
      rw [idle] at state
      exact state.2.2
    · intro idle
      have state := holds.2
      rw [(idle h).2] at state
      have none := (idle h).1
      omega

section Steps

variable {s s' : CsState} {t h : Nat}

theorem at_self (s : CsState) (t : Nat) (thread : CsThread) : (s.at t thread).threads t = thread :=
  Function.update_self _ _ _

theorem at_of_ne (s : CsState) {t u : Nat} (other : u ≠ t) (thread : CsThread) :
    (s.at t thread).threads u = s.threads u :=
  Function.update_of_ne other _ _

theorem CsState.Holds.owner (holds : s.Holds h) : s.owningThread = 0 ∨ s.owningThread = h := by
  have state := holds.2
  cases pc : (s.threads h).pc <;> rw [pc] at state <;> first
    | exact Or.inl state.2
    | exact Or.inr state.2
    | exact Or.inr state.2.1
    | exact state.elim

/-- Another thread's move leaves the holder's words alone. -/
theorem CsState.Holds.at_of_ne (holds : s.Holds h) {u : Nat} (other : u ≠ h) (thread : CsThread) :
    (s.at u thread).Holds h := by
  unfold CsState.Holds
  rw [Rtl.at_of_ne s other.symm]
  exact holds

theorem Outside.at {s : CsState} {t u : Nat} {thread : CsThread}
    (others : u ≠ t → (s.threads u).Outside) (here : thread.Outside) :
    ((s.at t thread).threads u).Outside := by
  by_cases same : u = t
  · subst same
    rw [at_self]
    exact here
  · rw [at_of_ne s same]
    exact others same

theorem CsInv.move_outside (inv : CsInv s) (outside : (s.threads t).Outside) {pc : CsPc}
    (place : pc = .out ∨ (∃ once, pc = .readOwner once) ∨ ∃ once, pc = .swap once)
    (free : ∀ h, s.Holds h → t ≠ h) : CsInv (s.move t pc) := by
  have here : CsThread.Outside { s.threads t with pc := pc } := ⟨outside.1, place⟩
  rcases inv with ⟨unlocked, unowned, others⟩ | ⟨h, id, holds, others⟩
  · exact Or.inl ⟨unlocked, unowned, fun u => Outside.at (fun _ => others u) here⟩
  · refine Or.inr ⟨h, id, holds.at_of_ne (free h holds) _, ?_⟩
    intro u other
    exact Outside.at (fun _ => others u other) here

/-- The holder moves on, and the others stay outside. -/
theorem CsInv.held (id : h ≠ 0) (others : ∀ u, u ≠ h → (s.threads u).Outside)
    (same : ∀ u, u ≠ h → s'.threads u = s.threads u) (holds : s'.Holds h) : CsInv s' := by
  refine Or.inr ⟨h, id, holds, ?_⟩
  intro u other
  rw [same u other]
  exact others u other

theorem int32_succ {v : Int32} {d : Nat} (count : v.toInt = d) (fits : d + 1 < 2 ^ 31) :
    (v + 1).toInt = (d + 1 : Nat) := by
  have one : (1 : Int32).toInt = 1 := rfl
  rw [Int32.toInt_add, one, count, Int.bmod_eq_of_le (by omega) (by omega)]
  rfl

theorem int32_pred {v : Int32} {d : Nat} (count : v.toInt = d) (some_ : 0 < d) :
    (v - 1).toInt = (d - 1 : Nat) := by
  have one : (1 : Int32).toInt = 1 := rfl
  have bound := v.toInt_lt
  rw [Int32.toInt_sub, one, count, Int.bmod_eq_of_le (by omega) (by omega)]
  omega

theorem holder_go (id : h ≠ 0) (holds : s.Holds h) (others : ∀ u, u ≠ h → (s.threads u).Outside)
    (fits : CsFits s h) (made : s.go h = some s') : CsInv s' := by
  have state := holds.2
  have locked := holds.1
  have elsewhere : ∀ thread, ∀ u, u ≠ h → (s.at h thread).threads u = s.threads u :=
    fun thread u other => at_of_ne s other thread
  unfold CsState.go at made
  cases pc : (s.threads h).pc with
  | out =>
    rw [pc] at made
    cases made
  | readOwner once =>
    rw [pc] at made state
    dsimp only at made state
    rw [if_pos state.2.1] at made
    cases made
    refine CsInv.held id others (elsewhere _) ⟨locked, ?_⟩
    rw [CsState.move, at_self]
    exact state
  | readCount | readLeave =>
    rw [pc] at made state
    cases made
    refine CsInv.held id others (elsewhere _) ⟨locked, ?_⟩
    rw [CsState.move, at_self]
    exact state
  | writeCount v =>
    rw [pc] at made state
    cases made
    refine CsInv.held id others (elsewhere _) ⟨locked, ?_⟩
    dsimp only
    rw [at_self]
    exact ⟨Nat.succ_pos _, state.2.1, int32_succ state.2.2 (fits v pc)⟩
  | swap once =>
    rw [pc] at state
    exact state.elim
  | setOwner | clearOwner =>
    rw [pc] at made state
    cases made
    refine CsInv.held id others (elsewhere _) ⟨locked, ?_⟩
    dsimp only
    rw [CsState.move, at_self]
    exact ⟨state.1, rfl⟩
  | setCount =>
    rw [pc] at made state
    cases made
    refine CsInv.held id others (elsewhere _) ⟨locked, ?_⟩
    dsimp only
    rw [at_self, state.1]
    exact ⟨Nat.one_pos, state.2, rfl⟩
  | writeLeave v =>
    rw [pc] at made state
    dsimp only at made state
    obtain ⟨inside, owned, count⟩ := state
    have left := int32_pred count inside
    split at made
    · rename_i last
      cases made
      refine CsInv.held id others (elsewhere _) ⟨locked, ?_⟩
      dsimp only
      rw [CsState.move, at_self]
      rw [last] at left
      have zero : (0 : Int32).toInt = 0 := rfl
      refine ⟨?_, owned⟩
      dsimp only
      omega
    · rename_i more
      cases made
      have deeper : (v - 1).toInt ≠ 0 := fun zero => more (Int32.toInt_inj.mp zero)
      refine CsInv.held id others (elsewhere _) ⟨locked, ?_⟩
      dsimp only
      rw [at_self]
      refine ⟨?_, owned, left⟩
      dsimp only
      omega
  | releaseLock =>
    rw [pc] at made state
    cases made
    refine CsInv.held id others (elsewhere _) ⟨rfl, ?_⟩
    dsimp only
    rw [CsState.move, at_self]
    exact state
  | freeLock =>
    rw [pc] at made state
    cases made
    refine Or.inl ⟨rfl, state.2, ?_⟩
    intro u
    refine Outside.at (others u) ⟨?_, Or.inl rfl⟩
    dsimp only
    rw [state.1]

/-- The instructions of a thread outside. -/
theorem outside_go (known : t ≠ 0) (inv : CsInv s) (outside : (s.threads t).Outside)
    (free : ∀ h, s.Holds h → t ≠ h) (made : s.go t = some s') : CsInv s' := by
  unfold CsState.go at made
  obtain ⟨depth, pc | ⟨once, pc⟩ | ⟨once, pc⟩⟩ := id outside
  · rw [pc] at made
    cases made
  · rw [pc] at made
    dsimp only at made
    have foreign : s.owningThread ≠ t := by
      rcases inv with ⟨_, unowned, _⟩ | ⟨h, _, holds, _⟩
      · rw [unowned]
        exact known.symm
      · rcases holds.owner with unowned | owned
        · rw [unowned]
          exact known.symm
        · rw [owned]
          exact (free h holds).symm
    rw [if_neg foreign] at made
    cases made
    exact inv.move_outside outside (Or.inr (Or.inr ⟨once, rfl⟩)) free
  · rw [pc] at made
    dsimp only at made
    split at made
    · rename_i unlocked
      cases made
      rcases inv with ⟨_, unowned, others⟩ | ⟨h, _, holds, _⟩
      · refine CsInv.held known (fun u _ => others u) (fun u other => at_of_ne s other _) ⟨rfl, ?_⟩
        dsimp only
        rw [CsState.move, at_self]
        exact ⟨depth, unowned⟩
      · rw [holds.1] at unlocked
        cases unlocked
    · split at made
      · cases made
        exact inv.move_outside outside (Or.inl rfl) free
      · cases made
        exact inv

theorem CsState.Holds.not_outside (holds : s.Holds h) : ¬ (s.threads h).Outside := by
  rintro ⟨depth, pc | ⟨once, pc⟩ | ⟨once, pc⟩⟩
  · have state := holds.2
    rw [pc] at state
    exact absurd depth (Nat.ne_of_gt state.1)
  · have state := holds.2
    rw [pc] at state
    exact absurd depth (Nat.ne_of_gt state.1)
  · have state := holds.2
    rw [pc] at state
    exact state

theorem outside_step (inv : CsInv s) (outside : (s.threads t).Outside) {a : CsAction}
    (made : s.step t a = some s') : CsInv s' := by
  have free : ∀ h, s.Holds h → t ≠ h := by
    rintro h holds rfl
    exact holds.not_outside outside
  unfold CsState.step at made
  split at made
  · cases made
  rename_i known
  cases a with
  | enter =>
    dsimp only at made
    split at made
    · cases made
      exact inv.move_outside outside (Or.inr (Or.inl ⟨false, rfl⟩)) free
    · cases made
  | tryEnter =>
    dsimp only at made
    split at made
    · cases made
      exact inv.move_outside outside (Or.inr (Or.inl ⟨true, rfl⟩)) free
    · cases made
  | leave =>
    dsimp only at made
    split at made
    · rename_i inside
      have none := outside.1
      omega
    · cases made
  | go => exact outside_go known inv outside free made

theorem holder_step (valid : h ≠ 0) (holds : s.Holds h)
    (others : ∀ u, u ≠ h → (s.threads u).Outside) (fits : CsFits s h) {a : CsAction}
    (made : s.step h a = some s') : CsInv s' := by
  have state := holds.2
  unfold CsState.step at made
  rw [if_neg valid] at made
  cases a with
  | enter | tryEnter =>
    dsimp only at made
    split at made
    · rename_i idle
      rw [idle] at state
      cases made
      refine CsInv.held valid others (fun u other => at_of_ne s other _) ⟨holds.1, ?_⟩
      rw [CsState.move, at_self]
      exact state
    · cases made
  | leave =>
    dsimp only at made
    split at made
    · rename_i idle
      rw [idle.1] at state
      cases made
      refine CsInv.held valid others (fun u other => at_of_ne s other _) ⟨holds.1, ?_⟩
      rw [CsState.move, at_self]
      exact state
    · cases made
  | go => exact holder_go valid holds others fits made

theorem CsInv.step (inv : CsInv s) {a : CsAction} (fits : CsFits s t)
    (made : s.step t a = some s') : CsInv s' := by
  rcases id inv with ⟨_, _, others⟩ | ⟨h, valid, holds, others⟩
  · exact outside_step inv (others t) made
  · by_cases same : t = h
    · subst same
      exact holder_step valid holds others fits made
    · exact outside_step inv (others t same) made

theorem tryFails_sameWords (fails : s.TryFails t) (made : s.step t .go = some s') :
    SameWords s s' := by
  unfold CsState.step at made
  split at made
  · cases made
  unfold CsState.go at made
  rcases fails with ⟨pc, foreign⟩ | ⟨pc, locked⟩
  · rw [pc] at made
    dsimp only at made
    rw [if_neg foreign] at made
    cases made
    exact ⟨rfl, rfl, rfl⟩
  · rw [pc] at made
    dsimp only at made
    rw [if_neg locked] at made
    cases made
    exact ⟨rfl, rfl, rfl⟩

end Steps

def CsStep (s : CsState) (l : Nat × CsAction) (s' : CsState) : Prop :=
  s.step l.1 l.2 = some s'

/-- A step after which the depth of the thread still fits the recursion count. -/
def CsFitting (s : CsState) (l : Nat × CsAction) (s' : CsState) : Prop :=
  CsFits s l.1 ∧ CsStep s l s'

theorem csInit_inv : CsInv csInit :=
  Or.inl ⟨rfl, rfl, fun _ => ⟨rfl, Or.inl rfl⟩⟩

theorem reachable_csInv {s : CsState} (run : Runs.Reachable (· = csInit) CsFitting s) :
    CsInv s := by
  have start : ∀ s, s = csInit → CsInv s := by
    rintro s rfl
    exact csInit_inv
  have kept : ∀ s l s', CsInv s → CsFitting s l s' → CsInv s' :=
    fun _ _ _ inv step => inv.step step.1 step.2
  exact run.invariant start kept

/-- Critical sections exclude and count in every run in which no thread nests
`2 ^ 31` deep. -/
theorem critical_section_excludes {s : CsState}
    (run : Runs.Reachable (· = csInit) CsFitting s) :
    CsExclusion s ∧ ∀ t s', s.TryFails t → s.step t .go = some s' → SameWords s s' := by
  refine ⟨(reachable_csInv run).exclusion, ?_⟩
  intro t s' fails made
  exact tryFails_sameWords fails made

/-- Thread 1 at `pc` and `n` deep, with the three words; all others are outside. -/
def loneThread (lock count : Int32) (owner : Nat) (pc : CsPc) (n : Nat) : CsState :=
  ⟨lock, count, owner, Function.update (fun _ => ⟨.out, 0⟩) 1 ⟨pc, n⟩⟩

section LoneThread

variable (lock count : Int32) (owner n : Nat) (pc : CsPc)

@[simp] theorem loneThread_recursionCount :
    (loneThread lock count owner pc n).recursionCount = count := rfl

@[simp] theorem loneThread_owningThread :
    (loneThread lock count owner pc n).owningThread = owner := rfl

@[simp] theorem loneThread_self : (loneThread lock count owner pc n).threads 1 = ⟨pc, n⟩ := by
  simp only [loneThread, Function.update_self]

@[simp] theorem loneThread_at (thread : CsThread) :
    (loneThread lock count owner pc n).at 1 thread =
      loneThread lock count owner thread.pc thread.depth := by
  simp only [loneThread, CsState.at, Function.update_idem]

end LoneThread

theorem csInit_eq : csInit = loneThread (-1) 0 0 .out 0 := by
  have idle : Function.update (fun _ : Nat => (⟨.out, 0⟩ : CsThread)) 1 ⟨.out, 0⟩ =
      fun _ => ⟨.out, 0⟩ := Function.update_eq_self 1 _
  rw [loneThread, idle]
  rfl

/-- A free section is entered in four instructions. -/
theorem entered_reachable :
    Runs.Reachable (· = csInit) CsFitting (loneThread 0 1 1 .out 1) := by
  have start : Runs.Reachable (· = csInit) CsFitting (loneThread (-1) 0 0 .out 0) :=
    .of_initial csInit_eq.symm
  have called : Runs.Reachable (· = csInit) CsFitting (loneThread (-1) 0 0 (.readOwner false) 0) :=
    start.next (l := (1, .enter)) ⟨by simp [CsFits], by simp [CsStep, CsState.step, CsState.move]⟩
  have foreign : Runs.Reachable (· = csInit) CsFitting (loneThread (-1) 0 0 (.swap false) 0) :=
    called.next (l := (1, .go)) ⟨by simp [CsFits], by
      simp [CsStep, CsState.step, CsState.go, CsState.move]⟩
  have locked : Runs.Reachable (· = csInit) CsFitting (loneThread 0 0 0 .setOwner 0) :=
    foreign.next (l := (1, .go)) ⟨by simp [CsFits], by
      simp [CsStep, CsState.step, CsState.go, CsState.move]
      rfl⟩
  have owned : Runs.Reachable (· = csInit) CsFitting (loneThread 0 0 1 .setCount 0) :=
    locked.next (l := (1, .go)) ⟨by simp [CsFits], by
      simp [CsStep, CsState.step, CsState.go, CsState.move]
      rfl⟩
  exact owned.next (l := (1, .go)) ⟨by simp [CsFits], by
    simp [CsStep, CsState.step, CsState.go]
    rfl⟩

/-- While thread 1 is inside, thread 2 has read the owner in a try. -/
def contended : CsState := (loneThread 0 1 1 .out 1).at 2 ⟨.swap true, 0⟩

theorem contended_reachable : Runs.Reachable (· = csInit) CsFitting contended := by
  have called : Runs.Reachable (· = csInit) CsFitting
      ((loneThread 0 1 1 .out 1).at 2 ⟨.readOwner true, 0⟩) :=
    entered_reachable.next (l := (2, .tryEnter)) ⟨by simp [CsFits, loneThread], rfl⟩
  refine called.next (l := (2, .go)) ⟨by simp [CsFits, CsState.at], ?_⟩
  simp [CsStep, CsState.step, CsState.go, CsState.move, CsState.at, contended]

/-- The try of thread 2 is refused. -/
theorem critical_section_excludes_contended :
    CsExclusion contended ∧ SameWords contended (contended.move 2 .out) := by
  obtain ⟨exclusion, fails⟩ := critical_section_excludes contended_reachable
  exact ⟨exclusion, fails 2 _ (.inr ⟨rfl, by decide⟩) rfl⟩

/-- Each further enter of the owner adds one to the count, as 32-bit words. -/
theorem nested_reachable (n : Nat) :
    Runs.Reachable (· = csInit) CsStep (loneThread 0 (Int32.ofNat (n + 1)) 1 .out (n + 1)) := by
  induction n with
  | zero => exact entered_reachable.mono fun _ _ _ edge => edge.2
  | succ n ih =>
    have called : Runs.Reachable (· = csInit) CsStep
        (loneThread 0 (Int32.ofNat (n + 1)) 1 (.readOwner false) (n + 1)) :=
      ih.next (l := (1, .enter)) (by simp [CsStep, CsState.step, CsState.move])
    have owned : Runs.Reachable (· = csInit) CsStep
        (loneThread 0 (Int32.ofNat (n + 1)) 1 .readCount (n + 1)) :=
      called.next (l := (1, .go)) (by simp [CsStep, CsState.step, CsState.go, CsState.move])
    have read : Runs.Reachable (· = csInit) CsStep
        (loneThread 0 (Int32.ofNat (n + 1)) 1 (.writeCount (Int32.ofNat (n + 1))) (n + 1)) :=
      owned.next (l := (1, .go)) (by simp [CsStep, CsState.step, CsState.go, CsState.move])
    refine read.next (l := (1, .go)) ?_
    have next : Int32.ofNat (n + 1) + 1 = Int32.ofNat (n + 1 + 1) := (Int32.ofNat_add _ 1).symm
    simp only [CsStep, CsState.step, CsState.go, loneThread_self, loneThread_at, next]
    rfl

/-- `2 ^ 31` enters of one thread leave the count at `-2 ^ 31`. -/
theorem nesting_overflows :
    ∃ s, Runs.Reachable (· = csInit) CsStep s ∧ (s.threads 1).pc = .out ∧
      (s.threads 1).depth = 2 ^ 31 ∧ s.recursionCount.toInt = -2 ^ 31 ∧ ¬ CsExclusion s := by
  have count : (Int32.ofNat (2 ^ 31 - 1 + 1)).toInt = -2 ^ 31 := by decide
  refine ⟨_, nested_reachable (2 ^ 31 - 1), by simp, by simp, count, ?_⟩
  intro exclusion
  have counted := exclusion.counted 1 (by simp) (by simp)
  rw [loneThread_recursionCount, loneThread_self, count] at counted
  omega

end Rtl
