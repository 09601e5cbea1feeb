import Mathlib.Algebra.Ring.Nat
import Svindows.Lib.Runs

/-!
# Threads over shared memory

A program is a function from the shared memory, what a step leaves open and the place where
a thread is, to the memory behind the step, the place where the thread is then and the
threads it has created. Any thread may take the next step. What the threads have at hand is
counted over all of them; a count that every step keeps in balance with the memory stays so
in every run.
-/

namespace Threads

universe u v w

variable {M : Type u} {P : Type v} {C : Type w}

abbrev Program (M : Type u) (P : Type v) (C : Type w) := M → C → P → M × P × List P

structure System (M : Type u) (P : Type v) where
  memory : M
  threads : List P

/-- A step of thread `t`. -/
def System.next (advance : Program M P C) (s : System M P) (t : Nat) (c : C) : System M P :=
  match s.threads[t]? with
  | none => s
  | some p =>
    let (memory, p, created) := advance s.memory c p
    ⟨memory, s.threads.set t p ++ created⟩

/-- A step of some thread, with its number and what the step leaves open. -/
def Step (advance : Program M P C) (s : System M P) (l : Nat × C) (s' : System M P) : Prop :=
  s' = s.next advance l.1 l.2

/-- The steps of the threads, in the order given. -/
def System.after (advance : Program M P C) (s : System M P) (steps : List (Nat × C)) : System M P :=
  steps.foldl (fun s l => s.next advance l.1 l.2) s

/-- The sum of `f` over the threads. -/
def sumOver (f : P → Nat) (threads : List P) : Nat := (threads.map f).sum

variable {advance : Program M P C} {s s' : System M P} {threads : List P} {f g : P → Nat}
  {t : Nat} {c : C} {p q : P}

@[simp] theorem sumOver_nil (f : P → Nat) : sumOver f [] = 0 := rfl

@[simp] theorem sumOver_cons (f : P → Nat) (p : P) (threads : List P) :
    sumOver f (p :: threads) = f p + sumOver f threads := by
  rw [sumOver, List.map_cons, List.sum_cons, sumOver]

theorem sumOver_append (f : P → Nat) (threads created : List P) :
    sumOver f (threads ++ created) = sumOver f threads + sumOver f created := by
  rw [sumOver, List.map_append, List.sum_append, sumOver, sumOver]

theorem le_sumOver (f : P → Nat) (here : p ∈ threads) : f p ≤ sumOver f threads := by
  induction here with
  | head threads =>
    rw [sumOver_cons]
    exact Nat.le_add_right _ _
  | tail a _ ih =>
    rw [sumOver_cons]
    exact Nat.le_trans ih (Nat.le_add_left _ _)

theorem sumOver_eq_zero (none_ : ∀ p ∈ threads, f p = 0) : sumOver f threads = 0 := by
  induction threads with
  | nil => rfl
  | cons p threads ih =>
    rw [sumOver_cons, none_ p List.mem_cons_self, ih fun q member => none_ q (.tail p member)]

theorem exists_of_sumOver_pos (pos : 0 < sumOver f threads) : ∃ p ∈ threads, 0 < f p := by
  by_contra none_
  rw [sumOver_eq_zero fun p there => Nat.eq_zero_of_not_pos fun here => none_ ⟨p, there, here⟩] at pos
  exact Nat.lt_irrefl 0 pos

theorem sumOver_le (le : ∀ p, f p ≤ g p) (threads : List P) : sumOver f threads ≤ sumOver g threads := by
  induction threads with
  | nil => exact Nat.le_refl 0
  | cons p threads ih =>
    rw [sumOver_cons, sumOver_cons]
    exact Nat.add_le_add (le p) ih

theorem sumOver_set (f : P → Nat) (here : threads[t]? = some p) (q : P) :
    sumOver f (threads.set t q) + f p = sumOver f threads + f q := by
  induction threads generalizing t with
  | nil => cases here
  | cons a threads ih =>
    cases t with
    | zero =>
      cases here
      simp only [List.set_cons_zero, sumOver_cons]
      omega
    | succ t =>
      have rest := ih (t := t) here
      simp only [List.set_cons_succ, sumOver_cons]
      omega

/-- Two threads together count for as much as the sum at most. -/
theorem pair_le_sumOver {r : P} (here : threads[t]? = some p) (member : r ∈ threads.set t q) :
    r = q ∨ r ∈ threads ∧ ∀ f, f r + f p ≤ sumOver f threads := by
  induction threads generalizing t with
  | nil => cases here
  | cons a threads ih =>
    cases t with
    | zero =>
      cases here
      refine (List.mem_cons.mp member).imp id fun there => ⟨.tail _ there, fun f => ?_⟩
      have counted := le_sumOver f there
      rw [sumOver_cons]
      omega
    | succ t =>
      have rest : threads[t]? = some p := here
      rcases List.mem_cons.mp member with rfl | there
      · refine .inr ⟨List.mem_cons_self, fun f => ?_⟩
        have counted := le_sumOver f (List.mem_of_getElem? rest)
        rw [sumOver_cons]
        omega
      · refine (ih here there).imp id fun old => ⟨.tail a old.1, fun f => ?_⟩
        have counted := old.2 f
        rw [sumOver_cons]
        omega

theorem next_none (gone : s.threads[t]? = none) (c : C) : s.next advance t c = s := by
  rw [System.next, gone]

theorem next_here (here : s.threads[t]? = some p) (c : C) :
    s.next advance t c = ⟨(advance s.memory c p).1,
      s.threads.set t (advance s.memory c p).2.1 ++ (advance s.memory c p).2.2⟩ := by
  rw [System.next, here]

theorem sumOver_next (f : P → Nat) (here : s.threads[t]? = some p) (c : C) :
    sumOver f (s.next advance t c).threads + f p = sumOver f s.threads +
      (f (advance s.memory c p).2.1 + sumOver f (advance s.memory c p).2.2) := by
  have exchanged := sumOver_set f here (advance s.memory c p).2.1
  rw [next_here here, sumOver_append]
  omega

/-- A thread behind a step is the one that took it, one that it created, or another one. -/
theorem mem_next (here : s.threads[t]? = some p) (member : q ∈ (s.next advance t c).threads) :
    q = (advance s.memory c p).2.1 ∨ q ∈ (advance s.memory c p).2.2 ∨
      q ∈ s.threads ∧ ∀ f, f q + f p ≤ sumOver f s.threads := by
  rw [next_here here] at member
  rcases List.mem_append.mp member with old | new
  · exact (pair_le_sumOver here old).imp id .inr
  · exact .inr (.inl new)

theorem reachable_after {initial : System M P → Prop} (start : initial s) (steps : List (Nat × C)) :
    Runs.Reachable initial (Step advance) (s.after advance steps) := by
  have run : Runs.Reachable initial (Step advance) s := .of_initial start
  clear start
  induction steps generalizing s with
  | nil => exact run
  | cons l steps ih => exact ih (run.next (l := l) rfl)

/-- An invariant is proved for the step of a thread that is there. -/
theorem invariant {initial : System M P → Prop} {Inv : System M P → Prop}
    (initially : ∀ s, initial s → Inv s)
    (kept : ∀ s t c p, Inv s → s.threads[t]? = some p → Inv (s.next advance t c))
    (run : Runs.Reachable initial (Step advance) s) : Inv s := by
  refine run.invariant initially fun s l s' inv step => ?_
  rw [step]
  cases here : s.threads[l.1]? with
  | none => rwa [next_none here]
  | some p => exact kept s l.1 l.2 p inv here

/-- What the threads have at hand, by `f`, is what the memory says, by `held`. -/
def InBalance (held : M → Nat) (f : P → Nat) (s : System M P) : Prop :=
  sumOver f s.threads = held s.memory

variable {held : M → Nat}

theorem InBalance.le (balanced : InBalance held f s) (here : p ∈ s.threads) : f p ≤ held s.memory :=
  balanced ▸ le_sumOver f here

theorem InBalance.next (balanced : InBalance held f s) (here : s.threads[t]? = some p)
    (step : held (advance s.memory c p).1 + f p =
      held s.memory + (f (advance s.memory c p).2.1 + sumOver f (advance s.memory c p).2.2)) :
    InBalance held f (s.next advance t c) := by
  have sum := @sumOver_next _ _ _ advance s t p f here c
  have memory : (s.next advance t c).memory = (advance s.memory c p).1 := by rw [next_here here]
  rw [InBalance] at balanced ⊢
  rw [memory]
  omega

/-- Where the memory speaks of one thread at most, no other thread counts beside one that does. -/
theorem InBalance.lone (balanced : InBalance held f s) (one : held s.memory ≤ 1)
    (both : f q + f p ≤ sumOver f s.threads) (counts : f q = 1) : f p = 0 := by
  rw [InBalance] at balanced
  omega

end Threads
