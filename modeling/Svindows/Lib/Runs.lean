import Mathlib.Logic.Relation

/-!
# Reachable states of a labelled step relation

A component is a predicate for its start states and a relation saying which
state each labelled operation may lead to. Reachability forgets the labels;
an invariant is proved once for the start states and once for one step. Where
the steps are a function, what a run costs is bounded by a potential that every
step pays from.
-/

namespace Runs

universe u v

variable {State : Type u} {Label : Type v}

/-- Some start state leads to `s` by finitely many steps. -/
def Reachable (initial : State → Prop) (step : State → Label → State → Prop)
    (s : State) : Prop :=
  ∃ s₀, initial s₀ ∧ Relation.ReflTransGen (fun a b => ∃ l, step a l b) s₀ s

variable {initial : State → Prop} {step : State → Label → State → Prop}

theorem Reachable.of_initial {s : State} (h : initial s) : Reachable initial step s :=
  ⟨s, h, .refl⟩

theorem Reachable.next {s t : State} {l : Label} (h : Reachable initial step s)
    (edge : step s l t) : Reachable initial step t := by
  obtain ⟨s₀, h₀, path⟩ := h
  exact ⟨s₀, h₀, path.tail ⟨l, edge⟩⟩

/-- What holds at the start and survives one step holds in every reachable state. -/
theorem Reachable.invariant {Inv : State → Prop}
    (initially : ∀ s, initial s → Inv s)
    (kept : ∀ s l t, Inv s → step s l t → Inv t)
    {s : State} (h : Reachable initial step s) : Inv s := by
  obtain ⟨s₀, h₀, path⟩ := h
  induction path with
  | refl => exact initially s₀ h₀
  | tail _ edge ih =>
    obtain ⟨l, edge⟩ := edge
    exact kept _ l _ ih edge

/-- A run of some of the steps is a run. -/
theorem Reachable.mono {step' : State → Label → State → Prop}
    (fewer : ∀ s l t, step s l t → step' s l t) {s : State} (h : Reachable initial step s) :
    Reachable initial step' s := by
  obtain ⟨s₀, h₀, path⟩ := h
  induction path with
  | refl => exact .of_initial h₀
  | tail _ edge ih =>
    obtain ⟨l, edge⟩ := edge
    exact ih.next (fewer _ l _ edge)

section Costs

variable {next : State → Label → State} {cost : State → Label → Nat} {allowed : State → Label → Prop}

/-- What the labels of a run from a state cost together. -/
def total (next : State → Label → State) (cost : State → Label → Nat) : State → List Label → Nat
  | _, [] => 0
  | s, l :: ls => cost s l + total next cost (next s l) ls

/-- Every label of the run is allowed in the state it is met in. -/
def Along (next : State → Label → State) (allowed : State → Label → Prop) :
    State → List Label → Prop
  | _, [] => True
  | s, l :: ls => allowed s l ∧ Along next allowed (next s l) ls

/-- Two conditions that agree wherever an invariant holds, which the first of
them keeps, agree along every run. -/
theorem along_congr {I : State → Prop} {P Q : State → Label → Prop}
    (kept : ∀ s l, I s → allowed s l → P s l → I (next s l))
    (same : ∀ s l, I s → allowed s l → (P s l ↔ Q s l))
    {s : State} {ls : List Label} (initially : I s) (along : Along next allowed s ls) :
    Along next P s ls ↔ Along next Q s ls := by
  induction ls generalizing s with
  | nil => exact Iff.rfl
  | cons l ls ih =>
    have here := same s l initially along.1
    have rest := fun holds => ih (kept s l initially along.1 holds) along.2
    constructor
    · rintro ⟨holds, later⟩
      exact ⟨here.mp holds, (rest holds).mp later⟩
    · rintro ⟨holds, later⟩
      exact ⟨here.mpr holds, (rest (here.mpr holds)).mpr later⟩

/-- A run costs at most the potential it starts with, if every step pays from it. -/
theorem total_le (potential : State → Nat)
    (pays : ∀ s l, allowed s l → cost s l + potential (next s l) ≤ potential s)
    {s : State} {ls : List Label} (along : Along next allowed s ls) :
    total next cost s ls ≤ potential s := by
  induction ls generalizing s with
  | nil => exact Nat.zero_le _
  | cons l ls ih =>
    have first := pays s l along.1
    have rest := ih along.2
    simp only [total]
    omega

end Costs

end Runs
