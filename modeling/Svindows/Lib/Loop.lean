import Mathlib.Data.Nat.Init
import Mathlib.Logic.Function.Iterate

/-!
# Loops that may not end

The body of a loop either leaves it with a result or goes on with a new state.
A loop is run with fuel; it ends if some fuel is enough. Whether it does is
carried from one loop to another by relating their states.
-/

namespace Loop

universe u v u' v'

variable {S : Type u} {R : Type v} {S' : Type u'} {R' : Type v'}

def run (step : S → R ⊕ S) : Nat → S → Option R
  | 0, _ => none
  | fuel + 1, s =>
    match step s with
    | .inl r => some r
    | .inr t => run step fuel t

def Ends (step : S → R ⊕ S) (s : S) : Prop := ∃ fuel r, run step fuel s = some r

variable {step : S → R ⊕ S} {step' : S' → R' ⊕ S'} {s t : S} {r : R} {fuel : Nat}

theorem run_inl (h : step s = .inl r) (fuel : Nat) : run step (fuel + 1) s = some r := by
  simp [run, h]

theorem run_inr (h : step s = .inr t) (fuel : Nat) :
    run step (fuel + 1) s = run step fuel t := by
  simp [run, h]

theorem Ends.of_inl (h : step s = .inl r) : Ends step s := ⟨1, r, run_inl h 0⟩

theorem ends_inr (h : step s = .inr t) : Ends step s ↔ Ends step t := by
  constructor
  · rintro ⟨fuel, r, run⟩
    cases fuel with
    | zero => cases run
    | succ fuel =>
      rw [run_inr h] at run
      exact ⟨fuel, r, run⟩
  · rintro ⟨fuel, r, run⟩
    exact ⟨fuel + 1, r, by rw [run_inr h, run]⟩

theorem run_mono (h : run step fuel s = some r) (more : Nat) :
    run step (fuel + more) s = some r := by
  induction fuel generalizing s with
  | zero => cases h
  | succ fuel ih =>
    rw [Nat.succ_add]
    cases next : step s with
    | inl r' =>
      rw [run_inl next] at h ⊢
      exact h
    | inr t =>
      rw [run_inr next] at h ⊢
      exact ih h

theorem run_unique {fuel' : Nat} {r' : R} (h : run step fuel s = some r)
    (h' : run step fuel' s = some r') : r = r' := by
  have both := run_mono h fuel'
  rw [Nat.add_comm, run_mono h' fuel] at both
  exact (Option.some.inj both).symm

/-- If the first loop only goes on where the second does, it ends where the second does. -/
theorem Ends.of_follows (Rel : S → S' → Prop)
    (follows : ∀ s s' t, Rel s s' → step s = .inr t → ∃ t', step' s' = .inr t' ∧ Rel t t')
    {s' : S'} (rel : Rel s s') (ends : Ends step' s') : Ends step s := by
  obtain ⟨fuel, r', run'⟩ := ends
  induction fuel generalizing s s' with
  | zero => cases run'
  | succ fuel ih =>
    cases h : step s with
    | inl r => exact .of_inl h
    | inr t =>
      obtain ⟨t', goes, rel'⟩ := follows s s' t rel h
      rw [run_inr goes] at run'
      exact (ends_inr h).mpr (ih rel' run')

/-- Loops that go on together are left together, with related results. -/
theorem run_of_together (Rel : S → S' → Prop) (Out : R → R' → Prop)
    (together : ∀ s s', Rel s s' → (∃ r r', step s = .inl r ∧ step' s' = .inl r' ∧ Out r r') ∨
      ∃ t t', step s = .inr t ∧ step' s' = .inr t' ∧ Rel t t')
    {u : S'} (rel : Rel s u) (h : run step fuel s = some r) :
    ∃ r', run step' fuel u = some r' ∧ Out r r' := by
  induction fuel generalizing s u with
  | zero => cases h
  | succ fuel ih =>
    rcases together s u rel with ⟨x, x', exit, exit', out⟩ | ⟨t, t', goes, goes', rel'⟩
    · rw [run_inl exit] at h
      cases h
      exact ⟨x', run_inl exit' fuel, out⟩
    · rw [run_inr goes] at h
      obtain ⟨r', run', out⟩ := ih rel' h
      exact ⟨r', by rw [run_inr goes', run'], out⟩

theorem Ends.of_measure (μ : S → Nat) (lowers : ∀ s t, step s = .inr t → μ t < μ s) (s : S) :
    Ends step s := by
  induction h : μ s using Nat.strongRecOn generalizing s with
  | _ n ih =>
    cases next : step s with
    | inl r => exact .of_inl next
    | inr t => exact (ends_inr next).mpr (ih (μ t) (h ▸ lowers s t next) t rfl)

/-- Where the next state does not depend on whether the loop goes on, it ends if and
only if it stops somewhere on the way. -/
theorem ends_iff_iterate {next : S → S} {stop : S → Prop}
    (goes : ∀ s, ¬ stop s → step s = .inr (next s)) (stops : ∀ s, stop s → ∃ r, step s = .inl r)
    (s : S) : Ends step s ↔ ∃ k, stop (next^[k] s) := by
  constructor
  · rintro ⟨fuel, r, run⟩
    induction fuel generalizing s with
    | zero => cases run
    | succ fuel ih =>
      by_cases h : stop s
      · exact ⟨0, h⟩
      · rw [run_inr (goes s h)] at run
        obtain ⟨k, hk⟩ := ih (next s) run
        exact ⟨k + 1, hk⟩
  · rintro ⟨k, hk⟩
    induction k generalizing s with
    | zero =>
      obtain ⟨r, exit⟩ := stops s hk
      exact .of_inl exit
    | succ k ih =>
      by_cases h : stop s
      · obtain ⟨r, exit⟩ := stops s h
        exact .of_inl exit
      · exact (ends_inr (goes s h)).mpr (ih (next s) hk)

/-- What every turn keeps holds of the state in which the loop is left. -/
theorem run_invariant (Inv : S → Prop) (kept : ∀ s t, Inv s → step s = .inr t → Inv t)
    (inv : Inv s) (h : run step fuel s = some r) : ∃ t, Inv t ∧ step t = .inl r := by
  induction fuel generalizing s with
  | zero => cases h
  | succ fuel ih =>
    cases next : step s with
    | inl r' =>
      rw [run_inl next] at h
      cases h
      exact ⟨s, inv, next⟩
    | inr t =>
      rw [run_inr next] at h
      exact ih (kept s t inv next) h

end Loop
