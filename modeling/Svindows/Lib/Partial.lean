import Mathlib.Order.Defs.Unbundled

/-!
# Computations over a state that may not return

A computation takes a state to a result and a new state, or does not return. Two
things are carried through a program by its shape: a relation between the states
before and after, and that a program returns whatever one that calls less patient
procedures returns.
-/

namespace Partial

universe u

abbrev Comp (S A : Type u) := StateT S Option A

variable {S A B : Type u}

theorem bind_eq_some {x : Comp S A} {f : A → Comp S B} {s t : S} {b : B} :
    (x >>= f) s = some (b, t) ↔ ∃ a u, x s = some (a, u) ∧ f a u = some (b, t) := by
  change (x s).bind (fun p => f p.1 p.2) = some (b, t) ↔ _
  rw [Option.bind_eq_some_iff]
  constructor
  · rintro ⟨⟨a, u⟩, first, second⟩
    exact ⟨a, u, first, second⟩
  · rintro ⟨a, u, first, second⟩
    exact ⟨(a, u), first, second⟩

theorem bind_of_some {x : Comp S A} {f : A → Comp S B} {s t : S} {a : A} (h : x s = some (a, t)) :
    (x >>= f) s = f a t := by
  change (x s).bind (fun p => f p.1 p.2) = f a t
  rw [h, Option.bind_some]

theorem bind_none {x : Comp S A} {f : A → Comp S B} {s : S} (h : x s = none) :
    (x >>= f) s = none := by
  change (x s).bind (fun p => f p.1 p.2) = none
  rw [h, Option.bind_none]

/-- What a pure function gives, if it gives something. -/
def lift (x : Option A) : Comp S A := fun s => x.map (·, s)

/-- A loop, left when its body gives a result; it does not return out of fuel. -/
def loop (body : A → Comp S (B ⊕ A)) : Nat → A → Comp S B
  | 0, _ => failure
  | fuel + 1, a => do
    match ← body a with
    | .inl b => pure b
    | .inr a => loop body fuel a

def Keeps (R : S → S → Prop) (x : Comp S A) : Prop := ∀ s a t, x s = some (a, t) → R s t

namespace Keeps

variable {R : S → S → Prop}

theorem failure : Keeps R (failure : Comp S A) := by
  intro s a t h
  cases h

theorem bind [IsTrans S R] {x : Comp S A} {f : A → Comp S B} (first : Keeps R x)
    (second : ∀ a, Keeps R (f a)) : Keeps R (x >>= f) := by
  intro s b t h
  obtain ⟨a, u, hx, hf⟩ := bind_eq_some.mp h
  exact IsTrans.trans s u t (first s a u hx) (second a u b t hf)

/-- The second part may rely on what is known of the first one's result. -/
theorem bind_of [IsTrans S R] {x : Comp S A} {f : A → Comp S B} {P : A → Prop} (first : Keeps R x)
    (result : ∀ s a t, x s = some (a, t) → P a) (second : ∀ a, P a → Keeps R (f a)) :
    Keeps R (x >>= f) := by
  intro s b t h
  obtain ⟨a, u, hx, hf⟩ := bind_eq_some.mp h
  exact IsTrans.trans s u t (first s a u hx) (second a (result s a u hx) u b t hf)

theorem ite {c : Prop} [Decidable c] {x y : Comp S A} (yes : Keeps R x) (no : Keeps R y) :
    Keeps R (if c then x else y) := by
  split
  · exact yes
  · exact no

theorem pure [Std.Refl R] (a : A) : Keeps R (pure a : Comp S A) := by
  intro s b t h
  cases h
  exact Std.Refl.refl s

theorem get [Std.Refl R] : Keeps R (get : Comp S S) := by
  intro s a t h
  cases h
  exact Std.Refl.refl s

theorem lift [Std.Refl R] (x : Option A) : Keeps R (lift x : Comp S A) := by
  intro s a t h
  cases x with
  | none => cases h
  | some a =>
    cases h
    exact Std.Refl.refl s

theorem modify {S : Type} {R : S → S → Prop} {f : S → S} (h : ∀ s, R s (f s)) :
    Keeps R (modify f : Comp S PUnit) := by
  intro s a t run
  cases run
  exact h s

theorem loop [Std.Refl R] [IsTrans S R] {body : A → Comp S (B ⊕ A)} (h : ∀ a, Keeps R (body a))
    (fuel : Nat) (a : A) : Keeps R (loop body fuel a) := by
  induction fuel generalizing a with
  | zero => exact .failure
  | succ fuel ih =>
    refine (h a).bind fun r => ?_
    cases r with
    | inl b => exact .pure b
    | inr a => exact ih a

end Keeps

/-- The second returns what the first returns, where that returns. -/
def Below (x y : Comp S A) : Prop := ∀ s r, x s = some r → y s = some r

namespace Below

theorem refl (x : Comp S A) : Below x x := fun _ _ h => h

theorem trans {x y z : Comp S A} (first : Below x y) (second : Below y z) : Below x z :=
  fun s r h => second s r (first s r h)

theorem failure (x : Comp S A) : Below failure x := by
  intro s r h
  cases h

theorem bind {x y : Comp S A} {f g : A → Comp S B} (first : Below x y)
    (second : ∀ a, Below (f a) (g a)) : Below (x >>= f) (y >>= g) := by
  rintro s ⟨b, t⟩ h
  obtain ⟨a, u, hx, hf⟩ := bind_eq_some.mp h
  exact bind_eq_some.mpr ⟨a, u, first s _ hx, second a u _ hf⟩

theorem ite {c : Prop} [Decidable c] {x y x' y' : Comp S A} (yes : Below x x')
    (no : Below y y') : Below (if c then x else y) (if c then x' else y') := by
  split
  · exact yes
  · exact no

theorem loop {body body' : A → Comp S (B ⊕ A)} (h : ∀ a, Below (body a) (body' a))
    {fuel fuel' : Nat} (le : fuel ≤ fuel') (a : A) :
    Below (loop body fuel a) (loop body' fuel' a) := by
  induction fuel generalizing fuel' a with
  | zero => exact .failure _
  | succ fuel ih =>
    cases fuel' with
    | zero => cases le
    | succ fuel' =>
      refine (h a).bind fun r => ?_
      cases r with
      | inl b => exact .refl _
      | inr a => exact ih (Nat.le_of_succ_le_succ le) a

end Below

end Partial
