import Mathlib.Data.List.Nodup

/-!
# Lists threaded through memory

A list of addresses in which each leads to the next one, up to a null pointer. The
function that follows a pointer may come from headers, from nodes or from bytes.
-/

/-- From `b` the pointers run through the addresses and end with null. -/
def Chain (next : Nat → Nat) : Nat → List Nat → Prop
  | b, [] => b = 0
  | b, a :: as => b = a ∧ a ≠ 0 ∧ Chain next (next a) as

namespace Chain

variable {next next' : Nat → Nat} {b : Nat} {as : List Nat}

theorem congr (same : ∀ a ∈ as, next' a = next a) (chain : Chain next b as) : Chain next' b as := by
  induction as generalizing b with
  | nil => exact chain
  | cons a as ih =>
    obtain ⟨rfl, nz, rest⟩ := chain
    refine ⟨rfl, nz, ih (fun x mem => same x (List.mem_cons_of_mem _ mem)) ?_⟩
    rwa [same b List.mem_cons_self]

/-- A new first element. -/
theorem push {a : Nat} (chain : Chain next b as) (nz : a ≠ 0) (first : next' a = b)
    (same : ∀ x ∈ as, next' x = next x) : Chain next' a (a :: as) :=
  ⟨rfl, nz, by rw [first]; exact chain.congr same⟩

/-- The first element is left out by its successor. -/
theorem tail {a : Nat} (chain : Chain next b (a :: as)) : Chain next (next a) as := chain.2.2

/-- A later element is left out once its predecessor leads to its successor. -/
theorem unlink {pre post : List Nat} {p a : Nat} (chain : Chain next b (pre ++ p :: a :: post))
    (skip : next' p = next a) (same : ∀ x ∈ pre ++ post, next' x = next x) :
    Chain next' b (pre ++ p :: post) := by
  induction pre generalizing b with
  | nil =>
    obtain ⟨rfl, nz, -, -, rest⟩ := chain
    refine ⟨rfl, nz, ?_⟩
    rw [skip]
    exact rest.congr same
  | cons x pre ih =>
    obtain ⟨rfl, nz, rest⟩ := chain
    refine ⟨rfl, nz, ?_⟩
    rw [same b List.mem_cons_self]
    exact ih rest fun y mem => same y (List.mem_cons_of_mem _ mem)

end Chain
