import Mathlib.Data.List.Forall2

/-!
# Glob patterns

A pattern is a list of tokens, each of which takes a part of the text: any part, or a single
entry of a kind. A text matches if it is the parts of the tokens in order.
-/

namespace Glob

variable {α : Type*}

inductive Token (α : Type*) where
  | many
  | one (accepts : α → Prop)

def Token.Takes : Token α → List α → Prop
  | many, _ => True
  | one accepts, part => ∃ c, part = [c] ∧ accepts c

/-- The text can be split into parts that the tokens take. -/
def Matches (tokens : List (Token α)) (text : List α) : Prop :=
  ∃ parts, List.Forall₂ Token.Takes tokens parts ∧ parts.flatten = text

variable {tokens : List (Token α)} {text : List α}

@[simp] theorem matches_nil : Matches [] text ↔ text = [] := by
  constructor
  · rintro ⟨parts, split, rfl⟩
    rw [List.forall₂_nil_left_iff.mp split, List.flatten_nil]
  · rintro rfl
    exact ⟨[], .nil, rfl⟩

theorem matches_one {accepts : α → Prop} : Matches (.one accepts :: tokens) text ↔
    ∃ c rest, text = c :: rest ∧ accepts c ∧ Matches tokens rest := by
  constructor
  · rintro ⟨parts, split, rfl⟩
    obtain ⟨part, parts, ⟨c, rfl, accepted⟩, rest, rfl⟩ := List.forall₂_cons_left_iff.mp split
    exact ⟨c, parts.flatten, rfl, accepted, parts, rest, rfl⟩
  · rintro ⟨c, rest, rfl, accepted, parts, split, rfl⟩
    exact ⟨[c] :: parts, .cons ⟨c, rfl, accepted⟩ split, rfl⟩

/-- A token for any part leaves some end of the text to the others. -/
theorem matches_many : Matches (.many :: tokens) text ↔ ∃ rest, rest <:+ text ∧ Matches tokens rest := by
  constructor
  · rintro ⟨parts, split, rfl⟩
    obtain ⟨part, parts, -, rest, rfl⟩ := List.forall₂_cons_left_iff.mp split
    exact ⟨parts.flatten, List.suffix_append .., parts, rest, rfl⟩
  · rintro ⟨_, ⟨part, rfl⟩, parts, split, rfl⟩
    exact ⟨part :: parts, .cons trivial split, rfl⟩

@[simp] theorem matches_many_last : Matches [.many] text :=
  matches_many.mpr ⟨[], List.nil_suffix, matches_nil.mpr rfl⟩

end Glob
