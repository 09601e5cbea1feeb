import Svindows.Lib.Glob
import Svindows.User.Classes

/-!
# Wildcards of kernel32

`wildcard_match` of `kernel32.c`, by which `FindFirstFile` and `GetFileAttributes` look for a
name in the root directory. The pattern is wide and the name is bytes, each the list of its
characters before the NUL.
-/

namespace Kernel32

open User (WideString lowerUnit)
open Glob

def foldChar (c : Nat) : Nat := if 0x61 ≤ c ∧ c ≤ 0x7A then c - 0x20 else c

/-- The loop behind a star, with the match of the rest of the pattern. -/
def starLoop (rest : List UInt8 → Bool) : List UInt8 → Bool
  | [] => rest []
  | c :: cs => if rest (c :: cs) then true else starLoop rest cs

def wildcardMatch : WideString → List UInt8 → Bool
  | [], name => name.isEmpty
  | p :: pattern, name =>
    if p = 0x2A then
      if pattern.isEmpty then true else starLoop (wildcardMatch pattern) name
    else
      match name with
      | [] => false
      | c :: cs =>
        if p ≠ 0x3F ∧ foldChar p ≠ foldChar c.toNat then false else wildcardMatch pattern cs

/-- A star takes any part, a question mark one character, and a character itself, ignoring
the case of ASCII letters. -/
def token (p : Nat) : Token UInt8 :=
  if p = 0x2A then .many
  else if p = 0x3F then .one fun _ => True
  else .one fun c => lowerUnit p = lowerUnit c.toNat

theorem foldChar_eq_iff {a b : Nat} : foldChar a = foldChar b ↔ lowerUnit a = lowerUnit b := by
  simp only [foldChar, lowerUnit]
  split_ifs <;> omega

theorem starLoop_iff {rest : List UInt8 → Bool} {name : List UInt8} :
    starLoop rest name = true ↔ ∃ tail, tail <:+ name ∧ rest tail = true := by
  induction name with
  | nil => simp [starLoop]
  | cons c cs ih =>
    simp only [starLoop, List.suffix_cons_iff]
    split_ifs with here
    · exact iff_of_true rfl ⟨_, .inl rfl, here⟩
    · rw [ih]
      constructor
      · rintro ⟨tail, later, found⟩
        exact ⟨tail, .inr later, found⟩
      · rintro ⟨tail, rfl | later, found⟩
        · exact absurd found here
        · exact ⟨tail, later, found⟩

/-- `wildcard_match` is the match of the pattern's tokens. -/
theorem wildcardMatch_iff (pattern : WideString) (name : List UInt8) :
    wildcardMatch pattern name = true ↔ Matches (pattern.map token) name := by
  induction pattern generalizing name with
  | nil => simp [wildcardMatch]
  | cons p pattern ih =>
    rw [List.map_cons, wildcardMatch.eq_def]
    dsimp only
    by_cases star : p = 0x2A
    · rw [if_pos star, token, if_pos star]
      by_cases last : pattern = []
      · simp [last]
      · rw [if_neg (by simpa using last), starLoop_iff, matches_many]
        simp only [ih]
    · have single : token p = .one fun c => p = 0x3F ∨ lowerUnit p = lowerUnit c.toNat := by
        rw [token, if_neg star]
        split_ifs with any <;> simp [any]
      rw [if_neg star, single, matches_one]
      cases name with
      | nil => simp
      | cons c cs =>
        have refused : (p ≠ 0x3F ∧ foldChar p ≠ foldChar c.toNat) ↔
            ¬ (p = 0x3F ∨ lowerUnit p = lowerUnit c.toNat) := by
          rw [not_or, ← foldChar_eq_iff]
        simp only [List.cons.injEq]
        by_cases accepted : p = 0x3F ∨ lowerUnit p = lowerUnit c.toNat
        · rw [if_neg (fun other => refused.mp other accepted), ih]
          constructor
          · exact fun matched => ⟨c, cs, ⟨rfl, rfl⟩, accepted, matched⟩
          · rintro ⟨c', rest, ⟨rfl, rfl⟩, -, matched⟩
            exact matched
        · rw [if_pos (refused.mpr accepted)]
          refine iff_of_false Bool.false_ne_true ?_
          rintro ⟨c', rest, ⟨rfl, -⟩, same, -⟩
          exact accepted same

end Kernel32
