import Svindows.Lib.Bisection

/-!
# `bsearch`

The binary search of msvcrt on 64-bit words, over an array in memory. The comparison function
sees the key and an element by their addresses.
-/

namespace Msvcrt

/-- The interval of indices, and the addresses that were compared. -/
structure SearchState where
  low : UInt64
  high : UInt64
  probes : List UInt64

def searchTurn (compare : UInt64 → Int) (base size : UInt64) (s : SearchState) :
    (UInt64 × List UInt64) ⊕ SearchState :=
  if s.low < s.high then
    let mid := s.low + (s.high - s.low) / 2
    let elem := base + mid * size
    let cmp := compare elem
    if cmp = 0 then .inl (elem, elem :: s.probes)
    else if cmp < 0 then .inr ⟨s.low, mid, elem :: s.probes⟩
    else .inr ⟨mid + 1, s.high, elem :: s.probes⟩
  else .inl (0, s.probes)

/-- The pointer returned and the addresses compared; none when the fuel runs out. -/
def bsearch (fuel : Nat) (key base count size : UInt64) (compare : Option (UInt64 → UInt64 → Int)) :
    Option (UInt64 × List UInt64) :=
  match compare with
  | none => some (0, [])
  | some compare =>
    if key = 0 ∨ base = 0 then some (0, [])
    else Loop.run (searchTurn (compare key) base size) fuel ⟨0, count, []⟩

/-- The address of element `i`. -/
def element (base size : UInt64) (i : Nat) : UInt64 := base + UInt64.ofNat i * size

/-- An array in memory ends within the address space. -/
structure IsArray (base count size : UInt64) : Prop where
  nonzero : base ≠ 0
  fits : base.toNat + count.toNat * size.toNat ≤ 2 ^ 64

/-- Every comparison is with an element. -/
def WithinArray (base count size : UInt64) (probes : List UInt64) : Prop :=
  ∀ p ∈ probes, ∃ i < count.toNat, p = element base size i

section Search

variable {base count size : UInt64}

theorem middle_toNat {low high : UInt64} (less : low < high) :
    (low + (high - low) / 2).toNat = low.toNat + (high.toNat - low.toNat) / 2 := by
  have less : low.toNat < high.toNat := UInt64.lt_iff_toNat_lt.mp less
  have bound := high.toNat_lt
  have difference : (high - low).toNat = high.toNat - low.toNat :=
    UInt64.toNat_sub_of_le _ _ (UInt64.le_iff_toNat_le.mpr (Nat.le_of_lt less))
  rw [UInt64.toNat_add, UInt64.toNat_div, difference]
  show (low.toNat + (high.toNat - low.toNat) / 2) % 2 ^ 64 = _
  exact Nat.mod_eq_of_lt (by omega)

/-- The interval of a bisection and the state of the search. -/
structure Follows (base count size : UInt64) (interval : Nat × Nat) (s : SearchState) : Prop where
  low : s.low.toNat = interval.1
  high : s.high.toNat = interval.2
  inside : interval.2 ≤ count.toNat
  within : WithinArray base count size s.probes

/-- The index found and what the search returns. -/
def Returns (base count size : UInt64) (r : Option Nat) (r' : UInt64 × List UInt64) : Prop :=
  r'.1 = (r.map (element base size)).getD 0 ∧ WithinArray base count size r'.2

theorem searchTurn_together (compare : UInt64 → Int) {interval : Nat × Nat} {s : SearchState}
    (follows : Follows base count size interval s) :
    let turn := Bisection.turn fun i => compare (element base size i)
    (∃ r r', turn interval = .inl r ∧ searchTurn compare base size s = .inl r' ∧
      Returns base count size r r') ∨
    ∃ t t', turn interval = .inr t ∧ searchTurn compare base size s = .inr t' ∧
      Follows base count size t t' := by
  obtain ⟨low, high, inside, within⟩ := follows
  by_cases less : s.low < s.high
  · have middle := middle_toNat less
    have order : interval.1 < interval.2 := by
      rw [← low, ← high]
      exact UInt64.lt_iff_toNat_lt.mp less
    generalize computed : s.low + (s.high - s.low) / 2 = mid at middle
    rw [low, high] at middle
    have probed : WithinArray base count size (element base size mid.toNat :: s.probes) :=
      List.forall_mem_cons.mpr ⟨⟨mid.toNat, by omega, rfl⟩, within⟩
    have address : base + mid * size = element base size mid.toNat := by
      rw [element, UInt64.ofNat_toNat]
    have next : (mid + 1).toNat = mid.toNat + 1 := by
      have bound := s.high.toNat_lt
      rw [UInt64.toNat_add]
      exact Nat.mod_eq_of_lt (by show mid.toNat + 1 < 2 ^ 64; omega)
    simp only [Bisection.turn, if_pos order, searchTurn, if_pos less, computed, address, ← middle]
    split_ifs with zero negative
    · exact .inl ⟨_, _, rfl, rfl, rfl, probed⟩
    · exact .inr ⟨_, _, rfl, rfl, low, rfl, by simp only; omega, probed⟩
    · exact .inr ⟨_, _, rfl, rfl, next, high, inside, probed⟩
  · have empty : ¬ interval.1 < interval.2 := by
      rw [← low, ← high]
      exact fun order => less (UInt64.lt_iff_toNat_lt.mpr order)
    exact .inl ⟨none, (0, s.probes), if_neg empty, if_neg less, rfl, within⟩

theorem IsArray.element_ne_zero (array : IsArray base count size) {i : Nat}
    (less : i < count.toNat) : element base size i ≠ 0 := by
  have bound := base.toNat_lt
  have bound' := count.toNat_lt
  have positive : base.toNat ≠ 0 := fun zero => array.nonzero (UInt64.toNat_inj.mp zero)
  have index : (UInt64.ofNat i).toNat = i := UInt64.toNat_ofNat_of_lt' (by show i < 2 ^ 64; omega)
  have inside : base.toNat + i * size.toNat < 2 ^ 64 := by
    rcases Nat.eq_zero_or_pos size.toNat with zero | some_
    · rw [zero, Nat.mul_zero]
      omega
    · have below : i * size.toNat < count.toNat * size.toNat :=
        Nat.mul_lt_mul_of_pos_right less some_
      have := array.fits
      omega
  intro null
  have value : (element base size i).toNat = base.toNat + i * size.toNat := by
    rw [element, UInt64.toNat_add, UInt64.toNat_mul, index, Nat.add_mod_mod]
    exact Nat.mod_eq_of_lt inside
  rw [null] at value
  have : (0 : UInt64).toNat = 0 := rfl
  omega

/-- The search ends within 65 turns. It returns an element that compares equal if there is
one, else NULL, and looks only at elements. -/
theorem bsearch_exact {key : UInt64} (compare : UInt64 → UInt64 → Int) (nonzero : key ≠ 0)
    (array : IsArray base count size)
    (sorted : Bisection.Descending (fun i => compare key (element base size i)) count.toNat) :
    ∃ r probes, bsearch 65 key base count size (some compare) = some (r, probes) ∧
      (r ≠ 0 → ∃ i < count.toNat, r = element base size i ∧ compare key r = 0) ∧
      (r ≠ 0 ↔ ∃ i < count.toNat, compare key (element base size i) = 0) ∧
      WithinArray base count size probes := by
  have bound : count.toNat - 0 < 2 ^ 64 := count.toNat_lt
  obtain ⟨found, run, right⟩ := Bisection.run_spec sorted 64 (Nat.le_refl _) bound
  obtain ⟨⟨r, probes⟩, run', result, within⟩ :=
    Loop.run_of_together (Follows base count size) (Returns base count size)
      (fun _ _ follows => searchTurn_together (compare key) follows)
      (u := ⟨0, count, []⟩) ⟨rfl, rfl, Nat.le_refl _, nofun⟩ run
  have guard : ¬ (key = 0 ∨ base = 0) := not_or.mpr ⟨nonzero, array.nonzero⟩
  refine ⟨r, probes, (if_neg guard).trans run', ?_⟩
  cases found with
  | some i =>
    obtain ⟨-, less, zero⟩ := right
    obtain rfl : r = element base size i := result
    have nonnull := array.element_ne_zero less
    exact ⟨fun _ => ⟨i, less, rfl, zero⟩, iff_of_true nonnull ⟨i, less, zero⟩, within⟩
  | none =>
    obtain rfl : r = 0 := result
    refine ⟨fun wrong => absurd rfl wrong, iff_of_false (fun wrong => wrong rfl) ?_, within⟩
    rintro ⟨i, less, zero⟩
    exact right i (Nat.zero_le i) less zero

end Search

/-- How far the key, an address, lies above the element. -/
def above (key elem : UInt64) : Int := key.toNat - elem.toNat

theorem bsearch_exact_second :
    ∃ r probes, bsearch 65 0x1004 0x1000 3 4 (some above) = some (r, probes) ∧
      (r ≠ 0 → ∃ i < 3, r = element 0x1000 4 i ∧ above 0x1004 r = 0) ∧
      (r ≠ 0 ↔ ∃ i < 3, above 0x1004 (element 0x1000 4 i) = 0) ∧
      WithinArray 0x1000 3 4 probes := by
  have positive : ∀ j < 3, ∀ i ≤ j, 0 < above 0x1004 (element 0x1000 4 j) →
      0 < above 0x1004 (element 0x1000 4 i) := by decide
  have negative : ∀ j < 3, ∀ i ≤ j, above 0x1004 (element 0x1000 4 i) < 0 →
      above 0x1004 (element 0x1000 4 j) < 0 := by decide
  exact bsearch_exact above (by decide) ⟨by decide, by decide⟩
    ⟨fun i j le less => positive j less i le, fun i j le less => negative j less i le⟩

end Msvcrt
