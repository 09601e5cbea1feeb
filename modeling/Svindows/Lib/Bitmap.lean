import Mathlib.Data.Finset.Card
import Mathlib.Order.Interval.Finset.Nat

/-!
# Packed bitmaps

Bit `i` is bit `i % 8` of byte `i / 8`. Setting or clearing one bit changes no
other, so the set of clear bits below a bound loses or gains one element.
-/

namespace Bitmap

abbrev Bytes := Nat → BitVec 8

def bit (m : Bytes) (i : Nat) : Bool := (m (i / 8)).getLsbD (i % 8)

def setBit (m : Bytes) (i : Nat) : Bytes := fun k =>
  if k = i / 8 then m k ||| 1#8 <<< (i % 8) else m k

def clearBit (m : Bytes) (i : Nat) : Bytes := fun k =>
  if k = i / 8 then m k &&& ~~~(1#8 <<< (i % 8)) else m k

theorem getLsbD_one_shift {a b : Nat} (small : b < 8) :
    (1#8 <<< a).getLsbD b = decide (b = a) := by
  rw [BitVec.getLsbD_shiftLeft, BitVec.getLsbD_one]
  by_cases same : b = a
  · simp [same] at small ⊢
    exact small
  · by_cases before : b < a
    · simp [before, same]
    · have gap : b - a ≠ 0 := by omega
      simp [gap, same]

theorem index_eq {i j : Nat} (byte : i / 8 = j / 8) (here : i % 8 = j % 8) : i = j := by
  omega

theorem bit_setBit (m : Bytes) (i j : Nat) :
    bit (setBit m i) j = if j = i then true else bit m j := by
  have small : j % 8 < 8 := Nat.mod_lt _ (by decide)
  unfold bit setBit
  by_cases byte : j / 8 = i / 8
  · rw [if_pos byte, BitVec.getLsbD_or, getLsbD_one_shift small]
    by_cases here : j % 8 = i % 8
    · rw [if_pos (index_eq byte here)]
      simp [here]
    · have other : j ≠ i := fun same => here (by rw [same])
      rw [if_neg other]
      simp [here]
  · have other : j ≠ i := fun same => byte (by rw [same])
    rw [if_neg byte, if_neg other]

theorem bit_clearBit (m : Bytes) (i j : Nat) :
    bit (clearBit m i) j = if j = i then false else bit m j := by
  have small : j % 8 < 8 := Nat.mod_lt _ (by decide)
  unfold bit clearBit
  by_cases byte : j / 8 = i / 8
  · rw [if_pos byte, BitVec.getLsbD_and, BitVec.getLsbD_not, getLsbD_one_shift small]
    by_cases here : j % 8 = i % 8
    · rw [if_pos (index_eq byte here)]
      simp [here]
    · have other : j ≠ i := fun same => here (by rw [same])
      rw [if_neg other]
      simp [here, small]
  · have other : j ≠ i := fun same => byte (by rw [same])
    rw [if_neg byte, if_neg other]

/-- The clear bits below `n`. -/
def clearBelow (m : Bytes) (n : Nat) : Finset Nat := (Finset.range n).filter (bit m · = false)

theorem mem_clearBelow {m : Bytes} {n i : Nat} : i ∈ clearBelow m n ↔ i < n ∧ bit m i = false := by
  simp [clearBelow]

theorem clearBelow_card_le (m : Bytes) (n : Nat) : (clearBelow m n).card ≤ n := by
  have filtered := Finset.card_filter_le (Finset.range n) (bit m · = false)
  rwa [Finset.card_range] at filtered

theorem clearBelow_setBit (m : Bytes) (n i : Nat) :
    clearBelow (setBit m i) n = (clearBelow m n).erase i := by
  ext j
  rw [Finset.mem_erase, mem_clearBelow, mem_clearBelow, bit_setBit]
  by_cases same : j = i
  · simp [same]
  · simp [same]

theorem clearBelow_clearBit {m : Bytes} {n i : Nat} (below : i < n) :
    clearBelow (clearBit m i) n = insert i (clearBelow m n) := by
  ext j
  rw [Finset.mem_insert, mem_clearBelow, mem_clearBelow, bit_clearBit]
  by_cases same : j = i
  · simp [same, below]
  · simp [same]

end Bitmap
