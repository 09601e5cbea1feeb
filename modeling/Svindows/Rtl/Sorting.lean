import Svindows.Lib.StableSort
import Svindows.Rtl.Heap

/-!
# `qsort`

The sort of ntdll: insertion from the right, in place, byte by byte. The element being
placed waits in an array of 64 bytes, and wider elements are refused. `SIZE_T` has 32 bits,
so the offset of an element is a product of 32 bits.
-/

namespace Rtl

open Nt ByteMemory

/-- The bytes of an element; a comparison function sees no others. -/
def bytesOf (m : Memory) (a n : Nat) : List UInt8 := (List.range n).map fun k => m (a + k)

def writeKey (m : Memory) (a : Nat) (key : List UInt8) : Memory := fun x =>
  if a ≤ x ∧ x < a + key.length then key.getD (x - a) 0 else m x

/-- `b + k * width`. -/
def slot (b width k : Nat) : Nat := b + wrap32 (k * width)

def sizeofKey : Nat := 64

section Loops

variable (compare : List UInt8 → List UInt8 → Int) (b width : Nat)

/-- The inner loop from `j` down, with the `memcpy` of the key behind it. -/
def insertLoop (key : List UInt8) : Nat → Memory → Memory
  | 0, m => writeKey m (slot b width 0) key
  | j + 1, m =>
    if 0 < compare (bytesOf m (slot b width j) width) key then
      insertLoop key j (copyBytes m (slot b width (j + 1)) (slot b width j) width)
    else writeKey m (slot b width (j + 1)) key

/-- The turns of the outer loop that are left, from index `i` on. -/
def qsortLoop : Nat → Nat → Memory → Memory
  | 0, _, m => m
  | turns + 1, i, m =>
    if sizeofKey < width then m
    else
      let key := bytesOf m (slot b width i) width
      qsortLoop turns (i + 1) (insertLoop compare b width key i m)

end Loops

def qsort (m : Memory) (base : Nat) (count width : UInt32)
    (compare : List UInt8 → List UInt8 → Int) : Memory :=
  qsortLoop compare base width.toNat (count.toNat - 1) 1 m

/-- The array as a list of elements. -/
def elements (m : Memory) (base width count : Nat) : List (List UInt8) :=
  (List.range count).map fun k => bytesOf m (base + k * width) width

/-- Not after, by the comparison function. -/
def NotAfter (compare : List UInt8 → List UInt8 → Int) (x y : List UInt8) : Prop :=
  compare x y ≤ 0

instance (compare : List UInt8 → List UInt8 → Int) : DecidableRel (NotAfter compare) :=
  fun x y => inferInstanceAs (Decidable (compare x y ≤ 0))

theorem bytesOf_congr {m m' : Memory} {a n : Nat} (same : ∀ x, a ≤ x → x < a + n → m' x = m x) :
    bytesOf m' a n = bytesOf m a n :=
  List.map_congr_left fun k less => by
    have := List.mem_range.mp less
    exact same (a + k) (by omega) (by omega)

theorem length_bytesOf (m : Memory) (a n : Nat) : (bytesOf m a n).length = n := by
  simp [bytesOf]

theorem bytesOf_copyBytes (m : Memory) (dst src n : Nat) :
    bytesOf (copyBytes m dst src n) dst n = bytesOf m src n :=
  List.map_congr_left fun k less => by
    have := List.mem_range.mp less
    simp only [copyBytes]
    rw [if_pos (by omega), Nat.add_sub_cancel_left]

theorem bytesOf_writeKey (m : Memory) (a : Nat) (key : List UInt8) :
    bytesOf (writeKey m a key) a key.length = key := by
  refine List.ext_getElem (length_bytesOf ..) fun k less less' => ?_
  simp only [bytesOf, List.getElem_map, List.getElem_range, writeKey]
  rw [if_pos (by omega), Nat.add_sub_cancel_left]
  simp [less']

theorem copyBytes_outside {m : Memory} {dst src n x : Nat} (outside : x < dst ∨ dst + n ≤ x) :
    copyBytes m dst src n x = m x := if_neg (by omega)

theorem writeKey_outside {m : Memory} {a x : Nat} {key : List UInt8}
    (outside : x < a ∨ a + key.length ≤ x) : writeKey m a key x = m x := if_neg (by omega)

theorem elements_succ (m : Memory) (b width n : Nat) :
    elements m b width (n + 1) = elements m b width n ++ [bytesOf m (b + n * width) width] := by
  simp only [elements, List.range_succ, List.map_append, List.map_singleton]

theorem elements_congr {m m' : Memory} {b width n : Nat}
    (same : ∀ x, b ≤ x → x < b + n * width → m' x = m x) :
    elements m' b width n = elements m b width n :=
  List.map_congr_left fun k less => bytesOf_congr fun x low high => by
    have inside : (k + 1) * width ≤ n * width :=
      Nat.mul_le_mul_right width (List.mem_range.mp less)
    have : (k + 1) * width = k * width + width := Nat.succ_mul k width
    exact same x (by omega) (by omega)

theorem slot_eq {b width k : Nat} (fits : k * width < 2 ^ 32) : slot b width k = b + k * width := by
  simp only [slot, wrap32, Nat.mod_eq_of_lt fits]

section Insert

variable {compare : List UInt8 → List UInt8 → Int} {b width : Nat} {key : List UInt8}

theorem insertLoop_outside {j x : Nat} (m : Memory) (wide : key.length = width)
    (fits : j * width < 2 ^ 32) (outside : x < b ∨ b + (j + 1) * width ≤ x) :
    insertLoop compare b width key j m x = m x := by
  induction j generalizing m with
  | zero =>
    simp only [insertLoop, slot_eq fits]
    exact writeKey_outside (by omega)
  | succ j ih =>
    have below : (j + 1) * width = j * width + width := Nat.succ_mul j width
    have above : (j + 1 + 1) * width = (j + 1) * width + width := Nat.succ_mul (j + 1) width
    simp only [insertLoop, slot_eq fits]
    split
    · rw [ih _ (by omega) (by omega)]
      exact copyBytes_outside (by omega)
    · exact writeKey_outside (by omega)

/-- The inner loop puts the key into its place among the elements before it. -/
theorem insertLoop_elements {j : Nat} (m : Memory) (wide : key.length = width)
    (fits : j * width < 2 ^ 32) :
    elements (insertLoop compare b width key j m) b width (j + 1) =
      StableSort.insertBack (NotAfter compare) (elements m b width j) key := by
  induction j generalizing m with
  | zero =>
    have placed := bytesOf_writeKey m (b + 0 * width) key
    rw [wide] at placed
    simp only [insertLoop, slot_eq fits]
    rw [elements_succ, placed]
    rfl
  | succ j ih =>
    have below : (j + 1) * width = j * width + width := Nat.succ_mul j width
    have fits' : j * width < 2 ^ 32 := by omega
    rw [elements_succ, elements_succ m]
    simp only [insertLoop, slot_eq fits, slot_eq fits']
    split
    · next after =>
      -- The element that moved is out of reach of the turns that follow.
      have moved : bytesOf (insertLoop compare b width key j
          (copyBytes m (b + (j + 1) * width) (b + j * width) width)) (b + (j + 1) * width) width =
          bytesOf m (b + j * width) width := by
        rw [← bytesOf_copyBytes m (b + (j + 1) * width) (b + j * width) width]
        exact bytesOf_congr fun x low _ => insertLoop_outside _ wide fits' (Or.inr low)
      have kept : elements (copyBytes m (b + (j + 1) * width) (b + j * width) width) b width j =
          elements m b width j :=
        elements_congr fun x _ high => copyBytes_outside (by omega)
      rw [moved, ih _ fits', kept, StableSort.insertBack_move _ (by simpa [NotAfter] using after)]
    · next before =>
      have placed := bytesOf_writeKey m (b + (j + 1) * width) key
      rw [wide] at placed
      have kept : elements (writeKey m (b + (j + 1) * width) key) b width (j + 1) =
          elements m b width (j + 1) :=
        elements_congr fun x _ high => writeKey_outside (by omega)
      rw [placed, kept, elements_succ,
        StableSort.insertBack_stay _ (by simpa [NotAfter] using before)]

end Insert

section Array

variable {compare : List UInt8 → List UInt8 → Int} {b width : Nat}

/-- The first `i` elements have been inserted, and nothing else has changed. -/
structure Inserted (compare : List UInt8 → List UInt8 → Int) (b width : Nat) (m₀ : Memory)
    (i : Nat) (m : Memory) : Prop where
  sorted : elements m b width i =
    StableSort.insertions (NotAfter compare) (elements m₀ b width i)
  rest : ∀ x, x < b ∨ b + i * width ≤ x → m x = m₀ x

theorem Inserted.step {m₀ m : Memory} {i : Nat} (inserted : Inserted compare b width m₀ i m)
    (fits : i * width < 2 ^ 32) :
    Inserted compare b width m₀ (i + 1)
      (insertLoop compare b width (bytesOf m (slot b width i) width) i m) := by
  have wide := length_bytesOf m (slot b width i) width
  have more : (i + 1) * width = i * width + width := Nat.succ_mul i width
  constructor
  · have untouched : bytesOf m (slot b width i) width = bytesOf m₀ (b + i * width) width := by
      rw [slot_eq fits]
      exact bytesOf_congr fun x low _ => inserted.rest x (Or.inr low)
    rw [insertLoop_elements m wide fits, inserted.sorted, untouched, elements_succ m₀,
      StableSort.insertions_concat]
  · intro x outside
    rw [insertLoop_outside m wide fits outside]
    exact inserted.rest x (by omega)

theorem Inserted.run {m₀ m : Memory} {i : Nat} (turns : Nat)
    (inserted : Inserted compare b width m₀ i m) (narrow : width ≤ sizeofKey) (fits : (i + turns - 1) * width < 2 ^ 32) :
    Inserted compare b width m₀ (i + turns) (qsortLoop compare b width turns i m) := by
  induction turns generalizing i m with
  | zero => exact inserted
  | succ turns ih =>
    have here : i * width ≤ (i + (turns + 1) - 1) * width := Nat.mul_le_mul_right width (by omega)
    have index : i + 1 + turns = i + (turns + 1) := by omega
    have next := ih (inserted.step (by omega)) (by rwa [index])
    rw [index] at next
    simpa only [qsortLoop, if_neg (Nat.not_lt.mpr narrow)] using next

variable (compare b width) in
theorem inserted_one (m : Memory) : Inserted compare b width m 1 m :=
  ⟨rfl, fun _ _ => rfl⟩

/-- Elements too wide for the key stay as they are. -/
theorem qsortLoop_wide (turns i : Nat) (m : Memory) (wide : sizeofKey < width) :
    qsortLoop compare b width turns i m = m := by
  cases turns with
  | zero => rfl
  | succ turns => simp only [qsortLoop, if_pos wide]

end Array

/-- The array of `count` elements is sorted in place, stably; elements of more than 64 bytes
are refused and the array stays as it is. -/
theorem qsort_sorts (m : Memory) (base : Nat) (count width : UInt32)
    (compare : List UInt8 → List UInt8 → Int)
    (preorder : StableSort.TotalPreorderOn (NotAfter compare)
      (elements m base width.toNat count.toNat)) :
    (sizeofKey < width.toNat → qsort m base count width compare = m) ∧
    (width.toNat ≤ sizeofKey → (count.toNat - 1) * width.toNat < 2 ^ 32 →
      StableSort.Sorts (NotAfter compare) (elements m base width.toNat count.toNat)
        (elements (qsort m base count width compare) base width.toNat count.toNat) ∧
      ∀ x, x < base ∨ base + count.toNat * width.toNat ≤ x →
        qsort m base count width compare x = m x) := by
  refine ⟨qsortLoop_wide _ _ m, fun narrow fits => ?_⟩
  have inserted : Inserted compare base width.toNat m count.toNat
      (qsort m base count width compare) := by
    rcases Nat.eq_zero_or_pos count.toNat with none | some
    · rw [qsort, none]
      exact ⟨rfl, fun _ _ => rfl⟩
    · have run := (inserted_one compare base width.toNat m).run (count.toNat - 1) narrow
        (by rwa [Nat.add_sub_cancel' some])
      rwa [Nat.add_sub_cancel' some] at run
  rw [inserted.sorted]
  exact ⟨StableSort.insertions_sorts preorder, inserted.rest⟩

/-- Elements by their first byte. -/
def firstByte (x y : List UInt8) : Int := (x.headD 0).toNat - (y.headD 0).toNat

theorem firstByte_preorder (xs : List (List UInt8)) :
    StableSort.TotalPreorderOn (NotAfter firstByte) xs := by
  constructor
  · intro x _ y _
    simp only [NotAfter, firstByte]
    omega
  · intro x _ y _ z _ xy yz
    simp only [NotAfter, firstByte] at *
    omega

/-- A larger byte first. -/
def outOfOrder : Memory := fun x => if x = 0 then 1 else 0

theorem qsort_sorts_pair :
    StableSort.Sorts (NotAfter firstByte) (elements outOfOrder 0 64 2)
      (elements (qsort outOfOrder 0 2 64 firstByte) 0 64 2) :=
  ((qsort_sorts outOfOrder 0 2 64 firstByte (firstByte_preorder _)).2 (by decide) (by decide)).1

/-- One byte more, and the two elements are left as they are. -/
theorem qsort_leaves_wide :
    StableSort.TotalPreorderOn (NotAfter firstByte) (elements outOfOrder 0 65 2) ∧
    ¬ (elements (qsort outOfOrder 0 2 65 firstByte) 0 65 2).Pairwise (NotAfter firstByte) :=
  ⟨firstByte_preorder _, by decide⟩

end Rtl
