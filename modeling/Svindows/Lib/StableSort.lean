import Mathlib.Data.List.Induction
import Mathlib.Data.List.Sort

/-!
# Stable sorting by insertion from the right

A list is sorted by taking its elements in order and moving each to the left past the
elements that come after it. Seen in the mirror this is `List.insertionSort` of the reversed
list. The order only has to be a total preorder on the elements of the list.
-/

namespace StableSort

variable {α : Type*} (le : α → α → Prop)

/-- Any two elements of the list are comparable, and the comparison is transitive on them. -/
structure TotalPreorderOn (xs : List α) : Prop where
  total : ∀ x ∈ xs, ∀ y ∈ xs, le x y ∨ le y x
  trans : ∀ x ∈ xs, ∀ y ∈ xs, ∀ z ∈ xs, le x y → le y z → le x z

variable [DecidableRel le]

/-- The elements neither before nor after `x`. -/
def ties (x : α) (ys : List α) : List α := ys.filter fun y => le x y ∧ le y x

/-- `ys` is `xs` in order, with the elements of one place in the order they had. -/
structure Sorts (xs ys : List α) : Prop where
  perm : ys.Perm xs
  ordered : ys.Pairwise le
  stable : ∀ x ∈ xs, ties le x ys = ties le x xs

/-- Move `key` to the left past the elements that come after it. -/
def insertBack (ys : List α) (key : α) : List α :=
  (ys.reverse.orderedInsert (fun a b => le b a) key).reverse

def insertions (xs : List α) : List α := xs.foldl (insertBack le) []

theorem insertBack_move {ys : List α} {y key : α} (after : ¬ le y key) :
    insertBack le (ys ++ [y]) key = insertBack le ys key ++ [y] := by
  simp only [insertBack, List.reverse_append, List.reverse_singleton, List.singleton_append]
  rw [List.orderedInsert_of_not_le (r := fun a b => le b a) _ after, List.reverse_cons]

theorem insertBack_stay {ys : List α} {y key : α} (before : le y key) :
    insertBack le (ys ++ [y]) key = ys ++ [y] ++ [key] := by
  simp only [insertBack, List.reverse_append, List.reverse_singleton, List.singleton_append]
  rw [List.orderedInsert_cons_of_le (r := fun a b => le b a) _ before]
  simp

theorem insertions_concat (xs : List α) (key : α) :
    insertions le (xs ++ [key]) = insertBack le (insertions le xs) key :=
  List.foldl_concat ..

theorem insertions_eq (xs : List α) :
    insertions le xs = (xs.reverse.insertionSort fun a b => le b a).reverse := by
  induction xs using List.reverseRecOn with
  | nil => rfl
  | append_singleton xs key ih =>
    rw [insertions_concat, ih, insertBack, List.reverse_reverse, List.reverse_concat,
      List.insertionSort_cons]

theorem insertions_perm (xs : List α) : (insertions le xs).Perm xs := by
  rw [insertions_eq]
  exact (List.reverse_perm _).trans ((List.perm_insertionSort _ _).trans (List.reverse_perm _))

variable {le}

/-- Restricted to the elements of the list, the order is one of Mathlib's. -/
theorem TotalPreorderOn.ordered {xs : List α} (preorder : TotalPreorderOn le xs) :
    (insertions le xs).Pairwise le := by
  let r : { x // x ∈ xs.reverse } → { x // x ∈ xs.reverse } → Prop := fun a b => le b a
  have member (a : { x // x ∈ xs.reverse }) : a.1 ∈ xs := List.mem_reverse.mp a.2
  have total : Std.Total r := ⟨fun a b => preorder.total b (member b) a (member a)⟩
  have trans : IsTrans _ r := ⟨fun a b c ab bc =>
    preorder.trans c (member c) b (member b) a (member a) bc ab⟩
  have sorted := List.pairwise_insertionSort r xs.reverse.attach
  have image := List.map_insertionSort r (fun a b => le b a) Subtype.val xs.reverse.attach
    fun _ _ _ _ => Iff.rfl
  rw [insertions_eq, List.pairwise_reverse, ← List.attach_map_subtype_val xs.reverse, ← image]
  exact List.pairwise_map.mpr sorted

/-- The elements of one place stay a sublist, and there are no others. -/
theorem TotalPreorderOn.stable {xs : List α} (preorder : TotalPreorderOn le xs) {x : α}
    (member : x ∈ xs) : ties le x (insertions le xs) = ties le x xs := by
  have tied : (ties le x xs.reverse).Pairwise fun a b => le b a := by
    refine List.pairwise_of_forall_mem_list fun a amem b bmem => ?_
    simp only [ties, List.mem_filter, List.mem_reverse, decide_eq_true_eq] at amem bmem
    exact preorder.trans b bmem.1 x member a amem.1 bmem.2.2 amem.2.1
  have kept : (ties le x xs.reverse).Sublist (xs.reverse.insertionSort fun a b => le b a) :=
    List.sublist_insertionSort tied List.filter_sublist
  have mirrored : (ties le x xs).Sublist (insertions le xs) := by
    have reversed := kept.reverse
    rwa [← insertions_eq, ties, List.filter_reverse, List.reverse_reverse] at reversed
  have inside : (ties le x xs).Sublist (ties le x (insertions le xs)) := by
    have filtered := mirrored.filter fun y => le x y ∧ le y x
    rwa [ties, List.filter_filter, funext fun y => Bool.and_self _] at filtered
  exact (inside.eq_of_length ((insertions_perm le xs).filter _).length_eq.symm).symm

theorem insertions_sorts {xs : List α} (preorder : TotalPreorderOn le xs) :
    Sorts le xs (insertions le xs) :=
  ⟨insertions_perm le xs, preorder.ordered, fun _ => preorder.stable⟩

end StableSort
