import Mathlib.Data.List.Induction
import Mathlib.Data.List.Nodup
import Mathlib.Logic.Function.Basic
import Mathlib.Order.Nat

/-!
# Trees whose siblings have different labels

Nodes are numbered in the order they were added, so a child has a larger number
than its parent. A list of labels leads to at most one node, and from a fixed
start different lists lead to different nodes.

The second part is about lists with a key: the first entry with a given key is
found, updated in place, or appended.
-/

namespace KeyedTree

universe u v

/-- `kids k` are the children of `k` in order; nodes from `next` on do not exist. -/
structure Tree (Label : Type u) where
  kids : Nat → List Nat
  label : Nat → Label
  next : Nat

variable {Label : Type u} [DecidableEq Label] {t t' : Tree Label}

structure WellFormed (t : Tree Label) : Prop where
  later : ∀ k < t.next, ∀ c ∈ t.kids k, k < c ∧ c < t.next
  oneParent : ∀ k < t.next, ∀ j < t.next, ∀ c ∈ t.kids k, c ∈ t.kids j → k = j
  distinct : ∀ k < t.next, ((t.kids k).map t.label).Nodup

/-- The first child of `k` with label `n`. -/
def Tree.child (t : Tree Label) (k : Nat) (n : Label) : Option Nat :=
  (t.kids k).find? fun c => t.label c = n

/-- Follow a list of labels. -/
def Tree.descend (t : Tree Label) : Nat → List Label → Option Nat
  | k, [] => some k
  | k, n :: ns =>
    match t.child k n with
    | none => none
    | some c => t.descend c ns

/-- A new last child of `k`. -/
def Tree.add (t : Tree Label) (k : Nat) (n : Label) : Tree Label where
  kids := Function.update (Function.update t.kids t.next []) k (t.kids k ++ [t.next])
  label := Function.update t.label t.next n
  next := t.next + 1

theorem Tree.child_some {k c : Nat} {n : Label} (found : t.child k n = some c) :
    c ∈ t.kids k ∧ t.label c = n := by
  refine ⟨List.mem_of_find?_eq_some found, ?_⟩
  have named := List.find?_some found
  exact of_decide_eq_true named

theorem WellFormed.child_iff (wf : WellFormed t) {k c : Nat} (hk : k < t.next) {n : Label} :
    t.child k n = some c ↔ c ∈ t.kids k ∧ t.label c = n := by
  constructor
  · exact Tree.child_some
  · rintro ⟨kid, rfl⟩
    have present : (t.child k (t.label c)).isSome := List.find?_isSome.mpr ⟨c, kid, by simp⟩
    obtain ⟨d, found⟩ := Option.isSome_iff_exists.mp present
    obtain ⟨kid', same⟩ := Tree.child_some found
    rw [found, List.inj_on_of_nodup_map (wf.distinct k hk) kid' kid same]

theorem WellFormed.descend_bounds (wf : WellFormed t) {ns : List Label} {k c : Nat}
    (hk : k < t.next) (leads : t.descend k ns = some c) : k ≤ c ∧ c < t.next := by
  induction ns generalizing k with
  | nil =>
    cases leads
    exact ⟨le_rfl, hk⟩
  | cons n ns ih =>
    simp only [Tree.descend] at leads
    split at leads
    · exact absurd leads (by simp)
    · rename_i d found
      obtain ⟨below, known⟩ := wf.later k hk d (Tree.child_some found).1
      obtain ⟨le, lt⟩ := ih known leads
      exact ⟨by omega, lt⟩

theorem Tree.descend_append (ns ms : List Label) (k : Nat) :
    t.descend k (ns ++ ms) = (t.descend k ns).bind fun c => t.descend c ms := by
  induction ns generalizing k with
  | nil => rfl
  | cons n ns ih =>
    simp only [List.cons_append, Tree.descend]
    cases t.child k n with
    | none => rfl
    | some c => exact ih c

/-- The last step of a descent. -/
theorem Tree.descend_snoc {ns : List Label} {n : Label} {k c : Nat} :
    t.descend k (ns ++ [n]) = some c ↔
      ∃ d, t.descend k ns = some d ∧ t.child d n = some c := by
  rw [Tree.descend_append]
  constructor
  · intro leads
    obtain ⟨d, first, last⟩ := Option.bind_eq_some_iff.mp leads
    refine ⟨d, first, ?_⟩
    simp only [Tree.descend] at last
    cases found : t.child d n with
    | none => simp [found] at last
    | some e => simpa [found] using last
  · rintro ⟨d, first, last⟩
    simp [first, Tree.descend, last]

/-- Different lists of labels lead to different nodes. -/
theorem WellFormed.descend_injective (wf : WellFormed t) {k c : Nat} (hk : k < t.next)
    {ns ms : List Label} (left : t.descend k ns = some c) (right : t.descend k ms = some c) :
    ns = ms := by
  induction ns using List.reverseRecOn generalizing ms c with
  | nil =>
    cases left
    cases ms using List.reverseRecOn with
    | nil => rfl
    | append_singleton ms m =>
      obtain ⟨d, first, last⟩ := Tree.descend_snoc.mp right
      obtain ⟨le, known⟩ := wf.descend_bounds hk first
      have := (wf.later d known k (Tree.child_some last).1).1
      omega
  | append_singleton ns n ih =>
    obtain ⟨d, first, last⟩ := Tree.descend_snoc.mp left
    obtain ⟨le, known⟩ := wf.descend_bounds hk first
    have kid := Tree.child_some last
    cases ms using List.reverseRecOn with
    | nil =>
      cases right
      have := (wf.later d known k kid.1).1
      omega
    | append_singleton ms m =>
      obtain ⟨e, first', last'⟩ := Tree.descend_snoc.mp right
      have kid' := Tree.child_some last'
      have same : d = e :=
        wf.oneParent d known e (wf.descend_bounds hk first').2 c kid.1 kid'.1
      subst same
      rw [ih first first', ← kid.2, ← kid'.2]

/-- Every node and every child of `t` is still there in `t'`. -/
structure Grows (t t' : Tree Label) : Prop where
  next : t.next ≤ t'.next
  kids : ∀ k < t.next, t.kids k ⊆ t'.kids k
  label : ∀ k < t.next, t'.label k = t.label k

omit [DecidableEq Label] in
theorem Grows.refl (t : Tree Label) : Grows t t :=
  ⟨le_rfl, fun _ _ => List.Subset.refl _, fun _ _ => rfl⟩

omit [DecidableEq Label] in
theorem Grows.trans {t'' : Tree Label} (first : Grows t t') (second : Grows t' t'') :
    Grows t t'' where
  next := first.next.trans second.next
  kids k hk := List.Subset.trans (first.kids k hk) (second.kids k (hk.trans_le first.next))
  label k hk := (second.label k (hk.trans_le first.next)).trans (first.label k hk)

theorem Grows.child (grows : Grows t t') (wf : WellFormed t) (wf' : WellFormed t') {k c : Nat}
    (hk : k < t.next) {n : Label} (found : t.child k n = some c) : t'.child k n = some c := by
  obtain ⟨kid, named⟩ := Tree.child_some found
  have known := (wf.later k hk c kid).2
  refine (wf'.child_iff (hk.trans_le grows.next)).mpr ⟨grows.kids k hk kid, ?_⟩
  rw [grows.label c known, named]

theorem Grows.descend (grows : Grows t t') (wf : WellFormed t) (wf' : WellFormed t')
    {ns : List Label} {k c : Nat} (hk : k < t.next) (leads : t.descend k ns = some c) :
    t'.descend k ns = some c := by
  induction ns generalizing k with
  | nil => exact leads
  | cons n ns ih =>
    simp only [Tree.descend] at leads ⊢
    split at leads
    · exact absurd leads (by simp)
    · rename_i d found
      rw [grows.child wf wf' hk found]
      exact ih (wf.later k hk d (Tree.child_some found).1).2 leads

section Add

variable {k : Nat} {n : Label}

omit [DecidableEq Label] in
theorem Tree.add_kids (hk : k < t.next) (j : Nat) (hj : j < t.next) :
    (t.add k n).kids j = if j = k then t.kids k ++ [t.next] else t.kids j := by
  by_cases same : j = k
  · subst same
    simp [Tree.add]
  · have older : j ≠ t.next := by omega
    simp [Tree.add, same, older]

omit [DecidableEq Label] in
theorem Tree.add_kids_new (hk : k < t.next) : (t.add k n).kids t.next = [] := by
  have older : t.next ≠ k := by omega
  simp [Tree.add, older]

omit [DecidableEq Label] in
theorem Tree.add_label {j : Nat} (hj : j < t.next) : (t.add k n).label j = t.label j := by
  have older : j ≠ t.next := by omega
  simp [Tree.add, older]

omit [DecidableEq Label] in
theorem Tree.add_label_new : (t.add k n).label t.next = n := by simp [Tree.add]

omit [DecidableEq Label] in
theorem Tree.add_grows (hk : k < t.next) : Grows t (t.add k n) where
  next := by simp [Tree.add]
  kids j hj := by
    rw [Tree.add_kids hk j hj]
    split
    · rename_i same
      subst same
      exact List.subset_append_left _ _
    · exact List.Subset.refl _
  label j hj := Tree.add_label hj

omit [DecidableEq Label] in
/-- The children after an addition: the old ones and the new node. -/
theorem Tree.mem_add_kids (hk : k < t.next) {j c : Nat} (hj : j < t.next + 1) :
    c ∈ (t.add k n).kids j ↔ (j < t.next ∧ c ∈ t.kids j) ∨ (j = k ∧ c = t.next) := by
  rcases Nat.lt_or_eq_of_le (Nat.le_of_lt_succ hj) with old | rfl
  · rw [Tree.add_kids hk j old]
    split
    · rename_i same
      subst same
      simp [old]
    · rename_i other
      simp [old, other]
  · have other : t.next ≠ k := by omega
    simp [Tree.add_kids_new hk, other]

/-- A new node under a label its parent does not use yet. -/
theorem WellFormed.add (wf : WellFormed t) (hk : k < t.next) (fresh : t.child k n = none) :
    WellFormed (t.add k n) where
  later j hj c kid := by
    have bound : (t.add k n).next = t.next + 1 := rfl
    rcases (Tree.mem_add_kids hk hj).mp kid with ⟨old, kid⟩ | ⟨rfl, rfl⟩
    · have := wf.later j old c kid
      omega
    · omega
  oneParent i hi j hj c left right := by
    rcases (Tree.mem_add_kids hk hi).mp left with ⟨oldI, left⟩ | ⟨rfl, rfl⟩
    · have known := (wf.later i oldI c left).2
      rcases (Tree.mem_add_kids hk hj).mp right with ⟨oldJ, right⟩ | ⟨rfl, rfl⟩
      · exact wf.oneParent i oldI j oldJ c left right
      · omega
    · rcases (Tree.mem_add_kids hk hj).mp right with ⟨oldJ, right⟩ | ⟨rfl, -⟩
      · have := (wf.later j oldJ _ right).2
        omega
      · rfl
  distinct j hj := by
    have kept : ∀ i < t.next, (t.kids i).map (t.add k n).label = (t.kids i).map t.label := by
      intro i hi
      refine List.map_congr_left fun c kid => ?_
      exact Tree.add_label (wf.later i hi c kid).2
    rcases Nat.lt_or_eq_of_le (Nat.le_of_lt_succ hj) with old | rfl
    · rw [Tree.add_kids hk j old]
      split
      · rename_i same
        subst same
        rw [List.map_append, kept j old]
        refine List.Nodup.append (wf.distinct j old) (List.nodup_singleton _) ?_
        intro m used new
        obtain ⟨c, kid, named⟩ := List.mem_map.mp used
        have isNew : m = n := by simpa [Tree.add_label_new] using new
        have none := List.find?_eq_none.mp fresh c kid
        simp [named, isNew] at none
      · rw [kept j old]
        exact wf.distinct j old
    · rw [Tree.add_kids_new hk]
      exact List.nodup_nil

theorem WellFormed.add_child (wf : WellFormed t) (hk : k < t.next) (fresh : t.child k n = none) :
    (t.add k n).child k n = some t.next := by
  have old : k < (t.add k n).next := Nat.lt_succ_of_lt hk
  refine ((wf.add hk fresh).child_iff old).mpr ⟨?_, Tree.add_label_new⟩
  exact (Tree.mem_add_kids hk (Nat.lt_succ_of_lt hk)).mpr (.inr ⟨rfl, rfl⟩)

end Add

section Lists

variable {α : Type u} {κ : Type v} {key : α → κ}

/-- `f` on the first element that satisfies `p`. -/
def updateFirst (p : α → Bool) (f : α → α) : List α → List α
  | [] => []
  | a :: as => if p a then f a :: as else a :: updateFirst p f as

theorem map_updateFirst (p : α → Bool) {f : α → α} (kept : ∀ a, key (f a) = key a) (l : List α) :
    (updateFirst p f l).map key = l.map key := by
  induction l with
  | nil => rfl
  | cons a as ih =>
    simp only [updateFirst]
    split
    · simp [kept]
    · simp [ih]

/-- The updated element is found where the old one was. -/
theorem find?_updateFirst_self {p : α → Bool} {f : α → α} (kept : ∀ a, p (f a) = p a) (l : List α) :
    (updateFirst p f l).find? p = (l.find? p).map f := by
  induction l with
  | nil => rfl
  | cons a as ih =>
    simp only [updateFirst]
    by_cases here : p a = true
    · simp [here, kept]
    · simp [here, ih]

/-- Elements that `p` does not select are found as before. -/
theorem find?_updateFirst_other {p q : α → Bool} {f : α → α} (kept : ∀ a, q (f a) = q a)
    (apart : ∀ a, p a = true → q a = false) (l : List α) :
    (updateFirst p f l).find? q = l.find? q := by
  induction l with
  | nil => rfl
  | cons a as ih =>
    simp only [updateFirst]
    by_cases here : p a = true
    · simp [here, kept, apart a here]
    · simp only [here, Bool.false_eq_true, if_false, List.find?_cons]
      cases q a
      · exact ih
      · rfl

end Lists

end KeyedTree
