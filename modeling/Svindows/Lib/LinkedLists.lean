import Svindows.Lib.LinkedRing

/-!
# Lists that share their nodes' pointers

Several rings live on the pointers of one set of nodes. A node is the head of a list, an
element of one list, or free. An operation on one list leaves the others as they are.
-/

namespace LinkedRing

universe u

variable {α : Type u} {m : Links α} {heads heads' : α → Prop} {members members' : α → List α}
  {h e : α}

/-- The rings at the heads, no two of which share a node. -/
structure Threaded (m : Links α) (heads : α → Prop) (members : α → List α) : Prop where
  ring : ∀ h, heads h → IsRing m h (members h)
  apart : ∀ h k, heads h → heads k → h ≠ k → (h :: members h).Disjoint (k :: members k)

/-- The node is on no ring but its own. -/
def Free (heads : α → Prop) (members : α → List α) (e : α) : Prop :=
  ∀ h, heads h → h ≠ e → e ∉ members h

theorem Threaded.mono (threaded : Threaded m heads members) (fewer : ∀ h, heads' h → heads h)
    (same : ∀ h, heads' h → members' h = members h) : Threaded m heads' members' where
  ring h head := by
    rw [same h head]
    exact threaded.ring h (fewer h head)
  apart h k head other apart := by
    rw [same h head, same k other]
    exact threaded.apart h k (fewer h head) (fewer k other) apart

theorem Threaded.congr {m' : Links α} (threaded : Threaded m heads members)
    (same : ∀ h, heads h → Same m m' (h :: members h)) : Threaded m' heads members :=
  ⟨fun h head => (threaded.ring h head).congr (same h head), threaded.apart⟩

section Operations

variable [DecidableEq α]

/-- A free node becomes a list of its own. -/
theorem Threaded.isolate (threaded : Threaded m heads members) (free : Free heads members e) :
    Threaded (isolate m e) (fun h => h = e ∨ heads h) (Function.update members e []) := by
  have off : ∀ h, heads h → h ≠ e → e ∉ h :: members h := by
    intro h head apart node
    rcases List.mem_cons.mp node with rfl | node
    · exact apart rfl
    · exact free h head apart node
  refine ⟨fun h head => ?_, fun h k head other apart => ?_⟩
  · by_cases same : h = e
    · rw [same, Function.update_self]
      exact isolate_ring m e
    · have old := head.resolve_left same
      rw [Function.update_of_ne same]
      exact (threaded.ring h old).congr (same_isolate (off h old same))
  · by_cases first : h = e
    · have second : k ≠ e := fun same => apart (first.trans same.symm)
      rw [first, Function.update_self, Function.update_of_ne second, List.singleton_disjoint]
      exact off k (other.resolve_left second) second
    · rw [Function.update_of_ne first]
      by_cases second : k = e
      · rw [second, Function.update_self, List.disjoint_singleton]
        exact off h (head.resolve_left first) first
      · rw [Function.update_of_ne second]
        exact threaded.apart h k (head.resolve_left first) (other.resolve_left second) apart

theorem Threaded.insertTail (threaded : Threaded m heads members) (head : heads h)
    (free : Free heads members e) (other : e ≠ h) :
    Threaded (insertTail m h e) (fun k => k ≠ e ∧ heads k)
      (Function.update members h (members h ++ [e])) := by
  have off : ∀ k, heads k → k ≠ e → e ∉ k :: members k := by
    intro k head apart node
    rcases List.mem_cons.mp node with rfl | node
    · exact apart rfl
    · exact free k head apart node
  refine ⟨fun k place => ?_, fun k l place place' apart => ?_⟩
  · by_cases same : k = h
    · rw [same, Function.update_self]
      exact (threaded.ring h head).insertTail (off h head other.symm)
    · rw [Function.update_of_ne same]
      have disjoint := threaded.apart h k head place.2 (Ne.symm same)
      exact (threaded.ring k place.2).congr (same_insertTail (disjoint List.mem_cons_self)
        (off k place.2 place.1) (disjoint (threaded.ring h head).prev_mem))
  · have grown : ∀ k, heads k → k ≠ e → k ≠ h →
        (h :: (members h ++ [e])).Disjoint (k :: members k) := by
      intro k place apart same
      rw [← List.cons_append, List.disjoint_append_left, List.singleton_disjoint]
      exact ⟨threaded.apart h k head place same.symm, off k place apart⟩
    by_cases first : k = h
    · have second : l ≠ h := fun same => apart (first.trans same.symm)
      rw [first, Function.update_self, Function.update_of_ne second]
      exact grown l place'.2 place'.1 second
    · rw [Function.update_of_ne first]
      by_cases second : l = h
      · rw [second, Function.update_self]
        exact List.disjoint_symm (grown k place.2 place.1 first)
      · rw [Function.update_of_ne second]
        exact threaded.apart k l place.2 place'.2 apart

/-- An element leaves its list. -/
theorem Threaded.remove (threaded : Threaded m heads members) (head : heads h)
    (member : e ∈ members h) :
    Threaded (remove m e) heads
      (Function.update members h ((members h).filter fun a => a ≠ e)) := by
  refine ⟨fun k place => ?_, fun k l place place' apart => ?_⟩
  · by_cases same : k = h
    · rw [same, Function.update_self]
      have ring := threaded.ring h head
      obtain ⟨pre, post, split⟩ := List.append_of_mem member
      rw [split] at ring ⊢
      obtain ⟨-, -, apart⟩ := List.nodup_append'.mp (List.nodup_cons.mp ring.nodup).2
      have after := (List.nodup_append'.mp (List.nodup_cons.mp ring.nodup).2).2.1
      have left : pre.filter (fun a => a ≠ e) = pre := by
        refine List.filter_eq_self.mpr fun a inside => ?_
        have different : a ≠ e := fun same => apart inside (same ▸ List.mem_cons_self)
        simpa using different
      have right : (e :: post).filter (fun a => a ≠ e) = post := by
        rw [List.filter_cons_of_neg (by simp), List.filter_eq_self]
        intro a inside
        have different : a ≠ e := fun same => (List.nodup_cons.mp after).1 (same ▸ inside)
        simpa using different
      rw [List.filter_append, left, right]
      exact ring.remove
    · rw [Function.update_of_ne same]
      have disjoint := threaded.apart h k head place (Ne.symm same)
      obtain ⟨back, forth⟩ := (threaded.ring h head).neighbours (List.mem_cons_of_mem h member)
      exact (threaded.ring k place).congr (same_remove (disjoint back) (disjoint forth))
  · have shrunk : ∀ k, heads k → k ≠ h →
        (h :: (members h).filter fun a => a ≠ e).Disjoint (k :: members k) := by
      intro k place same
      refine List.disjoint_of_subset_left ?_ (threaded.apart h k head place same.symm)
      exact List.cons_subset_cons _ (List.filter_subset_self _)
    by_cases first : k = h
    · have second : l ≠ h := fun same => apart (first.trans same.symm)
      rw [first, Function.update_self, Function.update_of_ne second]
      exact shrunk l place' second
    · rw [Function.update_of_ne first]
      by_cases second : l = h
      · rw [second, Function.update_self]
        exact List.disjoint_symm (shrunk k place first)
      · rw [Function.update_of_ne second]
        exact threaded.apart k l place place' apart

/-- What has left its list is free. -/
theorem Threaded.free_remove (threaded : Threaded m heads members) (head : heads h)
    (member : e ∈ members h) :
    Free heads (Function.update members h ((members h).filter fun a => a ≠ e)) e := by
  intro k place apart
  by_cases same : k = h
  · rw [same, Function.update_self]
    simp
  · rw [Function.update_of_ne same]
    intro inside
    exact threaded.apart h k head place (Ne.symm same) (List.mem_cons_of_mem h member)
      (List.mem_cons_of_mem k inside)

end Operations

end LinkedRing
