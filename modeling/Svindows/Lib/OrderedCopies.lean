import Mathlib.Data.List.Basic
import Mathlib.Logic.Function.Basic

/-!
# Copies made one after the other

A list of copies from cell to cell, made in order. No two of them write the same cell.
They have the effect of copying all cells at once if and only if no copy changes a cell
that a later one reads.
-/

namespace OrderedCopies

universe u v

variable {Cell : Type u} {Value : Type v} [DecidableEq Cell]

structure Copy (Cell : Type u) where
  dest : Cell
  source : Cell

def copyAll (copies : List (Copy Cell)) (m : Cell → Value) : Cell → Value :=
  copies.foldl (fun m c => Function.update m c.dest (m c.source)) m

/-- No copy changes what a later one reads. -/
def Undisturbed (copies : List (Copy Cell)) (m : Cell → Value) : Prop :=
  copies.Pairwise fun a b => b.source = a.dest → m a.source = m a.dest

variable {copies : List (Copy Cell)} {m : Cell → Value}

theorem copyAll_cons (c : Copy Cell) (copies : List (Copy Cell)) (m : Cell → Value) :
    copyAll (c :: copies) m = copyAll copies (Function.update m c.dest (m c.source)) := rfl

/-- Cells that are not written stay as they are. -/
theorem copyAll_other {cell : Cell} (other : ∀ c ∈ copies, c.dest ≠ cell) :
    copyAll copies m cell = m cell := by
  induction copies generalizing m with
  | nil => rfl
  | cons a copies ih =>
    rw [copyAll_cons, ih fun c mem => other c (List.mem_cons_of_mem a mem),
      Function.update_of_ne (other a List.mem_cons_self).symm]

/-- A copy from a cell that is not written is right, whatever is copied before. -/
theorem copyAll_unwritten (nodup : (copies.map Copy.dest).Nodup) {b : Copy Cell}
    (mem : b ∈ copies) (unwritten : ∀ c ∈ copies, c.dest ≠ b.source) :
    copyAll copies m b.dest = m b.source := by
  induction copies generalizing m with
  | nil => cases mem
  | cons a copies ih =>
    rw [List.map_cons, List.nodup_cons] at nodup
    rw [copyAll_cons]
    rcases List.mem_cons.mp mem with rfl | later
    · rw [copyAll_other, Function.update_self]
      intro c mem same
      exact nodup.1 (same ▸ List.mem_map_of_mem mem)
    · rw [ih nodup.2 later fun c mem => unwritten c (List.mem_cons_of_mem a mem),
        Function.update_of_ne (unwritten a List.mem_cons_self).symm]

theorem copyAll_iff (nodup : (copies.map Copy.dest).Nodup) :
    (∀ c ∈ copies, copyAll copies m c.dest = m c.source) ↔ Undisturbed copies m := by
  induction copies generalizing m with
  | nil => exact ⟨fun _ => List.Pairwise.nil, fun _ c mem => absurd mem List.not_mem_nil⟩
  | cons a copies ih =>
    rw [List.map_cons, List.nodup_cons] at nodup
    have apart (c : Copy Cell) (mem : c ∈ copies) : c.dest ≠ a.dest := fun same =>
      nodup.1 (same ▸ List.mem_map_of_mem mem)
    have first : copyAll (a :: copies) m a.dest = m a.source := by
      rw [copyAll_cons, copyAll_other apart, Function.update_self]
    rw [Undisturbed, List.pairwise_cons, ← Undisturbed]
    -- The first copy counts for the others only if it changes a cell that one of them reads.
    by_cases read : ∃ b ∈ copies, b.source = a.dest
    · obtain ⟨b, later, reads⟩ := read
      have value : copyAll (a :: copies) m b.dest = m a.source := by
        rw [copyAll_cons, copyAll_unwritten nodup.2 later fun c mem => reads ▸ apart c mem, reads,
          Function.update_self]
      constructor
      · intro all
        have same : m a.source = m a.dest := by
          rw [← value, all b (List.mem_cons_of_mem a later), reads]
        refine ⟨fun _ _ _ => same, (ih nodup.2).mp fun c mem => ?_⟩
        rw [← all c (List.mem_cons_of_mem a mem), copyAll_cons, same, Function.update_eq_self]
      · rintro ⟨head, tail⟩ c mem
        rcases List.mem_cons.mp mem with rfl | mem
        · exact first
        · rw [copyAll_cons, head b later reads, Function.update_eq_self]
          exact (ih nodup.2).mpr tail c mem
    · push Not at read
      have reads (c : Copy Cell) (mem : c ∈ copies) :
          Function.update m a.dest (m a.source) c.source = m c.source :=
        Function.update_of_ne (read c mem) _ _
      have writes (c : Copy Cell) (mem : c ∈ copies) :
          Function.update m a.dest (m a.source) c.dest = m c.dest :=
        Function.update_of_ne (apart c mem) _ _
      have tail : Undisturbed copies (Function.update m a.dest (m a.source)) ↔
          Undisturbed copies m := by
        refine List.Pairwise.iff_of_mem fun {c e} left _ => ?_
        rw [reads c left, writes c left]
      rw [← tail, ← ih nodup.2]
      constructor
      · intro all
        refine ⟨fun c mem same => absurd same (read c mem), fun c mem => ?_⟩
        rw [← copyAll_cons, all c (List.mem_cons_of_mem a mem), reads c mem]
      · rintro ⟨-, all⟩ c mem
        rcases List.mem_cons.mp mem with rfl | mem
        · exact first
        · rw [copyAll_cons, all c mem, reads c mem]

/-- In a list in strict order, what holds of each pair in list order holds of each pair in
that order. -/
theorem pairwise_iff_of_strict {α : Type u} {R S : α → α → Prop} {l : List α}
    (asymm : ∀ a b, S a b → ¬ S b a) (strict : l.Pairwise S) :
    l.Pairwise R ↔ ∀ a ∈ l, ∀ b ∈ l, S a b → R a b := by
  induction l with
  | nil => exact ⟨fun _ a mem => absurd mem List.not_mem_nil, fun _ => List.Pairwise.nil⟩
  | cons a l ih =>
    obtain ⟨head, tail⟩ := List.pairwise_cons.mp strict
    rw [List.pairwise_cons, ih tail]
    constructor
    · rintro ⟨first, rest⟩ b memB c memC less
      rcases List.mem_cons.mp memB with rfl | laterB
      · rcases List.mem_cons.mp memC with rfl | laterC
        · exact absurd less (asymm _ _ less)
        · exact first c laterC
      · rcases List.mem_cons.mp memC with rfl | laterC
        · exact absurd (head b laterB) (asymm _ _ less)
        · exact rest b laterB c laterC less
    · intro all
      exact ⟨fun b mem => all a List.mem_cons_self b (List.mem_cons_of_mem a mem) (head b mem),
        fun b memB c memC =>
          all b (List.mem_cons_of_mem a memB) c (List.mem_cons_of_mem a memC)⟩

end OrderedCopies
