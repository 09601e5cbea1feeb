import Mathlib.Logic.Function.Basic
import Mathlib.Data.List.Basic

/-!
# Trees of tables in a flat store

A store holds tables by address; an entry of a table may refer to a table one
level down. A path lists the indices taken from the root, the last one first.
When no two paths lead to the same table, writing one slot changes what is
found along that slot's path only.
-/

namespace TableTree

variable {Address Entry : Type}

variable (child : Nat → Entry → Option Address) (root : Address)

/-- The table a path leads to; `child n e` is the table that entry `e` of a
table at depth `n` refers to. -/
def tableAt (mem : Address → Nat → Entry) : List Nat → Option Address
  | [] => some root
  | i :: p => (tableAt mem p).bind fun t => child p.length (mem t i)

/-- The entry at slot `i` of the table a path leads to. -/
def entryAt (mem : Address → Nat → Entry) (p : List Nat) (i : Nat) : Option Entry :=
  (tableAt child root mem p).map fun t => mem t i

/-- No table down to `depth` is reached by two paths. -/
def Unshared (depth : Nat) (mem : Address → Nat → Entry) : Prop :=
  ∀ p q t, p.length ≤ depth → q.length ≤ depth →
    tableAt child root mem p = some t → tableAt child root mem q = some t → p = q

variable {child root}

theorem tableAt_cons {mem : Address → Nat → Entry} {p : List Nat} {t : Address}
    (here : tableAt child root mem p = some t) (i : Nat) :
    tableAt child root mem (i :: p) = child p.length (mem t i) := by
  simp [tableAt, here]

variable {mem : Address → Nat → Entry} {depth : Nat} {p : List Nat} {t : Address}

theorem Unshared.of_same {mem' : Address → Nat → Entry} (unshared : Unshared child root depth mem)
    (same : ∀ q, q.length ≤ depth → tableAt child root mem' q = tableAt child root mem q) :
    Unshared child root depth mem' := by
  intro p q t hp hq here there
  rw [same p hp] at here
  rw [same q hq] at there
  exact unshared p q t hp hq here there

theorem Unshared.of_pruned {mem' : Address → Nat → Entry} (unshared : Unshared child root depth mem)
    (fewer : ∀ q u, q.length ≤ depth → tableAt child root mem' q = some u →
      tableAt child root mem q = some u) : Unshared child root depth mem' := by
  intro p q t hp hq here there
  exact unshared p q t hp hq (fewer p t hp here) (fewer q t hq there)

theorem Unshared.of_grown {mem' : Address → Nat → Entry} (unshared : Unshared child root depth mem)
    {new : List Nat} {f : Address}
    (fresh : ∀ q, q.length ≤ depth → tableAt child root mem q ≠ some f)
    (grown : ∀ q, q.length ≤ depth → tableAt child root mem' q =
      if q = new then some f else tableAt child root mem q) :
    Unshared child root depth mem' := by
  intro p q t hp hq here there
  rw [grown p hp] at here
  rw [grown q hq] at there
  by_cases hpn : p = new
  · by_cases hqn : q = new
    · rw [hpn, hqn]
    · rw [if_pos hpn] at here
      rw [if_neg hqn, ← here] at there
      exact absurd there (fresh q hq)
  · rw [if_neg hpn] at here
    by_cases hqn : q = new
    · rw [if_pos hqn] at there
      exact absurd (here.trans there.symm) (fresh p hp)
    · rw [if_neg hqn] at there
      exact unshared p q t hp hq here there

variable [DecidableEq Address]

/-- The store after writing slot `i` of the table at `t`. -/
def write (mem : Address → Nat → Entry) (t : Address) (i : Nat) (e : Entry) :
    Address → Nat → Entry :=
  Function.update mem t (Function.update (mem t) i e)

theorem write_apply (mem : Address → Nat → Entry) (t u : Address) (i j : Nat) (e : Entry) :
    write mem t i e u j = if u = t ∧ j = i then e else mem u j := by
  by_cases hu : u = t
  · subst hu
    by_cases hj : j = i <;> simp [write, hj]
  · simp [write, hu]

/-- The store after filling the table at `t` with one entry. -/
def fill (mem : Address → Nat → Entry) (t : Address) (e : Entry) : Address → Nat → Entry :=
  Function.update mem t fun _ => e

theorem fill_apply (mem : Address → Nat → Entry) (t u : Address) (j : Nat) (e : Entry) :
    fill mem t e u j = if u = t then e else mem u j := by
  by_cases hu : u = t <;> simp [fill, hu]

/-- Writing an entry that refers to the same table as the old one. -/
theorem tableAt_write_same (unshared : Unshared child root depth mem)
    (here : tableAt child root mem p = some t) (short : p.length ≤ depth) {i : Nat} {e : Entry}
    (same : p.length < depth → child p.length e = child p.length (mem t i)) :
    ∀ q, q.length ≤ depth →
      tableAt child root (write mem t i e) q = tableAt child root mem q := by
  intro q
  induction q with
  | nil => exact fun _ => rfl
  | cons j q ih =>
    intro hq
    have above : q.length ≤ depth := Nat.le_of_succ_le hq
    simp only [tableAt, ih above]
    cases found : tableAt child root mem q with
    | none => rfl
    | some u =>
      simp only [Option.bind_some, write_apply]
      by_cases hit : u = t ∧ j = i
      · obtain ⟨rfl, rfl⟩ := hit
        obtain rfl := unshared q p u above short found here
        rw [if_pos ⟨rfl, rfl⟩, same hq]
      · rw [if_neg hit]

/-- Writing a slot of a table at the last level. -/
theorem tableAt_write_leaf (unshared : Unshared child root depth mem)
    (here : tableAt child root mem p = some t) (last : p.length = depth) (i : Nat) (e : Entry) :
    ∀ q, q.length ≤ depth →
      tableAt child root (write mem t i e) q = tableAt child root mem q :=
  tableAt_write_same unshared here (Nat.le_of_eq last) fun above => absurd last (Nat.ne_of_lt above)

/-- Writing an entry that refers to no table adds no table. -/
theorem tableAt_write_prune (unshared : Unshared child root depth mem)
    (here : tableAt child root mem p = some t) (short : p.length ≤ depth) {i : Nat} {e : Entry}
    (pruned : child p.length e = none) :
    ∀ q u, q.length ≤ depth → tableAt child root (write mem t i e) q = some u →
      tableAt child root mem q = some u := by
  intro q
  induction q with
  | nil => exact fun u _ h => h
  | cons j q ih =>
    intro u hq h
    have above : q.length ≤ depth := Nat.le_of_succ_le hq
    simp only [tableAt, Option.bind_eq_some_iff] at h ⊢
    obtain ⟨v, hv, hu⟩ := h
    have old := ih v above hv
    rw [write_apply] at hu
    by_cases hit : v = t ∧ j = i
    · obtain ⟨rfl, rfl⟩ := hit
      obtain rfl := unshared q p v above short old here
      rw [if_pos ⟨rfl, rfl⟩, pruned] at hu
      exact absurd hu (by simp)
    · rw [if_neg hit] at hu
      exact ⟨v, old, hu⟩

/-- Hanging an empty table under a slot that refers to none adds that table and
nothing else. -/
theorem tableAt_grow (unshared : Unshared child root depth mem)
    (here : tableAt child root mem p = some t) (short : p.length ≤ depth) {i : Nat} {e zero : Entry}
    {f : Address} (fresh : ∀ q, q.length ≤ depth → tableAt child root mem q ≠ some f)
    (vacant : child p.length (mem t i) = none) (hung : child p.length e = some f)
    (empty : ∀ n, child n zero = none) :
    ∀ q, q.length ≤ depth → tableAt child root (write (fill mem f zero) t i e) q =
      if q = i :: p then some f else tableAt child root mem q := by
  have apart : t ≠ f := by
    rintro rfl
    exact fresh p short here
  intro q
  induction q with
  | nil =>
    intro _
    rw [if_neg (List.cons_ne_nil i p).symm]
    rfl
  | cons j q ih =>
    intro hq
    have above : q.length ≤ depth := Nat.le_of_succ_le hq
    rw [tableAt, ih above]
    by_cases hit : q = i :: p
    · -- below the new table there is nothing, and there was nothing before
      have before : tableAt child root mem q = none := by
        rw [hit, tableAt_cons here i]
        exact vacant
      have longer : ¬ (j :: q = i :: p) := by
        intro h
        have := congrArg List.length h
        rw [hit] at this
        simp at this
      rw [if_pos hit, if_neg longer, tableAt, before]
      simp only [Option.bind_some, Option.bind_none, write_apply, fill_apply]
      rw [if_neg fun h => apart h.1.symm, if_pos trivial]
      exact empty _
    · rw [if_neg hit, tableAt]
      cases found : tableAt child root mem q with
      | none =>
        have other : ¬ (j :: q = i :: p) := by
          intro h
          obtain ⟨-, rfl⟩ := List.cons.inj h
          rw [here] at found
          exact absurd found (by simp)
        rw [if_neg other]
        rfl
      | some u =>
        have used : u ≠ f := by
          rintro rfl
          exact fresh q above found
        simp only [Option.bind_some, write_apply, fill_apply]
        rw [if_neg used]
        by_cases slot : u = t ∧ j = i
        · obtain ⟨rfl, rfl⟩ := slot
          obtain rfl := unshared q p u above short found here
          rw [if_pos ⟨rfl, rfl⟩, if_pos rfl]
          exact hung
        · have other : ¬ (j :: q = i :: p) := by
            intro h
            obtain ⟨rfl, rfl⟩ := List.cons.inj h
            rw [here] at found
            exact slot ⟨(Option.some.inj found).symm, rfl⟩
          rw [if_neg slot, if_neg other]

/-- The slot that was written is read in one table only. -/
theorem entryAt_here (unshared : Unshared child root depth mem)
    (here : tableAt child root mem p = some t) (short : p.length ≤ depth) {i : Nat} {e : Entry}
    {q : List Nat} (hq : q.length ≤ depth) (j : Nat) :
    ((tableAt child root mem q).map fun u => write mem t i e u j) =
      if q = p ∧ j = i then some e else entryAt child root mem q j := by
  by_cases slot : q = p ∧ j = i
  · obtain ⟨rfl, rfl⟩ := slot
    rw [if_pos ⟨rfl, rfl⟩, here, Option.map_some, write_apply, if_pos ⟨rfl, rfl⟩]
  · rw [if_neg slot, entryAt]
    refine Option.map_congr fun u there => ?_
    rw [write_apply, if_neg]
    rintro ⟨rfl, rfl⟩
    exact slot ⟨unshared q p u hq short there here, rfl⟩

theorem entryAt_write (unshared : Unshared child root depth mem)
    (here : tableAt child root mem p = some t) (short : p.length ≤ depth) {i : Nat} {e : Entry}
    {q : List Nat} (hq : q.length ≤ depth)
    (same : tableAt child root (write mem t i e) q = tableAt child root mem q) (j : Nat) :
    entryAt child root (write mem t i e) q j =
      if q = p ∧ j = i then some e else entryAt child root mem q j := by
  rw [← entryAt_here unshared here short hq, entryAt, same]

theorem entryAt_grow (unshared : Unshared child root depth mem)
    (here : tableAt child root mem p = some t) (short : p.length ≤ depth) {i : Nat} {e zero : Entry}
    {f : Address} (fresh : ∀ q, q.length ≤ depth → tableAt child root mem q ≠ some f)
    {q : List Nat} (hq : q.length ≤ depth)
    (grown : tableAt child root (write (fill mem f zero) t i e) q =
      if q = i :: p then some f else tableAt child root mem q) (j : Nat) :
    entryAt child root (write (fill mem f zero) t i e) q j =
      if q = i :: p then some zero
      else if q = p ∧ j = i then some e else entryAt child root mem q j := by
  have apart : t ≠ f := by
    rintro rfl
    exact fresh p short here
  simp only [entryAt, grown]
  by_cases new : q = i :: p
  · rw [if_pos new, if_pos new, Option.map_some, write_apply, fill_apply,
      if_neg fun h => apart h.1.symm, if_pos rfl]
  · rw [if_neg new, if_neg new]
    refine (Option.map_congr fun u there => ?_).trans (entryAt_here unshared here short hq j)
    have used : u ≠ f := by
      rintro rfl
      exact fresh q hq there
    rw [write_apply, write_apply, fill_apply, if_neg used]

end TableTree
