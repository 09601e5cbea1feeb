import Mathlib.Data.List.Count
import Svindows.Mm.Mappings

/-!
# What the frames that were taken are used for

`MmMapPage` takes frames for tables only; the frame of the page itself has been
taken by the caller. A call that maps pages has lost a frame when it is neither
free any more nor one of the tables.
-/

namespace Mm

open TableTree

/-- The frame is a table on some way down from the root. -/
def UsedAsTable (s : VmState) (f : Word) : Prop := ∃ q, q.length ≤ 3 ∧ s.tableAt q = some f

open Classical in
/-- How many of the frames free in `s` are page tables in `u`. -/
noncomputable def tablesTaken (s u : VmState) : Nat :=
  s.frames.countP fun f => decide (UsedAsTable u f)

/-- Every walk ends in the leaf it ended in before, and the frames that are no
longer free are page tables. -/
structure NothingLeaked (s u : VmState) : Prop where
  large : ∀ virt, u.largeAt [pdptIndex virt, pml4Index virt] (pdIndex virt) =
    s.largeAt [pdptIndex virt, pml4Index virt] (pdIndex virt)
  leaf : ∀ virt, u.leafAt (path virt) (ptIndex virt) = s.leafAt (path virt) (ptIndex virt)
  frames : u.frames.length + tablesTaken s u = s.frames.length

/-- The frames still free are those that were, less some from the front, and the
new tables are among the ones taken. -/
structure TakesFrames (s u : VmState) : Prop where
  tree : Tree u
  frames : u.frames <:+ s.frames
  tables : ∀ f, UsedAsTable u f → UsedAsTable s f ∨ f ∈ s.frames

variable {s u : VmState}

theorem TakesFrames.refl (tree : Tree s) : TakesFrames s s :=
  ⟨tree, List.suffix_refl _, fun _ used => Or.inl used⟩

theorem TakesFrames.trans {v : VmState} (first : TakesFrames s u) (second : TakesFrames u v) :
    TakesFrames s v where
  tree := second.tree
  frames := second.frames.trans first.frames
  tables := by
    intro f used
    rcases second.tables f used with used | taken
    · exact first.tables f used
    · exact Or.inr (first.frames.subset taken)

theorem TakesFrames.take (tree : Tree s) {f : Word} {rest : List Word}
    (next : s.frames = f :: rest) : TakesFrames s { s with frames := rest } := by
  refine ⟨tree.take next, ?_, fun _ used => Or.inl used⟩
  rw [next]
  exact List.suffix_cons f rest

theorem nextTable_takes (tree : Tree s) {p : List Nat} {t x : Word} {i : Nat}
    (here : s.tableAt p = some t) (short : p.length ≤ 2)
    (small : p.length = 2 → isLarge (s.mem t i) = false)
    (step : nextTable s t i = some (x, u)) : TakesFrames s u := by
  have short3 : p.length ≤ 3 := Nat.le_succ_of_le short
  refine ⟨(nextTable_extends tree here short small step).1.tree, nextTable_frames step, ?_⟩
  rintro f ⟨q, hq, there⟩
  obtain ⟨absent, rest, next, rfl⟩ | ⟨-, -, rfl⟩ := nextTable_cases step
  · have member : x ∈ s.frames := by
      rw [next]
      exact List.mem_cons_self
    have grown := tableAt_grow tree.unshared here short3 (tree.outside x member)
      (child_absent absent) (child_tableEntry (tree.frame x member) p.length) child_zero q hq
    have found := grown.symm.trans there
    split at found
    · right
      rw [← Option.some.inj found]
      exact member
    · exact Or.inl ⟨q, hq, found⟩
  · have same := tableAt_write_same tree.unshared here short3 (i := i)
      (fun _ => child_or_user p.length (s.mem t i)) q hq
    exact Or.inl ⟨q, hq, same.symm.trans there⟩

theorem mmMapPage_takes (tree : Tree s) {virt phys flags : Word} {done : Bool}
    (step : mmMapPage s virt phys flags = some (done, u)) : TakesFrames s u := by
  obtain ⟨pdpt, s₁, pd, s₂, first, second, rest⟩ := mmMapPage_cases step
  have root : s.tableAt [] = some s.pml4 := rfl
  obtain ⟨extend₁, here₁⟩ := nextTable_extends tree root (by simp) (by simp) first
  have upper := (nextTable_takes tree root (by simp) (by simp) first).trans
    (nextTable_takes extend₁.tree here₁ (by simp) (by simp) second)
  obtain ⟨extend, here⟩ := upper_extends tree first second
  obtain ⟨-, -, rfl⟩ | ⟨large, -, pt, s₃, third, rfl⟩ := rest
  · exact upper
  · obtain ⟨extend₃, here₃⟩ := nextTable_extends extend.tree here (by simp)
      (fun _ => large) third
    have lower := upper.trans (nextTable_takes extend.tree here (by simp) (fun _ => large) third)
    have written := LeafWritten.of_write extend₃.tree here₃ rfl (ptIndex virt)
      (pageEntry phys flags)
    refine ⟨written.tree, lower.frames, ?_⟩
    rintro f ⟨q, hq, there⟩
    have same := tableAt_write_leaf extend₃.tree.unshared here₃ rfl (ptIndex virt)
      (pageEntry phys flags) q hq
    exact lower.tables f ⟨q, hq, same.symm.trans there⟩

theorem tablesTaken_self (tree : Tree s) : tablesTaken s s = 0 := by
  rw [tablesTaken, List.countP_eq_zero]
  intro f member
  simp only [decide_eq_true_eq]
  rintro ⟨q, hq, there⟩
  exact tree.outside f member q hq there

theorem NothingLeaked.refl (tree : Tree s) : NothingLeaked s s := by
  refine ⟨fun _ => rfl, fun _ => rfl, ?_⟩
  rw [tablesTaken_self tree, Nat.add_zero]

/-- A frame that has been taken for a page is lost: it is not free, and no table
is made from it. -/
theorem TakesFrames.leaks (tree : Tree s) {pa : Word} {rest : List Word}
    (next : s.frames = pa :: rest) (later : TakesFrames { s with frames := rest } u) :
    ¬ NothingLeaked s u := by
  intro kept
  have distinct := tree.distinct
  rw [next, List.nodup_cons] at distinct
  have unused : ¬ UsedAsTable u pa := by
    intro used
    rcases later.tables pa used with ⟨q, hq, there⟩ | taken
    · refine tree.outside pa ?_ q hq there
      rw [next]
      exact List.mem_cons_self
    · exact distinct.1 taken
  obtain ⟨taken, split⟩ := later.frames
  have split : taken ++ u.frames = rest := split
  have free : tablesTaken u u = 0 := tablesTaken_self later.tree
  have count := kept.frames
  classical
  rw [tablesTaken] at free count
  rw [next, ← split, List.countP_cons_of_neg (by simpa using unused), List.countP_append, free,
    List.length_cons, List.length_append] at count
  have most : taken.countP (fun f => decide (UsedAsTable u f)) ≤ taken.length :=
    List.countP_le_length
  omega

/-- A loop that takes a frame for each of `n` pages and maps it there. Without a
frame it stops; when a page cannot be mapped it may. -/
inductive PageRun : Nat → VmState → VmState → Prop where
  | finished (s : VmState) : PageRun 0 s s
  | noFrame (n : Nat) {s : VmState} (none : s.frames = []) : PageRun (n + 1) s s
  | refused (n : Nat) {s u : VmState} {pa virt flags : Word} {rest : List Word}
      (next : s.frames = pa :: rest)
      (step : mmMapPage { s with frames := rest } virt pa flags = some (false, u)) :
      PageRun (n + 1) s u
  | page {n : Nat} {s u v : VmState} {pa virt flags : Word} {rest : List Word} {done : Bool}
      (next : s.frames = pa :: rest)
      (step : mmMapPage { s with frames := rest } virt pa flags = some (done, u))
      (later : PageRun n u v) : PageRun (n + 1) s v

theorem PageRun.takes {n : Nat} (run : PageRun n s u) (tree : Tree s) : TakesFrames s u := by
  induction run with
  | finished s => exact .refl tree
  | noFrame n none => exact .refl tree
  | refused n next step =>
    exact (TakesFrames.take tree next).trans (mmMapPage_takes (tree.take next) step)
  | page next step later ih =>
    have first := mmMapPage_takes (tree.take next) step
    exact ((TakesFrames.take tree next).trans first).trans (ih first.tree)

/-- A loop that has a page to map leaks nothing exactly when there is no frame
to begin with. -/
theorem PageRun.nothing_leaked_iff {n : Nat} (run : PageRun n s u) (tree : Tree s)
    (some : n ≠ 0) : NothingLeaked s u ↔ s.frames = [] := by
  cases run with
  | finished s => exact absurd rfl some
  | noFrame n none => exact ⟨fun _ => none, fun _ => .refl tree⟩
  | refused n next step =>
    have later := mmMapPage_takes (tree.take next) step
    exact ⟨fun kept => absurd kept (later.leaks tree next), fun none => by simp [none] at next⟩
  | page next step later =>
    have first := mmMapPage_takes (tree.take next) step
    have whole := first.trans (later.takes first.tree)
    exact ⟨fun kept => absurd kept (whole.leaks tree next), fun none => by simp [none] at next⟩

end Mm
