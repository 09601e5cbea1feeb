import Svindows.Mm.PageMap

/-!
# Mapped addresses

Nothing in the system unmaps a page: what has a translation keeps one. A walk
reads the low 48 bits of an address only, so addresses that differ above them
are mapped together.
-/

namespace Mm

open TableTree

/-- `MmGetPhysicalAddress` finds a frame. -/
def Mapped (s : VmState) (virt : Word) : Prop := mmGetPhysicalAddress s virt ≠ invalidPhys

theorem and_pageMask (v : Word) : (v &&& pageMask).toNat = v.toNat % 2 ^ 12 := by
  rw [BitVec.toNat_and]
  exact Nat.and_two_pow_sub_one_eq_mod _ 12

theorem and_largePageMask (v : Word) : (v &&& largePageMask).toNat = v.toNat % 2 ^ 21 := by
  rw [BitVec.toNat_and]
  exact Nat.and_two_pow_sub_one_eq_mod _ 21

theorem translation_low (s : VmState) {v w : Word}
    (same : v.toNat % 2 ^ 48 = w.toNat % 2 ^ 48) :
    mmGetPhysicalAddress s v = mmGetPhysicalAddress s w := by
  have h1 : pml4Index v = pml4Index w := by
    simp only [pml4Index, index_eq]
    omega
  have h2 : pdptIndex v = pdptIndex w := by
    simp only [pdptIndex, index_eq]
    omega
  have h3 : pdIndex v = pdIndex w := by
    simp only [pdIndex, index_eq]
    omega
  have h4 : ptIndex v = ptIndex w := by
    simp only [ptIndex, index_eq]
    omega
  have page : v &&& pageMask = w &&& pageMask := by
    apply BitVec.eq_of_toNat_eq
    rw [and_pageMask, and_pageMask]
    omega
  have large : v &&& largePageMask = w &&& largePageMask := by
    apply BitVec.eq_of_toNat_eq
    rw [and_largePageMask, and_largePageMask]
    omega
  rw [mmGetPhysicalAddress_eq, mmGetPhysicalAddress_eq, found, found, h1, h2, h3, h4, page, large]

theorem pageTranslation_ne (e w : Word) : (e &&& pteAddrMask) ||| (w &&& pageMask) ≠ invalidPhys := by
  intro same
  have bit := congrArg (fun x => x.getLsbD 63) same
  have address : pteAddrMask.getLsbD 63 = false := by decide
  have offset : pageMask.getLsbD 63 = false := by decide
  have invalid : invalidPhys.getLsbD 63 = true := by decide
  simp only [BitVec.getLsbD_or, BitVec.getLsbD_and, address, offset, invalid, Bool.and_false,
    Bool.or_false] at bit
  exact absurd bit (by decide)

variable {s u : VmState}

theorem mmMapPage_mapped (tree : Tree s) {virt phys flags : Word} {done : Bool}
    (step : mmMapPage s virt phys flags = some (done, u)) :
    Tree u ∧ (∀ w, Mapped s w → Mapped u w) ∧ (done = true → Mapped u virt) := by
  have spec := mmMapPage_spec tree step
  cases done with
  | false =>
    refine ⟨spec.tree, ?_, fun wrong => absurd wrong (by decide)⟩
    intro w mapped
    rw [Mapped, spec.translation]
    exact mapped
  | true =>
    obtain ⟨free, written⟩ := spec
    have here : ∀ w, path w = path virt ∧ ptIndex w = ptIndex virt → Mapped u w := by
      rintro w ⟨tables, slot⟩
      rw [Mapped, written.here free tables slot, if_pos (pageEntry_present phys flags)]
      exact pageTranslation_ne _ _
    refine ⟨written.tree, ?_, fun _ => here virt ⟨rfl, rfl⟩⟩
    intro w mapped
    by_cases slot : path w = path virt ∧ ptIndex w = ptIndex virt
    · exact here w slot
    · rw [Mapped, written.elsewhere slot]
      exact mapped

/-- The page slot of an address: what a walk reads of it. -/
def pageSlot (va : Nat) : Nat := va % 2 ^ 48 / 0x1000

theorem pageSlot_of_tables {v w : Word} (tables : path w = path v) (slot : ptIndex w = ptIndex v) :
    pageSlot w.toNat = pageSlot v.toNat := by
  simp only [path, List.cons.injEq, and_true] at tables
  obtain ⟨pd, pdpt, pml4⟩ := tables
  simp only [pdIndex, pdptIndex, pml4Index, ptIndex, index_eq] at pd pdpt pml4 slot
  simp only [pageSlot]
  omega

theorem tables_of_pageSlot {v w : Word} (same : pageSlot w.toNat = pageSlot v.toNat) :
    path w = path v ∧ ptIndex w = ptIndex v := by
  simp only [path, pdIndex, pdptIndex, pml4Index, ptIndex, index_eq, List.cons.injEq, and_true]
  simp only [pageSlot] at same
  omega

/-- Mapped by an entry of a page table. -/
def LeafMapped (s : VmState) (w : Word) : Prop :=
  s.largeAt [pdptIndex w, pml4Index w] (pdIndex w) = none ∧ s.leafAt (path w) (ptIndex w) ≠ none

/-- Then all addresses of the page are mapped. -/
theorem LeafMapped.mapped {v w : Word} (leaf : LeafMapped s w)
    (same : pageSlot v.toNat = pageSlot w.toNat) : Mapped s v := by
  obtain ⟨small, leaf⟩ := leaf
  obtain ⟨tables, slot⟩ := tables_of_pageSlot same
  have upper := tables
  simp only [path, List.cons.injEq, and_true] at upper
  obtain ⟨pd, pdpt, pml4⟩ := upper
  rw [Mapped, mmGetPhysicalAddress_eq, found, pd, pdpt, pml4, small, slot]
  cases entry : s.leafAt [pdIndex w, pdptIndex w, pml4Index w] (ptIndex w) with
  | none => exact absurd entry leaf
  | some e => exact pageTranslation_ne e v

theorem mmMapPage_leaves (tree : Tree s) {virt phys flags : Word} {done : Bool}
    (step : mmMapPage s virt phys flags = some (done, u)) :
    (∀ w, LeafMapped s w → LeafMapped u w) ∧ (done = true → LeafMapped u virt) := by
  have spec := mmMapPage_spec tree step
  cases done with
  | false =>
    refine ⟨?_, fun wrong => absurd wrong (by decide)⟩
    intro w leaf
    rw [LeafMapped, spec.large _ _ rfl, spec.leaf _ _ rfl]
    exact leaf
  | true =>
    obtain ⟨free, written⟩ := spec
    constructor
    · intro w leaf
      rw [LeafMapped, written.large _ _ rfl, written.leaf _ _ rfl]
      refine ⟨leaf.1, ?_⟩
      split
      · simp [Option.filter, pageEntry_present]
      · exact leaf.2
    · intro _
      rw [LeafMapped, written.large _ _ rfl, written.leaf _ _ rfl, if_pos ⟨rfl, rfl⟩]
      exact ⟨free, by simp [Option.filter, pageEntry_present]⟩

theorem mmMapPage_new (tree : Tree s) {virt phys flags : Word} {done : Bool}
    (step : mmMapPage s virt phys flags = some (done, u)) {w : Word} (mapped : Mapped u w) :
    Mapped s w ∨ pageSlot w.toNat = pageSlot virt.toNat := by
  have spec := mmMapPage_spec tree step
  cases done with
  | false =>
    left
    rw [Mapped, spec.translation] at mapped
    exact mapped
  | true =>
    obtain ⟨_, written⟩ := spec
    by_cases slot : path w = path virt ∧ ptIndex w = ptIndex virt
    · exact Or.inr (pageSlot_of_tables slot.1 slot.2)
    · left
      rw [Mapped, written.elsewhere slot] at mapped
      exact mapped

-- Frames are taken from the front and never come back.

theorem nextTable_frames {t x : Word} {i : Nat}
    (step : nextTable s t i = some (x, u)) : u.frames <:+ s.frames := by
  obtain ⟨-, rest, next, rfl⟩ | ⟨-, -, rfl⟩ := nextTable_cases step
  · rw [next]
    exact List.suffix_cons x rest
  · exact List.suffix_refl _

theorem mmMapPage_frames {virt phys flags : Word} {done : Bool}
    (step : mmMapPage s virt phys flags = some (done, u)) : u.frames <:+ s.frames := by
  obtain ⟨pdpt, s₁, pd, s₂, first, second, rest⟩ := mmMapPage_cases step
  have upper := (nextTable_frames second).trans (nextTable_frames first)
  obtain ⟨-, -, rfl⟩ | ⟨-, -, pt, s₃, third, rfl⟩ := rest
  · exact upper
  · exact (nextTable_frames third).trans upper

/-- The page directories of the user half have no large entries. -/
def SmallOnly (s : VmState) : Prop :=
  ∀ x y j e, y < 256 → s.entryAt [x, y] j = some e → isLarge e = false

theorem SmallOnly.keep (small : SmallOnly s) (large : LargeFrom s u) : SmallOnly u := by
  intro x y j e user entry
  by_contra big
  obtain ⟨e', entry', large'⟩ := large [x, y] j e rfl entry (by simpa using big)
  rw [small x y j e' user entry'] at large'
  exact absurd large' (by decide)

theorem SmallOnly.done (small : SmallOnly s) (tree : Tree s)
    {virt phys flags : Word} {done : Bool} (user : virt.toNat % 2 ^ 48 < 2 ^ 47)
    (step : mmMapPage s virt phys flags = some (done, u)) : done = true := by
  have half : pml4Index virt < 256 := by
    simp only [pml4Index, index_eq]
    omega
  have none : NoLarge s virt := fun e entry => small _ _ _ e half entry
  exact none.done tree step

theorem unmapped_of_empty (empty : ∀ i < 256, isPresent (s.mem s.pml4 i) = false) :
    SmallOnly s ∧ ∀ virt : Word, virt.toNat % 2 ^ 48 < 2 ^ 47 → ¬ Mapped s virt := by
  constructor
  · intro x y j e user entry
    have absent : s.tableAt [y] = none := by
      rw [VmState.tableAt, tableAt_cons (show s.tableAt [] = some s.pml4 from rfl)]
      exact child_absent (empty y user)
    have none : s.tableAt [x, y] = none := by
      simp only [VmState.tableAt, TableTree.tableAt] at absent ⊢
      rw [absent]
      rfl
    rw [VmState.entryAt, TableTree.entryAt] at entry
    rw [VmState.tableAt] at none
    rw [none] at entry
    exact absurd entry (by simp)
  · intro virt user mapped
    have half : pml4Index virt < 256 := by
      simp only [pml4Index, index_eq]
      omega
    apply mapped
    simp only [mmGetPhysicalAddress, empty _ half, Bool.not_false, if_true]

/-- Taking frames for other use keeps the tables a tree. -/
theorem Tree.fewer (tree : Tree s) {frames : List Word}
    (fewer : frames <:+ s.frames) : Tree { s with frames := frames } :=
  ⟨tree.unshared, fun g hg => tree.outside g (fewer.subset hg), tree.distinct.sublist fewer.sublist,
    fun g hg => tree.frame g (fewer.subset hg)⟩

theorem Tree.take (tree : Tree s) {f : Word} {frames : List Word}
    (next : s.frames = f :: frames) : Tree { s with frames := frames } := by
  refine tree.fewer ?_
  rw [next]
  exact List.suffix_cons f frames

theorem Tree.grant (tree : Tree s) {frames : List Word}
    (unused : Grantable s frames) : Tree { s with frames := frames } :=
  ⟨tree.unshared, fun f hf => (unused.2 f hf).2, unused.1, fun f hf => (unused.2 f hf).1⟩

end Mm
