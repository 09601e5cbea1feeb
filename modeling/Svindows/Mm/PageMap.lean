import Mathlib.Data.List.Nodup
import Svindows.Lib.Runs
import Svindows.Mm.PageTables

/-!
# Page tables refine a map on pages

What the operations do to translations, from any state that initialisation and
earlier operations can lead to.
-/

namespace Mm

open TableTree

/-- Flags are bits outside the address and without the large bit. -/
def FlagBits (flags : Word) : Prop := flags &&& pteAddrMask = 0 ∧ isLarge flags = false

theorem pageEntry_present (phys flags : Word) : isPresent (pageEntry phys flags) = true := by
  have present : isPresent ptePresent = true := by decide
  simp [pageEntry, isPresent_or, present]

theorem pageEntry_address (phys : Word) {flags : Word} (clear : flags &&& pteAddrMask = 0) :
    pageEntry phys flags &&& pteAddrMask = phys &&& pteAddrMask := by
  rw [pageEntry, or_flags_address _ (by decide), or_flags_address _ clear, BitVec.and_assoc,
    BitVec.and_self]

variable {s u : VmState} {n : Nat}

/-- What a written leaf means for the addresses of its slot. -/
theorem LeafWritten.here {virt e : Word} (written : LeafWritten s u (path virt) (ptIndex virt) e)
    (open_ : s.largeAt [pdptIndex virt, pml4Index virt] (pdIndex virt) = none) {w : Word}
    (tables : path w = path virt) (slot : ptIndex w = ptIndex virt) :
    mmGetPhysicalAddress u w =
      if isPresent e then (e &&& pteAddrMask) ||| (w &&& pageMask) else invalidPhys := by
  have leaf := written.leaf (path virt) (ptIndex virt) rfl
  rw [if_pos ⟨rfl, rfl⟩] at leaf
  have large := written.large [pdptIndex virt, pml4Index virt] (pdIndex virt) rfl
  have upper := tables
  simp only [path, List.cons.injEq, and_true] at upper
  obtain ⟨pd, pdpt, pml4⟩ := upper
  rw [mmGetPhysicalAddress_eq, found, pd, pdpt, pml4, large, open_, slot,
    show [pdIndex virt, pdptIndex virt, pml4Index virt] = path virt from rfl, leaf]
  cases present : isPresent e <;> simp [Option.filter, present]

theorem LeafWritten.elsewhere {virt e : Word}
    (written : LeafWritten s u (path virt) (ptIndex virt) e) {w : Word}
    (other : ¬ (path w = path virt ∧ ptIndex w = ptIndex virt)) :
    mmGetPhysicalAddress u w = mmGetPhysicalAddress s w := by
  have leaf := written.leaf (path w) (ptIndex w) rfl
  rw [if_neg other, path] at leaf
  rw [mmGetPhysicalAddress_eq, mmGetPhysicalAddress_eq, found, found, written.large _ _ rfl, leaf]

theorem mmMapPage_translation (tree : Tree s) {virt phys flags : Word} {done : Bool}
    (canonical : Canonical virt) (clear : flags &&& pteAddrMask = 0)
    (step : mmMapPage s virt phys flags = some (done, u)) :
    if done then
      (∀ w, pageOf w = pageOf virt →
        mmGetPhysicalAddress u w = (phys &&& pteAddrMask) ||| (w &&& pageMask)) ∧
      (∀ w, Canonical w → pageOf w ≠ pageOf virt →
        mmGetPhysicalAddress u w = mmGetPhysicalAddress s w)
    else ∀ w, mmGetPhysicalAddress u w = mmGetPhysicalAddress s w := by
  have spec := mmMapPage_spec tree step
  cases done with
  | false => exact spec.translation
  | true =>
    obtain ⟨free, written⟩ := spec
    refine ⟨?_, ?_⟩
    · intro w same
      obtain ⟨tables, slot⟩ := slot_of_page same
      rw [written.here free tables slot, if_pos (pageEntry_present phys flags),
        pageEntry_address phys clear]
    · intro w hw different
      refine written.elsewhere ?_
      rintro ⟨tables, slot⟩
      exact different (page_of_slot canonical hw tables slot)

theorem mmUnmapPage_translation (tree : Tree s) {virt : Word} {done : Bool}
    (canonical : Canonical virt) (step : mmUnmapPage s virt = (done, u)) :
    if done then
      (∀ w, pageOf w = pageOf virt → mmGetPhysicalAddress u w = invalidPhys) ∧
      (∀ w, Canonical w → pageOf w ≠ pageOf virt →
        mmGetPhysicalAddress u w = mmGetPhysicalAddress s w)
    else ∀ w, mmGetPhysicalAddress u w = mmGetPhysicalAddress s w := by
  have spec := mmUnmapPage_spec tree step
  cases done with
  | false =>
    obtain rfl : u = s := spec
    exact fun _ => rfl
  | true =>
    obtain ⟨free, written⟩ := spec
    refine ⟨?_, ?_⟩
    · intro w same
      obtain ⟨tables, slot⟩ := slot_of_page same
      rw [written.here free tables slot, isPresent_zero]
      rfl
    · intro w hw different
      refine written.elsewhere ?_
      rintro ⟨tables, slot⟩
      exact different (page_of_slot canonical hw tables slot)

theorem nextTable_of_present {t : Word} {i : Nat} (present : isPresent (s.mem t i) = true) :
    nextTable s t i =
      some ((s.mem t i ||| pteUser) &&& pteAddrMask, s.write t i (s.mem t i ||| pteUser)) := by
  simp [nextTable, present]

theorem present_of_tableAt {p : List Nat} {i : Nat} {t x : Word}
    (here : s.tableAt p = some t) (below : s.tableAt (i :: p) = some x) :
    isPresent (s.mem t i) = true ∧ ¬ (p.length = 2 ∧ isLarge (s.mem t i) = true) := by
  rw [VmState.tableAt, tableAt_cons here, child] at below
  split at below
  · rename_i h
    exact h
  · exact absurd below (by simp)

/-- Over existing tables `MmMapPage` allocates nothing and returns. -/
theorem mmMapPage_returns (tree : Tree s) {virt : Word} (phys flags : Word)
    {pdpt pd : Word} (h1 : s.tableAt [pml4Index virt] = some pdpt)
    (h2 : s.tableAt [pdptIndex virt, pml4Index virt] = some pd)
    (h3 : s.largeAt [pdptIndex virt, pml4Index virt] (pdIndex virt) ≠ none ∨
      ∃ pt, s.tableAt (path virt) = some pt) :
    ∃ r, mmMapPage s virt phys flags = some r := by
  have root : s.tableAt [] = some s.pml4 := rfl
  have first := nextTable_of_present (present_of_tableAt root h1).1
  obtain ⟨extend₁, here₁⟩ := nextTable_extends tree root (by simp) (by simp) first
  have kept := extend₁.tables _ _ (by simp) h1
  rw [kept] at here₁
  obtain rfl := Option.some.inj here₁
  have below₁ := extend₁.tables _ _ (by simp) h2
  have second := nextTable_of_present (present_of_tableAt kept below₁).1
  obtain ⟨extend₂, here₂⟩ := upper_extends tree first second
  simp only [mmMapPage, Option.bind_eq_bind, first, Option.bind_some, second]
  have kept₂ := extend₂.tables _ _ (by simp) h2
  rw [kept₂] at here₂
  obtain rfl := Option.some.inj here₂
  split
  · exact ⟨_, rfl⟩
  · rename_i small
    rcases h3 with large | ⟨pt, h3⟩
    · rw [← extend₂.large _ _ rfl, VmState.largeAt, entryAt_of kept₂] at large
      simp [Option.filter, small] at large
    · have below₂ := extend₂.tables _ _ (by simp [path]) h3
      have third := nextTable_of_present (present_of_tableAt kept₂ below₂).1
      exact ⟨_, by rw [third]; rfl⟩

theorem tables_of_found {virt : Word} (mapped : mmGetPhysicalAddress s virt ≠ invalidPhys) :
    (∃ pdpt, s.tableAt [pml4Index virt] = some pdpt) ∧
    (∃ pd, s.tableAt [pdptIndex virt, pml4Index virt] = some pd) ∧
    (s.largeAt [pdptIndex virt, pml4Index virt] (pdIndex virt) ≠ none ∨
      ∃ pt, s.tableAt (path virt) = some pt) := by
  have above : ∀ i p t, s.tableAt (i :: p) = some t → ∃ x, s.tableAt p = some x := by
    intro i p t h
    simp only [VmState.tableAt, TableTree.tableAt, Option.bind_eq_some_iff] at h
    obtain ⟨x, hx, _⟩ := h
    exact ⟨x, hx⟩
  have under : ∀ p i, s.entryAt p i ≠ none → ∃ t, s.tableAt p = some t := by
    intro p i h
    exact Option.ne_none_iff_exists'.mp fun none => h (by
      rw [VmState.entryAt, TableTree.entryAt]
      exact congrArg (Option.map fun t => s.mem t i) none)
  rw [mmGetPhysicalAddress_eq, found] at mapped
  cases large : s.largeAt [pdptIndex virt, pml4Index virt] (pdIndex virt) with
  | some e =>
    have slot : s.entryAt [pdptIndex virt, pml4Index virt] (pdIndex virt) ≠ none := by
      intro none
      rw [VmState.largeAt, none] at large
      exact absurd large (by simp)
    obtain ⟨pd, hpd⟩ := under _ _ slot
    exact ⟨above _ _ _ hpd, ⟨pd, hpd⟩, Or.inl (by simp)⟩
  | none =>
    rw [large] at mapped
    have slot : s.entryAt (path virt) (ptIndex virt) ≠ none := by
      intro none
      have leaf : s.leafAt (path virt) (ptIndex virt) = Option.none := by
        rw [VmState.leafAt, none]
        rfl
      rw [path] at leaf
      rw [leaf] at mapped
      exact mapped rfl
    obtain ⟨pt, hpt⟩ := under _ _ slot
    obtain ⟨pd, hpd⟩ := above _ _ _ hpt
    exact ⟨above _ _ _ hpd, ⟨pd, hpd⟩, Or.inr ⟨pt, hpt⟩⟩

theorem frame_of_translation (e virt : Word) :
    ((e &&& pteAddrMask) ||| (virt &&& pageMask)) &&& ~~~pageMask &&& pteAddrMask =
      e &&& pteAddrMask := by
  have masks : ~~~pageMask &&& pteAddrMask = pteAddrMask := by decide
  rw [BitVec.and_assoc, masks, or_flags_address, BitVec.and_assoc, BitVec.and_self]
  rw [BitVec.and_assoc, show pageMask &&& pteAddrMask = 0 by decide]
  exact BitVec.and_zero

/-- One round of `MmProtectRange` returns and changes no translation. -/
theorem protectPage_keeps (tree : Tree s) {flags : Word}
    (clear : flags &&& pteAddrMask = 0) (p : Word) :
    ∃ u, protectPage s flags p = some u ∧ Tree u ∧
      ∀ w, mmGetPhysicalAddress u w = mmGetPhysicalAddress s w := by
  simp only [protectPage]
  by_cases mapped : mmGetPhysicalAddress s p ≠ invalidPhys
  · obtain ⟨⟨pdpt, h1⟩, ⟨pd, h2⟩, h3⟩ := tables_of_found mapped
    obtain ⟨⟨done, u⟩, step⟩ := mmMapPage_returns tree
      (mmGetPhysicalAddress s p &&& ~~~pageMask) flags h1 h2 h3
    rw [if_pos mapped, step]
    refine ⟨u, rfl, ?_⟩
    have spec := mmMapPage_spec tree step
    cases done with
    | false => exact ⟨spec.tree, spec.translation⟩
    | true =>
      obtain ⟨free, written⟩ := spec
      refine ⟨written.tree, ?_⟩
      intro w
      by_cases here : path w = path p ∧ ptIndex w = ptIndex p
      · obtain ⟨tables, slot⟩ := here
        rw [written.here free tables slot, if_pos (pageEntry_present _ _),
          pageEntry_address _ clear]
        have upper := tables
        simp only [path, List.cons.injEq, and_true] at upper
        obtain ⟨pd, pdpt, pml4⟩ := upper
        rw [mmGetPhysicalAddress_eq, found, free] at mapped ⊢
        rw [mmGetPhysicalAddress_eq, found, pd, pdpt, pml4, free, slot]
        cases leaf : s.leafAt [pdIndex p, pdptIndex p, pml4Index p] (ptIndex p) with
        | none =>
          rw [leaf] at mapped
          exact absurd rfl mapped
        | some e =>
          dsimp only
          rw [frame_of_translation]
      · exact written.elsewhere here
  · rw [if_neg mapped]
    exact ⟨s, rfl, tree, fun _ => rfl⟩

theorem protectPages_keeps {flags : Word} (clear : flags &&& pteAddrMask = 0) (n : Nat) :
    ∀ {s : VmState} (_ : Tree s) (p : Word), ∃ u, protectPages flags n p s = some u ∧ Tree u ∧
      ∀ w, mmGetPhysicalAddress u w = mmGetPhysicalAddress s w := by
  induction n with
  | zero =>
    intro s tree p
    exact ⟨s, rfl, tree, fun _ => rfl⟩
  | succ n ih =>
    intro s tree p
    obtain ⟨s₁, first, tree₁, same₁⟩ := protectPage_keeps tree clear p
    obtain ⟨u, rest, treeU, same⟩ := ih tree₁ (p + 0x1000#64)
    refine ⟨u, ?_, treeU, fun w => (same w).trans (same₁ w)⟩
    simp only [protectPages, first, Option.bind_eq_bind, Option.bind_some]
    exact rest

theorem mmProtectRange_keeps (tree : Tree s) (va size : Word) (writable : Bool) :
    ∃ u, mmProtectRange s va size writable = some u ∧ Tree u ∧
      ∀ w, mmGetPhysicalAddress u w = mmGetPhysicalAddress s w := by
  refine protectPages_keeps ?_ _ tree _
  cases writable <;> decide

theorem mapLarge_tree (tree : Tree s) {va pa flags : Word}
    (step : mapLarge s va pa flags = some u) : Tree u := by
  simp only [mapLarge, Option.bind_eq_bind, Option.bind_eq_some_iff] at step
  obtain ⟨⟨pdpt, s₁⟩, first, ⟨pd, s₂⟩, second, step⟩ := step
  obtain ⟨extend, here⟩ := upper_extends tree first second
  obtain rfl := Option.some.inj step
  have large : isLarge ((pa &&& ~~~largePageMask) ||| flags ||| pteLarge) = true := by
    have bit : isLarge pteLarge = true := by decide
    simp [isLarge_or, bit]
  have pruned : child [pdptIndex va, pml4Index va].length
      ((pa &&& ~~~largePageMask) ||| flags ||| pteLarge) = none := by
    simp [child, large]
  have fewer := tableAt_write_prune extend.tree.unshared here (by simp) pruned (i := pdIndex va)
  refine ⟨extend.tree.unshared.of_pruned fewer, ?_, extend.tree.distinct, extend.tree.frame⟩
  intro f hf q hq h
  exact extend.tree.outside f hf q hq (fewer q f hq h)

theorem mapLargePages_tree {base : Word} (n : Nat) :
    ∀ {s u : VmState}, Tree s → mapLargePages base n s = some u → Tree u := by
  induction n with
  | zero =>
    intro s u tree step
    obtain rfl := Option.some.inj step
    exact tree
  | succ n ih =>
    intro s u tree step
    simp only [mapLargePages, Option.bind_eq_bind, Option.bind_eq_some_iff] at step
    obtain ⟨s₁, first, step⟩ := step
    exact mapLarge_tree (ih tree first) step

/-- Large pages above the user half leave its root slots empty. -/
theorem mapLarge_empty (tree : Tree s) {va pa flags : Word} (kernel : 256 ≤ pml4Index va)
    (step : mapLarge s va pa flags = some u) (empty : ∀ i < 256, s.tableAt [i] = none) :
    ∀ i < 256, u.tableAt [i] = none := by
  intro i user
  simp only [mapLarge, Option.bind_eq_bind, Option.bind_eq_some_iff] at step
  obtain ⟨⟨pdpt, s₁⟩, first, ⟨pd, s₂⟩, second, step⟩ := step
  have root : s.tableAt [] = some s.pml4 := rfl
  obtain ⟨extend₁, here₁⟩ := nextTable_extends tree root (by simp) (by simp) first
  obtain ⟨extend, here⟩ := upper_extends tree first second
  obtain rfl := Option.some.inj step
  have other : [i] ≠ [pml4Index va] := by simp; omega
  have apart : s₂.pml4 ≠ pd := by
    rintro rfl
    cases extend.tree.unshared _ [] _ (by simp) (by simp) here rfl
  show child 0 (TableTree.write s₂.mem pd _ _ s₂.pml4 i) = none
  rw [write_apply, if_neg fun hit => apart hit.1]
  exact (nextTable_tableAt extend₁.tree here₁ (by simp) second (by simp) (by simp)).trans
    ((nextTable_tableAt tree root (by simp) first (by simp) other).trans (empty i user))

theorem upper_index {base : Word} {k : Nat} (low : 2 ^ 64 - 2 ^ 47 ≤ base.toNat)
    (high : base.toNat + k * 0x200000 < 2 ^ 64) :
    256 ≤ pml4Index (base + BitVec.ofNat 64 (k * 0x200000)) := by
  rw [pml4Index, index_eq, BitVec.toNat_add, BitVec.toNat_ofNat]
  omega

theorem mapLargePages_empty {base : Word} (n : Nat) :
    ∀ {s u : VmState}, Tree s → mapLargePages base n s = some u →
      (∀ k < n, 256 ≤ pml4Index (base + BitVec.ofNat 64 (k * 0x200000))) →
      (∀ i < 256, s.tableAt [i] = none) → ∀ i < 256, u.tableAt [i] = none := by
  induction n with
  | zero =>
    intro s u _ step _ empty
    obtain rfl := Option.some.inj step
    exact empty
  | succ n ih =>
    intro s u tree step kernel empty
    simp only [mapLargePages, Option.bind_eq_bind, Option.bind_eq_some_iff] at step
    obtain ⟨s₁, first, step⟩ := step
    exact mapLarge_empty (mapLargePages_tree n tree first) (kernel n n.lt_succ_self) step
      (ih tree first (fun k hk => kernel k (Nat.lt_succ_of_lt hk)) empty)

theorem root_tree {mem : Word → Nat → Word} {f : Word} {frames : List Word}
    (distinct : (f :: frames).Nodup) (frame : ∀ g ∈ f :: frames, IsFrame g) :
    Tree ⟨fill mem f 0, f, frames⟩ := by
  have only : ∀ q t, (VmState.mk (fill mem f 0) f frames).tableAt q = some t → q = [] ∧ t = f := by
    intro q
    induction q with
    | nil =>
      intro t h
      exact ⟨rfl, (Option.some.inj h).symm⟩
    | cons i q ih =>
      intro t h
      simp only [VmState.tableAt, TableTree.tableAt, Option.bind_eq_some_iff] at h
      obtain ⟨x, hx, ht⟩ := h
      obtain ⟨-, rfl⟩ := ih x hx
      rw [fill_apply, if_pos rfl, child_zero] at ht
      exact absurd ht (by simp)
  rw [List.nodup_cons] at distinct
  refine ⟨?_, ?_, distinct.2, fun g hg => frame g (List.mem_cons_of_mem f hg)⟩
  · intro p q t _ _ hp hq
    rw [(only p t hp).1, (only q t hq).1]
  · intro g hg q _ h
    rw [(only q g h).2] at hg
    exact distinct.1 hg

theorem mmInitializeVirtualMemory_iff {mem : Word → Nat → Word} {f highest : Word}
    {frames : List Word} :
    mmInitializeVirtualMemory mem (f :: frames) highest = some u ↔
      ∃ s, mapLargePages kernelVirtBase 512 ⟨fill mem f 0, f, frames⟩ = some s ∧
        mapLargePages directMapBase ((directMapTop highest).toNat / 0x200000) s = some u := by
  unfold mmInitializeVirtualMemory
  -- the counts stay variables, or the two loops are run out
  generalize 512 = n
  generalize (directMapTop highest).toNat / 0x200000 = k
  simp only [allocZeroedTable, Option.bind_eq_bind, Option.bind_some, Option.bind_eq_some_iff]

theorem mmInitializeVirtualMemory_tree {mem : Word → Nat → Word} {frames : List Word}
    {highest : Word} (distinct : frames.Nodup) (frame : ∀ g ∈ frames, IsFrame g)
    (step : mmInitializeVirtualMemory mem frames highest = some u) : Tree u := by
  cases frames with
  | nil => exact absurd step (by simp [mmInitializeVirtualMemory, allocZeroedTable])
  | cons f frames =>
    obtain ⟨s, first, second⟩ := mmInitializeVirtualMemory_iff.mp step
    exact mapLargePages_tree _ (mapLargePages_tree _ (root_tree distinct frame) first) second

/-- With less than 2^47 bytes of direct map, the user half is empty. -/
theorem mmInitializeVirtualMemory_empty {mem : Word → Nat → Word} {frames : List Word}
    {highest : Word} (distinct : frames.Nodup) (frame : ∀ g ∈ frames, IsFrame g)
    (below : (directMapTop highest).toNat ≤ 2 ^ 47)
    (step : mmInitializeVirtualMemory mem frames highest = some u) :
    ∀ i < 256, u.tableAt [i] = none := by
  cases frames with
  | nil => exact absurd step (by simp [mmInitializeVirtualMemory, allocZeroedTable])
  | cons f frames =>
    obtain ⟨s, first, second⟩ := mmInitializeVirtualMemory_iff.mp step
    have root : ∀ i < 256, (VmState.mk (fill mem f 0) f frames).tableAt [i] = none := fun i _ => by
      show child 0 (fill mem f 0 f i) = none
      rw [fill_apply, if_pos rfl, child_zero]
    have tree := @root_tree mem f frames distinct frame
    have kernel : kernelVirtBase.toNat = 0xFFFFFFFF80000000 := rfl
    have direct : directMapBase.toNat = 0xFFFF800000000000 := rfl
    exact mapLargePages_empty _ (mapLargePages_tree _ tree first) second
      (fun k hk => upper_index (by omega) (by omega))
      (mapLargePages_empty _ tree first (fun k hk => upper_index (by omega) (by omega)) root)

/-- With a frame in store `next_table` returns, and uses at most one. -/
theorem nextTable_returns (some_ : n < s.frames.length) (t : Word)
    (i : Nat) : ∃ x u, nextTable s t i = some (x, u) ∧ n ≤ u.frames.length := by
  cases present : isPresent (s.mem t i) with
  | true =>
    rw [nextTable_of_present present]
    exact ⟨_, _, rfl, Nat.le_of_lt some_⟩
  | false =>
    cases next : s.frames with
    | nil =>
      rw [next] at some_
      exact absurd some_ (Nat.not_lt_zero n)
    | cons f frames =>
      rw [next] at some_
      refine ⟨f, ⟨TableTree.write (fill s.mem f 0) t i (tableEntry f), s.pml4, frames⟩, ?_,
        Nat.le_of_lt_succ some_⟩
      simp [nextTable, present, allocZeroedTable, next, VmState.write, tableEntry]

theorem mmMapPage_returns_of_frames (three : n + 3 ≤ s.frames.length)
    (virt phys flags : Word) : ∃ done u, mmMapPage s virt phys flags = some (done, u) ∧
      n ≤ u.frames.length := by
  obtain ⟨pdpt, s₁, first, two⟩ := nextTable_returns three s.pml4 (pml4Index virt)
  obtain ⟨pd, s₂, second, one⟩ := nextTable_returns two pdpt (pdptIndex virt)
  obtain ⟨pt, s₃, third, rest⟩ := nextTable_returns one pd (pdIndex virt)
  simp only [mmMapPage, Option.bind_eq_bind, first, second, third, Option.bind_some]
  split
  · exact ⟨_, _, rfl, Nat.le_of_succ_le one⟩
  · exact ⟨_, _, rfl, rest⟩

theorem mapLarge_returns (two : n + 2 ≤ s.frames.length)
    (va pa flags : Word) : ∃ u, mapLarge s va pa flags = some u ∧ n ≤ u.frames.length := by
  obtain ⟨pdpt, s₁, first, one⟩ := nextTable_returns two s.pml4 (pml4Index va)
  obtain ⟨pd, s₂, second, rest⟩ := nextTable_returns one pdpt (pdptIndex va)
  refine ⟨s₂.write pd (pdIndex va) ((pa &&& ~~~largePageMask) ||| flags ||| pteLarge), ?_, rest⟩
  simp only [mapLarge, Option.bind_eq_bind, first, second, Option.bind_some]

theorem mapLargePages_returns (base : Word) (k : Nat) :
    ∀ {s : VmState} {n : Nat}, n + 2 * k ≤ s.frames.length →
      ∃ u, mapLargePages base k s = some u ∧ n ≤ u.frames.length := by
  induction k with
  | zero =>
    intro s n enough
    exact ⟨s, rfl, enough⟩
  | succ k ih =>
    intro s n enough
    have room : n + 2 + 2 * k ≤ s.frames.length := by omega
    obtain ⟨s₁, first, left⟩ := ih room
    obtain ⟨u, last, rest⟩ := mapLarge_returns left
      (base + BitVec.ofNat 64 (k * 0x200000)) (BitVec.ofNat 64 (k * 0x200000))
      (ptePresent ||| pteWrite ||| pteGlobal)
    refine ⟨u, ?_, rest⟩
    simp only [mapLargePages, Option.bind_eq_bind, first, Option.bind_some]
    exact last

theorem mmInitializeVirtualMemory_returns (mem : Word → Nat → Word) (f : Word)
    {frames : List Word} {highest : Word} {k n : Nat}
    (large : (directMapTop highest).toNat / 0x200000 = k)
    (enough : n + 2 * k + 2 * 512 ≤ frames.length) :
    ∃ u, mmInitializeVirtualMemory mem (f :: frames) highest = some u ∧ n ≤ u.frames.length := by
  obtain ⟨s₁, first, left⟩ := mapLargePages_returns kernelVirtBase 512
    (s := ⟨fill mem f 0, f, frames⟩) enough
  obtain ⟨u, second, rest⟩ := mapLargePages_returns directMapBase k left
  rw [← large] at second
  exact ⟨u, mmInitializeVirtualMemory_iff.mpr ⟨s₁, first, second⟩, rest⟩

/-- Frames that `MmAllocatePage` may return: distinct and not in use as tables. -/
def Grantable (s : VmState) (frames : List Word) : Prop :=
  frames.Nodup ∧ ∀ f ∈ frames, IsFrame f ∧ ∀ q, q.length ≤ 3 → s.tableAt q ≠ some f

inductive VmOp where
  | map (virt phys flags : Word)
  | unmap (virt : Word)
  | protect (va size : Word) (writable : Bool)
  /-- Others allocate and free frames; these are the next ones. -/
  | grant (frames : List Word)

def VmStart (s : VmState) : Prop :=
  ∃ mem frames highest, frames.Nodup ∧ (∀ f ∈ frames, IsFrame f) ∧
    mmInitializeVirtualMemory mem frames highest = some s

def VmStep (s : VmState) (op : VmOp) (u : VmState) : Prop :=
  match op with
  | .map virt phys flags =>
    Canonical virt ∧ FlagBits flags ∧ ∃ done, mmMapPage s virt phys flags = some (done, u)
  | .unmap virt => Canonical virt ∧ u = (mmUnmapPage s virt).2
  | .protect va size writable => mmProtectRange s va size writable = some u
  | .grant frames => Grantable s frames ∧ u = { s with frames := frames }

theorem Tree.step {op : VmOp} (tree : Tree s) (step : VmStep s op u) : Tree u := by
  cases op with
  | map virt phys flags =>
    obtain ⟨_, _, done, step⟩ := step
    have spec := mmMapPage_spec tree step
    cases done with
    | false => exact spec.tree
    | true => exact spec.2.tree
  | unmap virt =>
    obtain ⟨_, rfl⟩ := step
    have returns : mmUnmapPage s virt = ((mmUnmapPage s virt).1, (mmUnmapPage s virt).2) := rfl
    have spec := mmUnmapPage_spec tree returns
    cases done : (mmUnmapPage s virt).1 with
    | false =>
      rw [done] at spec
      have same : (mmUnmapPage s virt).2 = s := spec
      rw [same]
      exact tree
    | true =>
      rw [done] at spec
      exact spec.2.tree
  | protect va size writable =>
    obtain ⟨v, returns, treeV, _⟩ := mmProtectRange_keeps tree va size writable
    have same : v = u := Option.some.inj (returns.symm.trans step)
    rw [← same]
    exact treeV
  | grant frames =>
    obtain ⟨⟨distinct, unused⟩, rfl⟩ := step
    exact ⟨tree.unshared, fun f hf => (unused f hf).2, distinct, fun f hf => (unused f hf).1⟩

/-- In every reachable state the operations update translations page by page,
and no two slots refer to one table. -/
theorem page_tables_refine_map {s : VmState} (run : Runs.Reachable VmStart VmStep s) :
    (∀ virt phys flags, Canonical virt → FlagBits flags →
      (3 ≤ s.frames.length → ∃ r, mmMapPage s virt phys flags = some r) ∧
      ∀ done u, mmMapPage s virt phys flags = some (done, u) →
        if done then
          (∀ w, pageOf w = pageOf virt →
            mmGetPhysicalAddress u w = (phys &&& pteAddrMask) ||| (w &&& pageMask)) ∧
          (∀ w, Canonical w → pageOf w ≠ pageOf virt →
            mmGetPhysicalAddress u w = mmGetPhysicalAddress s w)
        else ∀ w, mmGetPhysicalAddress u w = mmGetPhysicalAddress s w) ∧
    (∀ virt, Canonical virt →
      if (mmUnmapPage s virt).1 then
        (∀ w, pageOf w = pageOf virt →
          mmGetPhysicalAddress (mmUnmapPage s virt).2 w = invalidPhys) ∧
        (∀ w, Canonical w → pageOf w ≠ pageOf virt →
          mmGetPhysicalAddress (mmUnmapPage s virt).2 w = mmGetPhysicalAddress s w)
      else ∀ w, mmGetPhysicalAddress (mmUnmapPage s virt).2 w = mmGetPhysicalAddress s w) ∧
    (∀ va size writable, ∃ u, mmProtectRange s va size writable = some u ∧
      ∀ w, mmGetPhysicalAddress u w = mmGetPhysicalAddress s w) ∧
    (∀ p q i j t, p.length ≤ 2 → q.length ≤ 2 → s.tableAt (i :: p) = some t →
      s.tableAt (j :: q) = some t → p = q ∧ i = j) := by
  have tree : Tree s := by
    refine run.invariant ?_ (fun _ _ _ tree step => tree.step step)
    rintro u ⟨mem, frames, highest, distinct, frame, step⟩
    exact mmInitializeVirtualMemory_tree distinct frame step
  refine ⟨?_, ?_, ?_, ?_⟩
  · intro virt phys flags canonical bits
    refine ⟨fun three => ?_, ?_⟩
    · obtain ⟨done, u, step, _⟩ := mmMapPage_returns_of_frames (n := 0) three virt phys flags
      exact ⟨_, step⟩
    · intro done u step
      exact mmMapPage_translation tree canonical bits.1 step
  · intro virt canonical
    exact mmUnmapPage_translation tree canonical rfl
  · intro va size writable
    obtain ⟨u, returns, _, same⟩ := mmProtectRange_keeps tree va size writable
    exact ⟨u, returns, same⟩
  · intro p q i j t hp hq here there
    have same := tree.unshared (i :: p) (j :: q) t (by simp; omega) (by simp; omega) here there
    obtain ⟨rfl, rfl⟩ := List.cons.inj same
    exact ⟨rfl, rfl⟩


/-- The first physical page after the root's, and on: enough to initialise with
1 GiB of direct map. -/
def firstFrames : List Word := (List.range 2051).map fun i => BitVec.ofNat 64 (2 ^ 12 * (i + 1))

theorem frame_of_pageNumber (small : n < 2 ^ 40) : IsFrame (BitVec.ofNat 64 (2 ^ 12 * n)) := by
  have mask : ∀ k : Fin 64, pteAddrMask.getLsbD k = (decide (12 ≤ k.1) && decide (k.1 < 52)) := by
    decide
  refine BitVec.eq_of_getLsbD_eq fun k hk => ?_
  rw [BitVec.getLsbD_and, mask ⟨k, hk⟩, BitVec.getLsbD_ofNat, Nat.testBit_two_pow_mul]
  by_cases low : 12 ≤ k
  · by_cases high : k < 52
    · simp [low, high]
    · have zero : n.testBit (k - 12) = false :=
        Nat.testBit_lt_two_pow
          (Nat.lt_of_lt_of_le small (Nat.pow_le_pow_right (by decide) (by omega)))
      simp [zero]
  · simp [low]

theorem firstFrames_frame : ∀ f ∈ 0#64 :: firstFrames, IsFrame f := by
  intro f hf
  cases hf with
  | head => exact BitVec.zero_and
  | tail _ hf =>
    obtain ⟨i, hi, rfl⟩ := List.mem_map.mp hf
    rw [List.mem_range] at hi
    exact frame_of_pageNumber (by omega)

theorem firstFrames_nodup : (0#64 :: firstFrames).Nodup := by
  have value : ∀ i < 2051, (BitVec.ofNat 64 (2 ^ 12 * (i + 1))).toNat = 2 ^ 12 * (i + 1) := by
    intro i hi
    rw [BitVec.toNat_ofNat, Nat.mod_eq_of_lt (by omega)]
  refine List.nodup_cons.mpr ⟨?_, List.Nodup.map_on ?_ List.nodup_range⟩
  · intro zero
    obtain ⟨i, hi, zero⟩ := List.mem_map.mp zero
    have zero := congrArg BitVec.toNat zero
    rw [value i (List.mem_range.mp hi)] at zero
    exact absurd zero (by simp)
  · intro i hi j hj same
    have same := congrArg BitVec.toNat same
    rw [value i (List.mem_range.mp hi), value j (List.mem_range.mp hj)] at same
    omega

theorem page_tables_refine_map_one_page : ∃ s u, Runs.Reachable VmStart VmStep s ∧
    mmMapPage s 0x400000#64 0x5000#64 pteUser = some (true, u) ∧
    mmGetPhysicalAddress u 0x400123#64 = 0x5123#64 := by
  have large : (directMapTop 0#64).toNat / 0x200000 = 512 := by decide
  have enough : 3 + 2 * 512 + 2 * 512 ≤ firstFrames.length := by simp [firstFrames]
  obtain ⟨s, init, three⟩ := mmInitializeVirtualMemory_returns (fun _ _ => 0#64) 0#64 large enough
  have start : Runs.Reachable VmStart VmStep s :=
    .of_initial ⟨_, _, _, firstFrames_nodup, firstFrames_frame, init⟩
  obtain ⟨returns, spec⟩ := (page_tables_refine_map start).1 0x400000#64 0x5000#64 pteUser
    (by unfold Canonical; decide) (by unfold FlagBits; decide)
  obtain ⟨⟨done, u⟩, here⟩ := returns three
  have empty := mmInitializeVirtualMemory_empty firstFrames_nodup firstFrames_frame (by omega) init
  have none_ : NoLarge s 0x400000#64 := fun e entry => by
    rw [VmState.entryAt, TableTree.entryAt, TableTree.tableAt] at entry
    rw [show TableTree.tableAt child s.pml4 s.mem [pml4Index 0x400000#64] = none from
      empty 0 (by decide)] at entry
    cases entry
  have tree := mmInitializeVirtualMemory_tree firstFrames_nodup firstFrames_frame init
  obtain rfl := none_.done tree here
  exact ⟨s, u, start, here, (spec true u here).1 0x400123#64 (by decide)⟩

end Mm
