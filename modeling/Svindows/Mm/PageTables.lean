import Svindows.Mm.Vmm

/-!
# Page tables refine a map on pages

The tables form a tree: no table is reached through two slots, and the frames
yet to be allocated are not in it. A walk ends in a large leaf, in a page leaf
or nowhere, so a translation is read off the leaves; every operation says what
it does to the tables and the leaves.
-/

namespace Mm

open TableTree

theorem isPresent_eq (e : Word) : isPresent e = e.getLsbD 0 := by
  have bit : ptePresent = BitVec.twoPow 64 0 := by decide
  rw [isPresent, bit, BitVec.and_twoPow]
  cases e.getLsbD 0
  · rfl
  · decide

theorem isLarge_eq (e : Word) : isLarge e = e.getLsbD 7 := by
  have bit : pteLarge = BitVec.twoPow 64 7 := by decide
  rw [isLarge, bit, BitVec.and_twoPow]
  cases e.getLsbD 7
  · rfl
  · decide

theorem isPresent_zero : isPresent 0 = false := by decide

/-- A page frame: a physical address an entry can hold. -/
def IsFrame (f : Word) : Prop := f &&& pteAddrMask = f

/-- The table an entry of a table at depth `n` refers to; at depth 2 a large
entry refers to none. -/
def child (n : Nat) (e : Word) : Option Word :=
  if isPresent e ∧ ¬ (n = 2 ∧ isLarge e) then some (e &&& pteAddrMask) else none

theorem child_absent {n : Nat} {e : Word} (absent : isPresent e = false) : child n e = none := by
  simp [child, absent]

theorem child_zero (n : Nat) : child n 0 = none := child_absent isPresent_zero

/-- The entry `next_table` writes for a new table. -/
def tableEntry (f : Word) : Word := f ||| ptePresent ||| pteWrite ||| pteUser

theorem frame_bit7 {f : Word} (frame : IsFrame f) : f.getLsbD 7 = false := by
  have mask : pteAddrMask.getLsbD 7 = false := by decide
  rw [← frame, BitVec.getLsbD_and, mask, Bool.and_false]

theorem or_flags_address (e : Word) {flags : Word} (clear : flags &&& pteAddrMask = 0) :
    (e ||| flags) &&& pteAddrMask = e &&& pteAddrMask := by
  refine BitVec.eq_of_getLsbD_eq ?_
  intro i _
  have bit := congrArg (fun x => x.getLsbD i) clear
  simp only [BitVec.getLsbD_and, BitVec.getLsbD_or] at bit ⊢
  cases he : e.getLsbD i <;> cases hm : pteAddrMask.getLsbD i <;> simp_all

theorem isPresent_or (e f : Word) : isPresent (e ||| f) = (isPresent e || isPresent f) := by
  simp only [isPresent_eq, BitVec.getLsbD_or]

theorem isLarge_or (e f : Word) : isLarge (e ||| f) = (isLarge e || isLarge f) := by
  simp only [isLarge_eq, BitVec.getLsbD_or]

theorem isPresent_tableEntry (f : Word) : isPresent (tableEntry f) = true := by
  have present : isPresent ptePresent = true := by decide
  simp [tableEntry, isPresent_or, present]

theorem isLarge_tableEntry {f : Word} (frame : IsFrame f) : isLarge (tableEntry f) = false := by
  have small : isLarge f = false := by
    rw [isLarge_eq]
    exact frame_bit7 frame
  have p : isLarge ptePresent = false := by decide
  have w : isLarge pteWrite = false := by decide
  have u : isLarge pteUser = false := by decide
  simp [tableEntry, isLarge_or, small, p, w, u]

theorem child_tableEntry {f : Word} (frame : IsFrame f) (n : Nat) :
    child n (tableEntry f) = some f := by
  have address : tableEntry f &&& pteAddrMask = f := by
    simp only [tableEntry, BitVec.or_assoc]
    rw [or_flags_address _ (by decide)]
    exact frame
  simp [child, isPresent_tableEntry, isLarge_tableEntry frame, address]

-- Setting the user bit keeps what an entry refers to.

theorem isPresent_or_user (e : Word) : isPresent (e ||| pteUser) = isPresent e := by
  have absent : isPresent pteUser = false := by decide
  rw [isPresent_or, absent, Bool.or_false]

theorem isLarge_or_user (e : Word) : isLarge (e ||| pteUser) = isLarge e := by
  have small : isLarge pteUser = false := by decide
  rw [isLarge_or, small, Bool.or_false]

theorem address_or_user (e : Word) : (e ||| pteUser) &&& pteAddrMask = e &&& pteAddrMask :=
  or_flags_address e (by decide)

theorem child_or_user (n : Nat) (e : Word) : child n (e ||| pteUser) = child n e := by
  simp only [child, isPresent_or_user, isLarge_or_user, address_or_user]

def VmState.tableAt (s : VmState) : List Nat → Option Word := TableTree.tableAt child s.pml4 s.mem

def VmState.entryAt (s : VmState) : List Nat → Nat → Option Word :=
  TableTree.entryAt child s.pml4 s.mem

/-- The present large entry at a slot of a page directory. -/
def VmState.largeAt (s : VmState) (p : List Nat) (i : Nat) : Option Word :=
  (s.entryAt p i).filter fun e => isPresent e && isLarge e

/-- The present entry at a slot of a page table. -/
def VmState.leafAt (s : VmState) (p : List Nat) (i : Nat) : Option Word :=
  (s.entryAt p i).filter isPresent

/-- The tables form a tree and `frames` lies outside it. -/
structure Tree (s : VmState) : Prop where
  unshared : Unshared child s.pml4 3 s.mem
  outside : ∀ f ∈ s.frames, ∀ q, q.length ≤ 3 → s.tableAt q ≠ some f
  distinct : s.frames.Nodup
  frame : ∀ f ∈ s.frames, IsFrame f

/-- What a walk finds: a large leaf, a page leaf or nothing. -/
def found (s : VmState) (virt : Word) : Word :=
  match s.largeAt [pdptIndex virt, pml4Index virt] (pdIndex virt) with
  | some e => (e &&& ~~~largePageMask) ||| (virt &&& largePageMask)
  | none =>
    match s.leafAt [pdIndex virt, pdptIndex virt, pml4Index virt] (ptIndex virt) with
    | some e => (e &&& pteAddrMask) ||| (virt &&& pageMask)
    | none => invalidPhys

theorem mmGetPhysicalAddress_eq (s : VmState) (virt : Word) :
    mmGetPhysicalAddress s virt = found s virt := by
  simp only [mmGetPhysicalAddress, found, VmState.largeAt, VmState.leafAt, VmState.entryAt,
    TableTree.entryAt, TableTree.tableAt, child, List.length_nil, List.length_cons,
    Option.bind_some]
  generalize s.mem s.pml4 (pml4Index virt) = pml4e
  cases h1 : isPresent pml4e with
  | false => simp
  | true =>
    simp only [Bool.not_true, Bool.false_eq_true, ↓reduceIte, Bool.not_eq_eq_eq_not,
      OfNat.zero_ne_ofNat, false_and, not_false_eq_true, and_self, zero_add, OfNat.one_ne_ofNat,
      and_true, Option.bind_some, Option.map_if, true_and, Bool.not_eq_true, Option.map_bind]
    generalize s.mem (pml4e &&& pteAddrMask) (pdptIndex virt) = pdpte
    cases h2 : isPresent pdpte with
    | false => simp
    | true =>
      simp only [Bool.true_eq_false, ↓reduceIte, Option.bind_some, Function.comp_apply,
        Option.map_if]
      generalize s.mem (pdpte &&& pteAddrMask) (pdIndex virt) = pde
      cases h3 : isPresent pde with
      | false => simp [Option.filter, h3]
      | true =>
        cases h4 : isLarge pde with
        | true => simp [Option.filter, h3, h4]
        | false =>
          simp only [Bool.true_eq_false, ↓reduceIte, Bool.false_eq_true, Option.filter, h3, h4,
            Bool.and_false, and_self]
          generalize s.mem (pde &&& pteAddrMask) (ptIndex virt) = pte
          cases isPresent pte <;> simp

/-- `u` has every table of `s`, perhaps more, and the same leaves. -/
structure Extends (s u : VmState) : Prop where
  tree : Tree u
  pml4 : u.pml4 = s.pml4
  tables : ∀ q t, q.length ≤ 3 → s.tableAt q = some t → u.tableAt q = some t
  large : ∀ q i, q.length = 2 → u.largeAt q i = s.largeAt q i
  leaf : ∀ q i, q.length = 3 → u.leafAt q i = s.leafAt q i

theorem Extends.trans {s u v : VmState} (first : Extends s u) (second : Extends u v) :
    Extends s v where
  tree := second.tree
  pml4 := second.pml4.trans first.pml4
  tables := fun q t hq h => second.tables q t hq (first.tables q t hq h)
  large := fun q i hq => (second.large q i hq).trans (first.large q i hq)
  leaf := fun q i hq => (second.leaf q i hq).trans (first.leaf q i hq)

/-- The same leaves give the same translations. -/
theorem found_congr {s u : VmState} (large : ∀ q i, q.length = 2 → u.largeAt q i = s.largeAt q i)
    (leaf : ∀ q i, q.length = 3 → u.leafAt q i = s.leafAt q i) (virt : Word) :
    mmGetPhysicalAddress u virt = mmGetPhysicalAddress s virt := by
  rw [mmGetPhysicalAddress_eq, mmGetPhysicalAddress_eq, found, found, large _ _ rfl, leaf _ _ rfl]

theorem Extends.translation {s u : VmState} (extend : Extends s u) (virt : Word) :
    mmGetPhysicalAddress u virt = mmGetPhysicalAddress s virt :=
  found_congr extend.large extend.leaf virt

section Step

variable {s : VmState} {p : List Nat} {t : Word}

theorem entryAt_of (here : s.tableAt p = some t) (i : Nat) : s.entryAt p i = some (s.mem t i) :=
  congrArg (Option.map fun t => s.mem t i) here

/-- Setting the user bit of an entry above the leaves. -/
theorem Extends.setUser (tree : Tree s) (here : s.tableAt p = some t) (short : p.length ≤ 2)
    {i : Nat} (small : p.length = 2 → isLarge (s.mem t i) = false) :
    Extends s (s.write t i (s.mem t i ||| pteUser)) := by
  have short3 : p.length ≤ 3 := Nat.le_succ_of_le short
  have same := tableAt_write_same tree.unshared here short3 (i := i)
    (fun _ => child_or_user p.length (s.mem t i))
  have entries : ∀ q j, q.length ≤ 3 →
      (s.write t i (s.mem t i ||| pteUser)).entryAt q j =
        if q = p ∧ j = i then some (s.mem t i ||| pteUser) else s.entryAt q j :=
    fun q j hq => entryAt_write tree.unshared here short3 hq (same q hq) j
  have old := entryAt_of here i
  refine ⟨⟨tree.unshared.of_same same, ?_, tree.distinct, tree.frame⟩, rfl, ?_, ?_, ?_⟩
  · intro f hf q hq
    rw [show (s.write t i (s.mem t i ||| pteUser)).tableAt q = s.tableAt q from same q hq]
    exact tree.outside f hf q hq
  · intro q u hq h
    exact (same q hq).trans h
  · intro q j hq
    rw [VmState.largeAt, VmState.largeAt, entries q j (by omega)]
    by_cases slot : q = p ∧ j = i
    · obtain ⟨rfl, rfl⟩ := slot
      rw [if_pos ⟨rfl, rfl⟩, old]
      simp [Option.filter, isLarge_or_user, small hq]
    · rw [if_neg slot]
  · intro q j hq
    rw [VmState.leafAt, VmState.leafAt, entries q j (by omega), if_neg]
    rintro ⟨rfl, -⟩
    omega

theorem Extends.newTable (tree : Tree s) (here : s.tableAt p = some t) (short : p.length ≤ 2)
    {i : Nat} (absent : isPresent (s.mem t i) = false) {f : Word} {frames : List Word}
    (next : s.frames = f :: frames) :
    Extends s ⟨TableTree.write (fill s.mem f 0) t i (tableEntry f), s.pml4, frames⟩ ∧
      (VmState.mk (TableTree.write (fill s.mem f 0) t i (tableEntry f)) s.pml4 frames).tableAt
        (i :: p) = some f := by
  have short3 : p.length ≤ 3 := Nat.le_succ_of_le short
  have mem : f ∈ s.frames := by
    rw [next]
    exact List.mem_cons_self
  have fresh := tree.outside f mem
  have frame := tree.frame f mem
  have vacant : child p.length (s.mem t i) = none := child_absent absent
  have grown := tableAt_grow tree.unshared here short3 fresh vacant
    (child_tableEntry frame p.length) child_zero
  have distinct := tree.distinct
  rw [next, List.nodup_cons] at distinct
  have below : s.tableAt (i :: p) = none := by
    rw [VmState.tableAt, tableAt_cons here]
    exact vacant
  have entries : ∀ q j, q.length ≤ 3 →
      (VmState.mk (TableTree.write (fill s.mem f 0) t i (tableEntry f)) s.pml4 frames).entryAt q j =
        if q = i :: p then some 0 else if q = p ∧ j = i then some (tableEntry f)
        else s.entryAt q j :=
    fun q j hq => entryAt_grow tree.unshared here short3 fresh hq (grown q hq) j
  have old := entryAt_of here i
  have none : ∀ j, s.entryAt (i :: p) j = none := by
    intro j
    rw [VmState.entryAt, TableTree.entryAt]
    exact congrArg (Option.map fun t => s.mem t j) below
  refine ⟨⟨⟨tree.unshared.of_grown fresh grown, ?_, distinct.2, ?_⟩, rfl, ?_, ?_, ?_⟩, ?_⟩
  · intro g hg q hq h
    rw [VmState.tableAt, grown q hq] at h
    split at h
    · obtain rfl := Option.some.inj h
      exact distinct.1 hg
    · exact tree.outside g (by rw [next]; exact List.mem_cons_of_mem f hg) q hq h
  · intro g hg
    exact tree.frame g (by rw [next]; exact List.mem_cons_of_mem f hg)
  · intro q u hq h
    rw [VmState.tableAt, grown q hq, if_neg]
    · exact h
    · rintro rfl
      rw [below] at h
      exact absurd h (by simp)
  · intro q j hq
    rw [VmState.largeAt, VmState.largeAt, entries q j (by omega)]
    by_cases new : q = i :: p
    · rw [if_pos new, new, none]
      rfl
    · rw [if_neg new]
      by_cases slot : q = p ∧ j = i
      · obtain ⟨rfl, rfl⟩ := slot
        rw [if_pos ⟨rfl, rfl⟩, old]
        simp [Option.filter, isLarge_tableEntry frame, absent]
      · rw [if_neg slot]
  · intro q j hq
    rw [VmState.leafAt, VmState.leafAt, entries q j (by omega)]
    by_cases new : q = i :: p
    · rw [if_pos new, new, none]
      rfl
    · rw [if_neg new, if_neg]
      rintro ⟨rfl, -⟩
      omega
  · rw [VmState.tableAt, grown (i :: p) (by simp; omega), if_pos rfl]

/-- `next_table` makes a table from the next free frame, or sets the user bit of the entry. -/
theorem nextTable_cases {i : Nat} {x : Word} {u : VmState}
    (step : nextTable s t i = some (x, u)) :
    (isPresent (s.mem t i) = false ∧ ∃ frames, s.frames = x :: frames ∧
      u = ⟨TableTree.write (fill s.mem x 0) t i (tableEntry x), s.pml4, frames⟩) ∨
    (isPresent (s.mem t i) = true ∧ x = (s.mem t i ||| pteUser) &&& pteAddrMask ∧
      u = s.write t i (s.mem t i ||| pteUser)) := by
  simp only [nextTable] at step
  cases present : isPresent (s.mem t i) with
  | false =>
    simp only [present, Bool.not_false, if_true, allocZeroedTable] at step
    cases next : s.frames with
    | nil =>
      rw [next] at step
      exact absurd step (by simp)
    | cons f frames =>
      rw [next] at step
      obtain ⟨rfl, rfl⟩ := Prod.mk.inj (Option.some.inj step)
      exact Or.inl ⟨rfl, frames, rfl, rfl⟩
  | true =>
    simp only [present, Bool.not_true, Bool.false_eq_true, if_false] at step
    obtain ⟨rfl, rfl⟩ := Prod.mk.inj (Option.some.inj step)
    exact Or.inr ⟨rfl, rfl, rfl⟩

/-- One step of a walk that makes what is missing. -/
theorem nextTable_extends (tree : Tree s) (here : s.tableAt p = some t) (short : p.length ≤ 2)
    {i : Nat} (small : p.length = 2 → isLarge (s.mem t i) = false) {x : Word} {u : VmState}
    (step : nextTable s t i = some (x, u)) : Extends s u ∧ u.tableAt (i :: p) = some x := by
  obtain ⟨absent, frames, next, rfl⟩ | ⟨present, rfl, rfl⟩ := nextTable_cases step
  · exact Extends.newTable tree here short absent next
  · have extend := Extends.setUser tree here short small
    refine ⟨extend, extend.tables _ _ (by simp; omega) ?_⟩
    rw [VmState.tableAt, tableAt_cons here, child, if_pos, address_or_user]
    refine ⟨present, ?_⟩
    rintro ⟨two, large⟩
    rw [small two] at large
    exact absurd large (by decide)

/-- Writing an entry of a page table. -/
structure LeafWritten (s u : VmState) (p : List Nat) (i : Nat) (e : Word) : Prop where
  tree : Tree u
  pml4 : u.pml4 = s.pml4
  large : ∀ q j, q.length = 2 → u.largeAt q j = s.largeAt q j
  leaf : ∀ q j, q.length = 3 → u.leafAt q j =
    if q = p ∧ j = i then (some e).filter isPresent else s.leafAt q j

theorem LeafWritten.of_write (tree : Tree s) (here : s.tableAt p = some t) (three : p.length = 3)
    (i : Nat) (e : Word) : LeafWritten s (s.write t i e) p i e := by
  have same := tableAt_write_leaf tree.unshared here three i e
  have entries : ∀ q j, q.length ≤ 3 → (s.write t i e).entryAt q j =
      if q = p ∧ j = i then some e else s.entryAt q j :=
    fun q j hq => entryAt_write tree.unshared here (Nat.le_of_eq three) hq (same q hq) j
  refine ⟨⟨tree.unshared.of_same same, ?_, tree.distinct, tree.frame⟩, rfl, ?_, ?_⟩
  · intro f hf q hq
    rw [show (s.write t i e).tableAt q = s.tableAt q from same q hq]
    exact tree.outside f hf q hq
  · intro q j hq
    rw [VmState.largeAt, VmState.largeAt, entries q j (by omega), if_neg]
    rintro ⟨rfl, -⟩
    omega
  · intro q j hq
    rw [VmState.leafAt, entries q j (by omega)]
    split
    · rfl
    · rfl

end Step

/-- The tables on the way to a page, and its slot in the last of them. -/
def path (virt : Word) : List Nat := [pdIndex virt, pdptIndex virt, pml4Index virt]

/-- The two upper steps of every walk. -/
theorem upper_extends {s s₁ s₂ : VmState} (tree : Tree s) {a b : Nat} {pdpt pd : Word}
    (first : nextTable s s.pml4 a = some (pdpt, s₁))
    (second : nextTable s₁ pdpt b = some (pd, s₂)) :
    Extends s s₂ ∧ s₂.tableAt [b, a] = some pd := by
  have root : s.tableAt [] = some s.pml4 := rfl
  obtain ⟨extend₁, here₁⟩ := nextTable_extends tree root (by simp) (by simp) first
  obtain ⟨extend₂, here₂⟩ := nextTable_extends extend₁.tree here₁ (by simp) (by simp) second
  exact ⟨extend₁.trans extend₂, here₂⟩

/-- The entry `MmMapPage` writes. -/
def pageEntry (phys flags : Word) : Word := (phys &&& pteAddrMask) ||| flags ||| ptePresent

/-- `MmMapPage` walks down two tables. It fails at a large entry, and otherwise takes one step
more and writes the page's entry. -/
theorem mmMapPage_cases {s u : VmState} {virt phys flags : Word} {done : Bool}
    (step : mmMapPage s virt phys flags = some (done, u)) :
    ∃ pdpt s₁ pd s₂, nextTable s s.pml4 (pml4Index virt) = some (pdpt, s₁) ∧
      nextTable s₁ pdpt (pdptIndex virt) = some (pd, s₂) ∧
      ((isLarge (s₂.mem pd (pdIndex virt)) = true ∧ done = false ∧ u = s₂) ∨
        (isLarge (s₂.mem pd (pdIndex virt)) = false ∧ done = true ∧
          ∃ pt s₃, nextTable s₂ pd (pdIndex virt) = some (pt, s₃) ∧
            u = s₃.write pt (ptIndex virt) (pageEntry phys flags))) := by
  simp only [mmMapPage, Option.bind_eq_bind, Option.bind_eq_some_iff] at step
  obtain ⟨⟨pdpt, s₁⟩, first, ⟨pd, s₂⟩, second, step⟩ := step
  refine ⟨pdpt, s₁, pd, s₂, first, second, ?_⟩
  dsimp only at step
  cases large : isLarge (s₂.mem pd (pdIndex virt)) with
  | true =>
    simp only [large, if_true] at step
    obtain ⟨rfl, rfl⟩ := Prod.mk.inj (Option.some.inj step)
    exact Or.inl ⟨rfl, rfl, rfl⟩
  | false =>
    simp only [large, Bool.false_eq_true, if_false, Option.bind_eq_some_iff] at step
    obtain ⟨⟨pt, s₃⟩, third, step⟩ := step
    obtain ⟨rfl, rfl⟩ := Prod.mk.inj (Option.some.inj step)
    exact Or.inr ⟨rfl, rfl, pt, s₃, third, rfl⟩

theorem mmMapPage_spec {s u : VmState} (tree : Tree s) {virt phys flags : Word} {done : Bool}
    (step : mmMapPage s virt phys flags = some (done, u)) :
    if done then
      s.largeAt [pdptIndex virt, pml4Index virt] (pdIndex virt) = none ∧
        LeafWritten s u (path virt) (ptIndex virt) (pageEntry phys flags)
    else Extends s u := by
  obtain ⟨pdpt, s₁, pd, s₂, first, second, rest⟩ := mmMapPage_cases step
  obtain ⟨extend, here⟩ := upper_extends tree first second
  obtain ⟨-, rfl, rfl⟩ | ⟨large, rfl, pt, s₃, third, rfl⟩ := rest
  · exact extend
  · obtain ⟨extend₃, here₃⟩ := nextTable_extends extend.tree here (by simp)
      (fun _ => large) third
    have whole := extend.trans extend₃
    have written := LeafWritten.of_write extend₃.tree here₃ rfl (ptIndex virt)
      (pageEntry phys flags)
    rw [if_pos rfl]
    refine ⟨?_, written.tree, written.pml4.trans whole.pml4, ?_, ?_⟩
    · rw [← extend.large _ _ rfl, VmState.largeAt, entryAt_of here]
      simp [Option.filter, large]
    · intro q j hq
      exact (written.large q j hq).trans (whole.large q j hq)
    · intro q j hq
      rw [← whole.leaf q j hq]
      exact written.leaf q j hq

/-- A walk over existing tables. -/
theorem tableAt_path {s : VmState} {virt : Word}
    (h1 : isPresent (s.mem s.pml4 (pml4Index virt)) = true)
    (h2 : isPresent (s.mem (s.mem s.pml4 (pml4Index virt) &&& pteAddrMask) (pdptIndex virt)) = true)
    (h3 : isPresent (s.mem (s.mem (s.mem s.pml4 (pml4Index virt) &&& pteAddrMask)
      (pdptIndex virt) &&& pteAddrMask) (pdIndex virt)) = true)
    (h4 : isLarge (s.mem (s.mem (s.mem s.pml4 (pml4Index virt) &&& pteAddrMask)
      (pdptIndex virt) &&& pteAddrMask) (pdIndex virt)) = false) :
    s.tableAt (path virt) = some (s.mem (s.mem (s.mem s.pml4 (pml4Index virt) &&& pteAddrMask)
      (pdptIndex virt) &&& pteAddrMask) (pdIndex virt) &&& pteAddrMask) ∧
    s.largeAt [pdptIndex virt, pml4Index virt] (pdIndex virt) = none := by
  simp [VmState.tableAt, VmState.largeAt, VmState.entryAt, TableTree.entryAt, path,
    TableTree.tableAt, child, h1, h2, h3, h4, Option.filter]

theorem mmUnmapPage_spec {s u : VmState} (tree : Tree s) {virt : Word} {done : Bool}
    (step : mmUnmapPage s virt = (done, u)) :
    if done then
      s.largeAt [pdptIndex virt, pml4Index virt] (pdIndex virt) = none ∧
        LeafWritten s u (path virt) (ptIndex virt) 0
    else u = s := by
  simp only [mmUnmapPage] at step
  split at step
  · obtain ⟨rfl, rfl⟩ := Prod.mk.inj step
    exact rfl
  · rename_i h1
    split at step
    · obtain ⟨rfl, rfl⟩ := Prod.mk.inj step
      exact rfl
    · rename_i h2
      split at step
      · obtain ⟨rfl, rfl⟩ := Prod.mk.inj step
        exact rfl
      · rename_i h3
        obtain ⟨rfl, rfl⟩ := Prod.mk.inj step
        simp only [Bool.not_eq_true, Bool.not_eq_false', Bool.or_eq_false_iff] at h1 h2 h3
        obtain ⟨here, none⟩ := tableAt_path h1 h2 h3.1 h3.2
        rw [if_pos rfl]
        exact ⟨none, LeafWritten.of_write tree here rfl _ 0⟩

/-- The upper bits repeat bit 47. -/
def Canonical (virt : Word) : Prop := virt.toNat < 2 ^ 47 ∨ 2 ^ 64 - 2 ^ 47 ≤ virt.toNat

def pageOf (virt : Word) : Nat := virt.toNat / 0x1000

theorem index_eq (virt : Word) (k : Nat) :
    ((virt >>> k) &&& 0x1FF#64).toNat = virt.toNat / 2 ^ k % 512 := by
  rw [BitVec.toNat_and, BitVec.toNat_ushiftRight, Nat.shiftRight_eq_div_pow]
  exact Nat.and_two_pow_sub_one_eq_mod _ 9

theorem slot_of_page {v w : Word} (same : pageOf w = pageOf v) :
    path w = path v ∧ ptIndex w = ptIndex v := by
  simp only [pageOf] at same
  simp only [path, pdIndex, pdptIndex, pml4Index, ptIndex, index_eq]
  have h1 : w.toNat / 2 ^ 12 = v.toNat / 2 ^ 12 := same
  have h2 : w.toNat / 2 ^ 21 = v.toNat / 2 ^ 21 := by omega
  have h3 : w.toNat / 2 ^ 30 = v.toNat / 2 ^ 30 := by omega
  have h4 : w.toNat / 2 ^ 39 = v.toNat / 2 ^ 39 := by omega
  rw [h1, h2, h3, h4]
  exact ⟨rfl, rfl⟩

/-- Among canonical addresses the slot determines the page. -/
theorem page_of_slot {v w : Word} (hv : Canonical v) (hw : Canonical w)
    (tables : path w = path v) (slot : ptIndex w = ptIndex v) : pageOf w = pageOf v := by
  simp only [path, List.cons.injEq, and_true] at tables
  obtain ⟨pd, pdpt, pml4⟩ := tables
  simp only [pdIndex, pdptIndex, pml4Index, ptIndex, index_eq] at pd pdpt pml4 slot
  simp only [Canonical] at hv hw
  simp only [pageOf]
  have := v.isLt
  have := w.isLt
  omega

variable {u : VmState}

/-- The large entries of `u`'s page directories were there in `s`. -/
def LargeFrom (s u : VmState) : Prop :=
  ∀ q j e, q.length = 2 → u.entryAt q j = some e → isLarge e = true →
    ∃ e', s.entryAt q j = some e' ∧ isLarge e' = true

theorem LargeFrom.trans {v : VmState} (first : LargeFrom s u) (second : LargeFrom u v) :
    LargeFrom s v := by
  intro q j e hq entry large
  obtain ⟨e', entry', large'⟩ := second q j e hq entry large
  exact first q j e' hq entry' large'

theorem nextTable_large (tree : Tree s) {p : List Nat} {t x : Word} {i : Nat}
    (here : s.tableAt p = some t) (short : p.length ≤ 2)
    (step : nextTable s t i = some (x, u)) : LargeFrom s u := by
  have short3 : p.length ≤ 3 := Nat.le_succ_of_le short
  intro q j e hq entry large
  obtain ⟨absent, frames, next, rfl⟩ | ⟨-, -, rfl⟩ := nextTable_cases step
  · have member : x ∈ s.frames := by
      rw [next]
      exact List.mem_cons_self
    have fresh := tree.outside x member
    have frame := tree.frame x member
    have grown := tableAt_grow tree.unshared here short3 fresh (child_absent absent)
      (child_tableEntry frame p.length) child_zero
    have value := entryAt_grow tree.unshared here short3 fresh (by omega : q.length ≤ 3)
      (grown q (by omega)) j
    have entry := value.symm.trans entry
    split at entry
    · obtain rfl := Option.some.inj entry
      exact absurd large (by decide)
    · split at entry
      · obtain rfl := Option.some.inj entry
        rw [isLarge_tableEntry frame] at large
        exact absurd large (by decide)
      · exact ⟨e, entry, large⟩
  · have same := tableAt_write_same tree.unshared here short3 (i := i)
      (fun _ => child_or_user p.length (s.mem t i))
    have value := entryAt_write tree.unshared here short3 (by omega : q.length ≤ 3)
      (same q (by omega)) j
    have entry := value.symm.trans entry
    split at entry
    · rename_i slot
      obtain ⟨rfl, rfl⟩ := slot
      obtain rfl := Option.some.inj entry
      rw [isLarge_or_user] at large
      exact ⟨_, entryAt_of here j, large⟩
    · exact ⟨e, entry, large⟩

theorem upper_large {s₁ s₂ : VmState} (tree : Tree s) {a b : Nat} {pdpt pd : Word}
    (first : nextTable s s.pml4 a = some (pdpt, s₁))
    (second : nextTable s₁ pdpt b = some (pd, s₂)) : LargeFrom s s₂ := by
  have root : s.tableAt [] = some s.pml4 := rfl
  obtain ⟨extend₁, here₁⟩ := nextTable_extends tree root (by simp) (by simp) first
  exact (nextTable_large tree root (by simp) first).trans
    (nextTable_large extend₁.tree here₁ (by simp) second)

theorem mmMapPage_large (tree : Tree s) {virt phys flags : Word} {done : Bool}
    (step : mmMapPage s virt phys flags = some (done, u)) : LargeFrom s u := by
  obtain ⟨pdpt, s₁, pd, s₂, first, second, rest⟩ := mmMapPage_cases step
  obtain ⟨extend, here⟩ := upper_extends tree first second
  have upper := upper_large tree first second
  obtain ⟨-, -, rfl⟩ | ⟨large, -, pt, s₃, third, rfl⟩ := rest
  · exact upper
  · obtain ⟨extend₃, here₃⟩ := nextTable_extends extend.tree here (by simp)
      (fun _ => large) third
    refine (upper.trans (nextTable_large extend.tree here (by simp) third)).trans ?_
    intro q j e hq entry big
    have same := tableAt_write_leaf extend₃.tree.unshared here₃ rfl (ptIndex virt)
      (pageEntry phys flags) q (by omega)
    have value := entryAt_write extend₃.tree.unshared here₃ (Nat.le_refl 3)
      (by omega : q.length ≤ 3) same j
    have entry := value.symm.trans entry
    rw [if_neg] at entry
    · exact ⟨e, entry, big⟩
    · rintro ⟨rfl, -⟩
      exact absurd hq (by simp)

/-- The directory entry for an address is not a large one. -/
def NoLarge (s : VmState) (virt : Word) : Prop :=
  ∀ e, s.entryAt [pdptIndex virt, pml4Index virt] (pdIndex virt) = some e → isLarge e = false

theorem NoLarge.keep {virt : Word} (none : NoLarge s virt) (large : LargeFrom s u) :
    NoLarge u virt := by
  intro e entry
  by_contra big
  obtain ⟨e', entry', large'⟩ := large _ _ e rfl entry (by simpa using big)
  rw [none e' entry'] at large'
  exact absurd large' (by decide)

theorem NoLarge.done {virt phys flags : Word} {done : Bool} (none : NoLarge s virt)
    (tree : Tree s) (step : mmMapPage s virt phys flags = some (done, u)) : done = true := by
  obtain ⟨pdpt, s₁, pd, s₂, first, second, rest⟩ := mmMapPage_cases step
  obtain ⟨extend, here⟩ := upper_extends tree first second
  have fine := none.keep (upper_large tree first second) _ (entryAt_of here (pdIndex virt))
  obtain ⟨large, -, -⟩ | ⟨-, done, -⟩ := rest
  · exact absurd (fine.symm.trans large) (by decide)
  · exact done

/-- A step adds the table it leads to, and no other. -/
theorem nextTable_tableAt (tree : Tree s) {p q : List Nat} {t x : Word} {i : Nat}
    (here : s.tableAt p = some t) (short : p.length ≤ 2) (step : nextTable s t i = some (x, u))
    (hq : q.length ≤ 3) (other : q ≠ i :: p) : u.tableAt q = s.tableAt q := by
  have short3 : p.length ≤ 3 := Nat.le_succ_of_le short
  obtain ⟨absent, rest, next, rfl⟩ | ⟨-, -, rfl⟩ := nextTable_cases step
  · have member : x ∈ s.frames := by
      rw [next]
      exact List.mem_cons_self
    exact (tableAt_grow tree.unshared here short3 (tree.outside x member) (child_absent absent)
      (child_tableEntry (tree.frame x member) p.length) child_zero q hq).trans (if_neg other)
  · exact tableAt_write_same tree.unshared here short3 (fun _ => child_or_user p.length (s.mem t i)) q hq

end Mm
