import Svindows.W32k.Objects

/-!
# Deleting GDI objects

Every service but one resolves a handle with `gdi_object`, which compares the upper
half of the handle with the one kept in the slot. `NtGdiDeleteObjectApp` takes the
index alone.
-/

namespace W32k

open Nt

/-- What is to become of a table when the object of slot `i` is deleted: the slot and its
cell are free, the pixels of a bitmap go back to the pool, and all else stays. -/
structure Deletes (s : GdiState) (i : Nat) (t : GdiState) : Prop where
  objects : t.objects = Function.update s.objects i { s.objects i with live := false }
  cells : t.cells = Function.update s.cells i zeroCell
  storage : ∀ b, (∃ bitmap, s.LiveBitmap i bitmap ∧ bitmap.storage = some b) → t.blocks b = none
  blocks : ∀ b, (∀ bitmap, s.LiveBitmap i bitmap → bitmap.storage ≠ some b) →
    t.blocks b = s.blocks b
  pixels : t.pixels = s.pixels
  windowDc : t.windowDc = s.windowDc
  nextIndex : t.nextIndex = s.nextIndex
  attrNext : t.attrNext = s.attrNext

/-- A deletion meets the object that the handle denotes, and nothing when there is none. -/
def DeletesDenoted (s : GdiState) (handle : Nat) : Prop :=
  (∀ i, gdiObject s handle none = some i →
    (ntGdiDeleteObjectApp s handle).1 = 1 ∧ Deletes s i (ntGdiDeleteObjectApp s handle).2) ∧
  (gdiObject s handle none = none → ntGdiDeleteObjectApp s handle = (0, s))

/-- The index of the handle is that of a live object. -/
def LiveIndex (s : GdiState) (handle : Nat) : Prop :=
  handle % 0x10000 ≠ 0 ∧ handle % 0x10000 < gdiMaxObjects ∧
    (s.objects (handle % 0x10000)).live = true

/-- The upper half of the handle is the one of the slot. -/
def UpperMatches (s : GdiState) (handle : Nat) : Prop :=
  (s.objects (handle % 0x10000)).upper = handle / 0x10000 % 0x10000

theorem gdiObject_any {s : GdiState} {handle i : Nat} :
    gdiObject s handle none = some i ↔
      i = handle % 0x10000 ∧ LiveIndex s handle ∧ UpperMatches s handle := by
  simp only [gdiObject, LiveIndex, UpperMatches, ne_eq, not_true_eq_false, false_and, or_false,
    ite_not]
  split
  · rename_i outside
    refine iff_of_false (by simp) ?_
    rintro ⟨-, ⟨some_, fits, -⟩, -⟩
    omega
  · rename_i inside
    push Not at inside
    by_cases live : (s.objects (handle % 0x10000)).live = false
    · rw [if_pos live]
      exact iff_of_false (by simp) fun h => absurd (live.symm.trans h.2.1.2.2) Bool.false_ne_true
    · rw [if_neg live]
      by_cases upper : (s.objects (handle % 0x10000)).upper = handle / 0x10000 % 0x10000
      · rw [if_pos upper]
        have here : LiveIndex s handle := ⟨inside.1, inside.2, by simpa using live⟩
        exact ⟨fun h => ⟨(Option.some.inj h).symm, here, upper⟩, fun h => congrArg some h.1.symm⟩
      · rw [if_neg upper]
        exact iff_of_false (by simp) fun h => upper h.2.2

/-- Without a live object at the index nothing happens. -/
theorem deleteObjectApp_dead {s : GdiState} {handle : Nat} (dead : ¬LiveIndex s handle) :
    ntGdiDeleteObjectApp s handle = (0, s) := by
  simp only [ntGdiDeleteObjectApp]
  split
  · rfl
  · rename_i index
    push Not at index
    split
    · rfl
    · rename_i live
      exact absurd ⟨index.1, index.2, by simpa using live⟩ dead

/-- With one the deletion goes through, whatever the upper half says. -/
theorem LiveIndex.deletes {s : GdiState} {handle : Nat} (live : LiveIndex s handle) :
    (ntGdiDeleteObjectApp s handle).1 = 1 ∧
      Deletes s (handle % 0x10000) (ntGdiDeleteObjectApp s handle).2 := by
  obtain ⟨some_, fits, here⟩ := live
  have valid : ¬(handle % 0x10000 = 0 ∨ gdiMaxObjects ≤ handle % 0x10000 ∨
      (s.objects (handle % 0x10000)).live = false) := by
    rw [here]
    simp only [Bool.true_eq_false, or_false, not_or, not_le]
    exact ⟨some_, fits⟩
  simp only [ntGdiDeleteObjectApp, if_neg (not_or.mpr ⟨some_, not_le.mpr fits⟩), here,
    Bool.true_eq_false, if_false]
  refine ⟨trivial, ?_⟩
  split
  · rename_i surface b body
    have freed : gdiFree (exFreePool s b) handle = _ := if_neg valid
    rw [freed]
    refine ⟨rfl, rfl, ?_, ?_, rfl, rfl, rfl, rfl⟩
    · rintro b' ⟨bitmap, ⟨-, also⟩, stored⟩
      have same := body.symm.trans also
      cases same
      cases stored
      exact Function.update_self b none s.blocks
    · intro b' other
      have differ : b' ≠ b := by
        rintro rfl
        exact other _ ⟨here, body⟩ rfl
      exact Function.update_of_ne differ none s.blocks
  · rename_i plain
    have freed : gdiFree s handle = _ := if_neg valid
    rw [freed]
    refine ⟨rfl, rfl, ?_, fun _ _ => rfl, rfl, rfl, rfl, rfl⟩
    rintro b ⟨bitmap, ⟨-, also⟩, stored⟩
    obtain ⟨surface, storage⟩ := bitmap
    cases stored
    exact absurd also (plain surface b)

/-- A deletion keeps to the object its handle denotes exactly when there is no live
object at the index or the upper halves agree. -/
theorem deletes_denoted (s : GdiState) (handle : Nat) :
    DeletesDenoted s handle ↔ ¬LiveIndex s handle ∨ UpperMatches s handle := by
  by_cases live : LiveIndex s handle
  · rw [or_iff_right (not_not.mpr live)]
    constructor
    · intro denoted
      by_contra upper
      have nothing : gdiObject s handle none = none := by
        refine Option.eq_none_iff_forall_not_mem.mpr fun i found => upper ?_
        exact (gdiObject_any.mp found).2.2
      have refused := congrArg Prod.fst (denoted.2 nothing)
      rw [live.deletes.1] at refused
      exact absurd refused Nat.one_ne_zero
    · intro upper
      have resolved := gdiObject_any.mpr ⟨rfl, live, upper⟩
      refine ⟨fun i found => ?_, fun nothing => ?_⟩
      · rw [(gdiObject_any.mp found).1]
        exact live.deletes
      · exact absurd (nothing.symm.trans resolved) (by simp)
  · refine iff_of_true ⟨fun i found => ?_, fun _ => deleteObjectApp_dead live⟩ (.inl live)
    exact absurd (gdiObject_any.mp found).2.1 live

/-- A table whose only object is a bitmap of one pixel, with the handle 0x50001. -/
def oneBitmap : GdiState := (ntGdiCreateBitmap bootGdi 1 1 true).2

/-- The handle of a brush that never was takes the bitmap and its pixels. -/
theorem forged_handle_deletes_bitmap :
    ¬DeletesDenoted oneBitmap 0x100001 ∧
    (gdiObject oneBitmap 0x100001 none = none ∧ oneBitmap.blocks 0 = some 4) ∧
    (ntGdiDeleteObjectApp oneBitmap 0x100001).1 = 1 ∧
    gdiObject (ntGdiDeleteObjectApp oneBitmap 0x100001).2 0x50001 none = none ∧
    (ntGdiDeleteObjectApp oneBitmap 0x100001).2.blocks 0 = none := by
  have nothing : gdiObject oneBitmap 0x100001 none = none := by decide
  have deleted : (ntGdiDeleteObjectApp oneBitmap 0x100001).1 = 1 := by decide
  refine ⟨fun denoted => ?_, ⟨nothing, by decide⟩, deleted, by decide, by decide⟩
  have refused := congrArg Prod.fst (denoted.2 nothing)
  rw [deleted] at refused
  exact absurd refused Nat.one_ne_zero

end W32k
