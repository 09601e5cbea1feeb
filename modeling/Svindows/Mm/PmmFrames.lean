import Svindows.Mm.Pmm

/-!
# What the page allocator does to the set of free frames
-/

namespace Pmm

open Nt

def freeFrames (s : PmmState) : Finset Nat := Bitmap.clearBelow s.bitmap s.totalPages

/-- The bitmap covers every frame, and the counters count its bits. -/
structure Accounted (s : PmmState) : Prop where
  covers : s.totalPages ≤ 8 * s.bitmapBytes
  small : s.totalPages < 2 ^ 52
  free : s.freePages = (freeFrames s).card
  used : s.usedPages = s.totalPages - s.freePages
  hint : s.nextHint ≤ s.totalPages

variable {s u : PmmState} {f n : Nat} {b : Bool}

theorem Accounted.freePages_le (accounted : Accounted s) : s.freePages ≤ s.totalPages := by
  rw [accounted.free]
  exact Bitmap.clearBelow_card_le s.bitmap s.totalPages

theorem mem_freeFrames : f ∈ freeFrames s ↔ f < s.totalPages ∧ Bitmap.bit s.bitmap f = false :=
  Bitmap.mem_clearBelow

theorem byte_covered (covers : s.totalPages ≤ 8 * s.bitmapBytes) {f : Nat}
    (below : f < s.totalPages) : f / 8 < s.bitmapBytes := by
  omega

theorem bitTest_eq (covers : s.totalPages ≤ 8 * s.bitmapBytes) {f : Nat}
    (below : f < s.totalPages) : bitTest f s = some (Bitmap.bit s.bitmap f) :=
  if_pos (byte_covered covers below)

theorem bitSet_eq (covers : s.totalPages ≤ 8 * s.bitmapBytes) {f : Nat} (below : f < s.totalPages) :
    bitSet f s = some { s with bitmap := Bitmap.setBit s.bitmap f } :=
  if_pos (byte_covered covers below)

theorem bitClear_eq (covers : s.totalPages ≤ 8 * s.bitmapBytes) {f : Nat}
    (below : f < s.totalPages) :
    bitClear f s = some { s with bitmap := Bitmap.clearBit s.bitmap f } :=
  if_pos (byte_covered covers below)

/-- `u` is `s` with the bits of `n` frames from `f` on made `b` and other counters. -/
structure Marked (b : Bool) (f n : Nat) (s u : PmmState) : Prop where
  bits : ∀ g, Bitmap.bit u.bitmap g = if f ≤ g ∧ g < f + n then b else Bitmap.bit s.bitmap g
  total : u.totalPages = s.totalPages
  phys : u.bitmapPhys = s.bitmapPhys
  bytes : u.bitmapBytes = s.bitmapBytes
  hint : u.nextHint = s.nextHint

theorem Marked.none (b : Bool) (f : Nat) (s : PmmState) : Marked b f 0 s s := by
  refine ⟨?_, rfl, rfl, rfl, rfl⟩
  intro g
  rw [if_neg (by omega)]

theorem Marked.cons {t : PmmState} (first : Marked b f 1 s t)
    (rest : Marked b (f + 1) n t u) : Marked b f (n + 1) s u := by
  refine ⟨?_, rest.total.trans first.total, rest.phys.trans first.phys,
    rest.bytes.trans first.bytes, rest.hint.trans first.hint⟩
  intro g
  rw [rest.bits, first.bits]
  by_cases here : f ≤ g ∧ g < f + (n + 1)
  · rw [if_pos here]
    by_cases later : f + 1 ≤ g
    · rw [if_pos (by omega)]
    · rw [if_neg (by omega), if_pos (by omega)]
  · rw [if_neg here, if_neg (by omega), if_neg (by omega)]

/-- What one round keeps and marks, the loop keeps and marks for all its frames. -/
theorem forFrames_marks {body : Nat → PmmState → Option PmmState} {Inv : PmmState → Prop}
    (one : ∀ s f, Inv s → f < s.totalPages → ∃ u, body f s = some u ∧ Inv u ∧ Marked b f 1 s u)
    (n : Nat) : ∀ f s, Inv s → f + n ≤ s.totalPages →
      ∃ u, forFrames body n f s = some u ∧ Inv u ∧ Marked b f n s u := by
  induction n with
  | zero =>
    intro f s inv _
    exact ⟨s, rfl, inv, Marked.none b f s⟩
  | succ n ih =>
    intro f s inv below
    obtain ⟨t, first, invT, marked⟩ := one s f inv (by omega)
    obtain ⟨u, rest, invU, more⟩ := ih (f + 1) t invT (by rw [marked.total]; omega)
    refine ⟨u, ?_, invU, marked.cons more⟩
    simp only [forFrames, Option.bind_eq_bind, first, Option.bind_some, rest]

/-- Frames past the end of memory are not touched. -/
theorem forFrames_clamped {body : Nat → PmmState → Option PmmState} {Inv : PmmState → Prop}
    (one : ∀ s f, Inv s → f < s.totalPages → ∃ u, body f s = some u ∧ Inv u ∧ Marked b f 1 s u)
    (first last : Nat) {s : PmmState} (inv : Inv s) :
    ∃ u, forFrames body (min last s.totalPages - first) first s = some u ∧ Inv u ∧
      Marked b first (min last s.totalPages - first) s u := by
  by_cases empty : min last s.totalPages ≤ first
  · rw [Nat.sub_eq_zero_of_le empty]
    exact ⟨s, rfl, inv, Marked.none b first s⟩
  · exact forFrames_marks one _ first s inv (by omega)

theorem freeFrames_of_marked_used (marked : Marked true f n s u) :
    freeFrames u = freeFrames s \ Finset.Ico f (f + n) := by
  ext g
  rw [Finset.mem_sdiff, mem_freeFrames, mem_freeFrames, marked.total, marked.bits, Finset.mem_Ico]
  by_cases here : f ≤ g ∧ g < f + n
  · simp [here]
  · simp [here]

theorem freeFrames_of_marked_free (marked : Marked false f n s u)
    (below : f + n ≤ s.totalPages ∨ n = 0) :
    freeFrames u = freeFrames s ∪ Finset.Ico f (f + n) := by
  ext g
  rw [Finset.mem_union, mem_freeFrames, mem_freeFrames, marked.total, marked.bits, Finset.mem_Ico]
  by_cases here : f ≤ g ∧ g < f + n
  · have inside : g < s.totalPages := by omega
    simp [here, inside]
  · simp [here]

theorem marked_of_bit (already : Bitmap.bit s.bitmap f = b) : Marked b f 1 s s := by
  refine ⟨?_, rfl, rfl, rfl, rfl⟩
  intro g
  by_cases here : f ≤ g ∧ g < f + 1
  · have same : g = f := by omega
    rw [if_pos here, same, already]
  · rw [if_neg here]

theorem marked_setBit {a b : Nat} : Marked true f 1 s
      { s with bitmap := Bitmap.setBit s.bitmap f, freePages := a, usedPages := b } := by
  refine ⟨?_, rfl, rfl, rfl, rfl⟩
  intro g
  rw [Bitmap.bit_setBit]
  by_cases here : g = f
  · rw [if_pos here, if_pos (by omega)]
  · rw [if_neg here, if_neg (by omega)]

theorem marked_clearBit {a b : Nat} : Marked false f 1 s
      { s with bitmap := Bitmap.clearBit s.bitmap f, freePages := a, usedPages := b } := by
  refine ⟨?_, rfl, rfl, rfl, rfl⟩
  intro g
  rw [Bitmap.bit_clearBit]
  by_cases here : g = f
  · rw [if_pos here, if_pos (by omega)]
  · rw [if_neg here, if_neg (by omega)]

/-- Taking a free frame and moving one from the free to the used count. -/
theorem Accounted.take (accounted : Accounted s) {f : Nat} (free : f ∈ freeFrames s)
    {a b hint : Nat} (ha : a + 1 = s.freePages) (hb : b = s.usedPages + 1)
    (hh : hint ≤ s.totalPages) :
    Accounted { s with
      bitmap := Bitmap.setBit s.bitmap f, freePages := a, usedPages := b, nextHint := hint } := by
  have bound := accounted.freePages_le
  have used := accounted.used
  refine ⟨accounted.covers, accounted.small, ?_, ?_, hh⟩
  · have fewer := Finset.card_erase_of_mem free
    have count := accounted.free
    simp only [freeFrames, Bitmap.clearBelow_setBit] at fewer count ⊢
    omega
  · show b = s.totalPages - a
    omega

/-- Giving back a used frame and moving one from the used to the free count. -/
theorem Accounted.give (accounted : Accounted s) {f : Nat}
    (below : f < s.totalPages) (held : Bitmap.bit s.bitmap f = true) {a b : Nat}
    (ha : a = s.freePages + 1) (hb : b = s.usedPages - 1) :
    Accounted { s with
      bitmap := Bitmap.clearBit s.bitmap f, freePages := a, usedPages := b } := by
  have used := accounted.used
  refine ⟨accounted.covers, accounted.small, ?_, ?_, accounted.hint⟩
  · have fresh : f ∉ freeFrames s := by
      rw [mem_freeFrames, held]
      simp
    have more := Finset.card_insert_of_notMem fresh
    have count := accounted.free
    simp only [freeFrames] at more count ⊢
    rw [Bitmap.clearBelow_clearBit below]
    omega
  · show b = s.totalPages - a
    omega

/-- A used frame is counted. -/
theorem Accounted.usedPages_pos (accounted : Accounted s) {f : Nat}
    (below : f < s.totalPages) (held : Bitmap.bit s.bitmap f = true) :
    s.freePages < s.totalPages := by
  have fresh : f ∉ freeFrames s := by
    rw [mem_freeFrames, held]
    simp
  have more := Finset.card_insert_of_notMem fresh
  have inside : insert f (freeFrames s) ⊆ Finset.range s.totalPages := by
    intro g hg
    rw [Finset.mem_insert, mem_freeFrames] at hg
    rw [Finset.mem_range]
    rcases hg with rfl | hg
    · exact below
    · exact hg.1
  have bound := Finset.card_le_card inside
  rw [Finset.card_range, more, ← accounted.free] at bound
  omega

theorem Accounted.freePages_pos (accounted : Accounted s) {f : Nat}
    (free : f ∈ freeFrames s) : 0 < s.freePages := by
  rw [accounted.free]
  exact Finset.card_pos.mpr ⟨f, free⟩

theorem reserveFrame_spec (s : PmmState) (f : Nat) (accounted : Accounted s)
    (below : f < s.totalPages) :
    ∃ u, reserveFrame f s = some u ∧ Accounted u ∧ Marked true f 1 s u := by
  cases held : Bitmap.bit s.bitmap f with
  | true =>
    refine ⟨s, ?_, accounted, marked_of_bit held⟩
    simp [reserveFrame, bitTest_eq accounted.covers below, held]
  | false =>
    have free : f ∈ freeFrames s := mem_freeFrames.mpr ⟨below, held⟩
    have positive := accounted.freePages_pos free
    have bound := accounted.freePages_le
    have used := accounted.used
    have small := accounted.small
    refine ⟨{ s with
      bitmap := Bitmap.setBit s.bitmap f
      freePages := s.freePages - 1
      usedPages := s.usedPages + 1 }, ?_, ?_, marked_setBit⟩
    · have nonzero : s.freePages ≠ 0 := by omega
      have word : wrap64 (s.usedPages + 1) = s.usedPages + 1 := by unfold wrap64; omega
      simp [reserveFrame, bitTest_eq accounted.covers below, held,
        bitSet_eq accounted.covers below, nonzero, word]
    · exact accounted.take free (by omega) rfl accounted.hint

theorem releaseFrame_spec (s : PmmState) (f : Nat) (accounted : Accounted s)
    (below : f < s.totalPages) :
    ∃ u, releaseFrame f s = some u ∧ Accounted u ∧ Marked false f 1 s u := by
  cases held : Bitmap.bit s.bitmap f with
  | false =>
    refine ⟨s, ?_, accounted, marked_of_bit held⟩
    simp [releaseFrame, bitTest_eq accounted.covers below, held]
  | true =>
    have room := accounted.usedPages_pos below held
    have used := accounted.used
    have small := accounted.small
    refine ⟨{ s with
      bitmap := Bitmap.clearBit s.bitmap f
      freePages := s.freePages + 1
      usedPages := s.usedPages - 1 }, ?_, accounted.give below held rfl rfl, marked_clearBit⟩
    have nonzero : s.usedPages ≠ 0 := by omega
    have word : wrap64 (s.freePages + 1) = s.freePages + 1 := by unfold wrap64; omega
    simp [releaseFrame, bitTest_eq accounted.covers below, held,
      bitClear_eq accounted.covers below, nonzero, word]

/-- `MmFreePages` does not ask whether a page is in use: while a frame is reserved, one is. -/
theorem freeFrame_eq (s : PmmState) (f : Nat) (accounted : Accounted s)
    (below : f < s.totalPages) : freeFrame f s = releaseFrame f s := by
  cases held : Bitmap.bit s.bitmap f with
  | false => simp [freeFrame, releaseFrame, bitTest_eq accounted.covers below, held]
  | true =>
    have room := accounted.usedPages_pos below held
    have used := accounted.used
    have small := accounted.small
    have nonzero : s.usedPages ≠ 0 := by omega
    have less : sub64 s.usedPages 1 = s.usedPages - 1 := by unfold sub64 wrap64; omega
    simp [freeFrame, releaseFrame, bitTest_eq accounted.covers below, held,
      bitClear_eq accounted.covers below, nonzero, less]

theorem freeFrame_spec (s : PmmState) (f : Nat) (accounted : Accounted s)
    (below : f < s.totalPages) :
    ∃ u, freeFrame f s = some u ∧ Accounted u ∧ Marked false f 1 s u := by
  rw [freeFrame_eq s f accounted below]
  exact releaseFrame_spec s f accounted below

/-- `u` differs from `s` in the bits and the counters only. -/
structure SameFrame (s u : PmmState) : Prop where
  total : u.totalPages = s.totalPages
  phys : u.bitmapPhys = s.bitmapPhys
  bytes : u.bitmapBytes = s.bitmapBytes

theorem SameFrame.trans {t : PmmState} (first : SameFrame s t) (second : SameFrame t u) :
    SameFrame s u :=
  ⟨second.total.trans first.total, second.phys.trans first.phys, second.bytes.trans first.bytes⟩

theorem Marked.sameFrame (marked : Marked b f n s u) : SameFrame s u :=
  ⟨marked.total, marked.phys, marked.bytes⟩

theorem Ico_clamped (first last total : Nat) :
    Finset.Ico first (first + (min last total - first)) = Finset.Ico first (min last total) := by
  ext g
  rw [Finset.mem_Ico, Finset.mem_Ico]
  omega

/-- The frames that `reserve_range` reserves. -/
def Reserves (base length g : Nat) : Prop :=
  base / pageSize ≤ g ∧ g < wrap64 (base + length + pageMask) / pageSize

theorem reserveRange_spec (accounted : Accounted s) (base length : Nat) :
    ∃ u, reserveRange base length s = some u ∧ Accounted u ∧ SameFrame s u ∧
      ∀ g, g ∈ freeFrames u ↔ g ∈ freeFrames s ∧ ¬ Reserves base length g := by
  obtain ⟨u, returns, accountedU, marked⟩ := forFrames_clamped reserveFrame_spec
    (base / pageSize) (wrap64 (base + length + pageMask) / pageSize) accounted
  refine ⟨u, returns, accountedU, marked.sameFrame, ?_⟩
  intro g
  rw [freeFrames_of_marked_used marked, Ico_clamped, Finset.mem_sdiff, Finset.mem_Ico,
    Nat.lt_min]
  constructor
  · rintro ⟨free, outside⟩
    exact ⟨free, fun inside => outside ⟨inside.1, inside.2, (mem_freeFrames.mp free).1⟩⟩
  · rintro ⟨free, outside⟩
    exact ⟨free, fun inside => outside ⟨inside.1, inside.2.1⟩⟩

theorem freeRange_spec (accounted : Accounted s) (base length : Nat) :
    ∃ u, freeRange base length s = some u ∧ Accounted u ∧ SameFrame s u ∧
      ∀ g, g ∈ freeFrames u ↔ g ∈ freeFrames s ∨
        wrap64 (base + pageMask) / pageSize ≤ g ∧ g < wrap64 (base + length) / pageSize ∧
          g < s.totalPages := by
  obtain ⟨u, returns, accountedU, marked⟩ := forFrames_clamped releaseFrame_spec
    (wrap64 (base + pageMask) / pageSize) (wrap64 (base + length) / pageSize) accounted
  refine ⟨u, returns, accountedU, marked.sameFrame, ?_⟩
  intro g
  rw [freeFrames_of_marked_free marked (by omega), Ico_clamped, Finset.mem_union, Finset.mem_Ico,
    Nat.lt_min]

/-- The frames that `free_range` frees for a region, when it is available. -/
def MemoryRegion.Releases (r : MemoryRegion) (g : Nat) : Prop :=
  r.type = .available ∧ wrap64 (r.base + pageMask) / pageSize ≤ g ∧
    g < wrap64 (r.base + r.length) / pageSize

def Released (regions : List MemoryRegion) (g : Nat) : Prop := ∃ r ∈ regions, r.Releases g

theorem freeRegion_spec (accounted : Accounted s) (r : MemoryRegion) :
    ∃ u, freeRegion r s = some u ∧ Accounted u ∧ SameFrame s u ∧
      ∀ g, g ∈ freeFrames u ↔ g ∈ freeFrames s ∨ r.Releases g ∧ g < s.totalPages := by
  unfold freeRegion
  by_cases available : r.type = .available
  · obtain ⟨u, returns, accountedU, same, free⟩ := freeRange_spec accounted r.base r.length
    refine ⟨u, by rw [if_pos available, returns], accountedU, same, ?_⟩
    intro g
    rw [free, MemoryRegion.Releases, and_assoc, and_assoc]
    simp only [available, true_and]
  · refine ⟨s, by rw [if_neg available], accounted, ⟨rfl, rfl, rfl⟩, ?_⟩
    intro g
    simp only [MemoryRegion.Releases, available, false_and, or_false]

theorem freeRegions_spec (regions : List MemoryRegion) :
    ∀ {s : PmmState}, Accounted s →
      ∃ u, freeRegions regions s = some u ∧ Accounted u ∧ SameFrame s u ∧
        ∀ g, g ∈ freeFrames u ↔ g ∈ freeFrames s ∨ Released regions g ∧ g < s.totalPages := by
  induction regions with
  | nil =>
    intro s accounted
    refine ⟨s, rfl, accounted, ⟨rfl, rfl, rfl⟩, ?_⟩
    intro g
    simp only [Released, List.not_mem_nil, false_and, exists_false, or_false]
  | cons r regions ih =>
    intro s accounted
    obtain ⟨t, first, accountedT, sameT, freeT⟩ := freeRegion_spec accounted r
    obtain ⟨u, rest, accountedU, sameU, freeU⟩ := ih accountedT
    refine ⟨u, ?_, accountedU, sameT.trans sameU, ?_⟩
    · simp only [freeRegions, Option.bind_eq_bind, first, Option.bind_some, rest]
    · intro g
      rw [freeU, freeT, sameT.total, or_assoc, ← or_and_right]
      simp only [Released, List.mem_cons, exists_eq_or_imp]

theorem allUsed_accounted {map : MemoryMap} (word : map.highestAddress < 2 ^ 64)
    (kernelEnd : Nat) (mem : Bitmap.Bytes) :
    Accounted (allUsed map kernelEnd mem) ∧ freeFrames (allUsed map kernelEnd mem) = ∅ := by
  have small : map.highestAddress / pageSize < 2 ^ 52 := by
    unfold pageSize
    omega
  have covers : map.highestAddress / pageSize ≤
      8 * (wrap64 (map.highestAddress / pageSize + 7) / 8) := by
    unfold wrap64
    omega
  have empty : freeFrames (allUsed map kernelEnd mem) = ∅ := by
    refine Finset.eq_empty_of_forall_notMem fun g free => ?_
    obtain ⟨below, clear⟩ := mem_freeFrames.mp free
    have byte : g / 8 < wrap64 (map.highestAddress / pageSize + 7) / 8 := by
      have below : g < map.highestAddress / pageSize := below
      omega
    have ones : ∀ k : Fin 8, (0xFF#8).getLsbD k = true := by decide
    simp only [Bitmap.bit, allUsed, if_pos byte] at clear
    have one := ones ⟨g % 8, Nat.mod_lt _ (by decide)⟩
    rw [clear] at one
    exact absurd one (by simp)
  refine ⟨⟨covers, small, ?_, rfl, Nat.zero_le _⟩, empty⟩
  rw [empty]
  rfl

/-- What initialisation leaves free: what the regions release, less the low
memory, the kernel image and the bitmap. -/
def InitiallyFree (map : MemoryMap) (kernelEnd g : Nat) : Prop :=
  Released map.regions g ∧ g < map.highestAddress / pageSize ∧ ¬ Reserves 0 0x100000 g ∧
  ¬ Reserves kernelPhysBase (sub64 kernelEnd kernelPhysBase) g ∧
  ¬ Reserves (pageAlignUp kernelEnd)
    (wrap64 (bytesToPages (wrap64 (map.highestAddress / pageSize + 7) / 8) * pageSize)) g

theorem Accounted.rehint (accounted : Accounted s) {hint : Nat}
    (below : hint ≤ s.totalPages) : Accounted { s with nextHint := hint } :=
  ⟨accounted.covers, accounted.small, accounted.free, accounted.used, below⟩

theorem freeFrames_rehint (s : PmmState) (hint : Nat) :
    freeFrames { s with nextHint := hint } = freeFrames s :=
  rfl

theorem mmInitializePhysicalMemory_spec {map : MemoryMap} (word : map.highestAddress < 2 ^ 64)
    (low : 0x100000 ≤ map.highestAddress) (kernelEnd : Nat) (mem : Bitmap.Bytes) :
    ∃ u, mmInitializePhysicalMemory map kernelEnd mem = some u ∧ Accounted u ∧
      u.totalPages = map.highestAddress / pageSize ∧
      ∀ g, g ∈ freeFrames u ↔ InitiallyFree map kernelEnd g := by
  obtain ⟨accounted, empty⟩ := allUsed_accounted word kernelEnd mem
  obtain ⟨s₁, step₁, accounted₁, same₁, free₁⟩ := freeRegions_spec map.regions accounted
  obtain ⟨s₂, step₂, accounted₂, same₂, free₂⟩ := reserveRange_spec accounted₁ 0 0x100000
  obtain ⟨s₃, step₃, accounted₃, same₃, free₃⟩ :=
    reserveRange_spec accounted₂ kernelPhysBase (sub64 kernelEnd kernelPhysBase)
  obtain ⟨s₄, step₄, accounted₄, same₄, free₄⟩ :=
    reserveRange_spec accounted₃ s₃.bitmapPhys (wrap64 (bytesToPages s₃.bitmapBytes * pageSize))
  have same := (same₁.trans same₂).trans same₃
  have total : s₄.totalPages = map.highestAddress / pageSize := same₄.total.trans same.total
  have total₁ : (allUsed map kernelEnd mem).totalPages = map.highestAddress / pageSize := rfl
  have phys : s₃.bitmapPhys = pageAlignUp kernelEnd := same.phys
  have bytes : s₃.bitmapBytes = wrap64 (map.highestAddress / pageSize + 7) / 8 := same.bytes
  have hint : 0x100000 / pageSize ≤ s₄.totalPages := by
    rw [total]
    exact Nat.div_le_div_right low
  refine ⟨{ s₄ with nextHint := 0x100000 / pageSize }, ?_, accounted₄.rehint hint, total, ?_⟩
  · simp only [mmInitializePhysicalMemory, Option.bind_eq_bind, Option.bind_eq_some_iff]
    exact ⟨s₁, step₁, s₂, step₂, s₃, step₃, s₄, step₄, rfl⟩
  · intro g
    rw [freeFrames_rehint, free₄, free₃, free₂, free₁, empty, total₁, phys, bytes, InitiallyFree]
    simp only [Finset.notMem_empty, false_or, and_assoc]

/-- Frames `[start, start + n)`, all free. -/
def FreeRun (s : PmmState) (start n : Nat) : Prop :=
  ∀ g, start ≤ g → g < start + n → g ∈ freeFrames s

/-- What an allocation of `n` frames that returns `r` does. -/
def Allocates (n : Nat) (s : PmmState) (r : Nat) (u : PmmState) : Prop :=
  (r = mmInvalidPhys ∧ u = s ∧ ∀ start, ¬ FreeRun s start n) ∨
  ∃ start, FreeRun s start n ∧ r = start * pageSize ∧ Accounted u ∧
    u.totalPages = s.totalPages ∧ freeFrames u = freeFrames s \ Finset.Ico start (start + n)

theorem frame_address (accounted : Accounted s) {f : Nat}
    (below : f < s.totalPages) : wrap64 (f * pageSize) = f * pageSize := by
  have small := accounted.small
  unfold wrap64 pageSize
  omega

theorem scanFrame_lt (accounted : Accounted s) (scan : Nat)
    (below : scan < s.totalPages) : scanFrame s scan < s.totalPages := by
  have hint := accounted.hint
  have small := accounted.small
  have word : wrap64 (s.nextHint + scan) = s.nextHint + scan := by
    unfold wrap64
    omega
  unfold scanFrame
  rw [word]
  dsimp only
  split
  · omega
  · omega

/-- The search comes past every frame. -/
theorem scanFrame_surjective (accounted : Accounted s) {f : Nat}
    (below : f < s.totalPages) : ∃ scan < s.totalPages, scanFrame s scan = f := by
  have hint := accounted.hint
  have small := accounted.small
  have word : ∀ scan < s.totalPages, wrap64 (s.nextHint + scan) = s.nextHint + scan := by
    intro scan hscan
    unfold wrap64
    omega
  unfold scanFrame
  by_cases ahead : s.nextHint ≤ f
  · refine ⟨f - s.nextHint, by omega, ?_⟩
    rw [word _ (by omega)]
    dsimp only
    rw [if_neg (by omega)]
    omega
  · refine ⟨s.totalPages - s.nextHint + f, by omega, ?_⟩
    rw [word _ (by omega)]
    dsimp only
    rw [if_pos (by omega)]
    omega

theorem freeFrames_take (s : PmmState) (f a b hint : Nat) :
    freeFrames { s with
      bitmap := Bitmap.setBit s.bitmap f, freePages := a, usedPages := b, nextHint := hint } =
      freeFrames s \ Finset.Ico f (f + 1) := by
  rw [Nat.Ico_succ_singleton, Finset.sdiff_singleton_eq_erase]
  exact Bitmap.clearBelow_setBit s.bitmap s.totalPages f

theorem allocateScan_spec (accounted : Accounted s) (n : Nat) :
    ∀ scan, scan + n = s.totalPages → (∀ k < scan, scanFrame s k ∉ freeFrames s) →
      ∃ r u, allocateScan n scan s = some (r, u) ∧ Allocates 1 s r u := by
  induction n with
  | zero =>
    intro scan all none
    refine ⟨mmInvalidPhys, s, rfl, .inl ⟨rfl, rfl, ?_⟩⟩
    intro start free
    have free := free start (Nat.le_refl _) (Nat.lt_succ_self _)
    obtain ⟨k, hk, rfl⟩ := scanFrame_surjective accounted (mem_freeFrames.mp free).1
    exact none k (by omega) free
  | succ n ih =>
    intro scan all none
    have below := scanFrame_lt accounted scan (by omega)
    have test := bitTest_eq accounted.covers below
    cases held : Bitmap.bit s.bitmap (scanFrame s scan) with
    | true =>
      obtain ⟨r, u, returns, spec⟩ := ih (scan + 1) (by omega) (by
        intro k hk free
        by_cases last : k = scan
        · rw [last] at free
          exact absurd (mem_freeFrames.mp free).2 (by simp [held])
        · exact none k (by omega) free)
      refine ⟨r, u, ?_, spec⟩
      simp only [allocateScan, Option.bind_eq_bind, Option.bind_eq_some_iff]
      exact ⟨true, by rw [test, held], returns⟩
    | false =>
      have free : scanFrame s scan ∈ freeFrames s := mem_freeFrames.mpr ⟨below, held⟩
      have positive := accounted.freePages_pos free
      have bound := accounted.freePages_le
      have used := accounted.used
      have small := accounted.small
      have less : sub64 s.freePages 1 + 1 = s.freePages := by
        unfold sub64 wrap64
        omega
      have more : wrap64 (s.usedPages + 1) = s.usedPages + 1 := by
        unfold wrap64
        omega
      refine ⟨scanFrame s scan * pageSize, { s with
        bitmap := Bitmap.setBit s.bitmap (scanFrame s scan)
        freePages := sub64 s.freePages 1
        usedPages := wrap64 (s.usedPages + 1)
        nextHint := scanFrame s scan + 1 }, ?_, .inr ⟨scanFrame s scan, ?_, rfl, ?_, rfl, ?_⟩⟩
      · simp only [allocateScan, Option.bind_eq_bind, Option.bind_eq_some_iff]
        refine ⟨false, by rw [test, held], ?_⟩
        rw [if_neg Bool.false_ne_true, Option.bind_eq_some_iff]
        refine ⟨_, bitSet_eq accounted.covers below, ?_⟩
        rw [frame_address accounted below]
      · intro g lower upper
        have same : g = scanFrame s scan := by omega
        rw [same]
        exact free
      · exact accounted.take free less more below
      · exact freeFrames_take s _ _ _ _

theorem mmAllocatePage_spec (accounted : Accounted s) :
    ∃ r u, mmAllocatePage s = some (r, u) ∧ Allocates 1 s r u :=
  allocateScan_spec accounted s.totalPages 0 (Nat.zero_add _) (fun k hk => absurd hk (by omega))

/-- The bits of a run are set without touching the counters. -/
theorem setRun_spec (covers : s.totalPages ≤ 8 * s.bitmapBytes) (start n : Nat)
    (below : start + n ≤ s.totalPages) :
    ∃ u, forFrames bitSet n start s = some u ∧ u.freePages = s.freePages ∧
      u.usedPages = s.usedPages ∧ Marked true start n s u := by
  have one : ∀ t f, (t.totalPages ≤ 8 * t.bitmapBytes ∧ t.freePages = s.freePages ∧
      t.usedPages = s.usedPages) → f < t.totalPages → ∃ u, bitSet f t = some u ∧
      (u.totalPages ≤ 8 * u.bitmapBytes ∧ u.freePages = s.freePages ∧
        u.usedPages = s.usedPages) ∧ Marked true f 1 t u :=
    fun t f same inside => ⟨_, bitSet_eq same.1 inside, same, marked_setBit⟩
  obtain ⟨u, returns, ⟨_, free, used⟩, marked⟩ :=
    forFrames_marks one n start s ⟨covers, rfl, rfl⟩ below
  exact ⟨u, returns, free, used, marked⟩

/-- Taking a run of free frames at once. -/
theorem Accounted.takeRun (accounted : Accounted s) {start n : Nat}
    (marked : Marked true start n s u) (free : FreeRun s start n) (a b : Nat)
    (ha : a + n = s.freePages) (hb : b = s.usedPages + n) :
    Accounted { u with freePages := a, usedPages := b } := by
  have bound := accounted.freePages_le
  have used := accounted.used
  have total := marked.total
  refine ⟨?_, ?_, ?_, ?_, ?_⟩
  · show u.totalPages ≤ 8 * u.bitmapBytes
    rw [marked.total, marked.bytes]
    exact accounted.covers
  · show u.totalPages < 2 ^ 52
    rw [marked.total]
    exact accounted.small
  · have inside : Finset.Ico start (start + n) ⊆ freeFrames s := by
      intro g hg
      rw [Finset.mem_Ico] at hg
      exact free g hg.1 hg.2
    have fewer := Finset.card_sdiff_of_subset inside
    rw [Nat.card_Ico, ← accounted.free, ← freeFrames_of_marked_used marked] at fewer
    show a = (freeFrames u).card
    omega
  · show b = u.totalPages - a
    omega
  · show u.nextHint ≤ u.totalPages
    rw [marked.hint, marked.total]
    exact accounted.hint

theorem FreeRun.le_freePages (accounted : Accounted s) {start n : Nat}
    (free : FreeRun s start n) : n ≤ s.freePages := by
  have inside : Finset.Ico start (start + n) ⊆ freeFrames s := by
    intro g hg
    rw [Finset.mem_Ico] at hg
    exact free g hg.1 hg.2
  have bound := Finset.card_le_card inside
  rw [Nat.card_Ico, ← accounted.free] at bound
  omega

/-- The first-fit search: the `run` frames before `f` are free, a longer free
stretch does not end at `f`, and no stretch of `count` ends before. -/
theorem allocateRun_spec (accounted : Accounted s) {count : Nat} (n : Nat) :
    ∀ f run start, f + n = s.totalPages → run < count → (run ≠ 0 → start + run = f) →
      FreeRun s (f - run) run → run ≤ f →
      (∀ a, a ≤ f → FreeRun s a (f - a) → f ≤ a + run) →
      (∀ a, a + count ≤ f → ¬ FreeRun s a count) →
      ∃ r u, allocateRun count n f run start s = some (r, u) ∧ Allocates count s r u := by
  induction n with
  | zero =>
    intro f run start all short _ _ _ _ none
    refine ⟨mmInvalidPhys, s, rfl, .inl ⟨rfl, rfl, ?_⟩⟩
    intro a free
    have inside := (mem_freeFrames.mp (free (a + count - 1) (by omega) (by omega))).1
    exact none a (by omega) free
  | succ n ih =>
    intro f run start all short here tail le longest none
    have below : f < s.totalPages := by omega
    have test := bitTest_eq accounted.covers below
    cases held : Bitmap.bit s.bitmap f with
    | true =>
      have taken : f ∉ freeFrames s := by
        rw [mem_freeFrames, held]
        simp
      obtain ⟨r, u, returns, spec⟩ := ih (f + 1) 0 start (by omega) (by omega) (by simp)
        (fun g lower upper => absurd upper (by omega)) (by omega)
        (fun a ha free => by
          by_cases last : a = f + 1
          · omega
          · exact absurd (free f (by omega) (by omega)) taken)
        (fun a ha free => by
          by_cases last : a + count = f + 1
          · exact taken (free f (by omega) (by omega))
          · exact none a (by omega) free)
      refine ⟨r, u, ?_, spec⟩
      simp only [allocateRun, Option.bind_eq_bind, Option.bind_eq_some_iff]
      exact ⟨true, by rw [test, held], returns⟩
    | false =>
      have free : f ∈ freeFrames s := mem_freeFrames.mpr ⟨below, held⟩
      have first : (if run = 0 then f else start) + run = f := by
        split
        · omega
        · exact here ‹_›
      have stretch : FreeRun s (if run = 0 then f else start) (run + 1) := by
        intro g lower upper
        by_cases last : g = f
        · rw [last]
          exact free
        · exact tail g (by omega) (by omega)
      by_cases enough : run + 1 = count
      · rw [enough] at stretch
        obtain ⟨t, sets, freeT, usedT, marked⟩ := setRun_spec accounted.covers
          (if run = 0 then f else start) count (by omega)
        have room := stretch.le_freePages accounted
        have bound := accounted.freePages_le
        have used := accounted.used
        have small := accounted.small
        refine ⟨(if run = 0 then f else start) * pageSize, { t with
          freePages := sub64 t.freePages count
          usedPages := wrap64 (t.usedPages + count) }, ?_,
          .inr ⟨_, stretch, rfl, accounted.takeRun marked stretch _ _ ?_ ?_, marked.total,
            ?_⟩⟩
        · simp only [allocateRun, Option.bind_eq_bind, Option.bind_eq_some_iff]
          refine ⟨false, by rw [test, held], ?_⟩
          rw [if_neg Bool.false_ne_true, if_pos enough, Option.bind_eq_some_iff]
          refine ⟨t, sets, ?_⟩
          rw [frame_address accounted (by omega)]
        · rw [freeT]
          unfold sub64 wrap64
          omega
        · rw [usedT]
          unfold wrap64
          omega
        · exact freeFrames_of_marked_used (u := t) marked
      · obtain ⟨r, u, returns, spec⟩ := ih (f + 1) (run + 1) (if run = 0 then f else start)
          (by omega) (by omega) (fun _ => by omega)
          (fun g lower upper => stretch g (by omega) (by omega)) (by omega)
          (fun a ha free => by
            by_cases last : a = f + 1
            · omega
            · have before := longest a (by omega) (fun g lower upper => free g lower (by omega))
              omega)
          (fun a ha free => by
            by_cases last : a + count = f + 1
            · have before := longest a (by omega) (fun g lower upper => free g lower (by omega))
              omega
            · exact none a (by omega) free)
        refine ⟨r, u, ?_, spec⟩
        simp only [allocateRun, Option.bind_eq_bind, Option.bind_eq_some_iff]
        refine ⟨false, by rw [test, held], ?_⟩
        rw [if_neg Bool.false_ne_true, if_neg enough]
        exact returns

theorem mmAllocatePages_spec (accounted : Accounted s) {count : Nat} (some_ : count ≠ 0) :
    ∃ r u, mmAllocatePages count s = some (r, u) ∧ Allocates count s r u := by
  unfold mmAllocatePages
  rw [if_neg some_]
  by_cases one : count = 1
  · rw [if_pos one, one]
    exact mmAllocatePage_spec accounted
  · rw [if_neg one]
    refine allocateRun_spec accounted s.totalPages 0 0 0 (Nat.zero_add _) (by omega) (by simp)
      (fun g lower upper => absurd upper (by omega)) (Nat.le_refl _) ?_ ?_
    · intro a ha _
      omega
    · intro a ha _
      omega

theorem mmFreePages_spec (accounted : Accounted s) (phys count : Nat) :
    ∃ u, mmFreePages phys count s = some u ∧ Accounted u ∧ u.totalPages = s.totalPages ∧
      ∀ g, g ∈ freeFrames u ↔ g ∈ freeFrames s ∨
        phys / pageSize ≤ g ∧ g < wrap64 (phys / pageSize + count) ∧ g < s.totalPages := by
  obtain ⟨t, returns, accountedT, marked⟩ := forFrames_clamped freeFrame_spec
    (phys / pageSize) (wrap64 (phys / pageSize + count)) accounted
  have frames : ∀ g, g ∈ freeFrames t ↔ g ∈ freeFrames s ∨
      phys / pageSize ≤ g ∧ g < wrap64 (phys / pageSize + count) ∧ g < s.totalPages := by
    intro g
    rw [freeFrames_of_marked_free marked (by omega), Ico_clamped, Finset.mem_union,
      Finset.mem_Ico, Nat.lt_min]
  by_cases earlier : phys / pageSize < t.nextHint
  · refine ⟨{ t with nextHint := phys / pageSize }, ?_, accountedT.rehint ?_, marked.total, frames⟩
    · simp only [mmFreePages, Option.bind_eq_bind, Option.bind_eq_some_iff]
      exact ⟨t, returns, by rw [if_pos earlier]⟩
    · have hint := accountedT.hint
      omega
  · refine ⟨t, ?_, accountedT, marked.total, frames⟩
    simp only [mmFreePages, Option.bind_eq_bind, Option.bind_eq_some_iff]
    exact ⟨t, returns, by rw [if_neg earlier]⟩

end Pmm
