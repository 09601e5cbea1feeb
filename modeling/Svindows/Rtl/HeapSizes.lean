import Svindows.Rtl.HeapRuns

/-!
# Sizes that wrap in ntdll

A size is cut to 32 bits, rounded up, and added to the size of a header, and each of
the three can lose its high part. What is left decides which block is returned.
-/

namespace Rtl

open Nt ByteMemory

/-- What the system call answers: whole pages, which nothing else has. -/
def RtlHeap.Grants (s : RtlHeap) (answer : Nat → Option Segment) : Prop :=
  ∀ size g, answer size = some g → g.len = bytesToPages size * pageSize ∧ s.Fresh g

/-- The `n` bytes at `r` belong to a block of that size, in a segment, and to no block in
use before. -/
structure Usable (s t : RtlHeap) (used : List Nat) (r n : Nat) : Prop where
  size : n ≤ rtlSizeHeap t r
  inside : InSegment t.segments r (r + n)
  apart : ∀ a ∈ used, ∀ x, r ≤ x → x < r + n → ¬ InBlock s (a + sizeofRtlBlock) x

/-- The first block of the free list that is large enough has the size that was meant, or
there is none, and the block is cut from fresh memory: then nothing is granted, or the
clearing of a block that is not there faults. -/
def SizeHolds (s : RtlHeap) (free : List Nat) (zero : Bool) (size : Nat)
    (answer : Nat → Option Segment) : Prop :=
  let n := roundSize size
  size ≤ maxSize ∨
    match free.find? fun a => n ≤ blockSize s.mem a with
    | some b => size ≤ blockSize s.mem b
    | none => s.left < n + sizeofRtlBlock ∧
      match answer (growSize (wrap32 (n + sizeofRtlBlock))) with
      | none => True
      | some g => zero = true ∧ maxSize < n ∧
        ∃ i < n, ¬ RtlHeap.Granted { s with segments := g :: s.segments }
          (g.base + sizeofRtlBlock + i)

theorem findFree_find (size : Nat) (link : Option Nat) {m : Memory} {fuel b : Nat}
    {free : List Nat} (chain : Chain (blockNext m) b free) (enough : free.length ≤ fuel) :
    (findFree m size fuel link b).map Prod.snd = free.find? fun a => size ≤ blockSize m a := by
  induction fuel generalizing link b free with
  | zero =>
    rw [List.eq_nil_of_length_eq_zero (Nat.le_zero.mp enough)]
    rfl
  | succ fuel ih =>
    cases free with
    | nil =>
      rw [findFree, if_pos (show b = 0 from chain)]
      rfl
    | cons a free =>
      obtain ⟨rfl, nz, rest⟩ := chain
      rw [findFree, if_neg nz, List.find?_cons]
      rw [List.length_cons] at enough
      split_ifs with fits
      · simp [fits]
      · simp [fits, ih _ rest (by omega)]

theorem le_growSize (bytes : Nat) : bytes ≤ growSize bytes := by
  simp only [growSize]
  split_ifs <;> omega

/-- Whole segments are whole pages. -/
theorem growSize_pages {bytes : Nat} (word : bytes < 2 ^ 32) :
    bytesToPages (growSize bytes) * pageSize = growSize bytes := by
  simp only [bytesToPages, growSize, wrap64, pageMask, pageSize]
  split_ifs <;> omega

theorem roundSize_lt (size : Nat) : roundSize size ≤ 2 ^ 32 - 16 := by
  simp only [roundSize, wrap32]
  omega

section Sizes

variable {s t : RtlHeap} {free used : List Nat}

theorem Taken.usable {b n size : Nat} (taken : Taken s t used b n) :
    Usable s t used (b + sizeofRtlBlock) size ↔ size ≤ blockSize t.mem b := by
  have header : sizeofRtlBlock = 16 := rfl
  have result : rtlSizeHeap t (b + sizeofRtlBlock) = blockSize t.mem b := by
    rw [rtlSizeHeap, if_pos (by omega), Nat.add_sub_cancel]
  refine ⟨fun usable => result ▸ usable.size, fun fits => ⟨result ▸ fits, ?_, ?_⟩⟩
  all_goals obtain ⟨free', laid⟩ := taken.laid
  · obtain ⟨g, mem, low, high⟩ := laid.inside b (by simp)
    exact ⟨g, mem, by omega, by omega⟩
  · intro a ha x low high inA
    have other : a ≠ b := by
      rintro rfl
      exact (List.nodup_cons.mp laid.nodup.of_append_right).1 ha
    have apart := laid.clear (a := a) (b := b) (by simp [ha]) (by simp) other
    rw [inBlock_payload] at inA
    rw [Clear, taken.kept.size ha] at apart
    omega

/-- A block cut off behind a header that leaves no room for it. -/
theorem not_usable_of_short {g : Segment} {r size : Nat} (segments : t.segments = g :: s.segments)
    (fresh : s.Fresh g) (low : g.base ≤ r) (inside : r < g.base + g.len)
    (long : g.base + g.len < r + size) : ¬ Usable s t used r size := by
  intro usable
  obtain ⟨o, mem, below, above⟩ := usable.inside
  rw [segments] at mem
  rcases List.mem_cons.mp mem with rfl | mem
  · omega
  · have apart := fresh.2.2 o (List.mem_append_left _ mem)
    omega

/-- Where the call gets its block from, once the heap has been initialised. -/
theorem rtlAllocateHeap_cases (laid : Laid s free used) (zero : Bool) (size : Nat)
    (answer : Nat → Option Segment) :
    ∃ c, Laid c free used ∧ c.magic ≠ 0 ∧ c = { s with magic := c.magic } ∧
      (∀ t b n, Taken c t used b n → Taken s t used b n) ∧
      match free.find? fun a => roundSize size ≤ blockSize s.mem a with
      | some b => ∃ t, rtlAllocateHeap s zero size answer = some (b + sizeofRtlBlock, t) ∧
          Taken s t used b (roundSize size) ∧ blockSize t.mem b = blockSize s.mem b
      | none => rtlAllocateHeap s zero size answer =
          let room := if c.left < roundSize size + sizeofRtlBlock then
            rtlHeapGrow c (wrap32 (roundSize size + sizeofRtlBlock)) answer else some c
          match room with
          | none => some (0, c)
          | some d => ((d.carve (roundSize size)).clear zero (d.cursor + sizeofRtlBlock)
              (roundSize size)).map fun t => (d.cursor + sizeofRtlBlock, t) := by
  have same := rtlCreateHeap_eq laid
  have created := laid.create
  have magic := rtlCreateHeap_magic s
  refine ⟨rtlCreateHeap s, created, magic, same, fun t b n taken => taken.of_create laid, ?_⟩
  have mem : (rtlCreateHeap s).mem = s.mem := by rw [same]
  have found := findFree_find (roundSize size) none created.chain
    (Nat.le_trans (by simp) created.bounded)
  rw [mem] at found
  simp only [rtlAllocateHeap, mem]
  cases first : free.find? fun a => roundSize size ≤ blockSize s.mem a with
  | none =>
    rw [first, Option.map_eq_none_iff] at found
    generalize findFree s.mem (roundSize size) (rtlCreateHeap s).headers none
      (rtlCreateHeap s).freeHead = hit at found ⊢
    cases found
    rfl
  | some b =>
    rw [first, Option.map_eq_some_iff] at found
    obtain ⟨⟨link, b'⟩, found, rfl⟩ := found
    obtain ⟨taken, size_⟩ := takeFree_spec created magic (mem ▸ found)
    obtain ⟨t, cleared, taken, same_, -⟩ := clear_spec taken zero
    rw [mem] at cleared size_
    refine ⟨t, by simp only [found, cleared, Option.map_some], taken.of_create laid, same_.trans ?_⟩
    rw [mem, size_]

theorem carve_clear (laid : Laid s free used) (magic : s.magic ≠ 0) {n : Nat} (word : n < 2 ^ 32)
    (fits : s.cursor + (sizeofRtlBlock + n) ≤ s.segmentEnd) (zero : Bool) :
    ∃ t, (s.carve n).clear zero (s.cursor + sizeofRtlBlock) n = some t ∧
      Taken s t used s.cursor n ∧ blockSize t.mem s.cursor = n := by
  obtain ⟨-, here, -⟩ := laid.carve magic word fits
  obtain ⟨t, cleared, taken, same, -⟩ := clear_spec (carve_taken laid magic word fits) zero
  exact ⟨t, cleared, taken, same.trans here⟩

theorem clear_cases (s : RtlHeap) (zero : Bool) (p n : Nat) :
    if zero = true ∧ ∃ i < n, ¬ s.Granted (p + i) then s.clear zero p n = none
    else ∃ t, s.clear zero p n = some t ∧ t.segments = s.segments := by
  rw [RtlHeap.clear]
  cases zero with
  | false => exact ⟨s, rfl, rfl⟩
  | true =>
    simp only [true_and, if_true]
    by_cases granted : ∀ i < n, s.Granted (p + i)
    · rw [if_pos granted, if_neg (by simpa using granted)]
      exact ⟨_, rfl, rfl⟩
    · rw [if_neg granted, if_pos (by simpa using granted)]

theorem sizes_of_taken {b n size : Nat} (taken : Taken s t used b n)
    {result : Option (Nat × RtlHeap)} (call : result = some (b + sizeofRtlBlock, t)) :
    (∀ r u, result = some (r, u) → r ≠ 0 → Usable s u used r size) ↔ size ≤ blockSize t.mem b := by
  rw [← taken.usable, call]
  constructor
  · exact fun law => law _ _ rfl (Nat.succ_ne_zero _)
  · rintro usable r u ⟨⟩ -
    exact usable

/-- The sizes that are rounded to one that fits into a segment with its header. -/
theorem size_le_round {size : Nat} (fits : roundSize size ≤ maxSize) :
    size ≤ roundSize size ↔ size ≤ maxSize :=
  ⟨fun less => Nat.le_trans less fits, fun small => (roundSize_le small).1⟩

theorem rtlAllocateHeap_sizes (laid : Laid s free used) {answer : Nat → Option Segment}
    (grants : s.Grants answer) (zero : Bool) (size : Nat) :
    (∀ r t, rtlAllocateHeap s zero size answer = some (r, t) → r ≠ 0 → Usable s t used r size) ↔
      SizeHolds s free zero size answer := by
  have limit : maxSize = 2 ^ 32 - 32 := rfl
  have header : sizeofRtlBlock = 16 := rfl
  obtain ⟨c, laid', magic, same, of_create, outcome⟩ := rtlAllocateHeap_cases laid zero size answer
  have left : c.left = s.left := by rw [same]; rfl
  have rounded : roundSize size ≤ 2 ^ 32 - 16 := roundSize_lt size
  rw [SizeHolds]
  cases first : free.find? fun a => roundSize size ≤ blockSize s.mem a with
  | some b =>
    rw [first] at outcome
    obtain ⟨t, call, taken, size_⟩ := outcome
    rw [sizes_of_taken taken call, size_]
    refine ⟨.inr, fun holds => holds.elim (fun small => ?_) id⟩
    exact (roundSize_le small).1.trans (taken.fits.trans_eq size_)
  | none =>
    rw [first] at outcome
    simp only [left] at outcome
    by_cases short : s.left < roundSize size + sizeofRtlBlock
    · simp only [if_pos short, rtlHeapGrow] at outcome
      cases granted : answer (growSize (wrap32 (roundSize size + sizeofRtlBlock))) with
      | none =>
        simp only [granted] at outcome
        refine iff_of_true (fun r t call nonzero => ?_) (.inr ⟨short, trivial⟩)
        obtain ⟨rfl, -⟩ := Prod.mk.inj (Option.some.inj (outcome.symm.trans call))
        exact absurd rfl nonzero
      | some g =>
        obtain ⟨len, fresh⟩ := grants _ g granted
        rw [growSize_pages (show wrap32 _ < 2 ^ 32 from Nat.mod_lt _ (by decide))] at len
        have fresh' : c.Fresh g := by
          rw [same]
          exact fresh
        simp only [granted] at outcome
        by_cases fits : roundSize size ≤ maxSize
        · have word : wrap32 (roundSize size + sizeofRtlBlock) = roundSize size + sizeofRtlBlock :=
            Nat.mod_eq_of_lt (by omega)
          have enough := le_growSize (roundSize size + sizeofRtlBlock)
          rw [word] at len
          obtain ⟨t, cleared, taken, size_⟩ := carve_clear (laid'.grow magic fresh') magic
            (n := roundSize size) (by omega) (by simp only; omega) zero
          simp only [cleared, Option.map_some] at outcome
          have whole : Taken c t used g.base (roundSize size) := by
            refine Taken.of_grown ?_ ?_ taken
            · rfl
            · exact ⟨rfl, rfl, List.subset_cons_self _ _⟩
          rw [sizes_of_taken (of_create t _ _ whole) outcome, size_, size_le_round fits]
          simp [fits]
        · -- the request is for nothing, and the segment of 64 KiB is far too short
          have word : wrap32 (roundSize size + sizeofRtlBlock) = 0 := by
            have whole : roundSize size % 16 = 0 := by
              simp only [roundSize]
              omega
            rw [wrap32]
            omega
          have small : g.len = 0x10000 := by
            rw [len, word]
            rfl
          have large : ¬ size ≤ maxSize := fun less => fits (roundSize_le less).2
          have long : maxSize < roundSize size := Nat.lt_of_not_le fits
          simp only [large, long, short, true_and, false_or]
          have segments : c.segments = s.segments := by rw [same]
          have others : c.others = s.others := by rw [same]
          let d : RtlHeap := { c with
            cursor := g.base
            segmentEnd := g.base + g.len
            segments := g :: c.segments }
          have sameMemory : ∀ x, (d.carve (roundSize size)).Granted x ↔
              RtlHeap.Granted { s with segments := g :: s.segments } x := by
            intro x
            rw [RtlHeap.Granted, RtlHeap.Granted, ← segments, ← others]
            rfl
          have cleared := clear_cases (d.carve (roundSize size)) zero (g.base + sizeofRtlBlock)
            (roundSize size)
          simp only [sameMemory] at cleared
          split_ifs at cleared with faults
          · refine iff_of_true (fun r t call _ => ?_) faults
            rw [cleared] at outcome
            exact absurd (outcome.symm.trans call) (by simp)
          · obtain ⟨t, cleared, kept⟩ := cleared
            refine iff_of_false (fun law => ?_) faults
            rw [cleared] at outcome
            refine not_usable_of_short (kept.trans (congrArg (g :: ·) segments)) fresh ?_ ?_ ?_
              (law _ _ outcome (Nat.succ_ne_zero _))
            · exact Nat.le_add_right ..
            · omega
            · omega
    · have room := left_le laid'
      have few : s.left < 2 ^ 32 := Nat.mod_lt _ (by decide)
      have fits : roundSize size ≤ maxSize := by
        have whole : roundSize size % 16 = 0 := by
          simp only [roundSize]
          omega
        omega
      obtain ⟨t, cleared, taken, size_⟩ := carve_clear laid' magic (n := roundSize size) (by omega)
        (by omega) zero
      simp only [if_neg short, cleared, Option.map_some] at outcome
      rw [sizes_of_taken (of_create t _ _ taken) outcome, size_, size_le_round fits]
      simp [short]

end Sizes

end Rtl
