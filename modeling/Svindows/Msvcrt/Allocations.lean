import Svindows.Kernel32.HeapSizes
import Svindows.Rtl.HeapSizes

/-!
# Allocations of msvcrt

`malloc`, `calloc`, `realloc` and `free` on the process heap. `calloc` multiplies on words,
and a product that wraps asks for a small block. `realloc` copies as many bytes as the new
block has and frees the old one even if there is no new one.
-/

namespace Msvcrt

open Nt ByteMemory Kernel32

def malloc (s : Process) (h n : Nat) (answer : Nat → Option Nat) : Option (Nat × Process) :=
  wordHeapAlloc s h false (if n ≠ 0 then n else 1) answer

def free (s : Process) (h p : Nat) : Process := if p ≠ 0 then heapFree s h p else s

def calloc (s : Process) (h count size : Nat) (answer : Nat → Option Nat) :
    Option (Nat × Process) := do
  let total := wrap64 (count * size)
  let (p, s) ← malloc s h total answer
  if p ≠ 0 then
    let s ← s.memset p 0 total
    some (p, s)
  else some (p, s)

/-- What `realloc` returns and leaves, and how many bytes from the old block on it reads. -/
structure Resized where
  pointer : Nat
  read : Nat
  process : Process

/-- `realloc`. What `memcpy` reads is only noted here, whether it is there or not; the call
is none if `malloc` faults. -/
def realloc (s : Process) (h p n : Nat) (answer : Nat → Option Nat) : Option Resized :=
  if p = 0 then (malloc s h n answer).map fun (fresh, s) => ⟨fresh, 0, s⟩
  else if n = 0 then some ⟨0, 0, free s h p⟩
  else do
    let (fresh, s) ← malloc s h n answer
    if fresh ≠ 0 then
      let s := { s with bytes := copyBytes s.bytes fresh p n }
      some ⟨fresh, n, free s h p⟩
    else some ⟨fresh, 0, free s h p⟩

/-- The products that do not wrap, or wrap to a size for which there is no memory. -/
def CallocHolds (s : Process) (as : List Nat) (count size : Nat) (answer : Nat → Option Nat) :
    Prop :=
  let total := wrap64 (count * size)
  count * size < 2 ^ 64 ∨ mmUserMax < total ∨
    Exhausted s as (if total ≠ 0 then total else 1) answer

section Calloc

variable {s : Process} {h : Nat} {as : List Nat}

theorem small_of_user {n : Nat} (user : n ≤ mmUserMax) :
    sizeofBlock + growPayload (allocSize n) ≤ 2 ^ 64 - 4096 := by
  have block : sizeofBlock = 24 := rfl
  have most : mmUserMax = 2 ^ 47 := rfl
  simp only [growPayload, allocSize, alignUp8]
  split_ifs <;> omega

theorem calloc_of_malloc {count size p : Nat} {answer : Nat → Option Nat} {u : Process}
    (given : malloc s h (wrap64 (count * size)) answer = some (p, u)) :
    calloc s h count size answer =
      if p ≠ 0 then (u.memset p 0 (wrap64 (count * size))).map fun u => (p, u)
      else some (p, u) := by
  simp only [calloc, given, Option.bind_eq_bind, Option.bind_some]
  split_ifs
  · cases u.memset p 0 (wrap64 (count * size)) <;> rfl
  · rfl

/-- Exactly when a block that `calloc` returns has room for the product. -/
theorem calloc_sizes (shape : Shape s h as) (nonzero : h ≠ 0)
    (user : ∀ g ∈ s.grants, g.base + g.len ≤ mmUserMax) {answer : Nat → Option Nat}
    (grants : s.Grants answer) (count size : Nat) :
    (∀ r t, calloc s h count size answer = some (r, t) → r ≠ 0 →
      Usable s t h as r (count * size)) ↔ CallocHolds s as count size answer := by
  have most : mmUserMax = 2 ^ 47 := rfl
  have wraps : count * size < 2 ^ 64 ↔ count * size = wrap64 (count * size) := by
    rw [wrap64]
    omega
  by_cases large : mmUserMax < wrap64 (count * size)
  · -- whatever block is returned, it cannot be cleared
    refine iff_of_true (fun r t call found => ?_) (.inr (.inl large))
    cases given : malloc s h (wrap64 (count * size)) answer with
    | none => simp [calloc, given] at call
    | some result =>
      obtain ⟨p, u⟩ := result
      have off : ∃ i < wrap64 (count * size), ¬ u.Granted (p + i) :=
        ⟨mmUserMax, large, not_granted (wordHeapAlloc_user user grants given) (Nat.le_add_left ..)⟩
      have cleared := Process.memset_cases u p 0 (wrap64 (count * size))
      rw [if_pos off] at cleared
      rw [calloc_of_malloc given, cleared, Option.map_none] at call
      split_ifs at call with null
      cases call
      exact absurd found null
  · have small := small_of_user
      (n := if wrap64 (count * size) ≠ 0 then wrap64 (count * size) else 1)
      (by split_ifs <;> omega)
    obtain ⟨p, u, given, null⟩ := wordHeapAlloc_small shape nonzero user grants false small
    have usable := wordHeapAlloc_usable shape nonzero user grants false small given
    rw [CallocHolds, or_iff_right large, ← null, calloc_of_malloc given]
    by_cases failed : p = 0
    · rw [if_neg (not_not.mpr failed)]
      refine iff_of_true (fun r t call found => ?_) (.inr failed)
      cases call
      exact absurd failed found
    · have room : Usable s u h as p (wrap64 (count * size)) :=
        (usable failed).shorter (by split_ifs <;> omega)
      have covered : ¬ ∃ i < wrap64 (count * size), ¬ u.Granted (p + i) := by
        rintro ⟨i, low, off⟩
        obtain ⟨g, mem, -, range⟩ := room.inside (p + i) (by omega) (by omega)
        exact off ⟨g, mem, range⟩
      have cleared := Process.memset_cases u p 0 (wrap64 (count * size))
      rw [if_neg covered] at cleared
      rw [if_pos failed, cleared, or_iff_left failed, Option.map_some, wraps]
      constructor
      · intro law
        by_contra wrapped
        have whole := law _ _ rfl failed
        have uncleared : Usable s u h as p (count * size) := ⟨whole.size, whole.inside, whole.apart⟩
        exact not_usable_of_large (wordHeapAlloc_user user grants given)
          (show mmUserMax < count * size by omega) uncleared
      · rintro whole r t ⟨⟩ -
        rw [whole]
        exact ⟨room.size, room.inside, room.apart⟩

end Calloc

/-- A block that is in use, of at least `n` bytes. -/
def Live (s : Process) (h p n : Nat) : Prop :=
  ∃ as m, Links s.blocks (s.first h) as 0 ∧ Used s.blocks as p m ∧ n ≤ m

/-- What `realloc` of a block of `old` bytes should return and read. -/
structure ResizeLaw (s : Process) (h : Nat) (as : List Nat) (p old n : Nat) (c : Resized) :
    Prop where
  result : c.pointer ≠ 0 → Usable s c.process h as c.pointer n
  contents : c.pointer ≠ 0 → ∀ i < min old n, c.process.bytes (c.pointer + i) = s.bytes (p + i)
  within : c.read ≤ old
  failed : c.pointer = 0 →
    Live c.process h p old ∧ ∀ i < old, c.process.bytes (p + i) = s.bytes (p + i)

/-- A request for which the system call answers without granting a page. -/
def NoPages (n : Nat) (answer : Nat → Option Nat) : Prop :=
  2 ^ 64 - 4096 < sizeofBlock + alignUp8 n ∧ sizeofBlock + alignUp8 n < 2 ^ 64 ∧
    (answer (sizeofBlock + alignUp8 n)).isSome

/-- The block becomes no larger, and there is memory for the copy; or `malloc` faults. -/
def ReallocHolds (s : Process) (as : List Nat) (old n : Nat) (answer : Nat → Option Nat) : Prop :=
  n ≤ old ∧ ¬ Exhausted s as n answer ∨ NoPages n answer

section Realloc

variable {s : Process} {h : Nat} {as : List Nat} {p m old n : Nat} {answer : Nat → Option Nat}

theorem realloc_null (used : Used s.blocks as p m) (some_ : n ≠ 0) {t : Process}
    (null : wordHeapAlloc s h false n answer = some (0, t)) :
    realloc s h p n answer = some ⟨0, 0, heapFree t h p⟩ := by
  have pointer := used.ne_zero
  simp [realloc, malloc, free, pointer, some_, null]

theorem realloc_found (used : Used s.blocks as p m) (some_ : n ≠ 0) {r : Nat} {t : Process}
    (found : r ≠ 0) (given : wordHeapAlloc s h false n answer = some (r, t)) :
    realloc s h p n answer =
      some ⟨r, n, heapFree { t with bytes := copyBytes t.bytes r p n } h p⟩ := by
  have pointer := used.ne_zero
  simp [realloc, malloc, free, pointer, some_, given, found]

theorem not_live_freed (shape : Shape s h as) (nonzero : h ≠ 0) (used : Used s.blocks as p m) :
    ¬ Live (heapFree s h p) h p old := by
  rintro ⟨as', k, links, still, -⟩
  obtain ⟨as'', outcome, others, -, -⟩ := heapFree_spec shape nonzero used
  have same : as' = as'' := links_unique links outcome.shape.links
  rw [same, others] at still
  exact still.2 rfl

/-- A call in which `malloc` finds nothing. -/
theorem not_law_of_null (shape : Shape s h as) (nonzero : h ≠ 0) (used : Used s.blocks as p m)
    (some_ : n ≠ 0) (grants : s.Grants answer) {t : Process}
    (null : wordHeapAlloc s h false n answer = some (0, t)) :
    ¬ ∀ c, realloc s h p n answer = some c → ResizeLaw s h as p old n c := by
  intro law
  rw [wordHeapAlloc_null grants null] at null
  exact not_live_freed shape nonzero used ((law _ (realloc_null used some_ null)).failed rfl).1

/-- A call that reads behind the old block. -/
theorem not_law_of_longer (used : Used s.blocks as p m) (some_ : n ≠ 0) (longer : old < n) {r : Nat}
    {t : Process} (found : r ≠ 0) (given : wordHeapAlloc s h false n answer = some (r, t)) :
    ¬ ∀ c, realloc s h p n answer = some c → ResizeLaw s h as p old n c := by
  intro law
  have within := (law _ (realloc_found used some_ found given)).within
  exact absurd within (Nat.not_le.mpr longer)

theorem heapFree_more (s : Process) (h p : Nat) (more : List Grant) :
    heapFree { s with grants := more } h p = { heapFree s h p with grants := more } := by
  simp only [heapFree]
  split_ifs <;> rfl

/-- A block that becomes no larger is moved. -/
theorem law_of_shorter (shape : Shape s h as) (nonzero : h ≠ 0)
    (user : ∀ g ∈ s.grants, g.base + g.len ≤ mmUserMax) (grants : s.Grants answer)
    (used : Used s.blocks as p m) (some_ : n ≠ 0) (shorter : n ≤ old) (fits : old ≤ m)
    (small : sizeofBlock + growPayload (allocSize n) ≤ 2 ^ 64 - 4096) {r : Nat} {t : Process}
    (found : r ≠ 0) (given : wordHeapAlloc s h false n answer = some (r, t)) :
    ∀ c, realloc s h p n answer = some c → ResizeLaw s h as p old n c := by
  intro c call
  rw [realloc_found used some_ found given] at call
  cases call
  have usable := wordHeapAlloc_usable shape nonzero user grants false small given found
  obtain ⟨fresh, more, covered, same⟩ :=
    wordHeapAlloc_eq shape nonzero user grants false small
  obtain ⟨rfl, rfl⟩ := Prod.mk.inj (Option.some.inj (same.symm.trans given))
  rcases heapAlloc_spec shape false n fresh with failed | ⟨b, bs, result, taken⟩
  · rw [failed] at found
    exact absurd rfl found
  · rw [← result] at taken
    obtain ⟨as', moved⟩ := move_spec nonzero used taken
      (show n = if m < n then m else n by rw [if_neg (by omega)])
    generalize (heapAlloc s h false n (answer (sizeofBlock + growPayload (allocSize n)))).1 = r at *
    generalize (heapAlloc s h false n (answer (sizeofBlock + growPayload (allocSize n)))).2 = t at *
    have freed := heapFree_more { t with bytes := copyBytes t.bytes r p n } h p more
    refine ⟨fun _ => ⟨?_, ?_, usable.apart⟩, fun _ i less => ?_, shorter,
      fun null => absurd null found⟩
    · obtain ⟨k, long, after, -⟩ := moved.used
      obtain ⟨a, -, -, rfl, size⟩ := (after _ k).mpr (.inr ⟨rfl, rfl⟩)
      simp only [freed, Nat.add_sub_cancel]
      exact long.trans_eq size
    · simp only [heapFree_grants]
      exact usable.inside
    · simp only [freed]
      exact moved.contents i (by omega) (by omega)

/-- Sizes next to the end of the words are rounded to a request for one page. -/
theorem pages_of_wrapped (low : 2 ^ 64 - 24 < n) (word : n < 2 ^ 64) :
    pagesFor (wrap64 (sizeofBlock + wordPayload (wordAlignUp8 (if n ≠ 0 then n else 1)))) ≠ 0 := by
  have sizes : wordAlignUp8 n = 0 ∨ wordAlignUp8 n = 2 ^ 64 - 16 ∨ wordAlignUp8 n = 2 ^ 64 - 8 := by
    simp only [wordAlignUp8, wrap64]
    omega
  rw [if_pos (by omega)]
  rcases sizes with same | same | same
  all_goals
    rw [same]
    decide

/-- A request too large to be mapped that does not wrap. -/
theorem noPages_iff (refused : n ≤ 2 ^ 64 - 24)
    (large : 2 ^ 64 - 4096 < sizeofBlock + growPayload (allocSize n)) :
    NoPages n answer ↔ (ntAlloc answer (wrap64 (sizeofBlock + alignUp8 n))).isSome := by
  have block : sizeofBlock = 24 := rfl
  have range : 2 ^ 64 - 4096 < sizeofBlock + alignUp8 n ∧ sizeofBlock + alignUp8 n ≤ 2 ^ 64 := by
    simp only [growPayload, allocSize, alignUp8] at large ⊢
    split_ifs at large <;> omega
  rw [NoPages, and_iff_right range.1, ntAlloc]
  by_cases whole : sizeofBlock + alignUp8 n = 2 ^ 64
  · simp [whole, wrap64]
  · have less : sizeofBlock + alignUp8 n < 2 ^ 64 := by omega
    rw [show wrap64 (sizeofBlock + alignUp8 n) = _ from Nat.mod_eq_of_lt less, if_neg (by omega),
      and_iff_right less]

/-- Exactly when `realloc` keeps its law, for a block in use of at least `old` bytes. -/
theorem realloc_law (shape : Shape s h as) (nonzero : h ≠ 0)
    (user : ∀ g ∈ s.grants, g.base + g.len ≤ mmUserMax) (grants : s.Grants answer)
    (used : Used s.blocks as p m) (fits : old ≤ m) (positive : 0 < n) (word : n < 2 ^ 64) :
    (∀ c, realloc s h p n answer = some c → ResizeLaw s h as p old n c) ↔
      ReallocHolds s as old n answer := by
  have block : sizeofBlock = 24 := rfl
  have most : mmUserMax = 2 ^ 47 := rfl
  have some_ : n ≠ 0 := by omega
  have rounded : allocSize n = alignUp8 n := by rw [allocSize, if_pos some_]
  by_cases small : sizeofBlock + growPayload (allocSize n) ≤ 2 ^ 64 - 4096
  · have pages : ¬ NoPages n answer := by
      rintro ⟨low, -, -⟩
      have := growPayload_le (allocSize n)
      omega
    obtain ⟨r, t, given, null⟩ := wordHeapAlloc_small shape nonzero user grants false small
    rw [ReallocHolds, or_iff_left pages, ← null]
    by_cases found : r = 0
    · rw [found] at given
      exact iff_of_false (not_law_of_null shape nonzero used some_ grants given)
        fun holds => holds.2 found
    · by_cases shorter : n ≤ old
      · exact iff_of_true (law_of_shorter shape nonzero user grants used some_ shorter fits small
          found given) ⟨shorter, found⟩
      · exact iff_of_false (not_law_of_longer used some_ (Nat.lt_of_not_le shorter) found given)
          fun holds => shorter holds.1
  · have longer : old < n := by
      obtain ⟨a, mem, -, rfl, rfl⟩ := used
      have := shape.size_le user mem
      by_contra shorter
      exact small (small_of_user (by omega))
    rw [ReallocHolds, or_iff_right fun holds => absurd holds.1 (Nat.not_le.mpr longer)]
    by_cases refused : n ≤ 2 ^ 64 - 24
    · have call := wordHeapAlloc_refused shape nonzero user grants false refused
        (Nat.lt_of_not_le small)
      rw [noPages_iff refused (Nat.lt_of_not_le small)]
      split_ifs at call with granted
      · refine iff_of_true (fun c result => ?_) granted
        simp [realloc, malloc, used.ne_zero, some_, call] at result
      · exact iff_of_false (not_law_of_null shape nonzero used some_ grants call) granted
    · have pages : ¬ NoPages n answer := by
        rintro ⟨-, high, -⟩
        have := alignUp8_le n
        omega
      cases given : wordHeapAlloc s h false n answer with
      | none =>
        exact absurd given
          (wordHeapAlloc_returns grants (pages_of_wrapped (Nat.lt_of_not_le refused) word))
      | some result =>
        obtain ⟨r, t⟩ := result
        refine iff_of_false ?_ pages
        by_cases found : r = 0
        · rw [found] at given
          exact not_law_of_null shape nonzero used some_ grants given
        · exact not_law_of_longer used some_ longer found given

end Realloc

/-- Exactly when the blocks that the three allocators return have the size that was asked
for, on well-formed heaps in the user half. -/
theorem allocations_have_size {s : Process} {h : Nat} {as : List Nat} (shape : Shape s h as)
    (nonzero : h ≠ 0) (user : ∀ g ∈ s.grants, g.base + g.len ≤ mmUserMax)
    {answer : Nat → Option Nat} (grants : s.Grants answer)
    {r : Rtl.RtlHeap} {free used : List Nat} (laid : Rtl.Laid r free used)
    {segment : Nat → Option Rtl.Segment} (segments : r.Grants segment) :
    (∀ zero bytes, bytes < 2 ^ 64 →
      ((∀ p t, wordHeapAlloc s h zero bytes answer = some (p, t) → p ≠ 0 →
        Usable s t h as p bytes) ↔ AllocHolds s as zero bytes answer)) ∧
    (∀ zero size,
      (∀ p t, Rtl.rtlAllocateHeap r zero size segment = some (p, t) → p ≠ 0 →
        Rtl.Usable r t used p size) ↔ Rtl.SizeHolds r free zero size segment) ∧
    ∀ count size,
      (∀ p t, calloc s h count size answer = some (p, t) → p ≠ 0 →
        Usable s t h as p (count * size)) ↔ CallocHolds s as count size answer :=
  ⟨fun zero _ word => wordHeapAlloc_sizes shape nonzero user grants zero word,
    Rtl.rtlAllocateHeap_sizes laid segments, calloc_sizes shape nonzero user grants⟩

/-- A new process heap, with one free block of 64 KiB. -/
def processHeap : Process := (heapCreate emptyProcess 0x10000 (some 0x10000000)).2

/-- Up to a gigabyte, at 512 MiB. -/
def nextPages (bytes : Nat) : Option Nat :=
  if pagesFor bytes ≤ 0x40000000 then some 0x20000000 else none

theorem processHeap_user : ∀ g ∈ processHeap.grants, g.base + g.len ≤ mmUserMax := by
  decide

theorem nextPages_grants : processHeap.Grants nextPages := by
  intro bytes b granted
  rw [nextPages] at granted
  split_ifs at granted with small
  cases granted
  have fresh : Fresh processHeap 0x20000000 0x40000000 := by
    refine ⟨by decide, by decide, ?_⟩
    decide
  exact fresh.shorter (by omega)

/-- Up to 64 KiB. -/
def nextSegment (size : Nat) : Option Rtl.Segment :=
  if bytesToPages size * pageSize = 0x10000 then some ⟨0x30000000, 0x10000⟩ else none

theorem nextSegment_grants : Rtl.noHeap.Grants nextSegment := by
  intro size g granted
  rw [nextSegment] at granted
  split_ifs at granted with whole
  cases granted
  exact ⟨whole.symm, by decide, by decide, fun o mem => absurd mem List.not_mem_nil⟩

theorem noHeap_laid : Rtl.Laid Rtl.noHeap [] [] where
  chain := rfl
  apart := .nil
  inside a mem := absurd mem List.not_mem_nil
  ahead a mem := absurd mem List.not_mem_nil
  room := le_rfl
  ended := by decide
  current room := absurd room (by decide)
  bounded := le_rfl
  segments := .nil
  user g mem := absurd mem List.not_mem_nil
  idle _ := ⟨rfl, rfl, rfl, rfl⟩

theorem allocations_have_size_sector :
    ∃ t, calloc processHeap 0x10000000 64 8 nextPages = some (0x10000020, t) ∧
      Usable processHeap t 0x10000000 [0x10000008] 0x10000020 512 := by
  have sector : (calloc processHeap 0x10000000 64 8 nextPages).map Prod.fst =
      some 0x10000020 := by
    decide +kernel
  obtain ⟨⟨_, t⟩, made, rfl⟩ := Option.map_eq_some_iff.mp sector
  exact ⟨t, made, ((allocations_have_size (create_shape emptyProcess 0x10000000 0x10000)
    (by decide) processHeap_user nextPages_grants noHeap_laid nextSegment_grants).2.2 64 8).mpr
      (.inl (by decide)) _ t made (by decide)⟩

/-- A gigantic request gets a block of 0 bytes, or of 8 bytes where the product wraps to 8;
`RtlAllocateHeap` cuts the size to its low 32 bits. -/
theorem gigantic_requests :
    (wordHeapAlloc processHeap 0x10000000 false (2 ^ 64 - 1) nextPages).map
      (fun (p, t) => (p, (t.blocks (p - sizeofBlock)).size)) = some (0x10000020, 0) ∧
    (calloc processHeap 0x10000000 (2 ^ 61 + 1) 8 nextPages).map
      (fun (p, t) => (p, (t.blocks (p - sizeofBlock)).size)) = some (0x10000020, 8) ∧
    (Rtl.rtlAllocateHeap Rtl.noHeap false (2 ^ 32 + 16) nextSegment).map
      (fun (p, t) => (p, Rtl.rtlSizeHeap t p)) = some (0x30000010, 16) := by
  refine ⟨?_, ?_, ?_⟩ <;> decide +kernel

/-- The process heap with a block of 8 bytes. -/
def lineHeap : Process := (heapAlloc processHeap 0x10000000 false 8 none).2

theorem lineHeap_shape : ∃ as m, Shape lineHeap 0x10000000 as ∧
    Used lineHeap.blocks as 0x10000020 m ∧ 8 ≤ m := by
  have fresh : ∀ b, none = some b →
      Fresh processHeap b (sizeofBlock + growPayload (allocSize 8)) := by simp
  rcases heapAlloc_spec (create_shape emptyProcess 0x10000000 0x10000) false 8 fresh
    with failed | ⟨b, as, result, taken⟩
  · exact absurd (congrArg Prod.fst failed) (by decide)
  · obtain ⟨m, long, used⟩ := taken.used
    have here : b + sizeofBlock = 0x10000020 := result.symm.trans (by decide)
    exact ⟨as, m, taken.shape, (used _ m).mpr (.inr ⟨here.symm, rfl⟩), long⟩

theorem lineHeap_grants : lineHeap.grants = processHeap.grants := by decide

theorem realloc_law_line : ∃ as c, Shape lineHeap 0x10000000 as ∧
    realloc lineHeap 0x10000000 0x10000020 4 nextPages = some c ∧
      ResizeLaw lineHeap 0x10000000 as 0x10000020 8 4 c := by
  obtain ⟨as, m, shape, used, long⟩ := lineHeap_shape
  have user : ∀ g ∈ lineHeap.grants, g.base + g.len ≤ mmUserMax := by
    rw [lineHeap_grants]
    exact processHeap_user
  have grants : lineHeap.Grants nextPages := by
    intro bytes b granted
    obtain ⟨positive, high, apart⟩ := nextPages_grants bytes b granted
    exact ⟨positive, high, by rwa [lineHeap_grants]⟩
  have returns : (realloc lineHeap 0x10000000 0x10000020 4 nextPages).isSome := by decide +kernel
  obtain ⟨c, returned⟩ := Option.isSome_iff_exists.mp returns
  refine ⟨as, c, shape, returned, (realloc_law shape (by decide) user grants used long
    (by decide) (by decide)).mpr (.inl ⟨by decide, fun exhausted => ?_⟩) c returned⟩
  exact absurd exhausted.2 (by decide)

/-- A block of 8 bytes that becomes one of 16 is read for 16 bytes, and where there is no
memory for the larger block, the old one is freed. -/
theorem realloc_reads_and_frees :
    (realloc lineHeap 0x10000000 0x10000020 16 nextPages).map
      (fun c => (c.pointer, c.read)) = some (0x10000040, 16) ∧
    (realloc lineHeap 0x10000000 0x10000020 0x80000000 nextPages).map
      (fun c => (c.pointer, (c.process.blocks 0x10000008).free)) = some (0, true) := by
  refine ⟨?_, ?_⟩ <;> decide +kernel

end Msvcrt
