import Mathlib.Data.List.Pairwise
import Svindows.Lib.Chain
import Svindows.Rtl.Heap

/-!
# The shape of the ntdll heap

The free list is threaded through the headers of blocks that are not used. Free
blocks and used ones do not overlap, lie in segments, and leave what is between the
cursor and the end of the current segment alone.
-/

namespace Rtl

open Nt ByteMemory

/-- Two blocks have no byte in common. -/
def Clear (m : Memory) (a b : Nat) : Prop :=
  a + sizeofRtlBlock + blockSize m a ≤ b ∨ b + sizeofRtlBlock + blockSize m b ≤ a

/-- The range is inside one of the segments. -/
def InSegment (segments : List Segment) (a e : Nat) : Prop :=
  ∃ g ∈ segments, g.base ≤ a ∧ e ≤ g.base + g.len

def SegmentsApart (segments : List Segment) : Prop :=
  segments.Pairwise fun g o => g.base + g.len ≤ o.base ∨ o.base + o.len ≤ g.base

structure Laid (s : RtlHeap) (free used : List Nat) : Prop where
  chain : Chain (blockNext s.mem) s.freeHead free
  apart : (free ++ used).Pairwise (Clear s.mem)
  inside : ∀ a ∈ free ++ used,
    InSegment s.segments a (a + sizeofRtlBlock + blockSize s.mem a)
  ahead : ∀ a ∈ free ++ used,
    a + sizeofRtlBlock + blockSize s.mem a ≤ s.cursor ∨ s.segmentEnd ≤ a
  room : s.cursor ≤ s.segmentEnd
  ended : s.segmentEnd ≤ mmUserMax
  current : s.cursor < s.segmentEnd → InSegment s.segments s.cursor s.segmentEnd
  bounded : (free ++ used).length ≤ s.headers
  segments : SegmentsApart (s.segments ++ s.others)
  user : ∀ g ∈ s.segments ++ s.others, 0 < g.base ∧ g.base + g.len ≤ mmUserMax
  idle : s.magic = 0 → s.freeHead = 0 ∧ s.cursor = 0 ∧ s.segmentEnd = 0 ∧ s.segments = []

variable {a b : Nat} {m : Memory}

theorem Clear.symm (clear : Clear m a b) : Clear m b a := Or.symm clear

theorem clear_congr {m' : Memory} (sizeA : blockSize m' a = blockSize m a)
    (sizeB : blockSize m' b = blockSize m b) : Clear m' a b ↔ Clear m a b := by
  rw [Clear, Clear, sizeA, sizeB]

theorem Clear.ne (clear : Clear m a b) : a ≠ b := by
  rintro rfl
  have header : sizeofRtlBlock = 16 := rfl
  rcases clear with low | high <;> omega

theorem blockSize_congr {m' : Memory}
    (same : ∀ x, a ≤ x → x < a + sizeofRtlBlock → m' x = m x) : blockSize m' a = blockSize m a := by
  simp only [blockSize]
  refine load_congr fun x low high => same x low ?_
  show x < a + 16
  omega

theorem blockNext_congr {m' : Memory}
    (same : ∀ x, a ≤ x → x < a + sizeofRtlBlock → m' x = m x) : blockNext m' a = blockNext m a := by
  simp only [blockNext]
  refine load_congr fun x low high => same x (by omega) ?_
  show x < a + 16
  omega

/-- Writing the link of a block keeps every size. -/
theorem blockSize_storeNext {next : Nat} (other : a = b ∨ Clear m a b) :
    blockSize (store m (b + 8) 8 next) a = blockSize m a := by
  have header : sizeofRtlBlock = 16 := rfl
  have apart : a + 4 ≤ b + 8 ∨ b + 8 + 8 ≤ a := by
    rcases other with rfl | low | high <;> omega
  simp only [blockSize]
  exact load_store_outside apart

theorem blockNext_storeNext {next : Nat} (clear : Clear m a b) :
    blockNext (store m (b + 8) 8 next) a = blockNext m a := by
  have header : sizeofRtlBlock = 16 := rfl
  have apart : a + 8 + 8 ≤ b + 8 ∨ b + 8 + 8 ≤ a + 8 := by
    rcases clear with low | high <;> omega
  simp only [blockNext]
  exact load_store_outside apart

theorem blockNext_here {next : Nat} (word : next < 2 ^ 64) :
    blockNext (store m (b + 8) 8 next) b = next := by
  rw [blockNext]
  exact load_store_same word

theorem blockNext_lt (m : Memory) (b : Nat) : blockNext m b < 2 ^ 64 := by
  rw [blockNext]
  exact load_lt m (b + 8) 8

section Laid

variable {s : RtlHeap} {free used : List Nat}

theorem Laid.clear (laid : Laid s free used) {a b : Nat} (ha : a ∈ free ++ used)
    (hb : b ∈ free ++ used) (ne : a ≠ b) : Clear s.mem a b := by
  have symm : Std.Symm (Clear s.mem) := ⟨fun _ _ clear => clear.symm⟩
  exact List.Pairwise.forall laid.apart ha hb ne

theorem Laid.nodup (laid : Laid s free used) : (free ++ used).Nodup :=
  laid.apart.imp fun clear => clear.ne

/-- Addresses of blocks are words, and none is null. -/
theorem Laid.word (laid : Laid s free used) {a : Nat} (ha : a ∈ free ++ used) :
    0 < a ∧ a + sizeofRtlBlock + blockSize s.mem a ≤ mmUserMax := by
  obtain ⟨g, mem, low, high⟩ := laid.inside a ha
  have user := laid.user g (List.mem_append_left _ mem)
  omega

theorem Laid.magic (laid : Laid s free used) {a : Nat} (ha : a ∈ free ++ used) : s.magic ≠ 0 := by
  intro zero
  obtain ⟨g, mem, -⟩ := laid.inside a ha
  rw [(laid.idle zero).2.2.2] at mem
  exact absurd mem List.not_mem_nil

theorem Laid.relink (laid : Laid s free used) {m : Memory} {head : Nat} {free' used' : List Nat}
    (perm : (free' ++ used').Perm (free ++ used))
    (sizes : ∀ a ∈ free ++ used, blockSize m a = blockSize s.mem a)
    (chain : Chain (blockNext m) head free') (magic : s.magic ≠ 0 ∨ head = s.freeHead) :
    Laid { s with mem := m, freeHead := head } free' used' where
  chain := chain
  apart := by
    refine (perm.symm.pairwise_iff fun clear => clear.symm).mp ?_
    refine List.Pairwise.imp_of_mem ?_ laid.apart
    intro a b ha hb clear
    exact (clear_congr (sizes a ha) (sizes b hb)).mpr clear
  inside a ha := by
    have ha' := perm.mem_iff.mp ha
    show InSegment s.segments a (a + sizeofRtlBlock + blockSize m a)
    rw [sizes a ha']
    exact laid.inside a ha'
  ahead a ha := by
    have ha' := perm.mem_iff.mp ha
    show a + sizeofRtlBlock + blockSize m a ≤ s.cursor ∨ s.segmentEnd ≤ a
    rw [sizes a ha']
    exact laid.ahead a ha'
  room := laid.room
  ended := laid.ended
  current := laid.current
  bounded := perm.length_eq.trans_le laid.bounded
  segments := laid.segments
  user := laid.user
  idle zero := by
    rcases magic with magic | same
    · exact absurd zero magic
    · exact ⟨same.trans (laid.idle zero).1, (laid.idle zero).2⟩

/-- Bytes outside all headers do not matter. -/
theorem Laid.frame (laid : Laid s free used) {m : Memory}
    (same : ∀ a ∈ free ++ used, ∀ x, a ≤ x → x < a + sizeofRtlBlock → m x = s.mem x) :
    Laid { s with mem := m } free used :=
  laid.relink (.refl _) (fun a ha => blockSize_congr (same a ha))
    (laid.chain.congr fun a ha => blockNext_congr (same a (List.mem_append_left _ ha))) (.inr rfl)

/-- Writing the payload of a used block touches no header and no other block. -/
theorem Laid.payload (laid : Laid s free used) {b : Nat} (mem : b ∈ used) {m : Memory}
    (same : ∀ x, x < b + sizeofRtlBlock ∨ b + sizeofRtlBlock + blockSize s.mem b ≤ x →
      m x = s.mem x) :
    Laid { s with mem := m } free used ∧ ∀ a ∈ free ++ used, ∀ x, a ≤ x →
      (x < a + sizeofRtlBlock ∨ a ≠ b ∧ x < a + sizeofRtlBlock + blockSize s.mem a) →
      m x = s.mem x := by
  have outside : ∀ a ∈ free ++ used, ∀ x, a ≤ x →
      (x < a + sizeofRtlBlock ∨ a ≠ b ∧ x < a + sizeofRtlBlock + blockSize s.mem a) →
      m x = s.mem x := by
    intro a ha x low high
    refine same x ?_
    by_cases here : a = b
    · subst here
      omega
    · rcases laid.clear ha (List.mem_append_right _ mem) here with before | behind <;> omega
  exact ⟨laid.frame fun a ha x low high => outside a ha x low (.inl high), outside⟩

/-- The fields that only records have. -/
theorem Laid.request (laid : Laid s free used) (ptr : Nat) (bytes : Option Nat) :
    Laid (s.request ptr bytes) free used :=
  ⟨laid.chain, laid.apart, laid.inside, laid.ahead, laid.room, laid.ended, laid.current,
    laid.bounded, laid.segments, laid.user, laid.idle⟩

/-- Memory that goes to other parts of the process. -/
theorem Laid.other (laid : Laid s free used) {g : Segment} (fresh : s.Fresh g) :
    Laid { s with others := g :: s.others } free used := by
  have perm : (s.segments ++ g :: s.others).Perm (g :: (s.segments ++ s.others)) :=
    List.perm_middle
  refine ⟨laid.chain, laid.apart, laid.inside, laid.ahead, laid.room, laid.ended, laid.current,
    laid.bounded, ?_, ?_, laid.idle⟩
  · refine (perm.symm.pairwise_iff fun apart => Or.symm apart).mp ?_
    exact List.pairwise_cons.mpr ⟨fun o mem => fresh.2.2 o mem, laid.segments⟩
  · intro o mem
    rcases List.mem_cons.mp (perm.mem_iff.mp mem) with rfl | mem
    · exact ⟨fresh.1, fresh.2.1⟩
    · exact laid.user o mem

/-- A heap that has nothing yet. -/
theorem Laid.empty (head : s.freeHead = 0) (cursor : s.cursor = 0) (ended : s.segmentEnd = 0)
    (none : s.segments = []) (apart : SegmentsApart s.others)
    (user : ∀ g ∈ s.others, 0 < g.base ∧ g.base + g.len ≤ mmUserMax) : Laid s [] [] where
  chain := head
  apart := .nil
  inside a mem := absurd mem List.not_mem_nil
  ahead a mem := absurd mem List.not_mem_nil
  room := by rw [cursor]; exact Nat.zero_le _
  ended := by rw [ended]; exact Nat.zero_le _
  current := by
    rw [cursor, ended]
    exact fun less => absurd less (Nat.lt_irrefl 0)
  bounded := Nat.zero_le _
  segments := by rwa [none]
  user := by rwa [none]
  idle _ := ⟨head, cursor, ended, none⟩

theorem rtlCreateHeap_eq (laid : Laid s free used) :
    rtlCreateHeap s = { s with magic := (rtlCreateHeap s).magic } := by
  rw [rtlCreateHeap]
  split_ifs with zero
  · obtain ⟨head, cursor, ended, -⟩ := laid.idle zero
    simp only [head, cursor, ended]
  · rfl

theorem rtlCreateHeap_magic (s : RtlHeap) : (rtlCreateHeap s).magic ≠ 0 := by
  rw [rtlCreateHeap]
  split_ifs with zero
  · exact Nat.succ_ne_zero _
  · exact zero

theorem Laid.create (laid : Laid s free used) : Laid (rtlCreateHeap s) free used := by
  have magic := rtlCreateHeap_magic s
  rw [rtlCreateHeap_eq laid]
  exact ⟨laid.chain, laid.apart, laid.inside, laid.ahead, laid.room, laid.ended, laid.current,
    laid.bounded, laid.segments, laid.user, fun zero => absurd zero magic⟩

/-- The rest of the current segment is dropped for a new one. -/
theorem Laid.grow (laid : Laid s free used) (magic : s.magic ≠ 0) {g : Segment}
    (fresh : s.Fresh g) :
    Laid { s with cursor := g.base, segmentEnd := g.base + g.len, segments := g :: s.segments }
      free used where
  chain := laid.chain
  apart := laid.apart
  inside a ha := by
    obtain ⟨o, mem, low, high⟩ := laid.inside a ha
    exact ⟨o, List.mem_cons_of_mem _ mem, low, high⟩
  ahead a ha := by
    obtain ⟨o, mem, low, high⟩ := laid.inside a ha
    have clear := fresh.2.2 o (List.mem_append_left _ mem)
    show a + sizeofRtlBlock + blockSize s.mem a ≤ g.base ∨ g.base + g.len ≤ a
    omega
  room := Nat.le_add_right ..
  ended := fresh.2.1
  current _ := ⟨g, List.mem_cons_self, le_rfl, le_rfl⟩
  bounded := laid.bounded
  segments := List.pairwise_cons.mpr ⟨fun o mem => fresh.2.2 o mem, laid.segments⟩
  user o mem := by
    rcases List.mem_cons.mp mem with rfl | mem
    · exact ⟨fresh.1, fresh.2.1⟩
    · exact laid.user o mem
  idle zero := absurd zero magic

theorem Laid.carve (laid : Laid s free used) (magic : s.magic ≠ 0) {size : Nat}
    (word : size < 2 ^ 32) (fits : s.cursor + (sizeofRtlBlock + size) ≤ s.segmentEnd) :
    Laid (s.carve size) free (s.cursor :: used) ∧ blockSize (s.carve size).mem s.cursor = size ∧
      ∀ a ∈ free ++ used, blockSize (s.carve size).mem a = blockSize s.mem a := by
  have header : sizeofRtlBlock = 16 := rfl
  have outside : ∀ a ∈ free ++ used, ∀ x, a ≤ x → x < a + sizeofRtlBlock →
      (s.carve size).mem x = s.mem x := by
    intro a ha x low high
    have ahead := laid.ahead a ha
    exact store_outside (by omega)
  have here : blockSize (s.carve size).mem s.cursor = size := by
    rw [blockSize]
    exact load_store_same word
  have sizes : ∀ a ∈ free ++ used, blockSize (s.carve size).mem a = blockSize s.mem a :=
    fun a ha => blockSize_congr (outside a ha)
  have perm : (free ++ s.cursor :: used).Perm (s.cursor :: (free ++ used)) := List.perm_middle
  obtain ⟨g, mem, low, high⟩ := laid.current (by omega)
  refine ⟨⟨?_, ?_, ?_, ?_, ?_, laid.ended, ?_, ?_, laid.segments, laid.user,
    fun zero => absurd zero magic⟩, here, sizes⟩
  · exact laid.chain.congr fun a ha => blockNext_congr (outside a (List.mem_append_left _ ha))
  · refine (perm.symm.pairwise_iff fun clear => clear.symm).mp ?_
    refine List.pairwise_cons.mpr ⟨fun a ha => ?_, ?_⟩
    · have ahead := laid.ahead a ha
      rw [Clear, here, sizes a ha]
      omega
    · refine List.Pairwise.imp_of_mem ?_ laid.apart
      intro a b ha hb clear
      exact (clear_congr (sizes a ha) (sizes b hb)).mpr clear
  · intro a ha
    rcases List.mem_cons.mp (perm.mem_iff.mp ha) with rfl | ha
    · rw [here]
      exact ⟨g, mem, low, by omega⟩
    · rw [sizes a ha]
      exact laid.inside a ha
  · intro a ha
    show _ ≤ s.cursor + (sizeofRtlBlock + size) ∨ s.segmentEnd ≤ a
    rcases List.mem_cons.mp (perm.mem_iff.mp ha) with rfl | ha
    · rw [here]
      omega
    · have ahead := laid.ahead a ha
      rw [sizes a ha]
      omega
  · exact fits
  · intro _
    exact ⟨g, mem, Nat.le_trans low (Nat.le_add_right ..), high⟩
  · rw [perm.length_eq, List.length_cons]
    exact Nat.succ_le_succ laid.bounded

end Laid

end Rtl
