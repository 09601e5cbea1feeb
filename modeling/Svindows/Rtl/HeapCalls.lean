import Svindows.Rtl.HeapShape

/-!
# The calls of the ntdll heap

What `RtlAllocateHeap`, `RtlFreeHeap` and `RtlReAllocateHeap` do to a heap of good shape:
which blocks are used afterwards, that they are large enough, and that the bytes of
the other used blocks stay what they were.
-/

namespace Rtl

open Nt ByteMemory

theorem findFree_some {m : Memory} {size fuel : Nat} {link : Option Nat} {b : Nat} {free : List Nat}
    (chain : Chain (blockNext m) b free) {l : Option Nat} {c : Nat}
    (found : findFree m size fuel link b = some (l, c)) :
    ∃ pre post, free = pre ++ c :: post ∧ size ≤ blockSize m c ∧
      ((pre = [] ∧ l = link) ∨ ∃ front p, pre = front ++ [p] ∧ l = some p) := by
  induction fuel generalizing link b free with
  | zero => cases found
  | succ fuel ih =>
    cases free with
    | nil =>
      rw [findFree, if_pos (show b = 0 from chain)] at found
      cases found
    | cons a free =>
      obtain ⟨rfl, nz, rest⟩ := chain
      rw [findFree, if_neg nz] at found
      split_ifs at found with fits
      · cases found
        exact ⟨[], free, rfl, fits, .inl ⟨rfl, rfl⟩⟩
      · obtain ⟨pre, post, rfl, fits, ends⟩ := ih rest found
        refine ⟨b :: pre, post, rfl, fits, .inr ?_⟩
        rcases ends with ⟨rfl, rfl⟩ | ⟨front, p, rfl, rfl⟩
        · exact ⟨[], b, rfl, rfl⟩
        · exact ⟨b :: front, p, rfl, rfl⟩

/-- Blocks outside the heap's own records: what is asked for, and other ranges. -/
structure Records (s s' : RtlHeap) : Prop where
  requested : s'.requested = s.requested
  others : s'.others = s.others
  segments : s.segments ⊆ s'.segments

theorem Records.trans {s s' s'' : RtlHeap} (one : Records s s') (two : Records s' s'') :
    Records s s'' :=
  ⟨two.requested.trans one.requested, two.others.trans one.others,
    List.Subset.trans one.segments two.segments⟩

theorem setLink_records (s : RtlHeap) (link : Option Nat) (next : Nat) :
    Records s (s.setLink link next) := by
  cases link <;> exact ⟨rfl, rfl, List.Subset.refl _⟩

/-- The bytes of the blocks, headers included, are as before. -/
def Kept (s s' : RtlHeap) (blocks : List Nat) : Prop :=
  ∀ a ∈ blocks, ∀ x, a ≤ x → x < a + sizeofRtlBlock + blockSize s.mem a → s'.mem x = s.mem x

theorem Kept.size {s s' : RtlHeap} {blocks : List Nat} (kept : Kept s s' blocks) {a : Nat}
    (mem : a ∈ blocks) : blockSize s'.mem a = blockSize s.mem a :=
  blockSize_congr fun x low high => kept a mem x low (by omega)

/-- One block, which was not used, is used now and has at least `size` bytes. -/
structure Taken (s s' : RtlHeap) (used : List Nat) (b size : Nat) : Prop where
  laid : ∃ free, Laid s' free (b :: used)
  fits : size ≤ blockSize s'.mem b
  kept : Kept s s' used
  records : Records s s'

section Calls

variable {s : RtlHeap} {free used : List Nat}

/-- The block that the loop finds leaves the free list. -/
theorem takeFree_spec (laid : Laid s free used) (magic : s.magic ≠ 0) {size : Nat}
    {link : Option Nat} {b : Nat}
    (found : findFree s.mem size s.headers none s.freeHead = some (link, b)) :
    Taken s (s.setLink link (blockNext s.mem b)) used b size ∧
      blockSize (s.setLink link (blockNext s.mem b)).mem b = blockSize s.mem b := by
  obtain ⟨pre, post, rfl, fits, ends⟩ := findFree_some laid.chain found
  have perm : ((pre ++ post) ++ b :: used).Perm ((pre ++ b :: post) ++ used) := by
    simp only [List.append_assoc, List.cons_append]
    refine .append_left pre ?_
    exact List.perm_middle
  rcases ends with ⟨rfl, rfl⟩ | ⟨front, p, rfl, rfl⟩
  · have relinked := laid.relink (m := s.mem) perm (fun _ _ => rfl) laid.chain.tail (.inl magic)
    exact ⟨⟨⟨post, relinked⟩, fits, fun _ _ _ _ _ => rfl, setLink_records ..⟩, rfl⟩
  · rw [List.append_assoc, List.singleton_append] at laid
    have perm : ((front ++ p :: post) ++ b :: used).Perm ((front ++ p :: b :: post) ++ used) := by
      simpa using perm
    have word := blockNext_lt s.mem b
    have absent : p ∉ front ++ (b :: post ++ used) := by
      have nodup := laid.nodup
      rw [List.append_assoc, List.cons_append, List.nodup_middle] at nodup
      exact (List.nodup_cons.mp nodup).1
    have members : ∀ a, a ∈ (front ++ p :: b :: post) ++ used ↔
        a = p ∨ a ∈ front ++ (b :: post ++ used) := by
      intro a
      rw [List.append_assoc, List.cons_append, List.mem_append, List.mem_append, List.mem_cons]
      tauto
    have clear : ∀ a ∈ front ++ (b :: post ++ used), Clear s.mem a p := by
      intro a ha
      refine laid.clear ((members a).mpr (.inr ha)) ((members p).mpr (.inl rfl)) ?_
      rintro rfl
      exact absent ha
    have sizes : ∀ a ∈ (front ++ p :: b :: post) ++ used,
        blockSize (store s.mem (p + 8) 8 (blockNext s.mem b)) a = blockSize s.mem a := by
      intro a ha
      exact blockSize_storeNext (((members a).mp ha).imp id (clear a))
    have chain : Chain (blockNext (store s.mem (p + 8) 8 (blockNext s.mem b))) s.freeHead
        (front ++ p :: post) := by
      refine laid.chain.unlink (blockNext_here word) fun x mem => blockNext_storeNext (clear x ?_)
      simp only [List.mem_append, List.mem_cons] at mem ⊢
      tauto
    have size_ := sizes b ((members b).mpr (.inr (by simp)))
    refine ⟨⟨⟨_, laid.relink perm sizes chain (.inr rfl)⟩, ?_, ?_, setLink_records ..⟩, size_⟩
    · show size ≤ blockSize (store s.mem (p + 8) 8 (blockNext s.mem b)) b
      rwa [size_]
    · intro a ha x low high
      have off := clear a (by simp [ha])
      have header : sizeofRtlBlock = 16 := rfl
      refine store_outside ?_
      rcases off with low' | high' <;> omega

theorem Taken.kept_payload {t : RtlHeap} {b size : Nat} (taken : Taken s t used b size)
    {free' : List Nat} (laid : Laid t free' (b :: used)) {m : Memory}
    (outside : ∀ a ∈ free' ++ b :: used, ∀ x, a ≤ x →
      (x < a + sizeofRtlBlock ∨ a ≠ b ∧ x < a + sizeofRtlBlock + blockSize t.mem a) →
      m x = t.mem x) : Kept s { t with mem := m } used := by
  intro a ha x low high
  have other : a ≠ b := by
    rintro rfl
    exact (List.nodup_cons.mp (List.Nodup.of_append_right laid.nodup)).1 ha
  refine (outside a (by simp [ha]) x low (.inr ⟨other, ?_⟩)).trans (taken.kept a ha x low high)
  rwa [taken.kept.size ha]

/-- Only payload bytes of the block that has been taken change. -/
theorem clear_spec {t : RtlHeap} {b size : Nat} (taken : Taken s t used b size) (zero : Bool) :
    ∃ t', t.clear zero (b + sizeofRtlBlock) size = some t' ∧ Taken s t' used b size ∧
      blockSize t'.mem b = blockSize t.mem b ∧ t'.segments = t.segments ∧
      (zero = true → ∀ i < size, t'.mem (b + sizeofRtlBlock + i) = 0) := by
  cases zero with
  | false => exact ⟨t, rfl, taken, rfl, rfl, fun no => by cases no⟩
  | true =>
    obtain ⟨free, laid⟩ := taken.laid
    have fits := taken.fits
    obtain ⟨g, mem, low, high⟩ := laid.inside b (by simp)
    have granted : ∀ i < size, t.Granted (b + sizeofRtlBlock + i) :=
      fun i small => ⟨g, List.mem_append_left _ mem, by omega, by omega⟩
    obtain ⟨laid', outside⟩ := laid.payload List.mem_cons_self
      (m := fill t.mem (b + sizeofRtlBlock) size 0) fun x out => fill_outside (by omega)
    have size_ : blockSize (fill t.mem (b + sizeofRtlBlock) size 0) b = blockSize t.mem b :=
      blockSize_congr fun x low' high' => outside b (by simp) x low' (.inl high')
    refine ⟨{ t with mem := fill t.mem (b + sizeofRtlBlock) size 0 }, ?_,
      ⟨⟨free, laid'⟩, ?_, ?_, ?_⟩, size_, rfl, ?_⟩
    · rw [RtlHeap.clear, if_pos rfl, if_pos granted]
    · show size ≤ blockSize (fill t.mem (b + sizeofRtlBlock) size 0) b
      rwa [size_]
    · exact taken.kept_payload laid outside
    · exact ⟨taken.records.requested, taken.records.others, taken.records.segments⟩
    · intro _ i small
      exact fill_inside (by omega) (by omega)

/-- Sizes up to this one are rounded up without overflow, and find room behind a header. -/
def maxSize : Nat := 2 ^ 32 - 32

theorem roundSize_eq {size : Nat} (small : size ≤ maxSize) :
    roundSize size = (max size 1 + 15) / 16 * 16 := by
  have limit : maxSize = 2 ^ 32 - 32 := rfl
  have low : wrap32 size = size := Nat.mod_eq_of_lt (by omega)
  rw [roundSize, low]
  have one : (if size = 0 then 1 else size) = max size 1 := by split_ifs <;> omega
  rw [one, wrap32, Nat.mod_eq_of_lt (by omega)]

theorem roundSize_le {size : Nat} (small : size ≤ maxSize) :
    size ≤ roundSize size ∧ roundSize size ≤ maxSize := by
  have limit : maxSize = 2 ^ 32 - 32 := rfl
  rw [roundSize_eq small]
  omega

theorem carve_taken (laid : Laid s free used) (magic : s.magic ≠ 0) {size : Nat}
    (word : size < 2 ^ 32) (fits : s.cursor + (sizeofRtlBlock + size) ≤ s.segmentEnd) :
    Taken s (s.carve size) used s.cursor size := by
  obtain ⟨laid', here, -⟩ := laid.carve magic word fits
  refine ⟨⟨free, laid'⟩, here.ge, fun a ha x low high => ?_, ⟨rfl, rfl, List.Subset.refl _⟩⟩
  have ahead := laid.ahead a (List.mem_append_right _ ha)
  have header : sizeofRtlBlock = 16 := rfl
  exact store_outside (by omega)

theorem answers_create {answer : Nat → Option Segment} (laid : Laid s free used)
    (answers : s.Answers answer) : (rtlCreateHeap s).Answers answer := by
  rw [rtlCreateHeap_eq laid]
  exact answers

theorem Taken.of_create {t : RtlHeap} {b size : Nat} (laid : Laid s free used)
    (taken : Taken (rtlCreateHeap s) t used b size) : Taken s t used b size := by
  have same := rtlCreateHeap_eq laid
  have mem : (rtlCreateHeap s).mem = s.mem := by rw [same]
  refine ⟨taken.laid, taken.fits, ?_, ?_⟩
  · intro a ha x low high
    have kept := taken.kept a ha x low
    rw [mem] at kept
    exact kept high
  · have records := taken.records
    rw [same] at records
    exact ⟨records.requested, records.others, records.segments⟩

theorem Taken.of_grown {t u : RtlHeap} {b size : Nat} (mem : t.mem = s.mem)
    (records : Records s t) (taken : Taken t u used b size) : Taken s u used b size := by
  refine ⟨taken.laid, taken.fits, ?_, records.trans taken.records⟩
  intro a ha x low high
  have kept := taken.kept a ha x low
  rw [mem] at kept
  exact kept high

theorem left_le (laid : Laid s free used) : s.cursor + s.left ≤ s.segmentEnd := by
  have room := laid.room
  have ended := laid.ended
  have user : mmUserMax = 2 ^ 47 := rfl
  have difference : sub64 s.segmentEnd s.cursor = s.segmentEnd - s.cursor := by
    rw [sub64, wrap64]
    omega
  rw [RtlHeap.left, difference, wrap32]
  have := Nat.mod_le (s.segmentEnd - s.cursor) (2 ^ 32)
  omega

/-- The new segment has room for the block it is for. -/
theorem rtlHeapGrow_spec (laid : Laid s free used) (magic : s.magic ≠ 0)
    {answer : Nat → Option Segment} (answers : s.Answers answer) {bytes : Nat} {t : RtlHeap}
    (grown : rtlHeapGrow s bytes answer = some t) :
    Laid t free used ∧ t.magic = s.magic ∧ t.mem = s.mem ∧ Records s t ∧
      t.cursor + bytes ≤ t.segmentEnd := by
  simp only [rtlHeapGrow] at grown
  split at grown
  · cases grown
  · rename_i g granted
    cases grown
    obtain ⟨large, fresh⟩ := answers _ g granted
    have enough : bytes ≤ g.len := by
      refine Nat.le_trans ?_ large
      simp only [growSize]
      split_ifs <;> omega
    exact ⟨laid.grow magic fresh, rfl, rfl, ⟨rfl, rfl, List.subset_cons_self _ _⟩,
      Nat.add_le_add_left enough _⟩

/-- The call returns null and changes nothing, or takes a block that is large enough. -/
theorem rtlAllocateHeap_spec (laid : Laid s free used) {answer : Nat → Option Segment}
    (answers : s.Answers answer) (zero : Bool) {size : Nat} (small : size ≤ maxSize) :
    ∃ r t, rtlAllocateHeap s zero size answer = some (r, t) ∧
      ((r = 0 ∧ t = rtlCreateHeap s) ∨ ∃ b, r = b + sizeofRtlBlock ∧
        Taken s t used b (roundSize size) ∧
        (zero = true → ∀ i < roundSize size, t.mem (r + i) = 0)) := by
  have limit : maxSize = 2 ^ 32 - 32 := rfl
  have header : sizeofRtlBlock = 16 := rfl
  have created := laid.create
  have magic := rtlCreateHeap_magic s
  have answers := answers_create laid answers
  have fits := (roundSize_le small).2
  have of_create : ∀ t b, Taken (rtlCreateHeap s) t used b (roundSize size) →
      Taken s t used b (roundSize size) := fun t b taken => taken.of_create laid
  simp only [rtlAllocateHeap]
  generalize rtlCreateHeap s = c at *
  generalize roundSize size = n at *
  cases found : findFree c.mem n c.headers none c.freeHead with
  | some hit =>
    obtain ⟨link, b⟩ := hit
    obtain ⟨t, cleared, taken, -, -, zeroed⟩ :=
      clear_spec (takeFree_spec created magic found).1 zero
    exact ⟨_, t, by simp only [cleared, Option.map_some],
      .inr ⟨b, rfl, of_create t b taken, zeroed⟩⟩
  | none =>
    have word : wrap32 (n + sizeofRtlBlock) = n + sizeofRtlBlock := Nat.mod_eq_of_lt (by omega)
    rw [word]
    by_cases short : c.left < n + sizeofRtlBlock
    · simp only [if_pos short]
      cases grown : rtlHeapGrow c (n + sizeofRtlBlock) answer with
      | none => exact ⟨0, c, rfl, .inl ⟨rfl, rfl⟩⟩
      | some d =>
        obtain ⟨laid', same, mem, records, room⟩ := rtlHeapGrow_spec created magic answers grown
        have carved := carve_taken laid' (same ▸ magic) (by omega : n < 2 ^ 32) (by omega)
        obtain ⟨t, cleared, taken, -, -, zeroed⟩ := clear_spec (carved.of_grown mem records) zero
        exact ⟨_, t, by simp only [cleared, Option.map_some],
          .inr ⟨_, rfl, of_create t _ taken, zeroed⟩⟩
    · simp only [if_neg short]
      have room := left_le created
      have carved := carve_taken created magic (by omega : n < 2 ^ 32) (by omega)
      obtain ⟨t, cleared, taken, -, -, zeroed⟩ := clear_spec carved zero
      exact ⟨_, t, by simp only [cleared, Option.map_some],
        .inr ⟨_, rfl, of_create t _ taken, zeroed⟩⟩

theorem freeHead_lt (laid : Laid s free used) : s.freeHead < 2 ^ 64 := by
  have chain := laid.chain
  cases free with
  | nil =>
    rw [show s.freeHead = 0 from chain]
    decide
  | cons a free =>
    have user : mmUserMax = 2 ^ 47 := rfl
    have word := laid.word (a := a) (by simp)
    rw [chain.1]
    omega

theorem rtlFreeHeap_spec (laid : Laid s free used) {b : Nat} (mem : b ∈ used) :
    Laid (rtlFreeHeap s (b + sizeofRtlBlock)) (b :: free) (used.erase b) ∧
      (∀ x, x < b ∨ b + sizeofRtlBlock ≤ x →
        (rtlFreeHeap s (b + sizeofRtlBlock)).mem x = s.mem x) ∧
      Records s (rtlFreeHeap s (b + sizeofRtlBlock)) := by
  have header : sizeofRtlBlock = 16 := rfl
  have bMem : b ∈ free ++ used := List.mem_append_right _ mem
  have result : rtlFreeHeap s (b + sizeofRtlBlock) =
      { s with mem := store s.mem (b + 8) 8 s.freeHead, freeHead := b } := by
    rw [rtlFreeHeap, if_neg (by omega)]
    simp only [Nat.add_sub_cancel]
  rw [result]
  refine ⟨?_, fun x out => store_outside (by omega), ⟨rfl, rfl, List.Subset.refl _⟩⟩
  have perm : (b :: free ++ used.erase b).Perm (free ++ used) :=
    (List.perm_middle.symm.trans ((List.perm_cons_erase mem).symm.append_left free))
  have clear : ∀ a ∈ free ++ used, a = b ∨ Clear s.mem a b := by
    intro a ha
    by_cases same : a = b
    · exact .inl same
    · exact .inr (laid.clear ha bMem same)
  have off : ∀ a ∈ free, Clear s.mem a b := by
    intro a ha
    refine (clear a (List.mem_append_left _ ha)).resolve_left ?_
    rintro rfl
    exact List.disjoint_of_nodup_append laid.nodup ha mem
  refine laid.relink perm (fun a ha => blockSize_storeNext (clear a ha)) ?_ (.inl (laid.magic bMem))
  exact laid.chain.push (laid.word bMem).1.ne' (blockNext_here (freeHead_lt laid))
    fun a ha => blockNext_storeNext (off a ha)

/-- What a successful `RtlReAllocateHeap` does: the old block is free, the new one is used
and begins with what they have in common. -/
structure Moved (s t : RtlHeap) (used : List Nat) (old b size : Nat) : Prop where
  laid : ∃ free, Laid t free (b :: used.erase old)
  fits : size ≤ blockSize t.mem b
  contents : ∀ i, i < blockSize s.mem old → i < size →
    t.mem (b + sizeofRtlBlock + i) = s.mem (old + sizeofRtlBlock + i)
  kept : Kept s t (used.erase old)
  records : Records s t

theorem rtlReAllocateHeap_spec (laid : Laid s free used) {old : Nat} (mem : old ∈ used)
    {answer : Nat → Option Segment} (answers : s.Answers answer) (zero : Bool) {size : Nat}
    (small : size ≤ maxSize) :
    ∃ r t, rtlReAllocateHeap s zero (old + sizeofRtlBlock) size answer = some (r, t) ∧
      ((r = 0 ∧ t = rtlCreateHeap s) ∨
        ∃ b, r = b + sizeofRtlBlock ∧ Moved s t used old b size) := by
  have header : sizeofRtlBlock = 16 := rfl
  obtain ⟨r, c, call, outcome⟩ := rtlAllocateHeap_spec laid answers zero small
  simp only [rtlReAllocateHeap, if_neg (show old + sizeofRtlBlock ≠ 0 by omega), call,
    Option.bind_eq_bind, Option.bind_some, Nat.add_sub_cancel]
  rcases outcome with ⟨rfl, rfl⟩ | ⟨b, rfl, taken, -⟩
  · exact ⟨0, _, rfl, .inl ⟨rfl, rfl⟩⟩
  · rw [if_neg (by omega)]
    obtain ⟨free', laid'⟩ := taken.laid
    have fits := (roundSize_le small).1.trans taken.fits
    have word : wrap32 size = size := Nat.mod_eq_of_lt (lt_of_le_of_lt small (by decide))
    have size_ : blockSize c.mem old = blockSize s.mem old := taken.kept.size mem
    have other : b ≠ old := by
      rintro rfl
      exact (List.nodup_cons.mp (List.Nodup.of_append_right laid'.nodup)).1 mem
    rw [word, size_]
    generalize count : (if blockSize s.mem old < size then blockSize s.mem old else size) = n
    have short : n = min (blockSize s.mem old) size := by
      rw [← count]
      split_ifs <;> omega
    obtain ⟨copied, outside⟩ := laid'.payload List.mem_cons_self
      (m := copyBytes c.mem (b + sizeofRtlBlock) (old + sizeofRtlBlock) n)
      fun x out => if_neg (by omega)
    have keeps := taken.kept_payload laid' outside
    have here : blockSize (copyBytes c.mem (b + sizeofRtlBlock) (old + sizeofRtlBlock) n) b =
        blockSize c.mem b :=
      blockSize_congr fun x low high => outside b (by simp) x low (.inl high)
    have others := laid'.clear (a := b) (b := old) (by simp) (by simp [mem]) other
    obtain ⟨freed, kept, records⟩ := rtlFreeHeap_spec copied (List.mem_cons_of_mem b mem)
    rw [List.erase_cons_tail (by simpa using other)] at freed
    refine ⟨_, _, rfl, .inr ⟨b, rfl, ⟨⟨_, freed⟩, ?_, ?_, ?_, ?_⟩⟩⟩
    · rw [blockSize_congr fun x low high => kept x (by rcases others with h | h <;> omega), here]
      exact fits
    · intro i inOld inNew
      have source := taken.kept old mem (old + sizeofRtlBlock + i) (by omega) (by omega)
      rw [kept _ (by rcases others with h | h <;> omega)]
      refine (if_pos ⟨by omega, by omega⟩).trans ?_
      rw [Nat.add_sub_cancel_left, source]
    · intro a ha x low high
      have ne : a ≠ old := (List.Nodup.mem_erase_iff laid.nodup.of_append_right).mp ha |>.1
      have ha := List.mem_of_mem_erase ha
      have apart := laid.clear (List.mem_append_right _ ha) (List.mem_append_right _ mem) ne
      rw [kept x (by rcases apart with h | h <;> omega)]
      exact keeps a ha x low high
    · exact taken.records.trans ⟨records.requested, records.others, records.segments⟩

end Calls

end Rtl
