import Svindows.Kernel32.HeapRuns

/-!
# Sizes that wrap in kernel32

`HeapAlloc` once more, with sizes of 64 bits. Rounding up, the header that `heap_grow`
adds and the pages that the system call counts can each wrap. A write to memory that
the process does not have faults.
-/

namespace Kernel32

open Nt ByteMemory

/-- `align_up8`. -/
def wordAlignUp8 (n : Nat) : Nat := wrap64 (n + 7) / 8 * 8

/-- Address `x` is in memory of the process. -/
def Process.Granted (s : Process) (x : Nat) : Prop :=
  ∃ g ∈ s.grants, g.base ≤ x ∧ x < g.base + g.len

instance (s : Process) (x : Nat) : Decidable (s.Granted x) := by
  unfold Process.Granted
  infer_instance

/-- `memset`, which faults outside the memory of the process. -/
def Process.memset (s : Process) (p : Nat) (v : UInt8) (n : Nat) : Option Process :=
  if ∀ i < n, s.Granted (p + i) then some { s with bytes := fill s.bytes p n v } else none

/-- `nt_alloc`, which cannot allocate nothing. -/
def ntAlloc (answer : Nat → Option Nat) (bytes : Nat) : Option Nat :=
  if bytes = 0 then none else answer bytes

/-- What the system call grants for a request. -/
def pagesFor (bytes : Nat) : Nat := bytesToPages bytes * pageSize

def wordPayload (wanted : Nat) : Nat := if wanted < 0x10000 then 0x10000 else wordAlignUp8 wanted

/-- `heap_grow`; none if the header cannot be written. -/
def wordHeapGrow (s : Process) (h wanted : Nat) (answer : Nat → Option Nat) :
    Option (Option Nat × Process) :=
  let payload := wordPayload wanted
  let request := wrap64 (sizeofBlock + payload)
  match ntAlloc answer request with
  | none => some (none, s)
  | some block =>
    let s := { s with
      grants := ⟨h, block, pagesFor request⟩ :: s.grants
      headers := s.headers + 1 }
    if ∀ i < sizeofBlock, s.Granted (block + i) then
      let s := s.setBlock block ⟨payload, 0, true⟩
      let last := lastBlock s.blocks s.headers (s.first h)
      some (some block, s.setBlock last { s.blocks last with next := block })
    else none

/-- The two places where a remainder is split off. -/
def wordSplitBlock (s : Process) (b size : Nat) : Process :=
  let old := s.blocks b
  if wrap64 (size + sizeofBlock + 16) ≤ old.size then
    let tail := wrap64 (b + sizeofBlock + size)
    let s := s.setBlock tail ⟨sub64 (sub64 old.size size) sizeofBlock, old.next, true⟩
    { s.setBlock b ⟨size, tail, old.free⟩ with headers := s.headers + 1 }
  else s

/-- Cut block `b` to `size` bytes, mark it used and clear it if asked to. -/
def wordTakeBlock (s : Process) (b size : Nat) (zero : Bool) : Option (Nat × Process) :=
  let s := wordSplitBlock s b size
  let s := s.setBlock b { s.blocks b with free := false }
  let p := b + sizeofBlock
  if zero then (s.memset p 0 size).map fun s => (p, s) else some (p, s)

/-- `HeapAlloc`: the pointer returned and the process; none if the call faults. -/
def wordHeapAlloc (s : Process) (h : Nat) (zero : Bool) (bytes : Nat) (answer : Nat → Option Nat) :
    Option (Nat × Process) :=
  if h = 0 then some (0, s)
  else
    let size := wordAlignUp8 (if bytes ≠ 0 then bytes else 1)
    match firstFit s.blocks size s.headers (s.first h) with
    | some b => wordTakeBlock s b size zero
    | none => do
      let (block, s) ← wordHeapGrow s h size answer
      match block with
      | none => some (0, s)
      | some b => wordTakeBlock s b size zero

/-- What the system call answers: whole pages in the user half, and an address that
nothing else has, even when it grants no page. -/
def Process.Grants (s : Process) (answer : Nat → Option Nat) : Prop :=
  ∀ bytes b, answer bytes = some b → Fresh s b (max (pagesFor bytes) 1)

/-- The `n` bytes at `r` belong to a block of that size, in memory of heap `h`, and to no
block in use before. -/
structure Usable (s t : Process) (h : Nat) (as : List Nat) (r n : Nat) : Prop where
  size : n ≤ (t.blocks (r - sizeofBlock)).size
  inside : ∀ x, r ≤ x → x < r + n → Owned t.grants h x
  apart : ∀ a ∈ as, (s.blocks a).free = false → ∀ x, r ≤ x → x < r + n → ¬ InBlock s.blocks a x

/-- The requests that do not wrap, or for which no memory is found. -/
def AllocHolds (s : Process) (as : List Nat) (zero : Bool) (bytes : Nat)
    (answer : Nat → Option Nat) : Prop :=
  bytes ≤ 2 ^ 64 - 24 ∨
  bytes ≤ 2 ^ 64 - 8 ∧ (zero = true ∨ answer (wrap64 (sizeofBlock + alignUp8 bytes)) = none) ∨
  2 ^ 64 - 8 < bytes ∧ (∀ a ∈ as, (s.blocks a).free = false) ∧ answer (sizeofBlock + 0x10000) = none

variable {answer : Nat → Option Nat} {b bytes size : Nat} {t : Process}

section Small

variable {s : Process} {h : Nat} {as : List Nat}

/-- Blocks lie in the user half. -/
theorem Shape.size_le (shape : Shape s h as) (user : ∀ g ∈ s.grants, g.base + g.len ≤ mmUserMax)
    {a : Nat} (mem : a ∈ as) : a + sizeofBlock + (s.blocks a).size ≤ mmUserMax := by
  have block : sizeofBlock = 24 := rfl
  obtain ⟨g, hg, -, low, high⟩ := shape.inside a mem (a + sizeofBlock + (s.blocks a).size - 1)
    ⟨by omega, by omega⟩
  have := user g hg
  omega

theorem wordAlignUp8_eq {n : Nat} (small : n ≤ 2 ^ 64 - 8) : wordAlignUp8 n = alignUp8 n := by
  simp only [wordAlignUp8, alignUp8, wrap64]
  omega

theorem wordSplitBlock_eq (grants : List Grant)
    (word : b + sizeofBlock + (s.blocks b).size ≤ mmUserMax) (fits : size ≤ (s.blocks b).size) :
    wordSplitBlock { s with grants := grants } b size =
      { splitBlock s b size with grants := grants } := by
  have block : sizeofBlock = 24 := rfl
  have user : mmUserMax = 2 ^ 47 := rfl
  have sum : wrap64 (size + sizeofBlock + 16) = size + sizeofBlock + 16 :=
    Nat.mod_eq_of_lt (by omega)
  have tail : wrap64 (b + sizeofBlock + size) = b + sizeofBlock + size :=
    Nat.mod_eq_of_lt (by omega)
  simp only [wordSplitBlock, splitBlock, sum, tail]
  split_ifs with room
  · have rest : sub64 (sub64 (s.blocks b).size size) sizeofBlock =
        (s.blocks b).size - size - sizeofBlock := by
      simp only [sub64, wrap64]
      omega
    rw [rest]
    rfl
  · rfl

/-- Taking a block of good shape faults only if it is not the process's. -/
theorem wordTakeBlock_eq {pre post : List Nat} (zero : Bool) {grants : List Grant}
    (shape : Shape s h (pre ++ [b] ++ post))
    (user : ∀ g ∈ s.grants, g.base + g.len ≤ mmUserMax) (fits : size ≤ (s.blocks b).size)
    (covered : ∀ x, Owned s.grants h x → ∃ g ∈ grants, g.base ≤ x ∧ x < g.base + g.len) :
    wordTakeBlock { s with grants := grants } b size zero =
      some ((takeBlock s b size zero).1,
        { (takeBlock s b size zero).2 with grants := grants }) := by
  have block : sizeofBlock = 24 := rfl
  have word := shape.size_le user (a := b) (by simp)
  simp only [wordTakeBlock, wordSplitBlock_eq grants word fits, takeBlock]
  cases zero with
  | false => rfl
  | true =>
    have granted : ∀ i < size, ∃ g ∈ grants, g.base ≤ b + sizeofBlock + i ∧
        b + sizeofBlock + i < g.base + g.len := by
      intro i small
      refine covered _ (shape.inside b (by simp) _ ⟨by omega, by omega⟩)
    simp only [if_true]
    exact congrArg (Option.map _) (if_pos granted)

theorem Fresh.shorter {base len len' : Nat} (fresh : Fresh s base len) (less : len' ≤ len) :
    Fresh s base len' := by
  obtain ⟨positive, user, apart⟩ := fresh
  refine ⟨positive, by omega, fun g hg => ?_⟩
  have := apart g hg
  omega

/-- Requests below the size of the user half are rounded to whole pages. -/
theorem le_pagesFor (small : bytes ≤ 2 ^ 64 - 4096) : bytes ≤ pagesFor bytes := by
  simp only [pagesFor, bytesToPages, wrap64, pageMask, pageSize]
  omega

theorem wordPayload_eq (small : size ≤ 2 ^ 64 - 8) : wordPayload size = growPayload size := by
  simp only [wordPayload, growPayload, wordAlignUp8_eq small]

/-- With room for the header, the call grows the heap as it does on numbers. -/
theorem wordHeapGrow_eq (small : sizeofBlock + growPayload size ≤ 2 ^ 64 - 4096)
    (granted : answer (sizeofBlock + growPayload size) = some b) :
    wordHeapGrow s h size answer = some ((heapGrow s h size (some b)).1,
      { (heapGrow s h size (some b)).2 with
        grants := ⟨h, b, pagesFor (sizeofBlock + growPayload size)⟩ :: s.grants }) := by
  have block : sizeofBlock = 24 := rfl
  have bound := growPayload_le size
  have payload := wordPayload_eq (by omega : size ≤ 2 ^ 64 - 8)
  have request : wrap64 (sizeofBlock + growPayload size) = sizeofBlock + growPayload size :=
    Nat.mod_eq_of_lt (by omega)
  have some_ : sizeofBlock + growPayload size ≠ 0 := by omega
  have pages := le_pagesFor small
  have header : ∀ i < sizeofBlock,
      ∃ g ∈ (⟨h, b, pagesFor (sizeofBlock + growPayload size)⟩ : Grant) :: s.grants,
        g.base ≤ b + i ∧ b + i < g.base + g.len := by
    intro i low
    exact ⟨_, List.mem_cons_self, Nat.le_add_right .., by simp only; omega⟩
  simp only [wordHeapGrow, payload, request, ntAlloc, if_neg some_, granted, heapGrow]
  exact if_pos header

/-- Without a request that wraps, `HeapAlloc` on words is the one on numbers, except that
whole pages are granted. -/
theorem wordHeapAlloc_eq (shape : Shape s h as) (nonzero : h ≠ 0)
    (user : ∀ g ∈ s.grants, g.base + g.len ≤ mmUserMax) (grants : s.Grants answer) (zero : Bool)
    (small : sizeofBlock + growPayload (allocSize bytes) ≤ 2 ^ 64 - 4096) :
    let base := answer (sizeofBlock + growPayload (allocSize bytes))
    (∀ b, base = some b → Fresh s b (sizeofBlock + growPayload (allocSize bytes))) ∧
      ∃ more, (∀ x, Owned (heapAlloc s h zero bytes base).2.grants h x → Owned more h x) ∧
        wordHeapAlloc s h zero bytes answer = some ((heapAlloc s h zero bytes base).1,
          { (heapAlloc s h zero bytes base).2 with grants := more }) := by
  have pages := le_pagesFor small
  have fresh : ∀ b, answer (sizeofBlock + growPayload (allocSize bytes)) = some b →
      Fresh s b (sizeofBlock + growPayload (allocSize bytes)) :=
    fun b granted => (grants _ b granted).shorter (pages.trans (Nat.le_max_left ..))
  refine ⟨fresh, ?_⟩
  have block : sizeofBlock = 24 := rfl
  have bound := growPayload_le (allocSize bytes)
  have less := allocSize_le bytes
  have size : wordAlignUp8 (if bytes ≠ 0 then bytes else 1) = allocSize bytes := by
    refine wordAlignUp8_eq ?_
    split_ifs <;> omega
  have rounded : alignUp8 (if bytes ≠ 0 then bytes else 1) = allocSize bytes := rfl
  have owned : ∀ x, Owned s.grants h x → ∃ g ∈ s.grants, g.base ≤ x ∧ x < g.base + g.len := by
    rintro x ⟨g, mem, -, low, high⟩
    exact ⟨g, mem, low, high⟩
  simp only [wordHeapAlloc, heapAlloc, if_neg nonzero, size, rounded]
  cases found : firstFit s.blocks (allocSize bytes) s.headers (s.first h) with
  | some b =>
    obtain ⟨mem, free, fits⟩ := firstFit_some shape.links found
    obtain ⟨pre, post, rfl⟩ := List.append_of_mem mem
    have split : pre ++ b :: post = pre ++ [b] ++ post := by simp
    rw [split] at shape
    refine ⟨s.grants, ?_, wordTakeBlock_eq zero shape user fits owned⟩
    intro x own
    simpa only [takeBlock_grants] using own
  | none =>
    have request : wrap64 (sizeofBlock + growPayload (allocSize bytes)) =
        sizeofBlock + growPayload (allocSize bytes) := Nat.mod_eq_of_lt (by omega)
    have payload := wordPayload_eq (by omega : allocSize bytes ≤ 2 ^ 64 - 8)
    cases granted : answer (sizeofBlock + growPayload (allocSize bytes)) with
    | none =>
      refine ⟨s.grants, fun x own => own, ?_⟩
      have refused : wordHeapGrow s h (allocSize bytes) answer = some (none, s) := by
        simp only [wordHeapGrow, payload, request, ntAlloc, granted, ite_self]
      simp only [refused]
      rfl
    | some b =>
      obtain ⟨t, grown, shape', -, header, -, -, -⟩ := heapGrow_spec shape (fresh b granted)
      have grants' :
          t.grants = ⟨h, b, sizeofBlock + growPayload (allocSize bytes)⟩ :: s.grants := by
        rw [heapGrow] at grown
        exact (Prod.mk.inj grown).2 ▸ rfl
      have user' : ∀ g ∈ t.grants, g.base + g.len ≤ mmUserMax := by
        rw [grants', List.forall_mem_cons]
        exact ⟨(fresh b granted).2.1, user⟩
      have covered : ∀ x, Owned t.grants h x →
          Owned (⟨h, b, pagesFor (sizeofBlock + growPayload (allocSize bytes))⟩ :: s.grants)
            h x := by
        rintro x ⟨g, mem, owner, low, high⟩
        rw [grants', List.mem_cons] at mem
        rcases mem with rfl | mem
        · exact ⟨_, List.mem_cons_self, rfl, low, by simp only at high ⊢; omega⟩
        · exact ⟨g, List.mem_cons_of_mem _ mem, owner, low, high⟩
      have fits : allocSize bytes ≤ (t.blocks b).size := by
        rw [header]
        exact bound
      have shape' : Shape t h (as ++ [b] ++ []) := by simpa using shape'
      have taken := wordTakeBlock_eq zero shape' user' fits fun x own => by
        obtain ⟨g, mem, -, range⟩ := covered x own
        exact ⟨g, mem, range⟩
      refine ⟨⟨h, b, pagesFor (sizeofBlock + growPayload (allocSize bytes))⟩ :: s.grants, ?_, ?_⟩
      · intro x own
        simp only [grown, takeBlock_grants] at own
        exact covered x own
      · simp only [wordHeapGrow_eq small granted, grown]
        exact taken

theorem Usable.shorter {r n m : Nat} (usable : Usable s t h as r n) (less : m ≤ n) :
    Usable s t h as r m :=
  ⟨less.trans usable.size, fun x low high => usable.inside x low (by omega),
    fun a ha busy x low high => usable.apart a ha busy x low (by omega)⟩

/-- The block that `HeapAlloc` takes is one of that size. -/
theorem Taken.usable {s' : Process} {as' : List Nat} {p n : Nat} {more : List Grant}
    (taken : Taken s s' h as as' p size) (fits : n ≤ size)
    (covered : ∀ x, Owned s'.grants h x → Owned more h x) :
    Usable s { s' with grants := more } h as p n := by
  have block : sizeofBlock = 24 := rfl
  obtain ⟨m, large, used⟩ := taken.used
  obtain ⟨b, mem, busy, rfl, rfl⟩ := (used p m).mpr (.inr ⟨rfl, rfl⟩)
  refine ⟨?_, ?_, ?_⟩
  · rw [Nat.add_sub_cancel]
    exact fits.trans large
  · intro x low high
    exact covered x (taken.shape.inside b mem x ⟨by omega, by omega⟩)
  · intro a ha busy' x low high inA
    obtain ⟨a', mem', -, same, size'⟩ := (used _ _).mpr (.inl ⟨a, ha, busy', rfl, rfl⟩)
    obtain rfl : a = a' := by omega
    have other : a ≠ b := by
      rintro rfl
      exact taken.new _ ⟨a, ha, busy', rfl, rfl⟩
    refine taken.shape.apart.of_mem mem' mem other ((inBlock_congr size'.symm).mpr inA) ?_
    exact ⟨by omega, by omega⟩

theorem wordHeapAlloc_usable (shape : Shape s h as) (nonzero : h ≠ 0)
    (user : ∀ g ∈ s.grants, g.base + g.len ≤ mmUserMax) (grants : s.Grants answer) (zero : Bool)
    (small : sizeofBlock + growPayload (allocSize bytes) ≤ 2 ^ 64 - 4096) {r : Nat} {t : Process}
    (call : wordHeapAlloc s h zero bytes answer = some (r, t)) (found : r ≠ 0) :
    Usable s t h as r bytes := by
  obtain ⟨fresh, more, covered, same⟩ :=
    wordHeapAlloc_eq shape nonzero user grants zero small
  obtain ⟨rfl, rfl⟩ := Prod.mk.inj (Option.some.inj (same.symm.trans call))
  rcases heapAlloc_spec shape zero bytes fresh with failed | ⟨b, as', result, taken⟩
  · rw [failed] at found
    exact absurd rfl found
  · rw [result]
    exact taken.usable (allocSize_le bytes) covered

end Small

section Large

variable {s : Process} {h : Nat} {as : List Nat}

/-- No block is found exactly when none is free and large enough. -/
theorem firstFit_none {blocks : Nat → Header} {fuel : Nat} (links : Links blocks b as 0)
    (enough : as.length ≤ fuel) :
    firstFit blocks size fuel b = none ↔
      ∀ a ∈ as, (blocks a).free = true → (blocks a).size < size := by
  induction fuel generalizing b as with
  | zero =>
    obtain rfl := List.eq_nil_of_length_eq_zero (Nat.le_zero.mp enough)
    simp [firstFit]
  | succ fuel ih =>
    cases as with
    | nil =>
      rw [firstFit, if_pos (show b = 0 from links)]
      simp
    | cons a as =>
      obtain ⟨rfl, nz, rest⟩ := links
      rw [List.length_cons] at enough
      rw [firstFit, if_neg nz]
      split_ifs with skip
      · rw [ih rest (by omega), List.forall_mem_cons, iff_and_self]
        rintro - free
        exact skip.resolve_left (by simp [free])
      · simp only [List.forall_mem_cons, false_iff, not_and]
        simp only [not_or, Bool.not_eq_false, Nat.not_lt] at skip
        exact fun first => absurd (first skip.1) (Nat.not_lt.mpr skip.2)

theorem firstFit_large (shape : Shape s h as) (user : ∀ g ∈ s.grants, g.base + g.len ≤ mmUserMax)
    {size : Nat} (large : mmUserMax < size) :
    firstFit s.blocks size s.headers (s.first h) = none := by
  refine (firstFit_none shape.links shape.bounded).mpr fun a mem _ => ?_
  have := shape.size_le user mem
  omega

/-- Memory above the user half is not granted. -/
theorem not_granted (user : ∀ g ∈ s.grants, g.base + g.len ≤ mmUserMax) {x : Nat}
    (high : mmUserMax ≤ x) : ¬ s.Granted x := by
  rintro ⟨g, mem, -, below⟩
  have := user g mem
  omega

theorem not_usable_of_large (user : ∀ g ∈ t.grants, g.base + g.len ≤ mmUserMax)
    {r n : Nat} (large : mmUserMax < n) : ¬ Usable s t h as r n := by
  intro usable
  obtain ⟨g, mem, -, low, high⟩ := usable.inside (r + mmUserMax) (by omega) (by omega)
  have := user g mem
  omega

theorem wordSplitBlock_grants (s : Process) (b size : Nat) :
    (wordSplitBlock s b size).grants = s.grants := by
  rw [wordSplitBlock]
  split_ifs <;> rfl

theorem Process.memset_cases (s : Process) (p : Nat) (v : UInt8) (n : Nat) :
    if ∃ i < n, ¬ s.Granted (p + i) then s.memset p v n = none
    else s.memset p v n = some { s with bytes := fill s.bytes p n v } := by
  rw [Process.memset]
  split_ifs with outside granted granted
  · obtain ⟨i, low, off⟩ := outside
    exact off (granted i low)
  · rfl
  · rfl
  · exact outside (by simpa using granted)

/-- Taking a block faults, or returns it. -/
theorem wordTakeBlock_cases (s : Process) (b size : Nat) (zero : Bool) :
    if zero = true ∧ ∃ i < size, ¬ s.Granted (b + sizeofBlock + i) then
      wordTakeBlock s b size zero = none
    else ∃ t, wordTakeBlock s b size zero = some (b + sizeofBlock, t) ∧ t.grants = s.grants := by
  have kept := wordSplitBlock_grants s b size
  simp only [wordTakeBlock]
  generalize wordSplitBlock s b size = u at kept
  have granted : ∀ x, (u.setBlock b { u.blocks b with free := false }).Granted x ↔ s.Granted x := by
    intro x
    rw [Process.Granted, Process.setBlock, kept]
    rfl
  cases zero with
  | false => exact ⟨_, rfl, kept⟩
  | true =>
    have cleared := Process.memset_cases (u.setBlock b { u.blocks b with free := false })
      (b + sizeofBlock) 0 size
    simp only [granted] at cleared
    simp only [true_and, if_true]
    split_ifs at cleared ⊢
    · rw [cleared, Option.map_none]
    · exact ⟨_, congrArg (Option.map _) cleared, kept⟩

/-- Growing fails, faults at the header, or adds the memory that was granted. -/
theorem wordHeapGrow_cases (grants : s.Grants answer) (size : Nat) :
    match ntAlloc answer (wrap64 (sizeofBlock + wordPayload size)) with
    | none => wordHeapGrow s h size answer = some (none, s)
    | some b =>
      if pagesFor (wrap64 (sizeofBlock + wordPayload size)) = 0 then
        wordHeapGrow s h size answer = none
      else ∃ u, wordHeapGrow s h size answer = some (some b, u) ∧
        u.grants = ⟨h, b, pagesFor (wrap64 (sizeofBlock + wordPayload size))⟩ :: s.grants := by
  have block : sizeofBlock = 24 := rfl
  generalize requested : wrap64 (sizeofBlock + wordPayload size) = request
  simp only [wordHeapGrow, requested]
  cases granted : ntAlloc answer request with
  | none => rfl
  | some b =>
    have fresh : Fresh s b (max (pagesFor request) 1) := by
      rw [ntAlloc] at granted
      split_ifs at granted
      exact grants request b granted
    split_ifs with empty
    · -- the first byte of the header is not there
      refine if_neg fun header => ?_
      obtain ⟨g, mem, low, high⟩ := header 0 (by omega)
      simp only [empty] at mem fresh
      rcases List.mem_cons.mp mem with rfl | mem
      · simp only at low high
        omega
      · have := fresh.2.2 g mem
        omega
    · have whole : sizeofBlock ≤ pagesFor request := by
        rw [pagesFor, pageSize] at empty ⊢
        omega
      refine ⟨_, if_pos fun i low => ?_, rfl⟩
      exact ⟨_, List.mem_cons_self, Nat.le_add_right .., by simp only; omega⟩

theorem Grants.user (grants : s.Grants answer)
    (user : ∀ g ∈ s.grants, g.base + g.len ≤ mmUserMax) {request b : Nat}
    (granted : ntAlloc answer request = some b) :
    ∀ g ∈ (⟨h, b, pagesFor request⟩ : Grant) :: s.grants, g.base + g.len ≤ mmUserMax := by
  rw [List.forall_mem_cons]
  refine ⟨?_, user⟩
  rw [ntAlloc] at granted
  split_ifs at granted
  have := (grants request b granted).2.1
  simp only
  omega

/-- Without a free block that is large enough, the call grows the heap. -/
theorem wordHeapAlloc_grows (nonzero : h ≠ 0) (grants : s.Grants answer) (zero : Bool) {size : Nat}
    (rounded : wordAlignUp8 (if bytes ≠ 0 then bytes else 1) = size)
    (unfound : firstFit s.blocks size s.headers (s.first h) = none) :
    match ntAlloc answer (wrap64 (sizeofBlock + wordPayload size)) with
    | none => wordHeapAlloc s h zero bytes answer = some (0, s)
    | some b =>
      if pagesFor (wrap64 (sizeofBlock + wordPayload size)) = 0 then
        wordHeapAlloc s h zero bytes answer = none
      else ∃ u, wordHeapAlloc s h zero bytes answer = wordTakeBlock u b size zero ∧
        u.grants = ⟨h, b, pagesFor (wrap64 (sizeofBlock + wordPayload size))⟩ :: s.grants := by
  have grown := wordHeapGrow_cases (h := h) grants size
  simp only [wordHeapAlloc, if_neg nonzero, rounded, unfound]
  cases granted : ntAlloc answer (wrap64 (sizeofBlock + wordPayload size)) with
  | none =>
    rw [granted] at grown
    simp only [grown, Option.bind_eq_bind, Option.bind_some]
  | some b =>
    rw [granted] at grown
    simp only at grown ⊢
    split_ifs at grown ⊢
    · simp only [grown, Option.bind_eq_bind, Option.bind_none]
    · obtain ⟨u, grown, more⟩ := grown
      refine ⟨u, ?_, more⟩
      simp only [grown, Option.bind_eq_bind, Option.bind_some]

theorem not_usable_of_taken {u : Process} (user : ∀ g ∈ u.grants, g.base + g.len ≤ mmUserMax)
    {b size : Nat} {zero : Bool} (large : mmUserMax < bytes)
    (inside : zero = true → ∀ i < size, u.Granted (b + sizeofBlock + i)) :
    ¬ ∀ r t, wordTakeBlock u b size zero = some (r, t) → r ≠ 0 → Usable s t h as r bytes := by
  intro law
  have taken := wordTakeBlock_cases u b size zero
  rw [if_neg fun faults => faults.2.elim fun i out => out.2 (inside faults.1 i out.1)] at taken
  obtain ⟨t, taken, same⟩ := taken
  refine not_usable_of_large ?_ large (law _ t taken (Nat.succ_ne_zero _))
  rwa [same]

/-- The payload of a large segment is what was asked for. -/
theorem wordPayload_large (large : 0x10000 ≤ size) (small : size ≤ 2 ^ 64 - 8)
    (whole : size % 8 = 0) : wordPayload size = size := by
  rw [wordPayload, if_neg (Nat.not_lt.mpr large), wordAlignUp8_eq small, alignUp8]
  omega

/-- A request for more than can be mapped: it fails, or faults at the header, for which
no page is granted. -/
theorem wordHeapAlloc_refused (shape : Shape s h as) (nonzero : h ≠ 0)
    (user : ∀ g ∈ s.grants, g.base + g.len ≤ mmUserMax)
    (grants : s.Grants answer) (zero : Bool) (small : bytes ≤ 2 ^ 64 - 24)
    (large : 2 ^ 64 - 4096 < sizeofBlock + growPayload (allocSize bytes)) :
    wordHeapAlloc s h zero bytes answer =
      if (ntAlloc answer (wrap64 (sizeofBlock + alignUp8 bytes))).isSome then none
      else some (0, s) := by
  have block : sizeofBlock = 24 := rfl
  have most : mmUserMax = 2 ^ 47 := rfl
  have some_ : bytes ≠ 0 := by
    rintro rfl
    exact absurd large (by decide)
  have size : wordAlignUp8 (if bytes ≠ 0 then bytes else 1) = alignUp8 bytes := by
    rw [if_pos some_, wordAlignUp8_eq (by omega)]
  have wide : 2 ^ 64 - 5000 < alignUp8 bytes ∧ alignUp8 bytes ≤ 2 ^ 64 - 24 ∧
      alignUp8 bytes % 8 = 0 := by
    simp only [growPayload, allocSize, if_pos some_, alignUp8] at large ⊢
    split_ifs at large <;> omega
  have call := wordHeapAlloc_grows nonzero grants zero size (firstFit_large shape user (by omega))
  rw [wordPayload_large (by omega) (by omega) wide.2.2] at call
  cases granted : ntAlloc answer (wrap64 (sizeofBlock + alignUp8 bytes)) with
  | none =>
    rw [granted] at call
    exact call
  | some b =>
    have nonempty : wrap64 (sizeofBlock + alignUp8 bytes) ≠ 0 := by
      rintro zero
      simp [ntAlloc, zero] at granted
    have empty : pagesFor (wrap64 (sizeofBlock + alignUp8 bytes)) = 0 := by
      simp only [pagesFor, bytesToPages, wrap64, pageMask, pageSize] at nonempty ⊢
      simp only [growPayload, allocSize, if_pos some_] at large
      rw [if_neg (by omega)] at large
      simp only [alignUp8] at *
      omega
    rw [granted] at call
    simp only [if_pos empty] at call
    exact call

/-- A header that is counted twice: the block is in a page that has no room for it. -/
theorem wordHeapAlloc_wrapped (shape : Shape s h as) (nonzero : h ≠ 0)
    (user : ∀ g ∈ s.grants, g.base + g.len ≤ mmUserMax)
    (grants : s.Grants answer) (zero : Bool) (low : 2 ^ 64 - 24 < bytes)
    (high : bytes ≤ 2 ^ 64 - 8) :
    (∀ r t, wordHeapAlloc s h zero bytes answer = some (r, t) → r ≠ 0 → Usable s t h as r bytes) ↔
      zero = true ∨ answer (wrap64 (sizeofBlock + alignUp8 bytes)) = none := by
  have block : sizeofBlock = 24 := rfl
  have most : mmUserMax = 2 ^ 47 := rfl
  have size : wordAlignUp8 (if bytes ≠ 0 then bytes else 1) = alignUp8 bytes := by
    rw [if_pos (by omega), wordAlignUp8_eq (by omega)]
  have wide : 2 ^ 64 - 24 < alignUp8 bytes ∧ alignUp8 bytes ≤ 2 ^ 64 - 8 ∧
      alignUp8 bytes % 8 = 0 := by
    simp only [alignUp8]
    omega
  have request : 0 < wrap64 (sizeofBlock + alignUp8 bytes) ∧
      wrap64 (sizeofBlock + alignUp8 bytes) ≤ 16 := by
    simp only [wrap64]
    omega
  have call := wordHeapAlloc_grows nonzero grants zero size (firstFit_large shape user (by omega))
  rw [wordPayload_large (by omega) (by omega) wide.2.2] at call
  have page : pagesFor (wrap64 (sizeofBlock + alignUp8 bytes)) ≠ 0 := by
    have := le_pagesFor (show wrap64 (sizeofBlock + alignUp8 bytes) ≤ 2 ^ 64 - 4096 by omega)
    omega
  cases granted : answer (wrap64 (sizeofBlock + alignUp8 bytes)) with
  | none =>
    simp only [ntAlloc, granted, ite_self] at call
    simp only [call, or_true, iff_true]
    rintro r t ⟨⟩ found
    exact absurd rfl found
  | some b =>
    have answered : ntAlloc answer (wrap64 (sizeofBlock + alignUp8 bytes)) = some b := by
      rw [ntAlloc, if_neg (by omega), granted]
    simp only [answered, if_neg page] at call
    obtain ⟨u, call, more⟩ := call
    have user' : ∀ g ∈ u.grants, g.base + g.len ≤ mmUserMax := by
      rw [more]
      exact Grants.user grants user answered
    simp only [call, reduceCtorEq, or_false]
    cases zero with
    | true =>
      have taken := wordTakeBlock_cases u b (alignUp8 bytes) true
      have faults : ∃ i < alignUp8 bytes, ¬ u.Granted (b + sizeofBlock + i) :=
        ⟨mmUserMax, by omega, not_granted user' (Nat.le_add_left ..)⟩
      rw [if_pos ⟨rfl, faults⟩] at taken
      simp [taken]
    | false =>
      refine iff_of_false (not_usable_of_taken user' (by omega) fun cleared => ?_)
        Bool.false_ne_true
      exact absurd cleared Bool.false_ne_true

/-- A size that is rounded up to 0: any block will do. -/
theorem wordHeapAlloc_zero (shape : Shape s h as) (nonzero : h ≠ 0)
    (user : ∀ g ∈ s.grants, g.base + g.len ≤ mmUserMax)
    (grants : s.Grants answer) (zero : Bool) (low : 2 ^ 64 - 8 < bytes) (high : bytes < 2 ^ 64) :
    (∀ r t, wordHeapAlloc s h zero bytes answer = some (r, t) → r ≠ 0 → Usable s t h as r bytes) ↔
      (∀ a ∈ as, (s.blocks a).free = false) ∧ answer (sizeofBlock + 0x10000) = none := by
  have block : sizeofBlock = 24 := rfl
  have most : mmUserMax = 2 ^ 47 := rfl
  have size : wordAlignUp8 (if bytes ≠ 0 then bytes else 1) = 0 := by
    rw [if_pos (by omega), wordAlignUp8, wrap64]
    omega
  -- whichever block is taken, no process has so many bytes behind it
  have any : ∀ u b, (∀ g ∈ u.grants, g.base + g.len ≤ mmUserMax) →
      ¬ ∀ r t, wordTakeBlock u b 0 zero = some (r, t) → r ≠ 0 → Usable s t h as r bytes :=
    fun u b user => not_usable_of_taken user (by omega) fun _ i low => absurd low (Nat.not_lt_zero i)
  have none_free : firstFit s.blocks 0 s.headers (s.first h) = none ↔
      ∀ a ∈ as, (s.blocks a).free = false := by
    rw [firstFit_none shape.links shape.bounded]
    simp
  cases found : firstFit s.blocks 0 s.headers (s.first h) with
  | some b =>
    rw [found] at none_free
    simp only [← none_free, wordHeapAlloc, if_neg nonzero, size, found]
    exact iff_of_false (any s b user) (by simp)
  | none =>
    have call := wordHeapAlloc_grows nonzero grants zero size found
    rw [found] at none_free
    simp only [← none_free, true_and]
    rw [show wrap64 (sizeofBlock + wordPayload 0) = sizeofBlock + 0x10000 from rfl] at call
    cases granted : answer (sizeofBlock + 0x10000) with
    | none =>
      rw [ntAlloc, if_neg (by decide), granted] at call
      simp only [call, iff_true]
      rintro r t ⟨⟩ found
      exact absurd rfl found
    | some b =>
      have answered : ntAlloc answer (sizeofBlock + 0x10000) = some b := by
        rw [ntAlloc, if_neg (by decide), granted]
      simp only [answered] at call
      rw [if_neg (by decide)] at call
      obtain ⟨u, call, more⟩ := call
      simp only [call]
      refine iff_of_false (any u b ?_) (by simp)
      rw [more]
      exact Grants.user grants user answered

/-- No block is free that has room for `bytes` bytes, and no memory is granted for one. -/
def Exhausted (s : Process) (as : List Nat) (bytes : Nat) (answer : Nat → Option Nat) : Prop :=
  (∀ a ∈ as, (s.blocks a).free = true → (s.blocks a).size < allocSize bytes) ∧
    answer (sizeofBlock + growPayload (allocSize bytes)) = none

theorem heapAlloc_null (shape : Shape s h as) (nonzero : h ≠ 0) (zero : Bool) (bytes : Nat)
    (base : Option Nat) :
    (heapAlloc s h zero bytes base).1 = 0 ↔
      (∀ a ∈ as, (s.blocks a).free = true → (s.blocks a).size < allocSize bytes) ∧ base = none := by
  rw [← firstFit_none shape.links shape.bounded, heapAlloc, if_neg nonzero]
  rw [show alignUp8 (if bytes ≠ 0 then bytes else 1) = allocSize bytes from rfl]
  cases found : firstFit s.blocks (allocSize bytes) s.headers (s.first h) with
  | some b => simp [found, takeBlock, sizeofBlock]
  | none =>
    cases base with
    | none => simp [found, heapGrow]
    | some base => simp [found, heapGrow, takeBlock, sizeofBlock]

/-- A request that is small enough returns, and without a block only when there is none. -/
theorem wordHeapAlloc_small (shape : Shape s h as) (nonzero : h ≠ 0)
    (user : ∀ g ∈ s.grants, g.base + g.len ≤ mmUserMax) (grants : s.Grants answer) (zero : Bool)
    (small : sizeofBlock + growPayload (allocSize bytes) ≤ 2 ^ 64 - 4096) :
    ∃ r t, wordHeapAlloc s h zero bytes answer = some (r, t) ∧
      (r = 0 ↔ Exhausted s as bytes answer) := by
  obtain ⟨-, more, -, call⟩ := wordHeapAlloc_eq shape nonzero user grants zero small
  exact ⟨_, _, call, heapAlloc_null shape nonzero zero bytes _⟩

/-- A call fails, faults at the header of a segment without pages, or takes a block. -/
theorem wordHeapAlloc_cases (s : Process) (h : Nat)
    (grants : s.Grants answer) (zero : Bool) (bytes : Nat) :
    let size := wordAlignUp8 (if bytes ≠ 0 then bytes else 1)
    wordHeapAlloc s h zero bytes answer = some (0, s) ∨
      (wordHeapAlloc s h zero bytes answer = none ∧
        pagesFor (wrap64 (sizeofBlock + wordPayload size)) = 0) ∨
      ∃ u b, wordHeapAlloc s h zero bytes answer = wordTakeBlock u b size zero ∧
        (u.grants = s.grants ∨ ∃ request, ntAlloc answer request = some b ∧
          u.grants = ⟨h, b, pagesFor request⟩ :: s.grants) := by
  by_cases null : h = 0
  · exact .inl (by rw [wordHeapAlloc, if_pos null])
  · dsimp only
    generalize rounded : wordAlignUp8 (if bytes ≠ 0 then bytes else 1) = size
    cases found : firstFit s.blocks size s.headers (s.first h) with
    | some b =>
      refine .inr (.inr ⟨s, b, ?_, .inl rfl⟩)
      simp only [wordHeapAlloc, if_neg null, rounded, found]
    | none =>
      have call := wordHeapAlloc_grows null grants zero rounded found
      split at call
      · exact .inl call
      · rename_i b granted
        split_ifs at call with empty
        · exact .inr (.inl ⟨call, empty⟩)
        · obtain ⟨u, call, more⟩ := call
          exact .inr (.inr ⟨u, b, call, .inr ⟨_, granted, more⟩⟩)

theorem wordTakeBlock_some {u : Process} {r : Nat} {zero : Bool}
    (taken : wordTakeBlock u b size zero = some (r, t)) :
    r = b + sizeofBlock ∧ t.grants = u.grants := by
  have cases_ := wordTakeBlock_cases u b size zero
  split_ifs at cases_
  · exact absurd (taken.symm.trans cases_) (by simp)
  · obtain ⟨t', result, kept⟩ := cases_
    obtain ⟨rfl, rfl⟩ := Prod.mk.inj (Option.some.inj (taken.symm.trans result))
    exact ⟨rfl, kept⟩

/-- A call that returns nothing has changed nothing. -/
theorem wordHeapAlloc_null {zero : Bool}
    (grants : s.Grants answer) (call : wordHeapAlloc s h zero bytes answer = some (0, t)) :
    t = s := by
  rcases wordHeapAlloc_cases s h grants zero bytes with failed | ⟨faults, -⟩ | ⟨u, b, taken, -⟩
  · exact (Prod.mk.inj (Option.some.inj (call.symm.trans failed))).2
  · exact absurd (call.symm.trans faults) (by simp)
  · have := (wordTakeBlock_some (taken.symm.trans call)).1
    exact absurd this (Nat.succ_ne_zero _).symm

/-- Whatever a call returns, memory is only granted in the user half. -/
theorem wordHeapAlloc_user (user : ∀ g ∈ s.grants, g.base + g.len ≤ mmUserMax) (grants : s.Grants answer) {zero : Bool} {r : Nat}
    {t : Process} (call : wordHeapAlloc s h zero bytes answer = some (r, t)) :
    ∀ g ∈ t.grants, g.base + g.len ≤ mmUserMax := by
  rcases wordHeapAlloc_cases s h grants zero bytes with failed | ⟨faults, -⟩ | ⟨u, b, taken, more⟩
  · rw [(Prod.mk.inj (Option.some.inj (call.symm.trans failed))).2]
    exact user
  · exact absurd (call.symm.trans faults) (by simp)
  · rw [(wordTakeBlock_some (taken.symm.trans call)).2]
    rcases more with same | ⟨request, granted, more⟩
    · rwa [same]
    · rw [more]
      exact Grants.user grants user granted

/-- Without clearing, only the header of a request without pages can fault. -/
theorem wordHeapAlloc_returns (grants : s.Grants answer) (pages : pagesFor (wrap64 (sizeofBlock +
      wordPayload (wordAlignUp8 (if bytes ≠ 0 then bytes else 1)))) ≠ 0) :
    wordHeapAlloc s h false bytes answer ≠ none := by
  rcases wordHeapAlloc_cases s h grants false bytes with failed | ⟨-, empty⟩ | ⟨u, b, taken, -⟩
  · simp [failed]
  · exact absurd empty pages
  · rw [taken]
    exact Option.some_ne_none _

/-- Exactly when a block that `HeapAlloc` returns has the size that was asked for. -/
theorem wordHeapAlloc_sizes (shape : Shape s h as) (nonzero : h ≠ 0)
    (user : ∀ g ∈ s.grants, g.base + g.len ≤ mmUserMax)
    (grants : s.Grants answer) (zero : Bool) (word : bytes < 2 ^ 64) :
    (∀ r t, wordHeapAlloc s h zero bytes answer = some (r, t) → r ≠ 0 → Usable s t h as r bytes) ↔
      AllocHolds s as zero bytes answer := by
  simp only [AllocHolds]
  by_cases small : bytes ≤ 2 ^ 64 - 24
  · refine iff_of_true (fun r t call found => ?_) (.inl small)
    by_cases fits : sizeofBlock + growPayload (allocSize bytes) ≤ 2 ^ 64 - 4096
    · exact wordHeapAlloc_usable shape nonzero user grants zero fits call found
    · rw [wordHeapAlloc_refused shape nonzero user grants zero small
        (Nat.lt_of_not_le fits)] at call
      split_ifs at call
      cases call
      exact absurd rfl found
  · by_cases wraps : bytes ≤ 2 ^ 64 - 8
    · rw [wordHeapAlloc_wrapped shape nonzero user grants zero (Nat.lt_of_not_le small) wraps]
      simp only [small, wraps, Nat.not_lt.mpr wraps, true_and, false_and, false_or, or_false]
    · rw [wordHeapAlloc_zero shape nonzero user grants zero (Nat.lt_of_not_le wraps) word]
      simp only [small, wraps, false_and, false_or, Nat.lt_of_not_le wraps, true_and]

end Large

end Kernel32
