import Svindows.Lib.Runs
import Svindows.Mm.PmmFrames

/-!
# Runs of the page allocator

Counters and bits agree after every run, whatever is freed. When only frames
that were handed out are freed, the clear bits are the frames a caller may
still get.
-/

namespace Pmm

open Nt

inductive PmmOp where
  | allocatePage
  | allocatePages (count : Nat)
  | freePages (phys count : Nat)

def PmmStep (s : PmmState) (op : PmmOp) (u : PmmState) : Prop :=
  match op with
  | .allocatePage => ∃ r, mmAllocatePage s = some (r, u)
  | .allocatePages count => ∃ r, mmAllocatePages count s = some (r, u)
  | .freePages phys count => mmFreePages phys count s = some u

theorem Allocates.accounted {n : Nat} {s u : PmmState} {r : Nat} (accounted : Accounted s)
    (spec : Allocates n s r u) : Accounted u := by
  rcases spec with ⟨_, rfl, _⟩ | ⟨_, _, _, accountedU, _⟩
  · exact accounted
  · exact accountedU

/-- Every operation returns, and the counters stay right. -/
theorem Accounted.next {s : PmmState} (accounted : Accounted s) (op : PmmOp) :
    ∃ u, PmmStep s op u ∧ Accounted u := by
  cases op with
  | allocatePage =>
    obtain ⟨r, u, returns, spec⟩ := mmAllocatePage_spec accounted
    exact ⟨u, ⟨r, returns⟩, spec.accounted accounted⟩
  | allocatePages count =>
    by_cases some_ : count = 0
    · exact ⟨s, ⟨mmInvalidPhys, by rw [mmAllocatePages, if_pos some_]⟩, accounted⟩
    · obtain ⟨r, u, returns, spec⟩ := mmAllocatePages_spec accounted some_
      exact ⟨u, ⟨r, returns⟩, spec.accounted accounted⟩
  | freePages phys count =>
    obtain ⟨u, returns, accountedU, _⟩ := mmFreePages_spec accounted phys count
    exact ⟨u, returns, accountedU⟩

theorem PmmStep.functional {s u v : PmmState} {op : PmmOp} (one : PmmStep s op u)
    (other : PmmStep s op v) : u = v := by
  cases op with
  | allocatePage | allocatePages count =>
    obtain ⟨r, one⟩ := one
    obtain ⟨q, other⟩ := other
    exact (Prod.mk.inj (Option.some.inj (one.symm.trans other))).2
  | freePages phys count => exact Option.some.inj (one.symm.trans other)

theorem Accounted.step {s u : PmmState} {op : PmmOp} (accounted : Accounted s)
    (step : PmmStep s op u) : Accounted u := by
  obtain ⟨v, returns, accountedV⟩ := accounted.next op
  rw [step.functional returns]
  exact accountedV

/-- After every run the counters are what the bitmap says, and no operation
reaches past it. -/
theorem physical_memory_accounting (map : MemoryMap) (word : map.highestAddress < 2 ^ 64)
    (low : 0x100000 ≤ map.highestAddress) (kernelEnd : Nat) (mem : Bitmap.Bytes) :
    ∃ s₀, mmInitializePhysicalMemory map kernelEnd mem = some s₀ ∧
      ∀ s, Runs.Reachable (· = s₀) PmmStep s →
        s.freePages = ((Finset.range s.totalPages).filter (Bitmap.bit s.bitmap · = false)).card ∧
        s.usedPages = s.totalPages - s.freePages ∧
        s.nextHint ≤ s.totalPages ∧
        ∀ op, ∃ u, PmmStep s op u := by
  obtain ⟨s₀, returns, accounted, _⟩ := mmInitializePhysicalMemory_spec word low kernelEnd mem
  refine ⟨s₀, returns, ?_⟩
  intro s run
  have accounted : Accounted s := by
    refine run.invariant ?_ (fun _ _ _ kept step => kept.step step)
    rintro _ rfl
    exact accounted
  refine ⟨accounted.free, accounted.used, accounted.hint, ?_⟩
  intro op
  obtain ⟨u, step, _⟩ := accounted.next op
  exact ⟨u, step⟩

/-- A machine with 1 MiB and a little more, all of it available. -/
def smallMap : MemoryMap := ⟨[⟨0, 0x110000, .available⟩], 0x110000⟩

/-- After one page, then three, and a free of two frames. -/
theorem physical_memory_accounting_small :
    ∃ s₀ s t u, mmInitializePhysicalMemory smallMap 0x102000 (fun _ => 0) = some s₀ ∧
      PmmStep s₀ .allocatePage s ∧ PmmStep s (.allocatePages 3) t ∧
      PmmStep t (.freePages 0x104000 2) u ∧ u.usedPages = u.totalPages - u.freePages := by
  obtain ⟨s₀, returns, spec⟩ :=
    physical_memory_accounting smallMap (by decide) (by decide) 0x102000 (fun _ => 0)
  have start : Runs.Reachable (· = s₀) PmmStep s₀ := .of_initial rfl
  obtain ⟨s, first⟩ := (spec s₀ start).2.2.2 .allocatePage
  obtain ⟨t, second⟩ := (spec s (start.next first)).2.2.2 (.allocatePages 3)
  have run := (start.next first).next second
  obtain ⟨u, third⟩ := (spec t run).2.2.2 (.freePages 0x104000 2)
  exact ⟨s₀, s, t, u, returns, first, second, third, (spec u (run.next third)).2.1⟩

/-- `frame` is whole and available, below the highest address, and outside the
low memory, the kernel image and the bitmap. -/
def Allocatable (map : MemoryMap) (kernelEnd frame : Nat) : Prop :=
  (∃ r ∈ map.regions, r.type = .available ∧ r.base ≤ frame * pageSize ∧
    (frame + 1) * pageSize ≤ r.base + r.length) ∧
  (frame + 1) * pageSize ≤ map.highestAddress ∧
  0x100000 ≤ frame * pageSize ∧
  kernelEnd ≤ frame * pageSize ∧
  ((frame + 1) * pageSize ≤ pageAlignUp kernelEnd ∨
    pageAlignUp kernelEnd + (map.highestAddress / pageSize + 7) / 8 ≤ frame * pageSize)

/-- The machines considered: words, regions that do not wrap, and a kernel and
a bitmap that fit. -/
structure WellFormed (map : MemoryMap) (kernelEnd : Nat) : Prop where
  word : map.highestAddress < 2 ^ 64
  low : 0x100000 ≤ map.highestAddress
  regions : ∀ r ∈ map.regions, r.base + r.length < 2 ^ 64
  kernel : kernelPhysBase ≤ kernelEnd ∧ kernelEnd ≤ map.highestAddress
  bitmap : pageAlignUp kernelEnd + (map.highestAddress / pageSize + 7) / 8 ≤ map.highestAddress

/-- Rounding up to a page does not wrap: no available region starts, and the
kernel does not end, in the last page of the 64-bit space. -/
def RoundsUp (map : MemoryMap) (kernelEnd : Nat) : Prop :=
  (∀ r ∈ map.regions, r.type = .available → r.base + pageMask < 2 ^ 64) ∧
    kernelEnd + pageMask < 2 ^ 64

theorem released_iff {map : MemoryMap} {kernelEnd : Nat} (wf : WellFormed map kernelEnd)
    (rounds : RoundsUp map kernelEnd) (g : Nat) :
    Released map.regions g ↔ ∃ r ∈ map.regions, r.type = .available ∧
      r.base ≤ g * pageSize ∧ (g + 1) * pageSize ≤ r.base + r.length := by
  have one : ∀ r ∈ map.regions, r.Releases g ↔ r.type = .available ∧
      r.base ≤ g * pageSize ∧ (g + 1) * pageSize ≤ r.base + r.length := by
    intro r hr
    unfold MemoryRegion.Releases
    refine and_congr_right fun available => ?_
    have start := rounds.1 r hr available
    have stop := wf.regions r hr
    unfold wrap64 pageMask pageSize at *
    omega
  unfold Released
  constructor
  · rintro ⟨r, hr, releases⟩
    exact ⟨r, hr, (one r hr).mp releases⟩
  · rintro ⟨r, hr, inside⟩
    exact ⟨r, hr, (one r hr).mpr inside⟩

theorem reserves_low (g : Nat) : ¬ Reserves 0 0x100000 g ↔ 0x100000 ≤ g * pageSize := by
  unfold Reserves wrap64 pageMask pageSize
  omega

theorem reserves_kernel {kernelEnd g : Nat} (start : kernelPhysBase ≤ kernelEnd)
    (rounds : kernelEnd + pageMask < 2 ^ 64) (above : 0x100000 ≤ g * pageSize) :
    ¬ Reserves kernelPhysBase (sub64 kernelEnd kernelPhysBase) g ↔ kernelEnd ≤ g * pageSize := by
  unfold Reserves sub64 wrap64 kernelPhysBase pageMask pageSize at *
  omega

theorem pageAlignUp_eq {x : Nat} (rounds : x + pageMask < 2 ^ 64) :
    pageAlignUp x = (x + 0xFFF) / pageSize * pageSize := by
  unfold pageAlignUp alignUpBy alignDownBy wrap64 pageMask pageSize at *
  omega

theorem reserves_bitmap {highest base bytes g : Nat} (word : highest < 2 ^ 64)
    (size : bytes = (highest / pageSize + 7) / 8) (fits : base * pageSize + bytes ≤ highest) :
    ¬ Reserves (base * pageSize) (wrap64 (bytesToPages bytes * pageSize)) g ↔
      (g + 1) * pageSize ≤ base * pageSize ∨ base * pageSize + bytes ≤ g * pageSize := by
  unfold Reserves bytesToPages wrap64 pageMask pageSize at *
  omega

theorem initiallyFree_iff {map : MemoryMap} {kernelEnd : Nat} (wf : WellFormed map kernelEnd)
    (rounds : RoundsUp map kernelEnd) (g : Nat) :
    InitiallyFree map kernelEnd g ↔ Allocatable map kernelEnd g := by
  have size : wrap64 (map.highestAddress / pageSize + 7) / 8 =
      (map.highestAddress / pageSize + 7) / 8 := by
    have word := wf.word
    unfold wrap64 pageSize
    omega
  have inside : g < map.highestAddress / pageSize ↔ (g + 1) * pageSize ≤ map.highestAddress := by
    unfold pageSize
    omega
  have aligned := pageAlignUp_eq rounds.2
  have fits := wf.bitmap
  unfold InitiallyFree Allocatable
  rw [released_iff wf rounds, inside, reserves_low, size]
  refine and_congr_right fun _ => and_congr_right fun _ => and_congr_right fun above => ?_
  rw [reserves_kernel wf.kernel.1 rounds.2 above]
  rw [aligned] at fits ⊢
  rw [reserves_bitmap wf.word rfl fits]

/-- The allocator, the frames handed out and not freed since, and all that
were ever handed out. -/
structure Loans where
  pmm : PmmState
  out : Finset Nat
  given : Finset Nat

/-- The result `r` of an allocation of `n` frames, noted. -/
def Loans.lend (w : Loans) (n r : Nat) (u : PmmState) : Loans :=
  if r = mmInvalidPhys then { w with pmm := u }
  else
    let frames := Finset.Ico (r / pageSize) (r / pageSize + n)
    ⟨u, w.out ∪ frames, w.given ∪ frames⟩

/-- Allocations, and frees of frames that were handed out before. -/
def LoanStep (w : Loans) (op : PmmOp) (v : Loans) : Prop :=
  match op with
  | .allocatePage => ∃ r u, mmAllocatePage w.pmm = some (r, u) ∧ v = w.lend 1 r u
  | .allocatePages count =>
    ∃ r u, mmAllocatePages count w.pmm = some (r, u) ∧ v = w.lend count r u
  | .freePages phys count =>
    (∀ g, phys / pageSize ≤ g → g < phys / pageSize + count → g ∈ w.given) ∧
    ∃ u, mmFreePages phys count w.pmm = some u ∧
      v = { w with
        pmm := u
        out := w.out \ Finset.Ico (phys / pageSize) (phys / pageSize + count) }

/-- A run of `n` frames that may be handed out. -/
def Loanable (map : MemoryMap) (kernelEnd : Nat) (w : Loans) (start n : Nat) : Prop :=
  ∀ f, start ≤ f → f < start + n → Allocatable map kernelEnd f ∧ f ∉ w.out

/-- The allocation of `n` frames fails exactly when there is no run to hand
out, then changes nothing, and otherwise hands out such a run. -/
def Grants (map : MemoryMap) (kernelEnd : Nat) (w : Loans) (n : Nat)
    (result : Option (Nat × PmmState)) : Prop :=
  ∃ r u, result = some (r, u) ∧
    (r = mmInvalidPhys ↔ ¬ ∃ start, Loanable map kernelEnd w start n) ∧
    (r = mmInvalidPhys → u = w.pmm) ∧
    (r ≠ mmInvalidPhys → ∃ start, r = start * pageSize ∧ Loanable map kernelEnd w start n)

/-- The clear bits are the frames that may be handed out. -/
structure Lending (map : MemoryMap) (kernelEnd : Nat) (w : Loans) : Prop where
  accounted : Accounted w.pmm
  total : w.pmm.totalPages = map.highestAddress / pageSize
  free : ∀ g, g ∈ freeFrames w.pmm ↔ Allocatable map kernelEnd g ∧ g ∉ w.out
  given : ∀ g ∈ w.given, Allocatable map kernelEnd g

section

variable {map : MemoryMap} {kernelEnd : Nat} {w : Loans}

theorem Lending.freeRun_iff (lending : Lending map kernelEnd w) (start n : Nat) :
    FreeRun w.pmm start n ↔ Loanable map kernelEnd w start n := by
  unfold FreeRun Loanable
  simp only [lending.free]

theorem FreeRun.address_ne {s : PmmState} (accounted : Accounted s) {start n : Nat}
    (some_ : n ≠ 0) (free : FreeRun s start n) : start * pageSize ≠ mmInvalidPhys := by
  have below := (mem_freeFrames.mp (free start (Nat.le_refl _) (by omega))).1
  have small := accounted.small
  unfold pageSize mmInvalidPhys
  omega

theorem Lending.grants (lending : Lending map kernelEnd w) {n r : Nat} {u : PmmState}
    (some_ : n ≠ 0) (spec : Allocates n w.pmm r u) : Grants map kernelEnd w n (some (r, u)) := by
  refine ⟨r, u, rfl, ?_⟩
  rcases spec with ⟨rfl, rfl, none⟩ | ⟨start, free, rfl, _⟩
  · refine ⟨⟨?_, fun _ => rfl⟩, fun _ => rfl, fun other => absurd rfl other⟩
    rintro _ ⟨start, loanable⟩
    exact none start ((lending.freeRun_iff start n).mpr loanable)
  · have valid := free.address_ne lending.accounted some_
    have loanable := (lending.freeRun_iff start n).mp free
    refine ⟨⟨fun invalid => absurd invalid valid, fun none => absurd ⟨start, loanable⟩ none⟩,
      fun invalid => absurd invalid valid, fun _ => ⟨start, rfl, loanable⟩⟩

theorem Lending.lend (lending : Lending map kernelEnd w) {n r : Nat} {u : PmmState}
    (some_ : n ≠ 0) (spec : Allocates n w.pmm r u) : Lending map kernelEnd (w.lend n r u) := by
  rcases spec with ⟨rfl, rfl, _⟩ | ⟨start, free, rfl, accounted, total, frames⟩
  · rw [Loans.lend, if_pos rfl]
    exact lending
  · have loanable := (lending.freeRun_iff start n).mp free
    have frame : start * pageSize / pageSize = start := Nat.mul_div_cancel start (by decide)
    rw [Loans.lend, if_neg (free.address_ne lending.accounted some_), frame]
    refine ⟨accounted, total.trans lending.total, ?_, ?_⟩
    · intro g
      rw [frames, Finset.mem_sdiff, lending.free, Finset.mem_union, not_or, and_assoc]
    · intro g hg
      rcases Finset.mem_union.mp hg with hg | hg
      · exact lending.given g hg
      · rw [Finset.mem_Ico] at hg
        exact (loanable g hg.1 hg.2).1

theorem Lending.giveBack (lending : Lending map kernelEnd w) {phys count : Nat} {u : PmmState}
    (given : ∀ g, phys / pageSize ≤ g → g < phys / pageSize + count → g ∈ w.given)
    (returns : mmFreePages phys count w.pmm = some u) :
    Lending map kernelEnd { w with
      pmm := u
      out := w.out \ Finset.Ico (phys / pageSize) (phys / pageSize + count) } := by
  obtain ⟨v, again, accounted, total, frames⟩ := mmFreePages_spec lending.accounted phys count
  obtain rfl : v = u := Option.some.inj (again.symm.trans returns)
  have inside : ∀ g, Allocatable map kernelEnd g → g < w.pmm.totalPages := by
    intro g allocatable
    have below := allocatable.2.1
    rw [lending.total]
    unfold pageSize at below ⊢
    omega
  -- all frames given lie below the end of memory, so the range does not wrap
  have range : ∀ g, (phys / pageSize ≤ g ∧ g < wrap64 (phys / pageSize + count) ∧
      g < w.pmm.totalPages) ↔ phys / pageSize ≤ g ∧ g < phys / pageSize + count := by
    intro g
    have small := lending.accounted.small
    have wraps : wrap64 (phys / pageSize + count) ≤ phys / pageSize + count := Nat.mod_le _ _
    constructor
    · rintro ⟨lower, upper, _⟩
      exact ⟨lower, by omega⟩
    · rintro ⟨lower, upper⟩
      have last := inside _ (lending.given _ (given (phys / pageSize + count - 1) (by omega)
        (by omega)))
      have word : wrap64 (phys / pageSize + count) = phys / pageSize + count := by
        unfold wrap64
        omega
      rw [word]
      exact ⟨lower, upper, inside g (lending.given g (given g lower upper))⟩
  refine ⟨accounted, total.trans lending.total, ?_, lending.given⟩
  intro g
  rw [frames, range, lending.free, Finset.mem_sdiff, Finset.mem_Ico]
  constructor
  · rintro (⟨allocatable, notOut⟩ | ⟨lower, upper⟩)
    · exact ⟨allocatable, fun out => notOut out.1⟩
    · exact ⟨lending.given g (given g lower upper), fun out => out.2 ⟨lower, upper⟩⟩
  · rintro ⟨allocatable, notOut⟩
    by_cases back : phys / pageSize ≤ g ∧ g < phys / pageSize + count
    · exact .inr back
    · exact .inl ⟨allocatable, fun out => notOut ⟨out, back⟩⟩

theorem Lending.step (lending : Lending map kernelEnd w) {op : PmmOp} {v : Loans}
    (step : LoanStep w op v) : Lending map kernelEnd v := by
  cases op with
  | allocatePage =>
    obtain ⟨r, u, returns, rfl⟩ := step
    obtain ⟨q, t, again, spec⟩ := mmAllocatePage_spec lending.accounted
    obtain ⟨rfl, rfl⟩ := Prod.mk.inj (Option.some.inj (again.symm.trans returns))
    exact lending.lend Nat.one_ne_zero spec
  | allocatePages count =>
    obtain ⟨r, u, returns, rfl⟩ := step
    by_cases some_ : count = 0
    · rw [mmAllocatePages, if_pos some_] at returns
      obtain ⟨rfl, rfl⟩ := Prod.mk.inj (Option.some.inj returns)
      rw [Loans.lend, if_pos rfl]
      exact lending
    · obtain ⟨q, t, again, spec⟩ := mmAllocatePages_spec lending.accounted some_
      obtain ⟨rfl, rfl⟩ := Prod.mk.inj (Option.some.inj (again.symm.trans returns))
      exact lending.lend some_ spec
  | freePages phys count =>
    obtain ⟨given, u, returns, rfl⟩ := step
    exact lending.giveBack given returns

end

/-- Frames are handed out exclusively and completely, after every run. -/
theorem frames_handed_out_once {map : MemoryMap} {kernelEnd : Nat} (wf : WellFormed map kernelEnd)
    (rounds : RoundsUp map kernelEnd) (mem : Bitmap.Bytes) :
    ∃ s₀, mmInitializePhysicalMemory map kernelEnd mem = some s₀ ∧
      ∀ w, Runs.Reachable (· = Loans.mk s₀ ∅ ∅) LoanStep w →
        Grants map kernelEnd w 1 (mmAllocatePage w.pmm) ∧
        ∀ n, 2 ≤ n → Grants map kernelEnd w n (mmAllocatePages n w.pmm) := by
  obtain ⟨s₀, returns, accounted, total, free⟩ :=
    mmInitializePhysicalMemory_spec wf.word wf.low kernelEnd mem
  refine ⟨s₀, returns, ?_⟩
  intro w run
  have lending : Lending map kernelEnd w := by
    refine run.invariant ?_ (fun _ _ _ kept step => kept.step step)
    rintro _ rfl
    refine ⟨accounted, total, ?_, fun g hg => absurd hg (Finset.notMem_empty g)⟩
    intro g
    rw [free, initiallyFree_iff wf rounds]
    exact ⟨fun allocatable => ⟨allocatable, Finset.notMem_empty g⟩, fun h => h.1⟩
  constructor
  · obtain ⟨r, u, step, spec⟩ := mmAllocatePage_spec lending.accounted
    rw [step]
    exact lending.grants Nat.one_ne_zero spec
  · intro n two
    have some_ : n ≠ 0 := by omega
    obtain ⟨r, u, step, spec⟩ := mmAllocatePages_spec lending.accounted some_
    rw [step]
    exact lending.grants some_ spec

/-- After one frame was handed out and freed. -/
theorem frames_handed_out_once_small :
    ∃ s₀ r u w, mmInitializePhysicalMemory smallMap 0x102000 (fun _ => 0) = some s₀ ∧
      mmAllocatePage s₀ = some (r, u) ∧ r ≠ mmInvalidPhys ∧
      mmFreePages r 1 u = some w.pmm ∧
      Grants smallMap 0x102000 w 2 (mmAllocatePages 2 w.pmm) := by
  have wf : WellFormed smallMap 0x102000 :=
    ⟨by decide, by decide, by decide, by decide, by decide⟩
  have rounds : RoundsUp smallMap 0x102000 := by
    unfold RoundsUp
    decide
  obtain ⟨s₀, returns, spec⟩ := frames_handed_out_once wf rounds (fun _ => 0)
  obtain ⟨_, same, accounted, -⟩ := mmInitializePhysicalMemory_spec wf.word wf.low 0x102000 fun _ => 0
  obtain rfl := Option.some.inj (returns.symm.trans same)
  have start : Runs.Reachable (· = Loans.mk s₀ ∅ ∅) LoanStep ⟨s₀, ∅, ∅⟩ := .of_initial rfl
  obtain ⟨r, u, taken, null, -, -⟩ := (spec _ start).1
  have handed : r ≠ mmInvalidPhys := by
    refine fun none => null.mp none ⟨0x105, fun f low high => ?_⟩
    obtain rfl : f = 0x105 := by omega
    exact ⟨⟨⟨_, List.mem_singleton_self _, by decide, by decide, by decide⟩, by decide, by decide,
      by decide, by decide⟩, Finset.notMem_empty _⟩
  have lent : LoanStep ⟨s₀, ∅, ∅⟩ .allocatePage (Loans.lend ⟨s₀, ∅, ∅⟩ 1 r u) := ⟨r, u, taken, rfl⟩
  let frames := Finset.Ico (r / pageSize) (r / pageSize + 1)
  have noted : Loans.lend ⟨s₀, ∅, ∅⟩ 1 r u = ⟨u, ∅ ∪ frames, ∅ ∪ frames⟩ := if_neg handed
  have paged : PmmStep s₀ .allocatePage u := ⟨r, taken⟩
  obtain ⟨v, freed, -⟩ := (accounted.step paged).next (.freePages r 1)
  rw [noted] at lent
  have back : LoanStep ⟨u, ∅ ∪ frames, ∅ ∪ frames⟩ (.freePages r 1)
      ⟨v, (∅ ∪ frames) \ frames, ∅ ∪ frames⟩ :=
    ⟨fun g low high => Finset.mem_union_right ∅ (Finset.mem_Ico.mpr ⟨low, high⟩), v, freed, rfl⟩
  exact ⟨s₀, r, u, ⟨v, _, _⟩, returns, taken, handed, freed,
    (spec _ ((start.next lent).next back)).2 2 le_rfl⟩

/-- The only available region is 16 bytes in the last page of the 64-bit space. -/
def lastPageMap : MemoryMap :=
  ⟨[⟨0xFFFFFFFFFFFFF001, 0x10, .available⟩], 0xFFFFFFFFFFFFF011⟩

/-- Its rounded start wraps to 0: frames that no region offers are handed out. -/
theorem last_page_region_frees_all_frames :
    WellFormed lastPageMap 0x200000 ∧
    ∃ s₀, mmInitializePhysicalMemory lastPageMap 0x200000 (fun _ => 0) = some s₀ ∧
      ¬ Grants lastPageMap 0x200000 ⟨s₀, ∅, ∅⟩ 1 (mmAllocatePage s₀) := by
  have wf : WellFormed lastPageMap 0x200000 :=
    ⟨by decide, by decide, by decide, by decide, by decide⟩
  obtain ⟨s₀, returns, accounted, total, free⟩ :=
    mmInitializePhysicalMemory_spec wf.word wf.low 0x200000 (fun _ => 0)
  refine ⟨wf, s₀, returns, ?_⟩
  have none : ¬ ∃ start, Loanable lastPageMap 0x200000 ⟨s₀, ∅, ∅⟩ start 1 := by
    rintro ⟨start, loanable⟩
    obtain ⟨⟨r, hr, _, lower, upper⟩, _⟩ :=
      (loanable start (Nat.le_refl _) (Nat.lt_succ_self _)).1
    obtain rfl := List.mem_singleton.mp hr
    unfold pageSize at lower upper
    dsimp only at lower upper
    omega
  have clear : 2 ^ 50 ∈ freeFrames s₀ := by
    rw [free]
    refine ⟨⟨_, List.mem_singleton.mpr rfl, rfl, by decide, by decide⟩, by decide, ?_, ?_, ?_⟩
    · exact (reserves_low _).mpr (by decide)
    · exact (reserves_kernel (by decide) (by decide) (by decide)).mpr (by decide)
    · unfold Reserves
      decide
  rintro ⟨r, u, step, invalid, _⟩
  have failed := invalid.mpr none
  obtain ⟨q, v, again, spec⟩ := mmAllocatePage_spec accounted
  obtain ⟨rfl, rfl⟩ := Prod.mk.inj (Option.some.inj (again.symm.trans step))
  rcases spec with ⟨_, _, empty⟩ | ⟨start, found, here, _⟩
  · refine empty (2 ^ 50) ?_
    intro g lower upper
    have same : g = 2 ^ 50 := by omega
    rw [same]
    exact clear
  · exact found.address_ne accounted Nat.one_ne_zero (here.symm.trans failed)

end Pmm
