import Svindows.Ex.PoolSteps
import Svindows.Mm.FrameUse

/-!
# The pool's pages in the page tables

`pool_grow` again, over the page tables it maps its pages in. What was left
open about a page commit, whether the frame is there and whether the page can
be mapped, is read off them.
-/

namespace Pool

open ByteMemory Nt

/-- One round of the commit loop: a frame, and the page at `va` mapped to it. -/
def growPage (va : Nat) (vm : Mm.VmState) : Option (Bool × Mm.VmState) :=
  match vm.frames with
  | [] => some (false, vm)
  | pa :: frames => Mm.mmMapPage { vm with frames := frames } (BitVec.ofNat 64 va) pa Mm.pteWrite

/-- The commit loop of `pool_grow`: `n` pages from `va` on. -/
def growPages : Nat → Nat → Mm.VmState → Option (Bool × Mm.VmState)
  | 0, _, vm => some (true, vm)
  | n + 1, va, vm => do
    let (done, vm) ← growPage va vm
    if done then growPages n (va + pageSize) vm else some (false, vm)

/-- Whether the loop gets page `i`. -/
def pageCommits : Nat → Nat → Mm.VmState → Bool
  | 0, va, vm => (growPage va vm).any (·.1)
  | i + 1, va, vm => (growPage va vm).any fun r => r.1 && pageCommits i (va + pageSize) r.2

/-- `pool_grow` with what the frames contain; no result when the frames for the
tables run out. -/
def poolGrowMapped (s : PoolState) (need : Nat) (contents : Memory) (vm : Mm.VmState) :
    Option (Bool × PoolState × Mm.VmState) := do
  let (_, mapped) ← growPages (growWant need / pageSize) s.gHeapEnd vm
  let grown := poolGrow s need ⟨fun i => pageCommits i s.gHeapEnd vm, contents⟩
  some (grown.1, grown.2, mapped)

/-- The loop gets through exactly when it gets every page. -/
theorem growPages_commits {n : Nat} : ∀ {va : Nat} {vm vm' : Mm.VmState} {done : Bool},
    growPages n va vm = some (done, vm') →
      (done = true ↔ ∀ i, i < n → pageCommits i va vm = true) := by
  induction n with
  | zero =>
    intro va vm vm' done run
    obtain ⟨rfl, _⟩ := Prod.mk.inj (Option.some.inj run)
    simp
  | succ n ih =>
    intro va vm vm' done run
    rw [growPages, Option.bind_eq_bind, Option.bind_eq_some_iff] at run
    obtain ⟨⟨got, vm₁⟩, first, run⟩ := run
    dsimp only at run
    cases got with
    | false =>
      rw [if_neg Bool.false_ne_true] at run
      obtain ⟨rfl, _⟩ := Prod.mk.inj (Option.some.inj run)
      have missing : pageCommits 0 va vm = false := by
        rw [pageCommits, first]
        rfl
      refine ⟨fun wrong => absurd wrong (by decide), fun all => ?_⟩
      rw [all 0 (Nat.succ_pos n)] at missing
      exact absurd missing (by decide)
    | true =>
      rw [if_pos rfl] at run
      rw [ih run]
      have here : pageCommits 0 va vm = true := by
        rw [pageCommits, first]
        rfl
      have later : ∀ i, pageCommits (i + 1) va vm = pageCommits i (va + pageSize) vm₁ := by
        intro i
        rw [pageCommits, first]
        rfl
      constructor
      · intro all i hi
        cases i with
        | zero => exact here
        | succ i =>
          rw [later]
          exact all i (by omega)
      · intro all i hi
        rw [← later]
        exact all (i + 1) (by omega)

theorem poolGrowMapped_pages {s s' : PoolState} {need : Nat} {contents : Memory}
    {vm vm' : Mm.VmState} {done : Bool}
    (run : poolGrowMapped s need contents vm = some (done, s', vm')) :
    growPages (growWant need / pageSize) s.gHeapEnd vm = some (done, vm') := by
  simp only [poolGrowMapped, Option.bind_eq_bind, Option.bind_eq_some_iff] at run
  obtain ⟨⟨got, mapped⟩, pages, run⟩ := run
  dsimp only at run
  rw [Option.some.injEq, Prod.mk.injEq, Prod.mk.injEq] at run
  obtain ⟨answer, _, rfl⟩ := run
  have same : got = true ↔ done = true := by
    rw [growPages_commits pages, ← answer, poolGrow_true]
  rw [pages, Bool.eq_iff_iff.mpr same]

theorem growPages_run (n : Nat) : ∀ {va : Nat} {vm vm' : Mm.VmState} {done : Bool},
    growPages n va vm = some (done, vm') → Mm.PageRun n vm vm' := by
  induction n with
  | zero =>
    intro va vm vm' done run
    obtain ⟨_, rfl⟩ := Prod.mk.inj (Option.some.inj run)
    exact .finished vm
  | succ n ih =>
    intro va vm vm' done run
    rw [growPages, Option.bind_eq_bind, Option.bind_eq_some_iff] at run
    obtain ⟨⟨got, vm₁⟩, first, run⟩ := run
    cases frames : vm.frames with
    | nil =>
      simp only [growPage, frames] at first
      obtain ⟨rfl, rfl⟩ := Prod.mk.inj (Option.some.inj first)
      obtain ⟨_, rfl⟩ := Prod.mk.inj (Option.some.inj run)
      exact .noFrame n frames
    | cons pa rest =>
      simp only [growPage, frames] at first
      cases got with
      | true => exact .page frames first (ih run)
      | false =>
        obtain ⟨_, rfl⟩ := Prod.mk.inj (Option.some.inj run)
        exact .refused n frames first

end Pool
