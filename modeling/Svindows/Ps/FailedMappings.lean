import Svindows.Ex.PoolPages
import Svindows.Ps.KernelHalf

/-!
# Mappings that fail half way

The pool, two system services and the image loader map their pages one by one
and take a frame for each. A call that runs out of frames, or meets a page that
cannot be mapped, does not give back what it has taken.
-/

namespace Ps

open Nt
open Mm (Tree NothingLeaked PageRun)

/-- What user pages are mapped with. -/
def userPage : Mm.Word := Mm.pteUser ||| Mm.pteWrite

/-- Of `n` pages from `va` on, there is one without a frame or one that cannot
be mapped. -/
def PageFails (flags : Mm.Word) : Nat → Nat → Mm.VmState → Prop
  | 0, _, _ => False
  | n + 1, va, vm =>
    match vm.frames with
    | [] => True
    | pa :: frames =>
      match Mm.mmMapPage { vm with frames := frames } (BitVec.ofNat 64 va) pa flags with
      | none => False
      | some (done, vm) => done = false ∨ PageFails flags n (va + pageSize) vm

theorem PageFails.some {flags : Mm.Word} {n va : Nat} {vm : Mm.VmState}
    (fails : PageFails flags n va vm) : n ≠ 0 := by
  rintro rfl
  exact fails

theorem mapNewPages_run (n : Nat) : ∀ {va : Nat} {vm vm' : Mm.VmState} {done : Bool},
    mapNewPages n va vm = some (done, vm') → PageRun n vm vm' := by
  induction n with
  | zero =>
    intro va vm vm' done run
    obtain ⟨_, rfl⟩ := Prod.mk.inj (Option.some.inj run)
    exact .finished vm
  | succ n ih =>
    intro va vm vm' done run
    obtain ⟨frames, -, rfl⟩ | ⟨pa, rest, got, vm₁, frames, first, run⟩ := mapNewPages_succ run
    · exact .noFrame n frames
    · exact .page frames first (ih run)

theorem mapImagePages_run (n : Nat) : ∀ {va : Nat} {vm vm' : Mm.VmState} {status : NtStatus},
    Ldr.mapImagePages n va vm = some (status, vm') → PageRun n vm vm' := by
  induction n with
  | zero =>
    intro va vm vm' status run
    obtain ⟨_, rfl⟩ := Prod.mk.inj (Option.some.inj run)
    exact .finished vm
  | succ n ih =>
    intro va vm vm' status run
    obtain ⟨frames, -, rfl⟩ | ⟨pa, rest, got, vm₁, frames, first, run⟩ := Ldr.mapImagePages_succ run
    · exact .noFrame n frames
    · obtain ⟨-, run⟩ | ⟨rfl, -, rfl⟩ := run
      · exact .page frames first (ih run)
      · exact .refused n frames first

/-- The pool's loop reports exactly the pages that fail. -/
theorem growPages_fails {n : Nat} : ∀ {va : Nat} {vm vm' : Mm.VmState} {done : Bool},
    Pool.growPages n va vm = some (done, vm') →
      (done = false ↔ PageFails Mm.pteWrite n va vm) := by
  induction n with
  | zero =>
    intro va vm vm' done run
    obtain ⟨rfl, _⟩ := Prod.mk.inj (Option.some.inj run)
    simp [PageFails]
  | succ n ih =>
    intro va vm vm' done run
    rw [Pool.growPages, Option.bind_eq_bind, Option.bind_eq_some_iff] at run
    obtain ⟨⟨got, vm₁⟩, first, run⟩ := run
    cases frames : vm.frames with
    | nil =>
      simp only [Pool.growPage, frames] at first
      obtain ⟨rfl, _⟩ := Prod.mk.inj (Option.some.inj first)
      obtain ⟨rfl, _⟩ := Prod.mk.inj (Option.some.inj run)
      simp [PageFails, frames]
    | cons pa rest =>
      simp only [Pool.growPage, frames] at first
      simp only [PageFails, frames, first]
      cases got with
      | true =>
        rw [ih run]
        simp
      | false =>
        obtain ⟨rfl, _⟩ := Prod.mk.inj (Option.some.inj run)
        simp

/-- So does the loader's. -/
theorem mapImagePages_fails {n : Nat} : ∀ {va : Nat} {vm vm' : Mm.VmState} {status : NtStatus},
    Ldr.mapImagePages n va vm = some (status, vm') →
      (status ≠ statusSuccess ↔ PageFails userPage n va vm) := by
  induction n with
  | zero =>
    intro va vm vm' status run
    obtain ⟨rfl, _⟩ := Prod.mk.inj (Option.some.inj run)
    simp [PageFails]
  | succ n ih =>
    intro va vm vm' status run
    obtain ⟨frames, rfl, -⟩ | ⟨pa, rest, got, vm₁, frames, first, run⟩ := Ldr.mapImagePages_succ run
    · simp [PageFails, frames, statusNoMemory, statusSuccess]
    · simp only [PageFails, frames, userPage, first]
      obtain ⟨rfl, run⟩ | ⟨rfl, rfl, -⟩ := run
      · rw [ih run]
        simp [userPage]
      · simp [statusConflictingAddresses, statusSuccess]

/-- The services' loops report a missing frame; a page that is refused they pass over. -/
theorem mapNewPages_fails {n : Nat} : ∀ {va : Nat} {vm vm' : Mm.VmState},
    mapNewPages n va vm = some (false, vm') → PageFails userPage n va vm := by
  induction n with
  | zero =>
    intro va vm vm' run
    exact absurd run (by simp [mapNewPages])
  | succ n ih =>
    intro va vm vm' run
    obtain ⟨frames, -, -⟩ | ⟨pa, rest, got, vm₁, frames, first, run⟩ := mapNewPages_succ run
    · simp [PageFails, frames]
    · simp only [PageFails, frames, userPage, first]
      exact Or.inr (ih run)

theorem ntAllocateVirtualMemory_pages {size : Nat} {s u : UserSpace} {status : NtStatus}
    {base out : Nat} (step : ntAllocateVirtualMemory (some size) s = some (status, base, out, u)) :
    ∃ done, mapNewPages (bytesToPages size) s.userAllocNext s.vm = some (done, u.vm) ∧
      (done = false ↔ status = statusNoMemory) := by
  simp only [ntAllocateVirtualMemory] at step
  split at step
  · rename_i empty
    obtain ⟨rfl, -, -, rfl⟩ : _ ∧ _ ∧ _ ∧ _ := by simpa using step
    subst empty
    exact ⟨true, rfl, by decide⟩
  · simp only [Option.bind_eq_bind, Option.bind_eq_some_iff] at step
    obtain ⟨⟨done, vm⟩, mapped, step⟩ := step
    refine ⟨done, ?_⟩
    cases done with
    | false | true =>
      obtain ⟨rfl, -, -, rfl⟩ : _ ∧ _ ∧ _ ∧ _ := by simpa using step
      exact ⟨mapped, by decide⟩

theorem mapUserPages_run {pages base : Nat} {s u : UserSpace}
    (step : mapUserPages pages s = some (base, u)) : PageRun pages s.vm u.vm := by
  obtain ⟨vm, ⟨mapped, _, rfl⟩ | ⟨mapped, _, rfl⟩⟩ := mapUserPages_cases step
  · exact mapNewPages_run pages mapped
  · exact mapNewPages_run pages mapped

/-- A call that reports no memory after it has got a frame keeps frames. -/
theorem ntAllocateVirtualMemory_leaks {size : Nat} {s : UserSpace} (tree : Tree s.vm)
    (frames : s.vm.frames ≠ [])
    (returns : (ntAllocateVirtualMemory (some size) s).map (·.1) = some statusNoMemory) :
    ∃ base out u, PageFails userPage (bytesToPages size) s.userAllocNext s.vm ∧
      ntAllocateVirtualMemory (some size) s = some (statusNoMemory, base, out, u) ∧
      ¬ NothingLeaked s.vm u.vm := by
  obtain ⟨⟨status, base, out, u⟩, step, same⟩ := Option.map_eq_some_iff.mp returns
  obtain rfl : status = statusNoMemory := same
  obtain ⟨done, mapped, stopped⟩ := ntAllocateVirtualMemory_pages step
  obtain rfl := stopped.mpr rfl
  have fails := mapNewPages_fails mapped
  refine ⟨base, out, u, fails, step, ?_⟩
  rw [(mapNewPages_run _ mapped).nothing_leaked_iff tree fails.some]
  exact frames

/-- After a call of one of the four that meets a page it cannot map, every page
is mapped as before and no frame is lost, if and only if there was no frame to
take from the start. -/
theorem failed_mappings_leak_nothing_iff {s : UserSpace} (tree : Tree s.vm) :
    (∀ pool need contents pool' vm,
      Pool.poolGrowMapped pool need contents s.vm = some (false, pool', vm) →
        (NothingLeaked s.vm vm ↔ s.vm.frames = [])) ∧
    (∀ size status base out u,
      PageFails userPage (bytesToPages size) s.userAllocNext s.vm →
        ntAllocateVirtualMemory (some size) s = some (status, base, out, u) →
          (NothingLeaked s.vm u.vm ↔ s.vm.frames = [])) ∧
    (∀ pages base u,
      PageFails userPage pages s.threadVa s.vm → mapUserPages pages s = some (base, u) →
        (NothingLeaked s.vm u.vm ↔ s.vm.frames = [])) ∧
    ∀ rounds file r base status,
      Ldr.ldrpMapImage rounds s.ldr file = some r → Ldr.Attempt rounds s.ldr file r base status →
        status ≠ statusSuccess → (NothingLeaked s.vm r.state.vm ↔ s.vm.frames = []) := by
  refine ⟨?_, ?_, ?_, ?_⟩
  · intro pool need contents pool' vm grown
    have pages := Pool.poolGrowMapped_pages grown
    have fails := (growPages_fails pages).mp rfl
    exact (Pool.growPages_run _ pages).nothing_leaked_iff tree fails.some
  · intro size status base out u fails step
    obtain ⟨done, mapped, _⟩ := ntAllocateVirtualMemory_pages step
    exact (mapNewPages_run _ mapped).nothing_leaked_iff tree fails.some
  · intro pages base u fails step
    exact (mapUserPages_run step).nothing_leaked_iff tree fails.some
  · intro rounds file r base status _ attempt failed
    have pages := (Ldr.mapPages_pages attempt.mapped).1
    have fails := (mapImagePages_fails pages).mp failed
    exact (mapImagePages_run _ pages).nothing_leaked_iff tree fails.some

/-- Nothing handed out, and the last `n` of the eight frames. -/
def lastFrames (n : Nat) : UserSpace :=
  freshUserSpace.withVm { freshUserSpace.vm with frames := freshUserSpace.vm.frames.drop (8 - n) }

theorem lastFrames_tree (n : Nat) : Tree (lastFrames n).vm :=
  freshUserSpace_safe.1.fewer (List.drop_suffix _ _)

/-- Without a frame nothing is lost; with four, the first of two pages takes them. -/
theorem failed_mappings_leak_nothing_none_and_four :
    (∃ base out u, ntAllocateVirtualMemory (some 0x1000) (lastFrames 0) =
      some (statusNoMemory, base, out, u) ∧ NothingLeaked (lastFrames 0).vm u.vm) ∧
    ∃ base out u, ntAllocateVirtualMemory (some 0x2000) (lastFrames 4) =
      some (statusNoMemory, base, out, u) ∧ ¬ NothingLeaked (lastFrames 4).vm u.vm := by
  have fails : PageFails userPage (bytesToPages 0x1000) (lastFrames 0).userAllocNext
      (lastFrames 0).vm := trivial
  have step : ntAllocateVirtualMemory (some 0x1000) (lastFrames 0) =
      some (statusNoMemory, 0, 0, lastFrames 0) := rfl
  refine ⟨⟨0, 0, lastFrames 0, step,
    ((failed_mappings_leak_nothing_iff (lastFrames_tree 0)).2.1 _ _ _ _ _ fails step).mpr rfl⟩, ?_⟩
  have frames : (lastFrames 4).vm.frames ≠ [] := List.cons_ne_nil _ _
  have returns : (ntAllocateVirtualMemory (some 0x2000) (lastFrames 4)).map (·.1) =
      some statusNoMemory := by decide +kernel
  obtain ⟨base, out, u, fails, step, -⟩ :=
    ntAllocateVirtualMemory_leaks (lastFrames_tree 4) frames returns
  exact ⟨base, out, u, step, mt ((failed_mappings_leak_nothing_iff
    (lastFrames_tree 4)).2.1 _ _ _ _ _ fails step).mp frames⟩

/-- Two pages are asked for, and the first takes the four frames there are: three
for tables and its own. -/
theorem page_kept_after_no_memory : ∃ base out u,
    PageFails userPage (bytesToPages 0x2000) (lastFrames 4).userAllocNext (lastFrames 4).vm ∧
    ntAllocateVirtualMemory (some 0x2000) (lastFrames 4) = some (statusNoMemory, base, out, u) ∧
    ¬ NothingLeaked (lastFrames 4).vm u.vm := by
  have frames : (lastFrames 4).vm.frames ≠ [] := List.cons_ne_nil _ _
  have returns : (ntAllocateVirtualMemory (some 0x2000) (lastFrames 4)).map (·.1) =
      some statusNoMemory := by decide +kernel
  exact ntAllocateVirtualMemory_leaks (lastFrames_tree 4) frames returns

end Ps
