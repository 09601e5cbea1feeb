import Svindows.Ldr.ImageRanges
import Svindows.User.Callbacks

/-!
# Pages of the user half

Four parts of the kernel hand out user pages: `NtAllocateVirtualMemory`,
`NtCreateThreadEx`, the callback stacks and the image loader. The first three
take the next addresses of their own areas and do not look whether a page is
mapped there; only the loader does. Frames are never given back.
-/

namespace Ps

open Nt
open Mm (Tree Mapped pageSlot)
open User (callbackStackArenaVa callbackStackSlots callbackStackSlotSize)

structure UserSpace where
  ldr : Ldr.LdrState
  /-- `g_user_alloc_next`. -/
  userAllocNext : Nat
  /-- `g_thread_va`. -/
  threadVa : Nat
  /-- `g_callback_stack_next`. -/
  callbackStackNext : Nat

def UserSpace.vm (s : UserSpace) : Mm.VmState := s.ldr.vm

def UserSpace.withVm (s : UserSpace) (vm : Mm.VmState) : UserSpace :=
  { s with ldr := { s.ldr with vm := vm } }

def userAllocBase : Nat := 0x20000000
def threadVaBase : Nat := 0x30000000
def threadStackPages : Nat := 16
def processTebSize : Nat := 0x2000

/-- Map `n` new pages from `va` on, whatever was there; whether the frames sufficed. -/
def mapNewPages : Nat → Nat → Mm.VmState → Option (Bool × Mm.VmState)
  | 0, _, vm => some (true, vm)
  | n + 1, va, vm =>
    match vm.frames with
    | [] => some (false, vm)
    | pa :: frames => do
      let (_, vm) ← Mm.mmMapPage { vm with frames := frames } (BitVec.ofNat 64 va) pa
        (Mm.pteUser ||| Mm.pteWrite)
      mapNewPages n (va + pageSize) vm

/-- `NtAllocateVirtualMemory` with `size` behind its pointer, if there is one: the
status, the base and the size it reports. -/
def ntAllocateVirtualMemory (size : Option Nat) (s : UserSpace) :
    Option (NtStatus × Nat × Nat × UserSpace) :=
  match size with
  | none => some (statusInvalidParameter, 0, 0, s)
  | some size =>
    if size = 0 then some (statusInvalidParameter, 0, 0, s)
    else do
      let pages := bytesToPages size
      let (done, vm) ← mapNewPages pages s.userAllocNext s.vm
      if !done then some (statusNoMemory, 0, 0, s.withVm vm)
      else some (statusSuccess, s.userAllocNext, wrap64 (pages * pageSize),
        { s.withVm vm with userAllocNext := wrap64 (s.userAllocNext + pages * pageSize) })

/-- `map_user_pages`: the base, or 0. -/
def mapUserPages (pages : Nat) (s : UserSpace) : Option (Nat × UserSpace) := do
  let (done, vm) ← mapNewPages pages s.threadVa s.vm
  if !done then some (0, s.withVm vm)
  else some (s.threadVa,
    { s.withVm vm with threadVa := wrap64 (s.threadVa + pages * pageSize) })

/-- The memory of `NtCreateThreadEx`: the status, the stack and the TEB. Whether
the handle can be written and whether the objects can be created is up to
others. -/
def ntCreateThreadEx (writable created : Bool) (s : UserSpace) :
    Option (NtStatus × Nat × Nat × UserSpace) :=
  if !writable then some (statusAccessViolation, 0, 0, s)
  else do
    let (stack, s) ← mapUserPages threadStackPages s
    let (teb, s) ← mapUserPages (processTebSize / pageSize) s
    if stack = 0 ∨ teb = 0 ∨ !created then some (statusNoMemory, stack, teb, s)
    else some (statusSuccess, stack, teb, s)

/-- `KiClaimCallbackStack`: the top of a stack, or 0. -/
def kiClaimCallbackStack (s : UserSpace) : Option (Nat × UserSpace) :=
  if s.callbackStackNext ≥ callbackStackSlots then some (0, s)
  else do
    let base := callbackStackArenaVa + s.callbackStackNext * callbackStackSlotSize
    let (done, vm) ← mapNewPages (callbackStackSlotSize / pageSize) base s.vm
    let s := { s.withVm vm with callbackStackNext := s.callbackStackNext + 1 }
    some (if done then base + callbackStackSlotSize else 0, s)

/-- What mapping pages from `va` on, `n` at most, may do. -/
structure PagesMapped (n va : Nat) (vm vm' : Mm.VmState) : Prop where
  tree : Tree vm'
  kept : ∀ w, Mapped vm w → Mapped vm' w
  new : ∀ w, Mapped vm' w → Mapped vm w ∨ ∃ i < n, pageSlot w.toNat = pageSlot (va + i * pageSize)
  frames : vm'.frames <:+ vm.frames
  large : Mm.LargeFrom vm vm'
  leaves : ∀ w, Mm.LeafMapped vm w → Mm.LeafMapped vm' w

theorem PagesMapped.refl {vm : Mm.VmState} (tree : Tree vm) (n va : Nat) :
    PagesMapped n va vm vm :=
  ⟨tree, fun _ h => h, fun _ h => Or.inl h, List.suffix_refl _,
    fun _ _ e _ entry large => ⟨e, entry, large⟩, fun _ h => h⟩

theorem pageSlot_ofNat (va : Nat) : pageSlot (BitVec.ofNat 64 va).toNat = pageSlot va := by
  simp only [pageSlot, BitVec.toNat_ofNat]
  omega

/-- One page, with a frame of its own, and then the others. -/
theorem PagesMapped.cons {n va : Nat} {vm vm₁ vm' : Mm.VmState} {pa : Mm.Word}
    {rest : List Mm.Word} {done : Bool} (tree : Tree vm) (frames : vm.frames = pa :: rest)
    (first : Mm.mmMapPage { vm with frames := rest } (BitVec.ofNat 64 va) pa
      (Mm.pteUser ||| Mm.pteWrite) = some (done, vm₁))
    (later : PagesMapped n (va + pageSize) vm₁ vm') : PagesMapped (n + 1) va vm vm' := by
  have taken := tree.take frames
  obtain ⟨_, kept, _⟩ := Mm.mmMapPage_mapped taken first
  refine ⟨later.tree, fun w h => later.kept w (kept w h), ?_, ?_,
    (Mm.mmMapPage_large taken first).trans later.large,
    fun w h => later.leaves w ((Mm.mmMapPage_leaves taken first).1 w h)⟩
  · intro w mapped
    rcases later.new w mapped with before | ⟨i, hi, same⟩
    · rcases Mm.mmMapPage_new taken first before with old | here
      · exact Or.inl old
      · refine Or.inr ⟨0, by omega, ?_⟩
        rw [here, pageSlot_ofNat, Nat.zero_mul, Nat.add_zero]
    · refine Or.inr ⟨i + 1, by omega, ?_⟩
      rw [same, Nat.succ_mul]
      congr 1
      omega
  · rw [frames]
    exact (later.frames.trans (Mm.mmMapPage_frames first)).trans (List.suffix_cons pa rest)

/-- A round takes a frame and maps it, or ends the loop. -/
theorem mapNewPages_succ {n va : Nat} {vm vm' : Mm.VmState} {done : Bool}
    (step : mapNewPages (n + 1) va vm = some (done, vm')) :
    (vm.frames = [] ∧ done = false ∧ vm' = vm) ∨
      ∃ pa rest got vm₁, vm.frames = pa :: rest ∧
        Mm.mmMapPage { vm with frames := rest } (BitVec.ofNat 64 va) pa
          (Mm.pteUser ||| Mm.pteWrite) = some (got, vm₁) ∧
        mapNewPages n (va + pageSize) vm₁ = some (done, vm') := by
  cases frames : vm.frames with
  | nil =>
    simp only [mapNewPages, frames] at step
    obtain ⟨rfl, rfl⟩ := Prod.mk.inj (Option.some.inj step)
    exact .inl ⟨rfl, rfl, rfl⟩
  | cons pa rest =>
    simp only [mapNewPages, frames, Option.bind_eq_bind, Option.bind_eq_some_iff] at step
    obtain ⟨⟨got, vm₁⟩, first, step⟩ := step
    exact .inr ⟨pa, rest, got, vm₁, rfl, first, step⟩

theorem mapNewPages_spec (n : Nat) : ∀ {vm vm' : Mm.VmState} {va : Nat} {done : Bool}, Tree vm →
    mapNewPages n va vm = some (done, vm') → PagesMapped n va vm vm' ∧
      (done = false → vm'.frames = []) ∧ (done = true → n ≠ 0 → vm.frames ≠ []) := by
  induction n with
  | zero =>
    intro vm vm' va done tree step
    obtain ⟨rfl, rfl⟩ := Prod.mk.inj (Option.some.inj step)
    exact ⟨.refl tree 0 va, fun wrong => absurd wrong (by decide), fun _ wrong => absurd rfl wrong⟩
  | succ n ih =>
    intro vm vm' va done tree step
    obtain ⟨frames, rfl, rfl⟩ | ⟨pa, rest, ok, vm₁, frames, first, step⟩ := mapNewPages_succ step
    · exact ⟨.refl tree _ va, fun _ => frames, fun wrong => absurd wrong (by decide)⟩
    · obtain ⟨tree₁, _, _⟩ := Mm.mmMapPage_mapped (tree.take frames) first
      obtain ⟨later, out, _⟩ := ih tree₁ step
      exact ⟨.cons tree frames first later, out, fun _ _ => frames ▸ List.cons_ne_nil pa rest⟩

/-- A page takes four frames at most, so with enough of them the loop runs to its end. -/
theorem mapNewPages_of_frames (n : Nat) : ∀ {k : Nat} (va : Nat) {vm : Mm.VmState},
    k + 4 * n ≤ vm.frames.length →
      ∃ vm', mapNewPages n va vm = some (true, vm') ∧ k ≤ vm'.frames.length := by
  induction n with
  | zero => exact fun _ _ enough => ⟨_, rfl, enough⟩
  | succ n ih =>
    intro k va vm enough
    cases frames : vm.frames with
    | nil =>
      rw [frames, List.length_nil] at enough
      omega
    | cons pa rest =>
      rw [frames, List.length_cons] at enough
      have three : k + 4 * n + 3 ≤ rest.length := by omega
      obtain ⟨done, vm₁, first, left⟩ := Mm.mmMapPage_returns_of_frames (s := { vm with
        frames := rest }) three (BitVec.ofNat 64 va) pa (Mm.pteUser ||| Mm.pteWrite)
      obtain ⟨vm', later, enough'⟩ := ih (va + pageSize) left
      refine ⟨vm', ?_, enough'⟩
      simp only [mapNewPages, frames, first, Option.bind_eq_bind, Option.bind_some]
      exact later

/-- The pages from `va` on are mapped. -/
def HeldPages (n va : Nat) (vm : Mm.VmState) : Prop :=
  ∀ i < n, Mm.LeafMapped vm (BitVec.ofNat 64 (va + i * pageSize))

theorem HeldPages.cons {n va : Nat} {vm : Mm.VmState}
    (first : Mm.LeafMapped vm (BitVec.ofNat 64 va)) (later : HeldPages n (va + pageSize) vm) :
    HeldPages (n + 1) va vm := by
  intro i hi
  cases i with
  | zero =>
    rw [Nat.zero_mul, Nat.add_zero]
    exact first
  | succ i =>
    have shift : va + (i + 1) * pageSize = va + pageSize + i * pageSize := by
      rw [Nat.succ_mul]
      omega
    rw [shift]
    exact later i (by omega)

/-- In the user half without large entries every new page is mapped. -/
theorem mapNewPages_held (n : Nat) : ∀ {vm vm' : Mm.VmState} {va : Nat}, Tree vm →
    Mm.SmallOnly vm → va + n * pageSize ≤ mmUserMax → mapNewPages n va vm = some (true, vm') →
    HeldPages n va vm' := by
  induction n with
  | zero => exact fun _ _ _ _ i hi => absurd hi (Nat.not_lt_zero i)
  | succ n ih =>
    intro vm vm' va tree small below step
    obtain ⟨-, wrong, -⟩ | ⟨pa, rest, ok, vm₁, frames, first, step⟩ := mapNewPages_succ step
    · cases wrong
    · have taken := tree.take frames
      have small₀ : Mm.SmallOnly { vm with frames := rest } := small
      have user : (BitVec.ofNat 64 va).toNat % 2 ^ 48 < 2 ^ 47 := by
        simp only [BitVec.toNat_ofNat, mmUserMax, pageSize] at *
        omega
      have done := small₀.done taken user first
      obtain ⟨tree₁, _, _⟩ := Mm.mmMapPage_mapped taken first
      obtain ⟨later, _, _⟩ := mapNewPages_spec n tree₁ step
      have here := (Mm.mmMapPage_leaves taken first).2 done
      have rest : va + pageSize + n * pageSize ≤ mmUserMax := by
        rw [Nat.succ_mul] at below
        omega
      exact .cons (later.leaves _ here)
        (ih tree₁ (small₀.keep (Mm.mmMapPage_large taken first)) rest step)

theorem mapImagePages_spec (n : Nat) : ∀ {vm vm' : Mm.VmState} {va : Nat} {status : NtStatus},
    Tree vm → Ldr.mapImagePages n va vm = some (status, vm') →
    PagesMapped n va vm vm' ∧ (status = statusSuccess → HeldPages n va vm') := by
  induction n with
  | zero =>
    intro vm vm' va status tree step
    obtain ⟨rfl, rfl⟩ := Prod.mk.inj (Option.some.inj step)
    exact ⟨.refl tree 0 va, fun _ i hi => absurd hi (Nat.not_lt_zero i)⟩
  | succ n ih =>
    intro vm vm' va status tree step
    obtain ⟨frames, rfl, rfl⟩ | ⟨pa, rest, ok, vm₁, frames, first, step⟩ :=
      Ldr.mapImagePages_succ step
    · exact ⟨.refl tree _ va, fun wrong => absurd wrong (by decide)⟩
    · obtain ⟨tree₁, _, _⟩ := Mm.mmMapPage_mapped (tree.take frames) first
      obtain ⟨done, step⟩ | ⟨-, rfl, rfl⟩ := step
      · obtain ⟨later, held⟩ := ih tree₁ step
        have here := (Mm.mmMapPage_leaves (tree.take frames) first).2 done
        exact ⟨.cons tree frames first later,
          fun success => .cons (later.leaves _ here) (held success)⟩
      · exact ⟨.cons tree frames first (.refl tree₁ n _), fun wrong => absurd wrong (by decide)⟩

variable {s u : UserSpace}

theorem ntAllocateVirtualMemory_cases {size : Option Nat} {status : NtStatus}
    {base out : Nat} (step : ntAllocateVirtualMemory size s = some (status, base, out, u)) :
    (status ≠ statusSuccess ∧ u = s) ∨ ∃ n vm, size = some n ∧
      ((mapNewPages (bytesToPages n) s.userAllocNext s.vm = some (false, vm) ∧
          status ≠ statusSuccess ∧ u = s.withVm vm) ∨
        (mapNewPages (bytesToPages n) s.userAllocNext s.vm = some (true, vm) ∧
          status = statusSuccess ∧ base = s.userAllocNext ∧ u = { s.withVm vm with
            userAllocNext := wrap64 (s.userAllocNext + bytesToPages n * pageSize) })) := by
  unfold ntAllocateVirtualMemory at step
  split at step
  · obtain ⟨rfl, -, -, rfl⟩ : _ ∧ _ ∧ _ ∧ _ := by simpa using step
    exact Or.inl ⟨by decide, rfl⟩
  · rename_i n
    split at step
    · obtain ⟨rfl, -, -, rfl⟩ : _ ∧ _ ∧ _ ∧ _ := by simpa using step
      exact Or.inl ⟨by decide, rfl⟩
    · simp only [Option.bind_eq_bind, Option.bind_eq_some_iff] at step
      obtain ⟨⟨done, vm⟩, mapped, step⟩ := step
      refine Or.inr ⟨n, vm, rfl, ?_⟩
      cases done with
      | false =>
        obtain ⟨rfl, -, -, rfl⟩ : _ ∧ _ ∧ _ ∧ _ := by simpa using step
        exact Or.inl ⟨mapped, by decide, rfl⟩
      | true =>
        obtain ⟨rfl, rfl, -, rfl⟩ : _ ∧ _ ∧ _ ∧ _ := by simpa using step
        exact Or.inr ⟨mapped, rfl, rfl, rfl⟩

theorem mapUserPages_cases {pages : Nat} {base : Nat}
    (step : mapUserPages pages s = some (base, u)) : ∃ vm,
      (mapNewPages pages s.threadVa s.vm = some (false, vm) ∧ base = 0 ∧ u = s.withVm vm) ∨
      (mapNewPages pages s.threadVa s.vm = some (true, vm) ∧ base = s.threadVa ∧
        u = { s.withVm vm with threadVa := wrap64 (s.threadVa + pages * pageSize) }) := by
  simp only [mapUserPages, Option.bind_eq_bind, Option.bind_eq_some_iff] at step
  obtain ⟨⟨done, vm⟩, mapped, step⟩ := step
  refine ⟨vm, ?_⟩
  cases done with
  | false =>
    obtain ⟨rfl, rfl⟩ : _ ∧ _ := by simpa using step
    exact Or.inl ⟨mapped, rfl, rfl⟩
  | true =>
    obtain ⟨rfl, rfl⟩ : _ ∧ _ := by simpa using step
    exact Or.inr ⟨mapped, rfl, rfl⟩

theorem mapUserPages_of_frames {pages k : Nat} (enough : k + 4 * pages ≤ s.vm.frames.length) :
    ∃ u, mapUserPages pages s = some (s.threadVa, u) ∧
      u.threadVa = wrap64 (s.threadVa + pages * pageSize) ∧ k ≤ u.vm.frames.length := by
  obtain ⟨vm, mapped, left⟩ := mapNewPages_of_frames pages s.threadVa enough
  refine ⟨{ s.withVm vm with threadVa := wrap64 (s.threadVa + pages * pageSize) }, ?_, rfl, left⟩
  simp [mapUserPages, mapped]

theorem ntCreateThreadEx_cases {writable created : Bool} {status : NtStatus}
    {stack teb : Nat} (step : ntCreateThreadEx writable created s = some (status, stack, teb, u)) :
    (stack = 0 ∧ teb = 0 ∧ u = s) ∨ (writable = true ∧ ∃ s₁,
      mapUserPages threadStackPages s = some (stack, s₁) ∧
      mapUserPages (processTebSize / pageSize) s₁ = some (teb, u)) := by
  unfold ntCreateThreadEx at step
  cases writable with
  | false =>
    obtain ⟨-, rfl, rfl, rfl⟩ : _ ∧ _ ∧ _ ∧ _ := by simpa using step
    exact Or.inl ⟨rfl, rfl, rfl⟩
  | true =>
    rw [Bool.not_true, if_neg (by decide)] at step
    simp only [Option.bind_eq_bind, Option.bind_eq_some_iff] at step
    obtain ⟨⟨stack₁, s₁⟩, first, ⟨teb₁, s₂⟩, second, step⟩ := step
    refine Or.inr ⟨rfl, s₁, ?_⟩
    dsimp only at first second step
    split at step
    · obtain ⟨-, rfl, rfl, rfl⟩ : _ ∧ _ ∧ _ ∧ _ := by simpa using step
      exact ⟨first, second⟩
    · obtain ⟨-, rfl, rfl, rfl⟩ : _ ∧ _ ∧ _ ∧ _ := by simpa using step
      exact ⟨first, second⟩

theorem kiClaimCallbackStack_cases {top : Nat} (step : kiClaimCallbackStack s = some (top, u)) :
    (top = 0 ∧ u = s) ∨ (s.callbackStackNext < callbackStackSlots ∧ ∃ done vm,
      mapNewPages (callbackStackSlotSize / pageSize)
        (callbackStackArenaVa + s.callbackStackNext * callbackStackSlotSize) s.vm =
          some (done, vm) ∧
      (top = 0 ↔ done = false) ∧
      u = { s.withVm vm with callbackStackNext := s.callbackStackNext + 1 }) := by
  unfold kiClaimCallbackStack at step
  split at step
  · obtain ⟨rfl, rfl⟩ : _ ∧ _ := by simpa using step
    exact Or.inl ⟨rfl, rfl⟩
  · rename_i few
    simp only [Option.bind_eq_bind, Option.bind_eq_some_iff] at step
    obtain ⟨⟨done, vm⟩, mapped, step⟩ := step
    obtain ⟨rfl, rfl⟩ : _ ∧ _ := by simpa using step
    refine Or.inr ⟨Nat.lt_of_not_le few, done, vm, mapped, ?_, rfl⟩
    cases done with
    | false => simp
    | true => simp [callbackStackArenaVa]

/-- Eight frames, and nothing handed out. -/
def freshUserSpace : UserSpace := ⟨Ldr.noImages, userAllocBase, threadVaBase, 0⟩

end Ps
