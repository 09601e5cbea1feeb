import Svindows.Mm.Stores
import Svindows.Ps.UserSpace

/-!
# The kernel half stays out of reach of ring 3

Every table entry above the leaves lets user mode through, so the leaves alone
protect the kernel half. The services that set the user bit of a leaf take the
address from their caller, from a file or from their own counter; none of them
is compared with `MM_USER_MAX`. A leaf may also be written by a store: two
services store through pointers of ring 3 that nobody has probed.
-/

namespace Ps

open Nt
open Mm (Tree Mapped)

def isUser (e : Mm.Word) : Bool := e &&& Mm.pteUser != 0

/-- The addresses whose tables hang in the upper half of the root table. -/
def InKernelHalf (va : Mm.Word) : Prop := 256 ≤ Mm.pml4Index va

theorem inKernelHalf_iff (va : Mm.Word) : InKernelHalf va ↔ 2 ^ 47 ≤ va.toNat % 2 ^ 48 := by
  simp only [InKernelHalf, Mm.pml4Index, Mm.index_eq]
  omega

/-- No leaf of the kernel half has the user bit. -/
def KernelHalfSafe (vm : Mm.VmState) : Prop :=
  ∀ va e, InKernelHalf va → vm.leafAt (Mm.path va) (Mm.ptIndex va) = some e → isUser e = false

/-- `u` has a leaf at no slot of the kernel half where `s` had none. -/
def NoNewLeaf (s u : Mm.VmState) : Prop :=
  ∀ va, s.leafAt (Mm.path va) (Mm.ptIndex va) = none → u.leafAt (Mm.path va) (Mm.ptIndex va) = none

variable {s u : Mm.VmState} {n va : Nat}

/-- No page of the kernel half among the `n` from `p` on is mapped by a leaf. -/
def PagesClear (vm : Mm.VmState) (n : Nat) (p : Mm.Word) : Prop :=
  ∀ k < n, InKernelHalf (p + BitVec.ofNat 64 (k * 0x1000)) →
    vm.leafAt (Mm.path (p + BitVec.ofNat 64 (k * 0x1000)))
      (Mm.ptIndex (p + BitVec.ofNat 64 (k * 0x1000))) = none

/-- The same of the pages that `MmProtectRange` and `set_range_perms` go through. -/
def RangeClear (vm : Mm.VmState) (start size : Mm.Word) : Prop :=
  PagesClear vm (((Mm.rangeLast start size).toNat - (Mm.rangeFirst start).toNat) / 0x1000)
    (Mm.rangeFirst start)

theorem PagesClear.keep {p : Mm.Word} (clear : PagesClear s n p)
    (same : NoNewLeaf s u) : PagesClear u n p :=
  fun k hk half => same _ (clear k hk half)

theorem PagesClear.head {p : Mm.Word} (clear : PagesClear s (n + 1) p) :
    InKernelHalf p → s.leafAt (Mm.path p) (Mm.ptIndex p) = none := by
  have first := clear 0 (by omega)
  rw [Nat.zero_mul, BitVec.add_zero] at first
  exact first

theorem PagesClear.tail {p : Mm.Word} (clear : PagesClear s (n + 1) p) :
    PagesClear s n (p + 0x1000#64) := by
  intro k hk
  have later := clear (k + 1) (by omega)
  have shift : p + BitVec.ofNat 64 ((k + 1) * 0x1000) =
      p + 0x1000#64 + BitVec.ofNat 64 (k * 0x1000) := by
    rw [Nat.succ_mul, Nat.add_comm, BitVec.ofNat_add, BitVec.add_assoc]
  rw [shift] at later
  exact later

/-- The `n` pages from `va` on lie in the user half. -/
def PagesUser (n va : Nat) : Prop := ∀ i < n, ¬ InKernelHalf (BitVec.ofNat 64 (va + i * pageSize))

theorem PagesUser.head (user : PagesUser (n + 1) va) : ¬ InKernelHalf (BitVec.ofNat 64 va) := by
  have first := user 0 (by omega)
  rw [Nat.zero_mul, Nat.add_zero] at first
  exact first

theorem PagesUser.tail (user : PagesUser (n + 1) va) : PagesUser n (va + pageSize) := by
  intro i hi
  have later := user (i + 1) (by omega)
  have shift : va + (i + 1) * pageSize = va + pageSize + i * pageSize := by
    rw [Nat.succ_mul]
    omega
  rw [shift] at later
  exact later

/-- `NtProtectVirtualMemory`; `probed` says that both pointers pass the probes,
and `base` and `size` are what they point to. -/
def ntProtectVirtualMemory (probed : Bool) (base size : Mm.Word) (protect : Nat) (s : UserSpace) :
    Option (NtStatus × UserSpace) :=
  if !probed then some (statusAccessViolation, s)
  else do
    let vm ← Mm.mmProtectRange s.vm base size (protect &&& 0xCC != 0)
    some (statusSuccess, s.withVm vm)

/-- The `Blink` of a list head in the memory of ring 3. -/
def UserSpace.blink (s : UserSpace) (head : Nat) : Mm.Word :=
  BitVec.ofNat 64 (ByteMemory.load s.ldr.mem (head + 8) 8)

/-- The loader's stub arena. -/
def stubArenaPages (s : UserSpace) : Option UserSpace := do
  let (_, vm) ← mapNewPages User.ldrStubArenaPages User.ldrStubArenaVa s.vm
  some (s.withVm vm)

/-- The calls of ring 3, `NtLoadLibrary` by what it does to the address space,
and what the kernel does of its own accord. -/
inductive HalfOp where
  | allocate (basePtr sizePtr : Mm.Word) (size : Option Nat)
  | protect (probed : Bool) (base size : Mm.Word) (protect : Nat)
  | createThread (writable created : Bool)
  | loadImage (rounds : Nat) (file : Ldr.PeFile)
  | protectImage (base : Nat)
  /-- `InsertTailList` on a list of `PEB.Ldr`: its store through the `Blink` that ring 3 has left
  in the head. -/
  | linkModule (head : Nat) (entry : Mm.Word)
  | stubArena
  | kernelMap (virt phys flags : Mm.Word)
  | writes (mem : ByteMemory.Memory)
  | grant (frames : List Mm.Word)

/-- The pages an operation is about to give to ring 3 are not those of the kernel half, nor do
the pointers it stores through lead to tables. An image without pages still has its headers copied
to its base. -/
def HalfOp.Allowed (s : UserSpace) : HalfOp → Prop
  | .allocate basePtr sizePtr size => ∀ n, size = some n → n ≠ 0 →
      PagesUser (bytesToPages n) s.userAllocNext ∧
        (basePtr ≠ 0 → Mm.WordOff s.vm basePtr) ∧ Mm.WordOff s.vm sizePtr
  | .protect _ base size _ => RangeClear s.vm base size
  | .createThread _ _ => PagesUser (threadStackPages + processTebSize / pageSize) s.threadVa
  | .loadImage rounds file => ∀ base next, Ldr.ChosenBase rounds s.ldr file base next →
      ¬ InKernelHalf (BitVec.ofNat 64 base) ∧ PagesUser (file.imageSize / pageSize) base
  | .protectImage base => ∀ nt, Ldr.ntHeaders s.ldr.mem base = some nt →
      ∀ r ∈ Ldr.permRanges s.ldr.mem base nt, RangeClear s.vm r.start r.size
  | .linkModule head _ => Mm.WordOff s.vm (s.blink head)
  | _ => True

def HalfStart (s : UserSpace) : Prop := Tree s.vm ∧ KernelHalfSafe s.vm

theorem PagesUser.part {i k : Nat} (user : PagesUser n va) (inside : i + k ≤ n) :
    PagesUser k (va + i * pageSize) := by
  intro j hj
  have later := user (i + j) (by omega)
  rw [Nat.add_mul, ← Nat.add_assoc] at later
  exact later

theorem PagesUser.wrap (user : PagesUser n va) : PagesUser n (wrap64 va) := by
  intro i hi
  have here := user i hi
  rw [inKernelHalf_iff, BitVec.toNat_ofNat] at here ⊢
  simp only [wrap64, pageSize] at *
  omega

theorem freshUserSpace_safe : HalfStart freshUserSpace := by
  refine ⟨Ldr.emptySpace_tree, ?_⟩
  intro va e _ leaf
  have empty : ∀ i, Mm.isPresent (Ldr.emptySpace.mem Ldr.emptySpace.pml4 i) = false := by
    intro i
    show Mm.isPresent (TableTree.fill (fun _ _ => 0) 0x1000#64 0 0x1000#64 i) = false
    rw [TableTree.fill_apply, if_pos rfl]
    exact Mm.isPresent_zero
  have none : freshUserSpace.vm.leafAt (Mm.path va) (Mm.ptIndex va) = none := by
    show Ldr.emptySpace.leafAt (Mm.path va) (Mm.ptIndex va) = none
    simp [Mm.VmState.leafAt, Mm.VmState.entryAt, TableTree.entryAt, Mm.path, TableTree.tableAt,
      Mm.child, empty]
  rw [none] at leaf
  exact absurd leaf (by simp)

end Ps
