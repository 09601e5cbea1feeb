import Svindows.Cm.Pointers
import Svindows.Io.File
import Svindows.Ps.KernelHalf
import Svindows.User.Classes

/-!
# What the services do with the caller's pointers

Ten services that take pointers, each up to the last byte it touches. The memory
and registry services of `ke/syscall.c` and `cm/registry.c` differ in what they
probe: `NtAllocateVirtualMemory`, `NtDelayExecution`, `NtLoadLibrary` and
`NtUserUnregisterClass` follow a pointer they never probed.
-/

namespace Ke

open Nt Mm ByteMemory

/-- The caller's memory after the page tables have changed; `fresh` is what new
frames hold. -/
def remapped (vm vm' : VmState) (fresh : Memory) (u : UserPort) : UserPort where
  present := Ldr.isMapped vm'
  bytes b :=
    if mmGetPhysicalAddress vm' (BitVec.ofNat 64 b) = mmGetPhysicalAddress vm (BitVec.ofNat 64 b)
    then u.bytes b
    else fresh b
  log := u.log

/-- No result means that the kernel stops for want of a page table. -/
def ntAllocateVirtualMemory (s : Ps.UserSpace) (fresh : Memory) (u : UserPort)
    (a : Nat → UInt64) : Option (NtStatus × Ps.UserSpace) × UserPort :=
  let basePtr := (a 1).toNat
  let sizePtr := (a 3).toNat
  if sizePtr = 0 then (some (statusInvalidParameter, s), u)
  else
    let u := u.read sizePtr 8
    let size := load u.bytes sizePtr 8
    if size = 0 then (some (statusInvalidParameter, s), u)
    else
      let u := u.read sizePtr 8
      match Ps.ntAllocateVirtualMemory (some size) s with
      | none => (none, u)
      | some (status, base, out, s') =>
        let u := remapped s.vm s'.vm fresh u
        if status ≠ statusSuccess then (some (status, s'), u)
        else
          let u := if basePtr = 0 then u else u.write basePtr 8 base
          (some (status, s'), u.write sizePtr 8 out)

/-- The status and, where it waits, the tick it waits for. -/
def ntDelayExecution (now : Nat) (u : UserPort) (a : Nat → UInt64) :
    NtStatus × Option Nat × UserPort :=
  let interval := (a 1).toNat
  if interval = 0 then (statusSuccess, none, u)
  else
    let u := u.read interval 8
    let iv := load u.bytes interval 8
    -- Only a negative interval is relative.
    let ticks100ns := if 2 ^ 63 ≤ iv then 2 ^ 64 - iv else 0
    let wait := ticks100ns / 100000
    (statusSuccess, some (wrap64 (now + if wait = 0 then 1 else wait)), u)

/-- The previous protection is always reported as `PAGE_READWRITE`. -/
def reportOldProtect (u : UserPort) (oldPtr : Nat) : UserPort :=
  if oldPtr ≠ 0 ∧ u.accepts oldPtr 4 = true then (u.probed oldPtr 4).write oldPtr 4 4 else u

def ntProtectVirtualMemory (s : Ps.UserSpace) (u : UserPort) (a : Nat → UInt64) :
    Option (NtStatus × Ps.UserSpace) × UserPort :=
  let basePtr := (a 1).toNat
  let sizePtr := (a 2).toNat
  if u.accepts basePtr 8 = false then (some (statusAccessViolation, s), u)
  else
    let u := u.probed basePtr 8
    if u.accepts sizePtr 8 = false then (some (statusAccessViolation, s), u)
    else
      let u := ((u.probed sizePtr 8).read basePtr 8).read sizePtr 8
      match Ps.ntProtectVirtualMemory true (BitVec.ofNat 64 (load u.bytes basePtr 8))
          (BitVec.ofNat 64 (load u.bytes sizePtr 8)) (a 3).toUInt32.toNat s with
      | none => (none, u)
      | some (status, s') =>
        (some (status, s'), reportOldProtect { u with present := Ldr.isMapped s'.vm } (a 4).toNat)

/-- The length of the string at `va`, which ends within the next `n` bytes or not at all. -/
def stringLength (m : Memory) : Nat → Nat → Nat
  | 0, _ => 0
  | n + 1, va => if m va = 0 then 0 else stringLength m n (va + 1) + 1

/-- `library` gives the base of the module that `LdrLoadLibrary` finds or loads under
a name. Its comparisons and the log line read the name up to its end. -/
def ntLoadLibrary (library : List UInt8 → Nat) (u : UserPort) (a : Nat → UInt64) :
    Nat × UserPort :=
  let name := (a 0).toNat
  if name = 0 then (0, u)
  else
    let n := stringLength u.bytes (2 ^ 64 - name) name
    (library ((List.range n).map fun i => u.bytes (name + i)), u.read name (n + 1))

/-- What the services work on. The page tables of a running system form a tree. -/
structure ServiceState where
  space : Ps.UserSpace
  tree : Tree space.vm
  ob : Ob.ObState
  registry : Cm.Registry
  keyType : Ob.TypeRef
  keyOf : Ob.ObjectRef → Nat
  fileType : Ob.TypeRef
  files : Ob.ObjectRef → Io.FileObject
  classes : User.ClassTable

/-- The caller's memory at the start of a call, with nothing touched. -/
def ServiceState.port (s : ServiceState) : UserPort := ⟨Ldr.isMapped s.space.vm, s.space.ldr.mem, []⟩

def ServiceState.cm (s : ServiceState) : Cm.CmWorld :=
  ⟨s.registry, s.ob, s.keyType, s.keyOf, s.port⟩

def ServiceState.io (s : ServiceState) : Io.FileWorld := ⟨s.ob, s.fileType, s.files, s.port⟩

/-- A call, with its argument array and what it gets from elsewhere. -/
inductive PointerCall where
  | allocateVirtualMemory (fresh : Memory) (a : Nat → UInt64)
  | delayExecution (now : Nat) (a : Nat → UInt64)
  | protectVirtualMemory (a : Nat → UInt64)
  | loadLibrary (library : List UInt8 → Nat) (a : Nat → UInt64)
  | registerClassExWOW (a : Nat → UInt64)
  | unregisterClass (stack : User.WideString) (a : Nat → UInt64)
  | readFile (a : Nat → UInt64)
  | createKey (room : Cm.CallRoom) (a : Nat → UInt64)
  | setValueKey (room : Cm.CallRoom) (a : Nat → UInt64)
  | queryValueKey (a : Nat → UInt64)

/-- The caller's memory after the call. -/
def ServiceState.after (s : ServiceState) : PointerCall → UserPort
  | .allocateVirtualMemory fresh a => (ntAllocateVirtualMemory s.space fresh s.port a).2
  | .delayExecution now a => (ntDelayExecution now s.port a).2.2
  | .protectVirtualMemory a => (ntProtectVirtualMemory s.space s.port a).2
  | .loadLibrary library a => (ntLoadLibrary library s.port a).2
  | .registerClassExWOW a => (User.ntUserRegisterClassExWOW s.classes s.port a).2.2
  | .unregisterClass stack a => (User.ntUserUnregisterClass s.classes s.port a stack).2.2
  | .readFile a => (Io.ntReadFile s.io a).2.user
  | .createKey room a => (Cm.ntCreateKey s.cm a room).2.user
  | .setValueKey room a => (Cm.ntSetValueKey s.cm a room).2.user
  | .queryValueKey a => (Cm.ntQueryValueKey s.cm a).2.user

/-- When a call probes everything it touches. -/
def ProbesPointers (s : ServiceState) : PointerCall → Prop
  | .allocateVirtualMemory _ a => a 3 = 0
  | .delayExecution _ a => a 1 = 0
  | .loadLibrary _ a => a 0 = 0
  | .unregisterClass _ _ => False
  | .registerClassExWOW a => ¬ User.FieldsUnprobed s.classes s.port a
  | .queryValueKey a => ¬ Cm.QueryWraps s.cm a
  | .protectVirtualMemory _ | .readFile _ | .createKey _ _ | .setValueKey _ _ => True

theorem toNat_eq_zero {x : UInt64} : x.toNat = 0 ↔ x = 0 := by
  rw [← UInt64.toNat_inj]
  rfl

/-- The first read through a pointer that was not probed. -/
theorem not_disciplined_of_read {u v : UserPort} (va len : Nat) (start : u.log = [])
    (some : 0 < len) (longer : (u.read va len).log <:+ v.log) : ¬ Disciplined v.log := by
  intro disciplined
  have first := (disciplined.of_suffix longer).1 va le_rfl (by omega)
  rw [start] at first
  exact not_covered_nil va first

theorem ntAllocateVirtualMemory_undisciplined (s : Ps.UserSpace) (fresh : Memory) {u : UserPort}
    {a : Nat → UInt64} (start : u.log = []) (given : a 3 ≠ 0) :
    ¬ Disciplined (ntAllocateVirtualMemory s fresh u a).2.log := by
  refine not_disciplined_of_read (a 3).toNat 8 start (by decide) ?_
  simp only [ntAllocateVirtualMemory, if_neg (mt toNat_eq_zero.mp given)]
  split
  · exact List.suffix_refl _
  split
  · exact List.suffix_cons ..
  split
  · exact List.suffix_cons ..
  · split
    · exact (List.suffix_cons ..).trans (List.suffix_cons ..)
    · exact ((List.suffix_cons ..).trans (List.suffix_cons ..)).trans (List.suffix_cons ..)

theorem ntProtectVirtualMemory_careful {s : Ps.UserSpace} (tree : Tree s.vm) {u : UserPort}
    (present : u.present = Ldr.isMapped s.vm) (a : Nat → UInt64) :
    Careful u (ntProtectVirtualMemory s u a).2 := by
  simp only [ntProtectVirtualMemory]
  split
  · exact .refl u
  rename_i base
  have first : Careful u (u.probed (a 1).toNat 8) :=
    .probed (a 1).toNat_lt (by decide) (not_accepts base)
  split
  · exact first
  rename_i size
  have second := first.trans (.probed (a 2).toNat_lt (by decide) (not_accepts size))
  have readBase : Careful ((u.probed (a 1).toNat 8).probed (a 2).toNat 8)
      (((u.probed (a 1).toNat 8).probed (a 2).toNat 8).read (a 1).toNat 8) :=
    .read (List.mem_cons_of_mem _ List.mem_cons_self) le_rfl le_rfl
  have readSize : Careful (((u.probed (a 1).toNat 8).probed (a 2).toNat 8).read (a 1).toNat 8)
      ((((u.probed (a 1).toNat 8).probed (a 2).toNat 8).read (a 1).toNat 8).read (a 2).toNat 8) :=
    .read (List.mem_cons_of_mem _ List.mem_cons_self) le_rfl le_rfl
  have both := (second.trans readBase).trans readSize
  generalize (((u.probed (a 1).toNat 8).probed (a 2).toNat 8).read (a 1).toNat 8).read (a 2).toNat 8
    = v at both ⊢
  split
  · exact both
  rename_i status s' changed
  -- Changing the protection keeps every translation, so the same pages are present.
  have same : { v with present := Ldr.isMapped s'.vm } = v := by
    obtain ⟨vm, returns, -, kept⟩ := mmProtectRange_keeps tree
      (BitVec.ofNat 64 (load v.bytes (a 1).toNat 8)) (BitVec.ofNat 64 (load v.bytes (a 2).toNat 8))
      ((a 3).toUInt32.toNat &&& 0xCC != 0)
    simp only [Ps.ntProtectVirtualMemory, Bool.not_true, Bool.false_eq_true, if_false, returns,
      Option.bind_eq_bind, Option.bind_some, Option.some.injEq, Prod.mk.injEq] at changed
    have mapped : Ldr.isMapped s'.vm = Ldr.isMapped s.vm := by
      rw [← changed.2]
      funext b
      simp only [Ldr.isMapped, Ps.UserSpace.withVm, Ps.UserSpace.vm, kept]
    rw [mapped, ← present, ← both.present]
  rw [same, reportOldProtect]
  split
  · rename_i writable
    exact both.trans (.probed_write 4 (a 4).toNat_lt (by decide) writable.2)
  · exact both

theorem after_careful {s : ServiceState} {call : PointerCall} (probes : ProbesPointers s call) :
    Careful s.port (s.after call) := by
  cases call with
  | allocateVirtualMemory fresh a =>
    simp only [ServiceState.after, ntAllocateVirtualMemory, if_pos (toNat_eq_zero.mpr probes)]
    exact .refl _
  | delayExecution now a =>
    simp only [ServiceState.after, ntDelayExecution, if_pos (toNat_eq_zero.mpr probes)]
    exact .refl _
  | protectVirtualMemory a => exact ntProtectVirtualMemory_careful s.tree rfl a
  | loadLibrary library a =>
    simp only [ServiceState.after, ntLoadLibrary, if_pos (toNat_eq_zero.mpr probes)]
    exact .refl _
  | registerClassExWOW a => exact User.ntUserRegisterClassExWOW_careful probes
  | unregisterClass stack a => exact absurd probes id
  | readFile a => exact Io.ntReadFile_careful s.io a
  | createKey room a => exact Cm.ntCreateKey_careful s.cm a room
  | setValueKey room a => exact Cm.ntSetValueKey_careful s.cm a room
  | queryValueKey a => exact Cm.ntQueryValueKey_careful probes

theorem after_undisciplined {s : ServiceState} {call : PointerCall}
    (trusts : ¬ ProbesPointers s call) : ¬ Disciplined (s.after call).log := by
  cases call with
  | allocateVirtualMemory fresh a => exact ntAllocateVirtualMemory_undisciplined _ _ rfl trusts
  | delayExecution now a =>
    refine not_disciplined_of_read (a 1).toNat 8 (u := s.port) rfl (by decide) ?_
    simp only [ServiceState.after, ntDelayExecution, if_neg (mt toNat_eq_zero.mp trusts)]
    exact List.suffix_refl _
  | loadLibrary library a =>
    refine not_disciplined_of_read (a 0).toNat (stringLength s.port.bytes (2 ^ 64 - (a 0).toNat)
      (a 0).toNat + 1) (u := s.port) rfl (Nat.succ_pos _) ?_
    simp only [ServiceState.after, ntLoadLibrary, if_neg (mt toNat_eq_zero.mp trusts)]
    exact List.suffix_refl _
  | registerClassExWOW a =>
    exact User.ntUserRegisterClassExWOW_undisciplined rfl (not_not.mp trusts)
  | unregisterClass stack a => exact User.ntUserUnregisterClass_undisciplined a stack rfl
  | queryValueKey a => exact Cm.ntQueryValueKey_undisciplined rfl (not_not.mp trusts)
  | protectVirtualMemory a => exact absurd trivial trusts
  | readFile a => exact absurd trivial trusts
  | createKey room a => exact absurd trivial trusts
  | setValueKey room a => exact absurd trivial trusts

/-- The calls that touch only what they probed, and what that is worth: user bytes
on pages that are mapped. -/
theorem services_probe_pointers (s : ServiceState) (call : PointerCall) :
    (Disciplined (s.after call).log ↔ ProbesPointers s call) ∧
      (ProbesPointers s call → ∀ b, Touched (s.after call).log b →
        b < mmUserMax ∧ Ldr.isMapped s.space.vm (b / 4096 * 4096) = true) := by
  refine ⟨⟨?_, ?_⟩, ?_⟩
  · intro disciplined
    by_contra trusts
    exact after_undisciplined trusts disciplined
  · intro probes
    exact ((after_careful probes).from_start rfl).1
  · intro probes
    exact ((after_careful probes).from_start rfl).2

/-- No page mapped, no object, no key, no class. -/
def bareState : ServiceState where
  space := Ps.freshUserSpace
  tree := Ps.freshUserSpace_safe.1
  ob := ⟨fun _ => Ob.newHeader 0, fun _ => false, fun _ => ⟨0, 0⟩, fun _ => .empty, 0, 0, false, []⟩
  registry := Cm.emptyRegistry
  keyType := 1
  keyOf _ := 0
  fileType := 2
  files _ := ⟨.console, [], 0⟩
  classes := ⟨fun _ => User.unusedClass, []⟩

/-- A size pointer into the kernel image. -/
def kernelSizeArgs : Nat → UInt64 := fun i => if i = 3 then 0xFFFFFFFF80100000 else 0

theorem size_read_through_kernel_pointer :
    ¬ Disciplined (bareState.after (.allocateVirtualMemory (fun _ => 0) kernelSizeArgs)).log ∧
      Touched (bareState.after (.allocateVirtualMemory (fun _ => 0) kernelSizeArgs)).log
        0xFFFFFFFF80100000 ∧ mmUserMax ≤ 0xFFFFFFFF80100000 := by
  refine ⟨?_, ⟨0xFFFFFFFF80100000, 8, .inl ?_, by decide, by decide⟩, by decide⟩
  · exact ntAllocateVirtualMemory_undisciplined _ _ rfl (by decide)
  · have log : (bareState.after (.allocateVirtualMemory (fun _ => 0) kernelSizeArgs)).log =
        [.read 0xFFFFFFFF80100000 8] := by decide
    rw [log]
    exact List.mem_cons_self

end Ke
