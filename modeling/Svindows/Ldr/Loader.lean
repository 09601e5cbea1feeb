import Svindows.Ldr.Exports
import Svindows.Lib.Partial
import Svindows.Mm.UserPort

/-!
# The loader

`LdrpLoadModule`, the lookups of exports and the resolution of imports call each
other: a forwarder loads its target, a load resolves imports, and an import is
looked up in a module that may forward it. Each function is written over the
functions it calls, and `calls` ties them together with fuel. A call does not
return when it is out of fuel, when a header is missing that the source reads all
the same, and where `LdrpMapImage` does not return.

`volume` is what `FatLoadFile` reads; names are passed by value.
-/

namespace Ldr

open Nt ByteMemory Rtl Partial

/-- `g_stub_arena`, `g_stub_next` and `g_stub_end`. -/
structure StubArena where
  arena : Nat
  next : Nat
  stop : Nat
  deriving DecidableEq

structure LinkState where
  table : ModuleTable
  /-- `g_ldr_depth`. -/
  depth : Nat
  stubs : StubArena
  image : LdrState

abbrev LdrM (A : Type) := Comp LinkState A

def getMemory : LdrM Memory := do
  let s ← get
  pure s.image.mem

def setImage (image : LdrState) : LdrM Unit := modify fun s => { s with image := image }

def modifyTable (f : ModuleTable → ModuleTable) : LdrM Unit :=
  modify fun s => { s with table := f s.table }

/-- `n` bytes of a number at `p`, around the end of the address space. -/
def putAt (m : Memory) (p n v : Nat) : Memory := putBytes m p n fun d => UInt8.ofNat (v / 256 ^ d)

def writeAt (p n v : Nat) : LdrM Unit := do
  let s ← get
  setImage { s.image with mem := putAt s.image.mem p n v }

/-- An `if` without an `else`. -/
def when_ (p : Prop) [Decidable p] (x : LdrM Unit) : LdrM Unit := if p then x else pure ()

def probeForWrite (va n : Nat) : LdrM Bool := do
  let s ← get
  pure (Mm.mmProbeForWrite (isMapped s.image.vm) va n)

def stubArenaVa : Nat := 0x69000
def stubArenaPages : Nat := 32
def stubSlotSize : Nat := 16
def cfgTraceVa : Nat := stubArenaVa + stubArenaPages * pageSize - 8

/-- Map `n` pages from `va` on; whether there were frames. What `MmMapPage` returns is not used. -/
def mapArenaPages : Nat → Nat → Mm.VmState → Option (Bool × Mm.VmState)
  | 0, _, vm => some (true, vm)
  | n + 1, va, vm =>
    match vm.frames with
    | [] => some (false, vm)
    | pa :: frames => do
      let (_, vm) ← Mm.mmMapPage { vm with frames := frames } (BitVec.ofNat 64 va) pa
        (Mm.pteUser ||| Mm.pteWrite)
      mapArenaPages n (va + pageSize) vm

/-- The arena as it is set up: `ret`, and `mov [trace], rax; jmp rax`. -/
def arenaMemory (m : Memory) : Memory :=
  let m := putBytes m stubArenaVa (stubArenaPages * pageSize) fun _ => 0
  let m := putAt m stubArenaVa 1 0xC3
  let m := putAt m (stubArenaVa + stubSlotSize) 2 0xA348
  let m := putAt m (stubArenaVa + stubSlotSize + 2) 8 cfgTraceVa
  putAt m (stubArenaVa + stubSlotSize + 10) 2 0xE0FF

def ldrpEnsureStubArena : LdrM Bool := do
  let s ← get
  if s.stubs.arena ≠ 0 then pure true
  else do
    let (done, vm) ← lift (mapArenaPages stubArenaPages stubArenaVa s.image.vm)
    setImage { s.image with vm := vm }
    if done = false then pure false
    else do
      modify fun s => { s with
        stubs := ⟨stubArenaVa, stubArenaVa + 2 * stubSlotSize, cfgTraceVa⟩
        image := { s.image with mem := arenaMemory s.image.mem } }
      pure true

/-- `LdrpImportStub`: `xor eax, eax; ret` in a slot of its own, while there are any. -/
def ldrpImportStub : LdrM Nat := do
  if (← ldrpEnsureStubArena) = false then pure 0
  else do
    let s ← get
    if s.stubs.stop < wrap64 (s.stubs.next + stubSlotSize) then pure s.stubs.arena
    else do
      modify fun s => { s with stubs := { s.stubs with next := s.stubs.next + stubSlotSize } }
      writeAt s.stubs.next 3 0xC3C031
      pure s.stubs.next

/-- The functions that call each other, and how often a loop may turn. -/
structure Calls where
  turns : Nat
  ldrpLoadModule : CString → LdrM Nat
  ldrGetProcAddress : Nat → CString → LdrM Nat
  ldrpProcByOrdinal : Nat → Nat → LdrM Nat

def Calls.proc (c : Calls) (base : Nat) : ProcKey → LdrM Nat
  | .name s => c.ldrGetProcAddress base s
  | .ordinal n => c.ldrpProcByOrdinal base n

variable (c : Calls)

def readString (a : Nat) : LdrM CString := do
  let m ← getMemory
  lift (stringAt m c.turns a)

/-- Look up in the module that a forwarder names. -/
def followTarget : Option (CString × ProcKey) → LdrM Nat
  | none => pure 0
  | some (module_, key) => do
    let target ← c.ldrpLoadModule module_
    if target = 0 then pure 0 else c.proc target key

def ldrpResolveForwarder (a : Nat) : LdrM Nat := do
  let text ← readString c a
  followTarget c (parseForwarder text)

def ldrpExportRvaToAddress (base rva : Nat) (dir : DataDirectory) : LdrM Nat :=
  if isForwarderRva dir rva then ldrpResolveForwarder c (base + rva)
  else pure (wrap64 (base + rva))

def ldrGetProcAddress (base : Nat) (name : CString) : LdrM Nat := do
  let m ← getMemory
  match ntHeaders m base with
  | none => pure 0
  | some nt =>
    let dir := dataDirectory m nt directoryEntryExport
    if dir.size = 0 then pure 0
    else
      match rvaByName m base (base + dir.virtualAddress) name with
      | none => pure 0
      | some rva => ldrpExportRvaToAddress c base rva dir

def ldrpProcByOrdinal (base ordinal : Nat) : LdrM Nat := do
  let m ← getMemory
  let nt ← lift (ntHeaders m base)
  let dir := dataDirectory m nt directoryEntryExport
  if dir.size = 0 then pure 0
  else
    match rvaByOrdinal m base (base + dir.virtualAddress) ordinal with
    | none => pure 0
    | some rva => ldrpExportRvaToAddress c base rva dir

/-- The module a descriptor names; a late host is no dependency. -/
def loadDependency (base : Nat) (dll : CString) : LdrM Nat := do
  let s ← get
  if ldrpLateApiSetHost s.table dll ≠ 0 then pure (ldrpLateApiSetHost s.table dll)
  else do
    let dllBase ← c.ldrpLoadModule dll
    modifyTable fun table => rememberDependency table base dllBase
    pure dllBase

/-- Look up in a module if it is there. -/
def procIfLoaded (base : Nat) (key : ProcKey) : LdrM Nat :=
  if base = 0 then pure 0 else c.proc base key

/-- The lookup of a name that both loops make; `CoCreateInstance` is taken from combase. -/
def importFrom (dll : CString) (dllBase : Nat) (name : CString) : LdrM Nat := do
  let addr ← procIfLoaded c dllBase (.name name)
  let s ← get
  let combase := lookupModule s.table (.lit "combase.dll")
  if begins dll "api-ms-win-core-com-" = true ∧ name = .lit "CoCreateInstance" ∧ combase ≠ 0 then
    c.ldrGetProcAddress combase name
  else pure addr

/-- The lookup of an import by name, with msvcrt behind ntdll. -/
def importByName (dll : CString) (dllBase : Nat) (name : CString) : LdrM Nat := do
  let addr ← importFrom c dll dllBase name
  if addr = 0 ∧ ciStrcmp dll (.lit "ntdll.dll") = 0 then do
    let s ← get
    procIfLoaded c (lookupModule s.table (.lit "msvcrt.dll")) (.name name)
  else pure addr

/-- The address for a thunk: an ordinal, or a name behind a hint. -/
def thunkAddress (dllBase : Nat) (hint : Nat → Nat) (byName : CString → LdrM Nat) (thunk : Nat) :
    LdrM Nat :=
  if 2 ^ 63 ≤ thunk then procIfLoaded c dllBase (.ordinal (thunk % 2 ^ 16))
  else do
    let name ← readString c (hint thunk + 2)
    byName name

def addressOrStub (addr : Nat) : LdrM Nat := if addr = 0 then ldrpImportStub else pure addr

/-- The loop over the thunks of a descriptor. -/
def resolveThunks (dllBase names iat : Nat) (hint : Nat → Nat) (byName : CString → LdrM Nat) :
    LdrM Unit :=
  loop (fun i => do
    let m ← getMemory
    if value m (names + 8 * i) 8 = 0 then pure (.inl ())
    else do
      let found ← thunkAddress c dllBase hint byName (value m (names + 8 * i) 8)
      let addr ← addressOrStub found
      writeAt (iat + 8 * i) 8 addr
      pure (.inr (wrap32 (i + 1)))) c.turns 0

/-- The import descriptor at `desc`. -/
def resolveImport (base desc : Nat) : LdrM Unit := do
  let m ← getMemory
  let dll ← readString c (base + value m (desc + 12) 4)
  let dllBase ← loadDependency c base dll
  let m ← getMemory
  let first := value m (desc + 16) 4
  let names := if value m desc 4 ≠ 0 then value m desc 4 else first
  resolveThunks c dllBase (base + names) (base + first) (fun thunk => base + thunk % 2 ^ 31)
    (importByName c dll dllBase)

def ldrResolveImports (base : Nat) : LdrM NtStatus := do
  let m ← getMemory
  let nt ← lift (ntHeaders m base)
  let dir := dataDirectory m nt directoryEntryImport
  if dir.size = 0 then pure statusSuccess
  else
    loop (fun desc => do
      let m ← getMemory
      if value m (desc + 12) 4 = 0 then pure (.inl statusSuccess)
      else do
        resolveImport c base desc
        pure (.inr (desc + 20))) c.turns (base + dir.virtualAddress)

/-- The delay-import descriptor at `desc`, with RVAs. -/
def resolveDelayImport (base desc : Nat) : LdrM Unit := do
  let m ← getMemory
  let dll ← readString c (base + value m (desc + 4) 4)
  let dllBase ← loadDependency c base dll
  let m ← getMemory
  when_ (value m (desc + 8) 4 ≠ 0) (writeAt (base + value m (desc + 8) 4) 8 dllBase)
  resolveThunks c dllBase (base + value m (desc + 16) 4) (base + value m (desc + 12) 4)
    (fun thunk => base + thunk % 2 ^ 32) (importFrom c dll dllBase)

def ldrResolveDelayImports (base : Nat) : LdrM NtStatus := do
  let m ← getMemory
  let nt ← lift (ntHeaders m base)
  let dir := dataDirectory m nt directoryEntryDelayImport
  if dir.size = 0 then pure statusSuccess
  else
    loop (fun d => do
      let m ← getMemory
      let desc := base + dir.virtualAddress + 32 * d
      if dir.size / 32 ≤ d ∨ value m (desc + 4) 4 = 0 then pure (.inl statusSuccess)
      else if value m desc 4 % 2 = 0 then pure (.inl statusInvalidImageFormat)
      else do
        resolveDelayImport c base desc
        pure (.inr (d + 1))) c.turns 0

/-- One of the two pointers of `LdrpInitializeGuardPointers`. -/
def setGuardPointer (slot target : Nat) : LdrM Unit := do
  let writable ← probeForWrite slot 8
  when_ (slot ≠ 0 ∧ writable = true) (writeAt slot 8 target)

def ldrpInitializeGuardPointers (base : Nat) : LdrM Unit := do
  let m ← getMemory
  let nt ← lift (ntHeaders m base)
  let dir := dataDirectory m nt directoryEntryLoadConfig
  let config := base + dir.virtualAddress
  if dir.virtualAddress = 0 ∨ dir.size < 0x80 ∨ value m config 4 < 0x80 then pure ()
  else if (← ldrpEnsureStubArena) = false then pure ()
  else do
    let m ← getMemory
    setGuardPointer (value m (config + 0x70) 8) stubArenaVa
    setGuardPointer (value m (config + 0x78) 8) (stubArenaVa + stubSlotSize)

def protectImage (base : Nat) : LdrM Unit := do
  let s ← get
  let image ← lift (ldrpProtectImage s.image base)
  setImage image

/-- The patches for user32 and gdi32. -/
def patchImage (name : CString) (base : Nat) : LdrM Unit :=
  if ciStrcmp name (.lit "user32.dll") = 0 then writeAt (base + 0xBD130) 4 0x7FFF
  else if ciStrcmp name (.lit "gdi32.dll") = 0 then do
    let proc ← c.ldrGetProcAddress base (.lit "GdiValidateHandle")
    when_ (proc ≠ 0) (writeAt proc 6 0xC300000001B8)
    let limit ← c.ldrGetProcAddress base (.lit "GdiBatchLimit")
    let writable ← probeForWrite limit 4
    when_ (limit ≠ 0 ∧ writable = true) (writeAt limit 4 1)
  else pure ()

/-- What a mapped module goes through. -/
def linkImage (base : Nat) : LdrM NtStatus := do
  let status ← ldrResolveImports c base
  if ntSuccess status = false then pure status
  else do
    let status ← ldrResolveDelayImports c base
    if ntSuccess status = false then pure status
    else do
      ldrpInitializeGuardPointers base
      protectImage base
      pure statusSuccess

variable (volume : CString → Option PeFile) (rounds : Nat)

/-- Map a file: the status, and the base. -/
def mapFile (file : PeFile) : LdrM (NtStatus × Nat) := do
  let s ← get
  let r ← lift (ldrpMapImage rounds s.image file)
  let status ← lift r.status
  setImage r.state
  pure (status, r.base)

/-- Link a mapped module, which is in the table before its imports are resolved. -/
def finishLoad (name : CString) (base : Nat) : LdrM Nat := do
  modifyTable fun table => rememberModule table name base
  patchImage c name base
  let status ← linkImage c base
  if ntSuccess status = false then pure 0 else pure base

/-- The load of a module that is not in the table. -/
def loadFile (name : CString) : LdrM Nat :=
  match volume name with
  | none => pure 0
  | some file => do
    let (status, base) ← mapFile rounds file
    if ntSuccess status = false then pure 0 else finishLoad c name base

def ldrpLoadModuleWorker (name : CString) : LdrM Nat :=
  match hostOf name with
  | some host => c.ldrpLoadModule host
  | none => do
    let s ← get
    if lookupModule s.table name ≠ 0 then pure (lookupModule s.table name)
    else loadFile c volume rounds name

def maxDependencyDepth : Nat := 96

def ldrpLoadModule (name : CString) : LdrM Nat := do
  let s ← get
  if maxDependencyDepth ≤ s.depth then pure 0
  else do
    modify fun s => { s with depth := s.depth + 1 }
    let result ← ldrpLoadModuleWorker c volume rounds name
    modify fun s => { s with depth := s.depth - 1 }
    pure result

def calls : Nat → Calls
  | 0 => ⟨0, fun _ => failure, fun _ _ => failure, fun _ _ => failure⟩
  | fuel + 1 =>
    { turns := fuel + 1
      ldrpLoadModule := ldrpLoadModule (calls fuel) volume rounds
      ldrGetProcAddress := ldrGetProcAddress (calls fuel)
      ldrpProcByOrdinal := ldrpProcByOrdinal (calls fuel) }

/-- `LdrLoadLibrary`, without the lists of the PEB. -/
def ldrLoadLibrary (fuel : Nat) (name : CString) : LdrM Nat :=
  (calls volume rounds fuel).ldrpLoadModule name

end Ldr
