import Svindows.Ldr.Modules

/-!
# Export tables, forwarders and aliases

What `ldr/pe.c` reads of a mapped image and of a name: the export directory, the
text of a forwarder, and the API-set contracts with the DLLs that stand for them.
-/

namespace Ldr

open Nt ByteMemory Rtl

structure DataDirectory where
  virtualAddress : Nat
  size : Nat
  deriving DecidableEq

/-- `DataDirectory[i]` of the NT headers at `nt`. -/
def dataDirectory (m : Memory) (nt i : Nat) : DataDirectory :=
  ⟨value m (nt + 136 + 8 * i) 4, value m (nt + 140 + 8 * i) 4⟩

def directoryEntryExport : Nat := 0
def directoryEntryImport : Nat := 1
def directoryEntryLoadConfig : Nat := 10
def directoryEntryDelayImport : Nat := 13

/-- What an export is asked for by. -/
inductive ProcKey where
  | name (s : CString)
  | ordinal (n : Nat)
  deriving DecidableEq

/-- The fields of the `IMAGE_EXPORT_DIRECTORY` at `ed`. -/
def ordinalBase (m : Memory) (ed : Nat) : Nat := value m (ed + 16) 4
def numberOfFunctions (m : Memory) (ed : Nat) : Nat := value m (ed + 20) 4
def numberOfNames (m : Memory) (ed : Nat) : Nat := value m (ed + 24) 4

/-- `funcs[i]`, `names[i]` and `ordinals[i]`. -/
def funcRva (m : Memory) (base ed i : Nat) : Nat := value m (base + value m (ed + 28) 4 + 4 * i) 4
def nameRva (m : Memory) (base ed i : Nat) : Nat := value m (base + value m (ed + 32) 4 + 4 * i) 4
def nameOrdinal (m : Memory) (base ed i : Nat) : Nat :=
  value m (base + value m (ed + 36) 4 + 2 * i) 2

/-- `strcmp(a, name) == 0`. -/
def strcmpEq (m : Memory) : Nat → List UInt8 → Bool
  | a, [] => m (wrap64 a) == 0
  | a, c :: cs => m (wrap64 a) == c && strcmpEq m (a + 1) cs

/-- The RVA that the loop of `LdrGetProcAddress` finds. -/
def rvaByName (m : Memory) (base ed : Nat) (name : CString) : Option Nat :=
  ((List.range (numberOfNames m ed)).find? fun i =>
    strcmpEq m (base + nameRva m base ed i) name.bytes).map fun i =>
      funcRva m base ed (nameOrdinal m base ed i)

/-- The RVA that `LdrpProcByOrdinal` reads. -/
def rvaByOrdinal (m : Memory) (base ed ordinal : Nat) : Option Nat :=
  let index := wrap32 (ordinal + (2 ^ 32 - ordinalBase m ed))
  if numberOfFunctions m ed ≤ index then none else some (funcRva m base ed index)

/-- The test of `LdrpExportRvaToAddress`: the RVA lies in the export directory. -/
def isForwarderRva (dir : DataDirectory) (rva : Nat) : Bool :=
  dir.virtualAddress ≤ rva && rva < wrap32 (dir.virtualAddress + dir.size)

/-- The bytes from `a` to the NUL; `none` is out of fuel. -/
def bytesAt (m : Memory) : Nat → Nat → Option (List UInt8)
  | 0, _ => none
  | fuel + 1, a =>
    if m (wrap64 a) = 0 then some [] else (bytesAt m fuel (a + 1)).map (m (wrap64 a) :: ·)

def stringAt (m : Memory) (fuel a : Nat) : Option CString := (bytesAt m fuel a).map .ofBytes

/-- The index of the last dot. -/
def lastDot : List UInt8 → Option Nat
  | [] => none
  | c :: cs =>
    match lastDot cs with
    | some i => some (i + 1)
    | none => if c = 46 then some 0 else none

/-- The digits that a list begins with, as a `UINT32`. -/
def leadingNumber : List UInt8 → Nat → Nat
  | [], n => n
  | c :: cs, n =>
    if 48 ≤ c ∧ c ≤ 57 then leadingNumber cs (wrap32 (n * 10 + (c.toNat - 48))) else n

/-- What a symbol behind the dot asks for. -/
def symbolKey (symbol : CString) : ProcKey :=
  match symbol.bytes with
  | 35 :: digits => .ordinal (leadingNumber digits 0 % 2 ^ 16)
  | _ => .name symbol

/-- The module and the export a forwarder names. -/
def parseForwarder (forwarder : CString) : Option (CString × ProcKey) :=
  match lastDot forwarder.bytes with
  | none => none
  | some dot =>
    if dot = 0 ∨ 58 ≤ dot then none
    else
      some (.ofBytes (forwarder.bytes.take dot ++ (CString.lit ".dll").bytes),
        symbolKey (.ofBytes ((forwarder.bytes.drop (dot + 1)).take 127)))

/-- `strncmp(name, s, strlen(s)) == 0`. -/
def begins (name : CString) (s : String) : Bool := (CString.lit s).bytes.isPrefixOf name.bytes

/-- The loop of `LdrpNameContains`. -/
def containsLoop (needle : List UInt8) : List UInt8 → Bool
  | [] => false
  | c :: cs => needle.isPrefixOf (c :: cs) || containsLoop needle cs

def ldrpNameContains (name : CString) (needle : String) : Bool :=
  containsLoop (CString.lit needle).bytes name.bytes

/-- The DLL that `LdrpLoadModuleWorker` loads in the place of another. -/
def hostOf (name : CString) : Option CString :=
  if begins name "api-ms-win-core-registry-" then some (.lit "advapi32.dll")
  else if begins name "api-ms-win-storage-exports-" then some (.lit "windows.storage.dll")
  else if begins name "api-ms-win-crt-" then some (.lit "ucrtbase.dll")
  else if ciStrcmp name (.lit "kernelbase.dll") = 0 then some (.lit "kernel32.dll")
  else if ldrpNameContains name "gdi-internal-uap" || ldrpNameContains name "gdi-internal-desktop"
  then some (.lit "win32u.dll")
  else if ldrpNameContains name "gdi-" then some (.lit "gdi32.dll")
  else if begins name "api-ms-win-core-" || begins name "ext-ms-win-core-" then
    some (.lit "kernel32.dll")
  else if ciStrcmp name (.lit "version.dll") = 0 then some (.lit "kernel32.dll")
  else none

/-- `LdrpLateApiSetHost`. -/
def ldrpLateApiSetHost (table : ModuleTable) (name : CString) : Nat :=
  if ldrpNameContains name "ntuser" then lookupModule table (.lit "user32.dll") else 0

theorem hostOf_hostOf {name host : CString} (h : hostOf name = some host) :
    hostOf host = none := by
  have hosts : host ∈ [CString.lit "advapi32.dll", .lit "windows.storage.dll", .lit "ucrtbase.dll",
      .lit "kernel32.dll", .lit "win32u.dll", .lit "gdi32.dll"] := by
    simp only [hostOf] at h
    split_ifs at h <;> cases h <;> simp
  have own : ∀ host ∈ [CString.lit "advapi32.dll", .lit "windows.storage.dll",
      .lit "ucrtbase.dll", .lit "kernel32.dll", .lit "win32u.dll", .lit "gdi32.dll"],
      hostOf host = none := by decide +kernel
  exact own host hosts

end Ldr
