import Svindows.Lib.ByteMemory
import Svindows.Mm.Vmm
import Svindows.Nt.Defs

/-!
# Mapping an image

`LdrpMapImage` of `ldr/pe.c`. A file is a buffer of `size` bytes; the reads of
the file and the reads and writes of the mapped image are kept in a trace. There
is no result when a frame for a page table is missing, when the processor
faults in `memset`, and when the search for a base goes on for more than
`rounds` rounds.
-/

namespace Ldr

open Nt ByteMemory

/-- The file's buffer from offset 0 on; behind its end is other kernel memory. -/
structure PeFile where
  bytes : Memory
  size : Nat

def imageDosSignature : Nat := 0x5A4D
def imageNtSignature : Nat := 0x00004550
def imageFileMachineAmd64 : Nat := 0x8664
def imageNtOptionalHdr32Magic : Nat := 0x010B
def imageNtOptionalHdr64Magic : Nat := 0x020B
def imageRelBasedDir64 : Nat := 10

def sizeofDosHeader : Nat := 64
def sizeofNtHeaders64 : Nat := 264

/-- Where the relocation directory's entry lies in the NT headers. -/
def relocEntryOff : Nat := 24 + 112 + 5 * 8

namespace PeFile

variable (f : PeFile)

def eMagic : Nat := load f.bytes 0 2
def eLfanew : Nat := load f.bytes 60 4

/-- The offset of the optional header. -/
def opt : Nat := f.eLfanew + 24

def signature : Nat := load f.bytes f.eLfanew 4
def machine : Nat := load f.bytes (f.eLfanew + 4) 2
def numberOfSections : Nat := load f.bytes (f.eLfanew + 6) 2
def sizeOfOptionalHeader : Nat := load f.bytes (f.eLfanew + 20) 2
def magic : Nat := load f.bytes f.opt 2
def addressOfEntryPoint : Nat := load f.bytes (f.opt + 16) 4
def imageBase : Nat := load f.bytes (f.opt + 24) 8
def sizeOfImage : Nat := load f.bytes (f.opt + 56) 4
def sizeOfHeaders : Nat := load f.bytes (f.opt + 60) 4
def relocVirtualAddress : Nat := load f.bytes (f.eLfanew + relocEntryOff) 4
def relocSize : Nat := load f.bytes (f.eLfanew + relocEntryOff + 4) 4

def imageSize : Nat := pageAlignUp f.sizeOfImage

/-- The offset of section header `i`, and its fields. -/
def section_ (i : Nat) : Nat := f.opt + f.sizeOfOptionalHeader + 40 * i
def virtualAddress (i : Nat) : Nat := load f.bytes (f.section_ i + 12) 4
def sizeOfRawData (i : Nat) : Nat := load f.bytes (f.section_ i + 16) 4
def pointerToRawData (i : Nat) : Nat := load f.bytes (f.section_ i + 20) 4

end PeFile

/-- What the loader reads and changes: the address space, `g_dynamic_image_next`
and memory by virtual address. -/
structure LdrState where
  vm : Mm.VmState
  dynamicImageNext : Nat
  mem : Memory

def isMapped (vm : Mm.VmState) (va : Nat) : Bool :=
  Mm.mmGetPhysicalAddress vm (BitVec.ofNat 64 va) != Mm.invalidPhys

/-- `image_range_free`; sizes are multiples of the page size. -/
def imageRangeFree (vm : Mm.VmState) (base size : Nat) : Bool :=
  (List.range (size / pageSize)).all fun i => !isMapped vm (base + i * pageSize)

/-- A size in granules of 64 KiB. -/
def granules (size : Nat) : Nat := alignUpBy size 0x10000

/-- The search of `choose_image_base` and `LdrpMapResourceImage`. -/
def searchBase (vm : Mm.VmState) (size : Nat) : Nat → Nat → Option Nat
  | 0, _ => none
  | rounds + 1, base =>
    if imageRangeFree vm base size then some base
    else searchBase vm size rounds (wrap64 (base + granules size))

/-- A free base, and the new `g_dynamic_image_next`. -/
def dynamicBase (rounds : Nat) (vm : Mm.VmState) (next size : Nat) : Option (Nat × Nat) := do
  let base ← searchBase vm size rounds (alignUpBy next 0x10000)
  some (base, wrap64 (base + granules size))

def chooseImageBase (rounds : Nat) (vm : Mm.VmState) (next : Nat) (f : PeFile) :
    Option (Nat × Nat) :=
  if imageRangeFree vm f.imageBase f.imageSize then some (f.imageBase, next)
  else if f.relocVirtualAddress = 0 ∨ f.relocSize = 0 then some (0, next)
  else dynamicBase rounds vm next f.imageSize

/-- Map `n` new pages from `va` on. -/
def mapImagePages : Nat → Nat → Mm.VmState → Option (NtStatus × Mm.VmState)
  | 0, _, vm => some (statusSuccess, vm)
  | n + 1, va, vm =>
    match vm.frames with
    | [] => some (statusNoMemory, vm)
    | pa :: frames => do
      let (done, vm) ← Mm.mmMapPage { vm with frames := frames } (BitVec.ofNat 64 va) pa
        (Mm.pteUser ||| Mm.pteWrite)
      if done then mapImagePages n (va + pageSize) vm else some (statusConflictingAddresses, vm)

/-- The upper bits of an address repeat bit 47. -/
def isCanonical (va : Nat) : Bool :=
  wrap64 va < 2 ^ 47 || 2 ^ 64 - 2 ^ 47 ≤ wrap64 va

/-- Every page of a range is canonical and mapped: `memset` over it does not fault. -/
def isAccessible (vm : Mm.VmState) (a n : Nat) : Bool :=
  n == 0 || (List.range ((a % pageSize + n + pageMask) / pageSize)).all fun i =>
    isCanonical ((a / pageSize + i) * pageSize) && isMapped vm ((a / pageSize + i) * pageSize)

/-- Replace the `n` bytes from `a` on, around the end of the address space. -/
def putBytes (m : Memory) (a n : Nat) (contents : Nat → UInt8) : Memory := fun b =>
  if sub64 b a < n then contents (sub64 b a) else m b

theorem putBytes_outside {m : Memory} {p n b : Nat} {contents : Nat → UInt8}
    (fits : p + n ≤ 2 ^ 64) (word : b < 2 ^ 64) (outside : b < p ∨ p + n ≤ b) :
    putBytes m p n contents b = m b := by
  have far : ¬sub64 b p < n := by
    simp only [sub64, wrap64]
    omega
  rw [putBytes, if_neg far]

theorem putBytes_inside {m : Memory} {p n d : Nat} {contents : Nat → UInt8}
    (fits : p + n ≤ 2 ^ 64) (inside : d < n) : putBytes m p n contents (p + d) = contents d := by
  have near : sub64 (p + d) p = d := by
    simp only [sub64, wrap64]
    omega
  rw [putBytes, near, if_pos inside]

/-- An access of the mapper to the file, by offset, or to memory. -/
inductive Access where
  | file (off len : Nat)
  | read (va len : Nat)
  | write (va len : Nat)
  deriving DecidableEq, Repr

def copySection (f : PeFile) (base i : Nat) (m : Memory) : List Access × Memory :=
  let raw := f.sizeOfRawData i
  let from_ := f.pointerToRawData i
  let va := f.virtualAddress i
  if raw = 0 then ([.file (f.section_ i + 16) 4], m)
  else if from_ + raw > f.size then ([.file (f.section_ i + 16) 4, .file (f.section_ i + 20) 4], m)
  else if va + raw > f.imageSize then
    ([.file (f.section_ i + 16) 4, .file (f.section_ i + 20) 4, .file (f.section_ i + 12) 4], m)
  else
    ([.file (f.section_ i + 16) 4, .file (f.section_ i + 20) 4, .file (f.section_ i + 12) 4,
      .file from_ raw, .write (base + va) raw],
      putBytes m (base + va) raw fun d => f.bytes (from_ + d))

/-- The first `n` sections. -/
def copySections (f : PeFile) (base : Nat) : Nat → Memory → List Access × Memory
  | 0, m => ([], m)
  | n + 1, m =>
    let (before, m) := copySections f base n m
    let (here, m) := copySection f base n m
    (before ++ here, m)

def copyHeaders (f : PeFile) (base : Nat) (m : Memory) : List Access × Memory :=
  if f.sizeOfHeaders ≤ f.size then
    ([.file 0 f.sizeOfHeaders, .write base f.sizeOfHeaders],
      putBytes m base f.sizeOfHeaders f.bytes)
  else ([], m)

/-- The accesses that lay out the mapped image, and memory after them. -/
def layOut (f : PeFile) (base : Nat) (m : Memory) : List Access × Memory :=
  let m := putBytes m base f.imageSize fun _ => 0
  let (headers, m) := copyHeaders f base m
  let (sections, m) := copySections f base f.numberOfSections m
  (.write base f.imageSize :: headers ++ sections, m)

/-- The value of `n` bytes, around the end of the address space. -/
def value (m : Memory) (a n : Nat) : Nat := load (fun b => m (wrap64 b)) a n

/-- `*p += delta`. -/
def addAt (m : Memory) (p delta : Nat) : Memory :=
  putBytes m p 8 fun d => UInt8.ofNat (wrap64 (value m p 8 + delta) / 256 ^ d)

/-- Entry `i` of the block at `cursor`. -/
def applyEntry (base delta cursor i : Nat) (m : Memory) : List Access × Memory :=
  let at_ := cursor + 8 + 2 * i
  let entry := value m at_ 2
  if entry / 2 ^ 12 = imageRelBasedDir64 then
    let p := wrap64 (base + value m cursor 4 + entry % 2 ^ 12)
    ([.read at_ 2, .read cursor 4, .read p 8, .write p 8], addAt m p delta)
  else ([.read at_ 2], m)

/-- The first `n` entries. -/
def applyEntries (base delta cursor : Nat) : Nat → Memory → List Access × Memory
  | 0, m => ([], m)
  | n + 1, m =>
    let (before, m) := applyEntries base delta cursor n m
    let (here, m) := applyEntry base delta cursor n m
    (before ++ here, m)

/-- At most `rounds` blocks from `cursor` to `stop`; whether that was all. -/
def applyBlocks (base delta stop : Nat) : Nat → Nat → Memory → Bool × List Access × Memory
  | 0, cursor, m => (!(cursor < stop), [], m)
  | rounds + 1, cursor, m =>
    if cursor < stop then
      let size := value m (cursor + 4) 4
      if size < 8 then (true, [.read (cursor + 4) 4], m)
      else
        let (entries, m) := applyEntries base delta cursor ((size - 8) / 2) m
        -- a relocation may have changed the block's own header
        let (done, rest, m) := applyBlocks base delta stop rounds
          (wrap64 (cursor + value m (cursor + 4) 4)) m
        (done, .read (cursor + 4) 4 :: entries ++ .read (cursor + 4) 4 :: rest, m)
    else (true, [], m)

def applyRelocations (rounds base delta nt : Nat) (m : Memory) : Bool × List Access × Memory :=
  if delta = 0 then (true, [], m)
  else
    let dir := [Access.read (nt + relocEntryOff) 8]
    let size := value m (nt + relocEntryOff + 4) 4
    if size = 0 then (true, dir, m)
    else
      let cursor := wrap64 (base + value m (nt + relocEntryOff) 4)
      let (done, blocks, m) := applyBlocks base delta (wrap64 (cursor + size)) rounds cursor m
      (done, dir ++ blocks, m)

/-- `status` is there once the call has returned, `base` is `*base_out`. -/
structure MapResult where
  status : Option NtStatus
  base : Nat
  state : LdrState
  trace : List Access

/-- Map the pages at `base` and clear them, up to the copies. -/
def mapPages (s : LdrState) (f : PeFile) (base : Nat) : Option (NtStatus × Mm.VmState) := do
  let (status, vm) ← mapImagePages (f.imageSize / pageSize) base s.vm
  if status ≠ statusSuccess then some (status, vm)
  else if isAccessible vm base f.imageSize then some (statusSuccess, vm)
  else none

def resourceReads (f : PeFile) : List Access :=
  [.file 60 4, .file (f.eLfanew + 6) 2, .file (f.eLfanew + 20) 2, .file (f.opt + 56) 4,
    .file (f.opt + 60) 4]

def ldrpMapResourceImage (rounds : Nat) (s : LdrState) (f : PeFile) (seen : List Access) :
    Option MapResult :=
  let seen := seen ++ resourceReads f
  if f.imageSize = 0 ∨ f.imageSize > 0x4000000 then
    some ⟨some statusInvalidImageFormat, 0, s, seen⟩
  else do
    let (base, next) ← dynamicBase rounds s.vm s.dynamicImageNext f.imageSize
    let (status, vm) ← mapPages s f base
    let s := { s with vm := vm, dynamicImageNext := next }
    if status ≠ statusSuccess then some ⟨some status, 0, s, seen⟩
    else
      let (copies, m) := layOut f base s.mem
      some ⟨some statusSuccess, base, { s with mem := m }, seen ++ copies⟩

/-- The headers `LdrpMapImage` reads before it maps anything. -/
def dosReads : List Access := [.file 0 2, .file 60 4]

def kindReads (f : PeFile) : List Access :=
  dosReads ++ [.file f.eLfanew 4, .file f.opt 2, .file (f.opt + 16) 4]

def imageReads (f : PeFile) : List Access :=
  kindReads f ++ [.file (f.eLfanew + 4) 2, .file (f.opt + 56) 4, .file (f.opt + 24) 8,
    .file (f.eLfanew + relocEntryOff) 8]

def layoutReads (f : PeFile) : List Access :=
  [.file (f.opt + 60) 4, .file (f.eLfanew + 20) 2, .file (f.eLfanew + 6) 2]

def ldrpMapImage (rounds : Nat) (s : LdrState) (f : PeFile) : Option MapResult :=
  let invalid := fun seen => some ⟨some statusInvalidImageFormat, 0, s, seen⟩
  if f.size < sizeofDosHeader then invalid []
  else if f.eMagic ≠ imageDosSignature then invalid [.file 0 2]
  else if f.eLfanew + sizeofNtHeaders64 > f.size then invalid dosReads
  else if f.signature ≠ imageNtSignature then invalid (dosReads ++ [.file f.eLfanew 4])
  else if f.magic = imageNtOptionalHdr32Magic ∧ f.addressOfEntryPoint = 0 then
    ldrpMapResourceImage rounds s f (kindReads f)
  else if f.machine ≠ imageFileMachineAmd64 ∨ f.magic ≠ imageNtOptionalHdr64Magic then
    invalid (kindReads f ++ [.file (f.eLfanew + 4) 2])
  else do
    let (base, next) ← chooseImageBase rounds s.vm s.dynamicImageNext f
    let s := { s with dynamicImageNext := next }
    if base = 0 then some ⟨some statusConflictingAddresses, 0, s, imageReads f⟩
    else
      let (status, vm) ← mapPages s f base
      let s := { s with vm := vm }
      if status ≠ statusSuccess then some ⟨some status, 0, s, imageReads f⟩
      else
        let (copies, m) := layOut f base s.mem
        let (done, relocs, m) :=
          applyRelocations rounds base (sub64 base f.imageBase) (base + f.eLfanew) m
        some ⟨if done then some statusSuccess else none, base, { s with mem := m },
          imageReads f ++ layoutReads f ++ copies ++ relocs⟩

/-- One round of `set_range_perms`. -/
def setPagePerms (vm : Mm.VmState) (flags va : Mm.Word) : Option Mm.VmState :=
  let pa := Mm.mmGetPhysicalAddress vm va
  if pa ≠ Mm.invalidPhys then (Mm.mmMapPage vm va pa flags).map (·.2) else some vm

def setPagesPerms (flags : Mm.Word) : Nat → Mm.Word → Mm.VmState → Option Mm.VmState
  | 0, _, vm => some vm
  | n + 1, va, vm => do
    let vm ← setPagePerms vm flags va
    setPagesPerms flags n (va + 0x1000#64) vm

def setRangePerms (vm : Mm.VmState) (start size flags : Mm.Word) : Option Mm.VmState :=
  setPagesPerms flags (((Mm.rangeLast start size).toNat - (Mm.rangeFirst start).toNat) / 0x1000)
    (Mm.rangeFirst start) vm

def imageScnMemWrite : Nat := 0x80000000

/-- The NT headers of a mapped image; without its signatures the caller faults. -/
def ntHeaders (m : Memory) (base : Nat) : Option Nat :=
  let nt := base + value m (base + 60) 4
  if value m base 2 ≠ imageDosSignature then none
  else if value m nt 4 ≠ imageNtSignature then none
  else some nt

/-- A range that `LdrpProtectImage` sets. -/
structure PermRange where
  start : Mm.Word
  size : Mm.Word
  flags : Mm.Word

/-- Section header `i` of the image whose NT headers are at `nt`. -/
def sectionRange (m : Memory) (base nt i : Nat) : PermRange :=
  let sec := nt + 24 + value m (nt + 20) 2 + 40 * i
  ⟨BitVec.ofNat 64 (base + value m (sec + 12) 4), BitVec.ofNat 64 (value m (sec + 8) 4),
    if value m (sec + 36) 4 / imageScnMemWrite % 2 = 1 then Mm.pteUser ||| Mm.pteWrite
    else Mm.pteUser⟩

/-- The whole image, then its sections. -/
def permRanges (m : Memory) (base nt : Nat) : List PermRange :=
  ⟨BitVec.ofNat 64 base, BitVec.ofNat 64 (pageAlignUp (value m (nt + 24 + 56) 4)), Mm.pteUser⟩ ::
    (List.range (value m (nt + 6) 2)).map (sectionRange m base nt)

def setPerms : List PermRange → Mm.VmState → Option Mm.VmState
  | [], vm => some vm
  | r :: rest, vm => do
    let vm ← setRangePerms vm r.start r.size r.flags
    setPerms rest vm

def ldrpProtectImage (s : LdrState) (base : Nat) : Option LdrState := do
  let nt ← ntHeaders s.mem base
  let vm ← setPerms (permRanges s.mem base nt) s.vm
  some { s with vm := vm }

end Ldr
