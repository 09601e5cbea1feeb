import Svindows.Lib.ByteMemory
import Svindows.Lib.Loop
import Svindows.Nt.Defs
import Svindows.Rtl.CString

/-!
# The FAT32 driver

`io/fat.c` over the disk, the reads that fail, the pool blocks that are granted and
what such a block holds. Reads and allocations are counted, so that each may fail
or not. The `while` loops are loops that may not end: a directory is followed
along the FAT until an end mark, and nothing bounds the way there.
-/

namespace Io

open Nt ByteMemory Rtl

def statusDeviceNotReady : NtStatus := 0xC00000A3
def statusNotSupported : NtStatus := 0xC00000BB

def ataSectorSize : Nat := 512
def attrLongName : UInt8 := 0x0F
def fatEoc : Nat := 0x0FFFFFF8

/-- What the driver runs on. -/
structure Host where
  /-- The bytes of the disk. -/
  byte : Memory
  /-- Whether the `n`-th read, at that sector, fails. -/
  fails : Nat → Nat → Bool
  /-- Whether the `n`-th pool allocation is granted. -/
  grants : Nat → Bool
  /-- What the block of the `n`-th allocation holds at first. -/
  garbage : Nat → Memory

/-- How many reads and allocations there have been, and the blocks not freed. -/
structure IoState where
  reads : Nat
  allocs : Nat
  live : List Nat
  deriving DecidableEq

/-- `AtaReadSectors`, as the `t`-th read; 28 bits of the address reach the drive. -/
def ataReadSectors (h : Host) (t lba count : Nat) : Option Memory :=
  if count = 0 ∨ h.fails t lba = true then none
  else some fun i => h.byte (lba % 2 ^ 28 * ataSectorSize + i)

/-- `ExAllocatePoolWithTag`; blocks are named by the allocation that made them. -/
def exAllocatePool (h : Host) (s : IoState) : Option Nat × IoState :=
  if h.grants s.allocs = true then
    (some s.allocs, { s with allocs := s.allocs + 1, live := s.allocs :: s.live })
  else (none, { s with allocs := s.allocs + 1 })

def exFreePool (s : IoState) (block : Nat) : IoState := { s with live := s.live.erase block }

/-- `g_fat` of a mounted volume; `SectorsPerCluster` is a byte of the BPB. -/
structure FatVolume where
  fatStartLba : Nat
  dataStartLba : Nat
  sectorsPerCluster : Nat
  rootCluster : Nat
  small : sectorsPerCluster < 256
  deriving DecidableEq

def FatVolume.bytesPerCluster (v : FatVolume) : Nat := v.sectorsPerCluster * ataSectorSize

/-- `FatMount`, as the `t`-th read. -/
def fatMount (h : Host) (t : Nat) : NtStatus × Option FatVolume :=
  match ataReadSectors h t 0 1 with
  | none => (statusDeviceNotReady, none)
  | some sector =>
    if sector 510 ≠ 0x55 ∨ sector 511 ≠ 0xAA then (statusUnsuccessful, none)
    else if load sector 0x0B 2 ≠ ataSectorSize ∨ load sector 0x16 2 ≠ 0 then
      (statusNotSupported, none)
    else
      (statusSuccess, some
        { fatStartLba := load sector 0x0E 2
          dataStartLba := wrap32 (load sector 0x0E 2 + (sector 0x10).toNat * load sector 0x24 4)
          sectorsPerCluster := (sector 0x0D).toNat
          rootCluster := load sector 0x2C 4
          small := (sector 0x0D).toNat_lt })

def clusterToLba (v : FatVolume) (cluster : Nat) : Nat :=
  wrap32 (v.dataStartLba + (cluster + (2 ^ 32 - 2)) * v.sectorsPerCluster)

/-- `fat_next_cluster`, as the `t`-th read. -/
def fatNextCluster (h : Host) (v : FatVolume) (t cluster : Nat) : Nat :=
  let fatOffset := wrap32 (cluster * 4)
  match ataReadSectors h t (wrap32 (v.fatStartLba + fatOffset / ataSectorSize)) 1 with
  | none => fatEoc
  | some sector => load sector (fatOffset % ataSectorSize) 4 % 2 ^ 28

/-- What the drive returns for a cluster, as the `t`-th read. -/
def readCluster (h : Host) (v : FatVolume) (t cluster : Nat) : Option Memory :=
  ataReadSectors h t (clusterToLba v cluster) v.sectorsPerCluster

def dot : UInt8 := 46
def space : UInt8 := 32

/-- ASCII upper case. -/
def toUpper (c : UInt8) : UInt8 := if 97 ≤ c ∧ c ≤ 122 then c - 32 else c

/-- Fill up with blanks. -/
def pad (n : Nat) (bytes : List UInt8) : List UInt8 :=
  bytes ++ List.replicate (n - bytes.length) space

/-- `to_83`: the base up to its 8th character and the extension up to its 3rd. -/
def to83 (name : CString) : List UInt8 :=
  pad 8 (((name.bytes.takeWhile (· ≠ dot)).take 8).map toUpper) ++
    pad 3 ((((name.bytes.dropWhile (· ≠ dot)).drop 1).take 3).map toUpper)

/-- `from_83`. -/
def from83 (bytes : List UInt8) : CString :=
  let ext := (bytes.drop 8).takeWhile (· ≠ space)
  .ofBytes ((bytes.take 8).takeWhile (· ≠ space) ++ if ext = [] then [] else dot :: ext)

/-- The loop of `name_equal_ci`; the end of a list is its NUL. -/
def equalCi : List UInt8 → List UInt8 → Bool
  | [], [] => true
  | a :: as, b :: bs => if toLower a ≠ toLower b then false else equalCi as bs
  | _, _ => false

def nameEqualCi (a b : CString) : Bool := equalCi a.bytes b.bytes

/-- The loop of `name_is_83`. -/
def is83Loop : List UInt8 → Nat → Nat → Bool → Bool
  | [], base, _, _ => base ≠ 0
  | c :: cs, base, ext, inExt =>
    if c = dot then if inExt then false else is83Loop cs base ext true
    else if inExt then if 3 < ext + 1 then false else is83Loop cs base (ext + 1) inExt
    else if 8 < base + 1 then false else is83Loop cs (base + 1) ext inExt

def nameIs83 (name : CString) : Bool := is83Loop name.bytes 0 0 false

/-- The 32 bytes of a `FAT_DIRENT` or a `FAT_LFN_ENTRY`. -/
abbrev Dirent := Memory

namespace Dirent

variable (e : Dirent)

def name : List UInt8 := (List.range 11).map e
def attr : UInt8 := e 11
def writeTime : Nat := load e 22 2
def writeDate : Nat := load e 24 2
def firstCluster : Nat := load e 20 2 * 2 ^ 16 + load e 26 2
def fileSize : Nat := load e 28 4

/-- `Name1`, `Name2` and `Name3` of a long-name entry. -/
def longChars : List Nat :=
  (List.range 5).map (fun i => load e (1 + 2 * i) 2) ++
    (List.range 6).map (fun i => load e (14 + 2 * i) 2) ++
    (List.range 2).map fun i => load e (28 + 2 * i) 2

end Dirent

def sizeofDirent : Nat := 32

/-- The entries of a directory cluster. -/
def dirents (v : FatVolume) (buf : Memory) : List Dirent :=
  (List.range (v.bytesPerCluster / sizeofDirent)).map fun i k => buf (sizeofDirent * i + k)

/-- `long_name` and `have_lfn` of a directory scan. -/
structure Lfn where
  longName : Memory
  haveLfn : Bool

def Lfn.start : Lfn := ⟨fun _ => 0, false⟩

def Lfn.forget (l : Lfn) : Lfn := { l with haveLfn := false }

/-- The long name as a string; its last byte stays 0. -/
def Lfn.string (l : Lfn) : CString := .ofBytes ((List.range 260).map l.longName)

/-- The loop of `lfn_put_fragment`. -/
def putChars : Memory → Nat → List Nat → Memory
  | out, _, [] => out
  | out, pos, c :: cs =>
    if 259 ≤ pos then out
    else if c = 0 then Function.update out pos 0
    else if c ≠ 0xffff then
      putChars (Function.update out pos (if c ≤ 0x7f then c.toUInt8 else 63)) (pos + 1) cs
    else putChars out (pos + 1) cs

def lfnPutFragment (out : Memory) (e : Dirent) : Memory :=
  let ordinal := (e 0).toNat % 32
  if ordinal = 0 ∨ 20 < ordinal then out else putChars out ((ordinal - 1) * 13) e.longChars

/-- What a scan makes of an entry before it looks at its name. -/
inductive Seen where
  /-- The end of the directory. -/
  | stop
  | skip (l : Lfn)
  | plain

/-- A fragment of a long name; the last one comes first and starts it. -/
def takeFragment (l : Lfn) (e : Dirent) : Lfn :=
  if l.haveLfn then { l with longName := lfnPutFragment l.longName e } else l

/-- The tests with which both scans begin. -/
def see (l : Lfn) (e : Dirent) : Seen :=
  if e 0 = 0x00 then .stop
  else if e 0 = 0xE5 then .skip l.forget
  else if e.attr = attrLongName then
    .skip (takeFragment (if e 0 &&& 0x40 ≠ 0 then ⟨fun _ => 0, true⟩ else l) e)
  else .plain

/-- The test of `fat_find`. -/
def isMatch (name : CString) (l : Lfn) (e : Dirent) : Bool :=
  (l.haveLfn && nameEqualCi l.string name) || (nameIs83 name && e.name == to83 name)

inductive FindScan where
  | done
  | found (e : Dirent)
  | more (l : Lfn)

/-- The `for` loop of `fat_find`. -/
def findIn (name : CString) : List Dirent → Lfn → FindScan
  | [], l => .more l
  | e :: es, l =>
    match see l e with
    | .stop => .done
    | .skip l => findIn name es l
    | .plain => if isMatch name l e then .found e else findIn name es l.forget

structure FindState where
  cluster : Nat
  lfn : Lfn
  reads : Nat

/-- The `while` loop of `fat_find`. The FAT is read behind a match too. -/
def fatFindStep (h : Host) (v : FatVolume) (name : CString) (s : FindState) :
    (Option Dirent × Nat) ⊕ FindState :=
  if fatEoc ≤ s.cluster then .inl (none, s.reads)
  else
    match readCluster h v s.reads s.cluster with
    | none => .inl (none, s.reads + 1)
    | some buf =>
      match findIn name (dirents v buf) s.lfn with
      | .done => .inl (none, s.reads + 1)
      | .found e => .inl (some e, s.reads + 2)
      | .more l => .inr ⟨fatNextCluster h v (s.reads + 1) s.cluster, l, s.reads + 2⟩

/-- `fat_find`; `none` is out of fuel. -/
def fatFind (h : Host) (v : FatVolume) (fuel dirCluster : Nat) (name : CString) (s : IoState) :
    Option (Option Dirent × IoState) :=
  match exAllocatePool h s with
  | (none, s) => some (none, s)
  | (some block, s) =>
    (Loop.run (fatFindStep h v name) fuel ⟨dirCluster, .start, s.reads⟩).map fun r =>
      (r.1, exFreePool { s with reads := r.2 } block)

structure FindData where
  name : CString
  size : Nat
  attributes : Nat
  writeDate : Nat
  writeTime : Nat

/-- What is reported of an entry. -/
def findData (l : Lfn) (e : Dirent) : FindData where
  name := if l.haveLfn then l.string.take 259 else from83 e.name
  size := e.fileSize
  attributes := e.attr.toNat
  writeDate := e.writeDate
  writeTime := e.writeTime

inductive EnumerateScan where
  | done
  | found (data : FindData)
  | more (l : Lfn) (seen : Nat)

/-- The `for` loop of `FatEnumerateRoot`. -/
def enumerateIn (wanted : Nat) : List Dirent → Lfn → Nat → EnumerateScan
  | [], l, seen => .more l seen
  | e :: es, l, seen =>
    match see l e with
    | .stop => .done
    | .skip l => enumerateIn wanted es l seen
    | .plain =>
      if e.attr &&& 0x18 ≠ 0 then enumerateIn wanted es l.forget seen
      else if seen ≠ wanted then enumerateIn wanted es l.forget (wrap32 (seen + 1))
      else .found (findData l e)

structure EnumerateState where
  cluster : Nat
  lfn : Lfn
  seen : Nat
  reads : Nat

def fatEnumerateStep (h : Host) (v : FatVolume) (wanted : Nat) (s : EnumerateState) :
    (NtStatus × Option FindData × Nat) ⊕ EnumerateState :=
  if fatEoc ≤ s.cluster then .inl (statusObjectNameNotFound, none, s.reads)
  else
    match readCluster h v s.reads s.cluster with
    | none => .inl (statusDeviceNotReady, none, s.reads + 1)
    | some buf =>
      match enumerateIn wanted (dirents v buf) s.lfn s.seen with
      | .done => .inl (statusObjectNameNotFound, none, s.reads + 1)
      | .found data => .inl (statusSuccess, some data, s.reads + 1)
      | .more l seen =>
        .inr ⟨fatNextCluster h v (s.reads + 1) s.cluster, l, seen, s.reads + 2⟩

/-- `FatEnumerateRoot` with somewhere to put the data; no volume is one not mounted. -/
def fatEnumerateRoot (h : Host) (volume : Option FatVolume) (fuel wanted : Nat) (s : IoState) :
    Option (NtStatus × Option FindData × IoState) :=
  match volume with
  | none => some (statusDeviceNotReady, none, s)
  | some v =>
    match exAllocatePool h s with
    | (none, s) => some (statusNoMemory, none, s)
    | (some block, s) =>
      (Loop.run (fatEnumerateStep h v wanted) fuel ⟨v.rootCluster, .start, 0, s.reads⟩).map
        fun r => (r.1, r.2.1, exFreePool { s with reads := r.2.2 } block)

structure CopyState where
  cluster : Nat
  pos : Nat
  remaining : Nat
  buffer : Memory
  reads : Nat

/-- `memcpy` into the buffer. -/
def copyTo (buffer : Memory) (pos n : Nat) (chunk : Memory) : Memory := fun b =>
  if pos ≤ b ∧ b < pos + n then chunk (b - pos) else buffer b

/-- The copy loop of `FatLoadFile`: the buffer, or nothing if a read has failed. -/
def copyStep (h : Host) (v : FatVolume) (s : CopyState) : (Option Memory × Nat) ⊕ CopyState :=
  if fatEoc ≤ s.cluster ∨ s.remaining = 0 then .inl (some s.buffer, s.reads)
  else
    match readCluster h v s.reads s.cluster with
    | none => .inl (none, s.reads + 1)
    | some chunk =>
      let n := if s.remaining < v.bytesPerCluster then s.remaining else v.bytesPerCluster
      .inr
        { cluster := fatNextCluster h v (s.reads + 1) s.cluster
          pos := s.pos + n
          remaining := s.remaining - n
          buffer := copyTo s.buffer s.pos n chunk
          reads := s.reads + 2 }

structure LoadedFile where
  /-- The pool block of the buffer, and what it holds. -/
  block : Nat
  buffer : Memory
  size : Nat
  info : FindData

/-- `out_info` of `FatLoadFile`. -/
def loadInfo (name : CString) (e : Dirent) : FindData where
  name := name.take 259
  size := e.fileSize
  attributes := e.attr.toNat
  writeDate := e.writeDate
  writeTime := e.writeTime

/-- `FatLoadFile` behind the search. -/
def loadEntry (h : Host) (v : FatVolume) (fuel : Nat) (name : CString) (e : Dirent)
    (s : IoState) : Option (NtStatus × Option LoadedFile × IoState) :=
  match exAllocatePool h s with
  | (none, s) => some (statusNoMemory, none, s)
  | (some block, s) =>
    match exAllocatePool h s with
    | (none, s) => some (statusNoMemory, none, exFreePool s block)
    | (some chunk, s) =>
      (Loop.run (copyStep h v) fuel ⟨e.firstCluster, 0, e.fileSize, h.garbage block, s.reads⟩).map
        fun r =>
          let s := exFreePool { s with reads := r.2 } chunk
          match r.1 with
          | none => (statusDeviceNotReady, none, exFreePool s block)
          | some buffer =>
            (statusSuccess, some ⟨block, buffer, e.fileSize, loadInfo name e⟩, s)

def fatLoadFile (h : Host) (volume : Option FatVolume) (fuel : Nat) (name : CString)
    (s : IoState) : Option (NtStatus × Option LoadedFile × IoState) :=
  match volume with
  | none => some (statusDeviceNotReady, none, s)
  | some v =>
    match fatFind h v fuel v.rootCluster name s with
    | none => none
    | some (none, s) => some (statusObjectNameNotFound, none, s)
    | some (some e, s) => loadEntry h v fuel name e s

/-- The state behind an allocation that was granted, and behind one that was not. -/
def IoState.granted (s : IoState) : IoState :=
  { s with allocs := s.allocs + 1, live := s.allocs :: s.live }

def IoState.refused (s : IoState) : IoState := { s with allocs := s.allocs + 1 }

variable {h : Host} {v : FatVolume} {s : IoState}

theorem exAllocatePool_granted (grant : h.grants s.allocs = true) :
    exAllocatePool h s = (some s.allocs, s.granted) :=
  if_pos grant

theorem exAllocatePool_refused (grant : h.grants s.allocs = false) :
    exAllocatePool h s = (none, s.refused) :=
  if_neg (by simp [grant])

theorem fatFind_granted (grant : h.grants s.allocs = true) (fuel dirCluster : Nat)
    (name : CString) :
    fatFind h v fuel dirCluster name s =
      (Loop.run (fatFindStep h v name) fuel ⟨dirCluster, .start, s.reads⟩).map fun r =>
        (r.1, exFreePool { s.granted with reads := r.2 } s.allocs) := by
  rw [fatFind, exAllocatePool_granted grant]
  rfl

theorem fatFind_refused (grant : h.grants s.allocs = false) (fuel dirCluster : Nat)
    (name : CString) : fatFind h v fuel dirCluster name s = some (none, s.refused) := by
  rw [fatFind, exAllocatePool_refused grant]

theorem fatEnumerateRoot_granted (grant : h.grants s.allocs = true) (fuel wanted : Nat) :
    fatEnumerateRoot h (some v) fuel wanted s =
      (Loop.run (fatEnumerateStep h v wanted) fuel ⟨v.rootCluster, .start, 0, s.reads⟩).map
        fun r => (r.1, r.2.1, exFreePool { s.granted with reads := r.2.2 } s.allocs) := by
  rw [fatEnumerateRoot, exAllocatePool_granted grant]
  rfl

theorem fatEnumerateRoot_refused (grant : h.grants s.allocs = false) (fuel wanted : Nat) :
    fatEnumerateRoot h (some v) fuel wanted s = some (statusNoMemory, none, s.refused) := by
  rw [fatEnumerateRoot, exAllocatePool_refused grant]

/-- What `FatLoadFile` makes of the end of its copy loop. -/
def loadResult (name : CString) (e : Dirent) (s : IoState) (r : Option Memory × Nat) :
    NtStatus × Option LoadedFile × IoState :=
  let freed := exFreePool { s.granted.granted with reads := r.2 } s.granted.allocs
  match r.1 with
  | none => (statusDeviceNotReady, none, exFreePool freed s.allocs)
  | some buffer =>
    (statusSuccess, some ⟨s.allocs, buffer, e.fileSize, loadInfo name e⟩, freed)

theorem loadEntry_granted (first : h.grants s.allocs = true)
    (second : h.grants (s.allocs + 1) = true) (fuel : Nat) (name : CString) (e : Dirent) :
    loadEntry h v fuel name e s =
      (Loop.run (copyStep h v) fuel
        ⟨e.firstCluster, 0, e.fileSize, h.garbage s.allocs, s.reads⟩).map
          (loadResult name e s) := by
  have again : exAllocatePool h s.granted = (some s.granted.allocs, s.granted.granted) :=
    exAllocatePool_granted second
  rw [loadEntry, exAllocatePool_granted first]
  dsimp only
  rw [again]
  rfl

theorem loadEntry_refused (refusal : ¬ (h.grants s.allocs = true ∧ h.grants (s.allocs + 1) = true))
    (name : CString) (e : Dirent) :
    ∃ s', (∀ fuel, loadEntry h v fuel name e s = some (statusNoMemory, none, s')) ∧
      s'.live = s.live := by
  cases first : h.grants s.allocs with
  | false =>
    refine ⟨s.refused, fun fuel => ?_, rfl⟩
    rw [loadEntry, exAllocatePool_refused first]
  | true =>
    have second : h.grants (s.allocs + 1) = false := by simpa [first] using refusal
    have again : exAllocatePool h s.granted = (none, s.granted.refused) :=
      exAllocatePool_refused second
    refine ⟨exFreePool s.granted.refused s.allocs, fun fuel => ?_, List.erase_cons_head ..⟩
    rw [loadEntry, exAllocatePool_granted first]
    dsimp only
    rw [again]

end Io
