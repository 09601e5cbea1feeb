import Svindows.Lib.Bitmap
import Svindows.Nt.Defs

/-!
# The physical page allocator

`mm/pmm.c`: one bit for each 4 KiB frame, set while the frame is in use. An
access to a byte of the bitmap past its last one has no result.
-/

namespace Pmm

open Nt

inductive RegionType where
  | available
  | reserved
  | acpiReclaimable
  | acpiNvs
  | bad
  deriving DecidableEq

structure MemoryRegion where
  base : Nat
  length : Nat
  type : RegionType
  deriving DecidableEq

/-- `MM_MEMORY_MAP`, the fields the allocator reads. -/
structure MemoryMap where
  regions : List MemoryRegion
  highestAddress : Nat
  deriving DecidableEq

def kernelPhysBase : Nat := 0x100000

structure PmmState where
  bitmap : Bitmap.Bytes
  bitmapPhys : Nat
  bitmapBytes : Nat
  totalPages : Nat
  freePages : Nat
  usedPages : Nat
  nextHint : Nat

def bitSet (frame : Nat) (s : PmmState) : Option PmmState :=
  if frame / 8 < s.bitmapBytes then some { s with bitmap := Bitmap.setBit s.bitmap frame }
  else none

def bitClear (frame : Nat) (s : PmmState) : Option PmmState :=
  if frame / 8 < s.bitmapBytes then some { s with bitmap := Bitmap.clearBit s.bitmap frame }
  else none

def bitTest (frame : Nat) (s : PmmState) : Option Bool :=
  if frame / 8 < s.bitmapBytes then some (Bitmap.bit s.bitmap frame) else none

/-- `for (f = first; n more; f++)`. -/
def forFrames (body : Nat → PmmState → Option PmmState) :
    Nat → Nat → PmmState → Option PmmState
  | 0, _, s => some s
  | n + 1, f, s => do
    let s ← body f s
    forFrames body n (f + 1) s

def reserveFrame (f : Nat) (s : PmmState) : Option PmmState := do
  if ← bitTest f s then some s
  else
    let s ← bitSet f s
    some { s with
      freePages := if s.freePages ≠ 0 then s.freePages - 1 else s.freePages
      usedPages := wrap64 (s.usedPages + 1) }

def reserveRange (base length : Nat) (s : PmmState) : Option PmmState :=
  let first := base / pageSize
  let last := wrap64 (base + length + pageMask) / pageSize
  forFrames reserveFrame (min last s.totalPages - first) first s

def releaseFrame (f : Nat) (s : PmmState) : Option PmmState := do
  if ← bitTest f s then
    let s ← bitClear f s
    some { s with
      freePages := wrap64 (s.freePages + 1)
      usedPages := if s.usedPages ≠ 0 then s.usedPages - 1 else s.usedPages }
  else some s

/-- `free_range` leaves out a partial page at either end. -/
def freeRange (base length : Nat) (s : PmmState) : Option PmmState :=
  let first := wrap64 (base + pageMask) / pageSize
  let last := wrap64 (base + length) / pageSize
  forFrames releaseFrame (min last s.totalPages - first) first s

def freeRegion (r : MemoryRegion) (s : PmmState) : Option PmmState :=
  if r.type = .available then freeRange r.base r.length s else some s

def freeRegions : List MemoryRegion → PmmState → Option PmmState
  | [], s => some s
  | r :: regions, s => do
    let s ← freeRegion r s
    freeRegions regions s

/-- The state before any region is freed: every frame in use. -/
def allUsed (map : MemoryMap) (kernelEnd : Nat) (mem : Bitmap.Bytes) : PmmState :=
  let totalPages := map.highestAddress / pageSize
  let bitmapBytes := wrap64 (totalPages + 7) / 8
  { bitmap := fun k => if k < bitmapBytes then 0xFF#8 else mem k
    bitmapPhys := pageAlignUp kernelEnd
    bitmapBytes := bitmapBytes
    totalPages := totalPages
    freePages := 0
    usedPages := totalPages
    nextHint := 0 }

/-- `kernelEnd` is the linker's `__kernel_phys_end`, `mem` what memory holds
where the bitmap is put. -/
def mmInitializePhysicalMemory (map : MemoryMap) (kernelEnd : Nat) (mem : Bitmap.Bytes) :
    Option PmmState := do
  let s ← freeRegions map.regions (allUsed map kernelEnd mem)
  let s ← reserveRange 0 0x100000 s
  let s ← reserveRange kernelPhysBase (sub64 kernelEnd kernelPhysBase) s
  let s ← reserveRange s.bitmapPhys (wrap64 (bytesToPages s.bitmapBytes * pageSize)) s
  some { s with nextHint := 0x100000 / pageSize }

/-- The frame the search looks at in round `scan`. -/
def scanFrame (s : PmmState) (scan : Nat) : Nat :=
  let f := wrap64 (s.nextHint + scan)
  if f ≥ s.totalPages then f - s.totalPages else f

def allocateScan : Nat → Nat → PmmState → Option (Nat × PmmState)
  | 0, _, s => some (mmInvalidPhys, s)
  | n + 1, scan, s => do
    let f := scanFrame s scan
    if ← bitTest f s then allocateScan n (scan + 1) s
    else
      let s ← bitSet f s
      some (wrap64 (f * pageSize), { s with
        freePages := sub64 s.freePages 1
        usedPages := wrap64 (s.usedPages + 1)
        nextHint := f + 1 })

def mmAllocatePage (s : PmmState) : Option (Nat × PmmState) :=
  allocateScan s.totalPages 0 s

/-- The first-fit search from frame `f` on, `n` frames left: the last `run`
frames are free and the first of them is `start`. -/
def allocateRun (count : Nat) : Nat → Nat → Nat → Nat → PmmState → Option (Nat × PmmState)
  | 0, _, _, _, s => some (mmInvalidPhys, s)
  | n + 1, f, run, start, s => do
    if ← bitTest f s then allocateRun count n (f + 1) 0 start s
    else
      let start := if run = 0 then f else start
      if run + 1 = count then
        let s ← forFrames bitSet count start s
        some (wrap64 (start * pageSize), { s with
          freePages := sub64 s.freePages count
          usedPages := wrap64 (s.usedPages + count) })
      else allocateRun count n (f + 1) (run + 1) start s

def mmAllocatePages (count : Nat) (s : PmmState) : Option (Nat × PmmState) :=
  if count = 0 then some (mmInvalidPhys, s)
  else if count = 1 then mmAllocatePage s
  else allocateRun count s.totalPages 0 0 0 s

def freeFrame (f : Nat) (s : PmmState) : Option PmmState := do
  if ← bitTest f s then
    let s ← bitClear f s
    some { s with
      freePages := wrap64 (s.freePages + 1)
      usedPages := sub64 s.usedPages 1 }
  else some s

def mmFreePages (phys count : Nat) (s : PmmState) : Option PmmState := do
  let first := phys / pageSize
  let s ← forFrames freeFrame (min (wrap64 (first + count)) s.totalPages - first) first s
  some (if first < s.nextHint then { s with nextHint := first } else s)

end Pmm
