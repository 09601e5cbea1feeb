import Mathlib.Algebra.Ring.Nat
import Svindows.Lib.TableTree

/-!
# Page tables

`mm/vmm.c` over physical memory: a table is known by the physical address of
its frame and an entry by its index, so `table_at(phys)[i]` is `mem phys i`.
`frames` holds the frames that `MmAllocatePage` will return, in order; when
there are none left the next allocation stops the system, and a function that
gets there has no result.
-/

namespace Mm

open TableTree

/-- A `UINT64`: an address, an entry or flags. -/
abbrev Word := BitVec 64

def ptePresent : Word := 0x001#64
def pteWrite : Word := 0x002#64
def pteUser : Word := 0x004#64
def pteLarge : Word := 0x080#64
def pteGlobal : Word := 0x100#64
def pteAddrMask : Word := 0x000FFFFFFFFFF000#64

/-- `entry & PTE_PRESENT` and `entry & PTE_LARGE` as conditions. -/
def isPresent (entry : Word) : Bool := entry &&& ptePresent != 0
def isLarge (entry : Word) : Bool := entry &&& pteLarge != 0

def pageMask : Word := 0xFFF#64
def largePageMask : Word := 0x1FFFFF#64
def invalidPhys : Word := BitVec.allOnes 64

def kernelVirtBase : Word := 0xFFFFFFFF80000000#64
def directMapBase : Word := 0xFFFF800000000000#64

def pml4Index (va : Word) : Nat := ((va >>> 39) &&& 0x1FF#64).toNat
def pdptIndex (va : Word) : Nat := ((va >>> 30) &&& 0x1FF#64).toNat
def pdIndex (va : Word) : Nat := ((va >>> 21) &&& 0x1FF#64).toNat
def ptIndex (va : Word) : Nat := ((va >>> 12) &&& 0x1FF#64).toNat

structure VmState where
  mem : Word → Nat → Word
  /-- `g_kernel_pml4_phys`. -/
  pml4 : Word
  frames : List Word

def VmState.write (s : VmState) (t : Word) (i : Nat) (e : Word) : VmState :=
  { s with mem := TableTree.write s.mem t i e }

def allocZeroedTable (s : VmState) : Option (Word × VmState) :=
  match s.frames with
  | [] => none
  | f :: frames => some (f, { s with mem := fill s.mem f 0, frames := frames })

/-- `next_table` on entry `i` of the table at `t`. -/
def nextTable (s : VmState) (t : Word) (i : Nat) : Option (Word × VmState) :=
  if !isPresent (s.mem t i) then do
    let (f, s) ← allocZeroedTable s
    some (f, s.write t i (f ||| ptePresent ||| pteWrite ||| pteUser))
  else
    let entry := s.mem t i ||| pteUser
    some (entry &&& pteAddrMask, s.write t i entry)

def mapLarge (s : VmState) (va pa flags : Word) : Option VmState := do
  let (pdpt, s) ← nextTable s s.pml4 (pml4Index va)
  let (pd, s) ← nextTable s pdpt (pdptIndex va)
  some (s.write pd (pdIndex va) ((pa &&& ~~~largePageMask) ||| flags ||| pteLarge))

/-- Map `n` large pages from `base` on to the physical ones from 0 on. -/
def mapLargePages (base : Word) : Nat → VmState → Option VmState
  | 0, s => some s
  | n + 1, s => do
    let s ← mapLargePages base n s
    let off := BitVec.ofNat 64 (n * 0x200000)
    mapLarge s (base + off) off (ptePresent ||| pteWrite ||| pteGlobal)

/-- The end of the direct map: the highest address rounded up, at least 1 GiB. -/
def directMapTop (highest : Word) : Word :=
  let top := (highest + largePageMask) &&& ~~~largePageMask
  if top < 0x40000000#64 then 0x40000000#64 else top

def mmInitializeVirtualMemory (mem : Word → Nat → Word) (frames : List Word) (highest : Word) :
    Option VmState := do
  let (pml4, s) ← allocZeroedTable ⟨mem, 0, frames⟩
  let s ← mapLargePages kernelVirtBase 512 { s with pml4 := pml4 }
  mapLargePages directMapBase ((directMapTop highest).toNat / 0x200000) s

def mmMapPage (s : VmState) (virt phys flags : Word) : Option (Bool × VmState) := do
  let (pdpt, s) ← nextTable s s.pml4 (pml4Index virt)
  let (pd, s) ← nextTable s pdpt (pdptIndex virt)
  if isLarge (s.mem pd (pdIndex virt)) then some (false, s)
  else do
    let (pt, s) ← nextTable s pd (pdIndex virt)
    some (true, s.write pt (ptIndex virt) ((phys &&& pteAddrMask) ||| flags ||| ptePresent))

def mmUnmapPage (s : VmState) (virt : Word) : Bool × VmState :=
  let pml4e := s.mem s.pml4 (pml4Index virt)
  if !isPresent pml4e then (false, s)
  else
    let pdpte := s.mem (pml4e &&& pteAddrMask) (pdptIndex virt)
    if !isPresent pdpte then (false, s)
    else
      let pde := s.mem (pdpte &&& pteAddrMask) (pdIndex virt)
      if !isPresent pde || isLarge pde then (false, s)
      else (true, s.write (pde &&& pteAddrMask) (ptIndex virt) 0)

def mmGetPhysicalAddress (s : VmState) (virt : Word) : Word :=
  let pml4e := s.mem s.pml4 (pml4Index virt)
  if !isPresent pml4e then invalidPhys
  else
    let pdpte := s.mem (pml4e &&& pteAddrMask) (pdptIndex virt)
    if !isPresent pdpte then invalidPhys
    else
      let pde := s.mem (pdpte &&& pteAddrMask) (pdIndex virt)
      if !isPresent pde then invalidPhys
      else if isLarge pde then (pde &&& ~~~largePageMask) ||| (virt &&& largePageMask)
      else
        let pte := s.mem (pde &&& pteAddrMask) (ptIndex virt)
        if !isPresent pte then invalidPhys
        else (pte &&& pteAddrMask) ||| (virt &&& pageMask)

/-- One round of `MmProtectRange`. -/
def protectPage (s : VmState) (flags p : Word) : Option VmState :=
  let pa := mmGetPhysicalAddress s p
  if pa ≠ invalidPhys then (mmMapPage s p (pa &&& ~~~pageMask) flags).map (·.2) else some s

def protectPages (flags : Word) : Nat → Word → VmState → Option VmState
  | 0, _, s => some s
  | n + 1, p, s => do
    let s ← protectPage s flags p
    protectPages flags n (p + 0x1000#64) s

/-- The page-aligned ends of a range. -/
def rangeFirst (va : Word) : Word := va &&& ~~~pageMask
def rangeLast (va size : Word) : Word := (va + size + pageMask) &&& ~~~pageMask

/-- `MmProtectRange`: the pages from the first up to the last, none if the
range is empty or its end wraps below its start. -/
def mmProtectRange (s : VmState) (va size : Word) (writable : Bool) : Option VmState :=
  protectPages (pteUser ||| if writable then pteWrite else 0)
    (((rangeLast va size).toNat - (rangeFirst va).toNat) / 0x1000) (rangeFirst va) s

end Mm
