import Svindows.Lib.ByteMemory
import Svindows.Nt.Defs

/-!
# The process heap of kernel32

`HeapCreate`, `HeapAlloc`, `HeapFree` and `HeapReAlloc` of `kernel32.c`. The headers
of all blocks are kept by address, linked by `next` as in the source, beside the
bytes of the payloads. A grant is the answer of `nt_alloc`, which another
allocation of the process may have moved anywhere.

Sizes stay far below `2 ^ 64`, so no sum here wraps. The flags only matter for
`HEAP_ZERO_MEMORY`; the `pad` word of a header is never read.
-/

namespace Kernel32

open Nt ByteMemory

/-- A `BLOCK`; `next` is 0 at the end of the list. -/
structure Header where
  size : Nat
  next : Nat
  free : Bool
  deriving DecidableEq

def sizeofBlock : Nat := 24
def sizeofHeap : Nat := 8

/-- Memory obtained from `NtAllocateVirtualMemory`: by `nt_alloc` for the heap
`owner`, or, with owner 0, by any other call. -/
structure Grant where
  owner : Nat
  base : Nat
  len : Nat
  deriving DecidableEq

/-- `first h` is the list head of the heap at `h`. `heaps`, `grants` and `requested`
record the heaps created, the memory granted and the bytes asked for at each live
pointer; `headers` counts the headers written, which bounds the length of a list. -/
structure Process where
  first : Nat → Nat
  blocks : Nat → Header
  bytes : Memory
  heaps : List Nat
  grants : List Grant
  requested : Nat → Nat → Option Nat
  headers : Nat

def Process.setBlock (s : Process) (b : Nat) (header : Header) : Process :=
  { s with blocks := Function.update s.blocks b header }

def alignUp8 (n : Nat) : Nat := (n + 7) / 8 * 8

/-- The loop of `heap_grow` to the last block. -/
def lastBlock (blocks : Nat → Header) : Nat → Nat → Nat
  | 0, last => last
  | fuel + 1, last =>
    if (blocks last).next = 0 then last else lastBlock blocks fuel (blocks last).next

def growPayload (wanted : Nat) : Nat := if wanted < 0x10000 then 0x10000 else alignUp8 wanted

/-- `heap_grow`; `base` is where `nt_alloc` finds room, if it does. -/
def heapGrow (s : Process) (h wanted : Nat) (base : Option Nat) : Option Nat × Process :=
  match base with
  | none => (none, s)
  | some block =>
    let payload := growPayload wanted
    let s := { s with
      grants := ⟨h, block, sizeofBlock + payload⟩ :: s.grants
      headers := s.headers + 1 }
    let s := s.setBlock block ⟨payload, 0, true⟩
    let last := lastBlock s.blocks s.headers (s.first h)
    (some block, s.setBlock last { s.blocks last with next := block })

/-- Split off what `size` bytes leave of block `b`, if another block fits there. -/
def splitBlock (s : Process) (b size : Nat) : Process :=
  let old := s.blocks b
  if size + sizeofBlock + 16 ≤ old.size then
    let tail := b + sizeofBlock + size
    let s := s.setBlock tail ⟨old.size - size - sizeofBlock, old.next, true⟩
    { s.setBlock b ⟨size, tail, old.free⟩ with headers := s.headers + 1 }
  else s

def heapCreate (s : Process) (initial : Nat) (base : Option Nat) : Nat × Process :=
  let region := (if initial ≠ 0 then alignUp8 initial else 0x10000) + (sizeofHeap + sizeofBlock)
  match base with
  | none => (0, s)
  | some h =>
    let b := h + sizeofHeap
    let s := s.setBlock b ⟨region - sizeofHeap - sizeofBlock, 0, true⟩
    (h, { s with
      first := Function.update s.first h b
      heaps := h :: s.heaps
      grants := ⟨h, h, region⟩ :: s.grants
      headers := s.headers + 1 })

/-- The first free block of at least `size` bytes. -/
def firstFit (blocks : Nat → Header) (size : Nat) : Nat → Nat → Option Nat
  | 0, _ => none
  | fuel + 1, b =>
    if b = 0 then none
    else if (blocks b).free = false ∨ (blocks b).size < size then
      firstFit blocks size fuel (blocks b).next
    else some b

/-- Cut block `b` to `size` bytes, mark it used and clear it if asked to. -/
def takeBlock (s : Process) (b size : Nat) (zero : Bool) : Nat × Process :=
  let s := splitBlock s b size
  let s := s.setBlock b { s.blocks b with free := false }
  let p := b + sizeofBlock
  (p, if zero then { s with bytes := fill s.bytes p size 0 } else s)

def heapAlloc (s : Process) (h : Nat) (zero : Bool) (bytes : Nat) (base : Option Nat) :
    Nat × Process :=
  if h = 0 then (0, s)
  else
    let size := alignUp8 (if bytes ≠ 0 then bytes else 1)
    match firstFit s.blocks size s.headers (s.first h) with
    | some b => takeBlock s b size zero
    | none =>
      match heapGrow s h size base with
      | (none, s) => (0, s)
      | (some b, s) => takeBlock s b size zero

/-- The forward pass of `HeapFree`. Every round passes or removes one block. -/
def coalesce (blocks : Nat → Header) : Nat → Nat → Nat → Header
  | 0, _ => blocks
  | fuel + 1, c =>
    let n := (blocks c).next
    if c = 0 ∨ n = 0 then blocks
    else if (blocks c).free = true ∧ (blocks n).free = true ∧
        c + sizeofBlock + (blocks c).size = n then
      coalesce (Function.update blocks c
        ⟨(blocks c).size + (sizeofBlock + (blocks n).size), (blocks n).next, (blocks c).free⟩) fuel c
    else coalesce blocks fuel n

def heapFree (s : Process) (h ptr : Nat) : Process :=
  if h = 0 ∨ ptr = 0 then s
  else
    let b := ptr - sizeofBlock
    let s := s.setBlock b { s.blocks b with free := true }
    { s with blocks := coalesce s.blocks s.headers (s.first h) }

def heapFindBlock (blocks : Nat → Header) (ptr : Nat) : Nat → Nat → Option Nat
  | 0, _ => none
  | fuel + 1, b =>
    if b = 0 then none
    else if b + sizeofBlock = ptr then some b
    else heapFindBlock blocks ptr fuel (blocks b).next

/-- `memcpy` inside the process. -/
def copyBytes (m : Memory) (dst src n : Nat) : Memory := fun x =>
  if dst ≤ x ∧ x < dst + n then m (src + (x - dst)) else m x

/-- The in-place growth of `HeapReAlloc` takes the free block after `b`. -/
def growsInPlace (s : Process) (b wanted : Nat) : Bool :=
  let n := (s.blocks b).next
  n ≠ 0 && (s.blocks n).free && wanted ≤ (s.blocks b).size + sizeofBlock + (s.blocks n).size

def heapReAlloc (s : Process) (h : Nat) (zero : Bool) (ptr bytes : Nat) (base : Option Nat) :
    Nat × Process :=
  if ptr = 0 then heapAlloc s h zero bytes base
  else if bytes = 0 then (0, heapFree s h ptr)
  else
    match heapFindBlock s.blocks ptr s.headers (s.first h) with
    | none => (0, s)
    | some b =>
      if (s.blocks b).free = true then (0, s)
      else
        let wanted := alignUp8 bytes
        let old := s.blocks b
        if wanted ≤ old.size then (ptr, splitBlock s b wanted)
        else if growsInPlace s b wanted = true then
          let n := s.blocks old.next
          let s := s.setBlock b ⟨old.size + (sizeofBlock + n.size), n.next, old.free⟩
          (ptr, if zero then
            { s with bytes := fill s.bytes (ptr + old.size) (wanted - old.size) 0 } else s)
        else
          match heapAlloc s h zero bytes base with
          | (replacement, s) =>
            if replacement = 0 then (0, s)
            else
              let n := if old.size < bytes then old.size else bytes
              (replacement,
                heapFree { s with bytes := copyBytes s.bytes replacement ptr n } h ptr)

/-- A range that `NtAllocateVirtualMemory` may return: user memory that nothing else has. -/
def Fresh (s : Process) (base len : Nat) : Prop :=
  0 < base ∧ base + len ≤ mmUserMax ∧
    ∀ g ∈ s.grants, base + len ≤ g.base ∨ g.base + g.len ≤ base

/-- A live pointer of heap `h` is now one for `bytes` bytes, or none. -/
def Process.request (s : Process) (h ptr : Nat) (bytes : Option Nat) : Process :=
  { s with requested := Function.update s.requested h (Function.update (s.requested h) ptr bytes) }

inductive HeapOp where
  | create (initial : Nat) (base : Option Nat)
  | alloc (h : Nat) (zero : Bool) (bytes : Nat) (base : Option Nat)
  | free (h ptr : Nat)
  | reAlloc (h : Nat) (zero : Bool) (ptr bytes : Nat) (base : Option Nat)
  /-- Any other `NtAllocateVirtualMemory` of the process. -/
  | other (base len : Nat)
  /-- The owner of a live pointer writes one of its bytes. -/
  | write (h ptr i : Nat) (v : UInt8)

end Kernel32
