import Svindows.Lib.ByteMemory
import Svindows.Nt.Defs

/-!
# The heap of ntdll

`RtlAllocateHeap`, `RtlFreeHeap` and `RtlReAllocateHeap` of `ntdllrtl.c`, over the bytes
of the process. A block has a header of 16 bytes: `Size` in the first four, `Next` in
the last eight. `SIZE_T` has 32 bits there, and a size is cut to them. The lock is
held throughout each call, so the calls follow one another.
-/

namespace Rtl

open Nt ByteMemory

/-- A range obtained from `NtAllocateVirtualMemory`. -/
structure Segment where
  base : Nat
  len : Nat
  deriving DecidableEq

/-- `RTL_HEAP`, the memory around it, and what is kept beside them: the segments of the
heap, the other ranges of the process, the bytes asked for at each live pointer, and
the number of headers written, which bounds the length of the free list. -/
structure RtlHeap where
  magic : Nat
  freeHead : Nat
  cursor : Nat
  segmentEnd : Nat
  mem : Memory
  segments : List Segment
  others : List Segment
  requested : Nat → Option Nat
  headers : Nat

def sizeofRtlBlock : Nat := 16
def rtlHeapMagic : Nat := 0xFFEEFFEE

/-- `b->Size` and `b->Next`. -/
@[irreducible]
def blockSize (m : Memory) (b : Nat) : Nat := load m b 4

@[irreducible]
def blockNext (m : Memory) (b : Nat) : Nat := load m (b + 8) 8

/-- Address `x` is in memory of the process. -/
def RtlHeap.Granted (s : RtlHeap) (x : Nat) : Prop :=
  ∃ g ∈ s.segments ++ s.others, g.base ≤ x ∧ x < g.base + g.len

instance (s : RtlHeap) (x : Nat) : Decidable (s.Granted x) := by
  unfold RtlHeap.Granted
  infer_instance

/-- The fields that are set when the heap has no magic number yet. -/
def rtlCreateHeap (s : RtlHeap) : RtlHeap :=
  if s.magic = 0 then
    { s with magic := rtlHeapMagic, freeHead := 0, cursor := 0, segmentEnd := 0 }
  else s

/-- The bytes that `heap_grow` asks for. -/
def growSize (bytes : Nat) : Nat :=
  let size := (bytes + 0xFFFF) / 0x10000 * 0x10000
  if size < 0x10000 then 0x10000 else size

/-- `heap_grow`. The answer of `NtAllocateVirtualMemory` has the size it really has. -/
def rtlHeapGrow (s : RtlHeap) (bytes : Nat) (answer : Nat → Option Segment) : Option RtlHeap :=
  match answer (growSize bytes) with
  | none => none
  | some g => some { s with
      cursor := g.base
      segmentEnd := g.base + g.len
      segments := g :: s.segments }

/-- The loop over the free list; `link` is the block whose `Next` led to `b`, or the head. -/
def findFree (m : Memory) (size : Nat) : Nat → Option Nat → Nat → Option (Option Nat × Nat)
  | 0, _, _ => none
  | fuel + 1, link, b =>
    if b = 0 then none
    else if size ≤ blockSize m b then some (link, b)
    else findFree m size fuel (some b) (blockNext m b)

/-- `*link = next`. -/
def RtlHeap.setLink (s : RtlHeap) (link : Option Nat) (next : Nat) : RtlHeap :=
  match link with
  | none => { s with freeHead := next }
  | some b => { s with mem := store s.mem (b + 8) 8 next }

/-- `memset(p, 0, size)` if it is asked for; outside the memory of the process it faults. -/
def RtlHeap.clear (s : RtlHeap) (zero : Bool) (p size : Nat) : Option RtlHeap :=
  if zero then
    if ∀ i < size, s.Granted (p + i) then some { s with mem := fill s.mem p size 0 } else none
  else some s

/-- `(size + 15) & ~15` on the low half of the argument, after 0 has become 1. -/
def roundSize (size : Nat) : Nat :=
  let size := wrap32 size
  let size := if size = 0 then 1 else size
  wrap32 (size + 15) / 16 * 16

/-- What is left of the current segment, in 32 bits. -/
def RtlHeap.left (s : RtlHeap) : Nat := wrap32 (sub64 s.segmentEnd s.cursor)

/-- The block at the cursor. -/
def RtlHeap.carve (s : RtlHeap) (size : Nat) : RtlHeap :=
  { s with
    cursor := s.cursor + (sizeofRtlBlock + size)
    mem := store s.mem s.cursor 4 size
    headers := s.headers + 1 }

/-- `RtlAllocateHeap`: the pointer returned and the heap; none if the call faults. -/
def rtlAllocateHeap (s : RtlHeap) (zero : Bool) (size : Nat) (answer : Nat → Option Segment) :
    Option (Nat × RtlHeap) :=
  let size := roundSize size
  let s := rtlCreateHeap s
  match findFree s.mem size s.headers none s.freeHead with
  | some (link, b) =>
    let s := s.setLink link (blockNext s.mem b)
    (s.clear zero (b + sizeofRtlBlock) size).map fun s => (b + sizeofRtlBlock, s)
  | none =>
    let room := if s.left < size + sizeofRtlBlock then
      rtlHeapGrow s (wrap32 (size + sizeofRtlBlock)) answer else some s
    match room with
    | none => some (0, s)
    | some s =>
      let block := s.cursor
      ((s.carve size).clear zero (block + sizeofRtlBlock) size).map fun s =>
        (block + sizeofRtlBlock, s)

def rtlFreeHeap (s : RtlHeap) (ptr : Nat) : RtlHeap :=
  if ptr = 0 then s
  else
    let block := ptr - sizeofRtlBlock
    { s with
      mem := store s.mem (block + 8) 8 s.freeHead
      freeHead := block }

/-- `memcpy` inside the process. -/
def copyBytes (m : Memory) (dst src n : Nat) : Memory := fun x =>
  if dst ≤ x ∧ x < dst + n then m (src + (x - dst)) else m x

def rtlReAllocateHeap (s : RtlHeap) (zero : Bool) (ptr size : Nat)
    (answer : Nat → Option Segment) : Option (Nat × RtlHeap) :=
  if ptr = 0 then some (0, s)
  else do
    let old := ptr - sizeofRtlBlock
    let (fresh, s) ← rtlAllocateHeap s zero size answer
    if fresh = 0 then some (0, s)
    else
      let n := if blockSize s.mem old < wrap32 size then blockSize s.mem old else wrap32 size
      some (fresh, rtlFreeHeap { s with mem := copyBytes s.mem fresh ptr n } ptr)

def rtlSizeHeap (s : RtlHeap) (ptr : Nat) : Nat :=
  if ptr ≠ 0 then blockSize s.mem (ptr - sizeofRtlBlock) else 0

/-- A range that nothing else of the process has, in the user half. -/
def RtlHeap.Fresh (s : RtlHeap) (g : Segment) : Prop :=
  0 < g.base ∧ g.base + g.len ≤ mmUserMax ∧
    ∀ o ∈ s.segments ++ s.others, g.base + g.len ≤ o.base ∨ o.base + o.len ≤ g.base

/-- What `NtAllocateVirtualMemory` may answer: nothing, or a fresh range that is large enough. -/
def RtlHeap.Answers (s : RtlHeap) (answer : Nat → Option Segment) : Prop :=
  ∀ size g, answer size = some g → size ≤ g.len ∧ s.Fresh g

/-- A pointer is now live for `bytes` bytes, or no more. -/
def RtlHeap.request (s : RtlHeap) (ptr : Nat) (bytes : Option Nat) : RtlHeap :=
  { s with requested := Function.update s.requested ptr bytes }

theorem request_here (s : RtlHeap) (p : Nat) (bytes : Option Nat) :
    (s.request p bytes).requested p = bytes :=
  Function.update_self ..

theorem request_other (s : RtlHeap) {p q : Nat} (other : q ≠ p) (bytes : Option Nat) :
    (s.request p bytes).requested q = s.requested q :=
  Function.update_of_ne other ..

inductive RtlHeapOp where
  | create
  | allocate (zero : Bool) (size : Nat) (answer : Nat → Option Segment)
  | free (ptr : Nat)
  | reAllocate (zero : Bool) (ptr size : Nat) (answer : Nat → Option Segment)
  /-- Any other allocation of the process. -/
  | other (g : Segment)
  /-- The owner of a live pointer writes one of its bytes. -/
  | write (ptr i : Nat) (v : UInt8)

end Rtl
