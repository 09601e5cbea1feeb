import Svindows.Lib.ByteMemory
import Svindows.Nt.Defs

/-!
# The kernel pool allocator

A first-fit heap over one virtually contiguous arena. The block headers live
in the same bytes the payloads are carved from, so the model keeps the arena
as byte memory and reads and writes every header field at its offset in
`POOL_NODE`. Page commits come from outside and may fail at any page; a
committed page brings arbitrary contents.
-/

namespace Pool

open ByteMemory Nt

/-- The fields of `POOL_NODE`, in order. -/
inductive NodeField where
  | prev | next | size | requested | free | tag | magic | reserved
  deriving DecidableEq, Repr

namespace NodeField

def offset : NodeField → Nat
  | prev => 0
  | next => 8
  | size => 16
  | requested => 24
  | free => 32
  | tag => 36
  | magic => 40
  | reserved => 44

def width : NodeField → Nat
  | prev | next | size | requested => 8
  | free | tag | magic | reserved => 4

end NodeField

def poolHdr : Nat := 48
def poolAlign : Nat := 16
def poolMinPayload : Nat := 16
def poolGrowChunk : Nat := 0x10000
def poolMagic : Nat := 0x4C4F4F50
def poolGuard : Nat := 16
def poolGuardByte : UInt8 := 0xAB
def poolValidateEvery : Nat := 64

def get (m : Memory) (n : Nat) (f : NodeField) : Nat := load m (n + f.offset) f.width

def put (m : Memory) (n : Nat) (f : NodeField) (v : Nat) : Memory :=
  store m (n + f.offset) f.width v

/-- What a corruption report says went wrong. -/
inductive Corruption where
  | notContiguous | magicDestroyed | backLinkBroken | sizeOutsideArena
  | requestedLarger | guardOverrun | listEndsElsewhere
  | freeMagicDestroyed | freeOverrun
  deriving DecidableEq, Repr

def Corruption.text : Corruption → String
  | notContiguous => "block is not where the previous block ends"
  | magicDestroyed => "header magic destroyed"
  | backLinkBroken => "back link broken"
  | sizeOutsideArena => "payload size outside the arena"
  | requestedLarger => "requested size larger than the block"
  | guardOverrun => "payload overrun into the guard bytes"
  | listEndsElsewhere => "list ends at, arena ends at"
  | freeMagicDestroyed => "header magic destroyed"
  | freeOverrun => "payload overrun past its end"

structure PoolState where
  mem : Memory
  gHead : Nat
  gTail : Nat
  gHeapEnd : Nat
  gBytesInUse : Nat
  gPoolBroken : Bool
  /-- The call counter of `ExAllocatePoolWithTag`. -/
  calls : Nat
  /-- Corruption reports logged so far. -/
  reports : List Corruption

/-- One growth's page commits: whether page `i` is allocated and mapped, and
what the frames contain. -/
structure GrowEnv where
  commit : Nat → Bool
  contents : Memory

/-- `payload_to_node`. -/
def payloadToNode (p : Nat) : Nat := wrap64 (p + (2 ^ 64 - poolHdr))

def poolArmGuard (m : Memory) (n : Nat) : Memory :=
  fill m (n + poolHdr + get m n .requested) (get m n .size - get m n .requested) poolGuardByte

def poolGuardIntact (m : Memory) (n : Nat) : Bool :=
  (List.range (get m n .size - get m n .requested)).all fun i =>
    m (n + poolHdr + get m n .requested + i) == poolGuardByte

/-- The chain of tests `pool_validate` applies to one block. -/
def blockFault (s : PoolState) (prev addr n : Nat) : Option Corruption :=
  if n ≠ addr then some .notContiguous
  else if get s.mem n .magic ≠ poolMagic then some .magicDestroyed
  else if get s.mem n .prev ≠ prev then some .backLinkBroken
  else if get s.mem n .size = 0 ∨
      s.gHeapEnd < wrap64 (n + poolHdr + get s.mem n .size) then some .sizeOutsideArena
  else if get s.mem n .free = 0 ∧ get s.mem n .size < get s.mem n .requested then
    some .requestedLarger
  else if get s.mem n .free = 0 ∧ poolGuardIntact s.mem n = false then some .guardOverrun
  else none

/-- The walk of `pool_validate`. No result: the list never ends. -/
def validateWalk (s : PoolState) : Nat → Nat → Nat → Nat → Option (Option Corruption)
  | 0, _, _, _ => none
  | fuel + 1, prev, addr, n =>
    if n = 0 then
      some (if addr ≠ s.gHeapEnd then some .listEndsElsewhere else none)
    else match blockFault s prev addr n with
      | some bad => some (some bad)
      | none => validateWalk s fuel n (wrap64 (n + poolHdr + get s.mem n .size))
          (get s.mem n .next)

/-- A list that ends meets each address at most once. -/
def walkFuel (_ : PoolState) : Nat := 2 ^ 64

def report (s : PoolState) (bad : Corruption) : PoolState :=
  { s with gPoolBroken := true, reports := s.reports ++ [bad] }

def poolValidate (s : PoolState) : Option PoolState :=
  if s.gPoolBroken then some s
  else match validateWalk s (walkFuel s) 0 mmKernelHeapBase s.gHead with
    | none => none
    | some none => some s
    | some (some bad) => some (report s bad)

/-- The commit loop of `pool_grow` from page `i` on, with `left` pages to go. -/
def commitPages (e : GrowEnv) (start : Nat) : Nat → Nat → Memory → Bool × Memory
  | _, 0, m => (true, m)
  | i, left + 1, m =>
    if e.commit i then
      commitPages e start (i + 1) left
        (overlay m e.contents (wrap64 (start + i * pageSize)) pageSize)
    else (false, m)

def growWant (need : Nat) : Nat := alignUpBy (need + poolHdr) poolGrowChunk

/-- The header writes both `pool_grow` and `pool_split` begin a free node with. -/
def writeFreeNode (m : Memory) (n size prev : Nat) : Memory :=
  let m := put m n .size size
  let m := put m n .requested 0
  let m := put m n .free 1
  let m := put m n .tag 0
  let m := put m n .magic poolMagic
  let m := put m n .reserved 0
  put m n .prev prev

/-- The end of `pool_grow`, once `want` bytes are committed: extend a free tail,
else append a node. -/
def growCommitted (s : PoolState) (want : Nat) (m : Memory) : PoolState :=
  let start := s.gHeapEnd
  let gHeapEnd := wrap64 (s.gHeapEnd + want)
  if s.gTail ≠ 0 ∧ get m s.gTail .free ≠ 0 then
    { s with
      mem := put m s.gTail .size (wrap64 (get m s.gTail .size + want))
      gHeapEnd := gHeapEnd }
  else
    let m := writeFreeNode m start (wrap64 (want + (2 ^ 64 - poolHdr))) s.gTail
    let m := put m start .next 0
    if s.gTail ≠ 0 then
      { s with mem := put m s.gTail .next start, gHeapEnd := gHeapEnd, gTail := start }
    else
      { s with mem := m, gHeapEnd := gHeapEnd, gHead := start, gTail := start }

def poolGrow (s : PoolState) (need : Nat) (e : GrowEnv) : Bool × PoolState :=
  let want := growWant need
  let committed := commitPages e s.gHeapEnd 0 (want / pageSize) s.mem
  if committed.1 then (true, growCommitted s want committed.2)
  else (false, { s with mem := committed.2 })

/-- `ExInitializePool`; no result when the first growth fails and the kernel stops. -/
def exInitializePool (s : PoolState) (e : GrowEnv) : Option PoolState :=
  let s := { s with gHead := 0, gTail := 0, gHeapEnd := mmKernelHeapBase, gBytesInUse := 0 }
  match poolGrow s (poolGrowChunk - poolHdr) e with
  | (true, s) => some s
  | (false, _) => none

def poolSplit (s : PoolState) (node need : Nat) : PoolState :=
  if get s.mem node .size < wrap64 (need + poolHdr + poolMinPayload) then s
  else
    let rest := wrap64 (node + poolHdr + need)
    let size := wrap64 (get s.mem node .size + (2 ^ 64 - need) + (2 ^ 64 - poolHdr))
    let m := writeFreeNode s.mem rest size node
    let m := put m rest .next (get m node .next)
    let after := get m rest .next
    let m := if after ≠ 0 then put m after .prev rest else m
    let m := put m node .next rest
    let m := put m node .size need
    { s with mem := m, gTail := if after ≠ 0 then s.gTail else rest }

/-- First fit: the first free node of at least `need` payload bytes, 0 if the
list has none, no result if the list never ends. -/
def findFit (m : Memory) (need : Nat) : Nat → Nat → Option Nat
  | 0, _ => none
  | fuel + 1, n =>
    if n = 0 then some 0
    else if get m n .free ≠ 0 ∧ need ≤ get m n .size then some n
    else findFit m need fuel (get m n .next)

/-- Hand a node out: mark it used, note the request, arm the guard bytes. -/
def useNode (m : Memory) (n size tag : Nat) : Memory :=
  let m := put m n .free 0
  let m := put m n .tag tag
  let m := put m n .requested size
  poolArmGuard m n

/-- What happens to the node the search found. -/
def takeNode (s : PoolState) (n size need tag : Nat) : PoolState :=
  let s := poolSplit s n need
  let m := useNode s.mem n size tag
  { s with mem := m, gBytesInUse := wrap64 (s.gBytesInUse + get m n .size) }

/-- The attempts of `ExAllocatePoolWithTag`, one growth for each. -/
def allocateAttempts (size need tag : Nat) : List GrowEnv → PoolState → Option (Nat × PoolState)
  | [], s => some (0, s)
  | e :: rest, s =>
    (findFit s.mem need (walkFuel s) s.gHead).bind fun n =>
      if n ≠ 0 then some (wrap64 (n + poolHdr), takeNode s n size need tag)
      else
        let grown := poolGrow s need e
        if grown.1 then allocateAttempts size need tag rest grown.2 else some (0, grown.2)

/-- The payload size a request is rounded to: aligned, with guard bytes behind. -/
def poolNeed (size : Nat) : Nat := wrap64 (alignUpBy size poolAlign + poolGuard)

/-- Count the call and, every 64th time, validate the arena. -/
def countCall (s : PoolState) : Option PoolState :=
  let s := { s with calls := wrap32 (s.calls + 1) }
  if s.calls % poolValidateEvery = 0 then poolValidate s else some s

def exAllocatePoolWithTag (s : PoolState) (size tag : Nat) (e₁ e₂ : GrowEnv) :
    Option (Nat × PoolState) :=
  if size = 0 then some (0, s)
  else (countCall s).bind (allocateAttempts size (poolNeed size) tag [e₁, e₂])

/-- The writes that let the lower of two neighbouring nodes absorb the upper. -/
def mergeNodes (s : PoolState) (lower upper : Nat) : PoolState :=
  let m := put s.mem lower .size
    (wrap64 (get s.mem lower .size + poolHdr + get s.mem upper .size))
  let after := get m upper .next
  let m := put m lower .next after
  if after ≠ 0 then { s with mem := put m after .prev lower }
  else { s with mem := m, gTail := lower }

/-- Coalesce with the higher neighbour. -/
def coalesceNext (s : PoolState) (node : Nat) : PoolState :=
  let next := get s.mem node .next
  if next ≠ 0 ∧ get s.mem next .free ≠ 0 then mergeNodes s node next else s

/-- Coalesce with the lower neighbour. -/
def coalescePrev (s : PoolState) (node : Nat) : PoolState :=
  let prev := get s.mem node .prev
  if prev ≠ 0 ∧ get s.mem prev .free ≠ 0 then mergeNodes s prev node else s

/-- Mark a node free again. -/
def releaseNode (m : Memory) (node : Nat) : Memory :=
  let m := put m node .free 1
  let m := put m node .tag 0
  put m node .requested 0

/-- `ExFreePool`; no result when the double-free check stops the kernel. -/
def exFreePool (s : PoolState) (p : Nat) : Option PoolState :=
  if p = 0 then some s
  else
    let node := payloadToNode p
    let s := if get s.mem node .magic ≠ poolMagic ∧ s.gPoolBroken = false then
      report s .freeMagicDestroyed else s
    if get s.mem node .free ≠ 0 then none
    else
      let s := if s.gPoolBroken = false ∧ poolGuardIntact s.mem node = false then
        report s .freeOverrun else s
      let m := releaseNode s.mem node
      let s := { s with
        mem := m
        gBytesInUse := wrap64 (s.gBytesInUse + (2 ^ 64 - get m node .size)) }
      some (coalescePrev (coalesceNext s node) node)

end Pool
