import Svindows.Lib.ByteMemory
import Svindows.Nt.Defs

/-!
# User memory as a service sees it

`MmProbeForRead`, `MmProbeForWrite` and `MmCaptureUnicodeName` of `mm/vmm.c`. The
port of a call records, latest first, the ranges its probes accepted and the
ranges it read and wrote, beside the bytes themselves.
-/

namespace Mm

open Nt ByteMemory

/-- An accepted probe, or bytes read or written through a user pointer. -/
inductive Touch where
  | probed (va len : Nat)
  | read (va len : Nat)
  | wrote (va len : Nat)
  deriving DecidableEq

/-- `present p` says that `MmGetPhysicalAddress` finds the page at `p`. -/
structure UserPort where
  present : Nat → Bool
  bytes : Memory
  log : List Touch

def mmIsUserAddress (va : Nat) : Bool := va < mmUserMax

/-- The pages that the loop of the probe looks at. -/
def probePages (va len : Nat) : List Nat :=
  (List.range ((va + len - pageAlign va + Nt.pageMask) / pageSize)).map fun i =>
    pageAlign va + i * pageSize

def mmProbeForRead (present : Nat → Bool) (va len : Nat) : Bool :=
  if len = 0 then true
  else if wrap64 (va + len) < va then false
  else if mmIsUserAddress va = false ∨ mmIsUserAddress (sub64 (wrap64 (va + len)) 1) = false then
    false
  else (probePages va len).all present

def mmProbeForWrite (present : Nat → Bool) (va len : Nat) : Bool := mmProbeForRead present va len

namespace UserPort

def accepts (u : UserPort) (va len : Nat) : Bool := mmProbeForRead u.present va len

/-- After an accepted probe. -/
def probed (u : UserPort) (va len : Nat) : UserPort := { u with log := .probed va len :: u.log }

/-- After a read of `len` bytes. -/
def read (u : UserPort) (va len : Nat) : UserPort := { u with log := .read va len :: u.log }

def write (u : UserPort) (va width v : Nat) : UserPort :=
  { u with bytes := store u.bytes va width v, log := .wrote va width :: u.log }

/-- `memcpy` of the first `n` bytes of `data` to user memory. -/
def copyOut (u : UserPort) (va n : Nat) (data : List UInt8) : UserPort :=
  { u with
    bytes := overlay u.bytes (fun b => data.getD (b - va) 0) va n
    log := .wrote va n :: u.log }

end UserPort

/-- One unit of a captured name: ASCII, anything else becomes a question mark. -/
def asciiUnit (c : Nat) : UInt8 := if c ≠ 0 ∧ c < 0x80 then c.toUInt8 else 0x3F

/-- How many units of the UNICODE_STRING at `va` a buffer of `size` bytes takes. -/
def capturedChars (m : Memory) (va size : Nat) : Nat :=
  let chars := load m va 2 / 2
  if size ≤ chars then size - 1 else chars

/-- `MmCaptureUnicodeName` into a buffer of `size` bytes. -/
def mmCaptureUnicodeName (u : UserPort) (va size : Nat) : Option (List UInt8) × UserPort :=
  if size = 0 then (none, u)
  else if u.accepts va 16 = false then (none, u)
  else
    let header := ((u.probed va 16).read va 2).read (va + 8) 8
    let buffer := load u.bytes (va + 8) 8
    let chars := capturedChars u.bytes va size
    if chars ≠ 0 ∧ u.accepts buffer (chars * 2) = false then (none, header)
    else
      (some ((List.range chars).map fun i => asciiUnit (load u.bytes (buffer + 2 * i) 2)),
        if chars = 0 then header
        else (header.probed buffer (chars * 2)).read buffer (chars * 2))

theorem pageAlign_eq {va : Nat} (small : va < 2 ^ 64) : pageAlign va = va / 4096 * 4096 := by
  simp only [pageAlign, alignDownBy, wrap64, pageSize]
  rw [Nat.mod_eq_of_lt small]

theorem mem_probePages {va len p : Nat} (small : va < 2 ^ 64) (some : 0 < len) :
    p ∈ probePages va len ↔ ∃ b, va ≤ b ∧ b < va + len ∧ p = b / 4096 * 4096 := by
  have mask : Nt.pageMask = 4095 := rfl
  have size : pageSize = 4096 := rfl
  simp only [probePages, pageAlign_eq small, List.mem_map, List.mem_range, mask, size]
  constructor
  · rintro ⟨i, hi, rfl⟩
    rcases Nat.eq_zero_or_pos i with rfl | later
    · exact ⟨va, le_rfl, by omega, by omega⟩
    · exact ⟨va / 4096 * 4096 + i * 4096, by omega, by omega, by omega⟩
  · rintro ⟨b, lo, hi, rfl⟩
    exact ⟨b / 4096 - va / 4096, by omega, by omega⟩

theorem mmIsUserAddress_false {va : Nat} : mmIsUserAddress va = false ↔ mmUserMax ≤ va := by
  rw [mmIsUserAddress, decide_eq_false_iff_not, not_lt]

/-- A non-empty range is accepted when it ends below the user limit and all its
pages are present. -/
theorem mmProbeForRead_iff {present : Nat → Bool} {va len : Nat} (hv : va < 2 ^ 64)
    (hl : len < 2 ^ 64) (some : 0 < len) :
    mmProbeForRead present va len = true ↔ va + len ≤ mmUserMax ∧
      ∀ b, va ≤ b → b < va + len → present (b / 4096 * 4096) = true := by
  have limit : mmUserMax = 0x800000000000 := rfl
  have pages : (probePages va len).all present = true ↔
      ∀ b, va ≤ b → b < va + len → present (b / 4096 * 4096) = true := by
    rw [List.all_eq_true]
    constructor
    · intro all b lo hi
      exact all _ ((mem_probePages hv some).mpr ⟨b, lo, hi, rfl⟩)
    · intro all p page
      obtain ⟨b, lo, hi, rfl⟩ := (mem_probePages hv some).mp page
      exact all b lo hi
  simp only [mmProbeForRead, mmIsUserAddress_false, wrap64, sub64]
  rw [if_neg (by omega)]
  split
  · -- The sum wraps around.
    constructor
    · intro no
      exact absurd no (by simp)
    · rintro ⟨user, -⟩
      omega
  · split
    · constructor
      · intro no
        exact absurd no (by simp)
      · rintro ⟨user, -⟩
        omega
    · rw [pages]
      constructor
      · intro all
        exact ⟨by omega, all⟩
      · exact And.right

/-- The units of a UNICODE_STRING. -/
def unitsAt (m : Memory) (va : Nat) : List Nat :=
  (List.range (load m va 2 / 2)).map fun i => load m (load m (va + 8) 8 + 2 * i) 2

/-- A name as the capture into `size` bytes leaves it. -/
def captured (size : Nat) (units : List Nat) : List UInt8 :=
  (units.take (size - 1)).map asciiUnit

@[simp] theorem probed_bytes (u : UserPort) (va len : Nat) : (u.probed va len).bytes = u.bytes := rfl
@[simp] theorem read_bytes (u : UserPort) (va len : Nat) : (u.read va len).bytes = u.bytes := rfl
@[simp] theorem probed_present (u : UserPort) (va len : Nat) :
    (u.probed va len).present = u.present := rfl

/-- A captured name is the cut and replaced form of the whole string. -/
theorem mmCaptureUnicodeName_some {u : UserPort} {va size : Nat} {name : List UInt8}
    (got : (mmCaptureUnicodeName u va size).1 = some name) :
    name = captured size (unitsAt u.bytes va) := by
  simp only [mmCaptureUnicodeName] at got
  split at got
  · exact absurd got (by simp)
  rename_i sized
  split at got
  · exact absurd got (by simp)
  split at got
  · exact absurd got (by simp)
  have cut : capturedChars u.bytes va size = min (size - 1) (load u.bytes va 2 / 2) := by
    simp only [capturedChars]
    split <;> omega
  rw [← Option.some.inj got, captured, unitsAt, ← List.map_take, List.take_range, List.map_map, cut]
  rfl

/-- Capturing depends on the bytes and the pages, not on the log. -/
theorem mmCaptureUnicodeName_congr {u u' : UserPort} (bytes : u'.bytes = u.bytes)
    (present : u'.present = u.present) (va size : Nat) :
    (mmCaptureUnicodeName u' va size).1 = (mmCaptureUnicodeName u va size).1 := by
  obtain ⟨p, b, log⟩ := u
  obtain ⟨p', b', log'⟩ := u'
  cases bytes
  cases present
  simp only [mmCaptureUnicodeName, apply_ite Prod.fst, UserPort.accepts]

/-- Capturing leaves the memory alone. -/
theorem mmCaptureUnicodeName_bytes (u : UserPort) (va size : Nat) :
    (mmCaptureUnicodeName u va size).2.bytes = u.bytes ∧
      (mmCaptureUnicodeName u va size).2.present = u.present := by
  simp only [mmCaptureUnicodeName]
  split
  · exact ⟨rfl, rfl⟩
  split
  · exact ⟨rfl, rfl⟩
  split
  · exact ⟨rfl, rfl⟩
  · split
    · exact ⟨rfl, rfl⟩
    · exact ⟨rfl, rfl⟩

/-- Capturing writes nothing. -/
theorem mmCaptureUnicodeName_writes (u : UserPort) (va size a len : Nat) :
    .wrote a len ∈ (mmCaptureUnicodeName u va size).2.log ↔ .wrote a len ∈ u.log := by
  simp only [mmCaptureUnicodeName]
  split
  · rfl
  split
  · rfl
  split
  · simp [UserPort.probed, UserPort.read]
  · split
    · simp [UserPort.probed, UserPort.read]
    · simp [UserPort.probed, UserPort.read]

end Mm
