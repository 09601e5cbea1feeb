import Mathlib.Tactic.Linarith

/-!
# Words, alignment and status codes

Machine words are natural numbers kept below a power of two; an operation that
can overflow says so with `wrap64` or `wrap32`. Every alignment in the sources
is a power of two, so masking with `~(a - 1)` is rounding down to a multiple.
-/

namespace Nt

def wrap64 (x : Nat) : Nat := x % 2 ^ 64
def wrap32 (x : Nat) : Nat := x % 2 ^ 32

/-- `a - b` on 64-bit values. -/
def sub64 (a b : Nat) : Nat := wrap64 (a + (2 ^ 64 - b))

/-- `ALIGN_DOWN_BY`: the mask acts on a 64-bit value. -/
def alignDownBy (x a : Nat) : Nat := wrap64 x / a * a

/-- `ALIGN_UP_BY`: the addition of `a - 1` wraps before the mask is applied. -/
def alignUpBy (x a : Nat) : Nat := alignDownBy (wrap64 x + (a - 1)) a

def pageSize : Nat := 0x1000
def pageMask : Nat := pageSize - 1
def pageAlign (x : Nat) : Nat := alignDownBy x pageSize
def pageAlignUp (x : Nat) : Nat := alignUpBy x pageSize
def bytesToPages (x : Nat) : Nat := wrap64 (x + pageMask) / pageSize

def mmKernelHeapBase : Nat := 0xFFFFFFFFC0000000
def mmUserMax : Nat := 0x0000800000000000

/-- `MM_INVALID_PHYS`, the all-ones word. -/
def mmInvalidPhys : Nat := 2 ^ 64 - 1

/-- `NTSTATUS` values are 32-bit codes; the waits add an index to `STATUS_WAIT_0`. -/
abbrev NtStatus := Nat

def statusSuccess : NtStatus := 0x00000000
def statusWait0 : NtStatus := 0x00000000
def statusTimeout : NtStatus := 0x00000102
def statusPending : NtStatus := 0x00000103
def statusUnsuccessful : NtStatus := 0xC0000001
def statusAccessViolation : NtStatus := 0xC0000005
def statusInvalidHandle : NtStatus := 0xC0000008
def statusInvalidParameter : NtStatus := 0xC000000D
def statusNoMemory : NtStatus := 0xC0000017
def statusConflictingAddresses : NtStatus := 0xC0000018
def statusAccessDenied : NtStatus := 0xC0000022
def statusBufferTooSmall : NtStatus := 0xC0000023
def statusObjectTypeMismatch : NtStatus := 0xC0000024
def statusObjectNameInvalid : NtStatus := 0xC0000033
def statusObjectNameNotFound : NtStatus := 0xC0000034
def statusObjectNameCollision : NtStatus := 0xC0000035
def statusObjectPathNotFound : NtStatus := 0xC000003A
def statusInvalidImageFormat : NtStatus := 0xC000007B
def statusInsufficientResources : NtStatus := 0xC000009A

/-- `NT_SUCCESS`: the signed code is not negative. -/
def ntSuccess (s : NtStatus) : Bool := s < 0x80000000

end Nt
