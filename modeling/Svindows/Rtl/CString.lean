import Mathlib.Data.List.TakeWhile

/-!
# C strings

A string of `char` is the list of its bytes before the NUL.
-/

namespace Rtl

/-- A C string, without the NUL that ends it. -/
@[ext]
structure CString where
  bytes : List UInt8
  noNul : 0 ∉ bytes
  deriving DecidableEq

namespace CString

/-- The bytes of a list up to the first NUL. -/
def ofBytes (bytes : List UInt8) : CString where
  bytes := bytes.takeWhile (· ≠ 0)
  noNul h := by simpa using List.mem_takeWhile_imp h

/-- A literal of the source. -/
def lit (s : String) : CString := ofBytes (s.toList.map fun c => c.toNat.toUInt8)

def take (s : CString) (n : Nat) : CString where
  bytes := s.bytes.take n
  noNul h := s.noNul (List.mem_of_mem_take h)

end CString

/-- ASCII lower case. -/
def toLower (c : UInt8) : UInt8 := if 65 ≤ c ∧ c ≤ 90 then c + 32 else c

end Rtl
