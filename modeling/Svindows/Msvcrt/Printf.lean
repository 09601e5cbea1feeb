import Mathlib.Data.Nat.Digits.Defs
import Svindows.Rtl.Print

/-!
# Narrow formatters

`format` behind `printf` of msvcrt, and `wsprintfA` of kernel32, which is the same
function with its own copy of the number formatter: no width, no precision, and no
bound on the output. Whatever follows a `%` is passed over by the `p++` of the
loop, the NUL as well.
-/

namespace Msvcrt

open Rtl (ch CString VaArg)
open Terminated

section Digits

variable {α : Type} (digit : Nat → α) (base : Nat)

/-- The `while (v)` loop, with the room that is left in `tmp`. -/
def digitLoop : Nat → Nat → List α
  | 0, _ => []
  | room + 1, v => if v = 0 then [] else digit (v % base) :: digitLoop room (v / base)

/-- A number in a base, without leading zeros. -/
def numeral (n : Nat) : List α :=
  if n = 0 then [digit 0] else ((Nat.digits base n).map digit).reverse

theorem digitLoop_eq (big : 1 < base) {room v : Nat} (fits : v < base ^ room) :
    digitLoop digit base room v = (Nat.digits base v).map digit := by
  induction room generalizing v with
  | zero =>
    rw [Nat.pow_zero, Nat.lt_one_iff] at fits
    subst fits
    simp [digitLoop]
  | succ room ih =>
    rw [digitLoop]
    split_ifs with zero
    · simp [zero]
    · have lower : v / base < base ^ room := by
        rw [Nat.div_lt_iff_lt_mul (by omega), ← Nat.pow_succ]
        exact fits
      rw [ih lower, Nat.digits_def' big (Nat.pos_of_ne_zero zero), List.map_cons]

end Digits

/-- `out` and `o`; the overflow of an `int`, which C leaves undefined, is left out. -/
structure Output where
  out : Nat → UInt8
  o : Nat

namespace Output

/-- `out[o++] = c`. -/
def put (s : Output) (c : UInt8) : Output := ⟨Function.update s.out s.o c, s.o + 1⟩

def putAll (s : Output) (text : List UInt8) : Output := text.foldl put s

theorem putAll_append (s : Output) (text more : List UInt8) :
    putAll (putAll s text) more = putAll s (text ++ more) :=
  (List.foldl_append ..).symm

@[simp] theorem putAll_o (s : Output) (text : List UInt8) :
    (putAll s text).o = s.o + text.length := by
  induction text generalizing s with
  | nil => rfl
  | cons c text ih =>
    refine (ih (s.put c)).trans ?_
    rw [List.length_cons, Nat.add_comm text.length, ← Nat.add_assoc]
    rfl

theorem putAll_out (s : Output) (text : List UInt8) {i : Nat} (behind : s.o + text.length ≤ i) :
    (putAll s text).out i = s.out i := by
  induction text generalizing s with
  | nil => rfl
  | cons c text ih =>
    rw [List.length_cons] at behind
    have rest := ih (s := s.put c) (by show s.o + 1 + text.length ≤ i; omega)
    refine rest.trans (Function.update_of_ne ?_ ..)
    omega

end Output

/-- `'0' + d`, or `'a' + d - 10`. -/
def digitOf (d : Nat) : UInt8 := UInt8.ofNat (if d < 10 then 48 + d else 87 + d)

/-- `fmt_num` and `fmt_uint`: the characters put into `buf`. -/
def fmtNum (v : UInt64) (base : Nat) (isSigned : Bool) (sv : Int64) : List UInt8 :=
  let neg := isSigned && decide (sv < 0)
  let v := if isSigned then (if sv < 0 then (-sv).toUInt64 else sv.toUInt64) else v
  let tmp := (if v = 0 then [ch '0'] else []) ++ digitLoop digitOf base 24 v.toNat
  (if neg then [ch '-'] else []) ++ tmp.reverse

/-- `va_arg(ap, int)` and `va_arg(ap, unsigned)`, widened. -/
def intArg (a : VaArg) : Int64 := a.word.toUInt32.toInt32.toInt64

def unsignedArg (a : VaArg) : UInt64 := a.word.toUInt32.toUInt64

/-- The `switch` on the character behind a `%`, with the next argument. -/
def narrowSwitch (va : Nat → VaArg) (k : Nat) (c : UInt8) : List UInt8 × Nat :=
  if c = ch 'd' then (fmtNum 0 10 true (intArg (va k)), k + 1)
  else if c = ch 'u' then (fmtNum (unsignedArg (va k)) 10 false 0, k + 1)
  else if c = ch 'x' then (fmtNum (unsignedArg (va k)) 16 false 0, k + 1)
  else if c = ch 'p' then (ch '0' :: ch 'x' :: fmtNum (va k).word 16 false 0, k + 1)
  else if c = ch 's' then (if (va k).word = 0 then [] else (va k).text.bytes, k + 1)
  else if c = ch 'c' then ([(va k).word.toUInt8], k + 1)
  else if c = ch '%' then ([ch '%'], k)
  else ([ch '%', c], k)

/-- The loop over the format from index `p` on. -/
def narrowLoop (fmt : List UInt8) (va : Nat → VaArg) : Nat → Output → Nat → Nat → Option Output
  | 0, _, _, _ => none
  | fuel + 1, s, k, p => do
    let c ← unit fmt p
    if c = 0 then some s
    else if c ≠ ch '%' then narrowLoop fmt va fuel (s.put c) k (p + 1)
    else
      let c ← unit fmt (p + 1)
      let (text, k) := narrowSwitch va k c
      narrowLoop fmt va fuel (s.putAll text) k (p + 2)

/-- The value returned and what `out` points to afterwards. -/
def narrowFormat (out : Nat → UInt8) (fmt : CString) (va : Nat → VaArg) :
    Option (Nat × (Nat → UInt8)) := do
  let s ← narrowLoop fmt.bytes va (fmt.bytes.length + 2) ⟨out, 0⟩ 0 0
  some (s.o, Function.update s.out s.o 0)

def format : (Nat → UInt8) → CString → (Nat → VaArg) → Option (Nat × (Nat → UInt8)) := narrowFormat

/-- `wsprintfA` of kernel32. -/
def wsprintfA : (Nat → UInt8) → CString → (Nat → VaArg) → Option (Nat × (Nat → UInt8)) :=
  narrowFormat

/-- What `printf` returns, the memory from `buf` on, and what goes to standard output. -/
structure Printed where
  n : Nat
  memory : Nat → UInt8
  written : List UInt8

def bufSize : Nat := 512

/-- `printf`, from the memory in which `buf` has its place. -/
def printf (memory : Nat → UInt8) (fmt : CString) (va : Nat → VaArg) : Option Printed := do
  let (n, memory) ← format memory fmt va
  some ⟨n, memory, (List.range n).map memory⟩

end Msvcrt
