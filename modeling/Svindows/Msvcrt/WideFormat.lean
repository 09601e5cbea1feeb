import Svindows.Lib.Sink
import Svindows.Msvcrt.Printf

/-!
# `_vsnwprintf`

The wide formatter of msvcrt: flags, width, precision, length modifier and a
conversion character. Sums of `int` wrap.
-/

namespace Msvcrt

open Terminated

def wch (c : Char) : UInt16 := c.toNat.toUInt16

/-- A string of `WCHAR`, without the NUL that ends it. -/
structure WideString where
  units : List UInt16
  noNul : 0 ∉ units

/-- A literal of the source. -/
def WideString.lit (s : String) : WideString where
  units := (s.toList.map wch).takeWhile (· ≠ 0)
  noNul h := by simpa using List.mem_takeWhile_imp h

/-- A slot of the `va_list`: its word, and the wide string there if the word is a pointer to one. -/
structure WideArg where
  word : UInt64
  text : WideString

namespace WideArg

def int (a : WideArg) : Int32 := a.word.toUInt32.toInt32

def str (a : WideArg) : List UInt16 := if a.word = 0 then [] else a.text.units

end WideArg

structure Flags where
  pad : UInt16
  leftAlign : Bool
  forceSign : Bool
  spaceSign : Bool

def Flags.none : Flags := ⟨wch ' ', false, false, false⟩

/-- The flag character `c`, if it is one. -/
def Flags.set (f : Flags) (c : UInt16) : Option Flags :=
  if c = wch '-' then some { f with leftAlign := true }
  else if c = wch '+' then some { f with forceSign := true }
  else if c = wch ' ' then some { f with spaceSign := true }
  else if c = wch '#' then some f
  else if c = wch '0' then some { f with pad := wch '0' }
  else Option.none

inductive Length where
  | default
  | long
  | llong
  deriving DecidableEq

structure Directive where
  flags : Flags
  width : Int32
  precision : Int32
  length : Length

/-- The `for (;;)` loop. -/
def flagLoop (fmt : List UInt16) : Nat → Nat → Flags → Option (Nat × Flags)
  | 0, _, _ => none
  | fuel + 1, p, f => do
    let c ← unit fmt p
    match f.set c with
    | some f => flagLoop fmt fuel (p + 1) f
    | none => some (p, f)

def isDigit (c : UInt16) : Bool := wch '0' ≤ c && c ≤ wch '9'

def addDigit (v : Int32) (c : UInt16) : Int32 := v * 10 + Int32.ofNat (c.toNat - 48)

/-- The loops that read `width` and `precision`. -/
def numberLoop (fmt : List UInt16) : Nat → Nat → Int32 → Option (Nat × Int32)
  | 0, _, _ => none
  | fuel + 1, p, v => do
    let c ← unit fmt p
    if isDigit c then numberLoop fmt fuel (p + 1) (addDigit v c) else some (p, v)

/-- `*` takes the width from the arguments, and a negative one aligns to the left. -/
def starWidth (f : Flags) (width : Int32) : Flags × Int32 :=
  if width < 0 then ({ f with leftAlign := true }, -width) else (f, width)

def scanWidth (fmt : List UInt16) (va : Nat → WideArg) (fuel k p : Nat) (f : Flags) :
    Option (Nat × Nat × Flags × Int32) := do
  let c ← unit fmt p
  if c = wch '*' then some (k + 1, p + 1, starWidth f (va k).int)
  else
    let (p, width) ← numberLoop fmt fuel p 0
    some (k, p, f, width)

def scanPrecision (fmt : List UInt16) (va : Nat → WideArg) (fuel k p : Nat) :
    Option (Nat × Nat × Int32) := do
  let c ← unit fmt p
  if c = wch '.' then
    let c ← unit fmt (p + 1)
    if c = wch '*' then some (k + 1, p + 2, (va k).int)
    else
      let (p, precision) ← numberLoop fmt fuel (p + 1) 0
      some (k, p, precision)
  else some (k, p, -1)

def scanLength (fmt : List UInt16) (p : Nat) : Option (Nat × Length) := do
  let c ← unit fmt p
  if c = wch 'l' then
    let c ← unit fmt (p + 1)
    if c = wch 'l' then some (p + 2, .llong) else some (p + 1, .long)
  else if c = wch 'I' then
    let c ← unit fmt (p + 1)
    if c = wch '6' then
      let c ← unit fmt (p + 2)
      if c = wch '4' then some (p + 3, .llong) else some (p, .default)
    else some (p, .default)
  else some (p, .default)

/-- Everything up to the conversion character. -/
def scan (fmt : List UInt16) (va : Nat → WideArg) (fuel k p : Nat) :
    Option (Directive × Nat × Nat) := do
  let (p, flags) ← flagLoop fmt fuel p .none
  let (k, p, flags, width) ← scanWidth fmt va fuel k p flags
  let (k, p, precision) ← scanPrecision fmt va fuel k p
  let (p, length) ← scanLength fmt p
  some (⟨flags, width, precision, length⟩, k, p)

/-- `while (width-- > total)` around a single unit. -/
def padUnits (unit : UInt16) (width : Int32) (total : Int32) : List UInt16 :=
  List.replicate (width.toInt - total.toInt).toNat unit

def stringUnits (d : Directive) (a : WideArg) : List UInt16 :=
  let s := a.str
  let len := if 0 ≤ d.precision ∧ d.precision.toNatClampNeg < s.length then
    d.precision.toNatClampNeg else s.length
  (if !d.flags.leftAlign then padUnits d.flags.pad d.width (Int32.ofNat len) else []) ++
    s.take len ++
    (if d.flags.leftAlign then padUnits (wch ' ') d.width (Int32.ofNat len) else [])

/-- `va_arg` at the type that the length modifier asks for; `long` has 32 bits. -/
def signedValue (length : Length) (a : WideArg) : Int64 :=
  if length = .llong then a.word.toInt64 else a.word.toUInt32.toInt32.toInt64

def unsignedValue (length : Length) (a : WideArg) : UInt64 :=
  if length = .llong then a.word else a.word.toUInt32.toUInt64

def wideDigit (upper : Bool) (d : Nat) : UInt16 :=
  UInt16.ofNat (if d < 10 then 48 + d else (if upper then 65 else 97) + d - 10)

/-- The `do` loop, with the room that is left in `digits`. -/
def wideDigitLoop (upper : Bool) (base : Nat) : Nat → Nat → List UInt16
  | 0, _ => []
  | room + 1, value =>
    wideDigit upper (value % base) ::
      if value / base = 0 then [] else wideDigitLoop upper base room (value / base)

def numberUnits (d : Directive) (upper : Bool) (base : Nat) (negative : Bool) (value : UInt64) :
    List UInt16 :=
  let digits := wideDigitLoop upper base 24 value.toNat
  let sign := if negative then [wch '-'] else if d.flags.forceSign then [wch '+']
    else if d.flags.spaceSign then [wch ' '] else []
  let total := Int32.ofNat (digits.length + sign.length)
  let (front, sign) :=
    if d.flags.pad = wch '0' ∧ !d.flags.leftAlign then (sign, []) else ([], sign)
  front ++
    (if !d.flags.leftAlign then padUnits d.flags.pad d.width total else []) ++
    sign ++ digits.reverse ++
    (if d.flags.leftAlign then padUnits (wch ' ') d.width total else [])

def wideConversion (d : Directive) (va : Nat → WideArg) (k : Nat) (c : UInt16) :
    List UInt16 × Nat :=
  if c = wch 's' then (stringUnits d (va k), k + 1)
  else if c = wch 'c' then ([(va k).word.toUInt16], k + 1)
  else if c = wch 'd' ∨ c = wch 'i' then
    let v := signedValue d.length (va k)
    (numberUnits d false 10 (v < 0) (if v < 0 then (-v).toUInt64 else v.toUInt64), k + 1)
  else if c = wch 'u' ∨ c = wch 'x' ∨ c = wch 'X' then
    let base := if c = wch 'x' ∨ c = wch 'X' then 16 else 10
    (numberUnits d (c = wch 'X') base false (unsignedValue d.length (va k)), k + 1)
  else ([wch '?'], k)

/-- `if (n + 1 < count) out[n] = c; n++;` on a `SIZE_T`. -/
def put : Sink UInt16 → UInt16 → Sink UInt16 := Sink.putMod (2 ^ 64)

def putAll : Sink UInt16 → List UInt16 → Sink UInt16 := Sink.putAllMod (2 ^ 64)

/-- The loop over the format from index `p` on. -/
def wideLoop (fmt : List UInt16) (va : Nat → WideArg) :
    Nat → Sink UInt16 → Nat → Nat → Option (Sink UInt16)
  | 0, _, _, _ => none
  | fuel + 1, s, k, p => do
    let c ← unit fmt p
    if c = 0 then some s
    else if c ≠ wch '%' then wideLoop fmt va fuel (put s c) k (p + 1)
    else
      let c ← unit fmt (p + 1)
      if c = wch '%' then wideLoop fmt va fuel (put s (wch '%')) k (p + 2)
      else
        let (d, k, p) ← scan fmt va (fmt.length + 1) k (p + 1)
        let c ← unit fmt p
        let (text, k) := wideConversion d va k c
        wideLoop fmt va fuel (putAll s text) k (p + 1)

/-- The value returned and what `out` points to afterwards. -/
def vsnwprintf (out : Nat → UInt16) (count : UInt64) (fmt : WideString) (va : Nat → WideArg) :
    Option (Int32 × (Nat → UInt16)) := do
  let s ← wideLoop fmt.units va (fmt.units.length + 1) ⟨out, count.toNat, 0⟩ 0 0
  some (if s.count < count.toNat then Int32.ofNat s.count else -1, s.close)

end Msvcrt
