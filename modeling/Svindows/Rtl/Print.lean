import Mathlib.Data.UInt
import Svindows.Lib.Sink
import Svindows.Lib.Terminated
import Svindows.Nt.Defs
import Svindows.Rtl.CString

/-!
# Formatted output

`rtl/print.c`, the formatter behind `KeLog`. Characters go into a sink that counts
all of them and stores those for which the buffer has room. The format is read
through an index, and a read behind its NUL is a failure. Signed sums wrap.
-/

namespace Rtl

open Nt Terminated

def ch (c : Char) : UInt8 := c.toNat.toUInt8

/-- `FMT_SINK`. -/
abbrev FmtSink := Sink UInt8

/-- The count is a `SIZE_T`. -/
def sinkPutc : FmtSink → UInt8 → FmtSink := Sink.putMod (2 ^ 64)

/-- The loops that store one character after the other. -/
def sinkText : FmtSink → List UInt8 → FmtSink := Sink.putAllMod (2 ^ 64)

/-- `for (int i = from; i < width; i++)` around a single character. -/
def sinkPad (s : FmtSink) (pad : UInt8) (start width : Int32) : FmtSink :=
  sinkText s (List.replicate (width.toInt - start.toInt).toNat pad)

def digitOf (uppercase : Bool) (d : Nat) : UInt8 :=
  if d < 10 then UInt8.ofNat (48 + d) else UInt8.ofNat ((if uppercase then 55 else 87) + d)

/-- The `do` loop of `sink_number`; `room` is what is left of `tmp`. -/
def numberLoop (base : Nat) (uppercase : Bool) : Nat → Nat → List UInt8
  | 0, _ => []
  | room + 1, value =>
    digitOf uppercase (value % base) ::
      if value / base = 0 then [] else numberLoop base uppercase room (value / base)

def sinkNumber (s : FmtSink) (value base : Nat) (uppercase : Bool) (width : Int32)
    (zeroPad negative : Bool) : FmtSink :=
  let tmp := numberLoop base uppercase 32 value
  let total := Int32.ofNat (tmp.length + if negative then 1 else 0)
  let s :=
    if !zeroPad then
      let s := sinkPad s (ch ' ') total width
      if negative then sinkPutc s (ch '-') else s
    else
      let s := if negative then sinkPutc s (ch '-') else s
      sinkPad s (ch '0') total width
  sinkText s tmp.reverse

/-- A slot of the `va_list`: its word, and the string there if the word is a pointer to one. -/
structure VaArg where
  word : UInt64
  text : CString

/-- `LONGLONG`, `long` (64 bits in the kernel) and `int`. -/
def signedArg (longness : Nat) (a : VaArg) : Int :=
  if 2 ≤ longness then a.word.toInt64.toInt
  else if longness = 1 then a.word.toInt64.toInt
  else a.word.toUInt32.toInt32.toInt

def unsignedArg (longness : Nat) (a : VaArg) : Nat :=
  if 2 ≤ longness then a.word.toNat
  else if longness = 1 then a.word.toNat
  else a.word.toUInt32.toNat

def flagLoop (fmt : List UInt8) : Nat → Nat → Bool → Bool → Option (Nat × Bool × Bool)
  | 0, _, _, _ => none
  | fuel + 1, p, zeroPad, left => do
    let c ← unit fmt p
    if c = ch '0' then flagLoop fmt fuel (p + 1) true left
    else if c = ch '-' then flagLoop fmt fuel (p + 1) zeroPad true
    else some (p, zeroPad, left)

def widthLoop (fmt : List UInt8) : Nat → Nat → Int32 → Option (Nat × Int32)
  | 0, _, _ => none
  | fuel + 1, p, width => do
    let c ← unit fmt p
    if ch '0' ≤ c ∧ c ≤ ch '9' then
      widthLoop fmt fuel (p + 1) (width * 10 + Int32.ofNat (c.toNat - 48))
    else some (p, width)

def longLoop (fmt : List UInt8) : Nat → Nat → Nat → Option (Nat × Nat)
  | 0, _, _ => none
  | fuel + 1, p, longness => do
    let c ← unit fmt p
    if c = ch 'l' then longLoop fmt fuel (p + 1) (longness + 1) else some (p, longness)

def lengthModifier (fmt : List UInt8) (fuel p : Nat) : Option (Nat × Nat) := do
  let c ← unit fmt p
  if c = ch 'z' then some (p + 1, 2) else longLoop fmt fuel p 0

def sinkString (s : FmtSink) (a : VaArg) (left : Bool) (width : Int32) : FmtSink :=
  let str := if a.word = 0 then (CString.lit "(null)").bytes else a.text.bytes
  let len := Int32.ofNat str.length
  let s := if !left then sinkPad s (ch ' ') len width else s
  let s := sinkText s str
  if left then sinkPad s (ch ' ') len width else s

def sinkSigned (s : FmtSink) (a : VaArg) (longness : Nat) (width : Int32) (zeroPad : Bool) :
    FmtSink :=
  let v := signedArg longness a
  let neg := decide (v < 0)
  let mag := if neg then (-(v + 1)).toNat + 1 else v.toNat
  sinkNumber s mag 10 false width zeroPad neg

def sinkUnsigned (s : FmtSink) (a : VaArg) (longness base : Nat) (uppercase : Bool)
    (width : Int32) (zeroPad : Bool) : FmtSink :=
  sinkNumber s (unsignedArg longness a) base uppercase width zeroPad false

def sinkPointer (s : FmtSink) (a : VaArg) : FmtSink :=
  sinkNumber (sinkPutc (sinkPutc s (ch '0')) (ch 'x')) a.word.toNat 16 false 16 true false

/-- The `switch` on the character at `p`; the result is the sink, the next argument and `p`. -/
def conversion (va : Nat → VaArg) (s : FmtSink) (k p : Nat) (c : UInt8) (zeroPad left : Bool)
    (width : Int32) (longness : Nat) : FmtSink × Nat × Nat :=
  if c = ch '%' then (sinkPutc s (ch '%'), k, p)
  else if c = ch 'c' then (sinkPutc s (va k).word.toUInt8, k + 1, p)
  else if c = ch 's' then (sinkString s (va k) left width, k + 1, p)
  else if c = ch 'd' ∨ c = ch 'i' then (sinkSigned s (va k) longness width zeroPad, k + 1, p)
  else if c = ch 'u' then (sinkUnsigned s (va k) longness 10 false width zeroPad, k + 1, p)
  else if c = ch 'x' ∨ c = ch 'X' then
    (sinkUnsigned s (va k) longness 16 (c = ch 'X') width zeroPad, k + 1, p)
  else if c = ch 'b' then (sinkUnsigned s (va k) longness 2 false width zeroPad, k + 1, p)
  else if c = ch 'p' then (sinkPointer s (va k), k + 1, p)
  else if c = 0 then (s, k, p - 1)
  else (sinkPutc (sinkPutc s (ch '%')) c, k, p)

/-- The body of the main loop, at a character that is not NUL. -/
def formatTurn (fmt : List UInt8) (fuel : Nat) (va : Nat → VaArg) (s : FmtSink) (k p : Nat)
    (c : UInt8) : Option (FmtSink × Nat × Nat) :=
  if c ≠ ch '%' then some (sinkPutc s c, k, p)
  else do
    let (p, zeroPad, left) ← flagLoop fmt fuel (p + 1) false false
    let (p, width) ← widthLoop fmt fuel p 0
    let (p, longness) ← lengthModifier fmt fuel p
    let c ← unit fmt p
    some (conversion va s k p c zeroPad left width longness)

/-- The main loop from index `p` on. -/
def formatLoop (fmt : List UInt8) (va : Nat → VaArg) : Nat → FmtSink → Nat → Nat → Option FmtSink
  | 0, _, _, _ => none
  | fuel + 1, s, k, p => do
    let c ← unit fmt p
    if c = 0 then some s
    else
      let (s, k, p) ← formatTurn fmt (fmt.length + 1) va s k p c
      formatLoop fmt va fuel s k (p + 1)

/-- `RtlFormatV`: the value returned and the buffer it leaves. -/
def rtlFormatV (buffer : Nat → UInt8) (size : Nat) (fmt : CString) (va : Nat → VaArg) :
    Option (Int32 × (Nat → UInt8)) := do
  let s ← formatLoop fmt.bytes va (fmt.bytes.length + 1) ⟨buffer, size, 0⟩ 0 0
  some (Int32.ofNat s.count, s.close)

end Rtl
