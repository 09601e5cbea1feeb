import Svindows.Rtl.Print

/-!
# Output that is cut off

Everything `RtlFormatV` writes goes through its sink one character at a time, and
nothing it does depends on what the sink holds. So the output is the same list of
characters for every buffer, and a buffer receives a beginning of it.
-/

namespace Rtl

open Nt Terminated

theorem sinkText_append (s : FmtSink) (out more : List UInt8) :
    sinkText (sinkText s out) more = sinkText s (out ++ more) :=
  Sink.putAllMod_append s out more

theorem sinkPutc_eq (s : FmtSink) (c : UInt8) : sinkPutc s c = sinkText s [c] := rfl

def padding (pad : UInt8) (start width : Int32) : List UInt8 :=
  List.replicate (width.toInt - start.toInt).toNat pad

/-- The characters of `sink_number`. -/
def numeral (value base : Nat) (uppercase : Bool) (width : Int32) (zeroPad negative : Bool) :
    List UInt8 :=
  let digits := numberLoop base uppercase 32 value
  let sign := if negative then [ch '-'] else []
  let total := Int32.ofNat (digits.length + if negative then 1 else 0)
  (if zeroPad then sign ++ padding (ch '0') total width
    else padding (ch ' ') total width ++ sign) ++ digits.reverse

theorem sinkNumber_eq (s : FmtSink) (value base : Nat) (uppercase : Bool) (width : Int32)
    (zeroPad negative : Bool) :
    sinkNumber s value base uppercase width zeroPad negative =
      sinkText s (numeral value base uppercase width zeroPad negative) := by
  cases zeroPad <;> cases negative <;>
    simp [sinkNumber, numeral, sinkPad, padding, sinkPutc_eq, sinkText_append]

/-- The characters of `%s`. -/
def stringText (a : VaArg) (left : Bool) (width : Int32) : List UInt8 :=
  let str := if a.word = 0 then (CString.lit "(null)").bytes else a.text.bytes
  let pad := padding (ch ' ') (Int32.ofNat str.length) width
  if left then str ++ pad else pad ++ str

theorem sinkString_eq (s : FmtSink) (a : VaArg) (left : Bool) (width : Int32) :
    sinkString s a left width = sinkText s (stringText a left width) := by
  cases left <;> simp [sinkString, stringText, sinkPad, padding, sinkText_append]

theorem sinkPointer_eq (s : FmtSink) (a : VaArg) :
    sinkPointer s a =
      sinkText s (ch '0' :: ch 'x' :: numeral a.word.toNat 16 false 16 true false) := by
  rw [sinkPointer, sinkNumber_eq, sinkPutc_eq, sinkPutc_eq, sinkText_append, sinkText_append]
  rfl

/-- The characters of a conversion. -/
def conversionText (a : VaArg) (c : UInt8) (zeroPad left : Bool) (width : Int32) (longness : Nat) :
    List UInt8 :=
  let v := signedArg longness a
  let neg := decide (v < 0)
  let mag := if neg then (-(v + 1)).toNat + 1 else v.toNat
  if c = ch '%' then [ch '%']
  else if c = ch 'c' then [a.word.toUInt8]
  else if c = ch 's' then stringText a left width
  else if c = ch 'd' ∨ c = ch 'i' then numeral mag 10 false width zeroPad neg
  else if c = ch 'u' then numeral (unsignedArg longness a) 10 false width zeroPad false
  else if c = ch 'x' ∨ c = ch 'X' then
    numeral (unsignedArg longness a) 16 (c = ch 'X') width zeroPad false
  else if c = ch 'b' then numeral (unsignedArg longness a) 2 false width zeroPad false
  else if c = ch 'p' then ch '0' :: ch 'x' :: numeral a.word.toNat 16 false 16 true false
  else if c = 0 then []
  else [ch '%', c]

theorem conversion_sink (va : Nat → VaArg) (s : FmtSink) (k p : Nat) (c : UInt8)
    (zeroPad left : Bool) (width : Int32) (longness : Nat) :
    (conversion va s k p c zeroPad left width longness).1 =
      sinkText s (conversionText (va k) c zeroPad left width longness) := by
  simp only [conversion, conversionText, apply_ite Prod.fst, apply_ite (sinkText s),
    sinkString_eq, sinkSigned, sinkUnsigned, sinkNumber_eq, sinkPointer_eq, sinkPutc_eq,
    sinkText_append]
  rfl

/-- Where it goes on does not depend on the sink. -/
theorem conversion_rest (va : Nat → VaArg) (s s' : FmtSink) (k p : Nat) (c : UInt8)
    (zeroPad left : Bool) (width : Int32) (longness : Nat) :
    (conversion va s k p c zeroPad left width longness).2 =
      (conversion va s' k p c zeroPad left width longness).2 := by
  simp only [conversion, apply_ite Prod.snd]

theorem conversion_place (va : Nat → VaArg) (s : FmtSink) (k p : Nat) (c : UInt8)
    (zeroPad left : Bool) (width : Int32) (longness : Nat) :
    (conversion va s k p c zeroPad left width longness).2.2 = if c = 0 then p - 1 else p := by
  by_cases nul : c = 0
  · subst nul
    rfl
  · rw [if_neg nul]
    simp only [conversion, if_neg nul, apply_ite Prod.snd, ite_self]

variable {fmt : List UInt8}

theorem flagLoop_some (fuel : Nat) {p : Nat} (inside : p ≤ fmt.length)
    (enough : fmt.length < p + fuel) (zeroPad left : Bool) :
    ∃ p' zeroPad' left', flagLoop fmt fuel p zeroPad left =
      some (p', zeroPad', left') ∧ p ≤ p' ∧ p' ≤ fmt.length := by
  induction fuel generalizing p zeroPad left with
  | zero => omega
  | succ fuel ih =>
    obtain ⟨c, read⟩ := exists_unit inside
    simp only [flagLoop, read, Option.bind_eq_bind, Option.bind_some]
    split_ifs with zero minus
    · have next := unit_lt read (by rw [zero]; decide)
      obtain ⟨p', z, l, run, low, high⟩ := ih (p := p + 1) next (by omega) true left
      exact ⟨p', z, l, run, by omega, high⟩
    · have next := unit_lt read (by rw [minus]; decide)
      obtain ⟨p', z, l, run, low, high⟩ := ih (p := p + 1) next (by omega) zeroPad true
      exact ⟨p', z, l, run, by omega, high⟩
    · exact ⟨p, zeroPad, left, rfl, le_rfl, inside⟩

theorem widthLoop_some (fuel : Nat) {p : Nat} (inside : p ≤ fmt.length)
    (enough : fmt.length < p + fuel) (width : Int32) :
    ∃ p' width', widthLoop fmt fuel p width = some (p', width') ∧ p ≤ p' ∧
      p' ≤ fmt.length := by
  induction fuel generalizing p width with
  | zero => omega
  | succ fuel ih =>
    obtain ⟨c, read⟩ := exists_unit inside
    simp only [widthLoop, read, Option.bind_eq_bind, Option.bind_some]
    split_ifs with digit
    · have next := unit_lt read (by rintro rfl; exact absurd digit.1 (by decide))
      obtain ⟨p', w, run, low, high⟩ := ih (p := p + 1) next (by omega) _
      exact ⟨p', w, run, by omega, high⟩
    · exact ⟨p, width, rfl, le_rfl, inside⟩

theorem longLoop_some (fuel : Nat) {p : Nat} (inside : p ≤ fmt.length)
    (enough : fmt.length < p + fuel) (longness : Nat) :
    ∃ p' longness', longLoop fmt fuel p longness = some (p', longness') ∧
      p ≤ p' ∧ p' ≤ fmt.length := by
  induction fuel generalizing p longness with
  | zero => omega
  | succ fuel ih =>
    obtain ⟨c, read⟩ := exists_unit inside
    simp only [longLoop, read, Option.bind_eq_bind, Option.bind_some]
    split_ifs with long
    · have next := unit_lt read (by rw [long]; decide)
      obtain ⟨p', n, run, low, high⟩ := ih (p := p + 1) next (by omega) _
      exact ⟨p', n, run, by omega, high⟩
    · exact ⟨p, longness, rfl, le_rfl, inside⟩

theorem lengthModifier_some (fuel : Nat) {p : Nat} (inside : p ≤ fmt.length)
    (enough : fmt.length < p + fuel) : ∃ p' longness, lengthModifier fmt fuel p =
      some (p', longness) ∧ p ≤ p' ∧ p' ≤ fmt.length := by
  obtain ⟨c, read⟩ := exists_unit inside
  simp only [lengthModifier, read, Option.bind_eq_bind, Option.bind_some]
  split_ifs with size
  · have next := unit_lt read (by rw [size]; decide)
    exact ⟨p + 1, 2, rfl, by omega, next⟩
  · exact longLoop_some fuel inside enough 0

/-- The characters of a turn, the next argument and the index it leaves. -/
def turnText (fmt : List UInt8) (fuel : Nat) (va : Nat → VaArg) (k p : Nat) (c : UInt8) :
    Option (List UInt8 × Nat × Nat) :=
  if c ≠ ch '%' then some ([c], k, p)
  else do
    let (p, zeroPad, left) ← flagLoop fmt fuel (p + 1) false false
    let (p, width) ← widthLoop fmt fuel p 0
    let (p, longness) ← lengthModifier fmt fuel p
    let c ← unit fmt p
    some (conversionText (va k) c zeroPad left width longness,
      (conversion va ⟨fun _ => 0, 0, 0⟩ k p c zeroPad left width longness).2)

theorem formatTurn_eq (fuel : Nat) (va : Nat → VaArg) (s : FmtSink) (k p : Nat) (c : UInt8) :
    formatTurn fmt fuel va s k p c =
      (turnText fmt fuel va k p c).map fun r => (sinkText s r.1, r.2) := by
  simp only [formatTurn, turnText]
  split_ifs with plain
  · rfl
  · simp only [Option.bind_eq_bind]
    cases flagLoop fmt fuel (p + 1) false false with
    | none => rfl
    | some flags =>
      simp only [Option.bind_some]
      cases widthLoop fmt fuel flags.1 0 with
      | none => rfl
      | some width =>
        simp only [Option.bind_some]
        cases lengthModifier fmt fuel width.1 with
        | none => rfl
        | some modifier =>
          simp only [Option.bind_some]
          cases unit fmt modifier.1 with
          | none => rfl
          | some c' =>
            refine congrArg some (Prod.ext ?_ ?_)
            · exact conversion_sink ..
            · exact conversion_rest ..

/-- A turn stays in the format. -/
theorem turnText_some (fuel : Nat) {p : Nat} {c : UInt8} (read : unit fmt p = some c) (nz : c ≠ 0)
    (enough : fmt.length < p + fuel) (va : Nat → VaArg) (k : Nat) :
    ∃ out k' p', turnText fmt fuel va k p c = some (out, k', p') ∧ p ≤ p' ∧ p' < fmt.length := by
  have start := unit_lt read nz
  simp only [turnText]
  split_ifs with plain
  · exact ⟨[c], k, p, rfl, le_rfl, start⟩
  · obtain ⟨p₁, zeroPad, left, flags, low₁, high₁⟩ :=
      flagLoop_some fuel (p := p + 1) start (by omega) false false
    obtain ⟨p₂, width, widths, low₂, high₂⟩ :=
      widthLoop_some fuel high₁ (by omega) 0
    obtain ⟨p₃, longness, modifier, low₃, high₃⟩ :=
      lengthModifier_some fuel high₂ (by omega)
    obtain ⟨c', read'⟩ := exists_unit high₃
    simp only [flags, widths, modifier, read', Option.bind_eq_bind, Option.bind_some]
    refine ⟨_, _, _, rfl, ?_, ?_⟩
    · rw [conversion_place]
      split_ifs <;> omega
    · rw [conversion_place]
      split_ifs with nul
      · omega
      · exact unit_lt read' nul

/-- The characters of the main loop from index `p` on. -/
def loopText (fmt : List UInt8) (va : Nat → VaArg) : Nat → Nat → Nat → Option (List UInt8)
  | 0, _, _ => none
  | fuel + 1, k, p => do
    let c ← unit fmt p
    if c = 0 then some []
    else
      let (out, k, p) ← turnText fmt (fmt.length + 1) va k p c
      let more ← loopText fmt va fuel k (p + 1)
      some (out ++ more)

theorem formatLoop_eq (va : Nat → VaArg) (fuel : Nat) (s : FmtSink) (k p : Nat) :
    formatLoop fmt va fuel s k p = (loopText fmt va fuel k p).map (sinkText s) := by
  induction fuel generalizing s k p with
  | zero => rfl
  | succ fuel ih =>
    simp only [formatLoop, loopText, formatTurn_eq, ih, Option.bind_eq_bind, Option.map_bind]
    refine congrArg _ (funext fun c => ?_)
    rw [Function.comp_apply]
    split_ifs with nul
    · rfl
    · cases turnText fmt (fmt.length + 1) va k p c with
      | none => rfl
      | some r =>
        simp only [Option.map_some, Option.bind_some]
        cases loopText fmt va fuel r.2.1 (r.2.2 + 1) with
        | none => rfl
        | some more => exact congrArg some (sinkText_append ..)

theorem loopText_some (fuel : Nat) {p : Nat} (inside : p ≤ fmt.length)
    (enough : fmt.length < p + fuel) (va : Nat → VaArg) (k : Nat) :
    ∃ out, loopText fmt va fuel k p = some out := by
  induction fuel generalizing k p with
  | zero => omega
  | succ fuel ih =>
    obtain ⟨c, read⟩ := exists_unit inside
    simp only [loopText, read, Option.bind_eq_bind, Option.bind_some]
    split_ifs with nul
    · exact ⟨[], rfl⟩
    · obtain ⟨out, k', p', turn, low, high⟩ :=
        turnText_some (fmt.length + 1) read nul (by omega) va k
      obtain ⟨more, rest⟩ := ih (p := p' + 1) high (by omega) k'
      rw [turn, Option.bind_some, rest]
      exact ⟨out ++ more, rfl⟩

/-- All characters of the output. -/
def fullOutput (fmt : CString) (va : Nat → VaArg) : List UInt8 :=
  (loopText fmt.bytes va (fmt.bytes.length + 1) 0 0).getD []

/-- The call never reads behind the NUL of the format, and returns. -/
theorem rtlFormatV_truncates (fmt : CString) (va : Nat → VaArg)
    (short : (fullOutput fmt va).length < 2 ^ 31) (buffer : Nat → UInt8) (size : Nat) :
    ∃ n filled, rtlFormatV buffer size fmt va = some (n, filled) ∧
      n.toInt = (fullOutput fmt va).length ∧
      Sink.Truncated (fullOutput fmt va) size buffer filled := by
  obtain ⟨out, text⟩ := loopText_some (fmt.bytes.length + 1) (Nat.zero_le fmt.bytes.length)
    (by omega) va 0
  have full : fullOutput fmt va = out := by rw [fullOutput, text, Option.getD_some]
  rw [full] at short ⊢
  have plain : sinkText ⟨buffer, size, 0⟩ out = Sink.putAll ⟨buffer, size, 0⟩ out := by
    refine Sink.putAllMod_eq ?_
    show 0 + out.length < 2 ^ 64
    omega
  refine ⟨Int32.ofNat out.length, (Sink.putAll ⟨buffer, size, 0⟩ out).close, ?_,
    Int32.toInt_ofNat_of_lt short, Sink.truncated_close buffer size out⟩
  simp only [rtlFormatV, formatLoop_eq, text, Option.map_some, Option.bind_eq_bind,
    Option.bind_some, plain, Sink.putAll_count, Nat.zero_add]

/-- An argument list that holds 7 throughout. -/
def sevens (_ : Nat) : VaArg := ⟨7, .lit "seven"⟩

theorem fullOutput_sevens :
    fullOutput (.lit "%03u %s%") sevens = (CString.lit "007 seven").bytes := by
  decide +kernel

theorem rtlFormatV_truncates_sevens : ∃ n filled,
    rtlFormatV (fun _ => 0xFF) 5 (.lit "%03u %s%") sevens = some (n, filled) ∧
      n.toInt = (fullOutput (.lit "%03u %s%") sevens).length ∧
      Sink.Truncated (fullOutput (.lit "%03u %s%") sevens) 5 (fun _ => 0xFF) filled :=
  rtlFormatV_truncates _ _ (by rw [fullOutput_sevens]; decide) _ _

end Rtl
