import Mathlib.Tactic.IntervalCases
import Mathlib.Tactic.Ring
import Svindows.Rtl.Truncation

/-!
# Numerals

What the integer conversions emit is read back: digits in a base, without
leading zeros, behind a sign and padding. `sink_number` keeps at most 32 digits,
which is short of a 64-bit value in base 2, and `%p` has a width of its own.
-/

namespace Rtl

open Nt Terminated

/-- The value of a digit character; other characters have none. -/
def digitValue (c : UInt8) : Option Nat :=
  if ch '0' ≤ c ∧ c ≤ ch '9' then some (c.toNat - 48)
  else if ch 'a' ≤ c ∧ c ≤ ch 'f' then some (c.toNat - 87)
  else if ch 'A' ≤ c ∧ c ≤ ch 'F' then some (c.toNat - 55)
  else none

/-- The number that the digits of a text stand for; other characters are passed over. -/
def readDigits (base : Nat) (text : List UInt8) : Nat :=
  (text.filterMap digitValue).foldl (fun n d => n * base + d) 0

/-- The digits are those of `n` in the base, without leading zeros. -/
structure Reads (base : Nat) (digits : List UInt8) (n : Nat) : Prop where
  digit : ∀ c ∈ digits, ∃ d < base, digitValue c = some d
  nonempty : digits ≠ []
  noZeros : digits.head? = some (ch '0') → digits = [ch '0']
  value : readDigits base digits = n

/-- `text` denotes `v`: a sign for a negative number, digits, and padding up to the width. -/
def Denotes (base width : Nat) (zeroPad : Bool) (text : List UInt8) (v : Int) : Prop :=
  ∃ pad digits, Reads base digits v.natAbs ∧ width ≤ text.length ∧
    (0 < pad → text.length = width) ∧
    text = if zeroPad then (if v < 0 then [ch '-'] else []) ++ List.replicate pad (ch '0') ++ digits
      else List.replicate pad (ch ' ') ++ (if v < 0 then [ch '-'] else []) ++ digits

theorem digitValue_digitOf (uppercase : Bool) {d : Nat} (small : d < 16) :
    digitValue (digitOf uppercase d) = some d := by
  interval_cases d <;> cases uppercase <;> decide

theorem readDigits_append (base : Nat) (pre digits : List UInt8)
    (none_ : ∀ c ∈ pre, digitValue c = none ∨ digitValue c = some 0) :
    readDigits base (pre ++ digits) = readDigits base digits := by
  induction pre with
  | nil => rfl
  | cons c pre ih =>
    have rest := ih fun c' member => none_ c' (List.mem_cons_of_mem c member)
    rcases none_ c List.mem_cons_self with nothing | zero
    · rw [← rest]
      simp [readDigits, nothing]
    · rw [← rest]
      simp [readDigits, zero]

section Digits

variable {base : Nat} {uppercase : Bool}

theorem numberLoop_ne_nil (room value : Nat) : numberLoop base uppercase (room + 1) value ≠ [] := by
  simp [numberLoop]

theorem numberLoop_digit (small : base ≤ 16) (some_ : 0 < base) {room value : Nat} {c : UInt8}
    (member : c ∈ numberLoop base uppercase room value) :
    ∃ d < base, digitValue c = some d := by
  induction room generalizing value with
  | zero => cases member
  | succ room ih =>
    rw [numberLoop] at member
    rcases List.mem_cons.mp member with rfl | later
    · have below := Nat.mod_lt value some_
      exact ⟨value % base, below, digitValue_digitOf uppercase (by omega)⟩
    · split_ifs at later
      · cases later
      · exact ih later

theorem numberLoop_value (uppercase : Bool) (small : base ≤ 16) (some_ : 0 < base)
    (room value : Nat) :
    readDigits base (numberLoop base uppercase room value).reverse = value % base ^ room := by
  induction room generalizing value with
  | zero => simp [numberLoop, readDigits, Nat.mod_one]
  | succ room ih =>
    have below := Nat.mod_lt value some_
    have digit := digitValue_digitOf uppercase (by omega : value % base < 16)
    have rest : readDigits base (if value / base = 0 then []
        else numberLoop base uppercase room (value / base)).reverse =
          value / base % base ^ room := by
      split_ifs with done
      · simp [readDigits, done]
      · exact ih (value / base)
    rw [numberLoop, List.reverse_cons, readDigits, List.filterMap_append, List.foldl_append]
    simp only [List.filterMap_cons, digit, List.filterMap_nil, List.foldl_cons, List.foldl_nil]
    rw [← readDigits, rest, Nat.pow_succ', Nat.mod_mul]
    ring

theorem numberLoop_length {room value n : Nat} (fits : value < base ^ n) (some_ : 0 < n)
    (big : 0 < base) : (numberLoop base uppercase room value).length ≤ n := by
  induction room generalizing value n with
  | zero => exact Nat.zero_le _
  | succ room ih =>
    rw [numberLoop, List.length_cons]
    split_ifs with done
    · exact some_
    · obtain ⟨n, rfl⟩ : ∃ m, n = m + 1 := ⟨n - 1, by omega⟩
      have lower : value / base < base ^ n := by
        rw [Nat.div_lt_iff_lt_mul big, ← Nat.pow_succ]
        exact fits
      have positive : 0 < n := by
        rcases Nat.eq_zero_or_pos n with rfl | positive
        · exact absurd (Nat.lt_one_iff.mp lower) done
        · exact positive
      exact Nat.succ_le_succ (ih lower positive)

theorem numberLoop_noZeros (small : base ≤ 16) (big : 1 < base) {room value : Nat}
    (fits : value < base ^ room)
    (zero : (numberLoop base uppercase room value).reverse.head? = some (ch '0')) :
    (numberLoop base uppercase room value).reverse = [ch '0'] := by
  have positive : 0 < base := by omega
  induction room generalizing value with
  | zero => simp [numberLoop] at zero
  | succ room ih =>
    have below := Nat.mod_lt value positive
    rw [numberLoop, List.reverse_cons] at zero ⊢
    split_ifs at zero ⊢ with done
    · simpa using zero
    · exfalso
      have lower : value / base < base ^ room := by
        rw [Nat.div_lt_iff_lt_mul positive, ← Nat.pow_succ]
        exact fits
      have room_ : room ≠ 0 := by
        rintro rfl
        exact done (Nat.lt_one_iff.mp lower)
      obtain ⟨m, rfl⟩ := Nat.exists_eq_succ_of_ne_zero room_
      have nonempty : (numberLoop base uppercase (m + 1) (value / base)).reverse ≠ [] := by
        simpa using numberLoop_ne_nil m (value / base)
      rw [List.head?_append_of_ne_nil _ nonempty] at zero
      have only := ih lower zero
      have value_ := numberLoop_value uppercase small positive (m + 1) (value / base)
      rw [only, Nat.mod_eq_of_lt lower] at value_
      have zero_ : readDigits base [ch '0'] = 0 := by
        simp [readDigits, show digitValue (ch '0') = some 0 by decide]
      exact done (value_.symm.trans zero_)

theorem numberLoop_reads (uppercase : Bool) (small : base ≤ 16) (big : 1 < base) {room value : Nat}
    (fits : value < base ^ (room + 1)) :
    Reads base (numberLoop base uppercase (room + 1) value).reverse value where
  digit := fun _ member => numberLoop_digit small (by omega) (List.mem_reverse.mp member)
  nonempty := by simpa using numberLoop_ne_nil room value
  noZeros := numberLoop_noZeros small big fits
  value := (numberLoop_value uppercase small (by omega) _ _).trans (Nat.mod_eq_of_lt fits)

theorem numberLoop_length_room (base : Nat) (uppercase : Bool) (room value : Nat) :
    (numberLoop base uppercase room value).length ≤ room := by
  induction room generalizing value with
  | zero => exact le_rfl
  | succ room ih =>
    rw [numberLoop, List.length_cons]
    split_ifs
    · exact Nat.succ_le_succ (Nat.zero_le _)
    · exact Nat.succ_le_succ (ih _)

/-- What stands before the digits does not count. -/
theorem readDigits_numeral (base pad value : Nat) (zeroPad negative : Bool) (digits : List UInt8)
    (reads : readDigits base digits = value) :
    readDigits base (if zeroPad then
        (if negative then [ch '-'] else []) ++ List.replicate pad (ch '0') ++ digits
      else List.replicate pad (ch ' ') ++ (if negative then [ch '-'] else []) ++ digits) =
        value := by
  have minus : digitValue (ch '-') = none := by decide
  have zero : digitValue (ch '0') = some 0 := by decide
  have blank : digitValue (ch ' ') = none := by decide
  have sign : ∀ c ∈ (if negative then [ch '-'] else []), digitValue c = none := by
    cases negative <;> simp [minus]
  cases zeroPad with
  | false =>
    rw [if_neg Bool.false_ne_true, readDigits_append, reads]
    intro c member
    rcases List.mem_append.mp member with pads | signs
    · rw [List.eq_of_mem_replicate pads]
      exact .inl blank
    · exact .inl (sign c signs)
  | true =>
    rw [if_pos rfl, readDigits_append, reads]
    intro c member
    rcases List.mem_append.mp member with signs | pads
    · exact .inl (sign c signs)
    · rw [List.eq_of_mem_replicate pads]
      exact .inr zero

theorem Denotes.value {base width : Nat} {zeroPad : Bool} {text : List UInt8} {v : Int}
    (denotes : Denotes base width zeroPad text v) : readDigits base text = v.natAbs := by
  obtain ⟨pad, digits, reads, -, -, rfl⟩ := denotes
  simpa using readDigits_numeral base pad v.natAbs zeroPad (decide (v < 0)) digits reads.value

/-- The padding of `sink_number`. -/
theorem numeral_eq (value base : Nat) (uppercase : Bool) (width : Int32) (zeroPad negative : Bool) :
    ∃ pad, pad = (width.toInt - ((numberLoop base uppercase 32 value).length +
        if negative then 1 else 0 : Nat)).toNat ∧
      numeral value base uppercase width zeroPad negative = if zeroPad then
          (if negative then [ch '-'] else []) ++ List.replicate pad (ch '0') ++
            (numberLoop base uppercase 32 value).reverse
        else List.replicate pad (ch ' ') ++ (if negative then [ch '-'] else []) ++
          (numberLoop base uppercase 32 value).reverse := by
  have short := numberLoop_length_room base uppercase 32 value
  have total : (Int32.ofNat ((numberLoop base uppercase 32 value).length +
      if negative then 1 else 0)).toInt =
        ((numberLoop base uppercase 32 value).length + if negative then 1 else 0 : Nat) := by
    refine Int32.toInt_ofNat_of_lt ?_
    split_ifs <;> omega
  refine ⟨_, rfl, ?_⟩
  simp only [numeral, padding, total]
  split_ifs <;> rfl

theorem numeral_value (small : base ≤ 16) (some_ : 0 < base) (value : Nat) (uppercase : Bool)
    (width : Int32) (zeroPad negative : Bool) :
    readDigits base (numeral value base uppercase width zeroPad negative) = value % base ^ 32 := by
  obtain ⟨pad, -, text⟩ := numeral_eq value base uppercase width zeroPad negative
  rw [text]
  exact readDigits_numeral _ _ _ _ _ _ (numberLoop_value uppercase small some_ 32 value)

theorem numeral_denotes (uppercase : Bool) (small : base ≤ 16) (big : 1 < base) {v : Int}
    (fits : v.natAbs < base ^ 32) (width : Int32) (zeroPad : Bool) :
    Denotes base width.toInt.toNat zeroPad
      (numeral v.natAbs base uppercase width zeroPad (decide (v < 0))) v := by
  obtain ⟨pad, amount, text⟩ := numeral_eq v.natAbs base uppercase width zeroPad (decide (v < 0))
  have length : (numeral v.natAbs base uppercase width zeroPad (decide (v < 0))).length =
      pad + ((numberLoop base uppercase 32 v.natAbs).length +
        if decide (v < 0) = true then 1 else 0) := by
    rw [text]
    cases zeroPad <;> by_cases negative : v < 0 <;> simp [negative, Nat.add_left_comm, Nat.add_comm]
  refine ⟨pad, _, numberLoop_reads uppercase small big fits, by omega, by omega, ?_⟩
  simpa using text

end Digits

def isDigit (c : UInt8) : Prop := ch '0' ≤ c ∧ c ≤ ch '9'

/-- An integer conversion as it is written in a format, behind its percent sign. -/
structure NumericSpec where
  flags : List UInt8
  width : List UInt8
  modifier : List UInt8
  conv : UInt8
  flags_ok : ∀ c ∈ flags, c = ch '0' ∨ c = ch '-'
  width_ok : ∀ c ∈ width, isDigit c
  width_start : width.head? ≠ some (ch '0')
  width_fits : readDigits 10 width < 2 ^ 31
  modifier_ok : modifier = [ch 'z'] ∨ ∃ n, modifier = List.replicate n (ch 'l')
  conv_ok : conv ∈ [ch 'd', ch 'i', ch 'u', ch 'x', ch 'X', ch 'b', ch 'p']

namespace NumericSpec

variable (spec : NumericSpec)

def text : List UInt8 := ch '%' :: (spec.flags ++ (spec.width ++ (spec.modifier ++ [spec.conv])))

def zeroPad : Bool := decide (ch '0' ∈ spec.flags)

def left : Bool := decide (ch '-' ∈ spec.flags)

def longness : Nat := if spec.modifier = [ch 'z'] then 2 else spec.modifier.length

/-- The argument at the size and signedness that the conversion and its modifier give it. -/
def argument (a : VaArg) : Int :=
  if spec.conv = ch 'p' then a.word.toNat
  else if spec.conv = ch 'd' ∨ spec.conv = ch 'i' then signedArg spec.longness a
  else unsignedArg spec.longness a

def base : Nat :=
  if spec.conv = ch 'b' then 2
  else if spec.conv = ch 'x' ∨ spec.conv = ch 'X' ∨ spec.conv = ch 'p' then 16
  else 10

/-- The characters are those of the argument: for `%p`, 16 digits behind `0x`, and at least
as many characters as the width asks for. -/
def Shows (a : VaArg) (out : List UInt8) : Prop :=
  if spec.conv = ch 'p' then readDigits 10 spec.width ≤ out.length ∧
    ∃ digits, out = ch '0' :: ch 'x' :: digits ∧ Denotes 16 16 true digits (spec.argument a)
  else Denotes spec.base (readDigits 10 spec.width) spec.zeroPad out (spec.argument a)

/-- The value fits the scratch buffer, and the width that of a pointer. -/
def Fits (a : VaArg) : Prop :=
  (spec.conv = ch 'b' → spec.argument a < 2 ^ 32) ∧
    (spec.conv = ch 'p' → readDigits 10 spec.width ≤ 18)

end NumericSpec

theorem flagLoop_flags {fs rest : List UInt8} (flags : ∀ c ∈ fs, c = ch '0' ∨ c = ch '-')
    {c : UInt8} (next : unit rest 0 = some c) (stop : c ≠ ch '0' ∧ c ≠ ch '-') (pre : List UInt8)
    {fuel : Nat} (enough : fs.length < fuel) (zeroPad left : Bool) :
    flagLoop (pre ++ (fs ++ rest)) fuel pre.length zeroPad left =
      some (pre.length + fs.length, zeroPad || decide (ch '0' ∈ fs),
        left || decide (ch '-' ∈ fs)) := by
  induction fs generalizing pre fuel zeroPad left with
  | nil =>
    obtain ⟨fuel, rfl⟩ := Nat.exists_eq_succ_of_ne_zero (Nat.ne_of_gt enough)
    simp [flagLoop, next, stop.1, stop.2]
  | cons f fs ih =>
    obtain ⟨fuel, rfl⟩ := Nat.exists_eq_succ_of_ne_zero (Nat.ne_of_gt (Nat.zero_lt_of_lt enough))
    have rest_ := fun z l => ih (fun c member => flags c (List.mem_cons_of_mem f member))
      (pre ++ [f]) (Nat.lt_of_succ_lt_succ enough) z l
    simp only [List.append_assoc, List.singleton_append, List.length_append,
      List.length_singleton] at rest_
    have different : ch '-' ≠ ch '0' := by decide
    simp only [flagLoop, List.cons_append, unit_here, unit_zero_cons, Option.bind_eq_bind,
      Option.bind_some, rest_, List.length_cons]
    rcases flags f List.mem_cons_self with rfl | rfl
    · simp [different, Nat.add_assoc, Nat.add_comm 1]
    · simp [different.symm, different, Nat.add_assoc, Nat.add_comm 1]

theorem widthLoop_digits {ds rest : List UInt8} (digits : ∀ c ∈ ds, isDigit c) {c : UInt8}
    (next : unit rest 0 = some c) (stop : ¬ isDigit c) (pre : List UInt8) {fuel : Nat}
    (enough : ds.length < fuel) (n : Nat) :
    widthLoop (pre ++ (ds ++ rest)) fuel pre.length (Int32.ofNat n) =
      some (pre.length + ds.length,
        Int32.ofNat ((ds.filterMap digitValue).foldl (fun n d => n * 10 + d) n)) := by
  induction ds generalizing pre fuel n with
  | nil =>
    obtain ⟨fuel, rfl⟩ := Nat.exists_eq_succ_of_ne_zero (Nat.ne_of_gt enough)
    simp only [isDigit] at stop
    simp [widthLoop, next, stop]
  | cons f ds ih =>
    obtain ⟨fuel, rfl⟩ := Nat.exists_eq_succ_of_ne_zero (Nat.ne_of_gt (Nat.zero_lt_of_lt enough))
    have rest_ := fun n => ih (fun c member => digits c (List.mem_cons_of_mem f member))
      (pre ++ [f]) (Nat.lt_of_succ_lt_succ enough) n
    simp only [List.append_assoc, List.singleton_append, List.length_append,
      List.length_singleton] at rest_
    have digit := digits f List.mem_cons_self
    have value : digitValue f = some (f.toNat - 48) := if_pos digit
    have word : Int32.ofNat n * 10 + Int32.ofNat (f.toNat - 48) =
        Int32.ofNat (n * 10 + (f.toNat - 48)) := by
      rw [Int32.ofNat_add, Int32.ofNat_mul]
      rfl
    simp only [isDigit] at digit
    simp only [widthLoop, List.cons_append, unit_here, unit_zero_cons, Option.bind_eq_bind,
      Option.bind_some, if_pos digit, word, rest_, List.filterMap_cons, value, List.foldl_cons,
      List.length_cons]
    simp [Nat.add_assoc, Nat.add_comm 1]

theorem longLoop_ls {rest : List UInt8} {c : UInt8} (next : unit rest 0 = some c)
    (stop : c ≠ ch 'l') (n : Nat) (pre : List UInt8) {fuel : Nat} (enough : n < fuel)
    (longness : Nat) :
    longLoop (pre ++ (List.replicate n (ch 'l') ++ rest)) fuel pre.length longness =
      some (pre.length + n, longness + n) := by
  induction n generalizing pre fuel longness with
  | zero =>
    obtain ⟨fuel, rfl⟩ := Nat.exists_eq_succ_of_ne_zero (Nat.ne_of_gt enough)
    simp [longLoop, next, stop]
  | succ n ih =>
    obtain ⟨fuel, rfl⟩ := Nat.exists_eq_succ_of_ne_zero (Nat.ne_of_gt (Nat.zero_lt_of_lt enough))
    have rest_ := fun longness => ih (pre ++ [ch 'l']) (Nat.lt_of_succ_lt_succ enough) longness
    simp only [List.append_assoc, List.singleton_append, List.length_append,
      List.length_singleton] at rest_
    simp only [longLoop, List.replicate_succ, List.cons_append, unit_here, unit_zero_cons,
      Option.bind_eq_bind, Option.bind_some, if_true, rest_]
    simp [Nat.add_assoc, Nat.add_comm 1]

namespace NumericSpec

variable (spec : NumericSpec)

def fieldWidth : Int32 := Int32.ofNat (readDigits 10 spec.width)

theorem fieldWidth_toInt : spec.fieldWidth.toInt = readDigits 10 spec.width :=
  Int32.toInt_ofNat_of_lt spec.width_fits

/-- The conversion character is no flag, digit, modifier or percent sign. -/
theorem conv_other : spec.conv ≠ ch '%' ∧ spec.conv ≠ ch '0' ∧ spec.conv ≠ ch '-' ∧
    ¬ isDigit spec.conv ∧ spec.conv ≠ ch 'z' ∧ spec.conv ≠ ch 'l' ∧ spec.conv ≠ ch 'c' ∧
    spec.conv ≠ ch 's' ∧ spec.conv ≠ 0 := by
  have one := spec.conv_ok
  simp only [List.mem_cons, List.not_mem_nil, or_false] at one
  rcases one with h | h | h | h | h | h | h <;> (rw [h]; simp only [isDigit]; decide)

/-- What follows the width is no digit and no flag. -/
theorem modifier_head (post : List UInt8) :
    ∃ c, unit (spec.modifier ++ (spec.conv :: post)) 0 = some c ∧ ¬ isDigit c ∧ c ≠ ch '-' := by
  obtain ⟨-, -, minus, digit, -⟩ := spec.conv_other
  rcases spec.modifier_ok with size | ⟨n, longs⟩
  · refine ⟨ch 'z', ?_, by simp only [isDigit]; decide, by decide⟩
    rw [size]
    rfl
  · cases n with
    | zero =>
      refine ⟨spec.conv, ?_, digit, minus⟩
      rw [longs]
      rfl
    | succ n =>
      refine ⟨ch 'l', ?_, by simp only [isDigit]; decide, by decide⟩
      rw [longs]
      rfl

/-- What follows the flags is none. -/
theorem width_head (post : List UInt8) :
    ∃ c, unit (spec.width ++ (spec.modifier ++ (spec.conv :: post))) 0 = some c ∧
      c ≠ ch '0' ∧ c ≠ ch '-' := by
  have digits := spec.width_ok
  have start := spec.width_start
  cases ds : spec.width with
  | nil =>
    obtain ⟨c, read, digit, minus⟩ := spec.modifier_head post
    refine ⟨c, read, ?_, minus⟩
    rintro rfl
    exact digit ⟨by decide, by decide⟩
  | cons d ds' =>
    rw [ds] at digits start
    refine ⟨d, rfl, fun zero => start (congrArg some zero), ?_⟩
    rintro rfl
    exact absurd (digits _ List.mem_cons_self).1 (by decide)

theorem lengthModifier_eq (pre post : List UInt8) {fuel : Nat}
    (enough : spec.modifier.length < fuel) :
    lengthModifier (pre ++ (spec.modifier ++ (spec.conv :: post))) fuel pre.length =
      some (pre.length + spec.modifier.length, spec.longness) := by
  obtain ⟨-, -, -, -, size_, long_, -⟩ := spec.conv_other
  simp only [lengthModifier, unit_here, longness]
  rcases spec.modifier_ok with size | ⟨n, longs⟩
  · rw [size]
    rfl
  · rw [longs] at enough ⊢
    rw [List.length_replicate] at enough ⊢
    have loop := longLoop_ls (unit_zero_cons spec.conv post) long_ n pre enough 0
    have different : List.replicate n (ch 'l') ≠ [ch 'z'] := by
      intro same
      have member : ch 'z' ∈ List.replicate n (ch 'l') := by rw [same]; exact List.mem_cons_self
      exact absurd (List.eq_of_mem_replicate member) (by decide)
    rw [if_neg different, loop, Nat.zero_add]
    cases n with
    | zero => simp [size_]
    | succ n => simp [List.replicate_succ, show ch 'l' ≠ ch 'z' by decide]

theorem conversion_next (va : Nat → VaArg) (s : FmtSink) (k p : Nat) (zeroPad left : Bool)
    (width : Int32) (longness : Nat) :
    (conversion va s k p spec.conv zeroPad left width longness).2 = (k + 1, p) := by
  have one := spec.conv_ok
  simp only [List.mem_cons, List.not_mem_nil, or_false] at one
  rcases one with h | h | h | h | h | h | h <;> (rw [h]; rfl)

/-- A turn of the loop at the specification takes one argument and goes on behind it. -/
theorem turnText_eq (pre post : List UInt8) {fuel : Nat} (enough : spec.text.length ≤ fuel)
    (va : Nat → VaArg) (k : Nat) :
    turnText (pre ++ (spec.text ++ post)) fuel va k pre.length (ch '%') =
      some (conversionText (va k) spec.conv spec.zeroPad spec.left spec.fieldWidth spec.longness,
        k + 1, pre.length + (spec.text.length - 1)) := by
  obtain ⟨c₁, read₁, stop₁⟩ := spec.width_head post
  obtain ⟨c₂, read₂, stop₂, -⟩ := spec.modifier_head post
  have total : spec.text.length =
      spec.flags.length + spec.width.length + spec.modifier.length + 2 := by
    simp [text]
    omega
  -- the format with its beginning up to the flags, the width, the modifier and the character
  have behindPercent : pre ++ (spec.text ++ post) = (pre ++ [ch '%']) ++
      (spec.flags ++ (spec.width ++ (spec.modifier ++ (spec.conv :: post)))) := by simp [text]
  have behindFlags : pre ++ (spec.text ++ post) = (pre ++ [ch '%'] ++ spec.flags) ++
      (spec.width ++ (spec.modifier ++ (spec.conv :: post))) := by simp [text]
  have behindWidth : pre ++ (spec.text ++ post) = (pre ++ [ch '%'] ++ spec.flags ++ spec.width) ++
      (spec.modifier ++ (spec.conv :: post)) := by simp [text]
  have behindModifier : pre ++ (spec.text ++ post) =
      (pre ++ [ch '%'] ++ spec.flags ++ spec.width ++ spec.modifier) ++ (spec.conv :: post) := by
    simp [text]
  have flags := flagLoop_flags spec.flags_ok read₁ stop₁ (pre ++ [ch '%'])
    (by omega : spec.flags.length < fuel) false false
  have width := widthLoop_digits spec.width_ok read₂ stop₂ (pre ++ [ch '%'] ++ spec.flags)
    (by omega : spec.width.length < fuel) 0
  have modifier := spec.lengthModifier_eq (pre ++ [ch '%'] ++ spec.flags ++ spec.width) post
    (by omega : spec.modifier.length < fuel)
  have last := unit_here (pre ++ [ch '%'] ++ spec.flags ++ spec.width ++ spec.modifier)
    (spec.conv :: post)
  rw [← behindPercent] at flags
  rw [← behindFlags] at width
  rw [← behindWidth] at modifier
  rw [← behindModifier] at last
  rw [unit_zero_cons] at last
  simp only [List.length_append, List.length_singleton] at modifier last
  simp only [List.length_append, List.length_singleton, Bool.false_or] at flags width
  have zero : Int32.ofNat 0 = 0 := rfl
  rw [zero] at width
  simp only [turnText, ne_eq, not_true_eq_false, if_false, flags, width, modifier, last,
    Option.bind_eq_bind, Option.bind_some, conversion_next]
  refine congrArg some (Prod.ext rfl (Prod.ext rfl ?_))
  show pre.length + 1 + spec.flags.length + spec.width.length + spec.modifier.length =
    pre.length + (spec.text.length - 1)
  omega

theorem signedArg_small (longness : Nat) (a : VaArg) : (signedArg longness a).natAbs < 2 ^ 64 := by
  have wide := a.word.toInt64.toInt_lt
  have wide' := a.word.toInt64.le_toInt
  have narrow := a.word.toUInt32.toInt32.toInt_lt
  have narrow' := a.word.toUInt32.toInt32.le_toInt
  rw [signedArg]
  split_ifs <;> omega

theorem unsignedArg_small (longness : Nat) (a : VaArg) : unsignedArg longness a < 2 ^ 64 := by
  have wide := a.word.toNat_lt
  have narrow := a.word.toUInt32.toNat_lt
  rw [unsignedArg]
  split_ifs <;> omega

theorem argument_small (a : VaArg) : (spec.argument a).natAbs < 2 ^ 64 := by
  have signed := signedArg_small spec.longness a
  have unsigned := unsignedArg_small spec.longness a
  have pointer := a.word.toNat_lt
  rw [argument]
  split_ifs <;> omega

/-- A pointer is printed in its own way; the other conversions print their argument. -/
theorem conversionText_eq (a : VaArg) :
    conversionText a spec.conv spec.zeroPad spec.left spec.fieldWidth spec.longness =
      if spec.conv = ch 'p' then
        ch '0' :: ch 'x' :: numeral (spec.argument a).natAbs 16 false 16 true false
      else numeral (spec.argument a).natAbs spec.base (spec.conv = ch 'X') spec.fieldWidth
        spec.zeroPad (decide (spec.argument a < 0)) := by
  have magnitude : ∀ v : Int, (if decide (v < 0) = true then (-(v + 1)).toNat + 1 else v.toNat) =
      v.natAbs := by
    intro v
    split_ifs with negative <;> simp at negative <;> omega
  have one := spec.conv_ok
  simp only [List.mem_cons, List.not_mem_nil, or_false] at one
  rcases one with h | h | h | h | h | h | h <;>
    simp only [conversionText, argument, base, h, magnitude] <;> rfl

theorem fieldWidth_toNat : spec.fieldWidth.toInt.toNat = readDigits 10 spec.width := by
  rw [fieldWidth_toInt]
  rfl

theorem pointer_length (value : Nat) (small : value < 2 ^ 64) :
    (numeral value 16 false 16 true false).length = 16 := by
  obtain ⟨pad, amount, text⟩ := numeral_eq value 16 false 16 true false
  have short : (numberLoop 16 false 32 value).length ≤ 16 :=
    numberLoop_length (by omega) (by omega) (by omega)
  have width : (16 : Int32).toInt = 16 := by decide
  rw [width] at amount
  rw [text]
  simp at amount ⊢
  omega

theorem shows_iff (a : VaArg) :
    spec.Shows a (conversionText a spec.conv spec.zeroPad spec.left spec.fieldWidth
      spec.longness) ↔ spec.Fits a := by
  have small := spec.argument_small a
  have distinct : ch 'p' ≠ ch 'b' := by decide
  rw [conversionText_eq, Shows, Fits]
  by_cases pointer : spec.conv = ch 'p'
  · have positive : ¬ spec.argument a < 0 := by
      simp only [argument, if_pos pointer]
      omega
    have denotes := numeral_denotes false (le_refl 16) (by omega)
      (by omega : (spec.argument a).natAbs < 16 ^ 32) 16 true
    rw [decide_eq_false positive] at denotes
    have length := pointer_length (spec.argument a).natAbs small
    rw [if_pos pointer, if_pos pointer, pointer]
    simp only [List.length_cons, length, distinct, forall_const, false_implies, true_and]
    exact ⟨fun shows => shows.1, fun fits => ⟨fits, _, rfl, denotes⟩⟩
  · rw [if_neg pointer, if_neg pointer]
    have rest : (spec.conv = ch 'p' → readDigits 10 spec.width ≤ 18) := fun h => absurd h pointer
    by_cases binary : spec.conv = ch 'b'
    · have two : spec.base = 2 := if_pos binary
      have unsigned : 0 ≤ spec.argument a := by
        simp only [argument, binary, if_neg distinct.symm]
        rw [if_neg (by decide)]
        omega
      rw [two]
      constructor
      · intro shows
        refine ⟨fun _ => ?_, rest⟩
        have value := shows.value
        rw [numeral_value (by omega) (by omega)] at value
        omega
      · intro fits
        have room := fits.1 binary
        have denotes := numeral_denotes (spec.conv = ch 'X') (by omega : 2 ≤ 16) (by omega)
          (by omega : (spec.argument a).natAbs < 2 ^ 32) spec.fieldWidth spec.zeroPad
        rw [fieldWidth_toNat] at denotes
        exact denotes
    · have ten : 10 ≤ spec.base ∧ spec.base ≤ 16 := by
        rw [base, if_neg binary]
        split_ifs <;> omega
      have room : (spec.argument a).natAbs < spec.base ^ 32 :=
        calc (spec.argument a).natAbs < 10 ^ 32 := by omega
          _ ≤ spec.base ^ 32 := Nat.pow_le_pow_left ten.1 32
      have denotes := numeral_denotes (spec.conv = ch 'X') (by omega : spec.base ≤ 16) (by omega)
        room spec.fieldWidth spec.zeroPad
      rw [fieldWidth_toNat] at denotes
      exact ⟨fun _ => ⟨fun h => absurd h binary, rest⟩, fun _ => denotes⟩

theorem text_noNul : (0 : UInt8) ∉ spec.text := by
  intro member
  simp only [text, List.mem_cons, List.mem_append, List.not_mem_nil, or_false] at member
  rcases member with h | h | h | h | h
  · exact absurd h (by decide)
  · rcases spec.flags_ok 0 h with h | h <;> exact absurd h (by decide)
  · exact absurd (spec.width_ok 0 h).1 (by decide)
  · rcases spec.modifier_ok with size | ⟨n, longs⟩
    · rw [size] at h
      exact absurd (List.mem_singleton.mp h) (by decide)
    · rw [longs] at h
      exact absurd (List.eq_of_mem_replicate h) (by decide)
  · exact spec.conv_other.2.2.2.2.2.2.2.2 h.symm

def format : CString := ⟨spec.text, spec.text_noNul⟩

end NumericSpec

/-- Wherever the specification stands in a format, the turn of the loop at it puts the same
characters into every sink, and these show the argument exactly when it fits. -/
theorem numerals_denote (spec : NumericSpec) (va : Nat → VaArg) (k : Nat) (pre post : List UInt8) :
    ∃ out, (∀ s, formatTurn (pre ++ (spec.text ++ post)) ((pre ++ (spec.text ++ post)).length + 1)
        va s k pre.length (ch '%') =
          some (sinkText s out, k + 1, pre.length + (spec.text.length - 1))) ∧
      fullOutput spec.format (fun i => va (k + i)) = out ∧
      (spec.Shows (va k) out ↔ spec.Fits (va k)) := by
  have enough : ∀ pre post : List UInt8,
      spec.text.length ≤ (pre ++ (spec.text ++ post)).length + 1 := by
    intro pre post
    simp only [List.length_append]
    omega
  refine ⟨_, fun s => ?_, ?_, spec.shows_iff (va k)⟩
  · rw [formatTurn_eq, spec.turnText_eq pre post (enough pre post)]
    rfl
  · have turn := spec.turnText_eq [] [] (enough [] []) (fun i => va (k + i)) 0
    have positive : spec.text.length ≠ 0 := by simp [NumericSpec.text]
    have first : unit spec.text 0 = some (ch '%') := rfl
    simp only [List.nil_append, List.append_nil, List.length_nil, Nat.zero_add,
      Nat.add_zero] at turn
    obtain ⟨m, length⟩ := Nat.exists_eq_succ_of_ne_zero positive
    have end_ : unit spec.text (m + 1) = some 0 := by
      rw [← Nat.succ_eq_add_one, ← length, unit_length]
    rw [fullOutput]
    show (loopText spec.text _ (spec.text.length + 1) 0 0).getD [] = _
    rw [length] at turn ⊢
    simp only [loopText, first, length, turn, end_, Option.bind_eq_bind, Option.bind_some,
      Nat.succ_eq_add_one, Nat.add_sub_cancel, if_true, if_neg (by decide : ch '%' ≠ 0),
      List.append_nil, Option.getD_some]

/-- `%lb`. -/
def longBinary : NumericSpec where
  flags := []
  width := []
  modifier := [ch 'l']
  conv := ch 'b'
  flags_ok := by simp
  width_ok := by simp
  width_start := by simp
  width_fits := by decide
  modifier_ok := .inr ⟨1, rfl⟩
  conv_ok := by decide

def powerOfTwo (_ : Nat) : VaArg := ⟨0x100000000, .lit ""⟩

/-- 2^32 is printed as 32 zeros. -/
theorem binary_loses_digits :
    fullOutput longBinary.format powerOfTwo = List.replicate 32 (ch '0') ∧
      ¬ longBinary.Shows (powerOfTwo 0) (fullOutput longBinary.format powerOfTwo) := by
  have zeros : fullOutput longBinary.format powerOfTwo = List.replicate 32 (ch '0') := by
    decide +kernel
  refine ⟨zeros, ?_⟩
  rw [zeros]
  intro shows
  have value := Denotes.value shows
  exact absurd value (by decide +kernel)

end Rtl
