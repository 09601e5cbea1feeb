import Mathlib.Algebra.Group.Nat.Even
import Svindows.Msvcrt.Printf

/-!
# What a narrow format calls for

The text of a format and its arguments, read off the format without a cursor and
without a buffer. The formatters produce it whenever no `%` is left over at the end.
-/

namespace Msvcrt

open Rtl (ch CString VaArg)
open Terminated

def decimal (v : Int) : List UInt8 :=
  (if v < 0 then [ch '-'] else []) ++ numeral digitOf 10 v.natAbs

theorem digits_reverse {base : Nat} (big : 10 ≤ base) (v : UInt64) :
    ((if v = 0 then [ch '0'] else []) ++ digitLoop digitOf base 24 v.toNat).reverse =
      numeral digitOf base v.toNat := by
  by_cases zero : v = 0
  · subst zero
    rfl
  · have positive : v.toNat ≠ 0 := fun same => zero (UInt64.toNat_inj.mp same)
    have room : v.toNat < base ^ 24 :=
      calc v.toNat < 10 ^ 24 := lt_trans v.toNat_lt (by norm_num)
        _ ≤ base ^ 24 := Nat.pow_le_pow_left big 24
    rw [digitLoop_eq digitOf base (by omega) room, numeral, if_neg positive, if_neg zero,
      List.nil_append]

theorem fmtNum_unsigned {base : Nat} (big : 10 ≤ base) (v : UInt64) :
    fmtNum v base false 0 = numeral digitOf base v.toNat := by
  rw [← digits_reverse big v]
  rfl

/-- The absolute value of the least `long long` is there as an unsigned one. -/
theorem magnitude (v : Int64) :
    (if v < 0 then (-v).toUInt64 else v.toUInt64).toNat = v.toInt.natAbs := by
  have small := v.toBitVec.isLt
  have value : v.toInt = if 2 * v.toBitVec.toNat < 2 ^ 64 then (v.toBitVec.toNat : Int)
      else (v.toBitVec.toNat : Int) - (2 ^ 64 : Nat) := BitVec.toInt_eq_toNat_cond _
  have plain : v.toUInt64.toNat = v.toBitVec.toNat := rfl
  have negated : (-v).toUInt64.toNat = (2 ^ 64 - v.toBitVec.toNat) % 2 ^ 64 :=
    BitVec.toNat_neg _
  have sign : v < 0 ↔ v.toInt < 0 := Int64.lt_iff_toInt_lt
  split_ifs at value ⊢ with low high high <;> rw [sign] at low <;> omega

theorem fmtNum_signed (a : VaArg) : fmtNum 0 10 true (intArg a) = decimal (intArg a).toInt := by
  simp only [fmtNum, Bool.true_and, if_true, decimal, digits_reverse le_rfl, decide_eq_true_eq]
  rw [magnitude]
  simp only [Int64.lt_iff_toInt_lt, Int64.toInt_zero]

/-- The text behind a `%`, by the character there and the next argument. -/
def piece (a : VaArg) (c : UInt8) : List UInt8 :=
  if c = ch 'd' then decimal (intArg a).toInt
  else if c = ch 'u' then numeral digitOf 10 (unsignedArg a).toNat
  else if c = ch 'x' then numeral digitOf 16 (unsignedArg a).toNat
  else if c = ch 'p' then ch '0' :: ch 'x' :: numeral digitOf 16 a.word.toNat
  else if c = ch 's' then if a.word = 0 then [] else a.text.bytes
  else if c = ch 'c' then [a.word.toUInt8]
  else if c = ch '%' then [ch '%']
  else [ch '%', c]

def takesArg (c : UInt8) : Prop :=
  c = ch 'd' ∨ c = ch 'u' ∨ c = ch 'x' ∨ c = ch 'p' ∨ c = ch 's' ∨ c = ch 'c'

instance (c : UInt8) : Decidable (takesArg c) := by unfold takesArg; infer_instance

/-- The text a format calls for, with the arguments from number `k` on. -/
def narrowText (va : Nat → VaArg) : Nat → List UInt8 → List UInt8
  | _, [] => []
  | k, c :: rest =>
    if c ≠ ch '%' then c :: narrowText va k rest
    else match rest with
      | [] => []
      | d :: rest => piece (va k) d ++ narrowText va (if takesArg d then k + 1 else k) rest

theorem narrowText_plain (va : Nat → VaArg) (k : Nat) {c : UInt8} (plain : c ≠ ch '%')
    (rest : List UInt8) : narrowText va k (c :: rest) = c :: narrowText va k rest := by
  cases rest <;> simp [narrowText, plain]

theorem narrowText_pair (va : Nat → VaArg) (k : Nat) (c : UInt8) (rest : List UInt8) :
    narrowText va k (ch '%' :: c :: rest) =
      piece (va k) c ++ narrowText va (if takesArg c then k + 1 else k) rest := by
  simp [narrowText]

theorem narrowSwitch_eq (va : Nat → VaArg) (k : Nat) (c : UInt8) :
    narrowSwitch va k c = (piece (va k) c, if takesArg c then k + 1 else k) := by
  simp only [narrowSwitch, piece, fmtNum_signed, fmtNum_unsigned (show 10 ≤ 10 by decide),
    fmtNum_unsigned (show 10 ≤ 16 by decide), takesArg]
  split_ifs <;> simp_all

/-- The format ends with an odd number of percent signs. -/
def Dangling (fmt : List UInt8) : Prop := Odd (fmt.reverse.takeWhile (· = ch '%')).length

instance (fmt : List UInt8) : Decidable (Dangling fmt) := inferInstanceAs (Decidable (Odd _))

/-- Percent signs in front of the text count only if it has no other character. -/
theorem trailing_append {α : Type} (p : α → Bool) (front rest : List α) :
    ((front ++ rest).reverse.takeWhile p).length =
      if ∀ c ∈ rest, p c then rest.length + (front.reverse.takeWhile p).length
      else (rest.reverse.takeWhile p).length := by
  have whole : (rest.reverse.takeWhile p).length = rest.reverse.length ↔ ∀ c ∈ rest, p c := by
    refine ⟨fun same c member => ?_, fun all => ?_⟩
    · have text := (List.takeWhile_prefix p).eq_of_length same
      exact List.takeWhile_eq_self_iff.mp text c (List.mem_reverse.mpr member)
    · rw [List.takeWhile_eq_self_iff.mpr fun c member => all c (List.mem_reverse.mp member)]
  rw [List.reverse_append, List.takeWhile_append]
  simp only [whole]
  split_ifs <;> simp

theorem dangling_append (front rest : List UInt8)
    (pairs : Even (front.reverse.takeWhile (· = ch '%')).length) :
    Dangling (front ++ rest) ↔ Dangling rest := by
  have whole := trailing_append (· = ch '%') front rest
  have back := trailing_append (· = ch '%') [] rest
  rw [List.nil_append, List.reverse_nil, List.takeWhile_nil, List.length_nil] at back
  rw [Dangling, Dangling, whole]
  by_cases percents : ∀ c ∈ rest, decide (c = ch '%') = true
  · rw [if_pos percents] at back ⊢
    rw [back, Nat.add_zero, Nat.odd_add]
    exact iff_true_right pairs
  · rw [if_neg percents]

theorem dangling_cons {c : UInt8} (plain : c ≠ ch '%') (rest : List UInt8) :
    Dangling (c :: rest) ↔ Dangling rest :=
  dangling_append [c] rest (by simp [plain])

theorem dangling_pair (c : UInt8) (rest : List UInt8) :
    Dangling (ch '%' :: c :: rest) ↔ Dangling rest := by
  refine dangling_append [ch '%', c] rest ?_
  by_cases percent : c = ch '%'
  · subst percent
    exact ⟨1, rfl⟩
  · simp [percent]

/-- From index `p` on the text of what is left is put out, or the formatter reads behind the NUL. -/
theorem narrowLoop_eq {fmt : List UInt8} (noNul : 0 ∉ fmt) (va : Nat → VaArg) (fuel : Nat)
    (s : Output) (k : Nat) {p : Nat} {rest : List UInt8} (left : Left fmt p rest)
    (enough : rest.length + 2 ≤ fuel) :
    narrowLoop fmt va fuel s k p =
      if Dangling rest then none else some (s.putAll (narrowText va k rest)) := by
  induction fuel generalizing s k p rest with
  | zero => omega
  | succ fuel ih =>
    rw [narrowLoop, left.read]
    simp only [Option.bind_eq_bind, Option.bind_some]
    cases rest with
    | nil => rfl
    | cons c rest =>
      have nonzero : c ≠ 0 := by
        rintro rfl
        exact noNul (List.mem_of_mem_drop (left.drop ▸ List.mem_cons_self))
      have next := left.next
      rw [List.headD_cons, if_neg nonzero]
      rw [List.length_cons] at enough
      by_cases plain : c ≠ ch '%'
      · rw [if_pos plain, ih (s.put c) k next (by omega), narrowText_plain va k plain]
        simp only [dangling_cons plain]
        rfl
      · obtain rfl : c = ch '%' := not_not.mp plain
        rw [if_neg plain, next.read]
        simp only [Option.bind_some, narrowSwitch_eq]
        cases rest with
        | nil =>
          have single : Dangling [ch '%'] := by decide
          rw [if_pos single]
          obtain ⟨fuel, rfl⟩ : ∃ n, fuel = n + 1 := ⟨fuel - 1, by omega⟩
          rw [narrowLoop, next.past]
          rfl
        | cons d rest =>
          rw [List.headD_cons]
          rw [List.length_cons] at enough
          rw [ih _ _ next.next (by omega), narrowText_pair]
          simp only [dangling_pair, Output.putAll_append]

/-- The text that the format calls for. -/
def calledText (fmt : CString) (va : Nat → VaArg) : List UInt8 := narrowText va 0 fmt.bytes

theorem narrowFormat_eq (out : Nat → UInt8) (fmt : CString) (va : Nat → VaArg) :
    narrowFormat out fmt va =
      if Dangling fmt.bytes then none
      else
        let text := calledText fmt va
        some (text.length, Function.update (Output.putAll ⟨out, 0⟩ text).out text.length 0) := by
  rw [narrowFormat, narrowLoop_eq fmt.noNul va _ ⟨out, 0⟩ 0 (.start _) le_rfl]
  split_ifs with dangling
  · rfl
  · simp only [Option.bind_eq_bind, Option.bind_some, Output.putAll_o, Nat.zero_add]
    rfl

theorem wsprintfA_isSome (out : Nat → UInt8) (fmt : CString) (va : Nat → VaArg) :
    (wsprintfA out fmt va).isSome ↔ ¬ Dangling fmt.bytes := by
  rw [wsprintfA, narrowFormat_eq]
  split_ifs with dangling <;> simp [dangling]

/-- The zero behind a text of 512 characters is the first byte outside. -/
theorem printf_inside (fmt : CString) (va : Nat → VaArg) :
    (∀ memory, ∃ r, printf memory fmt va = some r ∧ ∀ i, bufSize ≤ i → r.memory i = memory i) ↔
      ¬ Dangling fmt.bytes ∧ (calledText fmt va).length < bufSize := by
  simp only [printf, format, narrowFormat_eq]
  constructor
  · intro inside
    obtain ⟨r, run, kept⟩ := inside fun _ => 1
    split_ifs at run with dangling
    · cases run
    · refine ⟨dangling, Nat.lt_of_not_le fun long => ?_⟩
      obtain rfl := Option.some.inj run
      have zero := (Function.update_self ..).symm.trans (kept _ long)
      exact absurd zero (by decide)
  · rintro ⟨complete, short⟩ memory
    rw [if_neg complete]
    refine ⟨_, rfl, fun i outside => ?_⟩
    have behind : (calledText fmt va).length < i := lt_of_lt_of_le short outside
    refine (Function.update_of_ne behind.ne' ..).trans (Output.putAll_out _ _ ?_)
    rw [Nat.zero_add]
    exact behind.le

end Msvcrt
