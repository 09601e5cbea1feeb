import Svindows.Msvcrt.NarrowText
import Svindows.Msvcrt.WideFormat

/-!
# What a wide format calls for

A format is a sequence of plain units and complete conversion specifications, and
calls for a text. `_vsnwprintf` puts out this text and cuts it off in the buffer;
inside a specification that the NUL ends it reads on behind the format.
-/

namespace Msvcrt

open Terminated

def isFlag (c : UInt16) : Bool := (Flags.none.set c).isSome

def readFlags (rest : List UInt16) : Flags × List UInt16 :=
  ((rest.takeWhile isFlag).foldl (fun f c => (f.set c).getD f) .none, rest.dropWhile isFlag)

def readNumber (rest : List UInt16) : Int32 × List UInt16 :=
  ((rest.takeWhile isDigit).foldl addDigit 0, rest.dropWhile isDigit)

section Fields

variable (va : Nat → WideArg) (k : Nat) (rest : List UInt16)

def readWidth (f : Flags) : Nat × (Flags × Int32) × List UInt16 :=
  if rest.headD 0 = wch '*' then (k + 1, starWidth f (va k).int, rest.tail)
  else (k, (f, (readNumber rest).1), (readNumber rest).2)

def readPrecision : Nat × Int32 × List UInt16 :=
  if rest.headD 0 = wch '.' then
    if rest.tail.headD 0 = wch '*' then (k + 1, (va k).int, rest.tail.tail)
    else (k, readNumber rest.tail)
  else (k, -1, rest)

def readLength : Length × List UInt16 :=
  if rest.take 2 = [wch 'l', wch 'l'] then (.llong, rest.drop 2)
  else if rest.take 1 = [wch 'l'] then (.long, rest.drop 1)
  else if rest.take 3 = [wch 'I', wch '6', wch '4'] then (.llong, rest.drop 3)
  else (.default, rest)

/-- The directive behind a `%`, the next argument, and what is left at the conversion character. -/
def readDirective : Directive × Nat × List UInt16 :=
  let (f, rest) := readFlags rest
  let (k, (f, width), rest) := readWidth va k rest f
  let (k, precision, rest) := readPrecision va k rest
  let (length, rest) := readLength rest
  (⟨f, width, precision, length⟩, k, rest)

end Fields

/-- A body in its field. -/
def field (d : Directive) (sign body : List UInt16) : List UInt16 :=
  let fill := (d.width.toInt - (Int32.ofNat (sign.length + body.length)).toInt).toNat
  if d.flags.leftAlign then sign ++ body ++ List.replicate fill (wch ' ')
  else if d.flags.pad = wch '0' then sign ++ List.replicate fill (wch '0') ++ body
  else List.replicate fill d.flags.pad ++ sign ++ body

def signText (f : Flags) (negative : Bool) : List UInt16 :=
  if negative then [wch '-'] else if f.forceSign then [wch '+']
  else if f.spaceSign then [wch ' '] else []

/-- The text of a directive with the conversion character `c`. -/
def directiveText (d : Directive) (a : WideArg) (c : UInt16) : List UInt16 :=
  if c = wch 's' then
    field d [] (if 0 ≤ d.precision then a.str.take d.precision.toNatClampNeg else a.str)
  else if c = wch 'c' then [a.word.toUInt16]
  else if c = wch 'd' ∨ c = wch 'i' then
    let v := (signedValue d.length a).toInt
    field d (signText d.flags (v < 0)) (numeral (wideDigit false) 10 v.natAbs)
  else if c = wch 'u' ∨ c = wch 'x' ∨ c = wch 'X' then
    let base := if c = wch 'x' ∨ c = wch 'X' then 16 else 10
    field d (signText d.flags false)
      (numeral (wideDigit (c = wch 'X')) base (unsignedValue d.length a).toNat)
  else [wch '?']

def takesWideArg (c : UInt16) : Prop :=
  c = wch 's' ∨ c = wch 'c' ∨ c = wch 'd' ∨ c = wch 'i' ∨ c = wch 'u' ∨ c = wch 'x' ∨ c = wch 'X'

instance (c : UInt16) : Decidable (takesWideArg c) := by unfold takesWideArg; infer_instance

/-- The format, from argument number `k` on, is complete and calls for a text. -/
inductive Calls (va : Nat → WideArg) : Nat → List UInt16 → List UInt16 → Prop
  | done (k : Nat) : Calls va k [] []
  | plain {k : Nat} {c : UInt16} {rest text : List UInt16} (plain : c ≠ wch '%')
      (calls : Calls va k rest text) : Calls va k (c :: rest) (c :: text)
  | percent {k : Nat} {rest text : List UInt16} (calls : Calls va k rest text) :
      Calls va k (wch '%' :: wch '%' :: rest) (wch '%' :: text)
  | directive {k k' : Nat} {d : Directive} {c : UInt16} {rest more text : List UInt16}
      (other : rest.headD 0 ≠ wch '%') (read : readDirective va k rest = (d, k', c :: more))
      (calls : Calls va (if takesWideArg c then k' + 1 else k') more text) :
      Calls va k (wch '%' :: rest) (directiveText d (va k') c ++ text)

theorem wideDigitLoop_eq (upper : Bool) {base : Nat} (big : 1 < base) {room v : Nat}
    (fits : v < base ^ (room + 1)) :
    wideDigitLoop upper base (room + 1) v =
      if v = 0 then [wideDigit upper 0] else (Nat.digits base v).map (wideDigit upper) := by
  induction room generalizing v with
  | zero =>
    rw [Nat.zero_add, Nat.pow_one] at fits
    rw [wideDigitLoop, Nat.mod_eq_of_lt fits, Nat.div_eq_of_lt fits, if_pos rfl]
    split_ifs with zero
    · rw [zero]
    · rw [Nat.digits_of_lt base v zero fits, List.map_singleton]
  | succ room ih =>
    have lower : v / base < base ^ (room + 1) := by
      rw [Nat.div_lt_iff_lt_mul (by omega), ← Nat.pow_succ]
      exact fits
    rw [wideDigitLoop, ih lower]
    by_cases zero : v = 0
    · subst zero
      simp
    · rw [if_neg zero, Nat.digits_def' big (Nat.pos_of_ne_zero zero), List.map_cons]
      split_ifs with last
      · simp [last]
      · rfl

theorem wideDigits_eq (upper : Bool) {base : Nat} (big : 10 ≤ base) (v : UInt64) :
    (wideDigitLoop upper base 24 v.toNat).reverse = numeral (wideDigit upper) base v.toNat := by
  have room : v.toNat < base ^ 24 :=
    calc v.toNat < 10 ^ 24 := lt_trans v.toNat_lt (by norm_num)
      _ ≤ base ^ 24 := Nat.pow_le_pow_left big 24
  rw [wideDigitLoop_eq upper (by omega) room, numeral]
  split_ifs <;> simp

theorem numberUnits_eq (d : Directive) (upper : Bool) {base : Nat} (big : 10 ≤ base)
    (negative : Bool) (value : UInt64) :
    numberUnits d upper base negative value =
      field d (signText d.flags negative) (numeral (wideDigit upper) base value.toNat) := by
  have digits := wideDigits_eq upper big value
  have length : (wideDigitLoop upper base 24 value.toNat).length =
      (numeral (wideDigit upper) base value.toNat).length := by
    rw [← digits, List.length_reverse]
  simp only [numberUnits, digits, length, field, padUnits, signText, Nat.add_comm]
  by_cases left : d.flags.leftAlign = true
  · simp [left]
  · by_cases zero : d.flags.pad = wch '0' <;> simp [left, zero]

theorem stringUnits_eq (d : Directive) (a : WideArg) :
    stringUnits d a =
      field d [] (if 0 ≤ d.precision then a.str.take d.precision.toNatClampNeg else a.str) := by
  have cut : (if 0 ≤ d.precision then a.str.take d.precision.toNatClampNeg else a.str) =
      a.str.take (if 0 ≤ d.precision ∧ d.precision.toNatClampNeg < a.str.length then
        d.precision.toNatClampNeg else a.str.length) := by
    by_cases given : 0 ≤ d.precision
    · by_cases short : d.precision.toNatClampNeg < a.str.length
      · simp [given, short]
      · simp [given, short, List.take_of_length_le (Nat.le_of_not_lt short)]
    · simp [given]
  have length : (a.str.take (if 0 ≤ d.precision ∧ d.precision.toNatClampNeg < a.str.length then
        d.precision.toNatClampNeg else a.str.length)).length =
      if 0 ≤ d.precision ∧ d.precision.toNatClampNeg < a.str.length then
        d.precision.toNatClampNeg else a.str.length := by
    rw [List.length_take]
    split_ifs <;> omega
  rw [cut, field, List.length_nil, Nat.zero_add, length]
  simp only [stringUnits, padUnits]
  by_cases left : d.flags.leftAlign = true
  · simp [left]
  · by_cases zero : d.flags.pad = wch '0' <;> simp [left, zero]

theorem wideConversion_eq (d : Directive) (va : Nat → WideArg) (k : Nat) (c : UInt16) :
    wideConversion d va k c =
      (directiveText d (va k) c, if takesWideArg c then k + 1 else k) := by
  have base : 10 ≤ if c = wch 'x' ∨ c = wch 'X' then 16 else 10 := by split_ifs <;> decide
  simp only [wideConversion, directiveText, stringUnits_eq, numberUnits_eq d _ base,
    numberUnits_eq d _ (le_refl 10), magnitude, takesWideArg]
  split_ifs <;> simp_all [Int64.lt_iff_toInt_lt]

section Scan

variable {fmt rest : List UInt16} {p : Nat}

theorem set_getD {f f' : Flags} {c : UInt16} (flag : f.set c = some f') :
    isFlag c = true ∧ (f.set c).getD f = f' := by
  refine ⟨?_, by rw [flag, Option.getD_some]⟩
  simp only [isFlag, Flags.set] at flag ⊢
  split_ifs at flag ⊢ <;> rfl

theorem set_none {f : Flags} {c : UInt16} (other : f.set c = none) : isFlag c = false := by
  simp only [isFlag, Flags.set] at other ⊢
  split_ifs at other ⊢
  rfl

theorem flagLoop_eq (fuel : Nat) (left : Left fmt p rest) (enough : rest.length < fuel)
    (f : Flags) :
    ∃ p', flagLoop fmt fuel p f =
        some (p', (rest.takeWhile isFlag).foldl (fun f c => (f.set c).getD f) f) ∧
      Left fmt p' (rest.dropWhile isFlag) := by
  induction fuel generalizing p rest f with
  | zero => omega
  | succ fuel ih =>
    simp only [flagLoop, left.read, Option.bind_eq_bind, Option.bind_some]
    cases rest with
    | nil => exact ⟨p, rfl, left⟩
    | cons c rest =>
      rw [List.headD_cons]
      rw [List.length_cons] at enough
      cases flag : f.set c with
      | none => exact ⟨p, by simp [set_none flag], by simpa [set_none flag] using left⟩
      | some f' =>
        obtain ⟨p', run, left'⟩ := ih left.next (by omega) f'
        have taken := set_getD flag
        exact ⟨p', by simp [taken.1, taken.2, run], by simpa [taken.1] using left'⟩

theorem numberLoop_eq (fuel : Nat) (left : Left fmt p rest) (enough : rest.length < fuel)
    (v : Int32) :
    ∃ p', numberLoop fmt fuel p v = some (p', (rest.takeWhile isDigit).foldl addDigit v) ∧
      Left fmt p' (rest.dropWhile isDigit) := by
  induction fuel generalizing p rest v with
  | zero => omega
  | succ fuel ih =>
    simp only [numberLoop, left.read, Option.bind_eq_bind, Option.bind_some]
    cases rest with
    | nil => exact ⟨p, rfl, left⟩
    | cons c rest =>
      rw [List.headD_cons]
      rw [List.length_cons] at enough
      by_cases digit : isDigit c = true
      · obtain ⟨p', run, left'⟩ := ih left.next (by omega) (addDigit v c)
        exact ⟨p', by simp [digit, run], by simpa [digit] using left'⟩
      · exact ⟨p, by simp [digit], by simpa [digit] using left⟩

variable (va : Nat → WideArg) (k : Nat) {fuel : Nat}

theorem scanWidth_eq (left : Left fmt p rest) (enough : rest.length < fuel) (f : Flags) :
    ∃ p', scanWidth fmt va fuel k p f =
        some ((readWidth va k rest f).1, p', (readWidth va k rest f).2.1) ∧
      Left fmt p' (readWidth va k rest f).2.2 := by
  simp only [scanWidth, left.read, Option.bind_eq_bind, Option.bind_some, readWidth]
  split_ifs with star
  · exact ⟨p + 1, rfl, left.tail (by decide) star⟩
  · obtain ⟨p', run, left'⟩ := numberLoop_eq fuel left enough 0
    exact ⟨p', by rw [run]; rfl, left'⟩

theorem scanPrecision_eq (left : Left fmt p rest) (enough : rest.length < fuel) :
    ∃ p', scanPrecision fmt va fuel k p =
        some ((readPrecision va k rest).1, p', (readPrecision va k rest).2.1) ∧
      Left fmt p' (readPrecision va k rest).2.2 := by
  simp only [scanPrecision, left.read, Option.bind_eq_bind, Option.bind_some, readPrecision]
  split_ifs with dot star
  · have next := left.tail (by decide) dot
    rw [next.read, Option.bind_some, if_pos star]
    exact ⟨p + 2, rfl, next.tail (by decide) star⟩
  · have next := left.tail (by decide) dot
    have fewer : rest.tail.length < fuel := by
      rw [List.length_tail]
      omega
    obtain ⟨p', run, left'⟩ := numberLoop_eq fuel next fewer 0
    rw [next.read, Option.bind_some, if_neg star, run]
    exact ⟨p', rfl, left'⟩
  · exact ⟨p, rfl, left⟩

theorem scanLength_eq (left : Left fmt p rest) :
    ∃ p', scanLength fmt p = some (p', (readLength rest).1) ∧ Left fmt p' (readLength rest).2 := by
  simp only [scanLength, left.read, Option.bind_eq_bind, Option.bind_some]
  split_ifs with l i
  · obtain ⟨more, rfl⟩ := exists_cons (by decide) l
    have next := left.next
    rw [next.read, Option.bind_some]
    split_ifs with ll
    · obtain ⟨more, rfl⟩ := exists_cons (by decide) ll
      exact ⟨p + 2, by simp [readLength], by simpa [readLength] using next.next⟩
    · have single : readLength (wch 'l' :: more) = (.long, more) := by
        cases more with
        | nil => rfl
        | cons c more => simp [readLength, show c ≠ wch 'l' from ll]
      rw [single]
      exact ⟨p + 1, rfl, next⟩
  · obtain ⟨more, rfl⟩ := exists_cons (by decide) i
    have next := left.next
    have other : wch 'I' ≠ wch 'l' := by decide
    rw [next.read, Option.bind_some]
    split_ifs with six
    · obtain ⟨more, rfl⟩ := exists_cons (by decide) six
      rw [next.next.read, Option.bind_some]
      split_ifs with four
      · obtain ⟨more, rfl⟩ := exists_cons (by decide) four
        exact ⟨p + 3, by simp [readLength, other],
          by simpa [readLength, other] using next.next.next⟩
      · have plain : readLength (wch 'I' :: wch '6' :: more) =
            (.default, wch 'I' :: wch '6' :: more) := by
          cases more with
          | nil => rfl
          | cons c more => simp [readLength, other, show c ≠ wch '4' from four]
        rw [plain]
        exact ⟨p, rfl, left⟩
    · have plain : readLength (wch 'I' :: more) = (.default, wch 'I' :: more) := by
        cases more with
        | nil => rfl
        | cons c more => simp [readLength, other, show c ≠ wch '6' from six]
      rw [plain]
      exact ⟨p, rfl, left⟩
  · have plain : readLength rest = (.default, rest) := by
      cases rest with
      | nil => rfl
      | cons c rest => simp [readLength, show c ≠ wch 'l' from l, show c ≠ wch 'I' from i]
    rw [plain]
    exact ⟨p, rfl, left⟩

theorem readLength_length : (readLength rest).2.length ≤ rest.length := by
  simp only [readLength]
  split_ifs <;> simp

theorem readWidth_length (f : Flags) : (readWidth va k rest f).2.2.length ≤ rest.length := by
  simp only [readWidth, readNumber]
  split_ifs
  · exact List.length_tail ▸ Nat.sub_le ..
  · exact (List.dropWhile_suffix _).length_le

theorem readPrecision_length : (readPrecision va k rest).2.2.length ≤ rest.length := by
  simp only [readPrecision, readNumber]
  split_ifs
  · exact ((List.tail_suffix _).trans (List.tail_suffix _)).length_le
  · exact ((List.dropWhile_suffix _).trans (List.tail_suffix _)).length_le
  · exact le_rfl

theorem scan_eq (left : Left fmt p rest) (enough : rest.length < fuel) :
    ∃ p', scan fmt va fuel k p =
        some ((readDirective va k rest).1, (readDirective va k rest).2.1, p') ∧
      Left fmt p' (readDirective va k rest).2.2 := by
  obtain ⟨p₁, flags, left₁⟩ := flagLoop_eq fuel left enough .none
  have fewer₁ := (List.dropWhile_suffix isFlag (l := rest)).length_le
  obtain ⟨p₂, width, left₂⟩ := scanWidth_eq va k left₁ (by omega : _ < fuel) (readFlags rest).1
  have fewer₂ : (readWidth va k (rest.dropWhile isFlag) (readFlags rest).1).2.2.length ≤
      (rest.dropWhile isFlag).length := readWidth_length va k _
  obtain ⟨p₃, precision, left₃⟩ := scanPrecision_eq va
    (readWidth va k (rest.dropWhile isFlag) (readFlags rest).1).1 left₂ (by omega : _ < fuel)
  obtain ⟨p₄, length, left₄⟩ := scanLength_eq left₃
  refine ⟨p₄, ?_, left₄⟩
  simp only [scan, flags, Option.bind_eq_bind, Option.bind_some]
  rw [show (rest.takeWhile isFlag).foldl (fun f c => (f.set c).getD f) .none =
    (readFlags rest).1 from rfl, width]
  simp only [Option.bind_some, precision, length]
  rfl

theorem readDirective_length : (readDirective va k rest).2.2.length ≤ rest.length :=
  calc (readDirective va k rest).2.2.length
      ≤ (readPrecision va _ (readWidth va k _ (readFlags rest).1).2.2).2.2.length :=
        readLength_length
    _ ≤ (readWidth va k _ (readFlags rest).1).2.2.length := readPrecision_length ..
    _ ≤ (readFlags rest).2.length := readWidth_length ..
    _ ≤ rest.length := (List.dropWhile_suffix _).length_le

end Scan

section Run

variable {fmt : List UInt16} (va : Nat → WideArg)

theorem putAll_append (s : Sink UInt16) (text more : List UInt16) :
    putAll (putAll s text) more = putAll s (text ++ more) :=
  Sink.putAllMod_append s text more

theorem wideLoop_calls (noNul : 0 ∉ fmt) {k p fuel : Nat} {rest text : List UInt16}
    (calls : Calls va k rest text) (left : Left fmt p rest) (enough : rest.length < fuel)
    (s : Sink UInt16) : wideLoop fmt va fuel s k p = some (putAll s text) := by
  induction calls generalizing p fuel s with
  | done k =>
    obtain ⟨fuel, rfl⟩ : ∃ n, fuel = n + 1 := ⟨fuel - 1, by omega⟩
    rw [wideLoop, left.read]
    rfl
  | @plain k c rest text plain calls ih =>
    obtain ⟨fuel, rfl⟩ : ∃ n, fuel = n + 1 := ⟨fuel - 1, by omega⟩
    rw [List.length_cons] at enough
    have nonzero : c ≠ 0 := by
      rintro rfl
      exact noNul (List.mem_of_mem_drop (left.drop ▸ List.mem_cons_self))
    rw [wideLoop, left.read]
    simp only [List.headD_cons, Option.bind_eq_bind, Option.bind_some, if_neg nonzero, if_pos plain]
    exact ih left.next (by omega) _
  | @percent k rest text calls ih =>
    obtain ⟨fuel, rfl⟩ : ∃ n, fuel = n + 1 := ⟨fuel - 1, by omega⟩
    rw [List.length_cons, List.length_cons] at enough
    have nonzero : wch '%' ≠ 0 := by decide
    rw [wideLoop, left.read]
    simp only [List.headD_cons, Option.bind_eq_bind, Option.bind_some, if_neg nonzero,
      left.next.read, ne_eq, not_true_eq_false, if_false, if_true]
    exact ih left.next.next (by omega) _
  | @directive k k' d c rest more text other read calls ih =>
    obtain ⟨fuel, rfl⟩ : ∃ n, fuel = n + 1 := ⟨fuel - 1, by omega⟩
    rw [List.length_cons] at enough
    have nonzero : wch '%' ≠ 0 := by decide
    have inside := left.next.inside
    have shorter : (readDirective va k rest).2.2.length ≤ rest.length := readDirective_length va k
    obtain ⟨p', run, left'⟩ := scan_eq va k left.next (by omega : rest.length < fmt.length + 1)
    rw [read] at run left' shorter
    rw [List.length_cons] at shorter
    rw [wideLoop, left.read]
    simp only [List.headD_cons, Option.bind_eq_bind, Option.bind_some, if_neg nonzero,
      left.next.read, ne_eq, not_true_eq_false, if_false, if_neg other, run, left'.read,
      wideConversion_eq]
    rw [ih left'.next (by omega), putAll_append]

/-- A run that comes to an end has seen a complete format. -/
theorem calls_of_wideLoop (noNul : 0 ∉ fmt) {fuel k p : Nat} {rest : List UInt16}
    (left : Left fmt p rest) {s : Sink UInt16} (ends : (wideLoop fmt va fuel s k p).isSome) :
    ∃ text, Calls va k rest text := by
  induction fuel generalizing p rest s k with
  | zero => cases ends
  | succ fuel ih =>
    rw [wideLoop, left.read] at ends
    simp only [Option.bind_eq_bind, Option.bind_some] at ends
    cases rest with
    | nil => exact ⟨[], .done k⟩
    | cons c rest =>
      have nonzero : c ≠ 0 := by
        rintro rfl
        exact noNul (List.mem_of_mem_drop (left.drop ▸ List.mem_cons_self))
      rw [List.headD_cons, if_neg nonzero] at ends
      by_cases plain : c ≠ wch '%'
      · rw [if_pos plain] at ends
        obtain ⟨text, calls⟩ := ih left.next ends
        exact ⟨_, .plain plain calls⟩
      · obtain rfl : c = wch '%' := not_not.mp plain
        rw [if_neg plain, left.next.read, Option.bind_some] at ends
        by_cases double : rest.headD 0 = wch '%'
        · rw [if_pos double] at ends
          obtain ⟨more, rfl⟩ := exists_cons (by decide) double
          obtain ⟨text, calls⟩ := ih left.next.next ends
          exact ⟨_, .percent calls⟩
        · have inside := left.next.inside
          obtain ⟨p', run, left'⟩ :=
            scan_eq va k left.next (by omega : rest.length < fmt.length + 1)
          rw [if_neg double, run] at ends
          simp only [Option.bind_some, left'.read, wideConversion_eq] at ends
          cases tail : (readDirective va k rest).2.2 with
          | nil =>
            -- the conversion character is the NUL, and the loop goes on behind it
            rw [tail] at left'
            cases fuel with
            | zero => cases ends
            | succ fuel =>
              rw [wideLoop, left'.past] at ends
              cases ends
          | cons c more =>
            rw [tail] at left' ends
            obtain ⟨text, calls⟩ := ih left'.next ends
            exact ⟨_, .directive (d := (readDirective va k rest).1) double
              (Prod.ext rfl (Prod.ext rfl tail)) calls⟩

end Run

theorem vsnwprintf_eq (out : Nat → UInt16) (count : UInt64) {fmt : WideString}
    {va : Nat → WideArg} {text : List UInt16} (calls : Calls va 0 fmt.units text) :
    vsnwprintf out count fmt va =
      let s := putAll ⟨out, count.toNat, 0⟩ text
      some (if s.count < count.toNat then Int32.ofNat s.count else -1, s.close) := by
  rw [vsnwprintf, wideLoop_calls va fmt.noNul calls (.start _) (Nat.lt_succ_self _)]
  rfl

theorem Calls.unique {va : Nat → WideArg} {k : Nat} {fmt text text' : List UInt16}
    (calls : Calls va k fmt text) (calls' : Calls va k fmt text') : text = text' := by
  induction calls generalizing text' with
  | done k =>
    cases calls'
    rfl
  | plain plain calls ih =>
    cases calls' with
    | plain _ calls' => rw [ih calls']
    | percent => exact absurd rfl plain
    | directive => exact absurd rfl plain
  | percent calls ih =>
    cases calls' with
    | plain plain => exact absurd rfl plain
    | percent calls' => rw [ih calls']
    | directive other => exact absurd rfl other
  | directive other read calls ih =>
    cases calls' with
    | plain plain => exact absurd rfl plain
    | percent => exact absurd rfl other
    | directive other' read' calls' =>
      cases read.symm.trans read'
      rw [ih calls']

/-- What is asked of a call that is to put out `text`. -/
structure Bounded (out : Nat → UInt16) (count : UInt64) (text : List UInt16) (n : Int32)
    (filled : Nat → UInt16) : Prop where
  inside : ∀ i, count.toNat ≤ i → filled i = out i
  ended : 0 < count.toNat → filled (min text.length (count.toNat - 1)) = 0
  returned : n.toInt = if text.length < count.toNat then (text.length : Int) else -1

/-- The lengths with which `(int)n` and the counter itself cope. -/
def Countable (count : UInt64) (length : Nat) : Prop :=
  length < 2 ^ 31 ∨ count.toNat ≤ length ∧ length < 2 ^ 64 ∨ count = 0

theorem bounded_of_countable (out : Nat → UInt16) {count : UInt64} {text : List UInt16}
    (countable : Countable count text.length) :
    let s := putAll ⟨out, count.toNat, 0⟩ text
    Bounded out count text (if s.count < count.toNat then Int32.ofNat s.count else -1) s.close := by
  have word := count.toNat_lt
  by_cases short : text.length < 2 ^ 64
  · have plain : putAll ⟨out, count.toNat, 0⟩ text = Sink.putAll ⟨out, count.toNat, 0⟩ text := by
      refine Sink.putAllMod_eq ?_
      show 0 + text.length < 2 ^ 64
      omega
    have cut := Sink.truncated_close out count.toNat text
    rw [plain]
    refine ⟨cut.inside, cut.ended, ?_⟩
    rw [Sink.putAll_count, Nat.zero_add]
    split_ifs with fits
    · refine Int32.toInt_ofNat_of_lt ?_
      rcases countable with small | ⟨full, -⟩ | rfl
      · exact small
      · exact absurd fits (Nat.not_lt.mpr full)
      · cases fits
    · rfl
  · have none_ : count = 0 := by
      rcases countable with small | ⟨-, small⟩ | none_
      · omega
      · exact absurd small short
      · exact none_
    subst none_
    refine ⟨fun i _ => ?_, fun some_ => absurd some_ (by decide), rfl⟩
    rw [Sink.close_outside (Nat.zero_le i |>.trans' (Nat.le_of_eq (Sink.putAllMod_size ..)))]
    exact congrFun (Sink.putAllMod_none rfl text) i

theorem countable_of_bounded {count : UInt64} {text : List UInt16}
    (bounded : ∀ out, let s := putAll ⟨out, count.toNat, 0⟩ text
      Bounded out count text (if s.count < count.toNat then Int32.ofNat s.count else -1) s.close) :
    Countable count text.length := by
  have word := count.toNat_lt
  by_contra uncountable
  obtain ⟨long, other, some_⟩ := by simpa only [Countable, not_or] using uncountable
  have room : 0 < count.toNat := by
    refine Nat.pos_of_ne_zero fun zero => some_ ?_
    exact UInt64.toNat_inj.mp zero
  by_cases short : text.length < 2 ^ 64
  · -- the length does not fit in an `int`
    have plain : Sink.putAllMod (2 ^ 64) ⟨fun _ => 0, count.toNat, 0⟩ text =
        Sink.putAll ⟨fun _ => 0, count.toNat, 0⟩ text := by
      refine Sink.putAllMod_eq ?_
      show 0 + text.length < 2 ^ 64
      omega
    have returned := (bounded fun _ => 0).returned
    have fits : text.length < count.toNat := by omega
    have small := (Int32.ofNat text.length).toInt_lt
    rw [putAll, plain, Sink.putAll_count, Nat.zero_add, if_pos fits, if_pos fits] at returned
    omega
  · -- the counter comes round to the last of all indices
    have kept (b : UInt16) : (putAll ⟨fun _ => b, count.toNat, 0⟩ text).buf (2 ^ 64 - 1) = b := by
      have inside := (bounded fun _ => b).inside (2 ^ 64 - 1) (by omega)
      rwa [Sink.close_outside] at inside
      rw [putAll, Sink.putAllMod_size]
      show count.toNat ≤ 2 ^ 64 - 1
      omega
    have same : (putAll ⟨fun _ => 1, count.toNat, 0⟩ text).buf (2 ^ 64 - 1) =
        (putAll ⟨fun _ => 0, count.toNat, 0⟩ text).buf (2 ^ 64 - 1) :=
      Sink.putAllMod_overrun (s := ⟨fun _ => 0, count.toNat, 0⟩) (t := ⟨fun _ => 1, count.toNat, 0⟩)
        rfl rfl room (by show 0 < 2 ^ 64; omega) (by show 2 ^ 64 ≤ 0 + text.length; omega)
    rw [kept, kept] at same
    exact absurd same (by decide)

theorem vsnwprintf_bounded (count : UInt64) (fmt : WideString) (va : Nat → WideArg) :
    (∀ out, ∃ n filled, vsnwprintf out count fmt va = some (n, filled) ∧
        ∀ text, Calls va 0 fmt.units text → Bounded out count text n filled) ↔
      ∃ text, Calls va 0 fmt.units text ∧ Countable count text.length := by
  constructor
  · intro law
    have complete : ∃ text, Calls va 0 fmt.units text := by
      obtain ⟨n, filled, run, -⟩ := law fun _ => 0
      obtain ⟨s, ends, -⟩ := Option.bind_eq_some_iff.mp run
      exact calls_of_wideLoop va fmt.noNul (.start _) (by rw [ends]; rfl)
    obtain ⟨text, calls⟩ := complete
    refine ⟨text, calls, countable_of_bounded fun out => ?_⟩
    obtain ⟨n, filled, run, bounded⟩ := law out
    rw [vsnwprintf_eq out count calls] at run
    cases run
    exact bounded text calls
  · rintro ⟨text, calls, countable⟩ out
    refine ⟨_, _, vsnwprintf_eq out count calls, fun text' calls' => ?_⟩
    rw [calls'.unique calls]
    exact bounded_of_countable out countable

/-- Exactly when the three formatters stay inside their inputs and buffers. -/
theorem formatters_bounded (fmt : Rtl.CString) (va : Nat → Rtl.VaArg) (wide : WideString)
    (wideVa : Nat → WideArg) (count : UInt64) :
    ((∀ memory, ∃ r, printf memory fmt va = some r ∧
        ∀ i, bufSize ≤ i → r.memory i = memory i) ↔
      ¬ Dangling fmt.bytes ∧ (calledText fmt va).length < bufSize) ∧
    (∀ out, (wsprintfA out fmt va).isSome ↔ ¬ Dangling fmt.bytes) ∧
    ((∀ out, ∃ n filled, vsnwprintf out count wide wideVa = some (n, filled) ∧
        ∀ text, Calls wideVa 0 wide.units text → Bounded out count text n filled) ↔
      ∃ text, Calls wideVa 0 wide.units text ∧ Countable count text.length) :=
  ⟨printf_inside fmt va, fun out => wsprintfA_isSome out fmt va,
    vsnwprintf_bounded count wide wideVa⟩

/-- A single percent sign is read past by all three. -/
theorem percent_overread :
    (∀ memory va, printf memory (.lit "%") va = none) ∧
    (∀ out va, wsprintfA out (.lit "%") va = none) ∧
    ∀ out va, vsnwprintf out 16 (.lit "%") va = none :=
  ⟨fun _ _ => rfl, fun _ _ => rfl, fun _ _ => rfl⟩

end Msvcrt
