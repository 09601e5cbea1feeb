import Mathlib.Data.Nat.Digits.Lemmas
import Mathlib.Tactic.IntervalCases
import Svindows.Rtl.BoundedText

/-!
# Numerals in wide strings

`_ultow_s` writes a number of 32 bits, and `wcstol` and `wcstoul` read one. The digits wait
in a scratch array of 24 units, lowest first; a store behind it is `none`.
-/

namespace Rtl

open Nt

/-- The unit of a digit. -/
def digitUnit (d : UInt32) : UInt16 := (if d < 10 then 48 + d else 97 + d - 10).toUInt16

/-- The `do` loop of `_ultow_s`, with the room that is left in `tmp`. -/
def ultowLoop (base : UInt32) : Nat → UInt32 → Option (List UInt16)
  | 0, _ => none
  | room + 1, value =>
    let digit := digitUnit (value % base)
    let value := value / base
    if value = 0 then some [digit] else (ultowLoop base room value).map (digit :: ·)

def sizeofTmp : Nat := 24

/-- The digits are copied to `dst`, the highest first, if there is room for them and a NUL. -/
def ultowStore (tmp : List UInt16) (dst : Units) (cap : UInt32) : Bool × Units :=
  let n := tmp.length
  if cap = 0 ∨ cap.toNat < n + 1 then (false, dst)
  else (true, fun i => if i < n then tmp.getD (n - 1 - i) 0 else if i = n then 0 else dst i)

/-- `_ultow_s`: whether it returns `dst`, and what is there then. -/
def ultowS (value : UInt32) (dst : Units) (cap : UInt32) (base : Int32) : Option (Bool × Units) :=
  let base := if base = 0 ∨ 36 < base then 10 else base
  (ultowLoop base.toUInt32 sizeofTmp value).map fun tmp => ultowStore tmp dst cap

/-- The digit that `wcstol` takes a unit for. -/
def unitDigit (base : Int32) (c : UInt16) : Option UInt32 :=
  if 48 ≤ c ∧ c ≤ 57 then some (c - 48).toUInt32
  else if base = 16 ∧ 97 ≤ c ||| 32 ∧ c ||| 32 ≤ 102 then some ((c ||| 32) - 97 + 10).toUInt32
  else none

structure Parse where
  text : Nat
  v : UInt32
  any : Bool

def parseTurn (s : Units) (base : Int32) (p : Parse) : Parse ⊕ Parse :=
  match unitDigit base (s p.text) with
  | none => .inl p
  | some d =>
    if base.toUInt32 ≤ d then .inl p
    else .inr ⟨p.text + 1, p.v * base.toUInt32 + d, true⟩

/-- `wcstol`: the status, the index of `end` and `out`; none when the fuel runs out. -/
def wcstol (fuel : Nat) (s : Units) (base : Int32) : Option (NtStatus × Nat × Int32) :=
  let neg := s 0 = 45
  (Loop.run (parseTurn s base) fuel ⟨if neg then 1 else 0, 0, false⟩).map fun p =>
    (if p.any then statusSuccess else statusInvalidParameter, p.text,
      if neg then -p.v.toInt32 else p.v.toInt32)

def wcstoul (fuel : Nat) (s : Units) (base : Int32) : Option (NtStatus × Nat × UInt32) :=
  (wcstol fuel s base).map fun (status, stop, out) => (status, stop, out.toUInt32)

/-- `text` stands at a pointer, with its NUL. -/
structure Shows (s : Units) (text : List UInt16) : Prop where
  units : ∀ i < text.length, some (s i) = text[i]?
  nul : s text.length = 0

/-- `text` has the digits of a number in a base, the highest first and no zero before others. -/
def Shortest (base value : Nat) (text : List UInt16) : Prop :=
  ∃ digits : List Nat, text = digits.map (fun d => digitUnit (UInt32.ofNat d)) ∧
    (∀ d ∈ digits, d < base) ∧ Nat.ofDigits base digits.reverse = value ∧
    digits ≠ [] ∧ (digits.head? = some 0 → digits = [0])

/-- A number is written inside the two arrays and, in the bases that are read, read back. -/
def RoundTrip (value : UInt32) (base : Nat) (cap : UInt32) : Prop :=
  ∀ dst, ∃ done dst', ultowS value dst cap (Int32.ofNat base) = some (done, dst') ∧
    (∀ i, cap.toNat ≤ i → dst' i = dst i) ∧
    (done = true → ∃ text, Shows dst' text ∧ Shortest base value.toNat text ∧
      (base = 10 ∨ base = 16 → ∃ fuel, wcstoul fuel dst' (Int32.ofNat base) =
        some (statusSuccess, text.length, value)))

/-- The digits of a number, the lowest first; zero has one. -/
def lowDigits (base n : Nat) : List Nat := if n = 0 then [0] else Nat.digits base n

theorem ofDigits_lowDigits (b n : Nat) : Nat.ofDigits b (lowDigits b n) = n := by
  rw [lowDigits]
  split
  · next zero => simp [zero]
  · exact Nat.ofDigits_digits b n

theorem lowDigits_ne_nil (b n : Nat) : lowDigits b n ≠ [] := by
  rw [lowDigits]
  split
  · exact List.cons_ne_nil 0 []
  · next some_ => exact Nat.digits_ne_nil_iff_ne_zero.mpr some_

theorem lowDigits_getLast {b n : Nat} (zero : (lowDigits b n).getLast? = some 0) :
    lowDigits b n = [0] := by
  rw [lowDigits] at zero ⊢
  split
  · rfl
  · next some_ =>
    rw [if_neg some_, List.getLast?_eq_getLast_of_ne_nil
      (Nat.digits_ne_nil_iff_ne_zero.mpr some_)] at zero
    exact absurd (Option.some.inj zero) (Nat.getLast_digit_ne_zero b some_)

section Digits

variable {b : Nat} (big : 1 < b)
include big

theorem lowDigits_step (n : Nat) :
    lowDigits b n = n % b :: if n / b = 0 then [] else lowDigits b (n / b) := by
  rw [lowDigits, lowDigits]
  by_cases zero : n = 0
  · subst zero
    simp
  · rw [if_neg zero, Nat.digits_def' big (Nat.pos_of_ne_zero zero)]
    by_cases last : n / b = 0
    · simp [last]
    · rw [if_neg last, if_neg last]

theorem lowDigits_lt {n d : Nat} (member : d ∈ lowDigits b n) : d < b := by
  rw [lowDigits] at member
  split at member
  · rw [List.mem_singleton.mp member]
    omega
  · exact Nat.digits_lt_base big member

theorem shortest_lowDigits (n : Nat) :
    Shortest b n ((lowDigits b n).reverse.map fun d => digitUnit (UInt32.ofNat d)) := by
  refine ⟨_, rfl, fun d member => lowDigits_lt big (List.mem_reverse.mp member), ?_, ?_, ?_⟩
  · rw [List.reverse_reverse, ofDigits_lowDigits]
  · exact fun empty => lowDigits_ne_nil b n (List.reverse_eq_nil_iff.mp empty)
  · intro zero
    rw [List.head?_reverse] at zero
    rw [lowDigits_getLast zero]
    rfl

variable {base : UInt32} (same : base.toNat = b)
include same

omit big in
theorem mod_base (value : UInt32) : value % base = UInt32.ofNat (value.toNat % b) := by
  rw [← same, ← UInt32.toNat_mod, UInt32.ofNat_toNat]

theorem ultowLoop_some {room : Nat} {value : UInt32} (fits : value.toNat < b ^ (room + 1)) :
    ultowLoop base (room + 1) value =
      some ((lowDigits b value.toNat).map fun d => digitUnit (UInt32.ofNat d)) := by
  induction room generalizing value with
  | zero =>
    have last : value.toNat / b = 0 := Nat.div_eq_of_lt (by simpa using fits)
    have done : value / base = 0 := by
      refine UInt32.toNat_inj.mp ?_
      rw [UInt32.toNat_div, same, last]
      rfl
    rw [lowDigits_step big, if_pos last, ultowLoop, mod_base same]
    exact if_pos done
  | succ room ih =>
    have quotient : (value / base).toNat = value.toNat / b := by rw [UInt32.toNat_div, same]
    have smaller : (value / base).toNat < b ^ (room + 1) := by
      rw [quotient, Nat.div_lt_iff_lt_mul (by omega), ← Nat.pow_succ]
      exact fits
    have rest := ih smaller
    rw [quotient] at rest
    have done : value / base = 0 ↔ value.toNat / b = 0 := by
      rw [← quotient, ← UInt32.toNat_inj]
      rfl
    rw [lowDigits_step big, ultowLoop, mod_base same]
    simp only [done]
    split
    · rfl
    · rw [rest]
      rfl

theorem ultowLoop_none {room : Nat} {value : UInt32} (long : b ^ room ≤ value.toNat) :
    ultowLoop base room value = none := by
  induction room generalizing value with
  | zero => rfl
  | succ room ih =>
    have more : b ^ room ≤ (value / base).toNat := by
      rw [UInt32.toNat_div, same, Nat.le_div_iff_mul_le (by omega), ← Nat.pow_succ]
      exact long
    have nonzero : value / base ≠ 0 := by
      intro zero
      rw [zero] at more
      exact absurd (Nat.lt_of_lt_of_le (Nat.pow_pos (by omega)) more) (by decide)
    simp only [ultowLoop, if_neg nonzero, ih more, Option.map_none]

end Digits

section Reading

variable {s : Units} {base : Int32} {b : Nat}

/-- In this base the digits that are written are the ones read. -/
structure Readable (base : Int32) (b : Nat) : Prop where
  value : base.toUInt32 = UInt32.ofNat b
  digit : ∀ d < b, unitDigit base (digitUnit (UInt32.ofNat d)) = some (UInt32.ofNat d) ∧
    ¬ base.toUInt32 ≤ UInt32.ofNat d

theorem readable_ten : Readable (Int32.ofNat 10) 10 := ⟨rfl, by decide⟩

theorem readable_sixteen : Readable (Int32.ofNat 16) 16 := ⟨rfl, by decide⟩

theorem unitDigit_nul (base : Int32) : unitDigit base 0 = none := by
  have digit : ¬ ((48 : UInt16) ≤ 0 ∧ (0 : UInt16) ≤ 57) := by decide
  have letter : ¬ ((97 : UInt16) ≤ 0 ||| 32) := by decide
  rw [unitDigit, if_neg digit, if_neg fun h => letter h.2.1]

/-- The digits that are left go into the value. -/
theorem parse_run (readable : Readable base b) {rest : List Nat} (low : ∀ d ∈ rest, d < b)
    {p : Nat} (units : ∀ i < rest.length, some (s (p + i)) =
      (rest.map fun d => digitUnit (UInt32.ofNat d))[i]?)
    (nul : s (p + rest.length) = 0) (v : Nat) (any : Bool) :
    Loop.run (parseTurn s base) (rest.length + 1) ⟨p, UInt32.ofNat v, any⟩ =
      some ⟨p + rest.length, UInt32.ofNat (rest.foldl (fun n d => n * b + d) v),
        any || !rest.isEmpty⟩ := by
  induction rest generalizing p v any with
  | nil =>
    have turn : parseTurn s base ⟨p, UInt32.ofNat v, any⟩ = .inl ⟨p, UInt32.ofNat v, any⟩ := by
      have here : s p = 0 := nul
      simp only [parseTurn, here, unitDigit_nul]
    rw [List.length_nil, Loop.run_inl turn]
    simp
  | cons d rest ih =>
    have head : s p = digitUnit (UInt32.ofNat d) := Option.some.inj (units 0 (Nat.zero_lt_succ _))
    obtain ⟨read, small⟩ := readable.digit d (low d List.mem_cons_self)
    have turn : parseTurn s base ⟨p, UInt32.ofNat v, any⟩ =
        .inr ⟨p + 1, UInt32.ofNat (v * b + d), true⟩ := by
      simp only [parseTurn, head, read, if_neg small]
      rw [readable.value, UInt32.ofNat_add, UInt32.ofNat_mul]
    have next : ∀ i, p + 1 + i = p + (i + 1) := fun i => by omega
    have later := ih (p := p + 1) (fun d member => low d (List.mem_cons_of_mem _ member))
      (fun i less => by
        rw [next]
        exact units (i + 1) (Nat.succ_lt_succ less))
      (by
        rw [next]
        exact nul) (v * b + d) true
    rw [List.length_cons, Loop.run_inr turn, later, next]
    simp

theorem foldl_eq_ofDigits (b : Nat) (digits : List Nat) :
    digits.foldl (fun n d => n * b + d) 0 = Nat.ofDigits b digits.reverse := by
  rw [Nat.ofDigits_eq_foldr, List.foldr_reverse]
  refine congrArg (fun f => digits.foldl f 0) ?_
  funext n d
  rw [Nat.cast_id, Nat.mul_comm, Nat.add_comm]

theorem digitUnit_ne_minus : ∀ d < 16, digitUnit (UInt32.ofNat d) ≠ 45 := by decide

/-- A numeral is read back. -/
theorem wcstoul_numeral (readable : Readable base b) (small : b ≤ 16) {value : UInt32}
    {text : List UInt16} (shows : Shows s text) (numeral : Shortest b value.toNat text) :
    ∃ fuel, wcstoul fuel s base = some (statusSuccess, text.length, value) := by
  obtain ⟨digits, rfl, low, reads, nonempty, -⟩ := numeral
  have length : (digits.map fun d => digitUnit (UInt32.ofNat d)).length = digits.length :=
    List.length_map ..
  have plain : s 0 ≠ 45 := by
    obtain ⟨d, rest, rfl⟩ := List.exists_cons_of_ne_nil nonempty
    have head := Option.some.inj (shows.units 0 (by simp))
    rw [head]
    exact digitUnit_ne_minus d (Nat.lt_of_lt_of_le (low d List.mem_cons_self) small)
  have run := parse_run (s := s) (p := 0) readable low
    (fun i less => by
      rw [Nat.zero_add]
      exact shows.units i (by rwa [length]))
    (by
      rw [Nat.zero_add, ← length]
      exact shows.nul) 0 false
  rw [foldl_eq_ofDigits, reads, UInt32.ofNat_toNat] at run
  refine ⟨digits.length + 1, ?_⟩
  have some_ : digits.isEmpty = false := by simpa using nonempty
  simp only [wcstoul, wcstol, plain, if_false, length]
  rw [show (0 : UInt32) = UInt32.ofNat 0 from rfl, run]
  simp [some_]

end Reading

section RoundTrip

variable {b : Nat}

theorem base_kept : ∀ b < 37, 2 ≤ b → ¬ (Int32.ofNat b = 0 ∨ 36 < Int32.ofNat b) ∧
    (Int32.ofNat b).toUInt32.toNat = b := by
  decide

/-- What `_ultow_s` leaves at `dst` when there is room. -/
theorem shows_reversed {tmp : List UInt16} (dst : Units) : Shows (fun i =>
    if i < tmp.length then tmp.getD (tmp.length - 1 - i) 0
    else if i = tmp.length then 0 else dst i) tmp.reverse where
  units i less := by
    rw [List.length_reverse] at less
    rw [if_pos less, List.getElem?_reverse less, List.getD_eq_getElem?_getD,
      List.getElem?_eq_getElem (by omega), Option.getD_some]
  nul := by simp

theorem ultowS_room {value cap : UInt32} (low : 2 ≤ b) (high : b ≤ 36)
    (room : value.toNat < b ^ sizeofTmp) (dst : Units) :
    ∃ done dst', ultowS value dst cap (Int32.ofNat b) = some (done, dst') ∧
      (∀ i, cap.toNat ≤ i → dst' i = dst i) ∧
      (done = true → ∃ text, Shows dst' text ∧ Shortest b value.toNat text) := by
  obtain ⟨kept, same⟩ := base_kept b (Nat.lt_succ_of_le high) low
  have fits : value.toNat < b ^ (23 + 1) := room
  have digits := ultowLoop_some low same fits
  have call : ultowS value dst cap (Int32.ofNat b) = some (ultowStore
      ((lowDigits b value.toNat).map fun d => digitUnit (UInt32.ofNat d)) dst cap) := by
    rw [ultowS, if_neg kept, show sizeofTmp = 23 + 1 from rfl, digits, Option.map_some]
  have numeral := shortest_lowDigits low value.toNat
  rw [List.map_reverse] at numeral
  generalize (lowDigits b value.toNat).map (fun d => digitUnit (UInt32.ofNat d)) = tmp
    at call numeral
  rw [ultowStore] at call
  by_cases short : cap = 0 ∨ cap.toNat < tmp.length + 1
  · rw [if_pos short] at call
    exact ⟨false, dst, call, fun _ _ => rfl, nofun⟩
  · rw [if_neg short] at call
    refine ⟨true, _, call, fun i outside => ?_, fun _ => ⟨_, shows_reversed dst, numeral⟩⟩
    rw [if_neg (by omega), if_neg (by omega)]

/-- The scratch array is too short for base 2 from 2 ^ 24 on, and for nothing else. -/
theorem room_iff {value : UInt32} (low : 2 ≤ b) :
    value.toNat < b ^ sizeofTmp ↔ b ≠ 2 ∨ value.toNat < 2 ^ 24 := by
  have word := value.toNat_lt
  rcases Nat.eq_or_lt_of_le low with rfl | more
  · exact ⟨Or.inr, fun h => h.resolve_left (not_not_intro rfl)⟩
  · have power : 3 ^ sizeofTmp ≤ b ^ sizeofTmp := Nat.pow_le_pow_left more sizeofTmp
    have enough : 2 ^ 32 ≤ 3 ^ sizeofTmp := by decide
    exact iff_of_true (by omega) (Or.inl (by omega))

theorem roundTrip_beyond {value cap : UInt32} (low : 2 ≤ b) (high : b ≤ 36)
    (long : b ^ sizeofTmp ≤ value.toNat) : ¬ RoundTrip value b cap := by
  intro trip
  obtain ⟨kept, same⟩ := base_kept b (Nat.lt_succ_of_le high) low
  obtain ⟨done, dst', call, -⟩ := trip fun _ => 0
  rw [ultowS, if_neg kept, ultowLoop_none low same long] at call
  cases call

/-- The round trip holds if and only if the digits fit the scratch array. -/
theorem roundTrip_iff (value : UInt32) (base : Nat) (cap : UInt32) (low : 2 ≤ base)
    (high : base ≤ 36) :
    RoundTrip value base cap ↔ base ≠ 2 ∨ value.toNat < 2 ^ 24 := by
  rw [← room_iff low]
  refine ⟨fun trip => ?_, fun room dst => ?_⟩
  · by_contra long
    exact roundTrip_beyond low high (Nat.not_lt.mp long) trip
  · obtain ⟨done, dst', call, inside, written⟩ := ultowS_room low high room dst
    refine ⟨done, dst', call, inside, fun success => ?_⟩
    obtain ⟨text, shows, numeral⟩ := written success
    refine ⟨text, shows, numeral, ?_⟩
    rintro (rfl | rfl)
    · exact wcstoul_numeral readable_ten (by decide) shows numeral
    · exact wcstoul_numeral readable_sixteen (by decide) shows numeral

theorem roundTrip_largest : RoundTrip 4294967295 10 32 :=
  (roundTrip_iff 4294967295 10 32 (by decide) (by decide)).mpr (Or.inl (by decide))

/-- The 25 digits of 2 ^ 24 in base 2. -/
theorem roundTrip_binary : ¬ RoundTrip 16777216 2 64 :=
  roundTrip_beyond (by decide) (by decide) (by decide)

end RoundTrip

end Rtl
