import Svindows.Lib.Loop
import Svindows.Nt.Defs
import Mathlib.Tactic.SplitIfs

/-!
# Bounded wide strings

`wcsncpy_s`, `wcscpy_s`, `wcscat_s` and `wcsncat_s` of ntdll, on units of memory. `SIZE_T`
has 32 bits: so has the length that `wcslen` counts, and so has the number of bytes that
`memcpy` is given.
-/

namespace Rtl

open Nt

/-- The units from a pointer on. -/
abbrev Units := Nat → UInt16

/-- A string of `n` units with its NUL. -/
structure TextAt (s : Units) (n : Nat) : Prop where
  nonzero : ∀ i < n, s i ≠ 0
  nul : s n = 0

/-- The error that `wcscpy_s` reports for a string that does not fit. -/
def bufferError : NtStatus := 0x8007007A

def lenTurn (s : Units) (n : Nat) : Nat ⊕ Nat :=
  if s n = 0 then .inl n else .inr (wrap32 (n + 1))

def wcslen (fuel : Nat) (s : Units) : Option Nat := Loop.run (lenTurn s) fuel 0

/-- `memcpy(dst, src, n * sizeof(WCHAR))`. -/
def copyUnits (dst src : Units) (n : Nat) : Units := fun i =>
  if i < wrap32 (n * 2) / 2 then src i else dst i

/-- The loop of `wcsncpy_s`, with the turns that the count still allows. -/
def ncpyLoop (s : Units) : Nat → Nat → Nat
  | 0, n => n
  | turns + 1, n => if s n = 0 then n else ncpyLoop s turns (n + 1)

/-- `wcsncpy_s` for a destination that is not NULL. -/
def wcsncpyS (dst : Units) (cap : UInt32) (src : Option Units) (count : UInt32) : Units :=
  if cap = 0 then dst
  else
    match src with
    | none => Function.update dst 0 0
    | some s =>
      let n := ncpyLoop s (count - 1).toNat 0
      Function.update (copyUnits dst s n) n 0

/-- `wcscpy_s` for a destination that is not NULL. The `memcpy` faults on a NULL source;
`wcslen` may not end. -/
def wcscpyS (fuel : Nat) (dst : Units) (cap : UInt32) (src : Option Units) :
    Option (NtStatus × Units) :=
  if cap = 0 then some (statusInvalidParameter, dst)
  else
    match src with
    | none => none
    | some s => (wcslen fuel s).map fun n =>
      if cap.toNat ≤ n then (bufferError, Function.update dst 0 0)
      else (statusSuccess, copyUnits dst s (n + 1))

def wcscatS (fuel : Nat) (dst : Units) (cap : UInt32) (src : Option Units) :
    Option (NtStatus × Units) :=
  (wcslen fuel dst).bind fun used =>
    (wcscpyS fuel (fun i => dst (used + i)) (cap - UInt32.ofNat used) src).map fun (status, tail) =>
      (status, fun i => if used ≤ i then tail (i - used) else dst i)

/-- The loop of `wcsncat_s`, with the turns that the count still allows. -/
def ncatLoop (cap used : Nat) (s : Units) : Nat → Nat → Units → NtStatus × Units
  | 0, i, dst => (statusSuccess, Function.update dst (wrap32 (used + i)) 0)
  | turns + 1, i, dst =>
    if s i = 0 then (statusSuccess, Function.update dst (wrap32 (used + i)) 0)
    else if cap - 1 ≤ wrap32 (used + i) then (statusInvalidParameter, dst)
    else ncatLoop cap used s turns (i + 1) (Function.update dst (wrap32 (used + i)) (s i))

def wcsncatS (fuel : Nat) (dst : Units) (cap : UInt32) (src : Units) (count : UInt32) :
    Option (NtStatus × Units) :=
  (wcslen fuel dst).map fun used =>
    if cap.toNat ≤ used then (statusInvalidParameter, dst)
    else ncatLoop cap.toNat used src count.toNat 0 dst

/-- Only units below the capacity are written, and a NUL is among them. -/
structure Respects (cap : UInt32) (dst dst' : Units) : Prop where
  inside : ∀ i, cap.toNat ≤ i → dst' i = dst i
  ended : ∃ i < cap.toNat, dst' i = 0

/-- The first `n` units of `s` stand at `k`, with a NUL behind them. -/
structure Holds (dst' : Units) (k : Nat) (s : Units) (n : Nat) : Prop where
  units : ∀ i < n, dst' (k + i) = s i
  nul : dst' (k + n) = 0

/-- `wcsncpy_s` of `n` units, whatever the destination holds before. -/
def NcpyBounded (cap count : UInt32) (s : Units) (n : Nat) : Prop :=
  ∀ dst, Respects cap dst (wcsncpyS dst cap (some s) count) ∧
    (min n count.toNat < cap.toNat →
      Holds (wcsncpyS dst cap (some s) count) 0 s (min n count.toNat))

def CpyBounded (cap : UInt32) (s : Units) (n : Nat) : Prop :=
  ∀ dst, ∃ fuel status dst', wcscpyS fuel dst cap (some s) = some (status, dst') ∧
    Respects cap dst dst' ∧ (status = statusSuccess → Holds dst' 0 s n)

/-- `wcscat_s` of `n` units to a string of `used` units. -/
def CatBounded (cap : UInt32) (used : Nat) (s : Units) (n : Nat) : Prop :=
  ∀ dst, TextAt dst used → ∃ fuel status dst',
    wcscatS fuel dst cap (some s) = some (status, dst') ∧ Respects cap dst dst' ∧
    (status = statusSuccess → (∀ i < used, dst' i = dst i) ∧ Holds dst' used s n)

/-- `wcsncat_s` of `n` units to the string of `used` units in `dst`. -/
def NcatBounded (cap count : UInt32) (dst : Units) (used : Nat) (s : Units) (n : Nat) : Prop :=
  ∃ fuel status dst', wcsncatS fuel dst cap s count = some (status, dst') ∧
    Respects cap dst dst' ∧
    (status = statusSuccess → (∀ i < used, dst' i = dst i) ∧ Holds dst' used s (min n count.toNat))

section Lengths

variable {s : Units} {n : Nat}

theorem TextAt.turn (text : TextAt s n) {k : Nat} (before : k < n) (word : k + 1 < 2 ^ 32) :
    lenTurn s k = .inr (k + 1) := by
  simp only [lenTurn, if_neg (text.nonzero k before), wrap32, Nat.mod_eq_of_lt word]

theorem TextAt.run (text : TextAt s n) (short : n < 2 ^ 32) {left k : Nat} (sum : k + left = n) :
    Loop.run (lenTurn s) (left + 1) k = some n := by
  induction left generalizing k with
  | zero =>
    obtain rfl : k = n := sum
    have done : lenTurn s k = .inl k := if_pos text.nul
    exact Loop.run_inl done 0
  | succ left ih =>
    rw [Loop.run_inr (text.turn (by omega) (by omega))]
    exact ih (by omega)

theorem TextAt.wcslen (text : TextAt s n) (short : n < 2 ^ 32) {fuel : Nat} (enough : n < fuel) :
    wcslen fuel s = some n := by
  obtain ⟨more, rfl⟩ := Nat.exists_eq_add_of_lt enough
  rw [Rtl.wcslen, Nat.add_right_comm]
  exact Loop.run_mono (text.run short (Nat.zero_add n)) more

theorem TextAt.wcslen_unique (text : TextAt s n) (short : n < 2 ^ 32) {fuel r : Nat}
    (found : Rtl.wcslen fuel s = some r) : r = n :=
  Loop.run_unique found (text.wcslen short (Nat.lt_succ_self n))

/-- The counter comes round before it reaches the NUL. -/
theorem TextAt.run_long (text : TextAt s n) (long : 2 ^ 32 ≤ n) (fuel : Nat) {k : Nat}
    (word : k < 2 ^ 32) : Loop.run (lenTurn s) fuel k = none := by
  induction fuel generalizing k with
  | zero => rfl
  | succ fuel ih =>
    have turn : lenTurn s k = .inr (wrap32 (k + 1)) :=
      if_neg (text.nonzero k (Nat.lt_of_lt_of_le word long))
    rw [Loop.run_inr turn]
    exact ih (Nat.mod_lt _ (Nat.two_pow_pos 32))

theorem TextAt.ncpyLoop (text : TextAt s n) {turns k : Nat} (before : k ≤ n) :
    ncpyLoop s turns k = min n (k + turns) := by
  induction turns generalizing k with
  | zero =>
    rw [Rtl.ncpyLoop]
    omega
  | succ turns ih =>
    rw [Rtl.ncpyLoop]
    split_ifs with zero
    · have : ¬ k < n := fun less => text.nonzero k less zero
      omega
    · have : k ≠ n := fun same => zero (same ▸ text.nul)
      rw [ih (by omega)]
      omega

end Lengths

theorem copyUnits_short {dst s : Units} {n : Nat} (short : n < 2 ^ 31) (i : Nat) :
    copyUnits dst s n i = if i < n then s i else dst i := by
  have word : wrap32 (n * 2) / 2 = n := by
    simp only [wrap32]
    omega
  simp only [copyUnits, word]

theorem copyUnits_outside {dst s : Units} {n i : Nat} (outside : n ≤ i) :
    copyUnits dst s n i = dst i := by
  have cut : wrap32 (n * 2) / 2 ≤ n := by
    simp only [wrap32]
    omega
  exact if_neg (by omega)

/-- From 4 GiB on the end of the string is not copied. -/
theorem copyUnits_long {dst s : Units} {n i : Nat} (long : 2 ^ 31 ≤ n) (short : n < 2 ^ 32)
    (last : n ≤ i + 1) : copyUnits dst s n i = dst i := by
  have cut : wrap32 (n * 2) / 2 = n - 2 ^ 31 := by
    simp only [wrap32]
    omega
  exact if_neg (by omega)

/-- Contents that are neither a NUL nor what the string has. -/
def unlike (s : Units) : Units := fun i => if s i = 1 then 2 else 1

theorem unlike_ne_zero (s : Units) (i : Nat) : unlike s i ≠ 0 := by
  simp only [unlike]
  split_ifs <;> decide

theorem unlike_ne (s : Units) (i : Nat) : unlike s i ≠ s i := by
  simp only [unlike]
  split_ifs with one
  · rw [one]
    decide
  · exact Ne.symm one

theorem cap_pos {cap : UInt32} (positive : 0 < cap.toNat) : cap ≠ 0 := by
  rintro rfl
  exact absurd positive (by decide)

section Ncpy

variable {cap count : UInt32} {s : Units} {n : Nat}

theorem pred_toNat (count : UInt32) :
    (count - 1).toNat = if count.toNat = 0 then 2 ^ 32 - 1 else count.toNat - 1 := by
  have word := count.toNat_lt
  rw [UInt32.toNat_sub, show (1 : UInt32).toNat = 1 from rfl]
  split_ifs <;> omega

theorem wcsncpyS_eq (text : TextAt s n) (positive : 0 < cap.toNat) (dst : Units) :
    wcsncpyS dst cap (some s) count =
      Function.update (copyUnits dst s (min n (count - 1).toNat)) (min n (count - 1).toNat) 0 := by
  simp only [wcsncpyS, if_neg (cap_pos positive)]
  rw [text.ncpyLoop (Nat.zero_le n), Nat.zero_add]

theorem respects_of_index {cap : UInt32} {dst s : Units} {k : Nat} (below : k < cap.toNat) :
    Respects cap dst (Function.update (copyUnits dst s k) k 0) where
  inside i high := by rw [Function.update_of_ne (by omega), copyUnits_outside (by omega)]
  ended := ⟨k, below, Function.update_self ..⟩

/-- The capacity plays no part in the loop: the NUL goes to the place where the count ends it. -/
theorem ncpyBounded_iff (text : TextAt s n) : NcpyBounded cap count s n ↔
    0 < cap.toNat ∧ (n = 0 ∨ n < count.toNat ∧ n < cap.toNat ∧ n < 2 ^ 31 ∨
      count.toNat = cap.toNat ∧ cap.toNat ≤ n) := by
  have pred := pred_toNat count
  have word := count.toNat_lt
  constructor
  · intro bounded
    obtain ⟨respects, full⟩ := bounded (unlike s)
    obtain ⟨e, below, -⟩ := respects.ended
    have positive : 0 < cap.toNat := by omega
    rw [wcsncpyS_eq text positive] at respects full
    generalize last : min n (count - 1).toNat = k at respects full
    have inside : k < cap.toNat := by
      by_contra beyond
      have written := respects.inside k (by omega)
      rw [Function.update_self] at written
      exact unlike_ne_zero s k written.symm
    refine ⟨positive, ?_⟩
    by_contra other
    by_cases none_ : count.toNat = 0
    · rw [if_pos none_] at pred
      have nul := (full (by omega)).nul
      rw [Function.update_of_ne (by omega)] at nul
      simp only [none_, Nat.min_zero, Nat.add_zero, copyUnits] at nul
      split_ifs at nul
      · exact text.nonzero 0 (by omega) nul
      · exact unlike_ne_zero s 0 nul
    · rw [if_neg none_] at pred
      by_cases whole : n < count.toNat
      · have units := (full (by omega)).units (n - 1) (by omega)
        rw [Nat.zero_add, Function.update_of_ne (by omega),
          copyUnits_long (by omega) (by omega) (by omega)] at units
        exact unlike_ne s (n - 1) units
      · have units := (full (by omega)).units k (by omega)
        rw [Nat.zero_add, Function.update_self] at units
        exact text.nonzero k (by omega) units.symm
  · rintro ⟨positive, fits⟩ dst
    rw [wcsncpyS_eq text positive]
    generalize last : min n (count - 1).toNat = k
    refine ⟨respects_of_index ?_, fun small => ?_⟩
    · split_ifs at pred <;> omega
    · have whole : k = min n count.toNat ∧ k < 2 ^ 31 := by split_ifs at pred <;> omega
      obtain ⟨whole, short⟩ := whole
      rw [← whole]
      constructor
      · intro i less
        rw [Nat.zero_add, Function.update_of_ne (by omega), copyUnits_short short, if_pos less]
      · rw [Nat.zero_add, Function.update_self]

end Ncpy

section Cpy

variable {cap : UInt32} {s : Units} {n : Nat}

theorem wcscpyS_eq (positive : 0 < cap.toNat) {fuel : Nat} (found : wcslen fuel s = some n)
    (dst : Units) : wcscpyS fuel dst cap (some s) =
      some (if cap.toNat ≤ n then (bufferError, Function.update dst 0 0)
        else (statusSuccess, copyUnits dst s (n + 1))) := by
  simp only [wcscpyS, if_neg (cap_pos positive), found, Option.map_some]

theorem wcscpyS_some {dst dst' : Units} {fuel : Nat} {status : NtStatus}
    (positive : 0 < cap.toNat) (text : TextAt s n)
    (call : wcscpyS fuel dst cap (some s) = some (status, dst')) : n < 2 ^ 32 ∧
      (status, dst') = if cap.toNat ≤ n then (bufferError, Function.update dst 0 0)
        else (statusSuccess, copyUnits dst s (n + 1)) := by
  by_cases short : n < 2 ^ 32
  · refine ⟨short, ?_⟩
    have call' := call
    simp only [wcscpyS, if_neg (cap_pos positive)] at call'
    obtain ⟨r, found, -⟩ := Option.map_eq_some_iff.mp call'
    obtain rfl := text.wcslen_unique short found
    rw [wcscpyS_eq positive found] at call
    exact (Option.some.inj call).symm
  · simp only [wcscpyS, if_neg (cap_pos positive), wcslen,
      text.run_long (Nat.not_lt.mp short) fuel (Nat.two_pow_pos 32), Option.map_none] at call
    cases call

theorem respects_copy (dst : Units) (text : TextAt s n) (fits : n < cap.toNat)
    (short : n + 1 < 2 ^ 31) : Respects cap dst (copyUnits dst s (n + 1)) where
  inside i high := copyUnits_outside (by omega)
  ended := ⟨n, fits, by rw [copyUnits_short short, if_pos (Nat.lt_succ_self n), text.nul]⟩

theorem holds_copy (dst : Units) (text : TextAt s n) (short : n + 1 < 2 ^ 31) :
    Holds (copyUnits dst s (n + 1)) 0 s n where
  units i less := by rw [Nat.zero_add, copyUnits_short short, if_pos (by omega)]
  nul := by rw [Nat.zero_add, copyUnits_short short, if_pos (Nat.lt_succ_self n), text.nul]

theorem cpyBounded_iff (text : TextAt s n) : CpyBounded cap s n ↔
    0 < cap.toNat ∧ n < 2 ^ 32 ∧ (cap.toNat ≤ n ∨ n + 1 < 2 ^ 31) := by
  constructor
  · intro bounded
    obtain ⟨fuel, status, dst', call, respects, full⟩ := bounded (unlike s)
    obtain ⟨e, below, -⟩ := respects.ended
    have positive : 0 < cap.toNat := by omega
    obtain ⟨short, result⟩ := wcscpyS_some positive text call
    refine ⟨positive, short, ?_⟩
    by_contra other
    rw [if_neg (by omega)] at result
    cases result
    have nul := (full rfl).nul
    have word := cap.toNat_lt
    rw [Nat.zero_add, copyUnits_long (by omega) (by omega) (by omega)] at nul
    exact unlike_ne_zero s n nul
  · rintro ⟨positive, short, fits⟩ dst
    have call := wcscpyS_eq positive (text.wcslen short (Nat.lt_succ_self n)) dst
    by_cases big : cap.toNat ≤ n
    · rw [if_pos big] at call
      refine ⟨n + 1, _, _, call, ⟨fun i high => ?_, 0, positive, Function.update_self ..⟩, ?_⟩
      · rw [Function.update_of_ne (by omega)]
      · intro success
        exact absurd success (by decide)
    · rw [if_neg big] at call
      exact ⟨n + 1, _, _, call, respects_copy dst text (by omega) (fits.resolve_left big),
        fun _ => holds_copy dst text (fits.resolve_left big)⟩

theorem rest_toNat {used : Nat} (room : used < cap.toNat) :
    (cap - UInt32.ofNat used).toNat = cap.toNat - used := by
  have word := cap.toNat_lt
  rw [UInt32.toNat_sub, UInt32.toNat_ofNat']
  omega

theorem wcscatS_eq {dst : Units} {used fuel : Nat} (held : TextAt dst used)
    (room : used < cap.toNat) (enough : used < fuel) : wcscatS fuel dst cap (some s) =
      (wcscpyS fuel (fun i => dst (used + i)) (cap - UInt32.ofNat used) (some s)).map
        fun (status, tail) => (status, fun i => if used ≤ i then tail (i - used) else dst i) := by
  have word := cap.toNat_lt
  rw [wcscatS, held.wcslen (by omega) enough, Option.bind_some]

/-- Contents with a string of `used` units, and unlike `s` behind it. -/
def withText (used : Nat) (s : Units) : Units := fun i =>
  if i < used then 1 else if i = used then 0 else unlike s (i - used)

theorem textAt_withText (used : Nat) (s : Units) : TextAt (withText used s) used where
  nonzero i less := by
    simp only [withText, if_pos less]
    decide
  nul := by simp [withText]

theorem catBounded_iff {used : Nat} (text : TextAt s n) (room : used < cap.toNat) :
    CatBounded cap used s n ↔ n < 2 ^ 32 ∧ (cap.toNat - used ≤ n ∨ n + 1 < 2 ^ 31) := by
  have rest := rest_toNat room
  constructor
  · intro bounded
    have held := textAt_withText used s
    obtain ⟨fuel, status, dst', call, respects, full⟩ := bounded (withText used s) held
    have word := cap.toNat_lt
    have call' := call
    simp only [wcscatS] at call'
    obtain ⟨used', found, copied⟩ := Option.bind_eq_some_iff.mp call'
    obtain rfl := held.wcslen_unique (by omega) found
    obtain ⟨⟨status', tail⟩, inner, result⟩ := Option.map_eq_some_iff.mp copied
    cases result
    obtain ⟨short, outcome⟩ := wcscpyS_some (by omega) text inner
    refine ⟨short, ?_⟩
    by_contra other
    rw [if_neg (by omega)] at outcome
    cases outcome
    have nul := (full rfl).2.nul
    dsimp only at nul
    rw [if_pos (Nat.le_add_right ..), Nat.add_sub_cancel_left,
      copyUnits_long (by omega) (by omega) (by omega)] at nul
    simp only [withText] at nul
    rw [if_neg (by omega), if_neg (by omega)] at nul
    exact unlike_ne_zero s _ nul
  · rintro ⟨short, fits⟩ dst held
    have positive : 0 < (cap - UInt32.ofNat used).toNat := by omega
    have call := wcscatS_eq (s := s) held room (show used < used + n + 1 by omega)
    rw [wcscpyS_eq positive (text.wcslen short (by omega)), Option.map_some] at call
    by_cases big : cap.toNat - used ≤ n
    · rw [if_pos (by omega)] at call
      refine ⟨used + n + 1, _, _, call, ⟨fun i high => ?_, used, room, ?_⟩, fun success => ?_⟩
      · rw [if_pos (by omega), Function.update_of_ne (by omega), Nat.add_sub_cancel' (by omega)]
      · simp
      · exact absurd success (by decide)
    · rw [if_neg (by omega)] at call
      have short' := fits.resolve_left big
      have within : n < (cap - UInt32.ofNat used).toNat := by omega
      have copied := respects_copy (fun i => dst (used + i)) text within short'
      refine ⟨used + n + 1, _, _, call, ⟨fun i high => ?_, ?_⟩, fun _ => ⟨fun i less => ?_, ?_⟩⟩
      · rw [if_pos (by omega), copied.inside _ (by omega), Nat.add_sub_cancel' (by omega)]
      · obtain ⟨e, below, nul⟩ := copied.ended
        refine ⟨used + e, by omega, ?_⟩
        rw [if_pos (Nat.le_add_right ..), Nat.add_sub_cancel_left, nul]
      · rw [if_neg (by omega)]
      · have holds := holds_copy (fun i => dst (used + i)) text short'
        constructor
        · intro i less
          rw [if_pos (Nat.le_add_right ..), Nat.add_sub_cancel_left, ← holds.units i less,
            Nat.zero_add]
        · rw [if_pos (Nat.le_add_right ..), Nat.add_sub_cancel_left, ← holds.nul, Nat.zero_add]

end Cpy

section Ncat

variable {cap used n : Nat} {s : Units}

/-- `dst` with units `k` to `m` of `s` behind `used` others. -/
def spliced (dst : Units) (used k m : Nat) (s : Units) : Units := fun x =>
  if used + k ≤ x ∧ x < used + m then s (x - used) else dst x

theorem spliced_empty (dst : Units) (used k : Nat) (s : Units) : spliced dst used k k s = dst :=
  funext fun _ => if_neg (by omega)

theorem spliced_step {dst : Units} {k m : Nat} (less : k < m) :
    spliced (Function.update dst (used + k) (s k)) used (k + 1) m s = spliced dst used k m s := by
  funext x
  simp only [spliced]
  by_cases here : x = used + k
  · subst here
    rw [if_neg (by omega), if_pos (by omega), Function.update_self, Nat.add_sub_cancel_left]
  · rw [Function.update_of_ne here]
    have range : used + (k + 1) ≤ x ∧ x < used + m ↔ used + k ≤ x ∧ x < used + m := by omega
    simp only [range]

theorem ncatLoop_fits (text : TextAt s n) (word : cap < 2 ^ 32) {turns k : Nat} (dst : Units)
    (before : k ≤ n) (fits : used + min n (k + turns) < cap) :
    ncatLoop cap used s turns k dst = (statusSuccess,
      Function.update (spliced dst used k (min n (k + turns)) s) (used + min n (k + turns)) 0) := by
  have place : wrap32 (used + k) = used + k := Nat.mod_eq_of_lt (by omega)
  induction turns generalizing k dst with
  | zero =>
    have last : min n (k + 0) = k := by omega
    rw [last, spliced_empty, ncatLoop, place]
  | succ turns ih =>
    rw [ncatLoop, place]
    by_cases zero : s k = 0
    · have last : min n (k + (turns + 1)) = k := by
        have : ¬ k < n := fun less => text.nonzero k less zero
        omega
      rw [if_pos zero, last, spliced_empty]
    · have less : k < n := Nat.lt_of_le_of_ne before fun same => zero (same ▸ text.nul)
      have sum : k + 1 + turns = k + (turns + 1) := by omega
      have next := ih (k := k + 1) (Function.update dst (used + k) (s k)) less (by omega)
        (Nat.mod_eq_of_lt (by omega))
      rw [if_neg zero, if_neg (by omega), next, sum, spliced_step (by omega)]

theorem ncatLoop_full (text : TextAt s n) (word : cap < 2 ^ 32) {turns k : Nat} (dst : Units)
    (inside : used + k < cap) (full : cap ≤ used + min n (k + turns)) :
    ncatLoop cap used s turns k dst =
      (statusInvalidParameter, spliced dst used k (cap - 1 - used) s) := by
  have place : wrap32 (used + k) = used + k := Nat.mod_eq_of_lt (by omega)
  induction turns generalizing k dst with
  | zero => omega
  | succ turns ih =>
    rw [ncatLoop, place, if_neg (text.nonzero k (by omega))]
    by_cases last : cap - 1 ≤ used + k
    · have same : cap - 1 - used = k := by omega
      rw [if_pos last, same, spliced_empty]
    · have next := ih (k := k + 1) (Function.update dst (used + k) (s k)) (by omega) (by omega)
        (Nat.mod_eq_of_lt (by omega))
      rw [if_neg last, next, spliced_step (by omega)]

theorem wcsncatS_some {cap count : UInt32} {dst dst' : Units} {fuel : Nat} {status : NtStatus}
    (held : TextAt dst used) (room : used < cap.toNat)
    (call : wcsncatS fuel dst cap s count = some (status, dst')) :
    ncatLoop cap.toNat used s count.toNat 0 dst = (status, dst') := by
  have word := cap.toNat_lt
  obtain ⟨used', found, result⟩ := Option.map_eq_some_iff.mp call
  obtain rfl := held.wcslen_unique (by omega) found
  rwa [if_neg (by omega)] at result

theorem ncatBounded_iff {cap count : UInt32} {dst : Units} (text : TextAt s n)
    (held : TextAt dst used) (room : used < cap.toNat) : NcatBounded cap count dst used s n ↔
      used + min n count.toNat < cap.toNat ∨ dst (cap.toNat - 1) = 0 := by
  have word := cap.toNat_lt
  have call : wcsncatS (used + 1) dst cap s count =
      some (ncatLoop cap.toNat used s count.toNat 0 dst) := by
    rw [wcsncatS, held.wcslen (by omega) (Nat.lt_succ_self used), Option.map_some,
      if_neg (by omega)]
  by_cases fits : used + min n count.toNat < cap.toNat
  · refine iff_of_true ?_ (Or.inl fits)
    have fits' : used + min n (0 + count.toNat) < cap.toNat := by rwa [Nat.zero_add]
    have result := ncatLoop_fits text word dst (Nat.zero_le n) fits'
    rw [Nat.zero_add] at result
    rw [result] at call
    refine ⟨used + 1, _, _, call, ⟨fun i high => ?_, _, fits, Function.update_self ..⟩, fun _ => ?_⟩
    · rw [Function.update_of_ne (by omega)]
      exact if_neg (by omega)
    · refine ⟨fun i less => ?_, ⟨fun i less => ?_, Function.update_self ..⟩⟩
      · rw [Function.update_of_ne (by omega)]
        exact if_neg (by omega)
      · rw [Function.update_of_ne (by omega), spliced, if_pos (by omega), Nat.add_sub_cancel_left]
  · -- The last unit stays, and every unit before it is one of the two strings.
    have full : cap.toNat ≤ used + min n (0 + count.toNat) := by
      rw [Nat.zero_add]
      exact Nat.not_lt.mp fits
    have result := ncatLoop_full text word dst room full
    constructor
    · rintro ⟨fuel, status, dst', some_, ⟨-, e, below, nul⟩, -⟩
      rw [wcsncatS_some held room some_] at result
      cases result
      refine Or.inr ?_
      simp only [spliced] at nul
      split_ifs at nul with new
      · exact absurd nul (text.nonzero _ (by omega))
      · by_cases old : e < used
        · exact absurd nul (held.nonzero e old)
        · rwa [show cap.toNat - 1 = e by omega]
    · rintro (less | nul)
      · exact absurd less fits
      · rw [result] at call
        have ended : spliced dst used 0 (cap.toNat - 1 - used) s (cap.toNat - 1) = 0 := by
          rw [← nul]
          exact if_neg (by omega)
        exact ⟨used + 1, _, _, call, ⟨fun i high => if_neg (by omega), _, by omega, ended⟩,
          fun success => absurd success (by decide)⟩

end Ncat

/-- When each of the four keeps to its bound. -/
theorem bounded_iff (cap count : UInt32) {s : Units} {n : Nat} (text : TextAt s n) :
    (NcpyBounded cap count s n ↔ 0 < cap.toNat ∧
      (n = 0 ∨ n < count.toNat ∧ n < cap.toNat ∧ n < 2 ^ 31 ∨
        count.toNat = cap.toNat ∧ cap.toNat ≤ n)) ∧
    (CpyBounded cap s n ↔ 0 < cap.toNat ∧ n < 2 ^ 32 ∧ (cap.toNat ≤ n ∨ n + 1 < 2 ^ 31)) ∧
    (∀ used < cap.toNat, CatBounded cap used s n ↔
      n < 2 ^ 32 ∧ (cap.toNat - used ≤ n ∨ n + 1 < 2 ^ 31)) ∧
    ∀ dst, ∀ used < cap.toNat, TextAt dst used → (NcatBounded cap count dst used s n ↔
      used + min n count.toNat < cap.toNat ∨ dst (cap.toNat - 1) = 0) :=
  ⟨ncpyBounded_iff text, cpyBounded_iff text, fun _ room => catBounded_iff text room,
    fun _ _ room held => ncatBounded_iff text held room⟩

/-- The string "abc". -/
def abc : Units := fun i => [97, 98, 99].getD i 0

theorem abc_text : TextAt abc 3 := ⟨by decide, rfl⟩

theorem bounded_abc : NcpyBounded 4 4 abc 3 ∧ CpyBounded 4 abc 3 :=
  ⟨(bounded_iff 4 4 abc_text).1.mpr (by decide),
    (bounded_iff 4 4 abc_text).2.1.mpr (by decide)⟩

/-- With capacity 2 and count 4 the NUL goes to index 3. -/
theorem ncpy_beyond : ¬ NcpyBounded 2 4 abc 3 := by
  intro bounded
  have kept := (bounded fun _ => 1).1.inside 3 (by decide)
  exact absurd kept (by decide)

end Rtl
