import Svindows.Kernel32.FileRuns

/-!
# SetFilePointer and its 64-bit sibling

`SetFilePointer` of `user/kernel32.c` makes the distance of `SetFilePointerEx` from two
words. The low one is widened with its sign before the high one is joined to it, so a
low word from 2^31 on, read as unsigned, covers the high word with its sign bits.
-/

namespace Kernel32

open Nt Mm Io

/-- The 64-bit distance that `SetFilePointer` makes of its words. -/
def joinedDistance (distance : Int32) : Option Int32 → Int64
  | none => distance.toInt64
  | some high => distance.toInt64 ||| (high.toInt64 <<< 32)

/-- `SetFilePointer`: its result, `*high` if there is one, and the world after it. -/
def setFilePointer (w : IoWorld) (frame file : UInt64) (distance : Int32) (high : Option Int32)
    (method : UInt32) : UInt32 × Option Int32 × IoWorld :=
  match setFilePointerEx w frame file (joinedDistance distance high) method with
  | (false, _, w) => (0xFFFFFFFF, high, w)
  | (true, newPosition, w) =>
    let position := (newPosition.getD 0).toUInt64
    (position.toUInt32, high.map fun _ => (position >>> 32).toUInt32.toInt32, w)

/-- The distance of which the two words are the halves; without a high word, the low one
with its sign. -/
def wholeDistance (low : Int32) : Option Int32 → Int64
  | none => low.toInt64
  | some high => Int64.ofBitVec (high.toBitVec ++ low.toBitVec)

/-- The sign of a negative low word fills the half that the high word is joined to. -/
theorem signExtend_or_of_neg {low high : BitVec 32} (negative : low.msb = true) :
    low.signExtend 64 ||| (high.signExtend 64 <<< 32) = low.signExtend 64 := by
  apply BitVec.eq_of_getLsbD_eq
  intro i hi
  simp only [BitVec.getLsbD_or, BitVec.getLsbD_signExtend, BitVec.getLsbD_shiftLeft, negative]
  by_cases lower : i < 32
  · simp [lower]
  · simp [lower, hi]

theorem signExtend_or_of_pos {low high : BitVec 32} (positive : low.msb = false) :
    low.signExtend 64 ||| (high.signExtend 64 <<< 32) = high ++ low := by
  apply BitVec.eq_of_getLsbD_eq
  intro i hi
  simp only [BitVec.getLsbD_or, BitVec.getLsbD_signExtend, BitVec.getLsbD_shiftLeft, positive,
    BitVec.getLsbD_append]
  by_cases lower : i < 32
  · simp [lower, hi]
  · have inside : i - 32 < 32 := by omega
    have shifted : i - 32 < 64 := by omega
    simp [lower, hi, inside, shifted]

theorem msb_iff (x : Int32) : x.toBitVec.msb = true ↔ x < 0 := by
  have zero : (0 : Int32).toInt = 0 := rfl
  rw [Int32.lt_iff_toInt_lt, zero, BitVec.msb_eq_toInt, decide_eq_true_iff]
  rfl

theorem joinedDistance_some (low high : Int32) :
    (joinedDistance low (some high)).toBitVec =
      low.toBitVec.signExtend 64 ||| (high.toBitVec.signExtend 64 <<< 32) := rfl

theorem joinedDistance_of_nonneg {low : Int32} (positive : ¬low < 0) (high : Option Int32) :
    joinedDistance low high = wholeDistance low high := by
  cases high with
  | none => rfl
  | some high =>
    have plain : low.toBitVec.msb = false := by
      simpa [← msb_iff] using positive
    apply Int64.toBitVec.inj
    rw [joinedDistance_some, signExtend_or_of_pos plain]
    rfl

theorem joinedDistance_of_neg {low : Int32} (negative : low < 0) (high : Option Int32) :
    (joinedDistance low high).toInt = low.toInt := by
  have widened : low.toInt64.toInt = low.toInt := Int32.toInt_toInt64 low
  cases high with
  | none => exact widened
  | some high =>
    have covered : joinedDistance low (some high) = low.toInt64 := by
      apply Int64.toBitVec.inj
      rw [joinedDistance_some, signExtend_or_of_neg ((msb_iff low).mpr negative)]
      rfl
    rw [covered, widened]

theorem wholeDistance_some (low high : Int32) :
    (wholeDistance low (some high)).toInt = 2 ^ 32 * high.toInt + low.toBitVec.toNat :=
  BitVec.toInt_append

/-- Below 0, the low word read as unsigned. -/
theorem unsigned_of_neg {low : Int32} (negative : low < 0) :
    (low.toBitVec.toNat : Int) = low.toInt + 2 ^ 32 := by
  have sign : low.toInt < 0 := Int32.lt_iff_toInt_lt.mp negative
  have value : low.toInt = low.toBitVec.toInt := rfl
  have small := low.toBitVec.isLt
  rw [value, BitVec.toInt_eq_toNat_cond] at sign ⊢
  split at sign <;> omega

/-- The words that a 64-bit result is reported in are its halves. -/
theorem words_append (q : Int64) :
    ((q.toUInt64 >>> 32).toUInt32.toInt32).toBitVec ++ q.toUInt64.toUInt32.toBitVec =
      q.toBitVec := by
  have upper : ((q.toUInt64 >>> 32).toUInt32.toInt32).toBitVec =
      (q.toBitVec >>> 32).setWidth 32 := rfl
  have lower : q.toUInt64.toUInt32.toBitVec = q.toBitVec.setWidth 32 := rfl
  apply BitVec.eq_of_getLsbD_eq
  intro i hi
  simp only [upper, lower, BitVec.getLsbD_append, BitVec.getLsbD_setWidth,
    BitVec.getLsbD_ushiftRight]
  by_cases below : i < 32
  · simp [below]
  · have inside : i - 32 < 32 := by omega
    have place : 32 + (i - 32) = i := by omega
    simp [below, inside, place]

section Agreement

variable (w : IoWorld) (frame file : UInt64) (low : Int32) (high : Option Int32) (m : UInt32)

/-- `SetFilePointer` moves the files as `SetFilePointerEx` does with the whole distance,
and reports its result in the two words; without a high word, the low half of it. -/
structure PointersAgree : Prop where
  effect : (setFilePointer w frame file low high m).2.2.files =
    (setFilePointerEx w frame file (wholeDistance low high) m).2.2.files
  reports : ∀ q, (setFilePointerEx w frame file (wholeDistance low high) m).1 = true →
    (setFilePointerEx w frame file (wholeDistance low high) m).2.1 = some q →
    (setFilePointer w frame file low high m).1.toBitVec = q.toBitVec.setWidth 32 ∧
      ∀ h, high = some h → ∃ h', (setFilePointer w frame file low high m).2.1 = some h' ∧
        h'.toBitVec ++ (setFilePointer w frame file low high m).1.toBitVec = q.toBitVec
  fails : (setFilePointerEx w frame file (wholeDistance low high) m).1 = false →
    (setFilePointer w frame file low high m).1 = 0xFFFFFFFF ∧
      (setFilePointer w frame file low high m).2.1 = high

/-- With a negative low word and a high word that is not its sign, the functions agree
only where the seek that is made is negative. Then the one that is meant must be, too, or
it must be to where the file is and its result that of the failure. -/
def SameMove : Prop :=
  ∀ h, high = some h → low < 0 → h ≠ -1 → ∀ o base, seekable w frame file = some o →
    baseOf (w.files o) m = some base → (base : Int) + low.toInt < 0 ∧
      (h < -1 ∨ ((base : Int) + low.toInt = -1 ∧
        ((w.files o).position : Int) = 2 ^ 32 * h.toInt + (2 ^ 32 - 1)))

variable {w frame file low high m}

theorem setFilePointer_fails
    (failed : (setFilePointerEx w frame file (joinedDistance low high) m).1 = false) :
    setFilePointer w frame file low high m = (0xFFFFFFFF, high,
      (setFilePointerEx w frame file (joinedDistance low high) m).2.2) := by
  simp only [setFilePointer]
  generalize setFilePointerEx w frame file (joinedDistance low high) m = r at failed ⊢
  obtain ⟨done, position, u⟩ := r
  obtain rfl : done = false := failed
  rfl

theorem setFilePointer_moves {q : Int64}
    (done : (setFilePointerEx w frame file (joinedDistance low high) m).1 = true)
    (reported : (setFilePointerEx w frame file (joinedDistance low high) m).2.1 = some q) :
    setFilePointer w frame file low high m = (q.toUInt64.toUInt32,
      high.map fun _ => (q.toUInt64 >>> 32).toUInt32.toInt32,
      (setFilePointerEx w frame file (joinedDistance low high) m).2.2) := by
  simp only [setFilePointer]
  generalize setFilePointerEx w frame file (joinedDistance low high) m = r at done reported ⊢
  obtain ⟨done', position, u⟩ := r
  obtain rfl : done' = true := done
  obtain rfl : position = some q := reported
  rfl

theorem setFilePointer_world : (setFilePointer w frame file low high m).2.2 =
    (setFilePointerEx w frame file (joinedDistance low high) m).2.2 := by
  simp only [setFilePointer]
  generalize setFilePointerEx w frame file (joinedDistance low high) m = r
  obtain ⟨done, position, u⟩ := r
  cases done <;> rfl

/-- Where the distances are the same, so are the calls. -/
theorem pointersAgree_of_same (equal : joinedDistance low high = wholeDistance low high) :
    PointersAgree w frame file low high m where
  effect := by
    rw [← equal, setFilePointer_world]
  reports := fun q done reported => by
    rw [← equal] at done reported
    rw [setFilePointer_moves done reported]
    refine ⟨rfl, ?_⟩
    rintro h rfl
    exact ⟨_, rfl, words_append q⟩
  fails := fun failed => by
    rw [← equal] at failed
    rw [setFilePointer_fails failed]
    exact ⟨rfl, rfl⟩

/-- A seek that fails and moves nothing. -/
def SeekFails (w : IoWorld) (frame file : UInt64) (d : Int64) (m : UInt32) : Prop :=
  (setFilePointerEx w frame file d m).1 = false ∧
    (setFilePointerEx w frame file d m).2.1 = none ∧
    (setFilePointerEx w frame file d m).2.2.files = w.files

/-- Calls that both fail agree. -/
theorem pointersAgree_of_fails (joined : SeekFails w frame file (joinedDistance low high) m)
    (whole : SeekFails w frame file (wholeDistance low high) m) :
    PointersAgree w frame file low high m where
  effect := by rw [setFilePointer_world, joined.2.2, whole.2.2]
  reports := fun _ done => absurd (done.symm.trans whole.1) (by decide)
  fails := fun _ => by
    rw [setFilePointer_fails joined.1]
    exact ⟨rfl, rfl⟩

variable {v : Ob.World} (acc : Ob.Accounted v) (same : w.ob = v.ob) (sized : SizedFiles w)
  (room : frame.toNat + 40 ≤ 2 ^ 64)
include acc same sized room

/-- A call that no distance helps. -/
theorem fails_of_refused (refused : ∀ o base, seekable w frame file = some o →
    baseOf (w.files o) m = some base → False) (d : Int64) : SeekFails w frame file d m := by
  refine setFilePointerEx_fails acc same sized room ?_
  intro o target found goal
  obtain ⟨base, chosen, -⟩ := Option.map_eq_some_iff.mp goal
  exact (refused o base found chosen).elim

theorem fails_at {o : Ob.ObjectRef} {base : Nat} (found : seekable w frame file = some o)
    (chosen : baseOf (w.files o) m = some base) {d : Int64} (below : (base : Int) + d.toInt < 0) :
    SeekFails w frame file d m := by
  refine setFilePointerEx_fails acc same sized room ?_
  intro p target found' goal
  obtain rfl := Option.some.inj (found.symm.trans found')
  simp only [seekTarget, chosen, Option.map_some, Option.some.injEq] at goal
  omega

theorem moves_at {o : Ob.ObjectRef} {base : Nat} (found : seekable w frame file = some o)
    (chosen : baseOf (w.files o) m = some base) {d : Int64} (above : 0 ≤ (base : Int) + d.toInt) :
    (setFilePointerEx w frame file d m).1 = true ∧
      (setFilePointerEx w frame file d m).2.1 = some (Int64.ofInt ((base : Int) + d.toInt)) ∧
      (setFilePointerEx w frame file d m).2.2.files = Function.update w.files o
        { w.files o with position := (((base : Int) + d.toInt) % 2 ^ 64).toNat } :=
  setFilePointerEx_moves acc same sized room found (by simp [seekTarget, chosen]) above

end Agreement

theorem wholeDistance_of_neg {low : Int32} (negative : low < 0) (h : Int32) :
    (wholeDistance low (some h)).toInt = 2 ^ 32 * (h.toInt + 1) + low.toInt := by
  have unsigned := unsigned_of_neg negative
  have whole := wholeDistance_some low h
  omega

theorem toInt_ne_of_ne {h : Int32} (other : h ≠ -1) : h.toInt ≠ -1 := by
  intro equal
  exact other (Int32.toInt_inj.mp equal)

/-- The words of a failure are a 64-bit result like any other. -/
theorem failure_append (h : Int32) :
    (h.toBitVec ++ (0xFFFFFFFF : UInt32).toBitVec).toInt = 2 ^ 32 * h.toInt + (2 ^ 32 - 1) :=
  BitVec.toInt_append

theorem ofInt_toInt_eq {t : Int} (low : -2 ^ 63 ≤ t) (high : t < 2 ^ 63) :
    (Int64.ofInt t).toInt = t := by
  have size : Int64.size = 2 ^ 64 := rfl
  rw [Int64.toInt_ofInt, size, Int.bmod_eq_of_le] <;> omega

/-- Two moves of a file agree only in the position. -/
theorem update_position_inj {files : Ob.ObjectRef → FileObject} {o : Ob.ObjectRef} {p q : Nat}
    (equal : Function.update files o { files o with position := p } =
      Function.update files o { files o with position := q }) : p = q := by
  have here := congrFun equal o
  simp only [Function.update_self] at here
  exact congrArg FileObject.position here

theorem update_position_eq {files : Ob.ObjectRef → FileObject} {o : Ob.ObjectRef} {p : Nat}
    (equal : Function.update files o { files o with position := p } = files) :
    (files o).position = p := by
  have here := congrFun equal o
  simp only [Function.update_self] at here
  rw [← here]

theorem baseOf_cases {f : FileObject} {m : UInt32} {base : Nat} (chosen : baseOf f m = some base) :
    base = 0 ∨ base = f.position ∨ base = f.data.length := by
  simp only [baseOf] at chosen
  split at chosen
  · exact Or.inl (Option.some.inj chosen).symm
  · exact Or.inr (Or.inl (Option.some.inj chosen).symm)
  · exact Or.inr (Or.inr (Option.some.inj chosen).symm)
  · cases chosen

section Exact

variable {w : IoWorld} {frame file : UInt64} {low : Int32} {m : UInt32}
variable {v : Ob.World} (acc : Ob.Accounted v) (same : w.ob = v.ob) (sized : SizedFiles w)
  (room : frame.toNat + 40 ≤ 2 ^ 64) {o : Ob.ObjectRef} {base : Nat}
  (found : seekable w frame file = some o) (chosen : baseOf (w.files o) m = some base)
  (negative : low < 0) {h : Int32}
include acc same sized room found chosen negative

theorem agree_iff_of_below (other : h ≠ -1) (below : (base : Int) + low.toInt < 0) :
    PointersAgree w frame file low (some h) m ↔
      (h < -1 ∨ ((base : Int) + low.toInt = -1 ∧
        ((w.files o).position : Int) = 2 ^ 32 * h.toInt + (2 ^ 32 - 1))) := by
  have whole := wholeDistance_of_neg negative h
  have failed : SeekFails w frame file (joinedDistance low (some h)) m := by
    refine fails_at acc same sized room found chosen ?_
    rw [joinedDistance_of_neg negative]
    exact below
  have low_lt := low.le_toInt
  have h_lt := h.toInt_lt
  have sign : h < -1 ↔ h.toInt < -1 := Int32.lt_iff_toInt_lt
  have apart := toInt_ne_of_ne other
  by_cases backward : h < -1
  · have goes := sign.mp backward
    have below' := fails_at acc same sized room found chosen (d := wholeDistance low (some h))
      (by omega)
    exact ⟨fun _ => Or.inl backward, fun _ => pointersAgree_of_fails failed below'⟩
  · have forward := mt sign.mpr backward
    obtain ⟨done, reported, files⟩ := moves_at acc same sized room found chosen
      (d := wholeDistance low (some h)) (by omega)
    have value := ofInt_toInt_eq (t := (base : Int) + (wholeDistance low (some h)).toInt)
      (by omega) (by omega)
    have word := failure_append h
    constructor
    · intro agrees
      obtain ⟨h', stored, joins⟩ := (agrees.reports _ done reported).2 h rfl
      have moved := agrees.effect
      rw [setFilePointer_fails failed.1] at stored joins
      obtain rfl := Option.some.inj stored
      rw [setFilePointer_world, failed.2.2, files] at moved
      have place := update_position_eq moved.symm
      have reads : 2 ^ 32 * h.toInt + (2 ^ 32 - 1) =
          (base : Int) + (wholeDistance low (some h)).toInt :=
        word.symm.trans ((congrArg BitVec.toInt joins).trans value)
      exact Or.inr ⟨by omega, by omega⟩
    · rintro (goes | ⟨edge, place⟩)
      · exact absurd goes backward
      have joins : h.toBitVec ++ (0xFFFFFFFF : UInt32).toBitVec =
          (Int64.ofInt ((base : Int) + (wholeDistance low (some h)).toInt)).toBitVec :=
        BitVec.eq_of_toInt_eq (word.trans (Eq.trans (by omega) value.symm))
      refine ⟨?_, ?_, fun fails => absurd (fails.symm.trans done) (by decide)⟩
      · rw [setFilePointer_world, failed.2.2, files]
        have stays : (((base : Int) + (wholeDistance low (some h)).toInt) % 2 ^ 64).toNat =
            (w.files o).position := by omega
        rw [stays]
        exact (Function.update_eq_self o w.files).symm
      · intro q _ reported'
        obtain rfl := Option.some.inj (reported.symm.trans reported')
        rw [setFilePointer_fails failed.1, ← joins]
        refine ⟨?_, ?_⟩
        · exact (BitVec.setWidth_append_eq_right).symm
        · rintro _ ⟨⟩
          exact ⟨h, rfl, rfl⟩

/-- The seek that is made moves the file, and the one that is meant does not move it there. -/
theorem disagree_of_above (other : h ≠ -1) (above : 0 ≤ (base : Int) + low.toInt) :
    ¬PointersAgree w frame file low (some h) m := by
  intro agrees
  have whole := wholeDistance_of_neg negative h
  have joined := joinedDistance_of_neg negative (some h)
  obtain ⟨done, reported, files⟩ := moves_at acc same sized room found chosen
    (d := joinedDistance low (some h)) (by rw [joined]; exact above)
  have h_lt := h.toInt_lt
  have h_le := h.le_toInt
  have sign : low.toInt < 0 := Int32.lt_iff_toInt_lt.mp negative
  have apart := toInt_ne_of_ne other
  have small := baseOf_lt sized chosen
  have effect := agrees.effect
  rw [setFilePointer_world, files, joined] at effect
  by_cases goes : 0 ≤ (base : Int) + (wholeDistance low (some h)).toInt
  · obtain ⟨-, -, files'⟩ := moves_at acc same sized room found chosen goes
    rw [files'] at effect
    have equal := update_position_inj effect
    omega
  · have failed := fails_at acc same sized room found chosen (d := wholeDistance low (some h))
      (by omega)
    rw [failed.2.2] at effect
    have place := update_position_eq effect
    obtain ⟨lower, upper⟩ := agrees.fails failed.1
    rw [setFilePointer_moves done reported] at lower upper
    -- the file is where it is put, so the base is its size
    rcases baseOf_cases chosen with rfl | rfl | rfl
    · omega
    · omega
    · obtain ⟨size, -⟩ := sized o
      have stored := Option.some.inj upper
      have joins := words_append (Int64.ofInt (((w.files o).data.length : Int) + low.toInt))
      have value := ofInt_toInt_eq (t := ((w.files o).data.length : Int) + low.toInt)
        (by omega) (by omega)
      have word := failure_append h
      simp only at lower stored
      rw [joined] at lower stored
      rw [stored, lower] at joins
      have reads := word.symm.trans ((congrArg BitVec.toInt joins).trans value)
      omega

end Exact

/-- `SetFilePointer` agrees with `SetFilePointerEx` on exactly these words, files and bases. -/
theorem pointers_agree_iff {v : Ob.World} (acc : Ob.Accounted v) {w : IoWorld}
    (same : w.ob = v.ob) (sized : SizedFiles w) {frame : UInt64}
    (room : frame.toNat + 40 ≤ 2 ^ 64) (file : UInt64) (low : Int32) (high : Option Int32)
    (m : UInt32) :
    PointersAgree w frame file low high m ↔ SameMove w frame file low high m := by
  cases high with
  | none =>
    refine ⟨fun _ h none => absurd none (by simp), fun _ => pointersAgree_of_same rfl⟩
  | some h =>
  by_cases negative : low < 0
  swap
  · exact ⟨fun _ _ _ below => absurd below negative,
      fun _ => pointersAgree_of_same (joinedDistance_of_nonneg negative _)⟩
  by_cases other : h = -1
  · have equal : joinedDistance low (some h) = wholeDistance low (some h) := by
      apply Int64.toInt_inj.mp
      have minus : (-1 : Int32).toInt = -1 := rfl
      rw [joinedDistance_of_neg negative, wholeDistance_of_neg negative, other, minus]
      omega
    refine ⟨?_, fun _ => pointersAgree_of_same equal⟩
    rintro _ h' ⟨⟩ _ apart
    exact absurd other apart
  by_cases carried : ∃ o base, seekable w frame file = some o ∧ baseOf (w.files o) m = some base
  · obtain ⟨o, base, found, chosen⟩ := carried
    constructor
    · rintro agrees h' ⟨⟩ _ _ o' base' found' chosen'
      obtain rfl := Option.some.inj (found.symm.trans found')
      obtain rfl := Option.some.inj (chosen.symm.trans chosen')
      by_cases below : (base : Int) + low.toInt < 0
      · exact ⟨below,
          (agree_iff_of_below acc same sized room found chosen negative other below).mp agrees⟩
      · exact absurd agrees
          (disagree_of_above acc same sized room found chosen negative other (by omega))
    · intro moves
      obtain ⟨below, outcome⟩ := moves h rfl negative other o base found chosen
      exact (agree_iff_of_below acc same sized room found chosen negative other below).mpr outcome
  · have refused : ∀ o base, seekable w frame file = some o →
        baseOf (w.files o) m = some base → False :=
      fun o base found chosen => carried ⟨o, base, found, chosen⟩
    refine ⟨fun _ _ _ _ _ o base found chosen => (refused o base found chosen).elim, fun _ => ?_⟩
    exact pointersAgree_of_fails (fails_of_refused acc same sized room refused _)
      (fails_of_refused acc same sized room refused _)

/-- One byte back from the end, in two words. -/
theorem pointers_agree_iff_back : PointersAgree threeBytes 0x6000 4 (-1) (some (-1)) 2 := by
  have sized : SizedFiles threeBytes :=
    fun _ => ⟨(by decide : 3 < 2 ^ 63), (by decide : 0 < 2 ^ 64)⟩
  refine (pointers_agree_iff Ob.openedWorld_accounted rfl sized (by decide) _ _ _ _).mpr ?_
  rintro h ⟨⟩ _ apart
  exact absurd rfl apart

/-- A seek to 2 GiB from the beginning fails, although its distance is a good one. -/
theorem two_gib_fails :
    (setFilePointer threeBytes 0x6000 4 Int32.minValue (some 0) 0).1 = 0xFFFFFFFF ∧
      (setFilePointerEx threeBytes 0x6000 4 (wholeDistance Int32.minValue (some 0)) 0).2.1 =
        some 0x80000000 ∧
      ¬PointersAgree threeBytes 0x6000 4 Int32.minValue (some 0) 0 := by
  have failed : (setFilePointer threeBytes 0x6000 4 Int32.minValue (some 0) 0).1 =
      0xFFFFFFFF := by decide +kernel
  have done : (setFilePointerEx threeBytes 0x6000 4 (wholeDistance Int32.minValue (some 0)) 0).1 =
      true := by decide +kernel
  have reported : (setFilePointerEx threeBytes 0x6000 4 (wholeDistance Int32.minValue (some 0))
      0).2.1 = some 0x80000000 := by decide +kernel
  refine ⟨failed, reported, ?_⟩
  intro agrees
  have lower := (agrees.reports _ done reported).1
  rw [failed] at lower
  exact absurd lower (by decide)

end Kernel32
