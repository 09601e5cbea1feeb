import Svindows.Io.FatNames

/-!
# Faithful short names

`to_83` cuts and pads, but on the names that `name_is_83` admits it only changes the case of
letters: a name with no blank and no dot at its end comes back from `from_83`.
-/

namespace Io

open Rtl

/-- A name in upper case. -/
def upper (name : CString) : List UInt8 := name.bytes.map toUpper

/-- A name that `name_is_83` accepts, without blanks and without a dot at its end. -/
structure ShortName (name : CString) : Prop where
  accepted : nameIs83 name = true
  unspaced : space ∉ name.bytes
  undotted : name.bytes.getLast? ≠ some dot

theorem is83Loop_inExt {cs : List UInt8} {base ext : Nat} :
    is83Loop cs base ext true = true ↔
      dot ∉ cs ∧ (cs = [] ∨ ext + cs.length ≤ 3) ∧ base ≠ 0 := by
  induction cs generalizing ext with
  | nil => simp [is83Loop]
  | cons c cs ih =>
    by_cases dotted : c = dot
    · simp [is83Loop, dotted]
    · simp only [is83Loop, if_neg dotted, if_true, List.mem_cons, List.length_cons, reduceCtorEq,
        false_or, Ne.symm dotted]
      split_ifs with long
      · exact iff_of_false not_false fun short => by omega
      · rw [ih]
        refine and_congr_right fun _ => and_congr_left fun _ => ?_
        constructor
        · rintro (rfl | fits)
          · rw [List.length_nil]
            omega
          · omega
        · exact fun fits => .inr (by omega)

/-- A base of one to eight characters, and after a dot an extension of at most three. -/
theorem is83Loop_split {cs : List UInt8} {b : Nat} (accepted : is83Loop cs b 0 false = true) :
    ∃ base rest, cs = base ++ rest ∧ dot ∉ base ∧ (base = [] ∨ b + base.length ≤ 8) ∧
      b + base.length ≠ 0 ∧
      (rest = [] ∨ ∃ ext, rest = dot :: ext ∧ dot ∉ ext ∧ ext.length ≤ 3) := by
  induction cs generalizing b with
  | nil =>
    refine ⟨[], [], rfl, List.not_mem_nil, .inl rfl, ?_, .inl rfl⟩
    simpa [is83Loop] using accepted
  | cons c cs ih =>
    by_cases dotted : c = dot
    · simp only [is83Loop, if_pos dotted, Bool.false_eq_true, if_false] at accepted
      obtain ⟨plain, few, some_⟩ := is83Loop_inExt.mp accepted
      refine ⟨[], c :: cs, rfl, List.not_mem_nil, .inl rfl, some_, .inr ⟨cs, ?_, plain, ?_⟩⟩
      · rw [dotted]
      · rcases few with rfl | few
        · exact Nat.zero_le _
        · omega
    · simp only [is83Loop, if_neg dotted, Bool.false_eq_true, if_false] at accepted
      split_ifs at accepted with long
      obtain ⟨base, rest, rfl, plain, few, some_, ends⟩ := ih accepted
      refine ⟨c :: base, rest, rfl, ?_, .inr ?_, ?_, ends⟩
      · rw [List.mem_cons, not_or]
        exact ⟨Ne.symm dotted, plain⟩
      · rw [List.length_cons]
        rcases few with rfl | few
        · rw [List.length_nil]
          omega
        · omega
      · rw [List.length_cons]
        omega

theorem toUpper_plain {c : UInt8} (nonzero : c ≠ 0) (undotted : c ≠ dot) (unspaced : c ≠ space) :
    Plain (toUpper c) := by
  by_cases lower : 97 ≤ c ∧ c ≤ 122
  · obtain ⟨low, high⟩ := id lower
    rw [UInt8.le_iff_toNat_le] at low high
    have low : 97 ≤ c.toNat := low
    have high : c.toNat ≤ 122 := high
    have value : (c - 32).toNat = c.toNat - 32 := by
      refine UInt8.toNat_sub_of_le _ _ (UInt8.le_iff_toNat_le.mpr ?_)
      show 32 ≤ c.toNat
      omega
    have other : ∀ d : UInt8, d.toNat < 65 → c - 32 ≠ d := by
      rintro d small rfl
      omega
    rw [toUpper, if_pos lower]
    refine ⟨other 0 (by decide), other dot (by decide), other space (by decide), ?_⟩
    rw [toUpper, if_neg]
    rintro ⟨again, -⟩
    have again : 97 ≤ (c - 32).toNat := UInt8.le_iff_toNat_le.mp again
    omega
  · rw [toUpper, if_neg lower]
    refine ⟨nonzero, undotted, unspaced, ?_⟩
    rw [toUpper, if_neg lower]

theorem map_toUpper_plain {bytes : List UInt8} (nonzero : 0 ∉ bytes) (undotted : dot ∉ bytes)
    (unspaced : space ∉ bytes) : ∀ c ∈ bytes.map toUpper, Plain c := by
  intro c mem
  obtain ⟨d, inside, rfl⟩ := List.mem_map.mp mem
  refine toUpper_plain ?_ ?_ ?_
  · rintro rfl
    exact nonzero inside
  · rintro rfl
    exact undotted inside
  · rintro rfl
    exact unspaced inside

theorem shown_upper (base ext : List UInt8) :
    (shown base ext).map toUpper = shown (base.map toUpper) (ext.map toUpper) := by
  cases ext <;> simp [shown, toUpper, dot]

/-- An accepted name has a base and an extension, which are plain in upper case. -/
theorem ShortName.parts {name : CString} (short : ShortName name) :
    ∃ base ext, name.bytes = shown base ext ∧ base.length ≤ 8 ∧ ext.length ≤ 3 ∧ dot ∉ base ∧
      (∀ c ∈ base.map toUpper, Plain c) ∧ ∀ c ∈ ext.map toUpper, Plain c := by
  obtain ⟨base, rest, bytes, undotted, few, some_, ends⟩ := is83Loop_split short.accepted
  have nonzero := name.noNul
  have unspaced := short.unspaced
  rw [bytes, List.mem_append, not_or] at nonzero unspaced
  have nonempty : base ≠ [] := by
    rintro rfl
    exact some_ rfl
  have few : base.length ≤ 8 := by
    have := few.resolve_left nonempty
    omega
  have plain := map_toUpper_plain nonzero.1 undotted unspaced.1
  rcases ends with rfl | ⟨ext, rfl, plainExt, fewExt⟩
  · refine ⟨base, [], ?_, few, Nat.zero_le _, undotted, plain, nofun⟩
    rw [bytes, shown, if_pos rfl]
  · have some_ext : ext ≠ [] := by
      rintro rfl
      refine short.undotted ?_
      rw [bytes, List.getLast?_append, List.getLast?_singleton, Option.some_or]
    refine ⟨base, ext, ?_, few, fewExt, undotted, plain, ?_⟩
    · rw [bytes, shown, if_neg some_ext]
    · rw [List.mem_cons, not_or] at nonzero unspaced
      exact map_toUpper_plain nonzero.2.2 plainExt unspaced.2.2

theorem ShortName.to83 {name : CString} (short : ShortName name) :
    ∃ base ext, upper name = shown base ext ∧ base.length ≤ 8 ∧ ext.length ≤ 3 ∧
      (∀ c ∈ base, Plain c) ∧ (∀ c ∈ ext, Plain c) ∧ Io.to83 name = pad 8 base ++ pad 3 ext := by
  obtain ⟨base, ext, bytes, few, fewExt, undotted, plainBase, plainExt⟩ := short.parts
  refine ⟨base.map toUpper, ext.map toUpper, ?_, ?_, ?_, plainBase, plainExt, ?_⟩
  · rw [upper, bytes, shown_upper]
  · rwa [List.length_map]
  · rwa [List.length_map]
  · exact to83_parts few fewExt undotted bytes

/-- The name comes back in upper case. -/
theorem ShortName.from83 {name : CString} (short : ShortName name) :
    (Io.from83 (Io.to83 name)).bytes = upper name := by
  obtain ⟨base, ext, shows, few, -, plainBase, plainExt, bytes⟩ := short.to83
  rw [bytes, from83_canonical few plainBase plainExt, shows]

/-- The padded form depends only on the name in upper case. -/
theorem to83_congr {n m : CString} (same : upper n = upper m) (short : ShortName n)
    (short' : ShortName m) : to83 n = to83 m := by
  obtain ⟨base, ext, shows, -, -, plain, -, bytes⟩ := short.to83
  obtain ⟨base', ext', shows', -, -, plain', -, bytes'⟩ := short'.to83
  have undotted : dot ∉ base := fun mem => (plain dot mem).2.1 rfl
  have undotted' : dot ∉ base' := fun mem => (plain' dot mem).2.1 rfl
  have shown_same : shown base ext = shown base' ext' := by rw [← shows, ← shows', same]
  have base_same : base = base' := by
    rw [← shown_base undotted ext, shown_same, shown_base undotted']
  have ext_same : ext = ext' := by
    rw [← shown_ext undotted ext, shown_same, shown_ext undotted']
  rw [bytes, bytes', base_same, ext_same]

/-- `to_83` tells names apart up to the case of letters, and `from_83` undoes it. -/
theorem short_names_faithful {n m : CString} (short : ShortName n) (short' : ShortName m) :
    (to83 n = to83 m ↔ upper n = upper m) ∧ (from83 (to83 n)).bytes = upper n := by
  refine ⟨⟨fun same => ?_, fun same => to83_congr same short short'⟩, short.from83⟩
  rw [← short.from83, ← short'.from83, same]

theorem short_names_faithful_readme :
    (to83 (.lit "readme.txt") = to83 (.lit "README.Txt") ↔
      upper (.lit "readme.txt") = upper (.lit "README.Txt")) ∧
    (from83 (to83 (.lit "readme.txt"))).bytes = upper (.lit "readme.txt") :=
  short_names_faithful ⟨by decide +kernel, by decide +kernel, by decide +kernel⟩
    ⟨by decide +kernel, by decide +kernel, by decide +kernel⟩

end Io
