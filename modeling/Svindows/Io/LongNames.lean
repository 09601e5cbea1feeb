import Mathlib.Data.List.GetD
import Svindows.Io.FatNames

/-!
# Long names

A long name lies before its short entry, in fragments of 13 characters with the last
one first. Both scans put the fragments together in a buffer that the first of them
clears, and come to the short entry with the whole name, whatever stood before.
-/

namespace Io

open Nt ByteMemory Rtl

def fragmentCount (name : CString) : Nat := (name.bytes.length + 12) / 13

/-- The 16-bit units of all fragments: a NUL and `0xFFFF` fill up the last one, unless the
name does. -/
def lfnUnits (name : CString) : List Nat :=
  name.bytes.map UInt8.toNat ++
    if name.bytes.length % 13 = 0 then []
    else 0 :: List.replicate (12 - name.bytes.length % 13) 0xFFFF

/-- The fragment of an ordinal. Its type, its checksum and its cluster are not looked at. -/
structure IsFragment (name : CString) (ordinal : Nat) (e : Dirent) : Prop where
  order : e 0 = UInt8.ofNat (ordinal + if ordinal = fragmentCount name then 0x40 else 0)
  attr : e.attr = attrLongName
  chars : e.longChars = ((lfnUnits name).drop ((ordinal - 1) * 13)).take 13

/-- The fragments up to an ordinal, in descending order. -/
inductive Fragments (name : CString) : Nat → List Dirent → Prop
  | none : Fragments name 0 []
  | next {ordinal : Nat} {e : Dirent} {es : List Dirent}
      (fragment : IsFragment name (ordinal + 1) e) (rest : Fragments name ordinal es) :
      Fragments name (ordinal + 1) (e :: es)

/-- A name that can be encoded in ASCII. -/
structure Encodable (name : CString) : Prop where
  some_ : 0 < name.bytes.length
  short : name.bytes.length ≤ 255
  ascii : ∀ c ∈ name.bytes, c ≤ 0x7F

def Encodes (name : CString) (fragments : List Dirent) : Prop :=
  Fragments name (fragmentCount name) fragments

/-- The end of a fragment that is filled up: nothing, or a NUL that is there already. -/
def Filler (out : Memory) (pos : Nat) (tail : List Nat) : Prop :=
  tail = [] ∨ ∃ rest, tail = 0 :: rest ∧ pos < 259 ∧ out pos = 0

/-- The characters are put at their places, and nothing else is changed. -/
theorem putChars_ascii {cs : List UInt8} {out : Memory} {pos : Nat} {tail : List Nat}
    (nonzero : 0 ∉ cs) (ascii : ∀ c ∈ cs, c ≤ 0x7F) (room : pos + cs.length ≤ 259)
    (filler : Filler out (pos + cs.length) tail) :
    putChars out pos (cs.map UInt8.toNat ++ tail) = fun b =>
      if pos ≤ b ∧ b < pos + cs.length then cs.getD (b - pos) 0 else out b := by
  induction cs generalizing out pos with
  | nil =>
    have same : putChars out pos tail = out := by
      rcases filler with rfl | ⟨rest, rfl, low, zero⟩
      · rfl
      · rw [List.length_nil, Nat.add_zero] at low zero
        rw [putChars, if_neg (by omega), if_pos rfl, ← zero, Function.update_eq_self]
    funext b
    rw [List.map_nil, List.nil_append, same, if_neg]
    rw [List.length_nil]
    omega
  | cons c cs ih =>
    rw [List.length_cons] at room filler
    have small : c.toNat ≤ 0x7F := ascii c List.mem_cons_self
    have some_ : c.toNat ≠ 0 := fun zero =>
      nonzero (List.mem_cons.mpr (.inl (UInt8.toNat_inj.mp zero.symm)))
    have byte : c.toNat.toUInt8 = c := UInt8.ofNat_toNat
    rw [List.map_cons, List.cons_append, putChars, if_neg (by omega), if_neg some_,
      if_pos (by omega), if_pos small, byte,
      ih (fun mem => nonzero (List.mem_cons_of_mem c mem))
        (fun d mem => ascii d (List.mem_cons_of_mem c mem)) (by omega) ?_]
    · funext b
      rcases Nat.lt_trichotomy b pos with less | rfl | more
      · rw [if_neg (by omega), if_neg (by omega), Function.update_of_ne (by omega)]
      · rw [if_neg (by omega), if_pos (by simp), Function.update_self, Nat.sub_self]
        rfl
      · by_cases within : b < pos + 1 + cs.length
        · have index : b - pos = b - (pos + 1) + 1 := by omega
          rw [if_pos (by omega), if_pos (by simp; omega), index, List.getD_cons_succ]
        · rw [if_neg (by omega), if_neg (by simp; omega), Function.update_of_ne (by omega)]
    · have place : pos + 1 + cs.length = pos + (cs.length + 1) := by omega
      rw [place]
      rcases filler with rfl | ⟨rest, rfl, low, zero⟩
      · exact .inl rfl
      · exact .inr ⟨rest, rfl, low, by rw [Function.update_of_ne (by omega), zero]⟩

/-- The buffer with the fragments from an ordinal on. -/
def nameFrom (name : CString) (ordinal : Nat) : Memory := fun b =>
  if ordinal * 13 ≤ b then name.bytes.getD b 0 else 0

theorem fragment_units {name : CString} (encodable : Encodable name) {k : Nat}
    (lt : k < fragmentCount name) : ∃ tail,
    ((lfnUnits name).drop (k * 13)).take 13 =
      ((name.bytes.drop (k * 13)).take 13).map UInt8.toNat ++ tail ∧
    Filler (nameFrom name (k + 1)) (k * 13 + ((name.bytes.drop (k * 13)).take 13).length) tail := by
  rw [fragmentCount] at lt
  have short := encodable.short
  have left : (name.bytes.drop (k * 13)).length = name.bytes.length - k * 13 := List.length_drop
  have units : (lfnUnits name).drop (k * 13) = (name.bytes.drop (k * 13)).map UInt8.toNat ++
      if name.bytes.length % 13 = 0 then []
      else 0 :: List.replicate (12 - name.bytes.length % 13) 0xFFFF := by
    rw [lfnUnits, List.drop_append_of_le_length (by rw [List.length_map]; omega), List.map_drop]
  rw [units]
  by_cases whole : 13 ≤ name.bytes.length - k * 13
  · refine ⟨[], ?_, .inl rfl⟩
    rw [List.take_append_of_le_length (by rw [List.length_map]; omega), List.append_nil,
      List.map_take]
  · have last : name.bytes.length % 13 = name.bytes.length - k * 13 := by omega
    have all : (name.bytes.drop (k * 13)).take 13 = name.bytes.drop (k * 13) :=
      List.take_of_length_le (by omega)
    rw [if_neg (by omega), all]
    refine ⟨_, List.take_of_length_le ?_, .inr ⟨_, rfl, by omega, ?_⟩⟩
    · rw [List.length_append, List.length_map, List.length_cons, List.length_replicate]
      omega
    · rw [nameFrom, if_neg (by omega)]

/-- A fragment adds its characters to those behind it. -/
theorem putChars_fragment {name : CString} (encodable : Encodable name) {k : Nat}
    (lt : k < fragmentCount name) :
    putChars (nameFrom name (k + 1)) (k * 13) (((lfnUnits name).drop (k * 13)).take 13) =
      nameFrom name k := by
  obtain ⟨tail, units, filler⟩ := fragment_units encodable lt
  rw [fragmentCount] at lt
  have short := encodable.short
  have part : ∀ c ∈ (name.bytes.drop (k * 13)).take 13, c ∈ name.bytes := fun c mem =>
    List.mem_of_mem_drop (List.mem_of_mem_take mem)
  have size : ((name.bytes.drop (k * 13)).take 13).length =
      min 13 (name.bytes.length - k * 13) := by
    rw [List.length_take, List.length_drop]
  rw [units, putChars_ascii (fun mem => name.noNul (part 0 mem))
    (fun c mem => encodable.ascii c (part c mem)) (by omega) filler]
  funext b
  rw [size, nameFrom, nameFrom]
  by_cases inside : k * 13 ≤ b ∧ b < k * 13 + min 13 (name.bytes.length - k * 13)
  · have index : k * 13 + (b - k * 13) = b := by omega
    rw [if_pos inside, if_pos inside.1, List.getD_eq_getElem?_getD, List.getD_eq_getElem?_getD,
      List.getElem?_take_of_lt (by omega), List.getElem?_drop, index]
  · rw [if_neg inside]
    by_cases before : k * 13 ≤ b
    · by_cases behind : (k + 1) * 13 ≤ b
      · rw [if_pos behind, if_pos before]
      · rw [if_neg behind, if_pos before, List.getD_eq_default _ _ (by omega)]
    · rw [if_neg before, if_neg (by omega)]

/-- The bits that a scan takes from the order of a fragment. -/
theorem order_bits : ∀ k < 21, ∀ first : Bool,
    let order := UInt8.ofNat (k + if first then 0x40 else 0)
    (0 < k → order ≠ 0) ∧ order ≠ 0xE5 ∧ order.toNat % 32 = k ∧
      (order &&& 0x40 ≠ 0 ↔ first = true) := by
  decide

/-- What a scan makes of a fragment, if it comes first or the fragments before it are known. -/
theorem see_fragment {name : CString} (encodable : Encodable name) {k : Nat} {e : Dirent}
    (le : k + 1 ≤ fragmentCount name) (fragment : IsFragment name (k + 1) e) {l : Lfn}
    (known : k + 1 = fragmentCount name ∨ l = ⟨nameFrom name (k + 1), true⟩) :
    see l e = .skip ⟨nameFrom name k, true⟩ := by
  have short := encodable.short
  have few : fragmentCount name ≤ 20 := by
    rw [fragmentCount]
    omega
  obtain ⟨nonzero, undeleted, ordinal, starts⟩ :=
    order_bits (k + 1) (by omega) (decide (k + 1 = fragmentCount name))
  simp only [decide_eq_true_eq] at nonzero undeleted ordinal starts
  rw [← fragment.order] at nonzero undeleted ordinal starts
  have put (l : Lfn) (same : l = ⟨nameFrom name (k + 1), true⟩) :
      takeFragment l e = ⟨nameFrom name k, true⟩ := by
    rw [same, takeFragment, if_pos rfl, lfnPutFragment, ordinal]
    dsimp only
    rw [if_neg (by omega), fragment.chars, Nat.add_sub_cancel,
      putChars_fragment encodable (by omega)]
  rw [see, if_neg (nonzero (by omega)), if_neg undeleted, if_pos fragment.attr]
  congr 1
  refine put _ ?_
  by_cases first : k + 1 = fragmentCount name
  · rw [if_pos (starts.mpr first), first]
    congr 1
    funext b
    rw [nameFrom, fragmentCount]
    split
    · rw [List.getD_eq_default _ _ (by omega)]
    · rfl
  · rw [if_neg (mt starts.mp first)]
    exact known.resolve_left first

/-- The long name that a scan holds behind some entries. -/
def scanned : List Dirent → Lfn → Lfn
  | [], l => l
  | e :: es, l =>
    match see l e with
    | .stop => l
    | .skip l => scanned es l
    | .plain => scanned es l.forget

theorem visible_append {xs : List Dirent} (unended : ∀ e ∈ xs, e 0 ≠ 0) (ys : List Dirent)
    (l : Lfn) : visible (xs ++ ys) l = visible xs l ++ visible ys (scanned xs l) := by
  induction xs generalizing l with
  | nil => rfl
  | cons e xs ih =>
    have rest := ih fun e' mem => unended e' (List.mem_cons_of_mem e mem)
    rw [List.cons_append, visible, visible, scanned]
    cases seen : see l e with
    | stop => exact absurd (see_stop_iff.mp seen) (unended e List.mem_cons_self)
    | skip l' => exact rest l'
    | plain =>
      dsimp only
      rw [rest l.forget, List.cons_append]

/-- The whole name. -/
def whole (name : CString) : Lfn := ⟨nameFrom name 0, true⟩

theorem visible_fragments {name : CString} (encodable : Encodable name) {k : Nat}
    {es : List Dirent} (fragments : Fragments name k es) (le : k ≤ fragmentCount name)
    (ys : List Dirent) {l : Lfn}
    (known : k = fragmentCount name ∧ k ≠ 0 ∨ l = ⟨nameFrom name k, true⟩) :
    visible (es ++ ys) l = visible ys (whole name) := by
  induction fragments generalizing l with
  | none => rw [known.resolve_left fun first => first.2 rfl, List.nil_append, whole]
  | next fragment rest ih =>
    rw [List.cons_append, visible,
      see_fragment encodable le fragment (known.imp_left fun first => first.1)]
    exact ih (by omega) (.inr rfl)

theorem whole_string {name : CString} (encodable : Encodable name) :
    (whole name).string = name := by
  have short := encodable.short
  have bytes : (List.range 260).map (nameFrom name 0) =
      name.bytes ++ List.replicate (260 - name.bytes.length) 0 := by
    refine List.ext_getElem? fun b => ?_
    rw [List.getElem?_map, List.getElem?_append, List.getElem?_replicate]
    by_cases inside : b < 260
    · rw [List.getElem?_range inside, Option.map_some, nameFrom, if_pos (by omega)]
      split
      · rename_i within
        rw [List.getD_eq_getElem _ _ within, List.getElem?_eq_getElem within]
      · rw [List.getD_eq_default _ _ (by omega), if_pos (by omega)]
    · rw [List.getElem?_eq_none (by rw [List.length_range]; omega), Option.map_none,
        if_neg (by omega), if_neg (by omega)]
  refine CString.ext ?_
  rw [Lfn.string, CString.ofBytes, whole]
  dsimp only
  rw [bytes, List.takeWhile_append_of_pos]
  · obtain ⟨n, more⟩ : ∃ n, 260 - name.bytes.length = n + 1 := ⟨259 - name.bytes.length, by omega⟩
    rw [more, List.replicate_succ, List.takeWhile_cons_of_neg (by simp), List.append_nil]
  · intro c mem
    have some_ : c ≠ 0 := fun zero => name.noNul (zero ▸ mem)
    simpa using some_

/-- A name in another letter case. -/
def CaseVariant (a b : CString) : Prop := a.bytes.map toLower = b.bytes.map toLower

theorem equalCi_of_lower {as bs : List UInt8} (same : as.map toLower = bs.map toLower) :
    equalCi as bs = true := by
  induction as generalizing bs with
  | nil =>
    rw [List.map_nil] at same
    rw [List.map_eq_nil_iff.mp same.symm]
    rfl
  | cons a as ih =>
    cases bs with
    | nil => cases same
    | cons b bs =>
      obtain ⟨head, tail⟩ := List.cons_eq_cons.mp same
      rw [equalCi, if_neg (not_not.mpr head)]
      exact ih tail

theorem whole_matches {name variant : CString} (encodable : Encodable name)
    (same : CaseVariant variant name) (e : Dirent) : isMatch variant (whole name) e = true := by
  have equal : nameEqualCi (whole name).string variant = true := by
    rw [whole_string encodable]
    exact equalCi_of_lower same.symm
  rw [isMatch, equal]
  rfl

/-- A directory, from its first cluster on, has some entries and then the name with its short
entry. None of the entries before is the end of the directory. -/
structure HoldsName (h : Host) (v : FatVolume) (n c : Nat) (before : List Dirent)
    (name : CString) (short : Dirent) : Prop where
  entries : ∃ fragments after, Encodes name fragments ∧
    entriesFrom h v n c = before ++ (fragments ++ short :: after)
  unended : ∀ e ∈ before, e 0 ≠ 0
  inUse : short 0 ≠ 0 ∧ short 0 ≠ 0xE5
  plain : short.attr ≠ attrLongName

variable {h : Host} {v : FatVolume} {n c : Nat} {before : List Dirent} {name : CString}
  {short : Dirent}

theorem HoldsName.visible (holds : HoldsName h v n c before name short)
    (encodable : Encodable name) : ∃ rest, visible (entriesFrom h v n c) .start =
      visible before .start ++ (whole name, short) :: rest := by
  obtain ⟨fragments, after, encodes, entries⟩ := holds.entries
  have some_ := encodable.some_
  have count : fragmentCount name ≠ 0 := by
    rw [fragmentCount]
    omega
  refine ⟨Io.visible after (whole name).forget, ?_⟩
  rw [entries, visible_append holds.unended,
    visible_fragments encodable encodes (le_refl _) _ (.inl ⟨rfl, count⟩), Io.visible, see,
    if_neg holds.inUse.1, if_neg holds.inUse.2, if_neg holds.plain]

theorem HoldsName.sectors (holds : HoldsName h v n c before name short) :
    v.sectorsPerCluster ≠ 0 := by
  intro none_
  obtain ⟨fragments, after, -, entries⟩ := holds.entries
  rw [entriesFrom_empty none_] at entries
  simp at entries

/-- Both scans come to the short entry with the whole name; the search finds the entry under
it, and the enumeration reports it if it is a file. -/
theorem long_name_decoded (calm : NoErrors h) (encodable : Encodable name)
    (holds : HoldsName h v n c before name short) (s : IoState) :
    (∃ l rest, visible (entriesFrom h v n c) .start =
      visible before .start ++ (l, short) :: rest ∧ l.haveLfn = true ∧ l.string = name) ∧
    (∀ variant, CaseVariant variant name →
      (∀ p ∈ visible before .start, isMatch variant p.1 p.2 = false) →
        ∃ fuel s₁, fatFind h v fuel c variant s = some (some short, s₁)) ∧
    (c = v.rootCluster → isFile short = true → (files (visible before .start)).length < 2 ^ 32 →
      ∃ data, Reports h v (files (visible before .start)).length s data ∧ data.name = name ∧
        data.size = short.fileSize ∧ data.attributes = short.attr.toNat ∧
        data.writeDate = short.writeDate ∧ data.writeTime = short.writeTime) := by
  obtain ⟨rest, shown⟩ := holds.visible encodable
  have grant := calm.pool s.allocs
  refine ⟨⟨whole name, rest, shown, rfl, whole_string encodable⟩, ?_, ?_⟩
  · intro variant same earlier
    have found : (findIn variant (entriesFrom h v n c) .start).entry = some short := by
      rw [findIn_entry, shown, List.find?_append,
        List.find?_eq_none.mpr fun p mem => by rw [earlier p mem]; exact Bool.false_ne_true,
        Option.none_or, List.find?_cons]
      dsimp only
      rw [whole_matches encodable same short]
      rfl
    obtain ⟨t, run⟩ := find_run variant calm holds.sectors .start s.reads
      (.inr (by rw [found]; exact Option.some_ne_none short))
    refine ⟨n + 1, exFreePool { s.granted with reads := t } s.allocs, ?_⟩
    rw [fatFind_granted grant, run, found]
    rfl
  · rintro rfl file few
    have data : (enumerateIn (files (visible before .start)).length
        (entriesFrom h v n v.rootCluster) .start 0).data = some (findData (whole name) short) := by
      rw [enumerateIn_data few _ _ (Nat.zero_le _), Nat.sub_zero, shown, files,
        List.filter_append, List.filter_cons_of_pos (by exact file), ← files,
        List.getElem?_append_right (le_refl _), Nat.sub_self]
      rfl
    obtain ⟨t, run⟩ := enumerate_run calm holds.sectors (files (visible before .start)).length
      .start 0 s.reads (.inr (by rw [data]; exact Option.some_ne_none _))
    rw [data, EnumerateScan.status_success data] at run
    have reported : (findData (whole name) short).name = name := by
      have length := encodable.short
      have long : (whole name).haveLfn = true := rfl
      dsimp only [findData]
      rw [if_pos long, whole_string encodable]
      exact CString.ext (List.take_of_length_le (by omega))
    refine ⟨findData (whole name) short,
      ⟨n + 1, exFreePool { s.granted with reads := t } s.allocs, ?_⟩, reported, rfl, rfl, rfl, rfl⟩
    rw [fatEnumerateRoot_granted grant, run]
    rfl

/-- The fragment of the name `a`. -/
def fragmentA : Memory := fun k =>
  if k = 0 then 0x41 else if k = 1 then 97 else if k < 5 ∨ k = 12 ∨ k = 13 then 0
  else if k = 11 then 0x0F else if k = 26 ∨ k = 27 then 0 else 0xFF

/-- The disk with one file, which has the long name `a` as well or is a directory with that
name. -/
def longNameHost (directory : Bool) : Host :=
  { oneFileHost 4 with
    byte := fun a =>
      if a < 1024 then (oneFileHost 4).byte a
      else if a < 1056 then fragmentA (a - 1024)
      else if a = 1067 then if directory then 0x10 else 0x20
      else if a < 1536 then oneFileRoot (a - 1056)
      else (oneFileHost 4).byte a }

theorem longNameHost_calm (directory : Bool) : NoErrors (longNameHost directory) :=
  ⟨fun _ _ => rfl, fun _ => rfl⟩

theorem fileA_encodable : Encodable fileA := by
  have bytes : fileA.bytes = [97] := rfl
  refine ⟨by decide, by decide, ?_⟩
  intro c member
  rw [bytes, List.mem_singleton] at member
  rw [member]
  decide

/-- The entry behind the fragment. -/
def shortA (directory : Bool) : Dirent := fun k =>
  clusterBytes (longNameHost directory) endlessVolume 2 (sizeofDirent * 1 + k)

theorem longNameHost_holds (directory : Bool) :
    HoldsName (longNameHost directory) endlessVolume 1 2 [] fileA (shortA directory) := by
  have entries : entriesFrom (longNameHost directory) endlessVolume 1 2 =
      dirents endlessVolume (clusterBytes (longNameHost directory) endlessVolume 2) := by
    rw [entriesFrom, if_neg (by decide), entriesFrom, List.append_nil]
  have fragment : IsFragment fileA 1 fun k =>
      clusterBytes (longNameHost directory) endlessVolume 2 (sizeofDirent * 0 + k) := by
    constructor <;> cases directory <;> decide +kernel
  refine ⟨⟨_, _, .next fragment .none, entries.trans rfl⟩, ?_, ?_, ?_⟩
  · exact fun e mem => absurd mem List.not_mem_nil
  · cases directory <;> decide +kernel
  · cases directory <;> decide +kernel

theorem long_name_decoded_file :
    (∃ fuel s₁, fatFind (longNameHost false) endlessVolume fuel 2 (.lit "A") ⟨1, 0, []⟩ =
      some (some (shortA false), s₁)) ∧
    ∃ data, Reports (longNameHost false) endlessVolume 0 ⟨1, 0, []⟩ data ∧ data.name = fileA := by
  obtain ⟨-, finds, reports⟩ := long_name_decoded (longNameHost_calm false) fileA_encodable
    (longNameHost_holds false) ⟨1, 0, []⟩
  refine ⟨finds (.lit "A") (by rw [CaseVariant]; decide) (fun p mem => absurd mem List.not_mem_nil),
    ?_⟩
  obtain ⟨data, report, name, -⟩ := reports rfl (by decide +kernel) (by decide)
  exact ⟨data, report, name⟩

/-- A directory has its long name in the root directory, and no index reports it. -/
theorem directory_never_enumerated :
    Encodable fileA ∧ NoErrors (longNameHost true) ∧
      HoldsName (longNameHost true) endlessVolume 1 endlessVolume.rootCluster [] fileA
        (shortA true) ∧
      ¬ ∃ wanted < 2 ^ 32, ∃ s data, Reports (longNameHost true) endlessVolume wanted s data := by
  refine ⟨fileA_encodable, longNameHost_calm true, longNameHost_holds true, ?_⟩
  rintro ⟨wanted, word, s, data, report⟩
  have ends : EndsWithin (longNameHost true) endlessVolume 1 endlessVolume.rootCluster := by
    change _ ≤ _
    decide +kernel
  have nothing : files (rootVisible (longNameHost true) endlessVolume 1) = [] := by
    refine List.length_eq_zero_iff.mp ?_
    decide +kernel
  have reported := (reports_iff (longNameHost_calm true) ends word s data).mp report
  rw [nothing] at reported
  cases reported

end Io
