import Svindows.Ldr.ImageRanges
import Svindows.Ldr.Relocations

/-!
# What the mapper reads and writes

The fields of the file are checked against the file or against the image, some
against neither. The mapper stays inside both exactly when the fields it does
not check fit.
-/

namespace Ldr

open Nt ByteMemory

/-- The `len` bytes at `va` lie in the image at `base`. -/
def Within (f : PeFile) (base va len : Nat) : Prop :=
  ∀ i < len, sub64 (va + i) base < f.imageSize

def Access.Inside (f : PeFile) (base : Nat) : Access → Prop
  | .file off len => ∀ i < len, off + i < f.size
  | .read va len => Within f base va len
  | .write va len => Within f base va len

@[simp] theorem read_inside (f : PeFile) (base va len : Nat) :
    (Access.read va len).Inside f base ↔ Within f base va len := Iff.rfl

@[simp] theorem write_inside (f : PeFile) (base va len : Nat) :
    (Access.write va len).Inside f base ↔ Within f base va len := Iff.rfl

/-- The image at `base` ends below the kernel half. -/
def BelowUserMax (f : PeFile) (base : Nat) : Prop :=
  ∀ i < f.imageSize, wrap64 (base + i) < mmUserMax

/-- The mapper keeps to the file and to the image's range in the user half. -/
def Confined (f : PeFile) (r : MapResult) : Prop :=
  (∀ x ∈ r.trace, x.Inside f r.base) ∧
    (r.status = some statusSuccess → BelowUserMax f r.base)

variable {base rounds : Nat} {f : PeFile} {s : LdrState}

theorem file_inside_iff {off len : Nat} (some_ : len ≠ 0) :
    (Access.file off len).Inside f base ↔ off + len ≤ f.size := by
  constructor
  · intro inside
    have last := inside (len - 1) (by omega)
    omega
  · intro fits i hi
    omega

/-- From the base on, a range is inside when its length fits. -/
theorem within_iff (f : PeFile) {base : Nat} (off len : Nat) (word : base < 2 ^ 64)
    (small : off + len ≤ 2 ^ 34) (some_ : len ≠ 0) :
    Within f base (base + off) len ↔ off + len ≤ f.imageSize := by
  have distance : ∀ i < len, sub64 (base + off + i) base = off + i := by
    intro i hi
    simp only [sub64, wrap64]
    omega
  constructor
  · intro inside
    have last := inside (len - 1) (by omega)
    rw [distance _ (by omega)] at last
    omega
  · intro fits i hi
    rw [distance i hi]
    omega

/-- The headers that are copied fit the image. -/
def HeadersFit (f : PeFile) : Prop := f.sizeOfHeaders ≤ f.size → f.sizeOfHeaders ≤ f.imageSize

/-- The file has the fields of the section headers that are read. -/
def SectionsFit (f : PeFile) : Prop :=
  ∀ i < f.numberOfSections, f.section_ i + 20 ≤ f.size ∧
    (f.sizeOfRawData i ≠ 0 → f.section_ i + 24 ≤ f.size)

/-- Entry `i` of the block at `cursor`, as memory is then, and what it relocates. -/
def EntryFits (f : PeFile) (base cursor i : Nat) (m : Memory) : Prop :=
  Within f base (cursor + 8 + 2 * i) 2 ∧
    (value m (cursor + 8 + 2 * i) 2 / 2 ^ 12 = imageRelBasedDir64 →
      Within f base cursor 4 ∧ Within f base
        (wrap64 (base + value m cursor 4 + value m (cursor + 8 + 2 * i) 2 % 2 ^ 12)) 8)

def EntriesFit (f : PeFile) (base delta cursor n : Nat) (m : Memory) : Prop :=
  ∀ i < n, EntryFits f base cursor i (applyEntries base delta cursor i m).2

/-- The blocks from `cursor` on, with their entries. -/
def BlocksFit (f : PeFile) (base delta stop : Nat) : Nat → Nat → Memory → Prop
  | 0, _, _ => True
  | rounds + 1, cursor, m => cursor < stop →
    Within f base (cursor + 4) 4 ∧
      (8 ≤ value m (cursor + 4) 4 →
        EntriesFit f base delta cursor ((value m (cursor + 4) 4 - 8) / 2) m ∧
        BlocksFit f base delta stop rounds
          (wrap64 (cursor + value (applyEntries base delta cursor
            ((value m (cursor + 4) 4 - 8) / 2) m).2 (cursor + 4) 4))
          (applyEntries base delta cursor ((value m (cursor + 4) 4 - 8) / 2) m).2)

/-- The relocation directory of an image laid out at `base` as `m`. -/
def RelocationsFit (rounds : Nat) (f : PeFile) (base : Nat) (m : Memory) : Prop :=
  sub64 base f.imageBase ≠ 0 →
    f.eLfanew + relocEntryOff + 8 ≤ f.imageSize ∧
    (value m (base + f.eLfanew + relocEntryOff + 4) 4 ≠ 0 →
      BlocksFit f base (sub64 base f.imageBase)
        (wrap64 (wrap64 (base + value m (base + f.eLfanew + relocEntryOff) 4) +
          value m (base + f.eLfanew + relocEntryOff + 4) 4)) rounds
        (wrap64 (base + value m (base + f.eLfanew + relocEntryOff) 4)) m)

theorem copyHeaders_inside_iff (word : base < 2 ^ 64) (m : Memory) :
    (∀ x ∈ (copyHeaders f base m).1, x.Inside f base) ↔ HeadersFit f := by
  have small := load_lt f.bytes (f.opt + 60) 4
  unfold copyHeaders HeadersFit
  split
  · rename_i copied
    simp only [List.mem_cons, List.not_mem_nil, or_false, forall_eq_or_imp, forall_eq, copied,
      forall_const]
    by_cases none : f.sizeOfHeaders = 0
    · simp [none, Access.Inside, Within]
    · rw [file_inside_iff none]
      have write := within_iff f 0 _ word
        (by simp only [PeFile.sizeOfHeaders] at *; omega) none
      simp only [Nat.add_zero, Nat.zero_add] at write
      simp only [Access.Inside, write, Nat.zero_add, copied, true_and]
  · rename_i skipped
    simp [skipped]

theorem copySection_inside_iff (word : base < 2 ^ 64) (i : Nat) (m : Memory) :
    (∀ x ∈ (copySection f base i m).1, x.Inside f base) ↔
      f.section_ i + 20 ≤ f.size ∧ (f.sizeOfRawData i ≠ 0 → f.section_ i + 24 ≤ f.size) := by
  have field : ∀ off, (Access.file off 4).Inside f base ↔ off + 4 ≤ f.size :=
    fun off => file_inside_iff (by decide)
  have raw := load_lt f.bytes (f.section_ i + 16) 4
  have va := load_lt f.bytes (f.section_ i + 12) 4
  unfold copySection
  dsimp only
  split
  · rename_i none
    simp [none, field]
  · rename_i some_
    have start : f.section_ i + 20 + 4 ≤ f.size ↔ f.section_ i + 24 ≤ f.size := Iff.rfl
    split
    · simp [some_, field, start]
    · rename_i contained
      split
      · simp only [List.mem_cons, List.not_mem_nil, or_false, forall_eq_or_imp, forall_eq, field,
          ne_eq, some_, not_false_eq_true, forall_const]
        omega
      · rename_i laid
        have source : (Access.file (f.pointerToRawData i) (f.sizeOfRawData i)).Inside f base :=
          (file_inside_iff some_).mpr (by omega)
        have target : (Access.write (base + f.virtualAddress i) (f.sizeOfRawData i)).Inside f base :=
          (within_iff f _ _ word (by simp only [PeFile.virtualAddress, PeFile.sizeOfRawData] at *; omega)
            some_).mpr (by omega)
        simp only [List.mem_cons, List.not_mem_nil, or_false, forall_eq_or_imp, forall_eq, field,
          source, target, ne_eq, some_, not_false_eq_true, forall_const, and_true]
        omega

theorem copySections_inside_iff (word : base < 2 ^ 64) (n : Nat) (m : Memory) :
    (∀ x ∈ (copySections f base n m).1, x.Inside f base) ↔
      ∀ i < n, f.section_ i + 20 ≤ f.size ∧
        (f.sizeOfRawData i ≠ 0 → f.section_ i + 24 ≤ f.size) := by
  induction n with
  | zero => simp [copySections]
  | succ n ih =>
    rw [Nat.forall_lt_succ_right]
    simp only [copySections, List.forall_mem_append, ih,
      copySection_inside_iff word n (copySections f base n m).2]

theorem layOut_inside_iff (word : base < 2 ^ 64) (m : Memory) :
    (∀ x ∈ (layOut f base m).1, x.Inside f base) ↔ HeadersFit f ∧ SectionsFit f := by
  have cleared : (Access.write base f.imageSize).Inside f base := by
    intro i hi
    have size := imageSize_le f
    have distance : sub64 (base + i) base = i := by
      simp only [sub64, wrap64]
      omega
    rw [distance]
    exact hi
  simp only [layOut, List.cons_append, List.forall_mem_cons, List.forall_mem_append, cleared,
    true_and, copyHeaders_inside_iff word, copySections_inside_iff word, SectionsFit]

theorem applyEntry_inside_iff {delta cursor i : Nat} (m : Memory) :
    (∀ x ∈ (applyEntry base delta cursor i m).1, x.Inside f base) ↔
      EntryFits f base cursor i m := by
  unfold applyEntry EntryFits
  dsimp only
  split
  · rename_i dir64
    simp only [List.mem_cons, List.not_mem_nil, or_false, forall_eq_or_imp, forall_eq,
      read_inside, write_inside, dir64, forall_const, and_self]
  · rename_i other
    simp only [List.mem_cons, List.not_mem_nil, or_false, forall_eq, read_inside, other,
      false_imp_iff, and_true]

theorem applyEntries_inside_iff {delta cursor : Nat} (n : Nat) (m : Memory) :
    (∀ x ∈ (applyEntries base delta cursor n m).1, x.Inside f base) ↔
      EntriesFit f base delta cursor n m := by
  unfold EntriesFit
  induction n with
  | zero => simp [applyEntries]
  | succ n ih =>
    rw [Nat.forall_lt_succ_right]
    simp only [applyEntries, List.forall_mem_append, ih, applyEntry_inside_iff]

theorem applyBlocks_inside_iff {delta stop : Nat} (rounds : Nat) : ∀ (cursor : Nat) (m : Memory),
      (∀ x ∈ (applyBlocks base delta stop rounds cursor m).2.1, x.Inside f base) ↔
        BlocksFit f base delta stop rounds cursor m := by
  induction rounds with
  | zero =>
    intro cursor m
    simp [applyBlocks, BlocksFit]
  | succ rounds ih =>
    intro cursor m
    simp only [applyBlocks, BlocksFit]
    by_cases more : cursor < stop
    · simp only [more, if_true, forall_const]
      by_cases short : value m (cursor + 4) 4 < 8
      · simp [short, Nat.not_le.mpr short]
      · have long : 8 ≤ value m (cursor + 4) 4 := Nat.le_of_not_lt short
        simp only [short, if_false, long, forall_const, List.cons_append, List.forall_mem_cons,
          List.forall_mem_append, applyEntries_inside_iff, ih, read_inside]
        constructor
        · rintro ⟨header, entries, _, rest⟩
          exact ⟨header, entries, rest⟩
        · rintro ⟨header, entries, rest⟩
          exact ⟨header, entries, header, rest⟩
    · simp [more]

theorem applyRelocations_inside_iff (word : base < 2 ^ 64) (rounds : Nat) (m : Memory) :
    (∀ x ∈ (applyRelocations rounds base (sub64 base f.imageBase) (base + f.eLfanew) m).2.1,
      x.Inside f base) ↔ RelocationsFit rounds f base m := by
  have small := load_lt f.bytes 60 4
  have dir := within_iff f (f.eLfanew + relocEntryOff) 8 word
    (by simp only [PeFile.eLfanew, relocEntryOff] at *; omega) (by decide)
  rw [← Nat.add_assoc] at dir
  unfold applyRelocations RelocationsFit
  split
  · rename_i same
    simp [same]
  · rename_i moved
    dsimp only
    split
    · rename_i none
      simp [moved, none, dir]
    · rename_i some_
      simp only [List.forall_mem_append, List.forall_mem_cons, List.not_mem_nil, false_imp_iff,
        implies_true, and_true, applyBlocks_inside_iff, read_inside, dir, ne_eq, moved, some_,
        not_false_eq_true, forall_const]

theorem within_of_le {va len : Nat} (region : base + f.imageSize < 2 ^ 64) (low : base ≤ va)
    (high : va + len ≤ base + f.imageSize) : Within f base va len := by
  intro i here
  simp only [sub64, wrap64]
  omega

section

variable {m m' : Memory} {a cursor stop : Nat} {blocks : List Nat}

theorem entriesFit_of_same (delta : Nat) (region : base + f.imageSize < 2 ^ 64)
    (same : SameOn m m' a stop) (first : base ≤ a) (last : stop ≤ base + f.imageSize)
    (low : a ≤ cursor) (n : Nat) (high : cursor + 8 + 2 * n ≤ stop)
    (inside : ∀ p ∈ entryTargets m base cursor n, base ≤ p ∧ p + 8 ≤ base + f.imageSize)
    (clear : ∀ p ∈ entryTargets m base cursor n, ClearOf a stop p) :
    EntriesFit f base delta cursor n m' := by
  unfold EntriesFit
  induction n with
  | zero => exact fun i none => absurd none (Nat.not_lt_zero i)
  | succ n ih =>
    rw [entryTargets_succ, List.forall_mem_append] at inside clear
    have fits : ∀ p ∈ entryTargets m base cursor n, p + 8 ≤ 2 ^ 64 := by
      intro p here
      have := (inside.1 p here).2
      omega
    rw [Nat.forall_lt_succ_right, applyEntries_adds same (by omega) low n (by omega) fits clear.1]
    have kept := same.addAll delta (by omega) fits clear.1
    refine ⟨ih (by omega) inside.1 clear.1, within_of_le region (by omega) (by omega), ?_⟩
    rw [kept.value (by omega) (b := cursor + 8 + 2 * n) (n := 2) (by omega) (by omega),
      kept.value (by omega) (b := cursor) (n := 4) low (by omega)]
    intro dir64
    rw [if_pos dir64, List.forall_mem_singleton] at inside
    exact ⟨within_of_le region (by omega) (by omega), within_of_le region inside.2.1 inside.2.2⟩

theorem Tiled.fit (delta : Nat) (region : base + f.imageSize < 2 ^ 64)
    (first : base ≤ a) (last : stop ≤ base + f.imageSize) (tiled : Tiled m stop cursor blocks) :
    ∀ (m' : Memory) (rounds : Nat), SameOn m m' a stop → a ≤ cursor →
      (∀ p ∈ tableTargets m base blocks, base ≤ p ∧ p + 8 ≤ base + f.imageSize) →
      (∀ p ∈ tableTargets m base blocks, ClearOf a stop p) →
      BlocksFit f base delta stop rounds cursor m' := by
  induction tiled with
  | done =>
    intro m' rounds _ _ _ _
    cases rounds with
    | zero => trivial
    | succ rounds => exact fun more => absurd more (lt_irrefl _)
  | @block cursor blocks header rest ih =>
    intro m' rounds same low inside clear
    obtain _ | rounds := rounds
    · trivial
    have left := rest.le
    rw [tableTargets_cons, List.forall_mem_append] at inside clear
    have fits : ∀ p ∈ blockTargets m base cursor, p + 8 ≤ 2 ^ 64 := by
      intro p here
      have := (inside.1 p here).2
      omega
    obtain ⟨m'', entries, -, kept, size, next⟩ :=
      block_adds delta same (by omega) low (by omega) fits clear.1
    refine fun _ => ⟨within_of_le region (by omega) (by omega), fun _ => ?_⟩
    rw [size, entries, next]
    exact ⟨entriesFit_of_same delta region same first last low _ (by omega) inside.1 clear.1,
      ih _ rounds kept (by omega) inside.2 clear.2⟩

end

/-- A table that is well formed in the image as it is laid out needs no look at the walk. -/
theorem RelocationTable.fit {m : Memory} {blocks : List Nat}
    (entry : f.eLfanew + relocEntryOff + 8 ≤ f.imageSize)
    (table : RelocationTable m base f.imageSize (base + f.eLfanew) blocks) :
    RelocationsFit rounds f base m := by
  have region := table.region
  have last := table.table
  have low : base ≤ tableStart m base (base + f.eLfanew) := Nat.le_add_right ..
  have high : tableStart m base (base + f.eLfanew) ≤ tableEnd m base (base + f.eLfanew) :=
    Nat.le_add_right ..
  have start : wrap64 (base + value m (base + f.eLfanew + relocEntryOff) 4) =
      tableStart m base (base + f.eLfanew) :=
    Nat.mod_eq_of_lt (lt_of_le_of_lt (high.trans last) region)
  have stop : wrap64 (tableStart m base (base + f.eLfanew) +
      value m (base + f.eLfanew + relocEntryOff + 4) 4) = tableEnd m base (base + f.eLfanew) :=
    Nat.mod_eq_of_lt (lt_of_le_of_lt last region)
  refine fun _ => ⟨entry, fun _ => ?_⟩
  rw [start, stop]
  exact table.tiled.fit _ region low last m rounds (fun _ _ _ => rfl) le_rfl table.inside
    table.outside

/-- The base the mapper would choose. -/
def Chooses (rounds : Nat) (s : LdrState) (f : PeFile) (base next : Nat) : Prop :=
  (f.IsResource ∧ f.imageSize ≠ 0 ∧ f.imageSize ≤ 0x4000000 ∧
    dynamicBase rounds s.vm s.dynamicImageNext f.imageSize = some (base, next)) ∨
  (¬ f.IsResource ∧ f.machine = imageFileMachineAmd64 ∧ f.magic = imageNtOptionalHdr64Magic ∧
    base ≠ 0 ∧ chooseImageBase rounds s.vm s.dynamicImageNext f = some (base, next))

/-- The file is accepted, and its pages can be mapped and cleared at `base`. -/
def LaidOutAt (rounds : Nat) (s : LdrState) (f : PeFile) (base : Nat) : Prop :=
  HeadersAccepted f ∧ ∃ next vm, Chooses rounds s f base next ∧
    mapPages s f base = some (statusSuccess, vm)

/-- A resource-only image has no relocations to apply; those of others may never end. -/
def RelocationsEnd (rounds : Nat) (f : PeFile) (base : Nat) (m : Memory) : Prop :=
  f.IsResource ∨
    (applyRelocations rounds base (sub64 base f.imageBase) (base + f.eLfanew) m).1 = true

/-- The fields that are not checked fit. -/
structure Fits (rounds : Nat) (s : LdrState) (f : PeFile) (base : Nat) : Prop where
  headers : HeadersFit f
  sections : SectionsFit f
  relocations : ¬ f.IsResource → RelocationsFit rounds f base (layOut f base s.mem).2
  below : RelocationsEnd rounds f base (layOut f base s.mem).2 → BelowUserMax f base

theorem Chooses.lt {next : Nat} (chosen : Chooses rounds s f base next) : base < 2 ^ 64 := by
  rcases chosen with ⟨_, _, _, found⟩ | ⟨_, _, _, _, found⟩
  · exact dynamicBase_lt found
  · unfold chooseImageBase at found
    split at found
    · obtain ⟨rfl, _⟩ := Prod.mk.inj (Option.some.inj found)
      exact load_lt f.bytes (f.opt + 24) 8
    · split at found
      · obtain ⟨rfl, _⟩ := Prod.mk.inj (Option.some.inj found)
        decide
      · exact dynamicBase_lt found

theorem headerReads_inside (accepted : HeadersAccepted f) (base : Nat) :
    ∀ x ∈ imageReads f ++ layoutReads f ++ resourceReads f, x.Inside f base := by
  have dos := accepted.dos
  have nt := accepted.nt
  have field : ∀ off len, len ≠ 0 → off + len ≤ f.size → (Access.file off len).Inside f base :=
    fun off len some_ fits => (file_inside_iff some_).mpr fits
  simp only [sizeofDosHeader, sizeofNtHeaders64] at dos nt
  simp only [imageReads, kindReads, dosReads, layoutReads, resourceReads, PeFile.opt,
    relocEntryOff, List.forall_mem_append, List.forall_mem_cons, List.not_mem_nil, false_imp_iff,
    implies_true, and_true]
  refine ⟨⟨⟨⟨⟨?_, ?_⟩, ?_, ?_, ?_⟩, ?_, ?_, ?_, ?_⟩, ?_, ?_, ?_⟩, ?_, ?_, ?_, ?_, ?_⟩ <;>
    exact field _ _ (by decide) (by omega)

/-- The accesses of a call that lays the image out at `base`. -/
structure Outcome (rounds : Nat) (s : LdrState) (f : PeFile) (base : Nat) (r : MapResult) :
    Prop where
  at_ : r.base = base
  status : r.status = some statusSuccess ↔ RelocationsEnd rounds f base (layOut f base s.mem).2
  trace : (∀ x ∈ r.trace, x.Inside f base) ↔
    (∀ x ∈ (layOut f base s.mem).1, x.Inside f base) ∧ (¬ f.IsResource →
      ∀ x ∈ (applyRelocations rounds base (sub64 base f.imageBase) (base + f.eLfanew)
        (layOut f base s.mem).2).2.1, x.Inside f base)

theorem Outcome.confined_iff
    {r : MapResult} (outcome : Outcome rounds s f base r) (word : base < 2 ^ 64) :
    Confined f r ↔ Fits rounds s f base := by
  unfold Confined
  rw [outcome.at_, outcome.status, outcome.trace, layOut_inside_iff word,
    applyRelocations_inside_iff word]
  constructor
  · rintro ⟨⟨⟨headers, sections⟩, relocations⟩, below⟩
    exact ⟨headers, sections, relocations, below⟩
  · rintro ⟨headers, sections, relocations, below⟩
    exact ⟨⟨⟨headers, sections⟩, relocations⟩, below⟩

theorem headers_part (accepted : HeadersAccepted f) (base : Nat) {reads : List Access}
    (part : reads ⊆ imageReads f ++ layoutReads f ++ resourceReads f) :
    ∀ x ∈ reads, x.Inside f base :=
  fun x member => headerReads_inside accepted base x (part member)

theorem kindReads_part (f : PeFile) :
    kindReads f ⊆ imageReads f ++ layoutReads f ++ resourceReads f := by
  unfold imageReads
  intro x member
  simp only [List.mem_append, member, true_or]

theorem Outcome.resource {u : LdrState} (accepted : HeadersAccepted f) (resource : f.IsResource) :
    Outcome rounds s f base ⟨some statusSuccess, base, u,
      kindReads f ++ resourceReads f ++ (layOut f base s.mem).1⟩ := by
  have reads : ∀ x ∈ kindReads f ++ resourceReads f, x.Inside f base := by
    refine headers_part accepted base (List.append_subset.mpr ⟨kindReads_part f, ?_⟩)
    exact List.subset_append_right _ _
  refine ⟨rfl, ⟨fun _ => Or.inl resource, fun _ => rfl⟩, ?_⟩
  rw [List.forall_mem_append]
  constructor
  · rintro ⟨_, copies⟩
    exact ⟨copies, fun code => absurd resource code⟩
  · rintro ⟨copies, _⟩
    exact ⟨reads, copies⟩

theorem Outcome.code {r : MapResult}
    (accepted : HeadersAccepted f) (code : ¬ f.IsResource) (at_ : r.base = base)
    (status : r.status = some statusSuccess ↔ (applyRelocations rounds base
      (sub64 base f.imageBase) (base + f.eLfanew) (layOut f base s.mem).2).1 = true)
    (trace : r.trace = imageReads f ++ layoutReads f ++ (layOut f base s.mem).1 ++
      (applyRelocations rounds base (sub64 base f.imageBase) (base + f.eLfanew)
        (layOut f base s.mem).2).2.1) : Outcome rounds s f base r := by
  have reads : ∀ x ∈ imageReads f ++ layoutReads f, x.Inside f base :=
    headers_part accepted base (List.subset_append_left _ _)
  refine ⟨at_, ?_, ?_⟩
  · rw [status]
    exact ⟨Or.inr, fun ends => ends.resolve_left code⟩
  · rw [trace, List.forall_mem_append, List.forall_mem_append]
    constructor
    · rintro ⟨⟨_, copies⟩, relocations⟩
      exact ⟨copies, fun _ => relocations⟩
    · rintro ⟨copies, relocations⟩
      exact ⟨⟨reads, copies⟩, relocations code⟩

/-- The status is there once the relocations are done. -/
theorem status_iff (done : Bool) :
    (if done then some statusSuccess else none) = some statusSuccess ↔ done = true := by
  cases done <;> simp

theorem LaidOutAt.outcome (laid : LaidOutAt rounds s f base) :
    ∃ r, ldrpMapImage rounds s f = some r ∧ Outcome rounds s f base r := by
  obtain ⟨accepted, next, vm, chosen, mapped⟩ := laid
  have h1 := Nat.not_lt.mpr accepted.dos
  have h3 := Nat.not_lt.mpr accepted.nt
  simp only [ldrpMapImage, h1, accepted.magic, gt_iff_lt, h3, accepted.signature, ne_eq,
    not_true_eq_false, if_false]
  rcases chosen with ⟨resource, some_, small, found⟩ | ⟨code, machine, magic, nonzero, found⟩
  · have big : ¬ (f.imageSize = 0 ∨ f.imageSize > 0x4000000) := by omega
    have resource' : f.magic = imageNtOptionalHdr32Magic ∧ f.addressOfEntryPoint = 0 := resource
    rw [if_pos resource']
    simp only [ldrpMapResourceImage, big, if_false, Option.bind_eq_bind, found, Option.bind_some,
      mapped, ne_eq, not_true_eq_false]
    exact ⟨_, rfl, Outcome.resource accepted resource⟩
  · have other : ¬ (f.machine ≠ imageFileMachineAmd64 ∨ f.magic ≠ imageNtOptionalHdr64Magic) := by
      simp [machine, magic]
    have mapped' : mapPages { s with dynamicImageNext := next } f base =
        some (statusSuccess, vm) := mapped
    have code' : ¬ (f.magic = imageNtOptionalHdr32Magic ∧ f.addressOfEntryPoint = 0) := code
    simp only [ne_eq] at other
    simp only [code', other, if_false, Option.bind_eq_bind, found, Option.bind_some, nonzero,
      mapped', not_true_eq_false]
    refine ⟨_, rfl, Outcome.code accepted code rfl ?_ ?_⟩
    · dsimp only
      exact status_iff _
    · dsimp only

/-- A call that fails has read headers only. -/
theorem confined_of_failed {status : NtStatus} {reads : List Access}
    (failed : status ≠ statusSuccess) (inside : ∀ x ∈ reads, x.Inside f 0) :
    Confined f ⟨some status, 0, s, reads⟩ :=
  ⟨inside, fun success => absurd (Option.some.inj success) failed⟩

theorem mapPages_status {status : NtStatus}
    {vm : Mm.VmState} (mapped : mapPages s f base = some (status, vm))
    (success : ¬ status ≠ statusSuccess) : mapPages s f base = some (statusSuccess, vm) := by
  rw [mapped, not_not.mp success]

theorem ldrpMapResourceImage_outcome {r : MapResult}
    (accepted : HeadersAccepted f) (resource : f.IsResource)
    (step : ldrpMapResourceImage rounds s f (kindReads f) = some r) :
    Confined f r ∨ ∃ base, LaidOutAt rounds s f base ∧ Outcome rounds s f base r := by
  have reads : ∀ x ∈ kindReads f ++ resourceReads f, x.Inside f 0 :=
    headers_part accepted 0
      (List.append_subset.mpr ⟨kindReads_part f, List.subset_append_right _ _⟩)
  simp only [ldrpMapResourceImage] at step
  split at step
  · obtain rfl := Option.some.inj step
    exact Or.inl (confined_of_failed (by decide) reads)
  · rename_i sized
    simp only [Option.bind_eq_bind, Option.bind_eq_some_iff] at step
    obtain ⟨⟨base, next⟩, found, ⟨status, vm⟩, mapped, step⟩ := step
    dsimp only at step found mapped
    split at step
    · rename_i failed
      obtain rfl := Option.some.inj step
      exact Or.inl (confined_of_failed failed reads)
    · rename_i success
      obtain rfl := Option.some.inj step
      refine Or.inr ⟨base, ⟨accepted, next, vm, Or.inl ⟨resource, ?_, ?_, found⟩,
        mapPages_status mapped success⟩, Outcome.resource accepted resource⟩
      · omega
      · omega

theorem ldrpMapImage_outcome {r : MapResult} (step : ldrpMapImage rounds s f = some r) :
    Confined f r ∨ ∃ base, LaidOutAt rounds s f base ∧ Outcome rounds s f base r := by
  simp only [ldrpMapImage] at step
  rcases ite_eq_iff.mp step with ⟨_, same⟩ | ⟨long, step⟩
  · obtain rfl := Option.some.inj same
    exact Or.inl (confined_of_failed (by decide) (by simp))
  have dos : sizeofDosHeader ≤ f.size := Nat.le_of_not_lt long
  have early : ∀ off len, off + len ≤ sizeofDosHeader → (Access.file off len).Inside f 0 := by
    intro off len fits i hi
    omega
  have first := early 0 2 (by decide)
  have second := early 60 4 (by decide)
  rcases ite_eq_iff.mp step with ⟨_, same⟩ | ⟨magic, step⟩
  · obtain rfl := Option.some.inj same
    refine Or.inl (confined_of_failed (by decide) ?_)
    simp [first]
  rcases ite_eq_iff.mp step with ⟨_, same⟩ | ⟨whole, step⟩
  · obtain rfl := Option.some.inj same
    refine Or.inl (confined_of_failed (by decide) ?_)
    simp [dosReads, first, second]
  have nt : f.eLfanew + sizeofNtHeaders64 ≤ f.size := Nat.le_of_not_lt whole
  rcases ite_eq_iff.mp step with ⟨_, same⟩ | ⟨signed, step⟩
  · obtain rfl := Option.some.inj same
    refine Or.inl (confined_of_failed (by decide) ?_)
    have signature : (Access.file f.eLfanew 4).Inside f 0 := by
      intro i hi
      simp only [sizeofNtHeaders64] at nt
      omega
    simp [dosReads, first, second, signature]
  have accepted : HeadersAccepted f := ⟨dos, not_not.mp magic, nt, not_not.mp signed⟩
  have reads : ∀ x ∈ imageReads f, x.Inside f 0 :=
    headers_part accepted 0 (fun x member => by simp only [List.mem_append, member, true_or])
  rcases ite_eq_iff.mp step with ⟨resource, step⟩ | ⟨code, step⟩
  · exact ldrpMapResourceImage_outcome accepted resource step
  rcases ite_eq_iff.mp step with ⟨_, same⟩ | ⟨machine, step⟩
  · obtain rfl := Option.some.inj same
    refine Or.inl (confined_of_failed (by decide) fun x member => reads x ?_)
    simp only [imageReads, List.mem_append, List.mem_cons] at member ⊢
    rcases member with kind | machine | none
    · exact Or.inl kind
    · exact Or.inr (Or.inl machine)
    · exact absurd none List.not_mem_nil
  rw [not_or, not_not, not_not] at machine
  simp only [Option.bind_eq_bind, Option.bind_eq_some_iff] at step
  obtain ⟨⟨base, next⟩, found, step⟩ := step
  dsimp only at step
  split at step
  · obtain rfl := Option.some.inj step
    exact Or.inl (confined_of_failed (by decide) reads)
  rename_i nonzero
  simp only [Option.bind_eq_some_iff] at step
  obtain ⟨⟨status, vm⟩, mapped, step⟩ := step
  dsimp only at step mapped
  split at step
  · rename_i failed
    obtain rfl := Option.some.inj step
    exact Or.inl (confined_of_failed failed reads)
  · rename_i success
    obtain rfl := Option.some.inj step
    refine Or.inr ⟨base, ⟨accepted, next, vm,
      Or.inr ⟨code, machine.1, machine.2, nonzero, found⟩, mapPages_status mapped success⟩,
      Outcome.code accepted code rfl ?_ ?_⟩
    · dsimp only
      exact status_iff _
    · dsimp only

/-- The mapper is confined exactly when the fields that are not checked fit, if
it gets as far as laying the image out. -/
theorem mapper_confined_iff (rounds : Nat) (s : LdrState) (f : PeFile) :
    (∀ r, ldrpMapImage rounds s f = some r → Confined f r) ↔
      ∀ base, LaidOutAt rounds s f base → Fits rounds s f base := by
  have word : ∀ base, LaidOutAt rounds s f base → base < 2 ^ 64 := by
    rintro base ⟨_, next, vm, chosen, _⟩
    exact chosen.lt
  constructor
  · intro confined base laid
    obtain ⟨r, step, outcome⟩ := laid.outcome
    exact (outcome.confined_iff (word base laid)).mp (confined r step)
  · intro fits r step
    rcases ldrpMapImage_outcome step with confined | ⟨base, laid, outcome⟩
    · exact confined
    · exact (outcome.confined_iff (word base laid)).mpr (fits base laid)

/-- Headers of two pages in an image of one: the second page is written behind
the image. -/
theorem headers_written_past_image :
    ∃ r, ldrpMapImage 1 noImages (plainImage 0x400000 0x1000 0x2000 0x2000) = some r ∧
      ¬ Confined (plainImage 0x400000 0x1000 0x2000 0x2000) r := by
  have returns : (ldrpMapImage 1 noImages (plainImage 0x400000 0x1000 0x2000 0x2000)).map
      (fun r => (r.base, decide (Access.write 0x400000 0x2000 ∈ r.trace))) =
        some (0x400000, true) := by decide +kernel
  obtain ⟨r, step, values⟩ := Option.map_eq_some_iff.mp returns
  obtain ⟨base, written⟩ := Prod.mk.inj values
  refine ⟨r, step, ?_⟩
  rintro ⟨inside, _⟩
  have past := inside _ (of_decide_eq_true written) 0x1000 (by decide)
  rw [base] at past
  exact absurd past (by decide +kernel)

end Ldr
