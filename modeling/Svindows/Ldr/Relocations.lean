import Svindows.Ldr.Image

/-!
# The base relocation law

What `apply_relocations` makes of a table of relocations in the image it relocates.
The memory a table is read from changes under the walk, so a table is described in one
memory and walked in another that agrees with it on the table's bytes.
-/

namespace Ldr

open Nt ByteMemory

variable {m m' : Memory} {base delta cursor stop : Nat} {ps blocks : List Nat}

theorem value_congr {a n : Nat} (fits : a + n ≤ 2 ^ 64)
    (same : ∀ b, a ≤ b → b < a + n → m' b = m b) : value m' a n = value m a n := by
  refine load_congr fun b low high => ?_
  rw [wrap64, Nat.mod_eq_of_lt (by omega)]
  exact same b low high

theorem value_eq_load {a n : Nat} (fits : a + n ≤ 2 ^ 64) : value m a n = load m a n := by
  refine load_congr fun b low high => ?_
  rw [wrap64, Nat.mod_eq_of_lt (by omega)]

theorem value_lt (m : Memory) (p : Nat) : value m p 8 < 2 ^ 64 :=
  lt_of_lt_of_eq (load_lt (fun b => m (wrap64 b)) p 8) (by decide)

theorem addAt_outside {p b : Nat} (fits : p + 8 ≤ 2 ^ 64) (word : b < 2 ^ 64)
    (outside : b < p ∨ p + 8 ≤ b) : addAt m p delta b = m b :=
  putBytes_outside fits word outside

theorem value_addAt {p : Nat} (fits : p + 8 ≤ 2 ^ 64) :
    value (addAt m p delta) p 8 = wrap64 (value m p 8 + delta) := by
  have small : wrap64 (value m p 8 + delta) < 256 ^ 8 :=
    lt_of_lt_of_eq (Nat.mod_lt _ (by decide)) (by decide)
  rw [value_eq_load fits, ← load_store_same (m := m) (a := p) small]
  refine load_congr fun b low high => ?_
  obtain ⟨d, rfl⟩ := Nat.exists_eq_add_of_le low
  rw [addAt, putBytes_inside fits (by omega), store, if_pos ⟨low, high⟩, Nat.add_sub_cancel_left]

/-- Two words that do not share a byte. -/
def WordsApart (p q : Nat) : Prop := p + 8 ≤ q ∨ q + 8 ≤ p

/-- The word at `p` and the bytes from `a` up to `z`. -/
def ClearOf (a z p : Nat) : Prop := p + 8 ≤ a ∨ z ≤ p

def addAll (m : Memory) (ps : List Nat) (delta : Nat) : Memory :=
  ps.foldl (fun m p => addAt m p delta) m

theorem addAll_append (m : Memory) (ps qs : List Nat) (delta : Nat) :
    addAll m (ps ++ qs) delta = addAll (addAll m ps delta) qs delta :=
  List.foldl_append

theorem addAll_outside (fits : ∀ p ∈ ps, p + 8 ≤ 2 ^ 64) {b : Nat} (word : b < 2 ^ 64)
    (outside : ∀ p ∈ ps, b < p ∨ p + 8 ≤ b) : addAll m ps delta b = m b := by
  induction ps generalizing m with
  | nil => rfl
  | cons p ps ih =>
    rw [List.forall_mem_cons] at fits outside
    exact (ih fits.2 outside.2).trans (addAt_outside fits.1 word outside.1)

/-- Each word is added to once. -/
theorem addAll_value (fits : ∀ p ∈ ps, p + 8 ≤ 2 ^ 64) (apart : ps.Pairwise WordsApart) {p : Nat}
    (here : p ∈ ps) : value (addAll m ps delta) p 8 = wrap64 (value m p 8 + delta) := by
  induction ps generalizing m with
  | nil => cases here
  | cons q ps ih =>
    rw [List.forall_mem_cons] at fits
    rw [List.pairwise_cons] at apart
    rcases List.mem_cons.mp here with rfl | later
    · rw [← value_addAt (m := m) fits.1]
      refine value_congr fits.1 fun b low high => addAll_outside fits.2 (by omega) fun r hr => ?_
      rcases apart.1 r hr with below | above
      · exact .inl (by omega)
      · exact .inr (by omega)
    · have first : value (addAt m q delta) p 8 = value m p 8 := by
        have room := fits.2 p later
        refine value_congr room fun b low high => addAt_outside fits.1 (by omega) ?_
        rcases apart.1 p later with below | above
        · exact .inr (by omega)
        · exact .inl (by omega)
      rw [← first]
      exact ih fits.2 apart.2 later

/-- The words that the first `n` entries of a block name. -/
def entryTargets (m : Memory) (base cursor n : Nat) : List Nat :=
  ((List.range n).filter fun i =>
      value m (cursor + 8 + 2 * i) 2 / 2 ^ 12 = imageRelBasedDir64).map fun i =>
    wrap64 (base + value m cursor 4 + value m (cursor + 8 + 2 * i) 2 % 2 ^ 12)

/-- The words that the block at `cursor` names. -/
def blockTargets (m : Memory) (base cursor : Nat) : List Nat :=
  entryTargets m base cursor ((value m (cursor + 4) 4 - 8) / 2)

def tableTargets (m : Memory) (base : Nat) (blocks : List Nat) : List Nat :=
  blocks.flatMap (blockTargets m base)

/-- Blocks of at least a header each that fill the bytes from `cursor` up to `stop`. -/
inductive Tiled (m : Memory) (stop : Nat) : Nat → List Nat → Prop
  | done : Tiled m stop stop []
  | block {cursor : Nat} {blocks : List Nat} (header : 8 ≤ value m (cursor + 4) 4)
      (rest : Tiled m stop (cursor + value m (cursor + 4) 4) blocks) :
      Tiled m stop cursor (cursor :: blocks)

theorem Tiled.le (tiled : Tiled m stop cursor blocks) : cursor ≤ stop := by
  induction tiled with
  | done => exact le_rfl
  | block _ _ ih => omega

theorem entryTargets_succ (m : Memory) (base cursor n : Nat) :
    entryTargets m base cursor (n + 1) = entryTargets m base cursor n ++
      if value m (cursor + 8 + 2 * n) 2 / 2 ^ 12 = imageRelBasedDir64 then
        [wrap64 (base + value m cursor 4 + value m (cursor + 8 + 2 * n) 2 % 2 ^ 12)]
      else [] := by
  simp only [entryTargets, List.range_succ, List.filter_append, List.map_append]
  by_cases dir64 : value m (cursor + 8 + 2 * n) 2 / 2 ^ 12 = imageRelBasedDir64
  · simp only [List.filter_cons, List.filter_nil, dir64, decide_true, if_true, List.map_cons,
      List.map_nil]
  · simp only [List.filter_cons, List.filter_nil, dir64, decide_false, Bool.false_eq_true,
      if_false, List.map_nil]

/-- The bytes from `a` up to `z` are the same. -/
def SameOn (m m' : Memory) (a z : Nat) : Prop := ∀ b, a ≤ b → b < z → m' b = m b

theorem SameOn.value {a z b n : Nat} (same : SameOn m m' a z) (word : z ≤ 2 ^ 64) (low : a ≤ b)
    (high : b + n ≤ z) : value m' b n = value m b n :=
  value_congr (by omega) fun c low' high' => same c (by omega) (by omega)

theorem SameOn.addAll {a z : Nat} (same : SameOn m m' a z) (delta : Nat) (word : z ≤ 2 ^ 64)
    (fits : ∀ p ∈ ps, p + 8 ≤ 2 ^ 64) (clear : ∀ p ∈ ps, ClearOf a z p) :
    SameOn m (addAll m' ps delta) a z := by
  intro b low high
  rw [addAll_outside fits (by omega), same b low high]
  intro p here
  rcases clear p here with below | above
  · exact .inr (by omega)
  · exact .inl (by omega)

/-- The entries of a block, as long as what they change is not the block. -/
theorem applyEntries_adds {a z : Nat} (same : SameOn m m' a z) (word : z ≤ 2 ^ 64)
    (low : a ≤ cursor) (n : Nat) (high : cursor + 8 + 2 * n ≤ z)
    (fits : ∀ p ∈ entryTargets m base cursor n, p + 8 ≤ 2 ^ 64)
    (clear : ∀ p ∈ entryTargets m base cursor n, ClearOf a z p) :
    (applyEntries base delta cursor n m').2 =
      addAll m' (entryTargets m base cursor n) delta := by
  induction n with
  | zero => rfl
  | succ n ih =>
    rw [entryTargets_succ] at fits clear ⊢
    rw [List.forall_mem_append] at fits clear
    have before := ih (by omega) fits.1 clear.1
    have kept := same.addAll delta word fits.1 clear.1
    have entry := kept.value word (b := cursor + 8 + 2 * n) (n := 2) (by omega) (by omega)
    have page := kept.value word (b := cursor) (n := 4) low (by omega)
    simp only [applyEntries, before, applyEntry, entry, page, addAll_append]
    split
    · rfl
    · rfl

/-- One block of a walk, whose size is read again when its entries are applied. -/
theorem block_adds {a : Nat} (delta : Nat) (same : SameOn m m' a stop) (word : stop < 2 ^ 64)
    (low : a ≤ cursor) (high : cursor + 8 ≤ stop ∧ cursor + value m (cursor + 4) 4 ≤ stop)
    (fits : ∀ p ∈ blockTargets m base cursor, p + 8 ≤ 2 ^ 64)
    (clear : ∀ p ∈ blockTargets m base cursor, ClearOf a stop p) :
    ∃ m'', (applyEntries base delta cursor ((value m (cursor + 4) 4 - 8) / 2) m').2 = m'' ∧
      m'' = addAll m' (blockTargets m base cursor) delta ∧ SameOn m m'' a stop ∧
      value m' (cursor + 4) 4 = value m (cursor + 4) 4 ∧
      wrap64 (cursor + value m'' (cursor + 4) 4) = cursor + value m (cursor + 4) 4 := by
  have entries : (applyEntries base delta cursor ((value m (cursor + 4) 4 - 8) / 2) m').2 =
      addAll m' (blockTargets m base cursor) delta :=
    applyEntries_adds same (by omega) low _ (by omega) fits clear
  have kept := same.addAll delta (by omega) fits clear
  refine ⟨_, entries, rfl, kept, same.value (by omega) (by omega) (by omega), ?_⟩
  rw [kept.value (by omega) (b := cursor + 4) (n := 4) (by omega) (by omega)]
  exact Nat.mod_eq_of_lt (by omega)

theorem tableTargets_cons (m : Memory) (base cursor : Nat) (blocks : List Nat) :
    tableTargets m base (cursor :: blocks) =
      blockTargets m base cursor ++ tableTargets m base blocks := List.flatMap_cons

theorem applyBlocks_adds {a : Nat} (base delta : Nat) (tiled : Tiled m stop cursor blocks) :
    ∀ (m' : Memory) (rounds : Nat), SameOn m m' a stop → stop < 2 ^ 64 → a ≤ cursor →
      blocks.length ≤ rounds → (∀ p ∈ tableTargets m base blocks, p + 8 ≤ 2 ^ 64) →
      (∀ p ∈ tableTargets m base blocks, ClearOf a stop p) →
      (applyBlocks base delta stop rounds cursor m').1 = true ∧
        (applyBlocks base delta stop rounds cursor m').2.2 =
          addAll m' (tableTargets m base blocks) delta := by
  induction tiled with
  | done =>
    intro m' rounds _ _ _ _ _ _
    cases rounds <;> simp [applyBlocks, tableTargets, addAll]
  | @block cursor blocks header rest ih =>
    intro m' rounds same word low enough fits clear
    obtain _ | rounds := rounds
    · exact absurd enough (by simp)
    have inside := rest.le
    rw [tableTargets_cons, List.forall_mem_append] at fits clear
    obtain ⟨m'', entries, rfl, kept, size, next⟩ :=
      block_adds delta same word low (by omega) fits.1 clear.1
    have tail := ih _ rounds kept word (by omega) (Nat.le_of_succ_le_succ enough) fits.2 clear.2
    rw [tableTargets_cons, addAll_append]
    simp only [applyBlocks, if_pos (show cursor < stop by omega), size,
      if_neg (Nat.not_lt.mpr header), entries, next]
    exact tail

/-- The first byte of the table that the directory's entry names, and one past its last. -/
def tableStart (m : Memory) (base nt : Nat) : Nat := base + value m (nt + relocEntryOff) 4
def tableEnd (m : Memory) (base nt : Nat) : Nat :=
  tableStart m base nt + value m (nt + relocEntryOff + 4) 4

/-- A table inside the image of `size` bytes at `base`: its blocks fill it, and the words
they name lie in the image, apart from one another and from the table. -/
structure RelocationTable (m : Memory) (base size nt : Nat) (blocks : List Nat) : Prop where
  region : base + size < 2 ^ 64
  table : tableEnd m base nt ≤ base + size
  tiled : Tiled m (tableEnd m base nt) (tableStart m base nt) blocks
  inside : ∀ p ∈ tableTargets m base blocks, base ≤ p ∧ p + 8 ≤ base + size
  outside : ∀ p ∈ tableTargets m base blocks, ClearOf (tableStart m base nt) (tableEnd m base nt) p
  apart : (tableTargets m base blocks).Pairwise WordsApart

/-- No relocation meets the directory's entry in the headers. -/
def EntryKept (m : Memory) (base nt : Nat) (blocks : List Nat) : Prop :=
  nt + relocEntryOff + 8 ≤ 2 ^ 64 ∧
    ∀ p ∈ tableTargets m base blocks, ClearOf (nt + relocEntryOff) (nt + relocEntryOff + 8) p

/-- `delta` has been added to each word, modulo 2^64, and all else is as it was. -/
structure Relocated (m m' : Memory) (ps : List Nat) (delta : Nat) : Prop where
  words : ∀ p ∈ ps, value m' p 8 = wrap64 (value m p 8 + delta)
  rest : ∀ b < 2 ^ 64, (∀ p ∈ ps, b < p ∨ p + 8 ≤ b) → m' b = m b

theorem applyRelocations_adds {size nt : Nat} (delta : Nat)
    (well : RelocationTable m base size nt blocks)
    (same : SameOn m m' (tableStart m base nt) (tableEnd m base nt))
    (address : value m' (nt + relocEntryOff) 4 = value m (nt + relocEntryOff) 4)
    (length : value m' (nt + relocEntryOff + 4) 4 = value m (nt + relocEntryOff + 4) 4)
    {rounds : Nat} (enough : blocks.length ≤ rounds) :
    (applyRelocations rounds base delta nt m').1 = true ∧
      Relocated m' (applyRelocations rounds base delta nt m').2.2 (tableTargets m base blocks)
        delta := by
  have region := well.region
  have fits : ∀ p ∈ tableTargets m base blocks, p + 8 ≤ 2 ^ 64 := by
    intro p here
    have := (well.inside p here).2
    omega
  have below : tableStart m base nt ≤ tableEnd m base nt := Nat.le_add_right ..
  have table := well.table
  by_cases still : delta = 0
  · rw [applyRelocations, if_pos still, still]
    refine ⟨rfl, fun p here => ?_, fun b _ _ => rfl⟩
    rw [Nat.add_zero, wrap64, Nat.mod_eq_of_lt (value_lt m' p)]
  have start : wrap64 (base + value m (nt + relocEntryOff) 4) = tableStart m base nt :=
    Nat.mod_eq_of_lt (show tableStart m base nt < 2 ^ 64 by omega)
  have stop : wrap64 (tableStart m base nt + value m (nt + relocEntryOff + 4) 4) =
      tableEnd m base nt := Nat.mod_eq_of_lt (show tableEnd m base nt < 2 ^ 64 by omega)
  obtain ⟨done, result⟩ := applyBlocks_adds base delta well.tiled m' rounds same
    (by omega) le_rfl enough fits well.outside
  simp only [applyRelocations, if_neg still, address, length, start, stop]
  by_cases empty : value m (nt + relocEntryOff + 4) 4 = 0
  · have none : blocks = [] := by
      have tiled := well.tiled
      rw [tableEnd, empty, Nat.add_zero] at tiled
      cases tiled with
      | done => rfl
      | block header rest =>
        have := rest.le
        omega
    rw [if_pos empty, none]
    exact ⟨rfl, fun p here => absurd here (by simp [tableTargets]), fun b _ _ => rfl⟩
  · rw [if_neg empty]
    refine ⟨done, ?_, ?_⟩
    · intro p here
      rw [result]
      exact addAll_value fits well.apart here
    · intro b word outside
      rw [result]
      exact addAll_outside fits word outside

/-- What was relocated outside the bytes from `a` up to `z` is the same there. -/
theorem Relocated.sameOn {a z : Nat} (done : Relocated m m' ps delta) (word : z ≤ 2 ^ 64)
    (clear : ∀ p ∈ ps, ClearOf a z p) : SameOn m m' a z := by
  intro b low high
  refine done.rest b (by omega) fun p here => ?_
  rcases clear p here with below | above
  · exact .inr (by omega)
  · exact .inl (by omega)

/-- Relocating by a distance and by its negation changes nothing. -/
theorem Relocated.back {m'' : Memory} {d : Mm.Word} (fits : ∀ p ∈ ps, p + 8 ≤ 2 ^ 64)
    (there : Relocated m m' ps d.toNat) (back : Relocated m' m'' ps (-d).toNat) {b : Nat}
    (word : b < 2 ^ 64) : m'' b = m b := by
  by_cases inside : ∃ p ∈ ps, p ≤ b ∧ b < p + 8
  · obtain ⟨p, here, low, high⟩ := inside
    have value_ : value m'' p 8 = value m p 8 := by
      have small := value_lt m p
      have distance := d.isLt
      rw [back.words p here, there.words p here, BitVec.toNat_neg]
      simp only [wrap64]
      omega
    rw [value_eq_load (fits p here), value_eq_load (fits p here)] at value_
    exact byte_eq_of_load_eq value_ low high
  · have outside : ∀ p ∈ ps, b < p ∨ p + 8 ≤ b := by
      intro p here
      by_contra within
      exact inside ⟨p, here, by omega, by omega⟩
    rw [back.rest b word outside, there.rest b word outside]

/-- A walk whose cursor gets on at every block it leaves, except where it is stuck, ends
or comes to such a place. A block that lost its size to a relocation is looked at once more. -/
theorem applyBlocks_ends (base delta : Nat) (stuck : Nat → Prop) (measure : Nat → Nat)
    (word : stop < 2 ^ 64)
    (advance : ∀ c < stop, ¬stuck c → ∀ n, 0 < n → n < 2 ^ 32 →
      measure (wrap64 (c + n)) < measure c ∨ stop ≤ wrap64 (c + n)) (k : Nat) :
    ∀ (cursor : Nat) (m : Memory), measure cursor < k →
      ∃ rounds, (applyBlocks base delta stop rounds cursor m).1 = true ∨
        ∃ c, stuck c ∧ .read (c + 4) 4 ∈ (applyBlocks base delta stop rounds cursor m).2.1 := by
  induction k with
  | zero => exact fun cursor m bound => absurd bound (Nat.not_lt_zero _)
  | succ k ih =>
    intro cursor m bound
    by_cases more : cursor < stop
    swap
    · exact ⟨0, .inl (by simp [applyBlocks, more])⟩
    by_cases here : stuck cursor
    · refine ⟨1, .inr ⟨cursor, here, ?_⟩⟩
      simp only [applyBlocks, if_pos more]
      split
      · exact List.mem_cons_self
      · exact List.mem_cons_self
    by_cases short : value m (cursor + 4) 4 < 8
    · exact ⟨1, .inl (by simp only [applyBlocks, if_pos more, if_pos short])⟩
    let entries := applyEntries base delta cursor ((value m (cursor + 4) 4 - 8) / 2) m
    have turn (rounds : Nat) (next : Nat)
        (moved : next = wrap64 (cursor + value entries.2 (cursor + 4) 4)) :
        (applyBlocks base delta stop (rounds + 1) cursor m).1 =
          (applyBlocks base delta stop rounds next entries.2).1 ∧
        ∀ x ∈ (applyBlocks base delta stop rounds next entries.2).2.1,
          x ∈ (applyBlocks base delta stop (rounds + 1) cursor m).2.1 := by
      simp only [applyBlocks, if_pos more, if_neg short, moved]
      refine ⟨rfl, fun x later => List.mem_append_right _ (List.mem_cons_of_mem _ later)⟩
    have small : value entries.2 (cursor + 4) 4 < 2 ^ 32 :=
      lt_of_lt_of_eq (load_lt _ _ _) (by decide)
    rcases Nat.eq_zero_or_pos (value entries.2 (cursor + 4) 4) with lost | left
    · have same : cursor = wrap64 (cursor + value entries.2 (cursor + 4) 4) := by
        rw [lost, wrap64, Nat.add_zero, Nat.mod_eq_of_lt (by omega)]
      refine ⟨2, .inl ?_⟩
      rw [(turn 1 cursor same).1]
      simp only [applyBlocks, if_pos more, lost, Nat.ofNat_pos, if_true]
    rcases advance cursor more here _ left small with closer | past
    · obtain ⟨rounds, ends⟩ := ih (wrap64 (cursor + value entries.2 (cursor + 4) 4)) entries.2
        (by omega)
      obtain ⟨first, later⟩ := turn rounds _ rfl
      refine ⟨rounds + 1, ends.imp first.trans ?_⟩
      rintro ⟨c, at_, read⟩
      exact ⟨c, at_, later _ read⟩
    · refine ⟨1, .inl ((turn 0 _ rfl).1.trans ?_)⟩
      simp [applyBlocks, Nat.not_lt.mpr past]

/-- Far enough from the end of the address space every walk ends. -/
theorem applyBlocks_ends_below (base delta : Nat) (below : stop ≤ 2 ^ 64 - 2 ^ 32)
    (cursor : Nat) (m : Memory) :
    ∃ rounds, (applyBlocks base delta stop rounds cursor m).1 = true := by
  have word : stop < 2 ^ 64 := by omega
  obtain ⟨rounds, done | ⟨c, no, -⟩⟩ := applyBlocks_ends base delta (fun _ => False)
    (fun c => stop - c) word (by
      intro c more _ n positive small
      have inside : wrap64 (c + n) = c + n := Nat.mod_eq_of_lt (by omega)
      omega) (stop - cursor + 1) cursor m (by omega)
  · exact ⟨rounds, done⟩
  · exact no.elim

/-- Anywhere a walk ends or reads a header at an address that is not canonical: no block
is long enough to cross the hole in the address space. -/
theorem applyBlocks_ends_or_faults (base delta : Nat) (word : stop < 2 ^ 64) (cursor : Nat)
    (m : Memory) :
    ∃ rounds, (applyBlocks base delta stop rounds cursor m).1 = true ∨
      ∃ va, isCanonical va = false ∧
        .read va 4 ∈ (applyBlocks base delta stop rounds cursor m).2.1 := by
  let measure (c : Nat) : Nat := if 2 ^ 63 ≤ c then 2 ^ 48 + (2 ^ 64 - c) else 2 ^ 47 - c
  obtain ⟨rounds, ends⟩ := applyBlocks_ends base delta
    (fun c => isCanonical (c + 4) = false) measure word (by
      intro c more canonical n positive small
      rw [Bool.not_eq_false, isCanonical, Bool.or_eq_true, decide_eq_true_eq,
        decide_eq_true_eq] at canonical
      rw [wrap64] at canonical
      refine .inl ?_
      simp only [measure, wrap64]
      split <;> split <;> omega) (measure cursor + 1) cursor m (Nat.lt_succ_self _)
  refine ⟨rounds, ends.imp_right ?_⟩
  rintro ⟨c, hole, read⟩
  exact ⟨c + 4, hole, read⟩

/-- The base relocation law. -/
theorem base_relocation_law (m : Memory) (base nt : Nat) (delta : Mm.Word) :
    (∀ size blocks, RelocationTable m base size nt blocks → ∀ rounds, blocks.length ≤ rounds →
      let there := applyRelocations rounds base delta.toNat nt m
      there.1 = true ∧ Relocated m there.2.2 (tableTargets m base blocks) delta.toNat ∧
      (EntryKept m base nt blocks →
        let back := applyRelocations rounds base (-delta).toNat nt there.2.2
        back.1 = true ∧ ∀ b < 2 ^ 64, back.2.2 b = m b)) ∧
    (∃ rounds, (applyRelocations rounds base delta.toNat nt m).1 = true ∨
      ∃ va, isCanonical va = false ∧
        .read va 4 ∈ (applyRelocations rounds base delta.toNat nt m).2.1) ∧
    (base ≤ mmUserMax → ∃ rounds, (applyRelocations rounds base delta.toNat nt m).1 = true) := by
  have address := load_lt (fun b => m (wrap64 b)) (nt + relocEntryOff) 4
  have length := load_lt (fun b => m (wrap64 b)) (nt + relocEntryOff + 4) 4
  refine ⟨fun size blocks well rounds enough => ?_, ?_, fun user => ?_⟩
  · obtain ⟨done, there⟩ := applyRelocations_adds delta.toNat well
      (fun _ _ _ => rfl) rfl rfl enough
    refine ⟨done, there, fun kept => ?_⟩
    have region := well.region
    have table := well.table
    have entry := there.sameOn kept.1 kept.2
    obtain ⟨done', back⟩ := applyRelocations_adds (-delta).toNat well
      (there.sameOn (by omega) well.outside)
      (entry.value kept.1 le_rfl (by omega)) (entry.value kept.1 (by omega) (by omega)) enough
    refine ⟨done', fun b word => there.back (fun p here => ?_) back word⟩
    have := (well.inside p here).2
    omega
  · simp only [applyRelocations]
    split
    · exact ⟨0, .inl rfl⟩
    split
    · exact ⟨0, .inl rfl⟩
    obtain ⟨rounds, ends⟩ := applyBlocks_ends_or_faults base delta.toNat
      (Nat.mod_lt _ (by decide) : wrap64 (wrap64 (base + value m (nt + relocEntryOff) 4) +
        value m (nt + relocEntryOff + 4) 4) < 2 ^ 64)
      (wrap64 (base + value m (nt + relocEntryOff) 4)) m
    refine ⟨rounds, ends.imp_right ?_⟩
    rintro ⟨va, hole, read⟩
    exact ⟨va, hole, List.mem_append_right _ read⟩
  · simp only [applyRelocations]
    split
    · exact ⟨0, rfl⟩
    split
    · exact ⟨0, rfl⟩
    refine applyBlocks_ends_below base delta.toNat ?_ _ m
    have limit : mmUserMax = 2 ^ 47 := by decide
    have power : 256 ^ 4 = 2 ^ 32 := by decide
    simp only [wrap64, value] at address length ⊢
    omega

/-- An image at 0x10000 with its NT headers at 0x10080, whose table, 0x400 bytes into it, is
one block with one entry: the word `offset` bytes into the image. -/
def oneRelocation (offset : Nat) : Memory :=
  let words := [(0x80 + relocEntryOff, 4, 0x400), (0x80 + relocEntryOff + 4, 4, 10), (0x404, 4, 10),
    (0x408, 2, imageRelBasedDir64 * 2 ^ 12 + offset)]
  words.foldl (fun m w => store m (0x10000 + w.1) w.2.1 w.2.2) fun _ => 0

/-- The table is well formed when the word is not in it. -/
theorem oneRelocation_table {offset : Nat}
    (start : tableStart (oneRelocation offset) 0x10000 0x10080 = 0x10400)
    (finish : tableEnd (oneRelocation offset) 0x10000 0x10080 = 0x1040A)
    (length : value (oneRelocation offset) (0x10400 + 4) 4 = 10)
    (named : tableTargets (oneRelocation offset) 0x10000 [0x10400] = [0x10000 + offset])
    (before : offset + 8 ≤ 0x400) :
    RelocationTable (oneRelocation offset) 0x10000 0x1000 0x10080 [0x10400] where
  region := by decide
  table := by
    rw [finish]
    decide
  tiled := by
    rw [start, finish]
    refine .block (by rw [length]; decide) ?_
    rw [length]
    exact .done
  inside p here := by
    rw [named, List.mem_singleton] at here
    omega
  outside p here := by
    rw [named, List.mem_singleton] at here
    rw [start, finish, ClearOf]
    omega
  apart := by
    rw [named]
    exact List.pairwise_singleton ..

theorem base_relocation_law_one_word :
    let m := oneRelocation 0x200
    let there := applyRelocations 1 0x10000 0x30000 0x10080 m
    value there.2.2 0x10200 8 = 0x30000 ∧
      ∀ b < 2 ^ 64,
        (applyRelocations 1 0x10000 (2 ^ 64 - 0x30000) 0x10080 there.2.2).2.2 b = m b := by
  have named : tableTargets (oneRelocation 0x200) 0x10000 [0x10400] = [0x10200] := by decide
  have table := oneRelocation_table (by decide) (by decide) (by decide) named (by decide)
  obtain ⟨_, there, back⟩ :=
    (base_relocation_law (oneRelocation 0x200) 0x10000 0x10080 0x30000#64).1 _ _ table 1 le_rfl
  have member : 0x10200 ∈ tableTargets (oneRelocation 0x200) 0x10000 [0x10400] := by
    rw [named]
    exact List.mem_singleton_self _
  refine ⟨(there.words 0x10200 member).trans (by decide), ?_⟩
  refine (back ⟨by decide, fun p here => ?_⟩).2
  rw [named, List.mem_singleton] at here
  rw [ClearOf, here]
  decide

/-- The word is the entry of the relocation directory itself. Relocating moves the table
that the entry names away, and relocating back finds no table there. -/
theorem entry_relocated :
    RelocationTable (oneRelocation (0x80 + relocEntryOff)) 0x10000 0x1000 0x10080 [0x10400] ∧
    let there :=
      applyRelocations 1 0x10000 0x30000 0x10080 (oneRelocation (0x80 + relocEntryOff))
    value there.2.2 (0x10080 + relocEntryOff) 4 = 0x30400 ∧
    (applyRelocations 1 0x10000 (2 ^ 64 - 0x30000) 0x10080 there.2.2).1 = true ∧
    ¬∀ b < 2 ^ 64, (applyRelocations 1 0x10000 (2 ^ 64 - 0x30000) 0x10080 there.2.2).2.2 b =
      oneRelocation (0x80 + relocEntryOff) b := by
  refine ⟨oneRelocation_table (by decide) (by decide) (by decide) (by decide) (by decide),
    by decide, by decide, fun same => ?_⟩
  exact absurd (same (0x10080 + relocEntryOff + 2) (by decide)) (by decide)

end Ldr
