import Svindows.Lib.ByteMemory
import Svindows.Lib.Loop
import Svindows.Mm.Pmm

/-!
# The boot information block

`mm/multiboot.c`: the parser walks the tags of the block the boot loader leaves
in memory. It moves on by the sizes the tags give themselves, rounded up in
32 bits, and it takes the fields of a tag and the entries of a memory map as
they come. It ends within the block exactly when the tags it meets let it.
-/

namespace Multiboot

open Nt ByteMemory Pmm

def tagTypeEnd : Nat := 0
def tagTypeMmap : Nat := 6
def tagTypeFramebuffer : Nat := 8
def framebufferTypeRgb : Nat := 1
def mmMaxRegions : Nat := 64

def translateType (type : Nat) : RegionType :=
  if type = 1 then .available
  else if type = 3 then .acpiReclaimable
  else if type = 4 then .acpiNvs
  else if type = 5 then .bad
  else .reserved

/-- `MM_MEMORY_MAP`; `count` is the number of regions. -/
structure BootMap extends MemoryMap where
  totalAvailable : Nat

/-- The fields of `GfxFramebuffer` that the parser sets. -/
structure BootFramebuffer where
  physAddr : Nat
  pitch : Nat
  width : Nat
  height : Nat
  bpp : Nat
  redShift : Nat
  greenShift : Nat
  blueShift : Nat
  present : Bool

/-- The parser's variables, with the addresses and lengths of what it has read. -/
structure Parse where
  cursor : Nat
  out : BootMap
  framebuffer : BootFramebuffer
  reads : List (Nat × Nat)

def tagType (m : Memory) (tag : Nat) : Nat := load m tag 4
def tagSize (m : Memory) (tag : Nat) : Nat := load m (tag + 4) 4
def entrySize (m : Memory) (tag : Nat) : Nat := load m (tag + 8) 4

/-- `(tag->size + 7) & ~7ULL`: the sum has the type of the size. -/
def roundedSize (m : Memory) (tag : Nat) : Nat := wrap32 (tagSize m tag + 7) / 8 * 8

def framebufferReads (m : Memory) (tag : Nat) : List (Nat × Nat) :=
  [(tag + 8, 8), (tag + 16, 4), (tag + 20, 4), (tag + 24, 4), (tag + 28, 1), (tag + 29, 1)] ++
    if load m (tag + 29) 1 = framebufferTypeRgb then [(tag + 32, 1), (tag + 34, 1), (tag + 36, 1)]
    else []

def takeFramebuffer (m : Memory) (tag : Nat) : BootFramebuffer :=
  let rgb : Bool := load m (tag + 29) 1 = framebufferTypeRgb
  { physAddr := load m (tag + 8) 8
    pitch := load m (tag + 16) 4
    width := load m (tag + 20) 4
    height := load m (tag + 24) 4
    bpp := load m (tag + 28) 1
    redShift := if rgb then load m (tag + 32) 1 else 16
    greenShift := if rgb then load m (tag + 34) 1 else 8
    blueShift := if rgb then load m (tag + 36) 1 else 0
    present := true }

def regionAt (m : Memory) (e : Nat) : MemoryRegion :=
  ⟨load m e 8, load m (e + 8) 8, translateType (load m (e + 16) 4)⟩

def entryReads (e : Nat) : List (Nat × Nat) := [(e, 8), (e + 8, 8), (e + 16, 4)]

def BootMap.addRegion (o : BootMap) (r : MemoryRegion) : BootMap :=
  let regionEnd := wrap64 (r.base + r.length)
  { regions := o.regions ++ [r]
    highestAddress :=
      if r.type = .available ∧ o.highestAddress < regionEnd then regionEnd else o.highestAddress
    totalAvailable :=
      if r.type = .available then wrap64 (o.totalAvailable + r.length) else o.totalAvailable }

def Parse.takeEntry (m : Memory) (s : Parse) (e : Nat) : Parse :=
  { s with out := s.out.addRegion (regionAt m e), reads := s.reads ++ entryReads e }

/-- The loop over the entries of a memory map; `room` regions are still free. -/
def takeEntries (m : Memory) (size stop : Nat) : Nat → Nat → Parse → Parse
  | 0, _, s => s
  | room + 1, e, s =>
    if wrap64 (e + size) ≤ stop then takeEntries m size stop room (wrap64 (e + size)) (s.takeEntry m e)
    else s

def Parse.takeTag (m : Memory) (s : Parse) : Parse :=
  let tag := s.cursor
  let s := { s with reads := s.reads ++ [(tag, 4)] }
  let s :=
    if tagType m tag = tagTypeFramebuffer then
      { s with framebuffer := takeFramebuffer m tag, reads := s.reads ++ framebufferReads m tag }
    else s
  let s :=
    if tagType m tag = tagTypeMmap then
      takeEntries m (entrySize m tag) (wrap64 (tag + tagSize m tag))
        (mmMaxRegions - s.out.regions.length) (wrap64 (tag + 16))
        { s with reads := s.reads ++ [(tag + 8, 4), (tag + 4, 4)] }
    else s
  { s with
    reads := s.reads ++ [(tag + 4, 4)]
    cursor := wrap64 (tag + roundedSize m tag) }

/-- A turn of the loop over the tags. -/
def parseTurn (m : Memory) (stop : Nat) (s : Parse) : Parse ⊕ Parse :=
  if wrap64 (s.cursor + 8) ≤ stop then
    if tagType m s.cursor = tagTypeEnd then .inl { s with reads := s.reads ++ [(s.cursor, 4)] }
    else .inr (s.takeTag m)
  else .inl s

def blockEnd (m : Memory) (mbInfoPhys : Nat) : Nat := wrap64 (mbInfoPhys + load m mbInfoPhys 4)

/-- `MmParseMultibootMemoryMap`, with the framebuffer's record as it finds it; no
result when `fuel` turns are not enough. The boolean it returns is whether there
is a region. -/
def mmParseMultibootMemoryMap (m : Memory) (fb : BootFramebuffer) (fuel mbInfoPhys : Nat) :
    Option (Bool × Parse) :=
  let empty : BootMap := ⟨⟨[], 0⟩, 0⟩
  if mbInfoPhys = 0 then some (false, ⟨0, empty, fb, []⟩)
  else
    (Loop.run (parseTurn m (blockEnd m mbInfoPhys)) fuel
      ⟨wrap64 (mbInfoPhys + 8), empty, fb, [(mbInfoPhys, 4)]⟩).map
        fun s => (0 < s.out.regions.length, s)

/-- The tag `k` sizes after the first one. -/
def tagAt (m : Memory) (mb : Nat) : Nat → Nat
  | 0 => mb + 8
  | k + 1 => tagAt m mb k + roundedSize m (tagAt m mb k)

/-- A tag with its header in the block that does not end the list. -/
def Continues (m : Memory) (mb tag : Nat) : Prop :=
  tag + 8 ≤ mb + load m mb 4 ∧ tagType m tag ≠ tagTypeEnd

/-- The list goes on over its first `k` tags. -/
def Walks (m : Memory) (mb k : Nat) : Prop := ∀ j < k, Continues m mb (tagAt m mb j)

/-- A memory map whose entries have no size has as many as can be stored. -/
def entryCount (m : Memory) (tag : Nat) : Nat :=
  if entrySize m tag = 0 then if 16 ≤ tagSize m tag then mmMaxRegions else 0
  else (tagSize m tag - 16) / entrySize m tag

def entriesOf (m : Memory) (tag : Nat) : List Nat :=
  if tagType m tag = tagTypeMmap then
    (List.range (entryCount m tag)).map fun i => tag + 16 + i * entrySize m tag
  else []

def entriesUpTo (m : Memory) (mb : Nat) : Nat → List Nat
  | 0 => []
  | k + 1 => entriesUpTo m mb k ++ entriesOf m (tagAt m mb k)

/-- The entries of the first `k` tags that there is room for. -/
def stored (m : Memory) (mb k : Nat) : List Nat := (entriesUpTo m mb k).take mmMaxRegions

/-- What the parser takes for granted of the tags it comes to. -/
structure WellFormed (m : Memory) (mb : Nat) : Prop where
  header : 4 ≤ load m mb 4
  sizes : ∀ k, Walks m mb (k + 1) →
    0 < tagSize m (tagAt m mb k) ∧ tagSize m (tagAt m mb k) ≤ 0xFFFFFFF8
  framebuffers : ∀ k, Walks m mb (k + 1) → tagType m (tagAt m mb k) = tagTypeFramebuffer →
    tagAt m mb k + (if load m (tagAt m mb k + 29) 1 = framebufferTypeRgb then 37 else 30) ≤
      mb + load m mb 4
  maps : ∀ k, Walks m mb (k + 1) → tagType m (tagAt m mb k) = tagTypeMmap →
    tagAt m mb k + 12 ≤ mb + load m mb 4
  entries : ∀ k, Walks m mb k → ∀ e ∈ stored m mb k, e + 20 ≤ mb + load m mb 4
  regions : ∀ k, Walks m mb k → ∀ e ∈ stored m mb k,
    (regionAt m e).type = .available → (regionAt m e).base + (regionAt m e).length < 2 ^ 64

theorem roundedSize_eq_zero_iff (m : Memory) (tag : Nat) :
    roundedSize m tag = 0 ↔ ¬ (0 < tagSize m tag ∧ tagSize m tag ≤ 0xFFFFFFF8) := by
  have small : tagSize m tag < 256 ^ 4 := load_lt m (tag + 4) 4
  simp only [roundedSize, wrap32]
  omega

variable {m : Memory} {mb j k e : Nat}

theorem Walks.before (walks : Walks m mb k) (le : j ≤ k) : Walks m mb j :=
  fun i below => walks i (Nat.lt_of_lt_of_le below le)

theorem Walks.succ (walks : Walks m mb k)
    (more : Continues m mb (tagAt m mb k)) : Walks m mb (k + 1) := by
  intro j below
  rcases Nat.lt_succ_iff_lt_or_eq.mp below with earlier | rfl
  · exact walks j earlier
  · exact more

theorem tagAt_ge (m : Memory) (mb k : Nat) : mb + 8 ≤ tagAt m mb k := by
  induction k with
  | zero => exact le_rfl
  | succ k ih => exact Nat.le_trans ih (Nat.le_add_right _ _)

/-- A walk over tags of a positive size gets eight bytes further with each. -/
theorem tagAt_advances
    (advances : ∀ j < k, roundedSize m (tagAt m mb j) ≠ 0) : mb + 8 * k ≤ tagAt m mb k := by
  induction k with
  | zero => exact Nat.le_add_right _ _
  | succ k ih =>
    have here := ih fun j below => advances j (Nat.lt_succ_of_lt below)
    have some := advances k (Nat.lt_succ_self k)
    simp only [roundedSize] at some
    simp only [tagAt, roundedSize]
    omega

theorem tagAt_low (low : mb < 2 ^ 32) (walks : Walks m mb k) :
    tagAt m mb k < 2 ^ 34 := by
  have total : load m mb 4 < 256 ^ 4 := load_lt m mb 4
  cases k with
  | zero =>
    simp only [tagAt]
    omega
  | succ k =>
    have inside := (walks k (Nat.lt_succ_self k)).1
    simp only [tagAt, roundedSize, wrap32]
    omega

theorem mem_entriesOf_ge {tag : Nat} (mem : e ∈ entriesOf m tag) : tag ≤ e := by
  simp only [entriesOf] at mem
  split at mem
  · obtain ⟨i, -, rfl⟩ := List.mem_map.mp mem
    omega
  · exact absurd mem List.not_mem_nil

theorem mem_entriesUpTo_ge (mem : e ∈ entriesUpTo m mb k) : mb ≤ e := by
  induction k with
  | zero => exact absurd mem List.not_mem_nil
  | succ k ih =>
    rcases List.mem_append.mp mem with earlier | here
    · exact ih earlier
    · have start := tagAt_ge m mb k
      have after := mem_entriesOf_ge here
      omega

theorem stored_succ (m : Memory) (mb k : Nat) :
    stored m mb (k + 1) =
      stored m mb k ++ (entriesOf m (tagAt m mb k)).take (mmMaxRegions - (stored m mb k).length) := by
  have room : mmMaxRegions - min mmMaxRegions (entriesUpTo m mb k).length =
      mmMaxRegions - (entriesUpTo m mb k).length := by omega
  rw [stored, entriesUpTo, List.take_append, stored, List.length_take, room]

/-- The entries the loop takes, from `e` on. -/
def walkEntries (size stop : Nat) : Nat → Nat → List Nat
  | 0, _ => []
  | room + 1, e => if e + size ≤ stop then e :: walkEntries size stop room (e + size) else []

theorem takeEntries_eq (m : Memory) {size stop : Nat} (small : size < 2 ^ 32)
    (near : stop < 2 ^ 35) (room : Nat) :
    ∀ e s, e < 2 ^ 36 →
      takeEntries m size stop room e s = (walkEntries size stop room e).foldl (Parse.takeEntry m) s := by
  induction room with
  | zero => exact fun _ _ _ => rfl
  | succ room ih =>
    intro e s low
    have straight : wrap64 (e + size) = e + size := Nat.mod_eq_of_lt (by omega)
    rw [takeEntries, walkEntries, straight]
    by_cases inside : e + size ≤ stop
    · rw [if_pos inside, if_pos inside, List.foldl_cons]
      exact ih (e + size) (s.takeEntry m e) (by omega)
    · rw [if_neg inside, if_neg inside, List.foldl_nil]

theorem walkEntries_zero {stop : Nat} (inside : e ≤ stop) (room : Nat) :
    walkEntries 0 stop room e = List.replicate room e := by
  induction room with
  | zero => rfl
  | succ room ih => rw [walkEntries, Nat.add_zero, if_pos inside, ih, List.replicate_succ]

theorem walkEntries_past {size stop : Nat} (past : stop < e + size) (room : Nat) :
    walkEntries size stop room e = [] := by
  cases room with
  | zero => rfl
  | succ room => rw [walkEntries, if_neg (by omega)]

theorem walkEntries_pos {size stop : Nat} (positive : 0 < size) (room : Nat) :
    ∀ e, walkEntries size stop room e =
      ((List.range ((stop - e) / size)).map fun i => e + i * size).take room := by
  induction room with
  | zero => exact fun _ => List.take_zero.symm
  | succ room ih =>
    intro e
    by_cases inside : e + size ≤ stop
    · have one : (stop - e) / size = (stop - (e + size)) / size + 1 := by
        rw [← Nat.sub_sub, Nat.div_eq_sub_div positive (by omega)]
      have next : ∀ i, e + size + i * size = e + (i + 1) * size := fun i => by
        rw [Nat.succ_mul]
        omega
      rw [walkEntries, if_pos inside, ih, one, List.range_succ_eq_map, List.map_cons,
        List.take_succ_cons, List.map_map, Nat.zero_mul, Nat.add_zero]
      simp only [next, Function.comp_def, Nat.succ_eq_add_one]
    · have none_ : (stop - e) / size = 0 := Nat.div_eq_of_lt (by omega)
      rw [walkEntries, if_neg inside, none_]
      rfl

theorem walkEntries_entriesOf {tag room : Nat} (map : tagType m tag = tagTypeMmap)
    (le : room ≤ mmMaxRegions) :
    walkEntries (entrySize m tag) (tag + tagSize m tag) room (tag + 16) =
      (entriesOf m tag).take room := by
  rw [entriesOf, if_pos map, entryCount]
  by_cases none_ : entrySize m tag = 0
  · rw [if_pos none_, none_]
    by_cases header : 16 ≤ tagSize m tag
    · rw [if_pos header, walkEntries_zero (by omega)]
      simp only [Nat.mul_zero, Nat.add_zero, List.map_const', List.length_range,
        List.take_replicate]
      rw [Nat.min_eq_left le]
    · rw [if_neg header, walkEntries_past (by omega), List.range_zero, List.map_nil, List.take_nil]
  · rw [if_neg none_, walkEntries_pos (Nat.pos_of_ne_zero none_), Nat.add_sub_add_left]

theorem foldl_takeEntry (m : Memory) (l : List Nat) (s : Parse) :
    l.foldl (Parse.takeEntry m) s =
      { s with
        out := (l.map (regionAt m)).foldl BootMap.addRegion s.out
        reads := s.reads ++ l.flatMap entryReads } := by
  induction l generalizing s with
  | nil => simp
  | cons e l ih =>
    rw [List.foldl_cons, ih]
    simp [Parse.takeEntry]

/-- The highest address is the end of an available region, and none ends above it. -/
def Highest (o : BootMap) : Prop :=
  (∀ r ∈ o.regions, r.type = .available → wrap64 (r.base + r.length) ≤ o.highestAddress) ∧
    (o.highestAddress = 0 ∨
      ∃ r ∈ o.regions, r.type = .available ∧ wrap64 (r.base + r.length) = o.highestAddress)

@[simp] theorem BootMap.addRegion_regions (o : BootMap) (r : MemoryRegion) :
    (o.addRegion r).regions = o.regions ++ [r] := rfl

theorem foldl_addRegion_regions (l : List MemoryRegion) (o : BootMap) :
    (l.foldl BootMap.addRegion o).regions = o.regions ++ l := by
  induction l generalizing o with
  | nil => simp
  | cons r l ih => simp [ih]

theorem Highest.addRegion {o : BootMap} (highest : Highest o) (r : MemoryRegion) :
    Highest (o.addRegion r) := by
  obtain ⟨above, attained⟩ := highest
  simp only [Highest, BootMap.addRegion_regions, List.mem_append, List.mem_singleton]
  simp only [BootMap.addRegion]
  by_cases raises : r.type = .available ∧ o.highestAddress < wrap64 (r.base + r.length)
  · rw [if_pos raises]
    refine ⟨?_, Or.inr ⟨r, Or.inr rfl, raises.1, rfl⟩⟩
    rintro q (earlier | rfl) available
    · exact Nat.le_trans (above q earlier available) (Nat.le_of_lt raises.2)
    · exact le_rfl
  · rw [if_neg raises]
    refine ⟨?_, ?_⟩
    · rintro q (earlier | rfl) available
      · exact above q earlier available
      · exact Nat.le_of_not_lt fun higher => raises ⟨available, higher⟩
    · rcases attained with zero | ⟨q, earlier, available, same⟩
      · exact Or.inl zero
      · exact Or.inr ⟨q, Or.inl earlier, available, same⟩

theorem Highest.foldl {o : BootMap} (highest : Highest o) (l : List MemoryRegion) :
    Highest (l.foldl BootMap.addRegion o) := by
  induction l generalizing o with
  | nil => exact highest
  | cons r l ih => exact ih (highest.addRegion r)

/-- The reads of a tag, its entries apart. -/
def tagReads (m : Memory) (tag : Nat) : List (Nat × Nat) :=
  [(tag, 4), (tag + 4, 4)] ++
    (if tagType m tag = tagTypeFramebuffer then framebufferReads m tag else []) ++
    (if tagType m tag = tagTypeMmap then [(tag + 8, 4)] else [])

/-- Where the parser is after `k` tags. -/
structure After (m : Memory) (mb k : Nat) (s : Parse) : Prop where
  cursor : s.cursor = tagAt m mb k
  regions : s.out.regions = (stored m mb k).map (regionAt m)
  reads : ∀ r, r ∈ s.reads ↔ r = (mb, 4) ∨ (∃ j < k, r ∈ tagReads m (tagAt m mb j)) ∨
    ∃ e ∈ stored m mb k, r ∈ entryReads e
  highest : Highest s.out

/-- One tag: its header, the entries there is room for, and the step to the next. -/
theorem takeTag_spec {s : Parse} (low : s.cursor < 2 ^ 34) :
    let new := (entriesOf m s.cursor).take (mmMaxRegions - s.out.regions.length)
    (s.takeTag m).cursor = s.cursor + roundedSize m s.cursor ∧
      (s.takeTag m).out = (new.map (regionAt m)).foldl BootMap.addRegion s.out ∧
      ∀ r, r ∈ (s.takeTag m).reads ↔ r ∈ s.reads ∨ r ∈ tagReads m s.cursor ∨
        ∃ e ∈ new, r ∈ entryReads e := by
  have size : tagSize m s.cursor < 256 ^ 4 := load_lt m (s.cursor + 4) 4
  have entry : entrySize m s.cursor < 256 ^ 4 := load_lt m (s.cursor + 8) 4
  have straight : ∀ x, x < 2 ^ 36 → wrap64 x = x := fun x small => Nat.mod_eq_of_lt (by omega)
  have rounded : roundedSize m s.cursor < 2 ^ 32 := by
    simp only [roundedSize, wrap32]
    omega
  rw [Parse.takeTag, straight (s.cursor + roundedSize m s.cursor) (by omega),
    straight (s.cursor + tagSize m s.cursor) (by omega), straight (s.cursor + 16) (by omega)]
  by_cases map : tagType m s.cursor = tagTypeMmap
  · have other : ¬ tagType m s.cursor = tagTypeFramebuffer := by
      rw [map]
      decide
    simp only [if_pos map, if_neg other, tagReads]
    rw [takeEntries_eq m (by omega) (by omega) _ _ _ (by omega),
      walkEntries_entriesOf map (Nat.sub_le _ _), foldl_takeEntry]
    refine ⟨trivial, rfl, fun r => ?_⟩
    simp only [List.mem_append, List.mem_cons, List.mem_flatMap, List.not_mem_nil, or_false]
    clear size entry straight rounded low
    grind
  · have none_ : entriesOf m s.cursor = [] := if_neg map
    simp only [if_neg map, tagReads, none_, List.take_nil]
    by_cases fb : tagType m s.cursor = tagTypeFramebuffer
    · simp only [if_pos fb]
      refine ⟨trivial, rfl, fun r => ?_⟩
      simp only [List.mem_append, List.mem_cons, List.not_mem_nil, or_false, false_and, exists_false]
      clear size entry straight rounded low
      grind
    · simp only [if_neg fb]
      refine ⟨trivial, rfl, fun r => ?_⟩
      simp only [List.mem_append, List.mem_cons, List.not_mem_nil, or_false, false_and, exists_false]
      clear size entry straight rounded low
      grind

theorem After.takeTag {s : Parse} (after : After m mb k s)
    (low : tagAt m mb k < 2 ^ 34) : After m mb (k + 1) (s.takeTag m) := by
  obtain ⟨cursor, out, reads⟩ := takeTag_spec (m := m) (s := s) (by rw [after.cursor]; exact low)
  have count : s.out.regions.length = (stored m mb k).length := by
    rw [after.regions, List.length_map]
  rw [after.cursor] at cursor
  rw [after.cursor, count] at out reads
  refine ⟨cursor, ?_, fun r => ?_, ?_⟩
  · rw [out, foldl_addRegion_regions, after.regions, stored_succ, List.map_append]
  · have before : (∃ j < k + 1, r ∈ tagReads m (tagAt m mb j)) ↔
        (∃ j < k, r ∈ tagReads m (tagAt m mb j)) ∨ r ∈ tagReads m (tagAt m mb k) := by
      simp only [Nat.lt_succ_iff_lt_or_eq, or_and_right, exists_or, exists_eq_left]
    rw [reads, after.reads, before, stored_succ]
    simp only [List.mem_append, or_and_right, exists_or]
    clear low count cursor out reads
    grind
  · rw [out]
    exact after.highest.foldl _

def startOf (mb : Nat) (fb : BootFramebuffer) : Parse := ⟨mb + 8, ⟨⟨[], 0⟩, 0⟩, fb, [(mb, 4)]⟩

theorem startOf_after (m : Memory) (mb : Nat) (fb : BootFramebuffer) :
    After m mb 0 (startOf mb fb) := by
  refine ⟨rfl, rfl, fun r => ?_, ⟨fun r mem => absurd mem List.not_mem_nil, Or.inl rfl⟩⟩
  simp [startOf, stored, entriesUpTo]

theorem blockEnd_eq (low : mb < 2 ^ 32) : blockEnd m mb = mb + load m mb 4 := by
  have total : load m mb 4 < 256 ^ 4 := load_lt m mb 4
  exact Nat.mod_eq_of_lt (by omega)

theorem parseTurn_continues {s : Parse} (low : mb < 2 ^ 32) (after : After m mb k s)
    (walks : Walks m mb (k + 1)) : parseTurn m (blockEnd m mb) s = .inr (s.takeTag m) := by
  have near := tagAt_low low (walks.before (Nat.le_succ k))
  obtain ⟨inside, goes⟩ := walks k (Nat.lt_succ_self k)
  have straight : wrap64 (tagAt m mb k + 8) = tagAt m mb k + 8 := Nat.mod_eq_of_lt (by omega)
  rw [parseTurn, blockEnd_eq low, after.cursor, straight, if_pos inside, if_neg goes]

theorem parseTurn_leaves {s : Parse} (low : mb < 2 ^ 32) (after : After m mb k s)
    (walks : Walks m mb k) (stops : ¬ Continues m mb (tagAt m mb k)) :
    ∃ t, parseTurn m (blockEnd m mb) s = .inl t ∧ t.out = s.out ∧
      (∀ r ∈ s.reads, r ∈ t.reads) ∧ ∀ r ∈ t.reads, r ∈ s.reads ∨
        (r = (tagAt m mb k, 4) ∧ tagAt m mb k + 8 ≤ mb + load m mb 4) := by
  have near := tagAt_low low walks
  have straight : wrap64 (tagAt m mb k + 8) = tagAt m mb k + 8 := Nat.mod_eq_of_lt (by omega)
  rw [parseTurn, blockEnd_eq low, after.cursor, straight]
  by_cases inside : tagAt m mb k + 8 ≤ mb + load m mb 4
  · have last : tagType m (tagAt m mb k) = tagTypeEnd := by
      by_contra goes
      exact stops ⟨inside, goes⟩
    rw [if_pos inside, if_pos last]
    refine ⟨_, rfl, rfl, fun r mem => List.mem_append_left _ mem, fun r mem => ?_⟩
    rcases List.mem_append.mp mem with earlier | here
    · exact Or.inl earlier
    · exact Or.inr ⟨List.mem_singleton.mp here, inside⟩
  · rw [if_neg inside]
    exact ⟨s, rfl, rfl, fun _ mem => mem, fun _ mem => Or.inl mem⟩

/-- The parser gets to where the list stops. -/
theorem run_walks (fb : BootFramebuffer) (low : mb < 2 ^ 32) {k : Nat} (walks : Walks m mb k) :
    ∃ s, After m mb k s ∧ ∀ fuel, Loop.run (parseTurn m (blockEnd m mb)) (fuel + k) (startOf mb fb) =
      Loop.run (parseTurn m (blockEnd m mb)) fuel s := by
  induction k with
  | zero => exact ⟨_, startOf_after m mb fb, fun _ => rfl⟩
  | succ k ih =>
    obtain ⟨s, after, run⟩ := ih (walks.before (Nat.le_succ k))
    have near := tagAt_low low (walks.before (Nat.le_succ k))
    refine ⟨s.takeTag m, after.takeTag near, fun fuel => ?_⟩
    rw [Nat.add_comm k 1, ← Nat.add_assoc, run (fuel + 1),
      Loop.run_inr (parseTurn_continues low after walks)]

/-- The parser's result, when the list stops after `k` tags. -/
structure Parsed (m : Memory) (mb k : Nat) (t : Parse) : Prop where
  walks : Walks m mb k
  stops : ¬ Continues m mb (tagAt m mb k)
  regions : t.out.regions = (stored m mb k).map (regionAt m)
  highest : Highest t.out
  read : ∀ r, r = (mb, 4) ∨ (∃ j < k, r ∈ tagReads m (tagAt m mb j)) ∨
    (∃ e ∈ stored m mb k, r ∈ entryReads e) → r ∈ t.reads
  reads : ∀ r ∈ t.reads, r = (mb, 4) ∨ (∃ j < k, r ∈ tagReads m (tagAt m mb j)) ∨
    (∃ e ∈ stored m mb k, r ∈ entryReads e) ∨
      r = (tagAt m mb k, 4) ∧ tagAt m mb k + 8 ≤ mb + load m mb 4

theorem After.parsed {s t : Parse} (low : mb < 2 ^ 32) (after : After m mb k s)
    (walks : Walks m mb k) (stops : ¬ Continues m mb (tagAt m mb k))
    (leaves : parseTurn m (blockEnd m mb) s = .inl t) : Parsed m mb k t := by
  obtain ⟨t', leaves', out, read, reads⟩ := parseTurn_leaves low after walks stops
  obtain rfl := Sum.inl.inj (leaves'.symm.trans leaves)
  refine ⟨walks, stops, by rw [out, after.regions], by rw [out]; exact after.highest,
    fun r listed => read r ((after.reads r).mpr listed), fun r mem => ?_⟩
  rcases reads r mem with earlier | last
  · rcases (after.reads r).mp earlier with header | tag | entry
    · exact Or.inl header
    · exact Or.inr (Or.inl tag)
    · exact Or.inr (Or.inr (Or.inl entry))
  · exact Or.inr (Or.inr (Or.inr last))

theorem run_of_stop (fb : BootFramebuffer) {k : Nat} (low : mb < 2 ^ 32) (walks : Walks m mb k)
    (stops : ¬ Continues m mb (tagAt m mb k)) :
    ∃ t, Loop.run (parseTurn m (blockEnd m mb)) (1 + k) (startOf mb fb) = some t := by
  obtain ⟨s, after, run⟩ := run_walks fb low walks
  obtain ⟨t, leaves, -⟩ := parseTurn_leaves low after walks stops
  exact ⟨t, by rw [run, ← Nat.zero_add 1, Loop.run_inl leaves]⟩

/-- A result is that of a list that stops. -/
theorem run_parsed {fb : BootFramebuffer} {fuel : Nat} {t : Parse} (low : mb < 2 ^ 32)
    (run : Loop.run (parseTurn m (blockEnd m mb)) fuel (startOf mb fb) = some t) :
    ∃ k, Parsed m mb k t := by
  have kept : ∀ s u, (∃ k, Walks m mb k ∧ After m mb k s) →
      parseTurn m (blockEnd m mb) s = .inr u → ∃ k, Walks m mb k ∧ After m mb k u := by
    rintro s u ⟨k, walks, after⟩ turn
    by_cases more : Continues m mb (tagAt m mb k)
    · rw [parseTurn_continues low after (walks.succ more)] at turn
      obtain rfl := Sum.inr.inj turn
      exact ⟨k + 1, walks.succ more, after.takeTag (tagAt_low low walks)⟩
    · obtain ⟨t', leaves, -⟩ := parseTurn_leaves low after walks more
      rw [leaves] at turn
      cases turn
  have begins : ∃ k, Walks m mb k ∧ After m mb k (startOf mb fb) :=
    ⟨0, fun j below => absurd below (Nat.not_lt_zero j), startOf_after m mb fb⟩
  obtain ⟨s, ⟨k, walks, after⟩, leaves⟩ := Loop.run_invariant _ kept begins run
  refine ⟨k, after.parsed low walks (fun more => ?_) leaves⟩
  rw [parseTurn_continues low after (walks.succ more)] at leaves
  cases leaves

theorem mmParse_eq {fb : BootFramebuffer} {fuel : Nat} (low : mb < 2 ^ 32) (some_ : mb ≠ 0) :
    mmParseMultibootMemoryMap m fb fuel mb =
      (Loop.run (parseTurn m (blockEnd m mb)) fuel (startOf mb fb)).map
        fun s => (decide (0 < s.out.regions.length), s) := by
  have straight : wrap64 (mb + 8) = mb + 8 := Nat.mod_eq_of_lt (by omega)
  simp only [mmParseMultibootMemoryMap, if_neg some_, straight]
  rfl

/-- The highest address is the greatest of the ends of the available regions. -/
def HighestEnd (o : BootMap) : Prop :=
  (∀ r ∈ o.regions, r.type = .available → r.base + r.length ≤ o.highestAddress) ∧
    (o.highestAddress = 0 ∨
      ∃ r ∈ o.regions, r.type = .available ∧ r.base + r.length = o.highestAddress)

/-- The parser returns, and it has read nothing outside of the block. -/
def ParsesInBounds (m : Memory) (fb : BootFramebuffer) (mb : Nat) : Prop :=
  (∃ fuel r, mmParseMultibootMemoryMap m fb fuel mb = some r) ∧
    ∀ fuel r, mmParseMultibootMemoryMap m fb fuel mb = some r →
      (∀ q ∈ r.2.reads, mb ≤ q.1 ∧ q.1 + q.2 ≤ mb + load m mb 4) ∧
        r.2.out.regions.length ≤ mmMaxRegions ∧ HighestEnd r.2.out

theorem Highest.end_ {o : BootMap} (highest : Highest o)
    (fits : ∀ r ∈ o.regions, r.type = .available → r.base + r.length < 2 ^ 64) : HighestEnd o := by
  obtain ⟨above, attained⟩ := highest
  constructor
  · intro r mem available
    rw [← Nat.mod_eq_of_lt (fits r mem available)]
    exact above r mem available
  · rcases attained with zero | ⟨r, mem, available, same⟩
    · exact Or.inl zero
    · rw [wrap64, Nat.mod_eq_of_lt (fits r mem available)] at same
      exact Or.inr ⟨r, mem, available, same⟩

theorem HighestEnd.fits {o : BootMap} (end_ : HighestEnd o) (highest : Highest o)
    {r : MemoryRegion} (mem : r ∈ o.regions) (available : r.type = .available) :
    r.base + r.length < 2 ^ 64 := by
  have small : o.highestAddress < 2 ^ 64 := by
    rcases highest.2 with zero | ⟨q, -, -, same⟩
    · rw [zero]
      decide
    · rw [← same]
      exact Nat.mod_lt _ (by decide)
  exact Nat.lt_of_le_of_lt (end_.1 r mem available) small

theorem tagReads_ge {tag : Nat} {r : Nat × Nat} (mem : r ∈ tagReads m tag) : tag ≤ r.1 := by
  simp only [tagReads, framebufferReads, List.mem_append, List.mem_ite_nil_right,
    List.mem_cons, List.not_mem_nil, or_false, Prod.ext_iff] at mem
  omega

theorem tagReads_within_iff (m : Memory) (tag stop : Nat) :
    (∀ r ∈ tagReads m tag, r.1 + r.2 ≤ stop) ↔
      tag + 8 ≤ stop ∧
      (tagType m tag = tagTypeFramebuffer →
        tag + (if load m (tag + 29) 1 = framebufferTypeRgb then 37 else 30) ≤ stop) ∧
      (tagType m tag = tagTypeMmap → tag + 12 ≤ stop) := by
  have header : (∀ r ∈ [(tag, 4), (tag + 4, 4)], r.1 + r.2 ≤ stop) ↔ tag + 8 ≤ stop := by
    simp only [List.forall_mem_cons, List.not_mem_nil, IsEmpty.forall_iff, implies_true, and_true]
    omega
  have map : (∀ r ∈ if tagType m tag = tagTypeMmap then [(tag + 8, 4)] else [], r.1 + r.2 ≤ stop) ↔
      (tagType m tag = tagTypeMmap → tag + 12 ≤ stop) := by
    by_cases is : tagType m tag = tagTypeMmap <;> simp [is, Nat.add_assoc]
  have fb : (∀ r ∈ framebufferReads m tag, r.1 + r.2 ≤ stop) ↔
      tag + (if load m (tag + 29) 1 = framebufferTypeRgb then 37 else 30) ≤ stop := by
    by_cases rgb : load m (tag + 29) 1 = framebufferTypeRgb
    · rw [framebufferReads, if_pos rgb, if_pos rgb]
      simp only [List.cons_append, List.nil_append, List.forall_mem_cons, List.not_mem_nil,
        IsEmpty.forall_iff, implies_true, and_true]
      omega
    · rw [framebufferReads, if_neg rgb, if_neg rgb]
      simp only [List.append_nil, List.forall_mem_cons, List.not_mem_nil, IsEmpty.forall_iff,
        implies_true, and_true]
      omega
  have framebuffer : (∀ r ∈ if tagType m tag = tagTypeFramebuffer then framebufferReads m tag else [],
      r.1 + r.2 ≤ stop) ↔ (tagType m tag = tagTypeFramebuffer →
        tag + (if load m (tag + 29) 1 = framebufferTypeRgb then 37 else 30) ≤ stop) := by
    by_cases is : tagType m tag = tagTypeFramebuffer
    · rw [if_pos is, fb]
      exact ⟨fun within _ => within, fun within => within is⟩
    · rw [if_neg is]
      exact ⟨fun _ wrong => absurd wrong is, fun _ r mem => absurd mem List.not_mem_nil⟩
  rw [tagReads, List.forall_mem_append, List.forall_mem_append, header, framebuffer, map, and_assoc]

theorem entryReads_within_iff (e stop : Nat) :
    (∀ r ∈ entryReads e, r.1 + r.2 ≤ stop) ↔ e + 20 ≤ stop := by
  simp only [entryReads, List.forall_mem_cons, List.not_mem_nil, IsEmpty.forall_iff, implies_true,
    and_true]
  omega

theorem entryReads_ge {r : Nat × Nat} (mem : r ∈ entryReads e) : e ≤ r.1 := by
  simp only [entryReads, List.mem_cons, List.not_mem_nil, or_false, Prod.ext_iff] at mem
  omega

theorem mem_stored_of_le (le : j ≤ k) (mem : e ∈ stored m mb j) : e ∈ stored m mb k := by
  induction le with
  | refl => exact mem
  | step _ ih =>
    rw [stored_succ]
    exact List.mem_append_left _ ih

/-- A list of tags of positive sizes stops before the end of the block. -/
theorem WellFormed.stops (fine : WellFormed m mb) :
    ∃ k, Walks m mb k ∧ ¬ Continues m mb (tagAt m mb k) := by
  by_contra never
  have all : ∀ k, Walks m mb k := by
    intro k
    induction k with
    | zero => exact fun j below => absurd below (Nat.not_lt_zero j)
    | succ k ih =>
      refine ih.succ ?_
      by_contra stops
      exact never ⟨k, ih, stops⟩
  have far : mb + 8 * load m mb 4 ≤ tagAt m mb (load m mb 4) := tagAt_advances fun j _ zero =>
    (roundedSize_eq_zero_iff m _).mp zero (fine.sizes j (all (j + 1)))
  have inside := (all (load m mb 4 + 1) (load m mb 4) (Nat.lt_succ_self _)).1
  omega

/-- A tag of no size is met again and again. -/
theorem tagAt_stuck (stuck : roundedSize m (tagAt m mb k) = 0) (n : Nat) :
    tagAt m mb (k + n) = tagAt m mb k := by
  induction n with
  | zero => rfl
  | succ n ih => rw [← Nat.add_assoc, tagAt, ih, stuck, Nat.add_zero]

/-- The tags of a list that stops after `k` are the first `k`. -/
theorem Parsed.lt_of_walks {t : Parse} (parsed : Parsed m mb k t)
    (walks : Walks m mb (j + 1)) : j < k := by
  by_contra far
  exact parsed.stops (walks k (by omega))

theorem Parsed.sizes {t : Parse} (parsed : Parsed m mb k t) (walks : Walks m mb (j + 1)) :
    0 < tagSize m (tagAt m mb j) ∧ tagSize m (tagAt m mb j) ≤ 0xFFFFFFF8 := by
  by_contra wrong
  have stuck := tagAt_stuck ((roundedSize_eq_zero_iff m _).mpr wrong) (k - j)
  rw [Nat.add_sub_cancel' (Nat.le_of_lt (parsed.lt_of_walks walks))] at stuck
  refine parsed.stops ?_
  rw [stuck]
  exact walks j (Nat.lt_succ_self j)

/-- In a well-formed block the parser reads nothing else. -/
theorem Parsed.within {t : Parse} (parsed : Parsed m mb k t) (fine : WellFormed m mb) :
    ∀ q ∈ t.reads, mb ≤ q.1 ∧ q.1 + q.2 ≤ mb + load m mb 4 := by
  intro q mem
  rcases parsed.reads q mem with rfl | ⟨j, below, tag⟩ | ⟨e, is, entry⟩ | ⟨rfl, inside⟩
  · exact ⟨le_rfl, Nat.add_le_add_left fine.header mb⟩
  · have walks := parsed.walks.before (Nat.succ_le_of_lt below)
    have within := (tagReads_within_iff m (tagAt m mb j) (mb + load m mb 4)).mpr
      ⟨(walks j (Nat.lt_succ_self j)).1, fine.framebuffers j walks, fine.maps j walks⟩
    have start := tagAt_ge m mb j
    have after := tagReads_ge tag
    exact ⟨by omega, within q tag⟩
  · have within := (entryReads_within_iff e (mb + load m mb 4)).mpr
      (fine.entries k parsed.walks e is)
    have start := mem_entriesUpTo_ge (List.mem_of_mem_take is)
    have after := entryReads_ge entry
    exact ⟨by omega, within q entry⟩
  · have start := tagAt_ge m mb k
    exact ⟨by simp only; omega, by simp only; omega⟩

theorem Parsed.highestEnd {t : Parse} (parsed : Parsed m mb k t)
    (fine : WellFormed m mb) : HighestEnd t.out := by
  refine parsed.highest.end_ ?_
  rw [parsed.regions, List.forall_mem_map]
  exact fine.regions k parsed.walks

theorem Parsed.length_le {t : Parse} (parsed : Parsed m mb k t) :
    t.out.regions.length ≤ mmMaxRegions := by
  rw [parsed.regions, List.length_map, stored, List.length_take]
  exact Nat.min_le_left _ _

/-- A block the parser takes without a read outside of it is well formed. -/
theorem Parsed.wellFormed {t : Parse} (parsed : Parsed m mb k t)
    (within : ∀ q ∈ t.reads, mb ≤ q.1 ∧ q.1 + q.2 ≤ mb + load m mb 4)
    (end_ : HighestEnd t.out) : WellFormed m mb := by
  have tags : ∀ j, Walks m mb (j + 1) →
      ∀ r ∈ tagReads m (tagAt m mb j), r.1 + r.2 ≤ mb + load m mb 4 := fun j walks r mem =>
    (within r (parsed.read r (Or.inr (Or.inl ⟨j, parsed.lt_of_walks walks, mem⟩)))).2
  have before : ∀ j, Walks m mb j → j ≤ k := by
    intro j walks
    cases j with
    | zero => exact Nat.zero_le k
    | succ j => exact parsed.lt_of_walks walks
  have header := (within (mb, 4) (parsed.read _ (Or.inl rfl))).2
  refine ⟨by omega, fun j walks => parsed.sizes walks, fun j walks => ?_, fun j walks => ?_,
    fun j walks e mem => ?_, fun j walks e mem available => ?_⟩
  · exact ((tagReads_within_iff m _ _).mp (tags j walks)).2.1
  · exact ((tagReads_within_iff m _ _).mp (tags j walks)).2.2
  · refine (entryReads_within_iff e _).mp fun r read => ?_
    exact (within r (parsed.read r
      (Or.inr (Or.inr ⟨e, mem_stored_of_le (before j walks) mem, read⟩)))).2
  · refine end_.fits parsed.highest ?_ available
    rw [parsed.regions]
    exact List.mem_map_of_mem (mem_stored_of_le (before j walks) mem)

/-- The parser returns and stays within the block exactly if there is no block, or
every tag up to the end of the list has a size the parser can step over, with its
fields and its entries in the block, and no available region wraps around. -/
theorem parses_in_bounds_iff (m : Memory) (fb : BootFramebuffer) (mb : Nat) (low : mb < 2 ^ 32) :
    ParsesInBounds m fb mb ↔ mb = 0 ∨ WellFormed m mb := by
  by_cases none_ : mb = 0
  · have result : ∀ fuel, mmParseMultibootMemoryMap m fb fuel mb =
        some (false, ⟨0, ⟨⟨[], 0⟩, 0⟩, fb, []⟩) := fun fuel => if_pos none_
    refine ⟨fun _ => Or.inl none_, fun _ => ⟨⟨0, _, result 0⟩, fun fuel r run => ?_⟩⟩
    obtain rfl := Option.some.inj ((result fuel).symm.trans run)
    exact ⟨fun q mem => absurd mem List.not_mem_nil, Nat.zero_le _,
      fun r mem => absurd mem List.not_mem_nil, Or.inl rfl⟩
  constructor
  · rintro ⟨⟨fuel, r, run⟩, bounds⟩
    obtain ⟨within, -, end_⟩ := bounds fuel r run
    rw [mmParse_eq low none_, Option.map_eq_some_iff] at run
    obtain ⟨t, walk, rfl⟩ := run
    obtain ⟨k, parsed⟩ := run_parsed low walk
    exact Or.inr (parsed.wellFormed within end_)
  · rintro (wrong | fine)
    · exact absurd wrong none_
    · refine ⟨?_, fun fuel r run => ?_⟩
      · obtain ⟨k, walks, stops⟩ := fine.stops
        obtain ⟨t, run⟩ := run_of_stop fb low walks stops
        exact ⟨1 + k, _, by rw [mmParse_eq low none_, run, Option.map_some]⟩
      · rw [mmParse_eq low none_, Option.map_eq_some_iff] at run
        obtain ⟨t, walk, rfl⟩ := run
        obtain ⟨k, parsed⟩ := run_parsed low walk
        exact ⟨parsed.within fine, parsed.length_le, parsed.highestEnd fine⟩

/-- A block of 32-bit words from `base` on, in a memory that is zero elsewhere. -/
def wordsAt (base : Nat) (words : List Nat) : Memory := fun a =>
  UInt8.ofNat (words.getD ((a - base) / 4) 0 / 256 ^ ((a - base) % 4))

/-- A memory map with one available region, and the end of the list. -/
def regionBlock : Memory :=
  wordsAt 0x1000 [56, 0, 6, 40, 24, 0, 0x100000, 0, 0x7F00000, 0, 1, 0, 0, 8]

theorem regionBlock_walks (walks : Walks regionBlock 0x1000 k) : k ≤ 1 := by
  by_contra far
  have last : tagType regionBlock (tagAt regionBlock 0x1000 1) = tagTypeEnd := by decide
  exact (walks 1 (by omega)).2 last

theorem regionBlock_stored (walks : Walks regionBlock 0x1000 k)
    (mem : e ∈ stored regionBlock 0x1000 k) : e = 0x1018 := by
  have all : stored regionBlock 0x1000 1 = [0x1018] := by decide
  have mem := mem_stored_of_le (regionBlock_walks walks) mem
  rw [all] at mem
  exact List.mem_singleton.mp mem

theorem regionBlock_wellFormed : WellFormed regionBlock 0x1000 := by
  have only : ∀ k, Walks regionBlock 0x1000 (k + 1) → k = 0 := fun k walks =>
    Nat.le_zero.mp (Nat.le_of_succ_le_succ (regionBlock_walks walks))
  refine ⟨by decide, fun k walks => ?_, fun k walks => ?_, fun k walks => ?_,
    fun k walks e mem => ?_, fun k walks e mem => ?_⟩
  · rw [only k walks]
    decide
  · rw [only k walks]
    decide
  · rw [only k walks]
    decide
  · rw [regionBlock_stored walks mem]
    decide
  · rw [regionBlock_stored walks mem]
    decide

/-- The map of one region is parsed in bounds. -/
theorem regionBlock_in_bounds :
    ParsesInBounds regionBlock ⟨0, 0, 0, 0, 0, 0, 0, 0, false⟩ 0x1000 :=
  (parses_in_bounds_iff regionBlock ⟨0, 0, 0, 0, 0, 0, 0, 0, false⟩ 0x1000 (by decide)).mpr
    (Or.inr regionBlock_wellFormed)

/-- A command line whose tag has the size zero. -/
def stuckBlock : Memory := wordsAt 0x1000 [32, 0, 1, 0, 0, 0, 0, 0]

/-- The parser never gets past a tag of no size. -/
theorem stuckBlock_not_in_bounds :
    ¬ ParsesInBounds stuckBlock ⟨0, 0, 0, 0, 0, 0, 0, 0, false⟩ 0x1000 := by
  have first : Continues stuckBlock 0x1000 (tagAt stuckBlock 0x1000 0) :=
    ⟨by decide, by decide⟩
  have walks : Walks stuckBlock 0x1000 1 := by
    intro j below
    obtain rfl : j = 0 := by omega
    exact first
  rintro ⟨⟨fuel, r, run⟩, -⟩
  rw [mmParse_eq (by decide) (by decide), Option.map_eq_some_iff] at run
  obtain ⟨t, walk, -⟩ := run
  obtain ⟨k, parsed⟩ := run_parsed (by decide) walk
  exact absurd (parsed.sizes walks).1 (by decide)

end Multiboot
