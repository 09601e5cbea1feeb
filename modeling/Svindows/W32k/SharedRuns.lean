import Svindows.Lib.Runs
import Svindows.W32k.SharedMemory

/-!
# The partition of the shared memory

SERVERINFO lies inside the arena of USER object heads, and the page of the
desktop range is the first page of the `DC_ATTR` arena. The parts stay apart
only while the process is not created over a filled SERVERINFO, no object takes
a head among its pages, and no device context takes an attribute block after
the range was published.
-/

namespace W32k

open Nt ByteMemory

/-- What has been handed out, as addresses and lengths. -/
def regions (s : SharedState) : List (Nat × Nat) :=
  s.heads.map (fun i => (userObjectArenaVa + i * 0x200, 0x200)) ++
  (s.attrs.map (fun a => (a, dcAttrSize)) ++
  ((if s.info = none then [] else [(serverInfoVa, serverInfoSize)]) ++
  (if s.published then [(userObjectArenaVa + userObjectArenaSize, 16)] else [])))

def Apart (r q : Nat × Nat) : Prop := r.1 + r.2 ≤ q.1 ∨ q.1 + q.2 ≤ r.1

/-- SERVERINFO still holds the bytes it was filled with. -/
def InfoKept (s : SharedState) : Prop :=
  ∀ m, s.info = some m → ∀ a, serverInfoVa ≤ a → a < serverInfoVa + serverInfoSize → s.mem a = m a

def Partitioned (s : SharedState) : Prop :=
  (regions s).Pairwise Apart ∧ s.heads.Nodup ∧ InfoKept s

/-- The head of index `i` is outside SERVERINFO. -/
def ClearOfInfo (i : Nat) : Prop := i < 256 ∨ 288 ≤ i

/-- The calls that keep the parts apart in the state `s`. -/
def Respects (fb : GfxFramebuffer) (s : SharedState) : SharedCall → Prop
  | .initializeServerInfo room =>
    if s.info = none then (∀ k < 4, room k = true) → ∀ i ∈ s.heads, ClearOfInfo i
    else room 0 = false ∨ ∀ k < 4, room k = true
  | .createUserProcess _ _ => s.info = none
  | .createWindow _ => True
  | .findExistingCursorIcon module resource buffer =>
    s.info = none ∨ ClearOfInfo s.nextObject ∨
    ∃ c ∈ s.cursors, c.module = module ∧
      c.resource = if resource = 0 then resource else buffer.getD resource
  | .createAcceleratorTable => s.info = none ∨ ClearOfInfo s.nextObject
  | .createCompatibleDC _ => s.published = false
  | .acquireWindowDc .. => s.published = false ∨ gfxAvailable fb = false

/-- A store looks at no other byte. -/
theorem store_congr {m m' : Memory} {a width v b : Nat} (same : m b = m' b) :
    store m a width v b = store m' a width v b := by
  simp only [store, same]

theorem foldl_store_congr (words : List (Nat × Nat)) (base : Nat) {m m' : Memory} {b : Nat}
    (same : m b = m' b) :
    words.foldl (fun m word => store m (base + word.1) 4 word.2) m b =
      words.foldl (fun m word => store m (base + word.1) 4 word.2) m' b := by
  induction words generalizing m m' with
  | nil => exact same
  | cons word rest ih => exact ih (store_congr same)

theorem fillServerInfo_congr (fb : GfxFramebuffer) {m m' : Memory} {b : Nat}
    (same : m b = m' b) : fillServerInfo fb m b = fillServerInfo fb m' b :=
  foldl_store_congr _ _ (store_congr same)

theorem foldl_store_before (words : List (Nat × Nat)) (base : Nat) (m : Memory) {b : Nat}
    (after : ∀ word ∈ words, b < base + word.1) :
    words.foldl (fun m word => store m (base + word.1) 4 word.2) m b = m b := by
  induction words generalizing m with
  | nil => rfl
  | cons word rest ih =>
    rw [List.foldl_cons, ih _ fun w hw => after w (List.mem_cons_of_mem _ hw)]
    exact store_outside (Or.inl (after word List.mem_cons_self))

theorem serverInfoWords_offset (fb : GfxFramebuffer) :
    ∀ word ∈ serverInfoWords fb, 0x758 ≤ word.1 := by
  intro word hw
  rcases List.mem_append.mp hw with hw | hw
  · obtain ⟨metric, _, rfl⟩ := List.mem_map.mp hw
    exact Nat.le_add_right _ _
  · obtain ⟨color, _, rfl⟩ := List.mem_map.mp hw
    exact le_trans (by decide) (Nat.le_add_right _ _)

/-- The third byte of the handle count is not zero. -/
theorem fillServerInfo_count (fb : GfxFramebuffer) (m : Memory) :
    fillServerInfo fb m (serverInfoVa + 10) = 1 := by
  unfold fillServerInfo
  rw [foldl_store_before]
  · rfl
  · intro word hw
    have := serverInfoWords_offset fb word hw
    omega

theorem mapZeroPages_mem (s : SharedState) (va n b : Nat) :
    (s.mapZeroPages va n).mem b = if va ≤ b ∧ b < va + n * pageSize then 0 else s.mem b := by
  induction n with
  | zero =>
    rw [if_neg (by omega)]
    rfl
  | succ n ih =>
    have next : (s.mapZeroPages va (n + 1)).mem b =
        fill (s.mapZeroPages va n).mem (va + n * pageSize) pageSize 0 b := rfl
    rw [next, Nat.add_mul, Nat.one_mul]
    by_cases last : va + n * pageSize ≤ b ∧ b < va + n * pageSize + pageSize
    · rw [fill_inside last.1 last.2, if_pos (by omega)]
    · rw [fill_outside (by omega), ih]
      split
      · rw [if_pos (by omega)]
      · rw [if_neg (by omega)]

/-- Mapping changes the memory and the pages, and nothing else. -/
theorem mapZeroPages_rest (s : SharedState) (va n : Nat) :
    s.mapZeroPages va n =
      { s with mem := (s.mapZeroPages va n).mem, mapped := (s.mapZeroPages va n).mapped } := by
  induction n with
  | zero => rfl
  | succ n ih =>
    have next : s.mapZeroPages va (n + 1) = (s.mapZeroPages va n).mapZero (va + n * pageSize) := rfl
    rw [next]
    conv_lhs => rw [ih]
    rfl

theorem mapZeroPages_mapped (s : SharedState) {va n p : Nat}
    (outside : p < va / pageSize ∨ va / pageSize + n ≤ p) :
    (s.mapZeroPages va n).mapped p = s.mapped p := by
  induction n with
  | zero => rfl
  | succ n ih =>
    have next : (s.mapZeroPages va (n + 1)).mapped p =
        Function.update (s.mapZeroPages va n).mapped ((va + n * pageSize) / pageSize) true p := rfl
    have page : (va + n * pageSize) / pageSize = va / pageSize + n :=
      Nat.add_mul_div_right _ _ (by decide)
    rw [next, Function.update_of_ne (by omega)]
    exact ih (by omega)

/-- SERVERINFO gets all of its pages, or the first `k` of them. -/
theorem mapInfoPages_cases (room : Nat → Bool) (s : SharedState) (n : Nat) :
    ((∀ k < n, room k = true) ∧
      mapInfoPages room s n = (true, s.mapZeroPages serverInfoVa n)) ∨
    ∃ k < n, room k = false ∧ (∀ j < k, room j = true) ∧
      mapInfoPages room s n = (false, s.mapZeroPages serverInfoVa k) := by
  induction n with
  | zero => exact Or.inl ⟨fun k hk => absurd hk (Nat.not_lt_zero k), rfl⟩
  | succ n ih =>
    rcases ih with ⟨all, made⟩ | ⟨k, below, full, earlier, made⟩
    · cases here : room n with
      | true =>
        refine Or.inl ⟨?_, by simp only [mapInfoPages, made, here]; rfl⟩
        intro k hk
        rcases Nat.lt_succ_iff_lt_or_eq.mp hk with hk | rfl
        · exact all k hk
        · exact here
      | false =>
        exact Or.inr ⟨n, by omega, here, all, by simp only [mapInfoPages, made, here]; rfl⟩
    · exact Or.inr ⟨k, by omega, full, earlier, by simp only [mapInfoPages, made]⟩

structure Tidy (fb : GfxFramebuffer) (s : SharedState) : Prop where
  windows : 1 ≤ s.nextWindow ∧ s.nextWindow ≤ 128
  objects : 200 ≤ s.nextObject
  heads : ∀ i ∈ s.heads, (1 ≤ i ∧ i < s.nextWindow) ∨ (200 ≤ i ∧ i < s.nextObject ∧ i < 512)
  nodup : s.heads.Nodup
  attrs : s.attrs = []
  attrNext : s.gdi.attrNext = gdiAttrVa
  windowDc : ∀ slot, s.gdi.windowDc slot = 0
  unmapped : s.published = false → s.mapped (gdiAttrVa / pageSize) = false
  clear : s.info ≠ none → ∀ i ∈ s.heads, ClearOfInfo i
  filled : ∀ m, s.info = some m → ∀ a, serverInfoVa ≤ a → a < serverInfoVa + serverInfoSize →
    m a = fillServerInfo fb (fun _ => 0) a
  kept : InfoKept s

theorem Tidy.partitioned {fb : GfxFramebuffer} {s : SharedState} (tidy : Tidy fb s) :
    Partitioned s := by
  refine ⟨?_, tidy.nodup, tidy.kept⟩
  unfold regions
  rw [tidy.attrs, List.map_nil, List.nil_append]
  refine List.pairwise_append.mpr ⟨?_, ?_, ?_⟩
  · rw [List.pairwise_map]
    refine tidy.nodup.imp ?_
    intro i j different
    unfold Apart
    omega
  · split
    · split
      · exact List.pairwise_singleton _ _
      · exact List.Pairwise.nil
    · split
      · rw [List.singleton_append, List.pairwise_cons]
        refine ⟨?_, List.pairwise_singleton _ _⟩
        intro q hq
        rw [List.mem_singleton.mp hq]
        exact Or.inl (by decide)
      · exact List.pairwise_singleton _ _
  · intro r hr q hq
    obtain ⟨i, hi, rfl⟩ := List.mem_map.mp hr
    have small : i < 512 := by
      have := tidy.heads i hi
      have := tidy.windows
      omega
    rcases List.mem_append.mp hq with hq | hq
    · split at hq
      · cases hq
      · rename_i filled
        rw [List.mem_singleton.mp hq]
        have clear := tidy.clear filled i hi
        unfold ClearOfInfo at clear
        simp only [Apart, userObjectArenaVa, serverInfoVa, serverInfoSize]
        omega
    · split at hq
      · rw [List.mem_singleton.mp hq]
        simp only [Apart, userObjectArenaVa, userObjectArenaSize]
        omega
      · cases hq

/-- What is handed out twice is not apart. -/
theorem Partitioned.clear {s : SharedState} (parts : Partitioned s) (filled : s.info ≠ none) :
    ∀ i ∈ s.heads, ClearOfInfo i := by
  intro i hi
  have cross := (List.pairwise_append.mp parts.1).2.2 _ (List.mem_map_of_mem hi)
    (serverInfoVa, serverInfoSize) (by simp [filled])
  simp only [Apart, userObjectArenaVa, serverInfoVa, serverInfoSize] at cross
  unfold ClearOfInfo
  omega

theorem Partitioned.attr_ne {s : SharedState} (parts : Partitioned s) (published : s.published = true) :
    gdiAttrVa ∉ s.attrs := by
  intro taken
  have rest := (List.pairwise_append.mp parts.1).2.1
  have cross := (List.pairwise_append.mp rest).2.2 _ (List.mem_map_of_mem taken)
    (userObjectArenaVa + userObjectArenaSize, 16) (by simp [published])
  simp only [Apart, userObjectArenaVa, userObjectArenaSize, gdiAttrVa, dcAttrSize] at cross
  omega

section Steps

variable {fb : GfxFramebuffer} {s t : SharedState}

/-- After the pages are there, SERVERINFO is filled anew from zeroes. -/
theorem fill_mapped (fb : GfxFramebuffer) (s : SharedState) {a : Nat} (low : serverInfoVa ≤ a)
    (high : a < serverInfoVa + serverInfoSize) :
    fillServerInfo fb (s.mapZeroPages serverInfoVa 4).mem a = fillServerInfo fb (fun _ => 0) a := by
  refine fillServerInfo_congr fb ?_
  rw [mapZeroPages_mem]
  exact if_pos ⟨low, high⟩

theorem initializeServerInfo_tidy (tidy : Tidy fb s) {room : Nat → Bool}
    (respects : Respects fb s (.initializeServerInfo room)) :
    Tidy fb (w32kInitializeServerInfo fb room s) := by
  have attrPage : ∀ n ≤ 4, (s.mapZeroPages serverInfoVa n).mapped (gdiAttrVa / pageSize) =
      s.mapped (gdiAttrVa / pageSize) := by
    intro n few
    refine mapZeroPages_mapped s (Or.inr ?_)
    simp only [serverInfoVa, gdiAttrVa, pageSize]
    omega
  unfold w32kInitializeServerInfo
  have count : serverInfoSize / pageSize = 4 := rfl
  rw [count]
  rcases mapInfoPages_cases room s 4 with ⟨all, made⟩ | ⟨k, below, full, earlier, made⟩
  · rw [made]
    dsimp only
    have page := attrPage 4 le_rfl
    have rest := mapZeroPages_rest s serverInfoVa 4
    have fresh := fun a low high => @fill_mapped fb s a low high
    generalize s.mapZeroPages serverInfoVa 4 = t at page rest fresh
    have same : t.info = s.info := by rw [rest]
    have filled : ∀ m, some (t.info.getD (fillServerInfo fb t.mem)) = some m → ∀ a,
        serverInfoVa ≤ a → a < serverInfoVa + serverInfoSize →
        m a = fillServerInfo fb (fun _ => 0) a := by
      rintro m ⟨rfl⟩ a low high
      rw [same]
      cases before : s.info with
      | none => exact fresh a low high
      | some m₀ => exact tidy.filled m₀ before a low high
    have clear : ∀ i ∈ s.heads, ClearOfInfo i := by
      dsimp only [Respects] at respects
      split at respects
      · exact respects all
      · rename_i before
        exact tidy.clear before
    rw [rest] at filled ⊢
    exact { tidy with
      unmapped := fun published => page.trans (tidy.unmapped published)
      clear := fun _ => clear
      filled := filled
      kept := fun m here a low high =>
        (fresh a low high).trans (filled m here a low high).symm }
  · rw [made]
    dsimp only
    by_cases before : s.info = none
    · have page := attrPage k (by omega)
      have rest := mapZeroPages_rest s serverInfoVa k
      generalize s.mapZeroPages serverInfoVa k = t at page rest ⊢
      rw [rest]
      exact { tidy with
        unmapped := fun published => page.trans (tidy.unmapped published)
        clear := fun filled => absurd before filled
        filled := fun m here => absurd (before.symm.trans here) (Option.some_ne_none m).symm
        kept := fun m here => absurd (before.symm.trans here) (Option.some_ne_none m).symm }
    · dsimp only [Respects] at respects
      rw [if_neg before] at respects
      have none : k = 0 := by
        rcases respects with first | all
        · by_contra more
          rw [earlier 0 (by omega)] at first
          cases first
        · rw [all k below] at full
          cases full
      rw [none]
      exact tidy

theorem createUserProcess_tidy (tidy : Tidy fb s) {room : Bool} {frame : Memory}
    (respects : s.info = none) (made : psCreateUserProcess room frame s = some t) :
    Tidy fb t := by
  unfold psCreateUserProcess at made
  split at made
  · cases made
  · dsimp only at made
    cases made
    rw [mapZeroPages_rest _ userObjectArenaVa, mapZeroPages_rest _ userSharedTableVa,
      mapZeroPages_rest _ gdiAttrVa, mapZeroPages_rest _ gdiSharedTableVa]
    exact { tidy with
      attrNext := rfl
      unmapped := fun published => Bool.noConfusion published
      clear := fun filled => absurd respects filled
      filled := fun m here => absurd (respects.symm.trans here) (Option.some_ne_none m).symm
      kept := fun m here => absurd (respects.symm.trans here) (Option.some_ne_none m).symm }

/-- A head is written together with its entry, and nothing else is. -/
theorem handOut_some {index type : Nat} (made : s.handOut index type = some t) :
    t = { s with mem := t.mem, heads := s.heads ++ [index] } ∧
    ∀ b, (b < userObjectArenaVa + index * 0x200 ∨ userObjectArenaVa + index * 0x200 + 0x200 ≤ b) →
      (b < userSharedTableVa + index * 24 ∨ userSharedTableVa + index * 24 + 20 ≤ b) →
      t.mem b = s.mem b := by
  unfold SharedState.handOut at made
  dsimp only at made
  split at made
  · cases made
    refine ⟨rfl, ?_⟩
    intro b head entry
    simp only [storeEntry]
    rw [store_outside (by omega), store_outside (by omega), store_outside (by omega),
      store_outside (by omega), store_outside (by omega), store_outside (by omega),
      store_outside (by omega), fill_outside (by omega)]
  · cases made

/-- One more head, at an index that was not handed out and that is outside a filled
SERVERINFO. -/
theorem Tidy.add_head (tidy : Tidy fb s) {index windows objects : Nat} {m : Memory}
    {cursors : List CursorKey} (fresh : index ∉ s.heads)
    (place : (1 ≤ index ∧ index < windows) ∨ (200 ≤ index ∧ index < objects ∧ index < 512))
    (moreWindows : s.nextWindow ≤ windows ∧ windows ≤ 128) (moreObjects : s.nextObject ≤ objects)
    (clear : s.info ≠ none → ClearOfInfo index)
    (same : ClearOfInfo index → ∀ a, serverInfoVa ≤ a → a < serverInfoVa + serverInfoSize →
      m a = s.mem a) :
    Tidy fb { s with
      mem := m
      nextWindow := windows
      nextObject := objects
      cursors := cursors
      heads := s.heads ++ [index] } where
  windows := ⟨le_trans tidy.windows.1 moreWindows.1, moreWindows.2⟩
  objects := le_trans tidy.objects moreObjects
  heads := by
    intro i hi
    rcases List.mem_append.mp hi with hi | hi
    · have := tidy.heads i hi
      dsimp only
      omega
    · rw [List.mem_singleton.mp hi]
      exact place
  nodup := by
    rw [List.nodup_append]
    refine ⟨tidy.nodup, List.pairwise_singleton _ _, ?_⟩
    intro i hi j hj
    rw [List.mem_singleton.mp hj]
    rintro rfl
    exact fresh hi
  attrs := tidy.attrs
  attrNext := tidy.attrNext
  windowDc := tidy.windowDc
  unmapped := tidy.unmapped
  clear := by
    intro filled i hi
    rcases List.mem_append.mp hi with hi | hi
    · exact tidy.clear filled i hi
    · rw [List.mem_singleton.mp hi]
      exact clear filled
  filled := tidy.filled
  kept := by
    intro m₀ here a low high
    have filled : s.info ≠ none := by
      rw [show s.info = some m₀ from here]
      exact Option.some_ne_none m₀
    exact (same (clear filled) a low high).trans (tidy.kept m₀ here a low high)

/-- The writes of a head outside SERVERINFO and of its entry miss SERVERINFO. -/
theorem handOut_misses {index type : Nat} (made : s.handOut index type = some t)
    (small : index < 512) (clear : ClearOfInfo index) {a : Nat} (low : serverInfoVa ≤ a)
    (high : a < serverInfoVa + serverInfoSize) : t.mem a = s.mem a := by
  unfold ClearOfInfo at clear
  simp only [serverInfoVa, serverInfoSize] at low high
  refine (handOut_some made).2 a ?_ ?_
  · simp only [userObjectArenaVa]
    omega
  · simp only [userSharedTableVa]
    omega

theorem allocateObject_tidy (tidy : Tidy fb s) {type handle : Nat}
    (respects : s.info = none ∨ ClearOfInfo s.nextObject)
    (made : kiUserAllocateObject s type = some (handle, t)) : Tidy fb t := by
  unfold kiUserAllocateObject at made
  split at made
  · cases made
    exact tidy
  rename_i some_
  have small : s.nextObject < 512 := not_le.mp some_
  split at made
  · cases made
  rename_i u made'
  cases made
  have bound := tidy.windows
  have above := tidy.objects
  rw [(handOut_some made').1]
  refine tidy.add_head ?_ ?_ ?_ ?_ ?_ ?_
  · intro old
    have := tidy.heads _ old
    omega
  · exact Or.inr ⟨above, Nat.lt_succ_self _, small⟩
  · exact ⟨le_rfl, bound.2⟩
  · exact Nat.le_succ _
  · intro filled
    exact respects.resolve_left filled
  · intro clear a low high
    exact handOut_misses made' small clear low high

theorem findExistingCursorIcon_tidy (tidy : Tidy fb s) {module resource handle : Nat}
    {buffer : Option Nat}
    (respects : Respects fb s (.findExistingCursorIcon module resource buffer))
    (made : ntUserFindExistingCursorIcon s module resource buffer = some (handle, t)) :
    Tidy fb t := by
  unfold ntUserFindExistingCursorIcon at made
  dsimp only at made
  split at made
  · cases made
    exact tidy
  rename_i missing
  have clear : s.info = none ∨ ClearOfInfo s.nextObject := by
    rcases respects with unfilled | clear | ⟨c, cached, hit⟩
    · exact Or.inl unfilled
    · exact Or.inr clear
    · exact absurd (decide_eq_true hit) (List.find?_eq_none.mp missing c cached)
  split at made
  · cases made
  · rename_i handle' u allocated
    have next := allocateObject_tidy tidy clear allocated
    split at made
    · cases made
      exact ⟨next.windows, next.objects, next.heads, next.nodup, next.attrs, next.attrNext,
        next.windowDc, next.unmapped, next.clear, next.filled, next.kept⟩
    · cases made
      exact next

theorem publishWindowState_outside (m : Memory) (window : Nat) (args : WindowArgs) {b : Nat}
    (outside : b < window ∨ window + 0x200 ≤ b) : publishWindowState m window args b = m b := by
  unfold publishWindowState
  have parent : ∀ m' : Memory, m' b = m b → (if args.shell = true then
      store (store m' (window + 0x100) 8 args.parent) (window + 0x30) 4 (args.style ||| 0x10000000)
    else store m' (window + 0x100) 8 args.parent) b = m b := by
    intro m' same
    split
    · rw [store_outside (by omega), store_outside (by omega), same]
    · rw [store_outside (by omega), same]
  refine parent _ ?_
  cases args.cls with
  | none =>
    dsimp only
    rw [store_outside (by omega), store_outside (by omega), store_outside (by omega),
      store_outside (by omega)]
  | some cls =>
    dsimp only
    rw [store_outside (by omega), store_outside (by omega), store_outside (by omega),
      store_outside (by omega), store_outside (by omega)]

theorem createWindow_tidy (tidy : Tidy fb s) {args : WindowArgs} {handle : Nat}
    (made : ntUserCreateWindowEx s args = some (handle, t)) : Tidy fb t := by
  unfold ntUserCreateWindowEx at made
  split at made
  · cases made
    exact tidy
  rename_i some_
  have small : s.nextWindow < 128 := not_le.mp some_
  split at made
  · cases made
  rename_i u made'
  cases made
  have bound := tidy.windows
  have above := tidy.objects
  have clear : ClearOfInfo s.nextWindow := Or.inl (by omega)
  have misses := fun a low high => @handOut_misses _ _ _ _ made' (by omega) clear a low high
  rw [(handOut_some made').1]
  refine tidy.add_head ?_ ?_ ?_ ?_ ?_ ?_
  · intro old
    have := tidy.heads _ old
    omega
  · exact Or.inl ⟨bound.1, Nat.lt_succ_self _⟩
  · exact ⟨Nat.le_succ _, small⟩
  · exact le_rfl
  · exact fun _ => clear
  · intro _ a low high
    rw [publishWindowState_outside]
    · exact misses a low high
    · simp only [serverInfoVa] at low
      simp only [userObjectArenaVa]
      omega

/-- The first attribute block of a new table. -/
theorem createCompatibleDC_attrNext {gdi : GdiState} (first : gdi.attrNext = gdiAttrVa) :
    (ntGdiCreateCompatibleDC gdi).2.attrNext = gdiAttrVa + dcAttrSize := by
  have room : ¬ gdiAttrVa + gdiAttrSize < gdiAttrVa + dcAttrSize := by decide
  unfold ntGdiCreateCompatibleDC gdiAllocateAttr
  rw [first, if_neg room]
  dsimp only
  rcases gdiAllocate_cases { gdi with attrNext := gdiAttrVa + dcAttrSize } .dc gdiAttrVa with
    ⟨n, made⟩ | ⟨n, i, free, made⟩
  · rw [made]
  · rw [made]
    rfl

theorem createWindowDc_attrNext {gdi : GdiState} (first : gdi.attrNext = gdiAttrVa)
    (available : gfxAvailable fb = true) (hwnd : Nat) (x y width height : Int32) :
    (w32kCreateWindowDc fb gdi hwnd x y width height).2.attrNext = gdiAttrVa + dcAttrSize := by
  have room : ¬ gdiAttrVa + gdiAttrSize < gdiAttrVa + dcAttrSize := by decide
  unfold w32kCreateWindowDc gdiAllocateAttr
  rw [if_neg (by rw [available]; exact Bool.noConfusion), first, if_neg room]
  dsimp only
  rcases gdiAllocate_cases { gdi with attrNext := gdiAttrVa + dcAttrSize } .dc gdiAttrVa with
    ⟨n, made⟩ | ⟨n, i, free, made⟩
  · rw [made]
  · rw [made]
    rfl

/-- Without a cached device context, a window's is created. -/
theorem acquireWindowDc_uncached {gdi : GdiState} (empty : ∀ slot, gdi.windowDc slot = 0)
    (hwnd : Nat) (x y width height : Int32) :
    (w32kAcquireWindowDc fb gdi hwnd x y width height).1 =
      (w32kCreateWindowDc fb gdi hwnd x y width height).1 ∧
    (w32kAcquireWindowDc fb gdi hwnd x y width height).2.attrNext =
      (w32kCreateWindowDc fb gdi hwnd x y width height).2.attrNext ∧
    (gfxAvailable fb = false → (w32kAcquireWindowDc fb gdi hwnd x y width height).2 = gdi) := by
  unfold w32kAcquireWindowDc
  dsimp only
  rw [empty, if_pos rfl]
  dsimp only
  refine ⟨rfl, ?_, ?_⟩
  · split
    · rfl
    · rfl
  · intro unavailable
    unfold w32kCreateWindowDc
    rw [if_pos unavailable]
    rfl

/-- A creation that takes an attribute block records it. -/
theorem makeDc_takes {made : Nat × GdiState} {colors : List (Nat × Nat)} {address : Nat → Nat}
    {handle : Nat} (took : made.2.attrNext ≠ s.gdi.attrNext)
    (done : s.makeDc made colors address = some (handle, t)) :
    s.canWrite s.gdi.attrNext dcAttrSize = true ∧ t.attrs = s.attrs ++ [s.gdi.attrNext] ∧
      t.published = s.published := by
  unfold SharedState.makeDc at done
  dsimp only at done
  rw [if_neg took] at done
  split at done
  · cases done
  rename_i writable
  rw [Bool.not_eq_false] at writable
  split at done
  · cases done
    exact ⟨writable, rfl, rfl⟩
  · split at done
    · cases done
    · cases done
      exact ⟨writable, rfl, rfl⟩

/-- Until the range is published the attribute arena is not mapped. -/
theorem makeDc_unpublished (tidy : Tidy fb s) (unpublished : s.published = false)
    {made : Nat × GdiState} {colors : List (Nat × Nat)} {address : Nat → Nat} {handle : Nat} (took : made.2.attrNext ≠ s.gdi.attrNext) :
    s.makeDc made colors address ≠ some (handle, t) := by
  intro done
  have writable := (makeDc_takes took done).1
  rw [tidy.attrNext] at writable
  unfold SharedState.canWrite at writable
  rw [tidy.unmapped unpublished] at writable
  cases writable

theorem attr_moved (tidy : Tidy fb s) {made : Nat × GdiState}
    (moved : made.2.attrNext = gdiAttrVa + dcAttrSize) : made.2.attrNext ≠ s.gdi.attrNext := by
  rw [moved, tidy.attrNext]
  decide

theorem createCompatibleDC_moved (tidy : Tidy fb s) :
    (ntGdiCreateCompatibleDC s.gdi).2.attrNext ≠ s.gdi.attrNext :=
  attr_moved tidy (createCompatibleDC_attrNext tidy.attrNext)

theorem acquireWindowDc_moved (tidy : Tidy fb s) (available : gfxAvailable fb = true) (hwnd : Nat)
    (x y width height : Int32) :
    (w32kAcquireWindowDc fb s.gdi hwnd x y width height).2.attrNext ≠ s.gdi.attrNext := by
  refine attr_moved tidy ?_
  rw [(acquireWindowDc_uncached tidy.windowDc hwnd x y width height).2.1]
  exact createWindowDc_attrNext tidy.attrNext available hwnd x y width height

theorem call_tidy (tidy : Tidy fb s) {c : SharedCall} (respects : Respects fb s c) (made : s.call fb c = some t) : Tidy fb t := by
  cases c with
  | initializeServerInfo room =>
    cases made
    exact initializeServerInfo_tidy tidy respects
  | createUserProcess room frame => exact createUserProcess_tidy tidy respects made
  | createWindow args =>
    obtain ⟨⟨handle, u⟩, done, rfl⟩ := Option.map_eq_some_iff.mp made
    exact createWindow_tidy tidy done
  | findExistingCursorIcon module resource buffer =>
    obtain ⟨⟨handle, u⟩, done, rfl⟩ := Option.map_eq_some_iff.mp made
    exact findExistingCursorIcon_tidy tidy respects done
  | createAcceleratorTable =>
    obtain ⟨⟨handle, u⟩, done, rfl⟩ := Option.map_eq_some_iff.mp made
    exact allocateObject_tidy tidy respects done
  | createCompatibleDC address =>
    dsimp only [SharedState.call] at made
    obtain ⟨⟨handle, u⟩, done, rfl⟩ := Option.map_eq_some_iff.mp made
    have unpublished : s.published = false := respects
    refine absurd done (makeDc_unpublished tidy unpublished ?_)
    exact createCompatibleDC_moved tidy
  | acquireWindowDc hwnd x y width height address =>
    obtain ⟨⟨handle, u⟩, done, rfl⟩ := Option.map_eq_some_iff.mp made
    cases available : gfxAvailable fb with
    | true =>
      have unpublished : s.published = false := respects.resolve_right (by simp [available])
      exact absurd done (makeDc_unpublished tidy unpublished
        (acquireWindowDc_moved tidy available hwnd x y width height))
    | false =>
      have same := (acquireWindowDc_uncached tidy.windowDc hwnd x y width height).2.2 available
      unfold SharedState.makeDc at done
      rw [same] at done
      dsimp only at done
      rw [if_pos rfl] at done
      cases done
      exact tidy

/-- An object at an index among the pages of a filled SERVERINFO. -/
theorem allocateObject_breaks {type handle : Nat}
    (filled : s.info ≠ none) (inside : ¬ ClearOfInfo s.nextObject)
    (made : kiUserAllocateObject s type = some (handle, t)) :
    ¬ (t.info ≠ none → ∀ i ∈ t.heads, ClearOfInfo i) := by
  intro clear
  unfold ClearOfInfo at inside
  unfold kiUserAllocateObject at made
  split at made
  · rename_i full
    simp only [userObjectSlots, userObjectArenaSize] at full
    omega
  split at made
  · cases made
  rename_i u made'
  cases made
  rw [(handOut_some made').1] at clear
  exact inside (clear filled _ (List.mem_append_right _ List.mem_cons_self))

theorem createUserProcess_count {room : Bool} {frame : Memory}
    (made : psCreateUserProcess room frame s = some t) :
    t.mem (serverInfoVa + 10) = 0 ∧ t.info = s.info := by
  unfold psCreateUserProcess at made
  split at made
  · cases made
  · dsimp only at made
    cases made
    constructor
    · dsimp only
      rw [store_outside (by decide), store_outside (by decide), overlay_outside (by decide),
        mapZeroPages_mem, if_pos (by decide)]
    · rw [mapZeroPages_rest _ userObjectArenaVa, mapZeroPages_rest _ userSharedTableVa,
        mapZeroPages_rest _ gdiAttrVa, mapZeroPages_rest _ gdiSharedTableVa]

/-- A filled SERVERINFO whose handle count was wiped. -/
theorem Tidy.count_wiped (tidy : Tidy fb s) (filled : s.info ≠ none)
    (same : t.info = s.info) (wiped : t.mem (serverInfoVa + 10) = 0) : ¬ InfoKept t := by
  intro kept
  obtain ⟨m, here⟩ := Option.ne_none_iff_exists'.mp filled
  have now := kept m (same.trans here) (serverInfoVa + 10) (by decide) (by decide)
  have before := tidy.filled m here (serverInfoVa + 10) (by decide) (by decide)
  rw [wiped, before, fillServerInfo_count] at now
  exact absurd now (by decide)

theorem initializeServerInfo_breaks (tidy : Tidy fb s) {room : Nat → Bool}
    (wild : ¬ Respects fb s (.initializeServerInfo room)) :
    ¬ Partitioned (w32kInitializeServerInfo fb room s) := by
  intro parts
  dsimp only [Respects] at wild
  have count : serverInfoSize / pageSize = 4 := rfl
  unfold w32kInitializeServerInfo at parts
  rw [count] at parts
  rcases mapInfoPages_cases room s 4 with ⟨all, made⟩ | ⟨k, below, full, earlier, made⟩
  · rw [made] at parts
    dsimp only at parts
    have heads : (s.mapZeroPages serverInfoVa 4).heads = s.heads := by rw [mapZeroPages_rest]
    have clear := parts.clear (by simp)
    dsimp only at clear
    rw [heads] at clear
    refine wild ?_
    split
    · exact fun _ => clear
    · exact Or.inr all
  · rw [made] at parts
    dsimp only at parts
    by_cases before : s.info = none
    · rw [if_pos before] at wild
      refine wild fun all => ?_
      rw [all k below] at full
      cases full
    · rw [if_neg before, not_or] at wild
      have first : 0 < k := by
        rcases Nat.eq_zero_or_pos k with rfl | more
        · exact absurd full wild.1
        · exact more
      refine tidy.count_wiped before (by rw [mapZeroPages_rest]) ?_ parts.2.2
      rw [mapZeroPages_mem, if_pos]
      simp only [serverInfoVa, pageSize]
      omega

theorem call_breaks (tidy : Tidy fb s) {c : SharedCall} (wild : ¬ Respects fb s c) (made : s.call fb c = some t) : ¬ Partitioned t := by
  intro parts
  cases c with
  | initializeServerInfo room =>
    cases made
    exact initializeServerInfo_breaks tidy wild parts
  | createUserProcess room frame =>
    have wiped := createUserProcess_count made
    exact tidy.count_wiped wild wiped.2 wiped.1 parts.2.2
  | createWindow args => exact wild trivial
  | findExistingCursorIcon module resource buffer =>
    obtain ⟨⟨handle, u⟩, done, rfl⟩ := Option.map_eq_some_iff.mp made
    dsimp only [Respects] at wild
    push Not at wild
    obtain ⟨filled, inside, uncached⟩ := wild
    unfold ntUserFindExistingCursorIcon at done
    dsimp only at done
    split at done
    · rename_i c found
      have matches_ := List.find?_some found
      have hit := of_decide_eq_true matches_
      exact uncached c (List.mem_of_find?_eq_some found) hit.1 hit.2
    split at done
    · cases done
    · rename_i handle' v allocated
      refine allocateObject_breaks filled inside allocated ?_
      split at done
      · cases done
        exact parts.clear
      · cases done
        exact parts.clear
  | createAcceleratorTable =>
    obtain ⟨⟨handle, u⟩, done, rfl⟩ := Option.map_eq_some_iff.mp made
    dsimp only [Respects] at wild
    rw [not_or] at wild
    exact allocateObject_breaks wild.1 wild.2 done parts.clear
  | createCompatibleDC address =>
    dsimp only [SharedState.call] at made
    obtain ⟨⟨handle, u⟩, done, rfl⟩ := Option.map_eq_some_iff.mp made
    obtain ⟨_, attrs, published⟩ := makeDc_takes (createCompatibleDC_moved tidy) done
    have pair : u.published = true := published.trans (Bool.not_eq_false _ ▸ wild)
    refine parts.attr_ne pair ?_
    dsimp only
    rw [attrs, tidy.attrNext]
    exact List.mem_append_right _ List.mem_cons_self
  | acquireWindowDc hwnd x y width height address =>
    obtain ⟨⟨handle, u⟩, done, rfl⟩ := Option.map_eq_some_iff.mp made
    dsimp only [Respects] at wild
    rw [not_or, Bool.not_eq_false, Bool.not_eq_false] at wild
    obtain ⟨_, attrs, published⟩ :=
      makeDc_takes (acquireWindowDc_moved tidy wild.2 hwnd x y width height) done
    refine parts.attr_ne (published.trans wild.1) ?_
    dsimp only
    rw [attrs, tidy.attrNext]
    exact List.mem_append_right _ List.mem_cons_self

end Steps

/-- The kernel before the first of these calls: none of the shared pages is mapped. -/
structure SharedStart (s : SharedState) : Prop where
  nextWindow : s.nextWindow = 1
  nextObject : s.nextObject = 200
  gdi : s.gdi = bootGdi
  heads : s.heads = []
  attrs : s.attrs = []
  published : s.published = false
  info : s.info = none
  unmapped : ∀ p, gdiSharedTableVa / pageSize ≤ p → p < 0x1400 → s.mapped p = false

def RespectfulStep (fb : GfxFramebuffer) (s : SharedState) (c : SharedCall) (t : SharedState) :
    Prop :=
  Respects fb s c ∧ s.call fb c = some t

theorem SharedStart.tidy {fb : GfxFramebuffer} {s : SharedState} (start : SharedStart s) :
    Tidy fb s where
  windows := by
    rw [start.nextWindow]
    decide
  objects := le_of_eq start.nextObject.symm
  heads := by simp [start.heads]
  nodup := by simp [start.heads]
  attrs := start.attrs
  attrNext := by
    rw [start.gdi]
    rfl
  windowDc := by
    intro slot
    rw [start.gdi]
    rfl
  unmapped := fun _ => start.unmapped _ (by decide) (by decide)
  clear := fun filled => absurd start.info filled
  filled := fun m here => absurd (start.info.symm.trans here) (Option.some_ne_none m).symm
  kept := fun m here => absurd (start.info.symm.trans here) (Option.some_ne_none m).symm

theorem reachable_tidy {fb : GfxFramebuffer} {s : SharedState}
    (run : Runs.Reachable SharedStart (RespectfulStep fb) s) : Tidy fb s := by
  have start : ∀ s, SharedStart s → Tidy fb s := fun _ start => start.tidy
  have kept : ∀ s c t, Tidy fb s → RespectfulStep fb s c t → Tidy fb t :=
    fun _ _ _ tidy step => call_tidy tidy step.1 step.2
  exact run.invariant start kept

/-- The shared memory is partitioned in every run of calls that respect the parts,
and a call that does not breaks the partition at once. -/
theorem shared_memory_partitioned (fb : GfxFramebuffer) :
    (∀ s, Runs.Reachable SharedStart (RespectfulStep fb) s → Partitioned s) ∧
    ∀ s c t, Runs.Reachable SharedStart (RespectfulStep fb) s → ¬ Respects fb s c →
      s.call fb c = some t → ¬ Partitioned t := by
  constructor
  · intro s run
    exact (reachable_tidy run).partitioned
  · intro s c t run wild made
    exact call_breaks (reachable_tidy run) wild made

/-- No screen, nothing mapped, nothing handed out. -/
def blankShared : SharedState :=
  ⟨fun _ => 0, fun _ => false, 1, 200, [], bootGdi, [], [], false, none⟩

def noScreen : GfxFramebuffer := ⟨false, false, 0, 0, 0, 0, 0, 0⟩

theorem blankShared_start : SharedStart blankShared :=
  ⟨rfl, rfl, rfl, rfl, rfl, rfl, rfl, fun _ _ _ => rfl⟩

/-- SERVERINFO is filled before the process exists. -/
def infoFilled : SharedState := w32kInitializeServerInfo noScreen (fun _ => true) blankShared

theorem infoFilled_wild :
    ¬ Respects noScreen infoFilled (.createUserProcess true fun _ => 0) :=
  fun unfilled => absurd unfilled (Option.some_ne_none _)

theorem infoFilled_reachable :
    Runs.Reachable SharedStart (RespectfulStep noScreen) infoFilled := by
  have start : Runs.Reachable SharedStart (RespectfulStep noScreen) blankShared :=
    .of_initial blankShared_start
  refine start.next (l := .initializeServerInfo fun _ => true) ⟨?_, rfl⟩
  intro _ i hi
  cases hi

/-- The order of `KiSystemStartup`: the process is created over SERVERINFO. -/
theorem process_created_over_info :
    ∃ t, infoFilled.call noScreen (.createUserProcess true fun _ => 0) = some t ∧
      ¬ Partitioned t := by
  refine ⟨_, rfl, ?_⟩
  exact call_breaks (reachable_tidy infoFilled_reachable) infoFilled_wild rfl

theorem shared_memory_partitioned_info :
    Partitioned infoFilled ∧
    ∀ t, infoFilled.call noScreen (.createUserProcess true fun _ => 0) = some t →
      ¬ Partitioned t := by
  refine ⟨(shared_memory_partitioned noScreen).1 _ infoFilled_reachable, ?_⟩
  intro t made
  exact (shared_memory_partitioned noScreen).2 _ _ t infoFilled_reachable infoFilled_wild made

end W32k
