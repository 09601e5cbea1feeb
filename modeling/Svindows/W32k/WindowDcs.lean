import Mathlib.Data.Finset.Card
import Mathlib.Order.Interval.Finset.Nat
import Svindows.Lib.Runs
import Svindows.W32k.Objects

/-!
# The device contexts of windows

`W32kAcquireWindowDc` keeps one device context for each of 64 slots, so that a
repaint does not take a new one. All windows from index 64 on share slot 0, and a
window that takes the slot over leaves the device context of the other in the
table. What a run of calls makes and keeps is counted here by an abstract cache,
which the table follows as long as the attribute arena lasts.
-/

namespace W32k

theorem ring_next {n k : Nat} (low : 0 < n) (high : n < gdiMaxObjects) :
    ((if gdiMaxObjects ≤ n + 1 then 1 else n + 1) + k - 1) % 511 + 1 = (n + (k + 1) - 1) % 511 + 1 := by
  have objects : gdiMaxObjects = 512 := rfl
  split <;> omega

/-- The search fails only if every slot it passes is taken; the slots it passes are
those that follow the search position, and it stays among the 511 usable ones. -/
theorem gdiAllocateLoop_ring (type : GdiType) (userInfo tries : Nat) (s : GdiState)
    (low : 0 < s.nextIndex) (high : s.nextIndex < gdiMaxObjects) :
    (∀ k < tries, (s.objects ((s.nextIndex + k - 1) % 511 + 1)).live = true) ∨
    ∃ n i, (0 < n ∧ n < gdiMaxObjects) ∧ (0 < i ∧ i < gdiMaxObjects) ∧
      (s.objects i).live = false ∧
      gdiAllocateLoop type userInfo tries s = (some i,
        ({ s with nextIndex := n }.setObject i ⟨true, type.code, .zero type⟩).setCell i
          ⟨some i, processClientId, type.code, type.code, userInfo⟩) := by
  have objects : gdiMaxObjects = 512 := rfl
  induction tries generalizing s with
  | zero => exact Or.inl fun k hk => absurd hk (Nat.not_lt_zero k)
  | succ tries ih =>
    have next : 0 < (if gdiMaxObjects ≤ s.nextIndex + 1 then 1 else s.nextIndex + 1) ∧
        (if gdiMaxObjects ≤ s.nextIndex + 1 then 1 else s.nextIndex + 1) < gdiMaxObjects := by
      split <;> omega
    rw [gdiAllocateLoop_succ]
    by_cases taken : (s.objects s.nextIndex).live = true
    · rw [if_pos (Or.inr taken)]
      rcases ih { s with
          nextIndex := if gdiMaxObjects ≤ s.nextIndex + 1 then 1 else s.nextIndex + 1 }
          next.1 next.2 with all | found
      · refine Or.inl fun k hk => ?_
        cases k with
        | zero =>
          have here : (s.nextIndex + 0 - 1) % 511 + 1 = s.nextIndex := by omega
          rw [here]
          exact taken
        | succ k =>
          have there := all k (by omega)
          rwa [ring_next low high] at there
      · exact Or.inr found
    · rw [if_neg (by rintro (zero | live) <;> [omega; exact taken live])]
      exact Or.inr ⟨_, s.nextIndex, next, ⟨low, high⟩, by simpa using taken, rfl⟩

/-- A free slot is found wherever the search starts. -/
theorem gdiAllocate_free {s : GdiState} (type : GdiType) (userInfo : Nat)
    (low : 0 < s.nextIndex) (high : s.nextIndex < gdiMaxObjects)
    {i : Nat} (some_ : 0 < i) (fits : i < gdiMaxObjects) (free : (s.objects i).live = false) :
    ∃ n i, (0 < n ∧ n < gdiMaxObjects) ∧ (0 < i ∧ i < gdiMaxObjects) ∧
      (s.objects i).live = false ∧
      gdiAllocate s type userInfo = (some i,
        ({ s with nextIndex := n }.setObject i ⟨true, type.code, .zero type⟩).setCell i
          ⟨some i, processClientId, type.code, type.code, userInfo⟩) := by
  have objects : gdiMaxObjects = 512 := rfl
  rcases gdiAllocateLoop_ring type userInfo gdiMaxObjects s low high with all | found
  · have passed := all ((i + 511 - s.nextIndex) % 511) (by omega)
    have there : (s.nextIndex + (i + 511 - s.nextIndex) % 511 - 1) % 511 + 1 = i := by omega
    rw [there, free] at passed
    cases passed
  · exact found

inductive DcCall where
  | acquire (hwnd : Nat) (x y width height : Int32)
  | destroy (hwnd : Nat)

def DcCall.next (fb : GfxFramebuffer) (s : GdiState) : DcCall → GdiState
  | .acquire hwnd x y width height => (w32kAcquireWindowDc fb s hwnd x y width height).2
  | .destroy hwnd => w32kDestroyWindowDc s hwnd

/-- The slots that hold a live device context. -/
def liveDcs (s : GdiState) : Finset Nat :=
  (Finset.range gdiMaxObjects).filter fun i =>
    (s.objects i).live = true ∧ (s.objects i).body.type = .dc

/-- The device context draws on the window, at the given origin and clip. -/
structure BoundTo (dc : W32kDc) (hwnd : Nat) (x y width height : Int32) : Prop where
  hwnd : dc.hwnd = hwnd
  origin : dc.orgX = x ∧ dc.orgY = y
  corner : dc.clipX = x ∧ dc.clipY = y
  size : dc.clipW = (if width < 0 then 0 else width) ∧ dc.clipH = if height < 0 then 0 else height

/-- An acquisition returns a live device context for the window, if there is a framebuffer. -/
def Served (fb : GfxFramebuffer) (s : GdiState) : DcCall → Prop
  | .acquire hwnd x y width height => gfxAvailable fb = true →
      ∃ i dc, dcFromHandle (w32kAcquireWindowDc fb s hwnd x y width height).2
          (w32kAcquireWindowDc fb s hwnd x y width height).1 = some (i, dc) ∧
        BoundTo dc hwnd x y width height
  | .destroy _ => True

/-- The call is served and leaves at most one live device context for each slot of the cache. -/
def KeepsDcs (fb : GfxFramebuffer) (s : GdiState) (call : DcCall) : Prop :=
  Served fb s call ∧ (liveDcs (call.next fb s)).card ≤ w32kDcCache

/-- Whose device context each slot of the cache holds, how many were made so far,
and how many of them are still live. -/
structure WindowCache where
  owner : Nat → Option Nat
  made : Nat
  kept : Nat

def emptyCache : WindowCache := ⟨fun _ => none, 0, 0⟩

/-- The slot of the cache that `W32kAcquireWindowDc` looks at. -/
def cacheSlot (hwnd : Nat) : Nat := if w32kDcCache ≤ hwnd % 0x10000 then 0 else hwnd % 0x10000

/-- An acquisition makes a device context unless the slot is the window's own already. -/
def WindowCache.next (c : WindowCache) : DcCall → WindowCache
  | .acquire hwnd _ _ _ _ =>
    if c.owner (cacheSlot hwnd) = some hwnd then c
    else ⟨Function.update c.owner (cacheSlot hwnd) (some hwnd), c.made + 1, c.kept + 1⟩
  | .destroy hwnd =>
    if w32kDcCache ≤ hwnd % 0x10000 ∨ c.owner (hwnd % 0x10000) = none then c
    else ⟨Function.update c.owner (hwnd % 0x10000) none, c.made, c.kept - 1⟩

/-- After the call, at most 128 device contexts were made and at most 64 are live. -/
def WindowCache.Fits (c : WindowCache) (call : DcCall) : Prop :=
  (c.next call).made ≤ gdiAttrSize / dcAttrSize ∧ (c.next call).kept ≤ w32kDcCache

@[simp] theorem gdiHandle_dc (i : Nat) : gdiHandle .dc i = 0x10000 + i := rfl

theorem gdiObject_handle {s : GdiState} {i : Nat} (some_ : 0 < i) (fits : i < gdiMaxObjects)
    (live : (s.objects i).live = true) (upper : (s.objects i).upper = 1)
    (type : (s.objects i).body.type = .dc) :
    gdiObject s (gdiHandle .dc i) (some .dc) = some i := by
  have objects : gdiMaxObjects = 512 := rfl
  have index : (0x10000 + i) % 0x10000 = i := by omega
  have high : (0x10000 + i) / 0x10000 % 0x10000 = 1 := by omega
  simp only [gdiObject, gdiHandle_dc, index, high, live, upper, type]
  rw [if_neg (by omega), if_neg (by simp), if_neg (by simp)]

theorem dcFromHandle_live {s : GdiState} {i : Nat} {dc : W32kDc} (some_ : 0 < i)
    (fits : i < gdiMaxObjects) (upper : (s.objects i).upper = 1) (live : s.LiveDc i dc) :
    dcFromHandle s (gdiHandle .dc i) = some (i, dc) := by
  have type : (s.objects i).body.type = .dc := by rw [live.2]; rfl
  simp only [dcFromHandle, gdiObject_handle some_ fits live.1 upper type, live.2]

/-- The device context that `W32kCreateWindowDc` fills in. -/
def windowDcAt (fb : GfxFramebuffer) (i hwnd : Nat) (x y width height : Int32) : W32kDc :=
  { zeroDc with
    surface := some (.screen i)
    screenSurface := screenSurface fb
    hwnd := hwnd
    orgX := x
    orgY := y
    clipX := x
    clipY := y
    clipW := if width < 0 then 0 else width
    clipH := if height < 0 then 0 else height }

theorem windowDcAt_bound (fb : GfxFramebuffer) (i hwnd : Nat) (x y width height : Int32) :
    BoundTo (windowDcAt fb i hwnd x y width height) hwnd x y width height :=
  ⟨rfl, ⟨rfl, rfl⟩, ⟨rfl, rfl⟩, ⟨rfl, rfl⟩⟩

/-- The device context with the geometry that `W32kAcquireWindowDc` refreshes. -/
def W32kDc.movedTo (dc : W32kDc) (x y width height : Int32) : W32kDc :=
  { dc with
    orgX := x
    orgY := y
    clipX := x
    clipY := y
    clipW := if width < 0 then 0 else width
    clipH := if height < 0 then 0 else height }

theorem W32kDc.movedTo_bound (dc : W32kDc) (x y width height : Int32) :
    BoundTo (dc.movedTo x y width height) dc.hwnd x y width height :=
  ⟨rfl, ⟨rfl, rfl⟩, ⟨rfl, rfl⟩, ⟨rfl, rfl⟩⟩

/-- What a call changes in the table: slot `i` is filled with `dc`, the search moves
to `n` and the attribute arena to `attr`. -/
structure Filled (s t : GdiState) (i attr : Nat) (dc : W32kDc) : Prop where
  low : 0 < t.nextIndex
  high : t.nextIndex < gdiMaxObjects
  some_ : 0 < i
  fits : i < gdiMaxObjects
  free : (s.objects i).live = false
  object : t.objects = Function.update s.objects i ⟨true, 1, .dc dc⟩
  attr : t.attrNext = attr
  windowDc : t.windowDc = s.windowDc

theorem w32kCreateWindowDc_filled {fb : GfxFramebuffer} {s : GdiState}
    (available : gfxAvailable fb = true) (low : 0 < s.nextIndex)
    (high : s.nextIndex < gdiMaxObjects) {j : Nat} (some_ : 0 < j) (fits : j < gdiMaxObjects)
    (free : (s.objects j).live = false)
    (room : s.attrNext + dcAttrSize ≤ gdiAttrVa + gdiAttrSize) (hwnd : Nat)
    (x y width height : Int32) :
    ∃ i t, w32kCreateWindowDc fb s hwnd x y width height = (gdiHandle .dc i, t) ∧
      Filled s t i (s.attrNext + dcAttrSize) (windowDcAt fb i hwnd x y width height) := by
  have attr : gdiAllocateAttr s = (some s.attrNext, { s with attrNext := s.attrNext + dcAttrSize }) := by
    rw [gdiAllocateAttr, if_neg (Nat.not_lt.mpr room)]
  obtain ⟨n, i, position, index, unused, allocated⟩ :=
    @gdiAllocate_free { s with attrNext := s.attrNext + dcAttrSize } .dc s.attrNext low high j some_
      fits free
  refine ⟨i, (gdiAllocate { s with attrNext := s.attrNext + dcAttrSize } .dc s.attrNext).2.setBody i
    (.dc (windowDcAt fb i hwnd x y width height)), ?_, ?_⟩
  · simp only [w32kCreateWindowDc, available, Bool.true_eq_false, if_false, attr, allocated]
    rfl
  · rw [allocated]
    refine ⟨position.1, position.2, index.1, index.2, unused, ?_, rfl, rfl⟩
    simp only [GdiState.setBody, GdiState.setObject, GdiState.setCell, Function.update_self,
      Function.update_idem]
    rfl

theorem w32kCreateWindowDc_exhausted {s : GdiState}
    (full : gdiAttrVa + gdiAttrSize < s.attrNext + dcAttrSize) (fb : GfxFramebuffer) (hwnd : Nat)
    (x y width height : Int32) : w32kCreateWindowDc fb s hwnd x y width height = (0, s) := by
  simp only [w32kCreateWindowDc, gdiAllocateAttr, if_pos full, ite_self]

theorem acquire_hit {s : GdiState} {hwnd i : Nat} {dc : W32kDc}
    (cached : s.windowDc (cacheSlot hwnd) = gdiHandle .dc i)
    (found : dcFromHandle s (gdiHandle .dc i) = some (i, dc)) (own : dc.hwnd = hwnd)
    (fb : GfxFramebuffer) (x y width height : Int32) :
    w32kAcquireWindowDc fb s hwnd x y width height =
      (gdiHandle .dc i, s.setBody i (.dc (dc.movedTo x y width height))) := by
  have nonzero : ¬ gdiHandle .dc i = 0 := by rw [gdiHandle_dc]; omega
  rw [cacheSlot] at cached
  simp only [w32kAcquireWindowDc, cached, if_neg nonzero, found, if_pos own]
  rfl

theorem acquire_miss {s : GdiState} {hwnd : Nat}
    (other : ∀ i dc, s.windowDc (cacheSlot hwnd) ≠ 0 →
      dcFromHandle s (s.windowDc (cacheSlot hwnd)) = some (i, dc) → dc.hwnd ≠ hwnd)
    (fb : GfxFramebuffer) (x y width height : Int32) :
    w32kAcquireWindowDc fb s hwnd x y width height =
      ((w32kCreateWindowDc fb s hwnd x y width height).1,
        if (w32kCreateWindowDc fb s hwnd x y width height).1 = 0 then
          (w32kCreateWindowDc fb s hwnd x y width height).2
        else { (w32kCreateWindowDc fb s hwnd x y width height).2 with
          windowDc := Function.update (w32kCreateWindowDc fb s hwnd x y width height).2.windowDc
            (cacheSlot hwnd) (w32kCreateWindowDc fb s hwnd x y width height).1 }) := by
  simp only [cacheSlot] at other ⊢
  simp only [w32kAcquireWindowDc]
  generalize (if w32kDcCache ≤ hwnd % 0x10000 then 0 else hwnd % 0x10000) = slot at other ⊢
  split
  · rfl
  · rename_i i dc found
    split at found
    · cases found
    · rename_i nonzero
      rw [if_neg (other i dc nonzero found)]

/-- The table holds what the cache counts. -/
structure Tracks (s : GdiState) (c : WindowCache) : Prop where
  low : 0 < s.nextIndex
  high : s.nextIndex < gdiMaxObjects
  attr : s.attrNext = gdiAttrVa + c.made * dcAttrSize
  kept : (liveDcs s).card = c.kept
  dcs : ∀ i, (s.objects i).live = true →
    (0 < i ∧ i < gdiMaxObjects) ∧ (s.objects i).upper = 1 ∧ (s.objects i).body.type = .dc
  empty : ∀ k, c.owner k = none → s.windowDc k = 0
  held : ∀ k hwnd, c.owner k = some hwnd →
    ∃ i dc, s.windowDc k = gdiHandle .dc i ∧ s.LiveDc i dc ∧ dc.hwnd = hwnd
  apart : ∀ k k', s.windowDc k ≠ 0 → s.windowDc k = s.windowDc k' → k = k'

theorem mem_liveDcs {s : GdiState} {i : Nat} : i ∈ liveDcs s ↔
    i < gdiMaxObjects ∧ (s.objects i).live = true ∧ (s.objects i).body.type = .dc := by
  simp [liveDcs]

theorem boot_tracks : Tracks bootGdi emptyCache where
  low := Nat.one_pos
  high := by decide
  attr := rfl
  kept := by
    refine Finset.card_eq_zero.mpr (Finset.eq_empty_of_forall_notMem fun i member => ?_)
    have live : false = true := (mem_liveDcs.mp member).2.1
    cases live
  dcs i live := Bool.noConfusion live
  empty _ _ := rfl
  held _ _ owned := nomatch owned
  apart _ _ nonzero := absurd rfl nonzero

section

variable {fb : GfxFramebuffer} {s : GdiState} {c : WindowCache}

theorem Tracks.found (tracks : Tracks s c) {k hwnd : Nat} (owned : c.owner k = some hwnd) :
    ∃ i dc, s.windowDc k = gdiHandle .dc i ∧ (0 < i ∧ i < gdiMaxObjects) ∧ s.LiveDc i dc ∧
      dc.hwnd = hwnd ∧ dcFromHandle s (gdiHandle .dc i) = some (i, dc) := by
  obtain ⟨i, dc, cached, live, own⟩ := tracks.held k hwnd owned
  obtain ⟨index, upper, -⟩ := tracks.dcs i live.1
  exact ⟨i, dc, cached, index, live, own, dcFromHandle_live index.1 index.2 upper live⟩

/-- Fewer live device contexts than slots leave a free one. -/
theorem Tracks.free (tracks : Tracks s c) (few : c.kept < 511) :
    ∃ i, 0 < i ∧ i < gdiMaxObjects ∧ (s.objects i).live = false := by
  by_contra none
  push Not at none
  have all : Finset.Ico 1 gdiMaxObjects ⊆ liveDcs s := by
    intro i member
    obtain ⟨some_, fits⟩ := Finset.mem_Ico.mp member
    have live : (s.objects i).live = true := by simpa using none i some_ fits
    exact mem_liveDcs.mpr ⟨fits, live, (tracks.dcs i live).2.2⟩
  have card := Finset.card_le_card all
  rw [Nat.card_Ico, tracks.kept] at card
  have objects : gdiMaxObjects = 512 := rfl
  omega

/-- A slot of the cache that is in use holds the handle of a live device context. -/
theorem Tracks.of_cached (tracks : Tracks s c) {k : Nat} (nonzero : s.windowDc k ≠ 0) :
    ∃ i, s.windowDc k = gdiHandle .dc i ∧ (s.objects i).live = true := by
  cases owned : c.owner k with
  | none => exact absurd (tracks.empty k owned) nonzero
  | some hwnd =>
    obtain ⟨i, dc, cached, live, -⟩ := tracks.held k hwnd owned
    exact ⟨i, cached, live.1⟩

theorem gdiHandle_dc_inj {i j : Nat} (same : gdiHandle .dc i = gdiHandle .dc j) : i = j := by
  simp only [gdiHandle_dc] at same
  omega

/-- A new geometry leaves the books as they are. -/
theorem Tracks.moved (tracks : Tracks s c) {i : Nat} {dc dc' : W32kDc} (live : s.LiveDc i dc)
    (own : dc'.hwnd = dc.hwnd) : Tracks (s.setBody i (.dc dc')) c := by
  have same : ∀ j, ((s.setBody i (.dc dc')).objects j).live = (s.objects j).live ∧
      ((s.setBody i (.dc dc')).objects j).upper = (s.objects j).upper ∧
      ((s.setBody i (.dc dc')).objects j).body.type = (s.objects j).body.type := by
    intro j
    by_cases here : j = i
    · subst here
      simp [GdiState.setBody, GdiState.setObject, GdiBody.type, live.2]
    · simp [GdiState.setBody, GdiState.setObject, Function.update_of_ne here]
  refine ⟨tracks.low, tracks.high, tracks.attr, ?_, ?_, tracks.empty, ?_, tracks.apart⟩
  · have members : liveDcs (s.setBody i (.dc dc')) = liveDcs s := by
      ext j
      rw [mem_liveDcs, mem_liveDcs, (same j).1, (same j).2.2]
    rw [members, tracks.kept]
  · intro j alive
    rw [(same j).1] at alive
    rw [(same j).2.1, (same j).2.2]
    exact tracks.dcs j alive
  · intro k hwnd owned
    obtain ⟨j, old, cached, there, bound⟩ := tracks.held k hwnd owned
    by_cases here : j = i
    · subst here
      have old_eq : old = dc := GdiBody.dc.inj (there.2.symm.trans live.2)
      refine ⟨j, dc', cached, ⟨(same j).1.trans live.1, ?_⟩, ?_⟩
      · simp [GdiState.setBody, GdiState.setObject]
      · rw [own, ← old_eq, bound]
    · refine ⟨j, old, cached, ⟨(same j).1.trans there.1, ?_⟩, bound⟩
      rw [← there.2]
      simp [GdiState.setBody, GdiState.setObject, Function.update_of_ne here]

/-- A new device context takes the slot of the cache, and one more is live. -/
theorem Tracks.filled (tracks : Tracks s c) {t : GdiState} {i : Nat} {dc : W32kDc}
    (filled : Filled s t i (s.attrNext + dcAttrSize) dc) (k : Nat) :
    Tracks { t with windowDc := Function.update t.windowDc k (gdiHandle .dc i) }
      ⟨Function.update c.owner k (some dc.hwnd), c.made + 1, c.kept + 1⟩ := by
  have here : t.objects i = ⟨true, 1, .dc dc⟩ := by rw [filled.object, Function.update_self]
  have there : ∀ j, j ≠ i → t.objects j = s.objects j := fun j ne => by
    rw [filled.object, Function.update_of_ne ne]
  have taken : ∀ j, (s.objects j).live = true → j ≠ i := by
    rintro j live rfl
    rw [filled.free] at live
    cases live
  have newer : ∀ k', s.windowDc k' ≠ gdiHandle .dc i := by
    intro k' same
    obtain ⟨j, cached, live⟩ := tracks.of_cached (k := k') (by rw [same, gdiHandle_dc]; omega)
    exact taken j live (gdiHandle_dc_inj (cached.symm.trans same))
  refine ⟨filled.low, filled.high, ?_, ?_, ?_, ?_, ?_, ?_⟩
  · rw [filled.attr, tracks.attr, Nat.succ_mul, Nat.add_assoc]
  · have members : liveDcs { t with windowDc := Function.update t.windowDc k (gdiHandle .dc i) } =
        insert i (liveDcs s) := by
      ext j
      rw [Finset.mem_insert, mem_liveDcs, mem_liveDcs]
      by_cases new : j = i
      · subst new
        simp [here, GdiBody.type, filled.fits]
      · simp [there j new, new]
    have fresh : i ∉ liveDcs s := fun member => taken i (mem_liveDcs.mp member).2.1 rfl
    rw [members, Finset.card_insert_of_notMem fresh, tracks.kept]
  · intro j live
    by_cases new : j = i
    · subst new
      exact ⟨⟨filled.some_, filled.fits⟩, by simp [here], by simp [here, GdiBody.type]⟩
    · simp only [there j new] at live ⊢
      exact tracks.dcs j live
  · intro k' unowned
    by_cases slot : k' = k
    · subst slot
      simp at unowned
    · simp only [Function.update_of_ne slot, filled.windowDc] at unowned ⊢
      exact tracks.empty k' unowned
  · intro k' hwnd owned
    by_cases slot : k' = k
    · subst slot
      simp only [Function.update_self, Option.some.injEq] at owned
      exact ⟨i, dc, by simp, ⟨by simp [here], by simp [here]⟩, owned⟩
    · simp only [Function.update_of_ne slot] at owned
      obtain ⟨j, old, cached, live, bound⟩ := tracks.held k' hwnd owned
      have still := there j (taken j live.1)
      refine ⟨j, old, ?_, ⟨by simpa [still] using live.1, by simpa [still] using live.2⟩, bound⟩
      simp only [Function.update_of_ne slot, filled.windowDc, cached]
  · intro k₁ k₂ nonzero same
    simp only [filled.windowDc] at nonzero same
    by_cases first : k₁ = k <;> by_cases second : k₂ = k
    · rw [first, second]
    · rw [first, Function.update_self, Function.update_of_ne second] at same
      exact absurd same.symm (newer k₂)
    · rw [second, Function.update_self, Function.update_of_ne first] at same
      exact absurd same (newer k₁)
    · rw [Function.update_of_ne first] at nonzero same
      rw [Function.update_of_ne second] at same
      exact tracks.apart k₁ k₂ nonzero same

/-- A slot that is given up is empty, and its device context is gone. -/
theorem Tracks.released (tracks : Tracks s c) {k hwnd : Nat} (owned : c.owner k = some hwnd) :
    Tracks { w32kReleaseDc s (s.windowDc k) with windowDc := Function.update s.windowDc k 0 }
      ⟨Function.update c.owner k none, c.made, c.kept - 1⟩ := by
  obtain ⟨i, dc, cached, index, live, -, -⟩ := tracks.found owned
  have type : (s.objects i).body.type = .dc := by rw [live.2]; rfl
  have handle : gdiHandle .dc i % 0x10000 = i := by
    have objects : gdiMaxObjects = 512 := rfl
    rw [gdiHandle_dc]
    omega
  have freed : w32kReleaseDc s (s.windowDc k) =
      (s.setObject i { s.objects i with live := false }).setCell i zeroCell := by
    rw [w32kReleaseDc, cached, gdiObject_handle index.1 index.2 live.1 (tracks.dcs i live.1).2.1 type,
      Option.isSome_some, if_pos rfl]
    simp only [gdiFree, handle]
    rw [if_neg]
    rintro (zero | large | dead)
    · omega
    · omega
    · rw [live.1] at dead
      cases dead
  rw [freed]
  have gone : ∀ k', k' ≠ k → s.windowDc k' ≠ gdiHandle .dc i := by
    intro k' slot same
    have both : s.windowDc k' = s.windowDc k := same.trans cached.symm
    exact slot (tracks.apart k' k (by rw [same, gdiHandle_dc]; omega) both)
  refine ⟨tracks.low, tracks.high, tracks.attr, ?_, ?_, ?_, ?_, ?_⟩
  · have members : liveDcs { (s.setObject i { s.objects i with live := false }).setCell i zeroCell with
        windowDc := Function.update s.windowDc k 0 } = (liveDcs s).erase i := by
      ext j
      rw [Finset.mem_erase, mem_liveDcs, mem_liveDcs]
      by_cases here : j = i
      · subst here
        simp [GdiState.setObject, GdiState.setCell]
      · simp [GdiState.setObject, GdiState.setCell, here]
    rw [members, Finset.card_erase_of_mem (mem_liveDcs.mpr ⟨index.2, live.1, type⟩), tracks.kept]
  · intro j alive
    by_cases here : j = i
    · subst here
      simp [GdiState.setObject, GdiState.setCell] at alive
    · simp only [GdiState.setObject, GdiState.setCell, Function.update_of_ne here] at alive ⊢
      exact tracks.dcs j alive
  · intro k' unowned
    by_cases slot : k' = k
    · subst slot
      simp
    · simp only [Function.update_of_ne slot] at unowned ⊢
      exact tracks.empty k' unowned
  · intro k' hwnd' owned'
    by_cases slot : k' = k
    · subst slot
      simp at owned'
    · simp only [Function.update_of_ne slot] at owned'
      obtain ⟨j, old, cached', live', bound⟩ := tracks.held k' hwnd' owned'
      have other : j ≠ i := by
        rintro rfl
        exact gone k' slot cached'
      refine ⟨j, old, ?_, ?_, bound⟩
      · simp only [Function.update_of_ne slot, cached']
      · simpa [GdiState.LiveDc, GdiState.setObject, GdiState.setCell, Function.update_of_ne other]
          using live'
  · intro k₁ k₂ nonzero same
    by_cases first : k₁ = k
    · subst first
      simp at nonzero
    · simp only [Function.update_of_ne first] at nonzero same
      by_cases second : k₂ = k
      · subst second
        simp only [Function.update_self] at same
        exact absurd same nonzero
      · simp only [Function.update_of_ne second] at same
        exact tracks.apart k₁ k₂ nonzero same

theorem Tracks.hit (tracks : Tracks s c) {hwnd : Nat} (owned : c.owner (cacheSlot hwnd) = some hwnd)
    (fb : GfxFramebuffer) (x y width height : Int32) :
    Served fb s (.acquire hwnd x y width height) ∧
      Tracks ((DcCall.acquire hwnd x y width height).next fb s) c := by
  obtain ⟨i, dc, cached, index, live, own, found⟩ := tracks.found owned
  have result := acquire_hit cached found own fb x y width height
  refine ⟨fun _ => ?_, ?_⟩
  · rw [result]
    refine ⟨i, _, dcFromHandle_live index.1 index.2 ?_ ⟨?_, ?_⟩, own ▸ dc.movedTo_bound ..⟩
    · simpa [GdiState.setBody, GdiState.setObject] using (tracks.dcs i live.1).2.1
    · simpa [GdiState.setBody, GdiState.setObject] using live.1
    · simp [GdiState.setBody, GdiState.setObject]
  · rw [DcCall.next, result]
    exact tracks.moved live rfl

theorem Tracks.missed (tracks : Tracks s c) {hwnd : Nat}
    (other : c.owner (cacheSlot hwnd) ≠ some hwnd) (i : Nat) (dc : W32kDc)
    (nonzero : s.windowDc (cacheSlot hwnd) ≠ 0)
    (found : dcFromHandle s (s.windowDc (cacheSlot hwnd)) = some (i, dc)) : dc.hwnd ≠ hwnd := by
  cases owned : c.owner (cacheSlot hwnd) with
  | none => exact absurd (tracks.empty _ owned) nonzero
  | some owner =>
    obtain ⟨j, old, cached, -, -, own, there⟩ := tracks.found owned
    rw [cached, there] at found
    cases found
    rintro rfl
    exact other (by rw [owned, own])

theorem Tracks.miss (tracks : Tracks s c) {hwnd : Nat}
    (other : c.owner (cacheSlot hwnd) ≠ some hwnd) (available : gfxAvailable fb = true)
    (room : c.made < gdiAttrSize / dcAttrSize) (few : c.kept < 511) (x y width height : Int32) :
    Served fb s (.acquire hwnd x y width height) ∧
      Tracks ((DcCall.acquire hwnd x y width height).next fb s)
        ⟨Function.update c.owner (cacheSlot hwnd) (some hwnd), c.made + 1, c.kept + 1⟩ := by
  obtain ⟨j, some_, fits, free⟩ := tracks.free few
  have space : s.attrNext + dcAttrSize ≤ gdiAttrVa + gdiAttrSize := by
    have size : dcAttrSize = 0x200 := rfl
    have arena : gdiAttrSize = 0x10000 := rfl
    have blocks : gdiAttrSize / dcAttrSize = 128 := rfl
    rw [tracks.attr, size]
    omega
  obtain ⟨i, t, created, filled⟩ := w32kCreateWindowDc_filled available tracks.low tracks.high some_
    fits free space hwnd x y width height
  have nonzero : gdiHandle .dc i ≠ 0 := by rw [gdiHandle_dc]; omega
  have result := acquire_miss (tracks.missed other) fb x y width height
  simp only [created, if_neg nonzero] at result
  refine ⟨fun _ => ?_, ?_⟩
  · rw [result]
    refine ⟨i, _, dcFromHandle_live filled.some_ filled.fits ?_ ⟨?_, ?_⟩,
      windowDcAt_bound fb i hwnd x y width height⟩
    · simp [filled.object]
    · simp [filled.object]
    · simp [filled.object]
  · rw [DcCall.next, result]
    exact tracks.filled filled (cacheSlot hwnd)

theorem Tracks.exhausted (tracks : Tracks s c) {hwnd : Nat}
    (other : c.owner (cacheSlot hwnd) ≠ some hwnd) (available : gfxAvailable fb = true)
    (full : gdiAttrSize / dcAttrSize ≤ c.made) (x y width height : Int32) :
    ¬ Served fb s (.acquire hwnd x y width height) := by
  intro served
  obtain ⟨i, dc, found, -⟩ := served available
  have beyond : gdiAttrVa + gdiAttrSize < s.attrNext + dcAttrSize := by
    have size : dcAttrSize = 0x200 := rfl
    have arena : gdiAttrSize = 0x10000 := rfl
    have blocks : gdiAttrSize / dcAttrSize = 128 := rfl
    rw [tracks.attr, size]
    omega
  rw [acquire_miss (tracks.missed other), w32kCreateWindowDc_exhausted beyond] at found
  cases found

theorem Tracks.destroyed (tracks : Tracks s c) (fb : GfxFramebuffer) (hwnd : Nat) :
    Tracks ((DcCall.destroy hwnd).next fb s) (c.next (.destroy hwnd)) := by
  simp only [DcCall.next, w32kDestroyWindowDc, WindowCache.next]
  by_cases large : w32kDcCache ≤ hwnd % 0x10000
  · rw [if_pos (Or.inl large), if_pos (Or.inl large)]
    exact tracks
  · cases owned : c.owner (hwnd % 0x10000) with
    | none =>
      rw [if_pos (Or.inr (tracks.empty _ owned)), if_pos (Or.inr rfl)]
      exact tracks
    | some owner =>
      obtain ⟨i, dc, cached, -⟩ := tracks.held _ _ owned
      have nonzero : s.windowDc (hwnd % 0x10000) ≠ 0 := by rw [cached, gdiHandle_dc]; omega
      rw [if_neg (by simp [large, nonzero]), if_neg (by simp [large])]
      have same : (w32kReleaseDc s (s.windowDc (hwnd % 0x10000))).windowDc = s.windowDc := by
        unfold w32kReleaseDc gdiFree
        dsimp only
        split
        · split <;> rfl
        · rfl
      rw [same]
      exact tracks.released owned

/-- While the cache fits, a call does what it must exactly if the cache still fits after it,
and then the table follows the cache. -/
theorem Tracks.step (tracks : Tracks s c) (available : gfxAvailable fb = true)
    (made : c.made ≤ gdiAttrSize / dcAttrSize) (kept : c.kept ≤ w32kDcCache) (call : DcCall) :
    (KeepsDcs fb s call ↔ c.Fits call) ∧
      (c.Fits call → Tracks (call.next fb s) (c.next call)) := by
  have size : w32kDcCache = 64 := rfl
  cases call with
  | acquire hwnd x y width height =>
    by_cases owned : c.owner (cacheSlot hwnd) = some hwnd
    · have next : c.next (.acquire hwnd x y width height) = c := by
        rw [WindowCache.next, if_pos owned]
      obtain ⟨served, after⟩ := tracks.hit owned fb x y width height
      rw [KeepsDcs, WindowCache.Fits, next, after.kept]
      exact ⟨⟨fun _ => ⟨made, kept⟩, fun _ => ⟨served, kept⟩⟩, fun _ => after⟩
    · have next : c.next (.acquire hwnd x y width height) =
          ⟨Function.update c.owner (cacheSlot hwnd) (some hwnd), c.made + 1, c.kept + 1⟩ := by
        rw [WindowCache.next, if_neg owned]
      rw [KeepsDcs, WindowCache.Fits, next]
      by_cases room : c.made < gdiAttrSize / dcAttrSize
      · obtain ⟨served, after⟩ := tracks.miss owned available room (by omega) x y width height
        rw [after.kept]
        exact ⟨⟨fun keeps => ⟨room, keeps.2⟩, fun fits => ⟨served, fits.2⟩⟩, fun _ => after⟩
      · have full := Nat.not_lt.mp room
        refine ⟨⟨fun keeps => ?_, fun fits => absurd fits.1 room⟩, fun fits => absurd fits.1 room⟩
        exact absurd keeps.1 (tracks.exhausted owned available full x y width height)
  | destroy hwnd =>
    have after := tracks.destroyed fb hwnd
    have fits : c.Fits (.destroy hwnd) := by
      rw [WindowCache.Fits, WindowCache.next]
      split
      · exact ⟨made, kept⟩
      · exact ⟨made, Nat.le_trans (Nat.sub_le _ _) kept⟩
    rw [KeepsDcs, after.kept]
    exact ⟨⟨fun _ => fits, fun _ => ⟨trivial, fits.2⟩⟩, fun _ => after⟩

/-- Every call of the run is served, and no call leaves more than 64 live device contexts. -/
def DcsKept (fb : GfxFramebuffer) (s : GdiState) (calls : List DcCall) : Prop :=
  Runs.Along (DcCall.next fb) (KeepsDcs fb) s calls

/-- The cache fits after every call of the run. -/
def CacheFits (c : WindowCache) (calls : List DcCall) : Prop :=
  Runs.Along WindowCache.next WindowCache.Fits c calls

theorem Tracks.run (tracks : Tracks s c) (available : gfxAvailable fb = true)
    (made : c.made ≤ gdiAttrSize / dcAttrSize) (kept : c.kept ≤ w32kDcCache) (calls : List DcCall) :
    DcsKept fb s calls ↔ CacheFits c calls := by
  induction calls generalizing s c with
  | nil => exact Iff.rfl
  | cons call calls ih =>
    obtain ⟨iff, after⟩ := tracks.step available made kept call
    have rest : c.Fits call → (DcsKept fb (call.next fb s) calls ↔ CacheFits (c.next call) calls) :=
      fun fits => ih (after fits) fits.1 fits.2
    constructor
    · rintro ⟨keeps, others⟩
      exact ⟨iff.mp keeps, (rest (iff.mp keeps)).mp others⟩
    · rintro ⟨fits, others⟩
      exact ⟨iff.mpr fits, (rest fits).mpr others⟩

/-- Without a framebuffer there is no device context to keep. -/
theorem kept_without_framebuffer (none_ : gfxAvailable fb = false) (calls : List DcCall) :
    DcsKept fb bootGdi calls := by
  induction calls with
  | nil => exact trivial
  | cons call calls ih =>
    have stays : call.next fb bootGdi = bootGdi := by
      cases call with
      | acquire hwnd x y width height =>
        rw [DcCall.next, acquire_miss fun i dc nonzero _ => absurd rfl nonzero]
        simp [w32kCreateWindowDc, none_]
      | destroy hwnd => simp [DcCall.next, w32kDestroyWindowDc, bootGdi]
    refine ⟨⟨?_, ?_⟩, ?_⟩
    · cases call with
      | acquire hwnd x y width height => exact fun available => by rw [none_] at available; cases available
      | destroy hwnd => exact trivial
    · rw [stays, boot_tracks.kept]
      exact Nat.zero_le _
    · rw [stays]
      exact ih

end

/-- Window device contexts do not leak, and acquisitions succeed, exactly if at every point of the
run at most 128 acquisitions found their slot without the window's own device context, and at most
64 more than were destroyed. -/
theorem window_dcs_kept_iff (fb : GfxFramebuffer) (calls : List DcCall) :
    DcsKept fb bootGdi calls ↔ (gfxAvailable fb = true → CacheFits emptyCache calls) := by
  cases available : gfxAvailable fb with
  | false => simp [kept_without_framebuffer available calls]
  | true =>
    rw [boot_tracks.run available (Nat.zero_le _) (Nat.zero_le _)]
    exact ⟨fun fits _ => fits, fun fits => fits rfl⟩

/-- Two windows that share slot 0, repainted in turn `n` times. -/
def alternating : Nat → List DcCall
  | 0 => []
  | n + 1 => .acquire 64 0 0 10 10 :: .acquire 65 0 0 10 10 :: alternating n

theorem alternating_kept {c : WindowCache} {n : Nat} (other : c.owner 0 ≠ some 64)
    (few : c.kept ≤ w32kDcCache) (fits : CacheFits c (alternating n)) :
    c.kept + 2 * n ≤ w32kDcCache := by
  induction n generalizing c with
  | zero => exact few
  | succ n ih =>
    obtain ⟨-, second, rest⟩ := fits
    have slots : cacheSlot 64 = 0 ∧ cacheSlot 65 = 0 := by decide
    have after : c.next (.acquire 64 0 0 10 10) =
        ⟨Function.update c.owner 0 (some 64), c.made + 1, c.kept + 1⟩ := by
      rw [WindowCache.next, slots.1, if_neg other]
    have again : (c.next (.acquire 64 0 0 10 10)).next (.acquire 65 0 0 10 10) =
        ⟨Function.update (Function.update c.owner 0 (some 64)) 0 (some 65), c.made + 1 + 1,
          c.kept + 1 + 1⟩ := by
      rw [after, WindowCache.next, slots.2, if_neg (by simp)]
    have bound := ih (by rw [again]; simp) second.2 rest
    rw [again] at bound
    change c.kept + 1 + 1 + 2 * n ≤ w32kDcCache at bound
    omega

/-- The 65th device context: two windows from index 64 on, repainted in turn. -/
theorem alternating_windows_leak :
    ¬ ∀ (fb : GfxFramebuffer) (calls : List DcCall), DcsKept fb bootGdi calls := by
  intro all
  have kept := all ⟨true, true, 2560, 640, 480, 16, 8, 0⟩ (alternating 33)
  rw [boot_tracks.run rfl (Nat.zero_le _) (Nat.zero_le _)] at kept
  have bound := alternating_kept (c := emptyCache) (by simp [emptyCache]) (Nat.zero_le _) kept
  exact absurd bound (by decide)

end W32k
