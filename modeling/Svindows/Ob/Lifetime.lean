import Mathlib.Algebra.BigOperators.Group.Finset.Basic
import Mathlib.Order.Interval.Finset.Nat
import Svindows.Ob.HandleTable

/-!
# Object lifetime accounting

Three kinds of holders share one counter: handle slots, the namespace and
callers. `refs` counts the callers' references; the system keeps the one the
root directory was created with. Every operation changes the counters of one
object at a time, and creation and deletion change the set of objects.
-/

namespace Ob

open Nt

/-- The object manager with its callers' outstanding references and the number
of objects created at each address. -/
structure World where
  ob : ObState
  refs : ObjectRef → Nat
  created : ObjectRef → Nat

/-- Handle-table entries naming `o`. -/
def namedBy (s : ObState) (o : ObjectRef) : Nat :=
  ((Finset.range obMaxHandles).filter fun i => (s.handles i).object = o).card

/-- Handle-table entries naming an object of the type. -/
def handlesOf (s : ObState) (t : TypeRef) : Nat :=
  ((Finset.range obMaxHandles).filter fun i =>
    (s.handles i).object ≠ 0 ∧ (s.headers (s.handles i).object).type = t).card

/-- 1 if the object is linked in the namespace. -/
def linkedIn (s : ObState) (o : ObjectRef) : Nat :=
  if (s.headers o).parentDirectory = none then 0 else 1

/-- Objects are allocated inside the pool's window. -/
def InWindow (o : ObjectRef) : Prop := mmKernelHeapBase ≤ o ∧ o < 2 ^ 64

/-- `L` is the set of live objects. -/
structure LiveSet (s : ObState) (L : Finset ObjectRef) : Prop where
  mem : ∀ o, o ∈ L ↔ s.live o = true
  window : ∀ o ∈ L, InWindow o
  totals : ∀ t, (s.types t).totalObjects = (L.filter fun o => (s.headers o).type = t).card

/-- Which objects there are and where they are linked. -/
structure Placed (w : World) : Prop where
  entries : ∀ d, w.ob.live d = true → ∀ o ∈ (w.ob.headers d).entries,
    w.ob.live o = true ∧ (w.ob.headers o).parentDirectory = some d
  once : ∀ d, w.ob.live d = true → (w.ob.headers d).entries.Nodup
  parents : ∀ o, w.ob.live o = true → ∀ d, (w.ob.headers o).parentDirectory = some d →
    (w.ob.live d = true ∧ o ∈ (w.ob.headers d).entries) ∨ d ∈ w.ob.deleted
  liveSet : ∃ L, LiveSet w.ob L
  incarnations : ∀ o, w.created o = w.ob.deleted.count o + if w.ob.live o then 1 else 0
  spent : ∀ o, 0 < w.created o → w.ob.live o = false → (w.ob.headers o).pointerCount = 0
  directoryType : w.ob.directoryType ≠ 0
  running : w.ob.bugCheck = false

/-- What the counters count. -/
structure Counted (w : World) : Prop where
  pointers : ∀ o, w.ob.live o = true →
    (w.ob.headers o).pointerCount = (namedBy w.ob o + linkedIn w.ob o + w.refs o : Nat)
  positive : ∀ o, w.ob.live o = true → 0 < namedBy w.ob o + linkedIn w.ob o + w.refs o
  bounded : ∀ o, w.ob.live o = true → (w.ob.headers o).pointerCount < 2 ^ 31
  handleCounts : ∀ o, w.ob.live o = true → (w.ob.headers o).handleCount = (namedBy w.ob o : Nat)
  slots : ∀ i, i < obMaxHandles → (w.ob.handles i).object ≠ 0 →
    w.ob.live (w.ob.handles i).object = true
  held : ∀ o, 0 < w.refs o → w.ob.live o = true
  totalHandles : ∀ t, (w.ob.types t).totalHandles = handlesOf w.ob t
  rootHeld : 0 < w.refs w.ob.rootDirectory

structure Accounted (w : World) : Prop where
  placed : Placed w
  counted : Counted w

theorem slotCount_update (p : HandleEntry → Prop) [DecidablePred p] (f : Nat → HandleEntry)
    {i n : Nat} (hi : i < n) (e : HandleEntry) :
    ((Finset.range n).filter fun j => p (Function.update f i e j)).card +
        (if p (f i) then 1 else 0) =
      ((Finset.range n).filter fun j => p (f j)).card + if p e then 1 else 0 := by
  have mem : i ∈ Finset.range n := Finset.mem_range.mpr hi
  have split : ∀ g : Nat → HandleEntry, ((Finset.range n).filter fun j => p (g j)).card =
      (if p (g i) then 1 else 0) + ∑ j ∈ (Finset.range n).erase i, if p (g j) then 1 else 0 := by
    intro g
    rw [Finset.card_filter, ← Finset.add_sum_erase _ _ mem]
  have rest : (∑ j ∈ (Finset.range n).erase i, if p (Function.update f i e j) then 1 else 0) =
      ∑ j ∈ (Finset.range n).erase i, if p (f j) then 1 else 0 := by
    refine Finset.sum_congr rfl ?_
    intro j hj
    rw [Function.update_of_ne (Finset.ne_of_mem_erase hj)]
  rw [split, split f, rest, Function.update_self]
  omega

theorem namedBy_setEntry (s : ObState) {i : Nat} (hi : i < obMaxHandles) (e : HandleEntry)
    (o : ObjectRef) :
    namedBy (s.setEntry i e) o + (if (s.handles i).object = o then 1 else 0) =
      namedBy s o + if e.object = o then 1 else 0 :=
  slotCount_update (fun h => h.object = o) s.handles hi e

theorem handlesOf_setEntry (s : ObState) {i : Nat} (hi : i < obMaxHandles) (e : HandleEntry)
    (t : TypeRef) :
    handlesOf (s.setEntry i e) t +
        (if (s.handles i).object ≠ 0 ∧ (s.headers (s.handles i).object).type = t then 1 else 0) =
      handlesOf s t + if e.object ≠ 0 ∧ (s.headers e.object).type = t then 1 else 0 :=
  slotCount_update (fun h => h.object ≠ 0 ∧ (s.headers h.object).type = t) s.handles hi e

theorem namedBy_le (s : ObState) (o : ObjectRef) : namedBy s o ≤ obMaxHandles := by
  have := Finset.card_filter_le (Finset.range obMaxHandles) fun i => (s.handles i).object = o
  rw [Finset.card_range] at this
  exact this

theorem handlesOf_le (s : ObState) (t : TypeRef) : handlesOf s t ≤ obMaxHandles := by
  have := Finset.card_filter_le (Finset.range obMaxHandles) fun i =>
    (s.handles i).object ≠ 0 ∧ (s.headers (s.handles i).object).type = t
  rw [Finset.card_range] at this
  exact this

variable {s : ObState} {w u : World} {o : ObjectRef}

/-- There are fewer objects than a 32-bit counter can count. -/
theorem LiveSet.few {L : Finset ObjectRef} (live : LiveSet s L) (t : TypeRef) :
    (L.filter fun o => (s.headers o).type = t).card ≤ 2 ^ 30 := by
  have inside : L ⊆ Finset.Ico mmKernelHeapBase (2 ^ 64) := by
    intro o ho
    exact Finset.mem_Ico.mpr (live.window o ho)
  have bound := (Finset.card_filter_le L fun o => (s.headers o).type = t).trans
    (Finset.card_le_card inside)
  rw [Nat.card_Ico] at bound
  exact bound

theorem longInc_of_lt {x : Int} (lo : 0 ≤ x) (hi : x < 2 ^ 31 - 1) : longInc x = x + 1 := by
  simp only [longInc]
  rw [Int.bmod_eq_of_le] <;> omega

theorem longDec_of_pos {x : Int} (lo : 0 < x) (hi : x < 2 ^ 31) : longDec x = x - 1 := by
  simp only [longDec]
  rw [Int.bmod_eq_of_le] <;> omega

@[simp] theorem setHeader_headers (s : ObState) (o p : ObjectRef) (h : ObjectHeader) :
    (s.setHeader o h).headers p = if p = o then h else s.headers p := by
  simp [ObState.setHeader, Function.update_apply]

@[simp] theorem setType_types (s : ObState) (t u : TypeRef) (k : ObjectType) :
    (s.setType t k).types u = if u = t then k else s.types u := by
  simp [ObState.setType, Function.update_apply]

@[simp] theorem setType_headers (s : ObState) (t : TypeRef) (k : ObjectType) :
    (s.setType t k).headers = s.headers := rfl

@[simp] theorem setEntry_headers (s : ObState) (i : Nat) (e : HandleEntry) :
    (s.setEntry i e).headers = s.headers := rfl

/-- Counts see the slots and the types of the objects in them. -/
theorem handlesOf_congr {u : ObState} (slots : u.handles = s.handles)
    (types : ∀ o, (u.headers o).type = (s.headers o).type) (t : TypeRef) :
    handlesOf u t = handlesOf s t := by
  simp only [handlesOf, slots, types]

theorem namedBy_congr {u : ObState} (slots : u.handles = s.handles) (o : ObjectRef) :
    namedBy u o = namedBy s o := by
  simp only [namedBy, slots]

theorem LiveSet.congr {s' : ObState} {L : Finset ObjectRef} (live : LiveSet s L)
    (same : s'.live = s.live) (types : ∀ o, (s'.headers o).type = (s.headers o).type)
    (totals : ∀ t, (s'.types t).totalObjects = (s.types t).totalObjects) : LiveSet s' L where
  mem := fun o => by rw [same]; exact live.mem o
  window := live.window
  totals := fun t => by simp only [totals, types]; exact live.totals t

theorem Placed.notNull (placed : Placed w) {o : ObjectRef} (live : w.ob.live o = true) : o ≠ 0 := by
  obtain ⟨L, liveSet⟩ := placed.liveSet
  rintro rfl
  have window := (liveSet.window 0 ((liveSet.mem 0).mpr live)).1
  simp [mmKernelHeapBase] at window

theorem slot_ne_of_namedBy (none : namedBy s o = 0) {i : Nat}
    (hi : i < obMaxHandles) : (s.handles i).object ≠ o := by
  intro h
  have empty := Finset.card_eq_zero.mp none
  have mem : i ∈ (Finset.range obMaxHandles).filter fun i => (s.handles i).object = o :=
    Finset.mem_filter.mpr ⟨Finset.mem_range.mpr hi, h⟩
  rw [empty] at mem
  exact absurd mem (Finset.notMem_empty i)

theorem namedBy_of_slot_ne
    (none : ∀ i, i < obMaxHandles → (s.handles i).object ≠ o) : namedBy s o = 0 := by
  refine Finset.card_eq_zero.mpr (Finset.filter_eq_empty_iff.mpr ?_)
  intro i hi
  exact none i (Finset.mem_range.mp hi)

/-- From `w` to `u` only the handle table, the counters of `o` and the callers'
references to it change. -/
structure Recount (o : ObjectRef) (w u : World) : Prop where
  others : ∀ p, p ≠ o → u.ob.headers p = w.ob.headers p
  type : (u.ob.headers o).type = (w.ob.headers o).type
  parent : (u.ob.headers o).parentDirectory = (w.ob.headers o).parentDirectory
  entries : (u.ob.headers o).entries = (w.ob.headers o).entries
  refs : ∀ p, p ≠ o → u.refs p = w.refs p
  live : u.ob.live = w.ob.live
  totals : ∀ t, (u.ob.types t).totalObjects = (w.ob.types t).totalObjects
  deleted : u.ob.deleted = w.ob.deleted
  created : u.created = w.created
  root : u.ob.rootDirectory = w.ob.rootDirectory
  directoryType : u.ob.directoryType = w.ob.directoryType
  bugCheck : u.ob.bugCheck = w.ob.bugCheck

theorem Recount.types (change : Recount o w u) (p : ObjectRef) :
    (u.ob.headers p).type = (w.ob.headers p).type := by
  by_cases hp : p = o
  · rw [hp]
    exact change.type
  · rw [change.others p hp]

theorem Recount.parents (change : Recount o w u) (p : ObjectRef) :
    (u.ob.headers p).parentDirectory = (w.ob.headers p).parentDirectory := by
  by_cases hp : p = o
  · rw [hp]
    exact change.parent
  · rw [change.others p hp]

theorem Recount.contents (change : Recount o w u)
    (p : ObjectRef) : (u.ob.headers p).entries = (w.ob.headers p).entries := by
  by_cases hp : p = o
  · rw [hp]
    exact change.entries
  · rw [change.others p hp]

theorem Placed.recount (placed : Placed w)
    (change : Recount o w u) (live : w.ob.live o = true) : Placed u := by
  obtain ⟨L, liveSet⟩ := placed.liveSet
  refine ⟨?_, ?_, ?_, ⟨L, liveSet.congr change.live change.types change.totals⟩, ?_, ?_, ?_, ?_⟩
  · intro d hd q hq
    rw [change.live] at hd ⊢
    rw [change.contents] at hq
    rw [change.parents]
    exact placed.entries d hd q hq
  · intro d hd
    rw [change.live] at hd
    rw [change.contents]
    exact placed.once d hd
  · intro p hp d hd
    rw [change.live] at hp ⊢
    rw [change.parents] at hd
    rw [change.contents, change.deleted]
    exact placed.parents p hp d hd
  · intro p
    rw [change.created, change.deleted, change.live]
    exact placed.incarnations p
  · intro p hp dead
    rw [change.created] at hp
    rw [change.live] at dead
    have other : p ≠ o := by
      rintro rfl
      rw [live] at dead
      exact absurd dead (by decide)
    rw [change.others p other]
    exact placed.spent p hp dead
  · rw [change.directoryType]
    exact placed.directoryType
  · rw [change.bugCheck]
    exact placed.running

/-- The counters of the other objects are still right; what is left to show is
about `o` and the handle table. -/
theorem Counted.recount (counted : Counted w) (change : Recount o w u) (live : w.ob.live o = true)
    (named : ∀ p, w.ob.live p = true → p ≠ o → namedBy u.ob p = namedBy w.ob p)
    (pointer : (u.ob.headers o).pointerCount =
      (namedBy u.ob o + linkedIn w.ob o + u.refs o : Nat))
    (positive : 0 < namedBy u.ob o + linkedIn w.ob o + u.refs o)
    (bounded : (u.ob.headers o).pointerCount < 2 ^ 31)
    (handle : (u.ob.headers o).handleCount = (namedBy u.ob o : Nat))
    (slots : ∀ i, i < obMaxHandles → (u.ob.handles i).object ≠ 0 →
      (u.ob.handles i).object = o ∨ u.ob.handles i = w.ob.handles i)
    (totals : ∀ t, (u.ob.types t).totalHandles = handlesOf u.ob t)
    (root : o = w.ob.rootDirectory → 0 < u.refs o) : Counted u := by
  have linked : ∀ p, linkedIn u.ob p = linkedIn w.ob p := by
    intro p
    simp only [linkedIn, change.parents]
  refine ⟨?_, ?_, ?_, ?_, ?_, ?_, totals, ?_⟩
  · intro p hp
    rw [change.live] at hp
    rw [linked]
    by_cases hpo : p = o
    · rw [hpo]
      exact pointer
    · rw [change.others p hpo, named p hp hpo, change.refs p hpo]
      exact counted.pointers p hp
  · intro p hp
    rw [change.live] at hp
    rw [linked]
    by_cases hpo : p = o
    · rw [hpo]
      exact positive
    · rw [named p hp hpo, change.refs p hpo]
      exact counted.positive p hp
  · intro p hp
    rw [change.live] at hp
    by_cases hpo : p = o
    · rw [hpo]
      exact bounded
    · rw [change.others p hpo]
      exact counted.bounded p hp
  · intro p hp
    rw [change.live] at hp
    by_cases hpo : p = o
    · rw [hpo]
      exact handle
    · rw [change.others p hpo, named p hp hpo]
      exact counted.handleCounts p hp
  · intro i hi used
    rw [change.live]
    rcases slots i hi used with here | same
    · rw [here]
      exact live
    · rw [same] at used ⊢
      exact counted.slots i hi used
  · intro p hp
    rw [change.live]
    by_cases hpo : p = o
    · rw [hpo]
      exact live
    · rw [change.refs p hpo] at hp
      exact counted.held p hp
  · rw [change.root]
    by_cases hr : w.ob.rootDirectory = o
    · rw [hr]
      exact root hr.symm
    · rw [change.refs _ hr]
      exact counted.rootHeld

/-- A caller takes a reference. -/
def World.reference (w : World) (o : ObjectRef) : World :=
  { w with
    ob := obReferenceObject w.ob o
    refs := Function.update w.refs o (w.refs o + 1) }

theorem Accounted.reference (acc : Accounted w) {o : ObjectRef}
    (live : w.ob.live o = true) (room : (w.ob.headers o).pointerCount < 2 ^ 31 - 1) :
    Accounted (w.reference o) := by
  have change : Recount o w (w.reference o) := by
    refine ⟨?_, ?_, ?_, ?_, ?_, rfl, fun _ => rfl, rfl, rfl, rfl, rfl, rfl⟩
    · intro p hp
      simp [World.reference, obReferenceObject, hp]
    · simp [World.reference, obReferenceObject]
    · simp [World.reference, obReferenceObject]
    · simp [World.reference, obReferenceObject]
    · intro p hp
      simp [World.reference, hp]
  have old := acc.counted.pointers o live
  have inc := longInc_of_lt (x := (w.ob.headers o).pointerCount) (by omega) room
  have count : ((w.reference o).ob.headers o).pointerCount =
      longInc (w.ob.headers o).pointerCount := by
    simp [World.reference, obReferenceObject]
  have refs : (w.reference o).refs o = w.refs o + 1 := by
    simp [World.reference]
  have named : ∀ p, namedBy (w.reference o).ob p = namedBy w.ob p := fun p => namedBy_congr rfl p
  refine ⟨acc.placed.recount change live, acc.counted.recount change live ?_ ?_ ?_ ?_ ?_ ?_ ?_ ?_⟩
  · intro p _ _
    exact named p
  · rw [count, inc, old, named, refs]
    omega
  · omega
  · rw [count, inc]
    omega
  · have same : ((w.reference o).ob.headers o).handleCount = (w.ob.headers o).handleCount := by
      simp [World.reference, obReferenceObject]
    rw [same, named]
    exact acc.counted.handleCounts o live
  · intro i _ _
    exact Or.inr rfl
  · intro t
    rw [handlesOf_congr (s := w.ob) (u := (w.reference o).ob) rfl change.types]
    exact acc.counted.totalHandles t
  · intro _
    omega

/-- What `ObCreateHandle` does once it has found a free slot. -/
def World.openSlot (w : World) (i : Nat) (o : ObjectRef) (access : AccessMask) : World :=
  let s := w.ob.setEntry i ⟨o, access⟩
  let s := obReferenceObject s o
  let s := s.setHeader o { s.headers o with handleCount := longInc (s.headers o).handleCount }
  let type := (s.headers o).type
  { w with
    ob := s.setType type { s.types type with
      totalHandles := wrap32 ((s.types type).totalHandles + 1) } }

theorem Accounted.openSlot (acc : Accounted w) {i : Nat} {o : ObjectRef}
    {access : AccessMask} (hi : i < obMaxHandles) (free : (w.ob.handles i).object = 0)
    (live : w.ob.live o = true) (room : (w.ob.headers o).pointerCount < 2 ^ 31 - 1) :
    Accounted (w.openSlot i o access) := by
  have limit : obMaxHandles = 4096 := rfl
  have real := acc.placed.notNull live
  have change : Recount o w (w.openSlot i o access) := by
    refine ⟨?_, ?_, ?_, ?_, fun _ _ => rfl, rfl, ?_, rfl, rfl, rfl, rfl, rfl⟩
    · intro p hp
      simp [World.openSlot, obReferenceObject, hp]
    · simp [World.openSlot, obReferenceObject]
    · simp [World.openSlot, obReferenceObject]
    · simp [World.openSlot, obReferenceObject]
    · intro t
      by_cases ht : t = (w.ob.headers o).type <;>
        simp [World.openSlot, obReferenceObject, ht, ObState.setHeader, ObState.setEntry]
  have slots : (w.openSlot i o access).ob.handles = (w.ob.setEntry i ⟨o, access⟩).handles := rfl
  have named : ∀ p, p ≠ 0 → namedBy (w.openSlot i o access).ob p =
      namedBy w.ob p + if o = p then 1 else 0 := by
    intro p hp
    have count := namedBy_setEntry w.ob hi ⟨o, access⟩ p
    rw [free, if_neg (Ne.symm hp), Nat.add_zero] at count
    rw [namedBy_congr (s := w.ob.setEntry i ⟨o, access⟩) slots p]
    exact count
  have namedHere := named o real
  rw [if_pos rfl] at namedHere
  have oldPointers := acc.counted.pointers o live
  have oldHandles := acc.counted.handleCounts o live
  have bound := namedBy_le w.ob o
  have incPointers := longInc_of_lt (x := (w.ob.headers o).pointerCount) (by omega) room
  have incHandles := longInc_of_lt (x := (w.ob.headers o).handleCount) (by omega) (by omega)
  have count : ((w.openSlot i o access).ob.headers o).pointerCount =
      longInc (w.ob.headers o).pointerCount := by
    simp [World.openSlot, obReferenceObject]
  refine ⟨acc.placed.recount change live, acc.counted.recount change live ?_ ?_ ?_ ?_ ?_ ?_ ?_ ?_⟩
  · intro p hp hpo
    rw [named p (acc.placed.notNull hp), if_neg (Ne.symm hpo), Nat.add_zero]
  · rw [count, incPointers, oldPointers, namedHere]
    simp only [World.openSlot]
    omega
  · omega
  · rw [count, incPointers]
    omega
  · have count : ((w.openSlot i o access).ob.headers o).handleCount =
        longInc (w.ob.headers o).handleCount := by
      simp [World.openSlot, obReferenceObject]
    rw [count, incHandles, oldHandles, namedHere]
    omega
  · intro j _ _
    rw [slots]
    by_cases hj : j = i
    · simp [ObState.setEntry, hj]
    · simp [ObState.setEntry, hj]
  · intro t
    have count := handlesOf_setEntry w.ob hi ⟨o, access⟩ t
    rw [if_neg (fun h => h.1 free)] at count
    have few := handlesOf_le w.ob t
    rw [handlesOf_congr (s := w.ob.setEntry i ⟨o, access⟩) slots change.types]
    by_cases ht : t = (w.ob.headers o).type
    · subst ht
      rw [if_pos ⟨real, rfl⟩] at count
      have value : ((w.openSlot i o access).ob.types (w.ob.headers o).type).totalHandles =
          wrap32 ((w.ob.types (w.ob.headers o).type).totalHandles + 1) := by
        simp [World.openSlot, obReferenceObject, ObState.setHeader, ObState.setEntry]
      rw [value, acc.counted.totalHandles, wrap32]
      omega
    · rw [if_neg (fun h => ht h.2.symm)] at count
      have value : ((w.openSlot i o access).ob.types t).totalHandles =
          (w.ob.types t).totalHandles := by
        simp [World.openSlot, obReferenceObject, ObState.setHeader, ObState.setEntry, ht]
      rw [value, acc.counted.totalHandles t]
      omega
  · intro hr
    rw [hr]
    exact acc.counted.rootHeld

/-- What `ObCloseHandle` does before its dereference: the slot's reference is
now the caller's. -/
def World.closeSlot (w : World) (i : Nat) : World :=
  let o := (w.ob.handles i).object
  let s := w.ob.setEntry i .empty
  let s := s.setHeader o { s.headers o with handleCount := longDec (s.headers o).handleCount }
  let type := (s.headers o).type
  { w with
    ob := if (s.types type).totalHandles ≠ 0 then
      s.setType type { s.types type with totalHandles := (s.types type).totalHandles - 1 } else s
    refs := Function.update w.refs o (w.refs o + 1) }

theorem Accounted.closeSlot (acc : Accounted w) {i : Nat} (hi : i < obMaxHandles)
    (used : (w.ob.handles i).object ≠ 0) : Accounted (w.closeSlot i) := by
  have limit : obMaxHandles = 4096 := rfl
  have live := acc.counted.slots i hi used
  have count := fun p => namedBy_setEntry w.ob hi .empty p
  have countType := fun t => handlesOf_setEntry w.ob hi .empty t
  generalize ho : (w.ob.handles i).object = o at used live count countType
  -- the slot is counted, so the counters it gives back are not zero
  have counted := count o
  have countedType := countType (w.ob.headers o).type
  rw [if_pos rfl, if_neg (fun h => used h.symm), Nat.add_zero] at counted
  rw [if_pos ⟨used, rfl⟩, if_neg (fun h => h.1 rfl), Nat.add_zero] at countedType
  have total := acc.counted.totalHandles (w.ob.headers o).type
  have some : (w.ob.types (w.ob.headers o).type).totalHandles ≠ 0 := by omega
  have state : (w.closeSlot i).ob = ((w.ob.setEntry i .empty).setHeader o
      { w.ob.headers o with handleCount := longDec (w.ob.headers o).handleCount }).setType
      (w.ob.headers o).type { w.ob.types (w.ob.headers o).type with
        totalHandles := (w.ob.types (w.ob.headers o).type).totalHandles - 1 } := by
    simp only [World.closeSlot, ho, setEntry_headers, setHeader_headers, if_true]
    exact if_pos some
  have refs : (w.closeSlot i).refs = Function.update w.refs o (w.refs o + 1) := by
    simp only [World.closeSlot, ho]
  have change : Recount o w (w.closeSlot i) := by
    refine ⟨?_, ?_, ?_, ?_, ?_, ?_, ?_, ?_, rfl, ?_, ?_, ?_⟩
    · intro p hp
      simp [state, hp]
    · simp [state]
    · simp [state]
    · simp [state]
    · intro p hp
      simp [refs, hp]
    · rw [state]
      rfl
    · intro t
      rw [state]
      by_cases ht : t = (w.ob.headers o).type <;> simp [ht, ObState.setHeader, ObState.setEntry]
    all_goals
      rw [state]
      rfl
  have slots : (w.closeSlot i).ob.handles = (w.ob.setEntry i .empty).handles := by
    rw [state]
    rfl
  have named : ∀ p, p ≠ 0 → namedBy (w.closeSlot i).ob p + (if o = p then 1 else 0) =
      namedBy w.ob p := by
    intro p hp
    have count := count p
    have vacant : ¬ HandleEntry.empty.object = p := fun h => hp h.symm
    rw [if_neg vacant, Nat.add_zero] at count
    rw [namedBy_congr (s := w.ob.setEntry i .empty) slots p]
    exact count
  have namedHere := named o used
  rw [if_pos rfl] at namedHere
  have oldPointers := acc.counted.pointers o live
  have oldHandles := acc.counted.handleCounts o live
  have bound := namedBy_le w.ob o
  have dec := longDec_of_pos (x := (w.ob.headers o).handleCount) (by omega) (by omega)
  have same : ((w.closeSlot i).ob.headers o).pointerCount = (w.ob.headers o).pointerCount := by
    simp [state]
  refine ⟨acc.placed.recount change live, acc.counted.recount change live ?_ ?_ ?_ ?_ ?_ ?_ ?_ ?_⟩
  · intro p hp hpo
    have now := named p (acc.placed.notNull hp)
    rw [if_neg (Ne.symm hpo), Nat.add_zero] at now
    exact now
  · rw [same, oldPointers, refs, Function.update_self]
    omega
  · rw [refs, Function.update_self]
    omega
  · rw [same]
    exact acc.counted.bounded o live
  · have value : ((w.closeSlot i).ob.headers o).handleCount =
        longDec (w.ob.headers o).handleCount := by
      simp [state]
    rw [value, dec, oldHandles]
    omega
  · intro j _ vacant
    rw [slots] at vacant ⊢
    by_cases hj : j = i
    · simp [hj, ObState.setEntry, HandleEntry.empty] at vacant
    · simp [ObState.setEntry, hj]
  · intro t
    have count := countType t
    have vacant : ¬ (HandleEntry.empty.object ≠ 0 ∧
        (w.ob.headers HandleEntry.empty.object).type = t) := fun h => h.1 rfl
    rw [if_neg vacant, Nat.add_zero] at count
    rw [handlesOf_congr (s := w.ob.setEntry i .empty) slots change.types]
    by_cases ht : t = (w.ob.headers o).type
    · subst ht
      have value : ((w.closeSlot i).ob.types (w.ob.headers o).type).totalHandles =
          (w.ob.types (w.ob.headers o).type).totalHandles - 1 := by
        simp [state]
      rw [value]
      omega
    · rw [if_neg (fun h => ht h.2.symm), Nat.add_zero] at count
      have value : ((w.closeSlot i).ob.types t).totalHandles =
          (w.ob.types t).totalHandles := by
        simp [state, ht, ObState.setHeader, ObState.setEntry]
      rw [value, count]
      exact acc.counted.totalHandles t
  · intro _
    rw [refs, Function.update_self]
    omega

/-- A caller gives a reference back. -/
def World.release (w : World) (o : ObjectRef) : World :=
  { w with
    ob := obDereferenceObject w.ob o
    refs := Function.update w.refs o (w.refs o - 1) }

/-- Giving up an object that is in no directory touches nothing but the object. -/
theorem obDereferenceObject_apart (unlinked : (s.headers o).parentDirectory = none) :
    (∀ p, p ≠ o → (obDereferenceObject s o).headers p = s.headers p) ∧
      ((obDereferenceObject s o).headers o).entries = (s.headers o).entries ∧
      ((obDereferenceObject s o).headers o).parentDirectory = none ∧
      (∀ p, p ≠ o → (obDereferenceObject s o).live p = s.live p) ∧
      (obDereferenceObject s o).rootDirectory = s.rootDirectory ∧
      (obDereferenceObject s o).directoryType = s.directoryType := by
  have kept : ∀ u : ObState, (u.headers o).parentDirectory = none → detach u o = u := by
    intro u none_
    simp only [detach, none_]
  have counted : ∀ x : Int, ((s.setHeader o { s.headers o with pointerCount := x }).headers
      o).parentDirectory = none := fun x => by simpa using unlinked
  simp only [obDereferenceObject]
  split
  · refine ⟨fun p other => ?_, ?_, ?_, fun _ _ => rfl, rfl, rfl⟩
    · simp [other]
    · simp
    · simp [unlinked]
  split
  · simp only [obpDeleteObject, kept _ (counted _)]
    split
    · refine ⟨fun p other => ?_, ?_, ?_, fun p other => ?_, rfl, rfl⟩
      · simp [other]
      · simp
      · simp [unlinked]
      · exact Function.update_of_ne other _ _
    · refine ⟨fun p other => ?_, ?_, ?_, fun p other => ?_, rfl, rfl⟩
      · simp [other]
      · simp
      · simp [unlinked]
      · exact Function.update_of_ne other _ _
  · refine ⟨fun p other => ?_, ?_, ?_, fun _ _ => rfl, rfl, rfl⟩
    · simp [other]
    · simp
    · simp [unlinked]

/-- Not the last reference: the object stays. -/
theorem Accounted.release_shared (acc : Accounted w) {o : ObjectRef}
    (held : (if o = w.ob.rootDirectory then 1 else 0) < w.refs o)
    (shared : 1 < namedBy w.ob o + linkedIn w.ob o + w.refs o) : Accounted (w.release o) := by
  have live := acc.counted.held o (by omega)
  have small := acc.counted.bounded o live
  have old := acc.counted.pointers o live
  have dec := longDec_of_pos (x := (w.ob.headers o).pointerCount) (by omega) small
  have state : (w.release o).ob = w.ob.setHeader o
      { w.ob.headers o with pointerCount := (w.ob.headers o).pointerCount - 1 } := by
    simp only [World.release, obDereferenceObject, dec]
    rw [if_neg (by omega), if_neg (by omega)]
  have refs : (w.release o).refs o = w.refs o - 1 := by
    simp [World.release]
  have change : Recount o w (w.release o) := by
    refine ⟨?_, ?_, ?_, ?_, ?_, ?_, ?_, ?_, rfl, ?_, ?_, ?_⟩
    · intro p hp
      simp [state, hp]
    · simp [state]
    · simp [state]
    · simp [state]
    · intro p hp
      simp [World.release, hp]
    · rw [state]
      rfl
    · intro t
      rw [state]
      rfl
    all_goals
      rw [state]
      rfl
  have slots : (w.release o).ob.handles = w.ob.handles := by
    rw [state]
    rfl
  have named := namedBy_congr slots
  have count : ((w.release o).ob.headers o).pointerCount =
      (w.ob.headers o).pointerCount - 1 := by
    simp [state]
  refine ⟨acc.placed.recount change live, acc.counted.recount change live ?_ ?_ ?_ ?_ ?_ ?_ ?_ ?_⟩
  · intro p _ _
    exact named p
  · rw [count, old, named, refs]
    omega
  · rw [named, refs]
    omega
  · rw [count]
    omega
  · have same : ((w.release o).ob.headers o).handleCount = (w.ob.headers o).handleCount := by
      simp [state]
    rw [same, named]
    exact acc.counted.handleCounts o live
  · intro i _ _
    rw [slots]
    exact Or.inr rfl
  · intro t
    have same : ((w.release o).ob.types t).totalHandles = (w.ob.types t).totalHandles := by
      rw [state]
      rfl
    rw [same, handlesOf_congr slots change.types]
    exact acc.counted.totalHandles t
  · intro hr
    rw [if_pos hr] at held
    omega

/-- The objects without `o`. -/
def World.without (w : World) (o : ObjectRef) : ObState :=
  { (w.ob.setHeader o { w.ob.headers o with pointerCount := 0 }).setType
      (w.ob.headers o).type { w.ob.types (w.ob.headers o).type with
        totalObjects := (w.ob.types (w.ob.headers o).type).totalObjects - 1 } with
    live := Function.update w.ob.live o false
    deleted := w.ob.deleted ++ [o] }

theorem release_last_state (last : (w.ob.headers o).pointerCount = 1)
    (unlinked : (w.ob.headers o).parentDirectory = none)
    (total : (w.ob.types (w.ob.headers o).type).totalObjects ≠ 0) :
    (w.release o).ob = w.without o := by
  have dec := longDec_of_pos (x := (w.ob.headers o).pointerCount) (by omega) (by omega)
  rw [last] at dec
  have kept : ∀ s : ObState, (s.headers o).parentDirectory = none → detach s o = s := by
    intro s h
    simp only [detach, h]
  simp only [World.release, obDereferenceObject, last, dec, Int.sub_self]
  rw [if_neg (by decide), if_pos trivial]
  simp only [obpDeleteObject]
  rw [kept _ (by simpa using unlinked), setHeader_headers, if_pos rfl]
  have sameTypes : ∀ h, (w.ob.setHeader o h).types = w.ob.types := fun _ => rfl
  simp only [sameTypes]
  rw [if_pos total]
  rfl

theorem LiveSet.erase {u : ObState} {L : Finset ObjectRef} (liveSet : LiveSet s L)
    {o : ObjectRef} (live : s.live o = true)
    (same : u.live = Function.update s.live o false)
    (types : ∀ p, (u.headers p).type = (s.headers p).type)
    (totals : ∀ t, (u.types t).totalObjects =
      (s.types t).totalObjects - if (s.headers o).type = t then 1 else 0) :
    LiveSet u (L.erase o) where
  mem := fun p => by
    rw [Finset.mem_erase, liveSet.mem, same]
    by_cases hp : p = o <;> simp [hp]
  window := fun p hp => liveSet.window p (Finset.mem_of_mem_erase hp)
  totals := fun t => by
    have member : o ∈ L := (liveSet.mem o).mpr live
    rw [totals, liveSet.totals t, Finset.filter_erase]
    simp only [types]
    by_cases ht : (s.headers o).type = t
    · rw [if_pos ht, Finset.card_erase_of_mem (Finset.mem_filter.mpr ⟨member, ht⟩)]
    · have absent : o ∉ L.filter fun p => (s.headers p).type = t :=
        fun h => ht (Finset.mem_filter.mp h).2
      rw [if_neg ht, Finset.erase_eq_of_notMem absent, Nat.sub_zero]

section Without

variable {p : ObjectRef}

theorem without_headers (other : p ≠ o) : (w.without o).headers p = w.ob.headers p := by
  simp [World.without, other]

theorem without_type (p : ObjectRef) : ((w.without o).headers p).type = (w.ob.headers p).type := by
  by_cases hp : p = o <;> simp [World.without, hp]

theorem without_survivor (alive : (w.without o).live p = true) : w.ob.live p = true ∧ p ≠ o := by
  by_cases hp : p = o
  · simp [World.without, hp] at alive
  · simpa [World.without, hp] using alive

theorem without_stays (alive : w.ob.live p = true) (other : p ≠ o) :
    (w.without o).live p = true := by
  simpa [World.without, other] using alive

end Without

theorem Placed.release_last (placed : Placed w) (live : w.ob.live o = true)
    (unlinked : (w.ob.headers o).parentDirectory = none)
    (state : (w.release o).ob = w.without o) : Placed (w.release o) := by
  obtain ⟨L, liveSet⟩ := placed.liveSet
  constructor <;> rw [state]
  · intro d hd q hq
    obtain ⟨hd, hdo⟩ := without_survivor hd
    rw [without_headers hdo] at hq
    obtain ⟨hq, parent⟩ := placed.entries d hd q hq
    have hqo : q ≠ o := by
      rintro rfl
      rw [unlinked] at parent
      exact absurd parent (by simp)
    rw [without_headers hqo]
    exact ⟨without_stays hq hqo, parent⟩
  · intro d hd
    obtain ⟨hd, hdo⟩ := without_survivor hd
    rw [without_headers hdo]
    exact placed.once d hd
  · intro p hp d hd
    obtain ⟨hp, hpo⟩ := without_survivor hp
    rw [without_headers hpo] at hd
    rw [World.without, List.mem_append, List.mem_singleton]
    by_cases hdo : d = o
    · exact Or.inr (Or.inr hdo)
    · rcases placed.parents p hp d hd with ⟨alive, listed⟩ | gone
      · rw [← World.without, without_headers hdo]
        exact Or.inl ⟨without_stays alive hdo, listed⟩
      · exact Or.inr (Or.inl gone)
  · refine ⟨_, liveSet.erase live rfl without_type ?_⟩
    intro t
    by_cases ht : t = (w.ob.headers o).type
    · simp [World.without, ht]
    · simp [World.without, ht, Ne.symm ht, ObState.setHeader]
  · intro p
    have old := placed.incarnations p
    by_cases hp : p = o
    · subst hp
      simp only [live, if_true] at old
      simp [World.release, World.without, old]
    · simp [World.release, World.without, old, hp, Ne.symm hp]
  · intro p created dead
    by_cases hp : p = o
    · simp [World.without, hp]
    · rw [without_headers hp]
      exact placed.spent p created (by simpa [World.without, hp] using dead)
  · exact placed.directoryType
  · exact placed.running

theorem Counted.release_last (counted : Counted w) (unnamed : namedBy w.ob o = 0)
    (notRoot : w.ob.rootDirectory ≠ o) (once : w.refs o = 1)
    (state : (w.release o).ob = w.without o) : Counted (w.release o) := by
  have refs : (w.release o).refs = Function.update w.refs o 0 := by
    simp only [World.release, once]
  have slots : (w.without o).handles = w.ob.handles := rfl
  constructor <;> rw [state]
  · intro p hp
    obtain ⟨hp, hpo⟩ := without_survivor hp
    rw [namedBy_congr slots, refs, Function.update_of_ne hpo, linkedIn, without_headers hpo]
    exact counted.pointers p hp
  · intro p hp
    obtain ⟨hp, hpo⟩ := without_survivor hp
    rw [namedBy_congr slots, refs, Function.update_of_ne hpo, linkedIn, without_headers hpo]
    exact counted.positive p hp
  · intro p hp
    obtain ⟨hp, hpo⟩ := without_survivor hp
    rw [without_headers hpo]
    exact counted.bounded p hp
  · intro p hp
    obtain ⟨hp, hpo⟩ := without_survivor hp
    rw [namedBy_congr slots, without_headers hpo]
    exact counted.handleCounts p hp
  · intro i hi used
    exact without_stays (counted.slots i hi used) (slot_ne_of_namedBy unnamed hi)
  · intro p hp
    rw [refs] at hp
    by_cases hpo : p = o
    · simp [hpo] at hp
    · rw [Function.update_of_ne hpo] at hp
      exact without_stays (counted.held p hp) hpo
  · intro t
    rw [handlesOf_congr slots without_type, ← counted.totalHandles t]
    by_cases ht : t = (w.ob.headers o).type
    · simp [World.without, ht]
    · simp [World.without, ht, ObState.setHeader]
  · rw [refs]
    exact lt_of_lt_of_eq counted.rootHeld (Function.update_of_ne notRoot _ _).symm

/-- The last reference: the object is deleted, and nothing names it. -/
theorem Accounted.release_last (acc : Accounted w)
    (held : (if o = w.ob.rootDirectory then 1 else 0) < w.refs o)
    (last : namedBy w.ob o + linkedIn w.ob o + w.refs o = 1) : Accounted (w.release o) := by
  have live := acc.counted.held o (by omega)
  obtain ⟨L, liveSet⟩ := acc.placed.liveSet
  have unlinked : (w.ob.headers o).parentDirectory = none := by
    by_contra linked
    have : linkedIn w.ob o = 1 := if_neg linked
    omega
  have notRoot : w.ob.rootDirectory ≠ o := by
    intro hr
    rw [if_pos hr.symm] at held
    omega
  have total : (w.ob.types (w.ob.headers o).type).totalObjects ≠ 0 := by
    rw [liveSet.totals]
    exact Finset.card_ne_zero_of_mem
      (Finset.mem_filter.mpr ⟨(liveSet.mem o).mpr live, rfl⟩)
  have pointer := acc.counted.pointers o live
  have state := release_last_state (w := w) (by omega) unlinked total
  exact ⟨acc.placed.release_last live unlinked state,
    acc.counted.release_last (by omega) notRoot (by omega) state⟩

theorem Accounted.release (acc : Accounted w) {o : ObjectRef}
    (held : (if o = w.ob.rootDirectory then 1 else 0) < w.refs o) : Accounted (w.release o) := by
  by_cases shared : 1 < namedBy w.ob o + linkedIn w.ob o + w.refs o
  · exact acc.release_shared held shared
  · exact acc.release_last held (by omega)

end Ob
