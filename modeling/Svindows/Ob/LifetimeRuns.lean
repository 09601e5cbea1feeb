import Svindows.Lib.Runs
import Svindows.Ob.Lifetime

/-!
# Runs of the object manager

Objects are made, linked into directories and looked up; with the operations on
references and handles these are all the ways a counter can move. In every run
in which no reference is taken to an object that already has 2^31 - 1 of them,
every counter counts what it should.
-/

namespace Ob

open Nt

/-- An object is made in a fresh block; the caller holds the first reference. -/
def World.create (w : World) (type : TypeRef) (o : ObjectRef) : World where
  ob := (obCreateObject w.ob type (some o) 1).2
  refs := Function.update w.refs o (w.refs o + 1)
  created := Function.update w.created o (w.created o + 1)

variable {s : ObState} {w : World}

theorem LiveSet.insert {u : ObState} {L : Finset ObjectRef} (liveSet : LiveSet s L)
    {o : ObjectRef} (fresh : s.live o = false) (window : InWindow o)
    (same : u.live = Function.update s.live o true)
    (types : ∀ p, p ≠ o → (u.headers p).type = (s.headers p).type)
    (totals : ∀ t, (u.types t).totalObjects =
      (s.types t).totalObjects + if (u.headers o).type = t then 1 else 0) :
    LiveSet u (insert o L) where
  mem := fun p => by
    rw [Finset.mem_insert, liveSet.mem, same]
    by_cases hp : p = o <;> simp [hp]
  window := fun p hp => by
    rcases Finset.mem_insert.mp hp with rfl | old
    · exact window
    · exact liveSet.window p old
  totals := fun t => by
    have absent : o ∉ L := by
      intro h
      rw [liveSet.mem, fresh] at h
      exact absurd h (by decide)
    have rest : (L.filter fun p => (u.headers p).type = t) =
        L.filter fun p => (s.headers p).type = t := by
      refine Finset.filter_congr ?_
      intro p hp
      have hpo : p ≠ o := by
        rintro rfl
        exact absent hp
      rw [types p hpo]
    rw [totals, liveSet.totals t, Finset.filter_insert, rest]
    by_cases ht : (u.headers o).type = t
    · rw [if_pos ht, if_pos ht, Finset.card_insert_of_notMem]
      exact fun h => absent (Finset.mem_filter.mp h).1
    · rw [if_neg ht, if_neg ht, Nat.add_zero]

theorem create_state (w : World) {type : TypeRef} (typed : type ≠ 0) (o : ObjectRef) :
    (w.create type o).ob = { w.ob.setHeader o (newHeader type) with
      live := Function.update w.ob.live o true
      types := Function.update w.ob.types type { w.ob.types type with
        totalObjects := wrap32 ((w.ob.types type).totalObjects + 1) } } := by
  have given : ¬ (type = 0 ∨ 1 = 0) := by simp [typed]
  simp only [World.create, obCreateObject, if_neg given]
  rfl

section Create

variable {type : TypeRef} {o p : ObjectRef}

theorem create_header (w : World) (typed : type ≠ 0) (o : ObjectRef) :
    (w.create type o).ob.headers o = newHeader type := by
  rw [create_state w typed o]
  exact Function.update_self _ _ _

theorem create_others (w : World) (typed : type ≠ 0) (other : p ≠ o) :
    (w.create type o).ob.headers p = w.ob.headers p := by
  rw [create_state w typed o]
  exact Function.update_of_ne other _ _

theorem create_live (w : World) (typed : type ≠ 0) (o : ObjectRef) :
    (w.create type o).ob.live = Function.update w.ob.live o true := by
  rw [create_state w typed o]

theorem create_handles (w : World) (typed : type ≠ 0) (o : ObjectRef) :
    (w.create type o).ob.handles = w.ob.handles := by
  rw [create_state w typed o]
  rfl

theorem create_deleted (w : World) (typed : type ≠ 0) (o : ObjectRef) :
    (w.create type o).ob.deleted = w.ob.deleted := by
  rw [create_state w typed o]
  rfl

theorem ne_of_fresh (fresh : w.ob.live o = false) (alive : w.ob.live p = true) : p ≠ o := by
  rintro rfl
  rw [fresh] at alive
  exact absurd alive (by decide)

theorem create_stays (typed : type ≠ 0) (fresh : w.ob.live o = false)
    (alive : w.ob.live p = true) : (w.create type o).ob.live p = true := by
  rw [create_live w typed, Function.update_of_ne (ne_of_fresh fresh alive)]
  exact alive

theorem create_before (typed : type ≠ 0) (alive : (w.create type o).ob.live p = true)
    (other : p ≠ o) : w.ob.live p = true := by
  rwa [create_live w typed, Function.update_of_ne other] at alive

theorem Counted.unnamed (counted : Counted w) (fresh : w.ob.live o = false)
    (window : InWindow o) : namedBy w.ob o = 0 := by
  have notNull : o ≠ 0 := by
    rintro rfl
    have := window.1
    simp [mmKernelHeapBase] at this
  refine namedBy_of_slot_ne ?_
  intro i hi h
  exact ne_of_fresh fresh (counted.slots i hi (by rw [h]; exact notNull)) h

theorem Counted.create_refs (counted : Counted w) (fresh : w.ob.live o = false) :
    (w.create type o).refs = Function.update w.refs o 1 := by
  have unheld : w.refs o = 0 := by
    by_contra some
    exact ne_of_fresh fresh (counted.held o (by omega)) rfl
  simp only [World.create, unheld]

theorem LiveSet.create_totals {L : Finset ObjectRef} (liveSet : LiveSet w.ob L)
    (typed : type ≠ 0) (o : ObjectRef) (t : TypeRef) :
    ((w.create type o).ob.types t).totalObjects =
      (w.ob.types t).totalObjects + if type = t then 1 else 0 := by
  rw [create_state w typed o]
  by_cases ht : type = t
  · subst ht
    have few := liveSet.few type
    rw [← liveSet.totals type] at few
    simp only [Function.update_self, if_true, wrap32]
    omega
  · simp [ht, Ne.symm ht]

theorem Placed.create (placed : Placed w) (typed : type ≠ 0) (fresh : w.ob.live o = false)
    (window : InWindow o) : Placed (w.create type o) := by
  obtain ⟨L, liveSet⟩ := placed.liveSet
  have here := create_header w typed o
  have lives := create_live w typed o
  have deleted := create_deleted w typed o
  refine ⟨?_, ?_, ?_, ⟨_, liveSet.insert fresh window lives (fun _ hp => ?_) ?_⟩, ?_, ?_, ?_, ?_⟩
  · intro d hd q hq
    by_cases hdo : d = o
    · rw [hdo, here] at hq
      exact absurd hq (by simp [newHeader])
    · rw [create_others w typed hdo] at hq
      obtain ⟨hq, parent⟩ := placed.entries d (create_before typed hd hdo) q hq
      rw [create_others w typed (ne_of_fresh fresh hq)]
      exact ⟨create_stays typed fresh hq, parent⟩
  · intro d hd
    by_cases hdo : d = o
    · rw [hdo, here]
      exact List.nodup_nil
    · rw [create_others w typed hdo]
      exact placed.once d (create_before typed hd hdo)
  · intro p hp d hd
    rw [deleted]
    by_cases hpo : p = o
    · rw [hpo, here] at hd
      exact absurd hd (by simp [newHeader])
    · rw [create_others w typed hpo] at hd
      -- a directory that was in the block before has been deleted
      rcases placed.parents p (create_before typed hp hpo) d hd with ⟨alive, listed⟩ | gone
      · rw [create_others w typed (ne_of_fresh fresh alive)]
        exact Or.inl ⟨create_stays typed fresh alive, listed⟩
      · exact Or.inr gone
  · rw [create_others w typed hp]
  · intro t
    rw [liveSet.create_totals typed o t, here]
    rfl
  · intro p
    have old := placed.incarnations p
    rw [deleted, lives]
    by_cases hp : p = o
    · subst hp
      simp only [fresh, Bool.false_eq_true, if_false, Nat.add_zero] at old
      simp [World.create, old]
    · simp [World.create, old, hp]
  · intro p created dead
    by_cases hp : p = o
    · rw [hp, lives, Function.update_self] at dead
      exact absurd dead (by decide)
    · rw [lives, Function.update_of_ne hp] at dead
      simp only [World.create, Function.update_of_ne hp] at created
      rw [create_others w typed hp]
      exact placed.spent p created dead
  · rw [create_state w typed o]
    exact placed.directoryType
  · rw [create_state w typed o]
    exact placed.running

theorem Counted.create (counted : Counted w) (typed : type ≠ 0) (fresh : w.ob.live o = false)
    (window : InWindow o) : Counted (w.create type o) := by
  have here := create_header w typed o
  have lives := create_live w typed o
  have slots := create_handles w typed o
  have refs : (w.create type o).refs = Function.update w.refs o 1 := counted.create_refs fresh
  have unnamed := counted.unnamed fresh window
  refine ⟨?_, ?_, ?_, ?_, ?_, ?_, ?_, ?_⟩
  · intro p hp
    rw [namedBy_congr slots, refs, linkedIn]
    by_cases hpo : p = o
    · rw [hpo, here, unnamed, Function.update_self]
      rfl
    · rw [create_others w typed hpo, Function.update_of_ne hpo]
      exact counted.pointers p (create_before typed hp hpo)
  · intro p hp
    rw [namedBy_congr slots, refs, linkedIn]
    by_cases hpo : p = o
    · rw [hpo, Function.update_self]
      omega
    · rw [create_others w typed hpo, Function.update_of_ne hpo]
      exact counted.positive p (create_before typed hp hpo)
  · intro p hp
    by_cases hpo : p = o
    · rw [hpo, here]
      simp [newHeader]
    · rw [create_others w typed hpo]
      exact counted.bounded p (create_before typed hp hpo)
  · intro p hp
    rw [namedBy_congr slots]
    by_cases hpo : p = o
    · rw [hpo, here, unnamed]
      rfl
    · rw [create_others w typed hpo]
      exact counted.handleCounts p (create_before typed hp hpo)
  · intro i hi used
    rw [slots] at used ⊢
    exact create_stays typed fresh (counted.slots i hi used)
  · intro p hp
    rw [refs] at hp
    by_cases hpo : p = o
    · rw [hpo, lives, Function.update_self]
    · rw [Function.update_of_ne hpo] at hp
      exact create_stays typed fresh (counted.held p hp)
  · intro t
    have same : ((w.create type o).ob.types t).totalHandles = (w.ob.types t).totalHandles := by
      rw [create_state w typed o]
      by_cases ht : t = type <;> simp [ht]
    have count : handlesOf (w.create type o).ob t = handlesOf w.ob t := by
      simp only [handlesOf, slots]
      refine congrArg Finset.card (Finset.filter_congr ?_)
      intro i hi
      refine and_congr_right ?_
      intro used
      have live := counted.slots i (Finset.mem_range.mp hi) used
      rw [create_others w typed (ne_of_fresh fresh live)]
    rw [same, count]
    exact counted.totalHandles t
  · have root : (w.create type o).ob.rootDirectory = w.ob.rootDirectory := by
      rw [create_state w typed o]
      rfl
    have hr := ne_of_fresh fresh (counted.held _ counted.rootHeld)
    rw [root, refs, Function.update_of_ne hr]
    exact counted.rootHeld

theorem Accounted.create (acc : Accounted w) (typed : type ≠ 0) (fresh : w.ob.live o = false)
    (window : InWindow o) : Accounted (w.create type o) :=
  ⟨acc.placed.create typed fresh window, acc.counted.create typed fresh window⟩

end Create

/-- What `ObInsertObjectByName` does once it has found the name free. -/
def World.link (w : World) (dir : ObjectRef) (name : Name) (o : ObjectRef) : World :=
  let s := w.ob.setHeader o { w.ob.headers o with
    name := some name
    parentDirectory := some dir }
  let s := s.setHeader dir { s.headers dir with entries := (s.headers dir).entries ++ [o] }
  { w with ob := obReferenceObject s o }

theorem link_headers (w : World) (dir : ObjectRef) (name : Name) (o p : ObjectRef) :
    (w.link dir name o).ob.headers p =
      { pointerCount := if p = o then longInc (w.ob.headers p).pointerCount
          else (w.ob.headers p).pointerCount
        handleCount := (w.ob.headers p).handleCount
        type := (w.ob.headers p).type
        name := if p = o then some name else (w.ob.headers p).name
        parentDirectory := if p = o then some dir else (w.ob.headers p).parentDirectory
        entries := if p = dir then (w.ob.headers p).entries ++ [o]
          else (w.ob.headers p).entries } := by
  simp only [World.link, obReferenceObject, setHeader_headers]
  by_cases hpo : p = o
  · subst hpo
    by_cases hpd : p = dir
    · subst hpd
      simp
    · simp [hpd]
  · by_cases hpd : p = dir
    · subst hpd
      simp [hpo]
    · simp [hpo, hpd]

theorem Accounted.link (acc : Accounted w) {dir o : ObjectRef} {name : Name}
    (liveDir : w.ob.live dir = true) (live : w.ob.live o = true)
    (unlinked : (w.ob.headers o).parentDirectory = none)
    (room : (w.ob.headers o).pointerCount < 2 ^ 31 - 1) : Accounted (w.link dir name o) := by
  obtain ⟨L, liveSet⟩ := acc.placed.liveSet
  have old := acc.counted.pointers o live
  have inc := longInc_of_lt (x := (w.ob.headers o).pointerCount) (by omega) room
  have types : ∀ p, ((w.link dir name o).ob.headers p).type = (w.ob.headers p).type :=
    fun p => by rw [link_headers]
  have parents : ∀ p, ((w.link dir name o).ob.headers p).parentDirectory =
      if p = o then some dir else (w.ob.headers p).parentDirectory := fun p => by rw [link_headers]
  have contents : ∀ p, ((w.link dir name o).ob.headers p).entries =
      if p = dir then (w.ob.headers p).entries ++ [o] else (w.ob.headers p).entries :=
    fun p => by rw [link_headers]
  have pointers : ∀ p, ((w.link dir name o).ob.headers p).pointerCount =
      if p = o then longInc (w.ob.headers p).pointerCount else (w.ob.headers p).pointerCount :=
    fun p => by rw [link_headers]
  have handleCounts : ∀ p, ((w.link dir name o).ob.headers p).handleCount =
      (w.ob.headers p).handleCount := fun p => by rw [link_headers]
  have named : ∀ p, namedBy (w.link dir name o).ob p = namedBy w.ob p := fun p => namedBy_congr rfl p
  have linkedHere : linkedIn (w.link dir name o).ob o = linkedIn w.ob o + 1 := by
    simp [linkedIn, parents, unlinked]
  have linkedOther : ∀ p, p ≠ o → linkedIn (w.link dir name o).ob p = linkedIn w.ob p := by
    intro p hp
    simp [linkedIn, parents, hp]
  -- the object is in no directory yet
  have unlisted : ∀ d, w.ob.live d = true → o ∉ (w.ob.headers d).entries := by
    intro d hd listed
    have parent := (acc.placed.entries d hd o listed).2
    rw [unlinked] at parent
    exact absurd parent (by simp)
  refine ⟨⟨?_, ?_, ?_, ⟨L, liveSet.congr rfl types (fun _ => rfl)⟩, acc.placed.incarnations, ?_,
    acc.placed.directoryType, acc.placed.running⟩,
    ⟨?_, ?_, ?_, ?_, acc.counted.slots, acc.counted.held, ?_, acc.counted.rootHeld⟩⟩
  · intro d hd q hq
    rw [contents] at hq
    rw [parents]
    have others : q ∈ (w.ob.headers d).entries → w.ob.live q = true ∧
        (if q = o then some dir else (w.ob.headers q).parentDirectory) = some d := by
      intro listed
      have hqo : q ≠ o := by
        rintro rfl
        exact unlisted d hd listed
      rw [if_neg hqo]
      exact acc.placed.entries d hd q listed
    by_cases hdd : d = dir
    · rw [if_pos hdd, List.mem_append, List.mem_singleton] at hq
      rcases hq with listed | rfl
      · exact others listed
      · rw [if_pos rfl, hdd]
        exact ⟨live, rfl⟩
    · rw [if_neg hdd] at hq
      exact others hq
  · intro d hd
    rw [contents]
    by_cases hdd : d = dir
    · rw [if_pos hdd]
      exact List.Nodup.append (acc.placed.once d hd) (List.nodup_singleton o)
        (List.disjoint_singleton.mpr (unlisted d hd))
    · rw [if_neg hdd]
      exact acc.placed.once d hd
  · intro p hp d hd
    rw [parents] at hd
    rw [contents]
    by_cases hpo : p = o
    · rw [if_pos hpo] at hd
      obtain rfl := Option.some.inj hd
      rw [if_pos rfl, hpo]
      exact Or.inl ⟨liveDir, List.mem_append_right _ (List.mem_singleton_self o)⟩
    · rw [if_neg hpo] at hd
      rcases acc.placed.parents p hp d hd with ⟨alive, listed⟩ | gone
      · refine Or.inl ⟨alive, ?_⟩
        split
        · exact List.mem_append_left _ listed
        · exact listed
      · exact Or.inr gone
  · intro p created dead
    have hpo : p ≠ o := by
      rintro rfl
      rw [show (w.link dir name p).ob.live = w.ob.live from rfl, live] at dead
      exact absurd dead (by decide)
    rw [pointers, if_neg hpo]
    exact acc.placed.spent p created dead
  · intro p hp
    rw [pointers, named]
    by_cases hpo : p = o
    · rw [if_pos hpo, hpo, inc, old, linkedHere]
      simp only [World.link]
      omega
    · rw [if_neg hpo, linkedOther p hpo]
      exact acc.counted.pointers p hp
  · intro p hp
    have some := acc.counted.positive p hp
    rw [named]
    simp only [World.link] at some ⊢
    by_cases hpo : p = o
    · subst hpo
      have more := linkedHere
      simp only [World.link] at more
      omega
    · have same := linkedOther p hpo
      simp only [World.link] at same
      omega
  · intro p hp
    rw [pointers]
    by_cases hpo : p = o
    · rw [if_pos hpo, hpo, inc]
      omega
    · rw [if_neg hpo]
      exact acc.counted.bounded p hp
  · intro p hp
    rw [handleCounts, named]
    exact acc.counted.handleCounts p hp
  · intro t
    rw [handlesOf_congr (s := w.ob) (u := (w.link dir name o).ob) rfl types]
    exact acc.counted.totalHandles t

inductive LifeOp where
  | create (type : TypeRef) (block : Option ObjectRef) (out : Nat)
  | reference (object : ObjectRef)
  | dereference (object : ObjectRef)
  | createHandle (object : ObjectRef) (access : AccessMask) (out : Nat)
  | referenceByHandle (handle : Nat) (desired : AccessMask) (type : TypeRef) (out : Nat)
  | closeHandle (handle : Nat)
  | insert (dir : ObjectRef) (name : Option Name) (object : ObjectRef)
  | createDirectory (parent : ObjectRef) (name : Option Name) (block : Option ObjectRef)
  | lookup (path : Option Name) (out : Nat)

/-- The object a successful call hands to its caller with a reference. -/
def World.handOut (w : World) (r : NtStatus × ObjectRef × ObState) : World :=
  { w with
    ob := r.2.2
    refs := if ntSuccess r.1 then Function.update w.refs r.2.1 (w.refs r.2.1 + 1) else w.refs }

def World.after (w : World) : LifeOp → World
  | .create type block out =>
    match block with
    | none => { w with ob := (obCreateObject w.ob type none out).2 }
    | some o =>
      let r := obCreateObject w.ob type (some o) out
      { ob := r.2
        refs := if ntSuccess r.1 then Function.update w.refs o (w.refs o + 1) else w.refs
        created := if ntSuccess r.1 then Function.update w.created o (w.created o + 1)
          else w.created }
  | .reference o => w.reference o
  | .dereference o => w.release o
  | .createHandle o access out => { w with ob := (obCreateHandle w.ob o access out).2.2 }
  | .referenceByHandle handle desired type out =>
    w.handOut (obReferenceObjectByHandle w.ob handle desired type out)
  | .closeHandle handle => { w with ob := (obCloseHandle w.ob handle).2 }
  | .insert dir name o => { w with ob := (obInsertObjectByName w.ob dir name o).2 }
  | .createDirectory parent name block =>
    match block with
    | none => { w with ob := (obCreateDirectory w.ob parent name none).2 }
    | some o =>
      let r := obCreateDirectory w.ob parent name (some o)
      { ob := r.2
        refs := if ntSuccess r.1 then Function.update w.refs o (w.refs o + 1) else w.refs
        created :=
          if ntSuccess (obCreateObject w.ob w.ob.directoryType (some o) 1).1 then
            Function.update w.created o (w.created o + 1) else w.created }
  | .lookup path out => w.handOut (obLookupObjectByName w.ob path out)

/-- A block the pool may grant. -/
def Grantable (s : ObState) (block : Option ObjectRef) : Prop :=
  ∀ o, block = some o → s.live o = false ∧ InWindow o

/-- A directory argument: null or a directory. -/
def IsDirectory (s : ObState) (dir : ObjectRef) : Prop :=
  dir = 0 ∨ (s.live dir = true ∧ (s.headers dir).type = s.directoryType)

/-- What the callers promise: pointers are null or point to objects, only a
holder gives a reference back, and no object is inserted twice. -/
def Allowed (w : World) : LifeOp → Prop
  | .create _ block _ => Grantable w.ob block
  | .reference o => w.ob.live o = true
  | .dereference o => (if o = w.ob.rootDirectory then 1 else 0) < w.refs o
  | .createHandle o _ _ => o = 0 ∨ w.ob.live o = true
  | .insert dir _ o => IsDirectory w.ob dir ∧
      (o = 0 ∨ (w.ob.live o = true ∧ (w.ob.headers o).parentDirectory = none))
  | .createDirectory parent _ block => IsDirectory w.ob parent ∧ Grantable w.ob block
  | .referenceByHandle .. | .closeHandle _ | .lookup .. => True

/-- The object an operation takes a reference to, if it succeeds. -/
def LifeOp.target (s : ObState) : LifeOp → Option ObjectRef
  | .reference o | .createHandle o _ _ | .insert _ _ o => some o
  | .referenceByHandle handle _ _ _ => (handleToIndex handle).map fun i => (s.handles i).object
  | .lookup path out => some (obLookupObjectByName s path out).2.1
  | .create .. | .dereference _ | .closeHandle _ | .createDirectory .. => none

/-- The operation's object has room for one more reference. -/
def Room (s : ObState) (op : LifeOp) : Prop :=
  ∀ o, op.target s = some o → s.live o = true → (s.headers o).pointerCount < 2 ^ 31 - 1

theorem Accounted.createHandle (acc : Accounted w) {o : ObjectRef}
    {access : AccessMask} {out : Nat} (allowed : o = 0 ∨ w.ob.live o = true)
    (room : w.ob.live o = true → (w.ob.headers o).pointerCount < 2 ^ 31 - 1) :
    Accounted { w with ob := (obCreateHandle w.ob o access out).2.2 } := by
  by_cases bad : o = 0 ∨ out = 0
  · simp only [obCreateHandle, if_pos bad]
    exact acc
  · have live : w.ob.live o = true := allowed.resolve_left fun h => bad (Or.inl h)
    simp only [obCreateHandle, if_neg bad]
    cases slot : freeSlot w.ob with
    | none => exact acc
    | some i =>
      obtain ⟨hi, free⟩ := freeSlot_some slot
      exact acc.openSlot hi free live (room live)

theorem Accounted.closeHandle (acc : Accounted w) (handle : Nat) :
    Accounted { w with ob := (obCloseHandle w.ob handle).2 } := by
  simp only [obCloseHandle]
  cases index : handleToIndex handle with
  | none => exact acc
  | some i =>
    have hi := (handleToIndex_some.mp index).1
    by_cases vacant : (w.ob.handles i).object = 0
    · simp only [if_pos vacant]
      exact acc
    · simp only [if_neg vacant]
      have closed := acc.closeSlot hi vacant
      have root := acc.counted.rootHeld
      have held : (if (w.ob.handles i).object = (w.closeSlot i).ob.rootDirectory then 1 else 0) <
          (w.closeSlot i).refs (w.ob.handles i).object := by
        have same : (w.closeSlot i).ob.rootDirectory = w.ob.rootDirectory := by
          simp only [World.closeSlot]
          split <;> rfl
        rw [same]
        simp only [World.closeSlot, Function.update_self]
        split
        · rename_i h
          rw [h]
          omega
        · omega
      have refs : ((w.closeSlot i).release (w.ob.handles i).object).refs = w.refs := by
        simp [World.release, World.closeSlot]
      have whole := closed.release held
      have same : (w.closeSlot i).release (w.ob.handles i).object =
          ⟨((w.closeSlot i).release (w.ob.handles i).object).ob, w.refs, w.created⟩ := by
        rw [← refs]
        rfl
      rw [same] at whole
      exact whole

theorem Accounted.insert (acc : Accounted w) (name : Option Name) {dir o : ObjectRef}
    (directory : IsDirectory w.ob dir)
    (object : o = 0 ∨ (w.ob.live o = true ∧ (w.ob.headers o).parentDirectory = none))
    (room : w.ob.live o = true → (w.ob.headers o).pointerCount < 2 ^ 31 - 1) :
    Accounted { w with ob := (obInsertObjectByName w.ob dir name o).2 } := by
  cases name with
  | none => exact acc
  | some name =>
    simp only [obInsertObjectByName]
    by_cases bad : dir = 0 ∨ o = 0
    · simp only [if_pos bad]
      exact acc
    · simp only [if_neg bad]
      split
      · exact acc
      · obtain ⟨live, unlinked⟩ := object.resolve_left fun h => bad (Or.inr h)
        have liveDir := (directory.resolve_left fun h => bad (Or.inl h)).1
        exact acc.link liveDir live unlinked (room live)

theorem insert_fails {dir o : ObjectRef} {name : Option Name}
    (failed : ¬ ntSuccess (obInsertObjectByName s dir name o).1 = true) :
    (obInsertObjectByName s dir name o).2 = s := by
  cases name with
  | none => rfl
  | some name =>
    simp only [obInsertObjectByName] at failed ⊢
    split
    · rfl
    · rename_i given
      rw [if_neg given] at failed
      split
      · rfl
      · rename_i free
        rw [if_neg free] at failed
        exact absurd rfl failed

theorem resolve_live (placed : Placed w) (fuel : Nat) :
    ∀ (dir : ObjectRef) (path : Name), w.ob.live dir = true →
      ntSuccess (resolve w.ob fuel dir path).1 = true →
      w.ob.live (resolve w.ob fuel dir path).2 = true := by
  induction fuel with
  | zero =>
    intro dir path _ success
    exact absurd success (by simp [resolve, ntSuccess, statusObjectNameInvalid])
  | succ fuel ih =>
    intro dir path live success
    simp only [resolve] at success ⊢
    split at success
    · exact absurd success (by simp [ntSuccess, statusObjectNameInvalid])
    · rename_i named
      rw [if_neg named]
      cases found : obpFindInDirectory w.ob dir (path.takeWhile (· ≠ '\\')) with
      | none =>
        simp only [found] at success
        split at success <;>
          exact absurd success
            (by simp [ntSuccess, statusObjectNameNotFound, statusObjectPathNotFound])
      | some o =>
        have listed := List.mem_of_find?_eq_some found
        have alive := (placed.entries dir live o listed).1
        simp only [found] at success ⊢
        split at success
        · rename_i last
          rw [if_pos last]
          exact alive
        · rename_i more
          rw [if_neg more]
          split at success
          · exact absurd success (by simp [ntSuccess, statusObjectPathNotFound])
          · rename_i directory
            rw [if_neg directory]
            exact ih o _ alive success

/-- The outcome of a call that hands out an object: a reference to a live one,
or nothing changed. -/
def Outcome (s : ObState) (r : NtStatus × ObjectRef × ObState) : Prop :=
  (ntSuccess r.1 = true ∧ s.live r.2.1 = true ∧ r.2.2 = obReferenceObject s r.2.1) ∨
  (ntSuccess r.1 = false ∧ r.2.2 = s)

theorem lookup_outcome (acc : Accounted w) (path : Option Name) (out : Nat) :
    Outcome w.ob (obLookupObjectByName w.ob path out) := by
  have root := acc.counted.held _ acc.counted.rootHeld
  have invalid : Outcome w.ob (statusObjectNameInvalid, 0, w.ob) := Or.inr ⟨rfl, rfl⟩
  unfold obLookupObjectByName
  split
  · rename_i rest
    split
    · exact invalid
    · split
      · exact Or.inl ⟨rfl, root, rfl⟩
      · have below := resolve_live acc.placed (rest.length + 1) w.ob.rootDirectory rest root
        generalize resolve w.ob (rest.length + 1) w.ob.rootDirectory rest = r at below
        obtain ⟨status, o⟩ := r
        simp only at below ⊢
        split
        · rename_i found
          exact Or.inl ⟨found, below found, rfl⟩
        · rename_i failed
          exact Or.inr ⟨Bool.eq_false_iff.mpr failed, rfl⟩
  · exact invalid

theorem byHandle_outcome (acc : Accounted w) {handle i : Nat}
    (index : handleToIndex handle = some i) (desired : AccessMask) (type : TypeRef) (out : Nat) :
    Outcome w.ob (obReferenceObjectByHandle w.ob handle desired type out) ∧
      (ntSuccess (obReferenceObjectByHandle w.ob handle desired type out).1 = true →
        (obReferenceObjectByHandle w.ob handle desired type out).2.1 =
          (w.ob.handles i).object) := by
  have hi := (handleToIndex_some.mp index).1
  have refused : ∀ status, ntSuccess status = false →
      Outcome w.ob (status, 0, w.ob) ∧ (ntSuccess (status, (0 : ObjectRef), w.ob).1 = true →
        (status, (0 : ObjectRef), w.ob).2.1 = (w.ob.handles i).object) := by
    intro status failed
    refine ⟨Or.inr ⟨failed, rfl⟩, ?_⟩
    intro success
    exact absurd (failed.symm.trans success) (by decide)
  simp only [obReferenceObjectByHandle, index]
  split
  · exact refused _ rfl
  · rename_i used
    split
    · exact refused _ rfl
    · split
      · exact refused _ rfl
      · have live := acc.counted.slots i hi fun h => used (Or.inr h)
        exact ⟨Or.inl ⟨rfl, live, rfl⟩, fun _ => rfl⟩

theorem Accounted.handOut (acc : Accounted w) {r : NtStatus × ObjectRef × ObState}
    (outcome : Outcome w.ob r)
    (room : ntSuccess r.1 = true → (w.ob.headers r.2.1).pointerCount < 2 ^ 31 - 1) :
    Accounted (w.handOut r) := by
  rcases outcome with ⟨success, live, state⟩ | ⟨failed, state⟩
  · have same : w.handOut r = w.reference r.2.1 := by
      simp only [World.handOut, World.reference, if_pos success, state]
    rw [same]
    exact acc.reference live (room success)
  · have same : w.handOut r = w := by
      simp [World.handOut, failed, state]
    rw [same]
    exact acc

/-- A directory is made and linked, or made and given up again. -/
theorem Accounted.createDirectory (acc : Accounted w) {parent o : ObjectRef}
    {name : Option Name} (directory : IsDirectory w.ob parent) (fresh : w.ob.live o = false)
    (window : InWindow o) : Accounted (w.after (.createDirectory parent name (some o))) := by
  have typed := acc.placed.directoryType
  have made := acc.create typed fresh window
  have success : (obCreateObject w.ob w.ob.directoryType (some o) 1).1 = statusSuccess := by
    simp [obCreateObject, typed]
  have live : (w.create w.ob.directoryType o).ob.live o = true := by
    simp [World.create, obCreateObject, typed, ObState.setType]
  have header : (w.create w.ob.directoryType o).ob.headers o = newHeader w.ob.directoryType := by
    simp [World.create, obCreateObject, typed, ObState.setHeader]
  have state : (obCreateObject w.ob w.ob.directoryType (some o) 1).2 =
    (w.create w.ob.directoryType o).ob := rfl
  have good : ntSuccess statusSuccess = true := rfl
  simp only [World.after, obCreateDirectory, success, state, good]
  by_cases outside : parent = 0
  · simp only [if_pos outside, good, if_true]
    exact made
  · simp only [if_neg outside]
    obtain ⟨liveParent, typedParent⟩ := directory.resolve_left outside
    have different : parent ≠ o := by
      rintro rfl
      rw [fresh] at liveParent
      exact absurd liveParent (by decide)
    have still : IsDirectory (w.create w.ob.directoryType o).ob parent := by
      refine Or.inr ⟨?_, ?_⟩
      · simp [World.create, obCreateObject, typed, ObState.setType, different, liveParent]
      · simp [World.create, obCreateObject, typed, ObState.setHeader, ObState.setType, different,
          typedParent]
    have room : (newHeader w.ob.directoryType).pointerCount < 2 ^ 31 - 1 := by simp [newHeader]
    have inserted := made.insert name (o := o) still
      (Or.inr ⟨live, by rw [header]; rfl⟩) (fun _ => by rw [header]; exact room)
    by_cases done : ntSuccess
        (obInsertObjectByName (w.create w.ob.directoryType o).ob parent name o).1 = true
    · simp only [if_pos done, good, if_true]
      exact inserted
    · have unchanged := insert_fails done
      simp only [if_neg done, unchanged]
      have root := acc.counted.held _ acc.counted.rootHeld
      have notRoot : o ≠ (w.create w.ob.directoryType o).ob.rootDirectory := by
        intro h
        have same : (w.create w.ob.directoryType o).ob.rootDirectory = w.ob.rootDirectory := by
          simp [World.create, obCreateObject, typed, ObState.setHeader, ObState.setType]
        rw [same] at h
        rw [← h, fresh] at root
        exact absurd root (by decide)
      have held : (if o = (w.create w.ob.directoryType o).ob.rootDirectory then 1 else 0) <
          (w.create w.ob.directoryType o).refs o := by
        rw [if_neg notRoot]
        simp [World.create]
      have dropped := made.release held
      have refs : ((w.create w.ob.directoryType o).release o).refs = w.refs := by
        simp [World.release, World.create]
      have same : (w.create w.ob.directoryType o).release o =
          ⟨((w.create w.ob.directoryType o).release o).ob, w.refs,
            (w.create w.ob.directoryType o).created⟩ := by
        rw [← refs]
        rfl
      rw [same] at dropped
      simp only [if_true]
      exact dropped

theorem World.after_create (w : World) {type : TypeRef} {out : Nat} (typed : type ≠ 0)
    (stored : out ≠ 0) (o : ObjectRef) :
    w.after (.create type (some o) out) = w.create type o := by
  have here : ¬ (type = 0 ∨ out = 0) := by simp [typed, stored]
  have given : ¬ (type = 0 ∨ 1 = 0) := by simp [typed]
  simp only [World.after, World.create, obCreateObject, if_neg here, if_neg given]
  rfl

theorem Accounted.after (acc : Accounted w) {op : LifeOp} (allowed : Allowed w op)
    (room : Room w.ob op) : Accounted (w.after op) := by
  cases op with
  | create type block out =>
    cases block with
    | none =>
      simp only [World.after, obCreateObject]
      split <;> exact acc
    | some o =>
      obtain ⟨fresh, window⟩ := allowed o rfl
      by_cases bad : type = 0 ∨ out = 0
      · simp only [World.after, obCreateObject, if_pos bad]
        exact acc
      · have typed : type ≠ 0 := fun h => bad (Or.inl h)
        have made := acc.create typed fresh window
        rw [w.after_create typed (fun stored => bad (Or.inr stored)) o]
        exact made
  | reference o => exact acc.reference allowed (room o rfl allowed)
  | dereference o => exact acc.release allowed
  | createHandle o access out => exact acc.createHandle allowed (room o rfl)
  | referenceByHandle handle desired type out =>
    cases index : handleToIndex handle with
    | none =>
      simp only [World.after, obReferenceObjectByHandle, index]
      exact acc.handOut (Or.inr ⟨rfl, rfl⟩) (fun h => absurd h (by simp [ntSuccess,
        statusInvalidHandle]))
    | some i =>
      obtain ⟨outcome, object⟩ := byHandle_outcome acc index desired type out
      refine acc.handOut outcome ?_
      intro success
      rw [object success]
      refine room _ (by simp [LifeOp.target, index]) ?_
      rcases outcome with ⟨_, live, _⟩ | ⟨failed, _⟩
      · rw [object success] at live
        exact live
      · exact absurd (failed.symm.trans success) (by decide)
  | closeHandle handle => exact acc.closeHandle handle
  | insert dir name o => exact acc.insert name allowed.1 allowed.2 (room o rfl)
  | createDirectory parent name block =>
    cases block with
    | none =>
      have same : w.after (.createDirectory parent name none) = w := by
        simp [World.after, obCreateDirectory, obCreateObject, acc.placed.directoryType]
      rw [same]
      exact acc
    | some o =>
      obtain ⟨fresh, window⟩ := allowed.2 o rfl
      exact acc.createDirectory allowed.1 fresh window
  | lookup path out =>
    have outcome := lookup_outcome acc path out
    refine acc.handOut outcome ?_
    intro success
    refine room _ rfl ?_
    rcases outcome with ⟨_, live, _⟩ | ⟨failed, _⟩
    · exact live
    · exact absurd (failed.symm.trans success) (by decide)

theorem obCreateHandle_slot {k : Nat} (used : (s.handles k).object ≠ 0)
    (o : ObjectRef) (access : AccessMask) (out : Nat) :
    (obCreateHandle s o access out).2.2.handles k = s.handles k := by
  unfold obCreateHandle
  split
  · rfl
  · cases slot : freeSlot s with
    | none => rfl
    | some i =>
      have other : k ≠ i := by
        rintro rfl
        exact used (freeSlot_some slot).2
      exact Function.update_of_ne other _ _

theorem obCloseHandle_slot {k : Nat} {handle : Nat} (other : handle ≠ indexToHandle k) :
    (obCloseHandle s handle).2.handles k = s.handles k := by
  unfold obCloseHandle
  cases index : handleToIndex handle with
  | none => rfl
  | some i =>
    have apart : k ≠ i := by
      rintro rfl
      exact other (handleToIndex_some.mp index).2
    dsimp only
    split
    · rfl
    · rw [obDereferenceObject_handles]
      split
      · exact Function.update_of_ne apart _ _
      · exact Function.update_of_ne apart _ _

theorem World.handOut_handles {r : NtStatus × ObjectRef × ObState}
    (same : r.2.2.handles = w.ob.handles) : (w.handOut r).ob.handles = w.ob.handles :=
  same

theorem World.after_slot {op : LifeOp} {k : Nat}
    (used : (w.ob.handles k).object ≠ 0) (kept : op ≠ .closeHandle (indexToHandle k)) :
    (w.after op).ob.handles k = w.ob.handles k := by
  cases op with
  | create type block out =>
    cases block with
    | none => exact congrFun (obCreateObject_handles w.ob type none out) k
    | some o => exact congrFun (obCreateObject_handles w.ob type (some o) out) k
  | reference o => rfl
  | dereference o => exact congrFun (obDereferenceObject_handles w.ob o) k
  | createHandle o access out => exact obCreateHandle_slot used o access out
  | referenceByHandle handle desired type out =>
    refine congrFun (World.handOut_handles ?_) k
    unfold obReferenceObjectByHandle
    split
    · rfl
    · dsimp only
      split
      · rfl
      · split
        · rfl
        · split
          · rfl
          · rfl
  | closeHandle handle =>
    refine obCloseHandle_slot ?_
    rintro rfl
    exact kept rfl
  | insert dir name o => exact congrFun (obInsertObjectByName_handles w.ob dir name o) k
  | createDirectory parent name block =>
    cases block with
    | none => exact congrFun (obCreateDirectory_handles w.ob parent name none) k
    | some o => exact congrFun (obCreateDirectory_handles w.ob parent name (some o)) k
  | lookup path out =>
    refine congrFun (World.handOut_handles ?_) k
    unfold obLookupObjectByName
    split
    · split
      · rfl
      · split
        · rfl
        · dsimp only
          split
          · rfl
          · rfl
    · rfl

/-- No object is made where there is one. -/
theorem World.after_created {op : LifeOp} (allowed : Allowed w op) {o : ObjectRef}
    (live : w.ob.live o = true) : (w.after op).created o = w.created o := by
  have apart : ∀ b, w.ob.live b = false → o ≠ b := by
    rintro b dead rfl
    exact absurd (live.symm.trans dead) (by simp)
  cases op with
  | create type block out =>
    cases block with
    | none => rfl
    | some b =>
      simp only [World.after]
      split
      · exact Function.update_of_ne (apart b (allowed b rfl).1) _ _
      · rfl
  | createDirectory parent name block =>
    cases block with
    | none => rfl
    | some b =>
      simp only [World.after]
      split
      · exact Function.update_of_ne (apart b (allowed.2 b rfl).1) _ _
      · rfl
  | reference _ => rfl
  | dereference _ => rfl
  | createHandle _ _ _ => rfl
  | referenceByHandle _ _ _ _ => rfl
  | closeHandle _ => rfl
  | insert _ _ _ => rfl
  | lookup _ _ => rfl

/-- The root stays the root, and the record of deletions only grows. -/
structure Grows (s u : ObState) : Prop where
  root : u.rootDirectory = s.rootDirectory
  deleted : s.deleted <+: u.deleted

theorem Grows.refl (s : ObState) : Grows s s := ⟨rfl, List.prefix_refl _⟩

theorem Grows.trans {u v : ObState} (first : Grows s u) (second : Grows u v) : Grows s v :=
  ⟨second.root.trans first.root, first.deleted.trans second.deleted⟩

theorem obpDeleteObject_grows (s : ObState) (o : ObjectRef) : Grows s (obpDeleteObject s o) := by
  have detached : Grows s (detach s o) := by
    unfold detach
    split
    · exact .refl s
    · exact ⟨rfl, List.prefix_refl _⟩
  simp only [obpDeleteObject]
  generalize detach s o = d at detached ⊢
  have longer := detached.deleted.trans (List.prefix_append d.deleted [o])
  split
  · exact ⟨detached.root, longer⟩
  · exact ⟨detached.root, longer⟩

theorem obDereferenceObject_grows (s : ObState) (o : ObjectRef) :
    Grows s (obDereferenceObject s o) := by
  have counted : ∀ h, Grows s (s.setHeader o h) := fun _ => ⟨rfl, List.prefix_refl _⟩
  simp only [obDereferenceObject]
  split
  · exact ⟨rfl, List.prefix_refl _⟩
  split
  · exact (counted _).trans (obpDeleteObject_grows _ o)
  · exact counted _

theorem obCreateHandle_grows (s : ObState) (o : ObjectRef) (access : AccessMask) (out : Nat) :
    Grows s (obCreateHandle s o access out).2.2 := by
  unfold obCreateHandle
  split
  · exact .refl _
  split
  · exact .refl _
  · exact ⟨rfl, List.prefix_refl _⟩

theorem obCloseHandle_grows (s : ObState) (handle : Nat) :
    Grows s (obCloseHandle s handle).2 := by
  unfold obCloseHandle
  split
  · exact .refl _
  dsimp only
  split
  · exact .refl _
  · refine Grows.trans ?_ (obDereferenceObject_grows _ _)
    split
    · exact ⟨rfl, List.prefix_refl _⟩
    · exact ⟨rfl, List.prefix_refl _⟩

theorem obCreateObject_grows (s : ObState) (type : TypeRef) (block : Option ObjectRef)
    (out : Nat) : Grows s (obCreateObject s type block out).2 := by
  unfold obCreateObject
  split
  · exact .refl _
  split
  · exact .refl _
  · exact ⟨rfl, List.prefix_refl _⟩

theorem obInsertObjectByName_grows (s : ObState) (dir : ObjectRef) (name : Option Name)
    (o : ObjectRef) : Grows s (obInsertObjectByName s dir name o).2 := by
  unfold obInsertObjectByName
  split
  · exact .refl _
  split
  · exact .refl _
  split
  · exact .refl _
  · exact ⟨rfl, List.prefix_refl _⟩

theorem obCreateDirectory_grows (s : ObState) (parent : ObjectRef) (name : Option Name)
    (block : Option ObjectRef) : Grows s (obCreateDirectory s parent name block).2 := by
  have made := obCreateObject_grows s s.directoryType block 1
  simp only [obCreateDirectory]
  split
  · split
    · exact made
    split
    · exact made.trans (obInsertObjectByName_grows _ _ _ _)
    · exact (made.trans (obInsertObjectByName_grows _ _ _ _)).trans
        (obDereferenceObject_grows _ _)
  · exact made

theorem World.after_grows (w : World) (op : LifeOp) : Grows w.ob (w.after op).ob := by
  cases op with
  | create type block out =>
    cases block with
    | none => exact obCreateObject_grows w.ob type none out
    | some o => exact obCreateObject_grows w.ob type (some o) out
  | reference o => exact ⟨rfl, List.prefix_refl _⟩
  | dereference o => exact obDereferenceObject_grows w.ob o
  | createHandle o access out => exact obCreateHandle_grows w.ob o access out
  | referenceByHandle handle desired type out =>
    simp only [World.after, World.handOut, obReferenceObjectByHandle]
    split
    · exact .refl _
    split
    · exact .refl _
    split
    · exact .refl _
    split
    · exact .refl _
    · exact ⟨rfl, List.prefix_refl _⟩
  | closeHandle handle => exact obCloseHandle_grows w.ob handle
  | insert dir name o => exact obInsertObjectByName_grows w.ob dir name o
  | createDirectory parent name block =>
    cases block with
    | none => exact obCreateDirectory_grows w.ob parent name none
    | some o => exact obCreateDirectory_grows w.ob parent name (some o)
  | lookup path out =>
    simp only [World.after, World.handOut, obLookupObjectByName]
    split
    · split
      · exact .refl _
      split
      · exact ⟨rfl, List.prefix_refl _⟩
      split
      · exact ⟨rfl, List.prefix_refl _⟩
      · exact .refl _
    · exact .refl _

/-- The object manager after `ObInitialize`: the root directory is the only object. -/
structure Booted (w : World) : Prop where
  window : InWindow w.ob.rootDirectory
  typed : w.ob.directoryType ≠ 0
  root : w.ob.headers w.ob.rootDirectory =
    { newHeader w.ob.directoryType with name := some ['\\'] }
  live : ∀ o, w.ob.live o = decide (o = w.ob.rootDirectory)
  types : ∀ t, w.ob.types t = ⟨if w.ob.directoryType = t then 1 else 0, 0⟩
  handles : ∀ i, w.ob.handles i = .empty
  refs : ∀ o, w.refs o = if o = w.ob.rootDirectory then 1 else 0
  created : ∀ o, w.created o = if o = w.ob.rootDirectory then 1 else 0
  deleted : w.ob.deleted = []
  running : w.ob.bugCheck = false

theorem Booted.accounted (boot : Booted w) : Accounted w := by
  have isRoot : ∀ o, w.ob.live o = true → o = w.ob.rootDirectory := by
    intro o ho
    rw [boot.live] at ho
    exact of_decide_eq_true ho
  have unnamed : ∀ o, w.ob.live o = true → namedBy w.ob o = 0 := by
    intro o ho
    refine namedBy_of_slot_ne ?_
    intro i _ h
    rw [boot.handles] at h
    have window := boot.window.1
    rw [← isRoot o ho, ← h] at window
    simp [mmKernelHeapBase, HandleEntry.empty] at window
  have liveSet : LiveSet w.ob {w.ob.rootDirectory} := by
    refine ⟨?_, ?_, ?_⟩
    · intro o
      rw [Finset.mem_singleton, boot.live, decide_eq_true_eq]
    · intro o ho
      rw [Finset.mem_singleton.mp ho]
      exact boot.window
    · intro t
      rw [boot.types, Finset.filter_singleton, boot.root]
      by_cases ht : w.ob.directoryType = t <;> simp [newHeader, ht]
  refine ⟨⟨?_, ?_, ?_, ⟨_, liveSet⟩, ?_, ?_, boot.typed, boot.running⟩,
    ⟨?_, ?_, ?_, ?_, ?_, ?_, ?_, ?_⟩⟩
  · intro d hd o ho
    rw [isRoot d hd, boot.root] at ho
    exact absurd ho (by simp [newHeader])
  · intro d hd
    rw [isRoot d hd, boot.root]
    exact List.nodup_nil
  · intro o ho d hd
    rw [isRoot o ho, boot.root] at hd
    exact absurd hd (by simp [newHeader])
  · intro o
    rw [boot.created, boot.deleted, boot.live]
    by_cases ho : o = w.ob.rootDirectory <;> simp [ho]
  · intro o created dead
    rw [boot.live] at dead
    rw [boot.created, if_neg (of_decide_eq_false dead)] at created
    exact absurd created (by decide)
  · intro o ho
    rw [unnamed o ho, isRoot o ho, linkedIn, boot.refs, boot.root]
    simp [newHeader]
  · intro o ho
    rw [isRoot o ho, boot.refs, if_pos rfl]
    omega
  · intro o ho
    rw [isRoot o ho, boot.root]
    simp [newHeader]
  · intro o ho
    rw [unnamed o ho, isRoot o ho, boot.root]
    rfl
  · intro i _ used
    rw [boot.handles] at used
    exact absurd rfl used
  · intro o ho
    rw [boot.refs] at ho
    by_cases hr : o = w.ob.rootDirectory
    · rw [boot.live, hr]
      simp
    · rw [if_neg hr] at ho
      exact absurd ho (by decide)
  · intro t
    rw [boot.types, handlesOf]
    simp [boot.handles, HandleEntry.empty]
  · rw [boot.refs, if_pos rfl]
    decide

/-- One operation of a caller that keeps its promises. -/
def World.Step (w : World) (op : LifeOp) (u : World) : Prop :=
  Allowed w op ∧ u = w.after op

/-- Such an operation on an object with room for a reference. -/
def World.RoomyStep (w : World) (op : LifeOp) (u : World) : Prop :=
  w.Step op u ∧ Room w.ob op

/-- The lifetime accounting. -/
structure WellCounted (w : World) : Prop where
  pointerCount : ∀ o, w.ob.live o = true →
    (w.ob.headers o).pointerCount = (namedBy w.ob o + linkedIn w.ob o + w.refs o : Nat)
  bounded : ∀ o, w.ob.live o = true → (w.ob.headers o).pointerCount < 2 ^ 31
  handleCount : ∀ o, w.ob.live o = true →
    (w.ob.headers o).handleCount = (namedBy w.ob o : Nat)
  /-- Linked objects are listed once, in their directory, unless that was deleted. -/
  linked : ∀ o, w.ob.live o = true → ∀ d, (w.ob.headers o).parentDirectory = some d →
    (w.ob.live d = true ∧ (w.ob.headers d).entries.count o = 1) ∨ d ∈ w.ob.deleted
  totalObjects : ∀ t, ∃ L : Finset ObjectRef,
    (∀ o, o ∈ L ↔ w.ob.live o = true ∧ (w.ob.headers o).type = t) ∧
      (w.ob.types t).totalObjects = L.card
  totalHandles : ∀ t, (w.ob.types t).totalHandles = handlesOf w.ob t
  /-- Deleted exactly when the count reaches 0. -/
  deletedAtZero : ∀ o, 0 < w.created o →
    (w.ob.live o = false ↔ (w.ob.headers o).pointerCount = 0)
  /-- Each object made at an address is deleted once, the last unless it is live. -/
  deletedOnce : ∀ o, w.created o = w.ob.deleted.count o + if w.ob.live o then 1 else 0
  slotsLive : ∀ i, i < obMaxHandles → (w.ob.handles i).object ≠ 0 →
    w.ob.live (w.ob.handles i).object = true
  entriesLive : ∀ d, w.ob.live d = true → ∀ o ∈ (w.ob.headers d).entries,
    w.ob.live o = true ∧ (w.ob.headers o).parentDirectory = some d
  running : w.ob.bugCheck = false

theorem Accounted.wellCounted (acc : Accounted w) : WellCounted w := by
  obtain ⟨L, liveSet⟩ := acc.placed.liveSet
  refine ⟨acc.counted.pointers, acc.counted.bounded, acc.counted.handleCounts, ?_, ?_,
    acc.counted.totalHandles, ?_,
    acc.placed.incarnations, acc.counted.slots, acc.placed.entries, acc.placed.running⟩
  · intro o ho d hd
    rcases acc.placed.parents o ho d hd with ⟨alive, listed⟩ | gone
    · exact Or.inl ⟨alive, List.count_eq_one_of_mem (acc.placed.once d alive) listed⟩
    · exact Or.inr gone
  · intro t
    refine ⟨_, ?_, liveSet.totals t⟩
    intro o
    rw [Finset.mem_filter, liveSet.mem]
  · intro o created
    constructor
    · exact acc.placed.spent o created
    · intro zero
      rw [← Bool.not_eq_true]
      intro live
      have count := acc.counted.pointers o live
      have positive := acc.counted.positive o live
      omega

/-- A reference taken through a handle and given back leaves no trace. -/
theorem WellCounted.dereference_reference (counted : WellCounted w) {i : Nat}
    (hi : i < obMaxHandles) (used : (w.ob.handles i).object ≠ 0) :
    obDereferenceObject (obReferenceObject w.ob (w.ob.handles i).object)
      (w.ob.handles i).object = w.ob := by
  have live := counted.slotsLive i hi used
  have named : namedBy w.ob (w.ob.handles i).object ≠ 0 :=
    fun none => slot_ne_of_namedBy none hi rfl
  have count := counted.pointerCount _ live
  have bounded := counted.bounded _ live
  generalize (w.ob.handles i).object = o at *
  have back : longDec (longInc (w.ob.headers o).pointerCount) = (w.ob.headers o).pointerCount := by
    simp only [longDec, longInc, Int.bmod_sub_bmod, Int.add_sub_cancel]
    rw [Int.bmod_eq_of_le] <;> omega
  simp only [obDereferenceObject, obReferenceObject, setHeader_headers, if_true, back]
  rw [if_neg (by omega), if_neg (by omega)]
  simp [ObState.setHeader]

/-- In every run that never takes a reference to an object with 2^31 - 1 of
them, every counter counts what it should. -/
theorem lifetime_accounting {w : World} (run : Runs.Reachable Booted World.RoomyStep w) :
    WellCounted w := by
  have acc : Accounted w := by
    refine run.invariant (fun _ boot => boot.accounted) ?_
    rintro u op v acc ⟨⟨allowed, rfl⟩, room⟩
    exact acc.after allowed room
  exact acc.wellCounted

/-- A freshly booted object manager with its root directory at the heap's base. -/
def bootWorld : World where
  ob :=
    { headers := fun _ => { newHeader 1 with name := some ['\\'] }
      live := fun o => decide (o = mmKernelHeapBase)
      types := fun t => ⟨if 1 = t then 1 else 0, 0⟩
      handles := fun _ => .empty
      rootDirectory := mmKernelHeapBase
      directoryType := 1
      bugCheck := false
      deleted := [] }
  refs := fun o => if o = mmKernelHeapBase then 1 else 0
  created := fun o => if o = mmKernelHeapBase then 1 else 0

theorem bootWorld_booted : Booted bootWorld where
  window := ⟨Nat.le_refl _, by decide⟩
  typed := by decide
  root := rfl
  live := fun _ => rfl
  types := fun _ => rfl
  handles := fun _ => rfl
  refs := fun _ => rfl
  created := fun _ => rfl
  deleted := rfl
  running := rfl

/-- A system with an object that is open through the handle 4. -/
def openedWorld : World :=
  (bootWorld.create 2 (mmKernelHeapBase + 4096)).openSlot 0 (mmKernelHeapBase + 4096) genericAll

theorem openedWorld_accounted : Accounted openedWorld := by
  have made : Accounted (bootWorld.create 2 (mmKernelHeapBase + 4096)) :=
    bootWorld_booted.accounted.create (by decide) (by decide) ⟨by decide, by decide⟩
  exact made.openSlot (by decide) rfl (by decide) (by decide)

/-- An object is made and its only reference given back. -/
theorem lifetime_accounting_one_object :
    (((bootWorld.after (.create 2 (some (mmKernelHeapBase + 4096)) 1)).after
        (.dereference (mmKernelHeapBase + 4096))).ob.deleted = [mmKernelHeapBase + 4096]) ∧
      WellCounted ((bootWorld.after (.create 2 (some (mmKernelHeapBase + 4096)) 1)).after
        (.dereference (mmKernelHeapBase + 4096))) := by
  refine ⟨by decide, lifetime_accounting ?_⟩
  have boot : Runs.Reachable Booted World.RoomyStep bootWorld := .of_initial bootWorld_booted
  have made : bootWorld.RoomyStep (.create 2 (some (mmKernelHeapBase + 4096)) 1)
      (bootWorld.after (.create 2 (some (mmKernelHeapBase + 4096)) 1)) := by
    refine ⟨⟨?_, rfl⟩, ?_⟩
    · intro o ho
      obtain rfl := Option.some.inj ho
      exact ⟨by decide, ⟨by decide, by decide⟩⟩
    · intro o ho
      exact absurd ho (by simp [LifeOp.target])
  refine (boot.next made).next (l := .dereference (mmKernelHeapBase + 4096)) ⟨⟨?_, rfl⟩, ?_⟩
  · change _ < _
    decide
  · intro o ho
    exact absurd ho (by simp [LifeOp.target])

theorem many_references (n : Nat) (hn : n < 2 ^ 31 - 1) :
    ∃ w, Runs.Reachable Booted World.Step w ∧ Accounted w ∧
      w.ob.rootDirectory = mmKernelHeapBase ∧ w.refs mmKernelHeapBase = n + 1 ∧
      namedBy w.ob mmKernelHeapBase = 0 ∧ linkedIn w.ob mmKernelHeapBase = 0 := by
  induction n with
  | zero =>
    have acc := bootWorld_booted.accounted
    refine ⟨bootWorld, .of_initial bootWorld_booted, acc, rfl, rfl, ?_, rfl⟩
    refine namedBy_of_slot_ne ?_
    intro i _ h
    exact absurd h (by simp [bootWorld, HandleEntry.empty, mmKernelHeapBase])
  | succ n ih =>
    obtain ⟨w, run, acc, root, refs, named, linked⟩ := ih (by omega)
    have live := acc.counted.held mmKernelHeapBase (by omega)
    have count := acc.counted.pointers mmKernelHeapBase live
    have more := acc.reference live (by omega)
    have step : w.Step (.reference mmKernelHeapBase) (w.reference mmKernelHeapBase) := ⟨live, rfl⟩
    refine ⟨_, run.next step, more, root, ?_, named, ?_⟩
    · simp [World.reference, refs]
    · simpa [linkedIn, World.reference, obReferenceObject] using linked

/-- 2^31 - 1 references to an object make its count negative. -/
theorem reference_count_wraps :
    ¬ ∀ w, Runs.Reachable Booted World.Step w → WellCounted w := by
  intro claim
  obtain ⟨w, run, acc, root, refs, named, linked⟩ := many_references (2 ^ 31 - 2) (by decide)
  have live := acc.counted.held mmKernelHeapBase (by omega)
  have count := acc.counted.pointers mmKernelHeapBase live
  have step : w.Step (.reference mmKernelHeapBase) (w.reference mmKernelHeapBase) := ⟨live, rfl⟩
  have after := (claim _ (run.next step)).pointerCount mmKernelHeapBase live
  have wrapped : ((w.reference mmKernelHeapBase).ob.headers mmKernelHeapBase).pointerCount =
      longInc (w.ob.headers mmKernelHeapBase).pointerCount := by
    simp [World.reference, obReferenceObject]
  have value : (w.ob.headers mmKernelHeapBase).pointerCount = 2 ^ 31 - 1 := by omega
  have negative : longInc (2 ^ 31 - 1) = -2 ^ 31 := by decide
  rw [wrapped, value, negative] at after
  omega

end Ob
