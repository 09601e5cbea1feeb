import Svindows.Ob.LifetimeRuns

/-!
# Balanced references

A call is balanced when it leaves every object with a reference more for every
handle it has opened to it, and with no other change in the number: what it took
for its own use it has given back, and what it made and opened no handle to is
gone. The count can be at its bound, so a reference may make it negative; giving
that reference back is then a bug check, and the call does not return.
-/

namespace Ob

open Nt

/-- From `s` to `u` every pointer count has moved with the slots that name the object. -/
structure KeepsBalance (s u : ObState) : Prop where
  stays : ∀ o, s.live o = true → u.live o = true ∧
    (u.headers o).pointerCount - (s.headers o).pointerCount = (namedBy u o : Int) - namedBy s o
  made : ∀ o, s.live o = false → u.live o = true →
    (u.headers o).pointerCount = (namedBy u o : Nat) ∧ 0 < namedBy u o

theorem KeepsBalance.refl (s : ObState) : KeepsBalance s s where
  stays := fun o live => ⟨live, by omega⟩
  made := fun o dead live => absurd (dead.symm.trans live) (by decide)

/-- Both ends are accounted for, and the callers hold what they held. -/
theorem KeepsBalance.of_accounted {w v : World} (before : Accounted w) (after : Accounted v)
    (refs : v.refs = w.refs) (live : ∀ o, w.ob.live o = true → v.ob.live o = true)
    (links : ∀ o, v.ob.live o = true → (v.ob.headers o).parentDirectory =
      if w.ob.live o = true then (w.ob.headers o).parentDirectory else none) :
    KeepsBalance w.ob v.ob where
  stays := fun o old => by
    have linked : linkedIn v.ob o = linkedIn w.ob o := by
      simp only [linkedIn, links o (live o old), if_pos old]
    have first := before.counted.pointers o old
    have last := after.counted.pointers o (live o old)
    rw [refs, linked] at last
    exact ⟨live o old, by omega⟩
  made := fun o fresh new => by
    have unlinked : linkedIn v.ob o = 0 := by
      simp [linkedIn, links o new, fresh]
    have unheld : w.refs o = 0 := by
      by_contra held
      exact absurd (fresh.symm.trans (before.counted.held o (Nat.pos_of_ne_zero held))) (by decide)
    have count := after.counted.pointers o new
    have some := after.counted.positive o new
    rw [refs, unheld, unlinked] at count some
    exact ⟨by omega, by omega⟩

theorem longInc_range (x : Int) : -2 ^ 31 ≤ longInc x ∧ longInc x < 2 ^ 31 := by
  have low := Int.le_bmod (x := x + 1) (m := 2 ^ 32) (by decide)
  have high := Int.bmod_lt (x := x + 1) (m := 2 ^ 32) (by decide)
  simp only [longInc]
  omega

theorem longDec_longInc {x : Int} (lo : -2 ^ 31 ≤ x) (hi : x < 2 ^ 31) :
    longDec (longInc x) = x := by
  simp only [longDec, longInc, Int.bmod_sub_bmod, Int.add_sub_cancel]
  rw [Int.bmod_eq_of_le] <;> omega

/-- A reference given back leaves no trace, or stops the system. -/
theorem dereference_reference {s : ObState} {o : ObjectRef}
    (lo : -2 ^ 31 ≤ (s.headers o).pointerCount) (hi : (s.headers o).pointerCount < 2 ^ 31)
    (some : (s.headers o).pointerCount ≠ 0) :
    obDereferenceObject (obReferenceObject s o) o =
      if (s.headers o).pointerCount < 0 then { s with bugCheck := true } else s := by
  simp only [obDereferenceObject, obReferenceObject, setHeader_headers, if_true,
    longDec_longInc lo hi, if_neg some]
  split
  · simp [ObState.setHeader]
  · simp [ObState.setHeader]

theorem Accounted.dereference_reference {w : World} (acc : Accounted w) {o : ObjectRef}
    (live : w.ob.live o = true) : obDereferenceObject (obReferenceObject w.ob o) o = w.ob := by
  have count := acc.counted.pointers o live
  have some := acc.counted.positive o live
  have small := acc.counted.bounded o live
  rw [Ob.dereference_reference (by omega) small (by omega), if_neg (by omega)]

theorem obDereferenceObject_bugCheck {s : ObState} (stopped : s.bugCheck = true) (o : ObjectRef) :
    (obDereferenceObject s o).bugCheck = true := by
  have detached : ∀ u : ObState, (detach u o).bugCheck = u.bugCheck := by
    intro u
    simp only [detach]
    split <;> rfl
  simp only [obDereferenceObject]
  split
  · rfl
  split
  · simp only [obpDeleteObject]
    split
    · exact (detached _).trans stopped
    · exact (detached _).trans stopped
  · exact stopped

/-- An object that a handle names. -/
def InSlot (s : ObState) (o : ObjectRef) : Prop :=
  o ≠ 0 ∧ ∃ i, i < obMaxHandles ∧ (s.handles i).object = o

theorem byHandle_cases (s : ObState) (handle : Nat) (desired : AccessMask) (type : TypeRef)
    (out : Nat) {r : NtStatus × ObjectRef × ObState}
    (call : obReferenceObjectByHandle s handle desired type out = r) :
    (ntSuccess r.1 = true ∧ InSlot s r.2.1 ∧ r.2.2 = obReferenceObject s r.2.1) ∨
      (ntSuccess r.1 = false ∧ r.2.2 = s) := by
  subst call
  unfold obReferenceObjectByHandle
  cases index : handleToIndex handle with
  | none => exact Or.inr ⟨rfl, rfl⟩
  | some i =>
    dsimp only
    split
    · exact Or.inr ⟨rfl, rfl⟩
    rename_i used
    split
    · exact Or.inr ⟨rfl, rfl⟩
    split
    · exact Or.inr ⟨rfl, rfl⟩
    · exact Or.inl ⟨rfl, ⟨fun free => used (Or.inr free), i, (handleToIndex_some.mp index).1, rfl⟩,
        rfl⟩

theorem Accounted.inSlot_live {w : World} (acc : Accounted w) {o : ObjectRef}
    (named : InSlot w.ob o) : w.ob.live o = true := by
  obtain ⟨real, i, hi, rfl⟩ := named
  exact acc.counted.slots i hi real

/-- What a caller does with an object it has by handle, and then lets go. -/
theorem Accounted.byHandle {w : World} (acc : Accounted w) (handle : Nat) (type : TypeRef) :
    (ntSuccess (obReferenceObjectByHandle w.ob handle 0 type 1).1 = false →
      (obReferenceObjectByHandle w.ob handle 0 type 1).2.2 = w.ob) ∧
    (ntSuccess (obReferenceObjectByHandle w.ob handle 0 type 1).1 = true →
      obDereferenceObject (obReferenceObjectByHandle w.ob handle 0 type 1).2.2
        (obReferenceObjectByHandle w.ob handle 0 type 1).2.1 = w.ob) := by
  rcases byHandle_cases w.ob handle 0 type 1 rfl with ⟨success, named, state⟩ | ⟨failed, state⟩
  · rw [state]
    exact ⟨fun failed => absurd (failed.symm.trans success) (by decide),
      fun _ => acc.dereference_reference (acc.inSlot_live named)⟩
  · exact ⟨fun _ => state, fun success => absurd (failed.symm.trans success) (by decide)⟩

/-- Where no object is made, nothing changes. -/
theorem obCreateObject_refused {s : ObState} {type : TypeRef} {block : Option ObjectRef}
    {out : Nat} (refused : ∀ o, ntSuccess (obCreateObject s type block out).1 = true →
      block = some o → False) : (obCreateObject s type block out).2 = s := by
  unfold obCreateObject at refused ⊢
  split
  · rfl
  rename_i given
  cases block with
  | none => rfl
  | some o =>
    rw [if_neg given] at refused
    exact (refused o rfl rfl).elim

/-- Opening a handle makes and deletes nothing, and links nothing. -/
theorem obCreateHandle_frame (s : ObState) (o : ObjectRef) (access : AccessMask) (out : Nat) :
    (obCreateHandle s o access out).2.2.live = s.live ∧
      ∀ p, ((obCreateHandle s o access out).2.2.headers p).parentDirectory =
        (s.headers p).parentDirectory := by
  unfold obCreateHandle
  split
  · exact ⟨rfl, fun _ => rfl⟩
  cases freeSlot s with
  | none => exact ⟨rfl, fun _ => rfl⟩
  | some i =>
    refine ⟨rfl, ?_⟩
    intro p
    by_cases same : p = o
    · simp [obReferenceObject, same]
    · simp [obReferenceObject, same]

theorem Accounted.balanced_createHandle {w : World} (acc : Accounted w) {o : ObjectRef}
    (live : w.ob.live o = true) (room : (w.ob.headers o).pointerCount < 2 ^ 31 - 1)
    (access : AccessMask) : KeepsBalance w.ob (obCreateHandle w.ob o access 1).2.2 := by
  have opened : Accounted { w with ob := (obCreateHandle w.ob o access 1).2.2 } :=
    acc.createHandle (Or.inr live) fun _ => room
  obtain ⟨lives, links⟩ := obCreateHandle_frame w.ob o access 1
  refine KeepsBalance.of_accounted acc opened rfl ?_ ?_
  · intro p old
    rw [lives]
    exact old
  · intro p new
    rw [lives] at new
    rw [links, if_pos new]

/-- It makes no difference whether the opener takes its own reference before. -/
theorem createHandle_reference (s : ObState) (o : ObjectRef) (access : AccessMask) (out : Nat) :
    (obCreateHandle (obReferenceObject s o) o access out).2.2 =
      obReferenceObject (obCreateHandle s o access out).2.2 o := by
  have sameSlot : freeSlot (obReferenceObject s o) = freeSlot s := rfl
  simp only [obCreateHandle, sameSlot]
  split
  · rfl
  cases freeSlot s with
  | none => rfl
  | some i => simp [obReferenceObject, ObState.setHeader, ObState.setEntry, ObState.setType]

theorem createHandle_pointerCount (s : ObState) (o : ObjectRef) (access : AccessMask) (out : Nat) :
    (obCreateHandle s o access out).2.2 = s ∨
      ((obCreateHandle s o access out).2.2.headers o).pointerCount =
        longInc (s.headers o).pointerCount := by
  unfold obCreateHandle
  split
  · exact Or.inl rfl
  cases freeSlot s with
  | none => exact Or.inl rfl
  | some i => exact Or.inr (by simp [obReferenceObject])

/-- A caller opens a handle to an object it has a reference to and lets it go. -/
theorem Accounted.balanced_handOver {w : World} (acc : Accounted w) {o : ObjectRef}
    (live : w.ob.live o = true) (access : AccessMask)
    (runs : (obDereferenceObject (obCreateHandle (obReferenceObject w.ob o) o access 1).2.2
      o).bugCheck = false) :
    KeepsBalance w.ob
      (obDereferenceObject (obCreateHandle (obReferenceObject w.ob o) o access 1).2.2 o) := by
  have count := acc.counted.pointers o live
  have some := acc.counted.positive o live
  have small := acc.counted.bounded o live
  have room := fun below => acc.balanced_createHandle live below access
  rw [createHandle_reference] at runs ⊢
  rcases createHandle_pointerCount w.ob o access 1 with full | opened
  · rw [full, acc.dereference_reference live]
    exact .refl _
  · have range := longInc_range (w.ob.headers o).pointerCount
    have step : (w.ob.headers o).pointerCount < 2 ^ 31 - 1 ∨
        longInc (w.ob.headers o).pointerCount = -2 ^ 31 := by
      rcases Int.lt_or_eq_of_le (Int.le_sub_one_of_lt small) with below | top
      · exact Or.inl below
      · rw [top]
        exact Or.inr (by decide)
    rw [← opened] at range step
    have nonzero : ((obCreateHandle w.ob o access 1).2.2.headers o).pointerCount ≠ 0 := by
      rcases step with below | negative
      · rw [opened, longInc_of_lt (by omega) below]
        omega
      · omega
    rw [Ob.dereference_reference range.1 range.2 nonzero] at runs ⊢
    -- at the bound the count goes negative, and giving the reference back stops the system
    split at runs
    · exact absurd runs (by simp)
    · rename_i positive
      rw [if_neg positive]
      exact room (step.resolve_right (by omega))

/-- An object is made, a handle to it is opened if there is a slot, and the maker
lets it go. -/
theorem Accounted.balanced_openNew {w : World} (acc : Accounted w) {type : TypeRef}
    {o : ObjectRef} (typed : type ≠ 0) (fresh : w.ob.live o = false) (window : InWindow o)
    (access : AccessMask) :
    KeepsBalance w.ob (obDereferenceObject
      (obCreateHandle (obCreateObject w.ob type (some o) 1).2 o access 1).2.2 o) := by
  have made := acc.create typed fresh window
  have header := create_header w typed o
  have lives : (w.create type o).ob.live = Function.update w.ob.live o true := by
    rw [create_state w typed o]
  obtain ⟨sameLive, sameLinks⟩ := obCreateHandle_frame (w.create type o).ob o access 1
  have opened : Accounted { w.create type o with
      ob := (obCreateHandle (w.create type o).ob o access 1).2.2 } :=
    made.createHandle (Or.inr (by rw [lives]; exact Function.update_self _ _ _))
      (fun _ => by rw [header]; exact (by decide : (1 : Int) < 2 ^ 31 - 1))
  have root := acc.counted.held _ acc.counted.rootHeld
  have notRoot : o ≠ (obCreateHandle (w.create type o).ob o access 1).2.2.rootDirectory := by
    have kept : (obCreateHandle (w.create type o).ob o access 1).2.2.rootDirectory =
        w.ob.rootDirectory := by
      have start : (w.create type o).ob.rootDirectory = w.ob.rootDirectory := by
        rw [create_state w typed o]
        rfl
      rw [← start]
      unfold obCreateHandle
      split
      · rfl
      split <;> rfl
    rw [kept]
    rintro rfl
    exact absurd (fresh.symm.trans root) (by decide)
  have dropped := opened.release (o := o) (by
    rw [if_neg notRoot]
    simp [World.create])
  obtain ⟨headers, -, unlinked, others, -, -⟩ :=
    obDereferenceObject_apart (s := (obCreateHandle (w.create type o).ob o access 1).2.2) (o := o)
      (by rw [sameLinks, header]; rfl)
  have untouched : ∀ p, p ≠ o → (obDereferenceObject
      (obCreateHandle (w.create type o).ob o access 1).2.2 o).live p = w.ob.live p := by
    intro p other
    rw [others p other, sameLive, lives, Function.update_of_ne other]
  refine KeepsBalance.of_accounted acc dropped ?_ ?_ ?_
  · simp [World.release, World.create]
  · intro p old
    have other : p ≠ o := by
      rintro rfl
      exact absurd (fresh.symm.trans old) (by decide)
    exact (untouched p other).trans old
  · intro p new
    by_cases same : p = o
    · rw [same, fresh]
      exact unlinked
    · have old : w.ob.live p = true := (untouched p same).symm.trans new
      rw [if_pos old]
      exact (congrArg _ (headers p same)).trans
        ((sameLinks p).trans (congrArg _ (create_others w typed same)))

end Ob
