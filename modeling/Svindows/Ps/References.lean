import Svindows.Io.FileServices
import Svindows.Ps.Semaphores

/-!
# What the services do to references

Twelve services take objects by handle or by name, make objects, and wait. Each
of them gives back what it took on every path, so that what is left is the handle
it has opened, if any. A wait may block in between: the thread then holds one
reference to each object it waits for, and gives those back when it returns.
-/

namespace Ps

open Nt Ob Ke

/-- The objects referenced one after another. -/
def references (s : ObState) (objects : List ObjectRef) : ObState :=
  objects.foldl obReferenceObject s

@[simp] theorem references_nil (s : ObState) : references s [] = s := rfl

@[simp] theorem references_cons (s : ObState) (o : ObjectRef) (objects : List ObjectRef) :
    references s (o :: objects) = references (obReferenceObject s o) objects := rfl

@[simp] theorem dereferenceAll_cons (s : ObState) (o : ObjectRef) (objects : List ObjectRef) :
    dereferenceAll s (o :: objects) = obDereferenceObject (dereferenceAll s objects) o := rfl

theorem references_handles (s : ObState) (objects : List ObjectRef) :
    (references s objects).handles = s.handles := by
  induction objects generalizing s with
  | nil => rfl
  | cons o objects ih => exact ih _

theorem references_live (s : ObState) (objects : List ObjectRef) :
    (references s objects).live = s.live := by
  induction objects generalizing s with
  | nil => rfl
  | cons o objects ih => exact ih _

/-- The counts move by the number of references, as `LONG` values do. -/
theorem references_pointerCount (s : ObState) (objects : List ObjectRef) (o : ObjectRef)
    (lo : -2 ^ 31 ≤ (s.headers o).pointerCount) (hi : (s.headers o).pointerCount < 2 ^ 31) :
    ((references s objects).headers o).pointerCount =
      Int.bmod ((s.headers o).pointerCount + objects.count o) (2 ^ 32) := by
  induction objects generalizing s with
  | nil =>
    rw [Int.bmod_eq_of_le] <;> simp <;> omega
  | cons p objects ih =>
    rw [references_cons]
    by_cases same : p = o
    · subst same
      have here : ((obReferenceObject s p).headers p).pointerCount =
          longInc (s.headers p).pointerCount := by simp [obReferenceObject]
      have range := longInc_range (s.headers p).pointerCount
      rw [← here] at range
      rw [ih _ range.1 range.2, here, List.count_cons_self, longInc, Int.bmod_add_bmod]
      push_cast
      congr 1
      omega
    · have there : (obReferenceObject s p).headers o = s.headers o := by
        simp [obReferenceObject, Ne.symm same]
      rw [ih _ (by rw [there]; exact lo) (by rw [there]; exact hi), there,
        List.count_cons_of_ne same]

/-- A count that `n` references do not bring to 0. -/
def Clear (n : Nat) (x : Int) : Prop := (-2 ^ 31 ≤ x ∧ x < -n) ∨ (0 < x ∧ x < 2 ^ 31)

theorem Clear.longInc {n : Nat} {x : Int} (clear : Clear (n + 1) x) (few : n < 2 ^ 31) :
    Clear n (longInc x) := by
  have range := longInc_range x
  rcases clear with ⟨lo, hi⟩ | ⟨lo, hi⟩
  · have inc : Ob.longInc x = x + 1 := by
      simp only [Ob.longInc]
      rw [Int.bmod_eq_of_le] <;> omega
    rw [inc]
    exact Or.inl ⟨by omega, by push_cast at hi; omega⟩
  · rcases Int.lt_or_eq_of_le (Int.le_sub_one_of_lt hi) with below | top
    · rw [longInc_of_lt (by omega) below]
      exact Or.inr ⟨by omega, by omega⟩
    · have wraps : Ob.longInc (2 ^ 31 - 1) = -2 ^ 31 := by decide
      rw [top, wraps]
      exact Or.inl ⟨by omega, by omega⟩

theorem Clear.mono {m n : Nat} {x : Int} (clear : Clear n x) (less : m ≤ n) : Clear m x := by
  rcases clear with ⟨lo, hi⟩ | positive
  · exact Or.inl ⟨lo, by omega⟩
  · exact Or.inr positive

/-- The objects in the slots can be referenced `n` times. -/
def SlotsClear (n : Nat) (s : ObState) : Prop :=
  ∀ o, InSlot s o → Clear n (s.headers o).pointerCount

theorem SlotsClear.reference {n : Nat} {s : ObState} (clear : SlotsClear (n + 1) s)
    (few : n < 2 ^ 31) (o : ObjectRef) : SlotsClear n (obReferenceObject s o) := by
  intro p named
  by_cases same : p = o
  · subst same
    simpa [obReferenceObject] using (clear p named).longInc few
  · simpa [obReferenceObject, same] using (clear p named).mono (Nat.le_succ n)

/-- A reference to an object in a slot is given back without a trace, or the system stops. -/
theorem SlotsClear.undone {s : ObState} {n : Nat} (clear : SlotsClear n s) {o : ObjectRef}
    (named : InSlot s o) :
    obDereferenceObject (obReferenceObject s o) o = s ∨
      (obDereferenceObject (obReferenceObject s o) o).bugCheck = true := by
  have count := clear o named
  rw [dereference_reference]
  · split
    · exact Or.inr rfl
    · exact Or.inl rfl
  · rcases count with ⟨lo, -⟩ | ⟨lo, -⟩ <;> omega
  · rcases count with ⟨-, hi⟩ | ⟨-, hi⟩ <;> omega
  · rcases count with ⟨-, hi⟩ | ⟨lo, -⟩ <;> omega

theorem dereferenceAll_bugCheck {s : ObState} (stopped : s.bugCheck = true)
    (objects : List ObjectRef) : (dereferenceAll s objects).bugCheck = true := by
  induction objects with
  | nil => exact stopped
  | cons o objects ih => exact obDereferenceObject_bugCheck ih o

/-- So are several, given back in the reverse order. -/
theorem dereferenceAll_references {objects : List ObjectRef} (few : objects.length < 2 ^ 31)
    {s : ObState} (clear : SlotsClear objects.length s) (named : ∀ o ∈ objects, InSlot s o) :
    dereferenceAll (references s objects) objects = s ∨
      (dereferenceAll (references s objects) objects).bugCheck = true := by
  induction objects generalizing s with
  | nil => exact Or.inl rfl
  | cons o objects ih =>
    rw [List.length_cons] at few clear
    rw [references_cons, dereferenceAll_cons]
    have inner := ih (by omega) (clear.reference (by omega) o)
      fun p listed => named p (List.mem_cons_of_mem _ listed)
    rcases inner with same | stopped
    · rw [same]
      exact clear.undone (named o List.mem_cons_self)
    · exact Or.inr (obDereferenceObject_bugCheck stopped o)

/-- Every object in a slot of an accounted table can be referenced however often. -/
theorem Accounted.slotsClear {w : World} (acc : Accounted w) (n : Nat) : SlotsClear n w.ob := by
  intro o named
  have live := acc.inSlot_live named
  have count := acc.counted.pointers o live
  have some := acc.counted.positive o live
  exact Or.inr ⟨by omega, acc.counted.bounded o live⟩

/-- An object to wait for comes with a reference; of any other the reference is given back. -/
theorem referenceWaitable_cases (s : PsState) (handle : Nat) {r : NtStatus × ObjectRef × ObState}
    (call : referenceWaitable s handle = r) :
    (ntSuccess r.1 = true ∧ InSlot s.ob r.2.1 ∧ r.2.2 = obReferenceObject s.ob r.2.1) ∨
      (ntSuccess r.1 = false ∧ (r.2.2 = s.ob ∨ ∃ o, InSlot s.ob o ∧
        r.2.2 = obDereferenceObject (obReferenceObject s.ob o) o)) := by
  subst call
  have found := byHandle_cases s.ob handle 0 0 1 rfl
  simp only [referenceWaitable]
  generalize obReferenceObjectByHandle s.ob handle 0 0 1 = r at found
  rcases found with ⟨success, named, state⟩ | ⟨failed, state⟩
  · rw [success]
    simp only [Bool.not_true, Bool.false_eq_true, if_false, state]
    split
    · exact Or.inr ⟨rfl, Or.inr ⟨_, named, rfl⟩⟩
    · exact Or.inl ⟨rfl, named, rfl⟩
  · rw [failed]
    exact Or.inr ⟨rfl, Or.inl state⟩

/-- What the reference loop has done when it ends: a reference to each object it
reports, and, where it fails, nothing else, unless the system has stopped. -/
structure Gathered (s : ObState) (handles : List Nat)
    (r : NtStatus × List ObjectRef × ObState) : Prop where
  named : ∀ o ∈ r.2.1, InSlot s o
  few : r.2.1.length ≤ handles.length
  success : ntSuccess r.1 = true → r.2.2 = references s r.2.1
  failure : r.2.2 = references s r.2.1 ∨ r.2.2.bugCheck = true

theorem referenceAll_gathered {handles : List Nat} (few : handles.length < 2 ^ 31) {s : PsState}
    (clear : SlotsClear handles.length s.ob) : Gathered s.ob handles (referenceAll s handles) := by
  induction handles generalizing s with
  | nil => exact ⟨by simp [referenceAll], by simp [referenceAll], fun _ => rfl, Or.inl rfl⟩
  | cons handle handles ih =>
    have first := referenceWaitable_cases s handle rfl
    simp only [referenceAll]
    generalize referenceWaitable s handle = r at first
    rw [List.length_cons] at few clear
    rcases first with ⟨success, named, state⟩ | ⟨failed, state⟩
    · rw [success]
      simp only [Bool.not_true, Bool.false_eq_true, if_false, state]
      have rest := ih (s := { s with ob := obReferenceObject s.ob r.2.1 }) (by omega)
        (clear.reference (by omega) _)
      refine ⟨?_, ?_, rest.success, rest.failure⟩
      · intro o listed
        rcases List.mem_cons.mp listed with rfl | later
        · exact named
        · exact rest.named o later
      · simpa using rest.few
    · rw [failed]
      refine ⟨by simp, by simp, ?_, ?_⟩
      · intro success
        exact absurd (failed.symm.trans success) (by decide)
      · rcases state with same | ⟨o, named, back⟩
        · exact Or.inl same
        · simp only [Bool.not_false, if_true, back, references_nil]
          exact clear.undone named

/-- From `s` to `u` one reference for each object of the list is given back, and an
object is gone if these were its last. -/
structure GivesBack (s u : ObState) (objects : List ObjectRef) : Prop where
  handles : u.handles = s.handles
  stays : ∀ o, u.live o = true → s.live o = true ∧
    (u.headers o).pointerCount = (s.headers o).pointerCount - objects.count o
  gone : ∀ o, s.live o = true → u.live o = false → (s.headers o).pointerCount = objects.count o
  running : u.bugCheck = false

/-- The callers hold references to the objects, beside the one that keeps the root. -/
def Owed (w : World) (objects : List ObjectRef) : Prop :=
  ∀ o, (if o = w.ob.rootDirectory then 1 else 0) + objects.count o ≤ w.refs o

/-- Giving one reference back. -/
theorem Accounted.release_step {w : World} (acc : Accounted w) {o : ObjectRef}
    (held : 0 < w.refs o) :
    (∀ p, p ≠ o → ((w.release o).ob.headers p).pointerCount = (w.ob.headers p).pointerCount ∧
      (w.release o).ob.live p = w.ob.live p) ∧
    ((w.release o).ob.live o = true →
      ((w.release o).ob.headers o).pointerCount = (w.ob.headers o).pointerCount - 1) ∧
    ((w.release o).ob.live o = false → (w.ob.headers o).pointerCount = 1) := by
  have live := acc.counted.held o held
  have count := acc.counted.pointers o live
  have small := acc.counted.bounded o live
  have dec := longDec_of_pos (x := (w.ob.headers o).pointerCount) (by omega) small
  by_cases last : (w.ob.headers o).pointerCount = 1
  · have unlinked : (w.ob.headers o).parentDirectory = none := by
      by_contra linked
      have : linkedIn w.ob o = 1 := if_neg linked
      omega
    obtain ⟨headers, -, -, lives, -, -⟩ := obDereferenceObject_apart unlinked
    refine ⟨fun p other => ⟨congrArg _ (headers p other), lives p other⟩, ?_, fun _ => last⟩
    intro stays
    have dead : (obDereferenceObject w.ob o).live o = false := by
      simp only [obDereferenceObject, last]
      rw [if_neg (by decide), if_pos (by decide)]
      exact Function.update_self _ _ _
    exact absurd (dead.symm.trans stays) (by decide)
  · have state : (w.release o).ob = w.ob.setHeader o
        { w.ob.headers o with pointerCount := (w.ob.headers o).pointerCount - 1 } := by
      simp only [World.release, obDereferenceObject, dec]
      rw [if_neg (by omega), if_neg (by omega)]
    rw [state]
    refine ⟨fun p other => ⟨by simp [other], rfl⟩, fun _ => by simp, ?_⟩
    intro gone
    exact absurd (gone.symm.trans live) (by decide)

/-- The references of a wait are given back one after another. -/
theorem Accounted.givesBack {w : World} (acc : Accounted w) {objects : List ObjectRef}
    (owed : Owed w objects) :
    ∃ v, Accounted v ∧ v.ob = dereferenceAll w.ob objects ∧
      v.ob.rootDirectory = w.ob.rootDirectory ∧
      (∀ o, v.refs o = w.refs o - objects.count o) ∧ GivesBack w.ob v.ob objects := by
  induction objects with
  | nil =>
    refine ⟨w, acc, rfl, rfl, fun o => rfl, rfl, fun o live => ⟨live, by simp⟩, ?_,
      acc.placed.running⟩
    intro o live dead
    exact absurd (live.symm.trans dead) (by decide)
  | cons o objects ih =>
    obtain ⟨v, after, state, root, refs, given⟩ := ih fun p => by
      have := owed p
      have more := List.count_le_count_cons (a := p) (b := o) (l := objects)
      omega
    have enough := owed o
    rw [List.count_cons_self] at enough
    have held : (if o = v.ob.rootDirectory then 1 else 0) < v.refs o := by
      rw [root, refs]
      omega
    have released := after.release held
    obtain ⟨others, stays, gone⟩ := Accounted.release_step after (o := o) (by omega)
    refine ⟨v.release o, released, ?_, ?_, ?_, ?_, ?_, ?_, released.placed.running⟩
    · rw [dereferenceAll_cons, ← state]
      rfl
    · exact (obDereferenceObject_grows v.ob o).root.trans root
    · intro p
      by_cases same : p = o
      · subst same
        simp only [World.release, Function.update_self, refs, List.count_cons_self]
        omega
      · simp only [World.release, Function.update_of_ne same, refs,
          List.count_cons_of_ne (Ne.symm same)]
    · exact (obDereferenceObject_handles v.ob o).trans given.handles
    · intro p live
      by_cases same : p = o
      · subst same
        have before := given.stays p (after.counted.held p (by omega))
        rw [stays live, List.count_cons_self]
        exact ⟨before.1, by omega⟩
      · rw [(others p same).2] at live
        rw [(others p same).1, List.count_cons_of_ne (Ne.symm same)]
        exact given.stays p live
    · intro p live dead
      by_cases same : p = o
      · subst same
        have before := given.stays p (after.counted.held p (by omega))
        have last := gone dead
        rw [List.count_cons_self]
        omega
      · rw [(others p same).2] at dead
        rw [List.count_cons_of_ne (Ne.symm same)]
        exact given.gone p live dead

section Services

variable {s : PsState} {v : World} (acc : Accounted v) (same : s.ob = v.ob)
include acc same

theorem createObject_balanced (type : TypeRef) (init : KeState → HeaderRef → KeState)
    {block : Option ObjectRef} (grant : Grantable s.ob block) :
    KeepsBalance s.ob (createObject s type init block).2.2.ob := by
  simp only [createObject]
  split
  · rename_i o made
    obtain ⟨fresh, window⟩ := grant o rfl
    have typed : type ≠ 0 := by
      rintro rfl
      exact absurd made (by simp [obCreateObject, ntSuccess, statusInvalidParameter])
    rw [same] at fresh ⊢
    exact acc.balanced_openNew typed fresh window genericAll
  · rename_i refused
    have unmade := obCreateObject_refused refused
    simp only [unmade]
    exact .refl _

theorem ntCreateEvent_balanced (writable : Bool) (eventType initial : Nat)
    {block : Option ObjectRef} (grant : Grantable s.ob block) :
    KeepsBalance s.ob (ntCreateEvent s writable eventType initial block).2.2.ob := by
  have made := createObject_balanced acc same s.eventType
    (fun ke o => keInitializeEvent ke o (eventType = 0) (initial % 256 ≠ 0)) grant
  simp only [ntCreateEvent]
  split
  · exact .refl _
  split
  · exact made
  · exact made

theorem ntCreateSemaphore_balanced (writable : Bool) (initial limit : Int)
    {block : Option ObjectRef} (grant : Grantable s.ob block) :
    KeepsBalance s.ob (ntCreateSemaphore s writable initial limit block).2.2.ob := by
  simp only [ntCreateSemaphore]
  split
  · exact .refl _
  split
  · exact .refl _
  · exact createObject_balanced acc same s.semaphoreType _ grant

theorem ntSetEvent_ob (handle : Nat) : (ntSetEvent s handle).2.ob = s.ob := by
  obtain ⟨refused, undone⟩ := acc.byHandle handle s.eventType
  rw [← same] at refused undone
  simp only [ntSetEvent]
  split
  · rename_i failed
    exact refused (by simpa using failed)
  · rename_i found
    exact undone (by simpa using found)

theorem ntResetEvent_ob (handle : Nat) : (ntResetEvent s handle).2.ob = s.ob := by
  obtain ⟨refused, undone⟩ := acc.byHandle handle s.eventType
  rw [← same] at refused undone
  simp only [ntResetEvent]
  split
  · rename_i failed
    exact refused (by simpa using failed)
  · rename_i found
    exact undone (by simpa using found)

theorem ntReleaseSemaphore_ob (handle : Nat) (release : Int) :
    (ntReleaseSemaphore s handle release).2.ob = s.ob := by
  obtain ⟨refused, undone⟩ := acc.byHandle handle s.semaphoreType
  rw [← same] at refused undone
  simp only [ntReleaseSemaphore]
  split
  · rfl
  split
  · rename_i failed
    exact refused (by simpa using failed)
  · rename_i found
    have back := undone (by simpa using found)
    split
    · exact back
    · exact back

end Services

/-- While its thread is blocked, a wait holds a reference to each of its objects. -/
structure Holding (s u : ObState) (objects : List ObjectRef) : Prop where
  state : u = references s objects
  handles : u.handles = s.handles
  live : u.live = s.live
  held : ∀ o ∈ objects, s.live o = true
  counts : ∀ o, s.live o = true → (u.headers o).pointerCount =
    Int.bmod ((s.headers o).pointerCount + objects.count o) (2 ^ 32)

/-- A wait service returns with its references given back, or blocks with its objects on
record. -/
structure WaitBalance (s : PsState) (r : Option NtStatus × PsState) : Prop where
  returned : ∀ status, r.1 = some status → r.2.ob.bugCheck = false → KeepsBalance s.ob r.2.ob
  blocked : r.1 = none → Holding s.ob r.2.ob (r.2.pending s.ke.current)
  others : ∀ t, t ≠ s.ke.current → r.2.pending t = s.pending t

/-- When its thread runs on, it gives back one reference for each object on record, or
blocks again as it was. -/
structure ResumeBalance (w : World) (s : PsState) (r : Option NtStatus × PsState) : Prop where
  returned : ∀ status, r.1 = some status →
    r.2.ob = dereferenceAll s.ob (s.pending s.ke.current) ∧ r.2.pending s.ke.current = []
  given : ∀ status, r.1 = some status → Owed w (s.pending s.ke.current) →
    GivesBack s.ob r.2.ob (s.pending s.ke.current)
  blocked : r.1 = none → r.2.ob = s.ob ∧
    r.2.pending s.ke.current = s.pending s.ke.current
  others : ∀ t, t ≠ s.ke.current → r.2.pending t = s.pending t

/-- Nothing has been referenced. -/
theorem waitBalance_refused {s : PsState} {ob : ObState} {status : NtStatus}
    (left : ob = s.ob ∨ ob.bugCheck = true) : WaitBalance s (some status, { s with ob := ob }) where
  returned := fun _ _ runs => by
    rcases left with rfl | stopped
    · exact .refl _
    · exact absurd (runs.symm.trans stopped) (by decide)
  blocked := fun blocks => absurd blocks (by simp)
  others := fun _ _ => rfl

section Waits

variable {s : PsState} {v : World} (acc : Accounted v) (same : s.ob = v.ob)
include acc same

theorem holding_references {objects : List ObjectRef} (named : ∀ o ∈ objects, InSlot s.ob o) :
    Holding s.ob (references s.ob objects) objects where
  state := rfl
  handles := references_handles s.ob objects
  live := references_live s.ob objects
  held := fun o listed => by
    have named := named o listed
    rw [same] at named ⊢
    exact acc.inSlot_live named
  counts := fun o live => by
    rw [same] at live ⊢
    have count := acc.counted.pointers o live
    exact references_pointerCount v.ob objects o (by omega) (acc.counted.bounded o live)

theorem finishWait_balance {objects : List ObjectRef} (named : ∀ o ∈ objects, InSlot s.ob o)
    (few : objects.length < 2 ^ 31) (r : Option NtStatus × KeState) :
    WaitBalance s
      (finishWait { s with ob := references s.ob objects } s.ke.current objects r) := by
  have clear : SlotsClear objects.length s.ob := by
    rw [same]
    exact Accounted.slotsClear acc _
  obtain ⟨status, ke⟩ := r
  cases status with
  | some status =>
    refine ⟨?_, fun blocks => absurd blocks (by simp [finishWait]), ?_⟩
    · intro _ _ runs
      rcases dereferenceAll_references few clear named with back | stopped
      · simp only [finishWait, back]
        exact .refl _
      · exact absurd (runs.symm.trans stopped) (by decide)
    · intro t other
      exact Function.update_of_ne other _ _
  | none =>
    refine ⟨fun status returns => absurd returns (by simp [finishWait]), ?_, ?_⟩
    · intro _
      simp only [finishWait, Function.update_self]
      exact holding_references acc same named
    · intro t other
      exact Function.update_of_ne other _ _

theorem ntWaitForSingleObject_balance (handle : Nat) (timeout : Option Int) :
    WaitBalance s (ntWaitForSingleObject s handle timeout) := by
  have found := referenceWaitable_cases s handle rfl
  simp only [ntWaitForSingleObject]
  generalize referenceWaitable s handle = r at found
  rcases found with ⟨success, named, state⟩ | ⟨failed, state⟩
  · rw [success, state]
    have only : ∀ o ∈ [r.2.1], InSlot s.ob o := by
      intro o listed
      rw [List.mem_singleton.mp listed]
      exact named
    exact finishWait_balance acc same only (by simp) _
  · rw [failed]
    have clear : SlotsClear 0 s.ob := by
      rw [same]
      exact Accounted.slotsClear acc 0
    refine waitBalance_refused ?_
    rcases state with kept | ⟨o, named, back⟩
    · exact Or.inl kept
    · rw [back]
      exact clear.undone named

theorem ntWaitForMultipleObjects_balance (count : Nat) (handles : Option (Nat → Nat))
    (waitType : Nat) (timeout : Option Int) :
    WaitBalance s (ntWaitForMultipleObjects s count handles waitType timeout) := by
  have limit : keMaximumWaitObjects = 64 := rfl
  have kept : ∀ status, WaitBalance s (some status, s) := fun _ =>
    waitBalance_refused (Or.inl rfl)
  simp only [ntWaitForMultipleObjects]
  split
  · exact kept _
  rename_i valid
  cases handles with
  | none => exact kept _
  | some read =>
    have short : ((List.range count).map read).length < 2 ^ 31 := by
      rw [List.length_map, List.length_range]
      omega
    have clear : ∀ n, SlotsClear n s.ob := by
      rw [same]
      exact Accounted.slotsClear acc
    have all := referenceAll_gathered short (clear _)
    dsimp only
    generalize referenceAll s ((List.range count).map read) = r at all
    have few := all.few
    split
    · -- what has been gathered before the failure is given back
      refine waitBalance_refused ?_
      rcases all.failure with gathered | stopped
      · rw [gathered]
        exact dereferenceAll_references (by omega) (clear _) all.named
      · exact Or.inr (dereferenceAll_bugCheck stopped _)
    · rename_i success
      rw [all.success (by simpa using success)]
      exact finishWait_balance acc same all.named (by omega) _

theorem resumeService_balance (f : WaitFrame) : ResumeBalance v s (resumeService s f) := by
  simp only [resumeService]
  generalize resumeWait s.ke f = r
  obtain ⟨status, ke⟩ := r
  cases status with
  | some status =>
    refine ⟨fun _ _ => ⟨rfl, Function.update_self _ _ _⟩, ?_,
      fun blocks => absurd blocks (by simp [finishWait]), ?_⟩
    · intro _ _ owed
      obtain ⟨u, -, state, -, -, given⟩ := Accounted.givesBack acc owed
      rw [state, ← same] at given
      exact given
    · intro t other
      exact Function.update_of_ne other _ _
  | none =>
    refine ⟨fun status returns => absurd returns (by simp [finishWait]),
      fun status returns => absurd returns (by simp [finishWait]),
      fun _ => ⟨rfl, Function.update_self _ _ _⟩, ?_⟩
    intro t other
    exact Function.update_of_ne other _ _

end Waits

theorem createObject_pending (s : PsState) (type : TypeRef) (init : KeState → HeaderRef → KeState)
    (block : Option ObjectRef) : (createObject s type init block).2.2.pending = s.pending := by
  simp only [createObject]
  split <;> rfl

/-- Whatever the other threads do, a blocked thread's objects stay on record. -/
theorem SemOp.run_pending (s : PsState) (op : SemOp) {t : ThreadRef} (other : t ≠ s.ke.current) :
    (op.run s).2.pending t = s.pending t := by
  have finished : ∀ (ob : ObState) objects r,
      (finishWait { s with ob := ob } s.ke.current objects r).2.pending t = s.pending t := by
    intro ob objects r
    simp only [finishWait]
    split
    · exact Function.update_of_ne other _ _
    · exact Function.update_of_ne other _ _
  cases op with
  | createSemaphore writable initial limit block =>
    simp only [run, ntCreateSemaphore]
    split
    · rfl
    split
    · rfl
    · exact congrFun (createObject_pending s _ _ block) t
  | createEvent writable eventType initial block =>
    simp only [run, ntCreateEvent]
    split
    · rfl
    split
    · exact congrFun (createObject_pending s _ _ block) t
    · exact congrFun (createObject_pending s _ _ block) t
  | setEvent handle =>
    simp only [run, ntSetEvent]
    split <;> rfl
  | resetEvent handle =>
    simp only [run, ntResetEvent]
    split <;> rfl
  | close handle => rfl
  | release handle units =>
    simp only [run, ntReleaseSemaphore]
    split
    · rfl
    split
    · rfl
    split <;> rfl
  | waitSingle handle timeout =>
    simp only [run, ntWaitForSingleObject]
    split
    · rfl
    · exact finished _ _ _
  | waitMultiple count handles waitType timeout =>
    simp only [run, ntWaitForMultipleObjects]
    split
    · rfl
    cases handles with
    | none => rfl
    | some read =>
      dsimp only
      split
      · rfl
      · exact finished _ _ _
  | resume =>
    simp only [run]
    split
    · exact finished _ _ _
    · rfl
  | clockTick => rfl
  | yield => rfl

/-- Each of the twelve services, called in a state whose object manager is that of `w`. -/
structure ServicesBalance (w : World) : Prop where
  createEvent : ∀ s : PsState, s.ob = w.ob → ∀ writable eventType initial block,
    Grantable w.ob block →
      KeepsBalance w.ob (ntCreateEvent s writable eventType initial block).2.2.ob
  setEvent : ∀ s : PsState, s.ob = w.ob → ∀ handle, KeepsBalance w.ob (ntSetEvent s handle).2.ob
  resetEvent : ∀ s : PsState, s.ob = w.ob → ∀ handle, KeepsBalance w.ob (ntResetEvent s handle).2.ob
  createSemaphore : ∀ s : PsState, s.ob = w.ob → ∀ writable initial limit block,
    Grantable w.ob block →
      KeepsBalance w.ob (ntCreateSemaphore s writable initial limit block).2.2.ob
  releaseSemaphore : ∀ s : PsState, s.ob = w.ob → ∀ handle release,
    KeepsBalance w.ob (ntReleaseSemaphore s handle release).2.ob
  waitForSingleObject : ∀ s : PsState, s.ob = w.ob → ∀ handle timeout,
    WaitBalance s (ntWaitForSingleObject s handle timeout)
  waitForMultipleObjects : ∀ s : PsState, s.ob = w.ob → ∀ count handles waitType timeout,
    WaitBalance s (ntWaitForMultipleObjects s count handles waitType timeout)
  blockedMeanwhile : ∀ (s : PsState) (op : SemOp) t, t ≠ s.ke.current →
    (op.run s).2.pending t = s.pending t
  resume : ∀ s : PsState, s.ob = w.ob → ∀ f, ResumeBalance w s (resumeService s f)
  createFile : ∀ s : Io.IoWorld, s.ob = w.ob → ∀ h fuel a block, Grantable w.ob block →
    ∀ r, Io.ntCreateFile h fuel s a block = some r → r.2.ob.bugCheck = false →
      KeepsBalance w.ob r.2.ob
  readFile : ∀ s : Io.FileWorld, s.ob = w.ob → ∀ a, KeepsBalance w.ob (Io.ntReadFile s a).2.ob
  writeFile : ∀ s : Io.IoWorld, s.ob = w.ob → ∀ a, KeepsBalance w.ob (Io.ntWriteFile s a).2.ob
  queryFileInfo : ∀ s : Io.IoWorld, s.ob = w.ob → ∀ a,
    KeepsBalance w.ob (Io.ntQueryFileInfo s a).2.ob
  setFilePosition : ∀ s : Io.IoWorld, s.ob = w.ob → ∀ a,
    KeepsBalance w.ob (Io.ntSetFilePosition s a).2.ob

/-- The services balance references, whatever they are called with. -/
theorem services_balance {w : World} (acc : Accounted w) : ServicesBalance w where
  createEvent := fun s same writable eventType initial block grant => by
    rw [← same] at grant ⊢
    exact ntCreateEvent_balanced acc same writable eventType initial grant
  setEvent := fun s same handle => by
    rw [ntSetEvent_ob acc same, same]
    exact .refl _
  resetEvent := fun s same handle => by
    rw [ntResetEvent_ob acc same, same]
    exact .refl _
  createSemaphore := fun s same writable initial limit block grant => by
    rw [← same] at grant ⊢
    exact ntCreateSemaphore_balanced acc same writable initial limit grant
  releaseSemaphore := fun s same handle release => by
    rw [ntReleaseSemaphore_ob acc same, same]
    exact .refl _
  waitForSingleObject := fun s same handle timeout =>
    ntWaitForSingleObject_balance acc same handle timeout
  waitForMultipleObjects := fun s same count handles waitType timeout =>
    ntWaitForMultipleObjects_balance acc same count handles waitType timeout
  blockedMeanwhile := fun s op _ other => op.run_pending s other
  resume := fun s same f => resumeService_balance acc same f
  createFile := fun s same h fuel a block grant r returns runs => by
    rw [← same] at grant ⊢
    exact Io.ntCreateFile_balanced acc same grant returns runs
  readFile := fun s same a => by
    rw [Io.ntReadFile_ob acc same, same]
    exact .refl _
  writeFile := fun s same a => by
    rw [Io.ntWriteFile_ob acc same, same]
    exact .refl _
  queryFileInfo := fun s same a => by
    rw [Io.ntQueryFileInfo_ob acc same, same]
    exact .refl _
  setFilePosition := fun s same a => by
    rw [Io.ntSetFilePosition_ob acc same, same]
    exact .refl _

/-- The object of the open handle, and a wait that holds a reference to it. -/
def waitedWorld : World := openedWorld.reference (mmKernelHeapBase + 4096)

/-- Among them the resumption of the wait. -/
theorem services_balance_waited : ServicesBalance waitedWorld ∧
    Owed waitedWorld [mmKernelHeapBase + 4096] := by
  refine ⟨services_balance (openedWorld_accounted.reference (by decide) (by decide)), fun o => ?_⟩
  by_cases object : o = mmKernelHeapBase + 4096
  · subst object
    decide
  · by_cases root : o = mmKernelHeapBase
    · subst root
      decide
    · rw [if_neg (show o ≠ waitedWorld.ob.rootDirectory from root),
        List.count_eq_zero_of_not_mem (by simpa using object)]
      exact Nat.zero_le _

end Ps
