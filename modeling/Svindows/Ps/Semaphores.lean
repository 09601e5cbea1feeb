import Svindows.Ke.Signals
import Svindows.Ob.LifetimeRuns
import Svindows.Ps.Services

/-!
# The books of the semaphores

A ledger beside the system books what each semaphore was created with, what was
released and what satisfied waits took. Every operation keeps the books
balanced; that the count stays in its range needs a satisfied all-wait to find
enough units for all the positions at which it names a semaphore.
-/

namespace Ps

open Nt Ob Ke

def SameTypes (s u : ObState) : Prop := ∀ o, (u.headers o).type = (s.headers o).type

theorem SameTypes.refl (s : ObState) : SameTypes s s := fun _ => rfl

theorem SameTypes.trans {s u v : ObState} (first : SameTypes s u) (second : SameTypes u v) :
    SameTypes s v := fun o => (second o).trans (first o)

theorem SameTypes.setHeader (s : ObState) (o : ObjectRef) {h : ObjectHeader}
    (same : h.type = (s.headers o).type) : SameTypes s (s.setHeader o h) := by
  intro p
  by_cases hp : p = o <;> simp [hp, same]

theorem SameTypes.reference (s : ObState) (o : ObjectRef) : SameTypes s (obReferenceObject s o) :=
  .setHeader s o rfl

theorem SameTypes.detach (s : ObState) (o : ObjectRef) : SameTypes s (detach s o) := by
  simp only [Ob.detach]
  split
  · exact .refl s
  · rename_i d _
    refine SameTypes.trans (.setHeader s d (h := { s.headers d with
      entries := (s.headers d).entries.filter (· ≠ o) }) rfl) ?_
    exact .setHeader _ o rfl

theorem SameTypes.delete (s : ObState) (o : ObjectRef) : SameTypes s (obpDeleteObject s o) := by
  have detached := SameTypes.detach s o
  intro p
  rw [← detached p]
  simp only [obpDeleteObject]
  split <;> rfl

theorem SameTypes.dereference (s : ObState) (o : ObjectRef) :
    SameTypes s (obDereferenceObject s o) := by
  have counted : SameTypes s (s.setHeader o { s.headers o with
      pointerCount := longDec (s.headers o).pointerCount }) := .setHeader s o rfl
  simp only [obDereferenceObject]
  split
  · exact counted
  · split
    · exact counted.trans (.delete _ o)
    · exact counted

theorem SameTypes.dereferenceAll (s : ObState) (objects : List ObjectRef) :
    SameTypes s (dereferenceAll s objects) := by
  induction objects with
  | nil => exact .refl s
  | cons o objects ih => exact ih.trans (.dereference _ o)

theorem SameTypes.createHandle (s : ObState) (o : ObjectRef) (access : AccessMask) (out : Nat) :
    SameTypes s (obCreateHandle s o access out).2.2 := by
  simp only [obCreateHandle]
  split
  · exact .refl s
  · split
    · exact .refl s
    · intro p
      by_cases hp : p = o <;> simp [obReferenceObject, hp]

theorem SameTypes.referenceByHandle (s : ObState) (handle : Nat) (desired : AccessMask)
    (type : TypeRef) (out : Nat) :
    SameTypes s (obReferenceObjectByHandle s handle desired type out).2.2 := by
  simp only [obReferenceObjectByHandle]
  split
  · exact .refl s
  · split
    · exact .refl s
    · split
      · exact .refl s
      · split
        · exact .refl s
        · exact .reference s _

theorem SameTypes.close (s : ObState) (handle : Nat) : SameTypes s (obCloseHandle s handle).2 := by
  simp only [obCloseHandle]
  split
  · exact .refl s
  · rename_i i _
    split
    · exact .refl s
    · refine SameTypes.trans ?_ (.dereference _ _)
      intro p
      split <;> by_cases hp : p = (s.handles i).object <;> simp [hp]

theorem SameTypes.waitable (s : PsState) (handle : Nat) :
    SameTypes s.ob (referenceWaitable s handle).2.2 := by
  have referenced := SameTypes.referenceByHandle s.ob handle 0 0 1
  simp only [referenceWaitable]
  split
  · exact referenced
  · split
    · exact referenced.trans (.dereference _ _)
    · exact referenced

theorem SameTypes.waitableAll (s : PsState) (handles : List Nat) :
    SameTypes s.ob (referenceAll s handles).2.2 := by
  induction handles generalizing s with
  | nil => exact .refl s.ob
  | cons handle handles ih =>
    have first := SameTypes.waitable s handle
    simp only [referenceAll]
    split
    · exact first
    · exact first.trans (ih { s with ob := (referenceWaitable s handle).2.2 })

theorem byHandle_type {s : ObState} {handle : Nat} {desired : AccessMask} {type : TypeRef}
    {out : Nat} (typed : type ≠ 0)
    (success : ntSuccess (obReferenceObjectByHandle s handle desired type out).1 = true) :
    (s.headers (obReferenceObjectByHandle s handle desired type out).2.1).type = type := by
  simp only [obReferenceObjectByHandle] at success ⊢
  split at success
  · exact absurd success (by simp [ntSuccess, statusInvalidHandle])
  · rename_i i _
    split at success
    · exact absurd success (by simp [ntSuccess, statusInvalidHandle])
    · rename_i used
      split at success
      · exact absurd success (by simp [ntSuccess, statusObjectTypeMismatch])
      · rename_i matching
        split at success
        · exact absurd success (by simp [ntSuccess, statusAccessDenied])
        · rename_i granted
          rw [if_neg used, if_neg matching, if_neg granted]
          by_contra differs
          exact matching ⟨typed, differs⟩

inductive SemOp where
  | createSemaphore (writable : Bool) (initial limit : Int) (block : Option ObjectRef)
  | createEvent (writable : Bool) (eventType initial : Nat) (block : Option ObjectRef)
  | setEvent (handle : Nat)
  | resetEvent (handle : Nat)
  | close (handle : Nat)
  | release (handle : Nat) (units : Int)
  | waitSingle (handle : Nat) (timeout : Option Int)
  | waitMultiple (count : Nat) (handles : Option (Nat → Nat)) (waitType : Nat) (timeout : Option Int)
  | resume
  | clockTick
  | yield

/-- Run an operation on the current thread; no status when it blocks or is not
a service. -/
def SemOp.run (s : PsState) : SemOp → Option NtStatus × PsState
  | .createSemaphore writable initial limit block =>
    let r := ntCreateSemaphore s writable initial limit block
    (some r.1, r.2.2)
  | .createEvent writable eventType initial block =>
    let r := ntCreateEvent s writable eventType initial block
    (some r.1, r.2.2)
  | .setEvent handle => (some (ntSetEvent s handle).1, (ntSetEvent s handle).2)
  | .resetEvent handle => (some (ntResetEvent s handle).1, (ntResetEvent s handle).2)
  | .close handle =>
    (some (obCloseHandle s.ob handle).1, { s with ob := (obCloseHandle s.ob handle).2 })
  | .release handle units =>
    (some (ntReleaseSemaphore s handle units).1, (ntReleaseSemaphore s handle units).2)
  | .waitSingle handle timeout => ntWaitForSingleObject s handle timeout
  | .waitMultiple count handles waitType timeout => ntWaitForMultipleObjects s count handles waitType timeout
  | .resume =>
    match (s.ke.threads s.ke.current).frame with
    | some f => resumeService s f
    | none => (none, s)
  | .clockTick => (none, { s with ke := keClockTick s.ke })
  | .yield => (none, { s with ke := keYield s.ke })

/-- The values of a `LONG`. -/
def IsLong (x : Int) : Prop := -2 ^ 31 ≤ x ∧ x < 2 ^ 31

/-- A thread inside a wait can only resume it; new objects lie in free blocks. -/
def SemOp.Allowed (s : PsState) : SemOp → Prop
  | .clockTick | .yield => True
  | .resume => (s.ke.threads s.ke.current).frame ≠ none
  | .createSemaphore _ initial limit block =>
    (s.ke.threads s.ke.current).frame = none ∧ IsLong initial ∧ IsLong limit ∧
      ∀ o, block = some o → s.ob.live o = false
  | .createEvent _ _ _ block =>
    (s.ke.threads s.ke.current).frame = none ∧ ∀ o, block = some o → s.ob.live o = false
  | .release _ units => (s.ke.threads s.ke.current).frame = none ∧ IsLong units
  | _ => (s.ke.threads s.ke.current).frame = none

/-- The objects an operation tests and whether it needs all of them, if it comes
to a test. -/
def SemOp.tests (s : PsState) : SemOp → Option (List HeaderRef × Bool)
  | .waitSingle handle _ =>
    let r := referenceWaitable s handle
    if ntSuccess r.1 then some ([r.2.1], false) else none
  | .waitMultiple count (some read) waitType _ =>
    let r := referenceAll s ((List.range count).map read)
    if count = 0 ∨ keMaximumWaitObjects < count ∨ 1 < waitType then none
    else if ntSuccess r.1 then some (r.2.1, waitType = 0) else none
  | .resume =>
    match (s.ke.threads s.ke.current).frame with
    | some f =>
      if (s.ke.threads s.ke.current).waitStatus = statusTimeout then none
      else some (f.objects, f.waitAll)
    | none => none
  | _ => none

/-- What a semaphore was created with, was released by and gave to waits. -/
structure Ledger where
  initial : Int
  limit : Int
  released : Int
  consumed : Nat
  deriving DecidableEq

structure Audit where
  ps : PsState
  ledger : HeaderRef → Option Ledger

/-- The counts `NtCreateSemaphore` accepts. -/
def ValidCounts (initial limit : Int) : Prop := 0 < limit ∧ 0 ≤ initial ∧ initial ≤ limit

instance (initial limit : Int) : Decidable (ValidCounts initial limit) :=
  inferInstanceAs (Decidable (_ ∧ _ ∧ _))

/-- Book a wait: a satisfied one took its units. -/
def bookWait (ledger : HeaderRef → Option Ledger) (test : Option (List HeaderRef × Bool))
    (result : Option NtStatus) : HeaderRef → Option Ledger :=
  match test with
  | none => ledger
  | some (objects, waitAll) => fun h =>
    (ledger h).map fun L => { L with consumed := L.consumed + takenBy objects waitAll result h }

def Audit.after (w : Audit) (op : SemOp) : Audit where
  ps := (op.run w.ps).2
  ledger :=
    match op with
    | .createSemaphore writable initial limit (some o) =>
      if (ntCreateSemaphore w.ps writable initial limit (some o)).1 = statusSuccess then
        Function.update w.ledger o (some ⟨initial, limit, 0, 0⟩)
      else if writable = true ∧ ValidCounts initial limit then
        -- made, but there was no handle for it
        Function.update w.ledger o none
      else w.ledger
    | .createEvent writable _ _ (some o) =>
      if writable then Function.update w.ledger o none else w.ledger
    | .release handle release =>
      let o := (obReferenceObjectByHandle w.ps.ob handle 0 w.ps.semaphoreType 1).2.1
      if (ntReleaseSemaphore w.ps handle release).1 = statusSuccess then
        Function.update w.ledger o
          ((w.ledger o).map fun L => { L with released := L.released + release })
      else w.ledger
    | op => bookWait w.ledger (op.tests w.ps) (op.run w.ps).1

/-- The books of one semaphore balance and its count is in range. -/
structure Balanced (s : PsState) (h : HeaderRef) (L : Ledger) : Prop where
  type : (s.ke.headers h).type = .semaphore
  object : (s.ob.headers h).type = s.semaphoreType
  limit : (s.ke.headers h).limit = L.limit
  range : 0 < L.limit ∧ L.limit < 2 ^ 31
  low : 0 ≤ (s.ke.headers h).signalState
  high : (s.ke.headers h).signalState ≤ L.limit
  books : L.initial + L.released = (s.ke.headers h).signalState + L.consumed

structure Books (w : Audit) : Prop where
  balanced : ∀ h L, w.ledger h = some L → Balanced w.ps h L
  frames : ∀ t f, (w.ps.ke.threads t).frame = some f → f.objects.length ≤ keMaximumWaitObjects
  semaphoreType : w.ps.semaphoreType ≠ 0
  eventType : w.ps.eventType ≠ 0
  distinct : w.ps.eventType ≠ w.ps.semaphoreType

theorem Balanced.congr {s u : PsState} {h : HeaderRef} {L : Ledger} (b : Balanced s h L)
    (type : (u.ke.headers h).type = (s.ke.headers h).type)
    (signal : (u.ke.headers h).signalState = (s.ke.headers h).signalState)
    (limit : (u.ke.headers h).limit = (s.ke.headers h).limit)
    (object : (u.ob.headers h).type = (s.ob.headers h).type)
    (kind : u.semaphoreType = s.semaphoreType) : Balanced u h L where
  type := type.trans b.type
  object := by
    rw [object, kind]
    exact b.object
  limit := limit.trans b.limit
  range := b.range
  low := by
    rw [signal]
    exact b.low
  high := by
    rw [signal]
    exact b.high
  books := by
    rw [signal]
    exact b.books

theorem Balanced.quiet {s u : PsState} {h : HeaderRef} {L : Ledger} (b : Balanced s h L)
    (ke : Quiet s.ke u.ke) (ob : SameTypes s.ob u.ob) (kind : u.semaphoreType = s.semaphoreType) :
    Balanced u h L :=
  b.congr (ke.type h) (ke.signal h) (ke.limit h) (ob h) kind

/-- The types of events and of semaphores stay. -/
theorem Books.keep {w u : Audit} (books : Books w) (event : u.ps.eventType = w.ps.eventType)
    (semaphore : u.ps.semaphoreType = w.ps.semaphoreType)
    (balanced : ∀ h L, u.ledger h = some L → Balanced u.ps h L)
    (frames : ∀ t f, (u.ps.ke.threads t).frame = some f →
      f.objects.length ≤ keMaximumWaitObjects) : Books u where
  balanced := balanced
  frames := frames
  semaphoreType := by
    rw [semaphore]
    exact books.semaphoreType
  eventType := by
    rw [event]
    exact books.eventType
  distinct := by
    rw [event, semaphore]
    exact books.distinct

theorem Books.quiet {w : Audit} (books : Books w) {u : PsState} (ke : Quiet w.ps.ke u.ke)
    (ob : SameTypes w.ps.ob u.ob) (event : u.eventType = w.ps.eventType)
    (semaphore : u.semaphoreType = w.ps.semaphoreType) : Books ⟨u, w.ledger⟩ :=
  books.keep event semaphore (fun h L hL => (books.balanced h L hL).quiet ke ob semaphore)
    fun t f hf => books.frames t f ((ke.frame t).symm.trans hf)

theorem Books.wait {w : Audit} (books : Books w) {u : PsState} {objects : List HeaderRef}
    {waitAll : Bool} {result : Option NtStatus}
    (outcome : WaitOutcome w.ps.ke objects waitAll (result, u.ke))
    (covered : Covered w.ps.ke objects waitAll)
    (few : objects.length ≤ keMaximumWaitObjects) (ob : SameTypes w.ps.ob u.ob)
    (event : u.eventType = w.ps.eventType) (semaphore : u.semaphoreType = w.ps.semaphoreType) :
    Books ⟨u, bookWait w.ledger (some (objects, waitAll)) result⟩ := by
  refine books.keep event semaphore ?_ ?_
  · intro h L hL
    simp only [bookWait, Option.map_eq_some_iff] at hL
    obtain ⟨K, hK, rfl⟩ := hL
    have b := books.balanced h K hK
    have signal := outcome.signal h b.type
    have enough := outcome.enough covered b.type b.low
    dsimp only at signal enough
    refine ⟨(outcome.type h).trans b.type, ?_, (outcome.limit h).trans b.limit, b.range, ?_, ?_, ?_⟩
    · rw [ob h, semaphore]
      exact b.object
    · dsimp only
      omega
    · have := b.high
      dsimp only
      omega
    · have := b.books
      dsimp only
      rw [signal]
      push_cast
      omega
  · intro t f hf
    rcases outcome.frame t f hf with old | new
    · exact books.frames t f old
    · rw [new]
      exact few

/-- A wait that was not satisfied leaves the books alone. -/
theorem Books.unsatisfied {w : Audit} (books : Books w) {u : PsState} {objects : List HeaderRef}
    {waitAll : Bool} {result : Option NtStatus}
    (outcome : WaitOutcome w.ps.ke objects waitAll (result, u.ke))
    (failed : ∀ status, result = some status → Unsuccessful status)
    (few : objects.length ≤ keMaximumWaitObjects) (ob : SameTypes w.ps.ob u.ob)
    (event : u.eventType = w.ps.eventType) (semaphore : u.semaphoreType = w.ps.semaphoreType) :
    Books ⟨u, w.ledger⟩ := by
  refine books.keep event semaphore ?_ ?_
  · intro h L hL
    exact (books.balanced h L hL).congr (outcome.type h) (outcome.nothing failed h)
      (outcome.limit h) (ob h) semaphore
  · intro t f hf
    rcases outcome.frame t f hf with old | new
    · exact books.frames t f old
    · rw [new]
      exact few

theorem finishWait_spec (s : PsState) (t : ThreadRef) (objects : List ObjectRef)
    (r : Option NtStatus × KeState) :
    (finishWait s t objects r).1 = r.1 ∧ (finishWait s t objects r).2.ke = r.2 ∧
      SameTypes s.ob (finishWait s t objects r).2.ob ∧
      (finishWait s t objects r).2.eventType = s.eventType ∧
      (finishWait s t objects r).2.semaphoreType = s.semaphoreType := by
  obtain ⟨result, ke⟩ := r
  cases result with
  | none => exact ⟨rfl, rfl, .refl s.ob, rfl, rfl⟩
  | some status => exact ⟨rfl, rfl, .dereferenceAll s.ob objects, rfl, rfl⟩

theorem Books.finishWait {w : Audit} (books : Books w) {s : PsState} {t : ThreadRef}
    {referenced : List ObjectRef} {objects : List HeaderRef} {waitAll : Bool}
    {r : Option NtStatus × KeState} (outcome : WaitOutcome w.ps.ke objects waitAll r)
    (covered : Covered w.ps.ke objects waitAll)
    (few : objects.length ≤ keMaximumWaitObjects) (ob : SameTypes w.ps.ob s.ob)
    (event : s.eventType = w.ps.eventType) (semaphore : s.semaphoreType = w.ps.semaphoreType) :
    Books ⟨(finishWait s t referenced r).2,
      bookWait w.ledger (some (objects, waitAll)) (finishWait s t referenced r).1⟩ := by
  obtain ⟨result, ke, types, sameEvent, sameSemaphore⟩ := finishWait_spec s t referenced r
  refine books.wait ?_ covered few (ob.trans types) (sameEvent.trans event)
    (sameSemaphore.trans semaphore)
  rw [result, ke]
  exact outcome

theorem Books.waitSingle {w : Audit} (books : Books w) (handle : Nat) (timeout : Option Int) :
    Books (w.after (.waitSingle handle timeout)) := by
  have types := SameTypes.waitable w.ps handle
  simp only [Audit.after, SemOp.run, SemOp.tests, ntWaitForSingleObject]
  by_cases success : ntSuccess (referenceWaitable w.ps handle).1 = true
  · simp only [success, Bool.not_true, Bool.false_eq_true, if_false, if_true]
    have few : [(referenceWaitable w.ps handle).2.1].length ≤ keMaximumWaitObjects := by
      rw [List.length_singleton]
      decide
    refine books.finishWait (keWaitForMultipleObjects_outcome _ _ _ _) ?_ few types rfl rfl
    intro all
    exact absurd all (by decide)
  · rw [Bool.not_eq_true] at success
    simp only [success, Bool.not_false, Bool.false_eq_true, if_true, if_false]
    exact books.quiet (.refl _) types rfl rfl

theorem referenceAll_length (s : PsState) (handles : List Nat) :
    (referenceAll s handles).2.1.length ≤ handles.length := by
  induction handles generalizing s with
  | nil => exact Nat.le_refl _
  | cons handle handles ih =>
    simp only [referenceAll]
    split
    · exact Nat.zero_le _
    · exact Nat.succ_le_succ (ih _)

theorem Books.waitMultiple {w : Audit} (books : Books w) (count : Nat)
    (handles : Option (Nat → Nat)) (waitType : Nat) (timeout : Option Int)
    (covered : ∀ objects waitAll,
      (SemOp.waitMultiple count handles waitType timeout).tests w.ps = some (objects, waitAll) →
        Covered w.ps.ke objects waitAll) :
    Books (w.after (.waitMultiple count handles waitType timeout)) := by
  cases handles with
  | none =>
    simp only [Audit.after, SemOp.run, SemOp.tests, ntWaitForMultipleObjects]
    split <;> exact books
  | some read =>
    have types := SameTypes.waitableAll w.ps ((List.range count).map read)
    have length := referenceAll_length w.ps ((List.range count).map read)
    rw [List.length_map, List.length_range] at length
    simp only [Audit.after, SemOp.run, SemOp.tests, ntWaitForMultipleObjects] at covered ⊢
    generalize referenceAll w.ps ((List.range count).map read) = r at covered types length
    obtain ⟨status, objects, ob⟩ := r
    dsimp only at covered types length ⊢
    by_cases bad : count = 0 ∨ keMaximumWaitObjects < count ∨ 1 < waitType
    · simp only [if_pos bad]
      exact books
    · simp only [if_neg bad] at covered ⊢
      have few : objects.length ≤ keMaximumWaitObjects := by
        rw [not_or, not_or, not_lt] at bad
        exact length.trans bad.2.1
      by_cases success : ntSuccess status = true
      · simp only [success, Bool.not_true, Bool.false_eq_true, if_false, if_true] at covered ⊢
        exact books.finishWait (keWaitForMultipleObjects_outcome _ _ _ _)
          (covered _ _ rfl) few types rfl rfl
      · rw [Bool.not_eq_true] at success
        simp only [success, Bool.not_false, Bool.false_eq_true, if_true, if_false]
        exact books.quiet (.refl _) (types.trans (.dereferenceAll _ _)) rfl rfl

theorem Books.resume {w : Audit} (books : Books w)
    (covered : ∀ objects waitAll, SemOp.resume.tests w.ps = some (objects, waitAll) →
      Covered w.ps.ke objects waitAll) : Books (w.after .resume) := by
  simp only [Audit.after, SemOp.run, SemOp.tests] at covered ⊢
  cases frame : (w.ps.ke.threads w.ps.ke.current).frame with
  | none => exact books
  | some f =>
    have few := books.frames _ f frame
    have outcome := resumeWait_outcome (s := w.ps.ke) few
    simp only [frame, resumeService] at covered ⊢
    by_cases timeout : (w.ps.ke.threads w.ps.ke.current).waitStatus = statusTimeout
    · -- the clock ended the wait: nothing is tested and nothing booked
      have ended : (resumeWait w.ps.ke f).1 = some statusTimeout := by
        have same : (kiUnlinkThreadWait w.ps.ke w.ps.ke.current).threads = w.ps.ke.threads :=
          (unlinkBlocks_threads w.ps.ke w.ps.ke.current _).1
        simp only [resumeWait, same, if_pos timeout]
      rw [if_pos timeout]
      obtain ⟨_, ke, types, event, semaphore⟩ := finishWait_spec w.ps w.ps.ke.current
        (w.ps.pending w.ps.ke.current) (resumeWait w.ps.ke f)
      have timedOut : WaitOutcome w.ps.ke f.objects f.waitAll (some statusTimeout,
          (Ps.finishWait w.ps w.ps.ke.current (w.ps.pending w.ps.ke.current)
            (resumeWait w.ps.ke f)).2.ke) := by
        rw [ke, ← ended]
        exact outcome
      refine books.unsatisfied timedOut ?_ few types event semaphore
      intro status same
      exact Or.inl (Option.some.inj same).symm
    · rw [if_neg timeout] at covered ⊢
      exact books.finishWait outcome (covered _ _ rfl) few (.refl _) rfl rfl

theorem createObject_made (s : PsState) {type : TypeRef} (typed : type ≠ 0)
    (init : KeState → HeaderRef → KeState) (o : ObjectRef) :
    (createObject s type init (some o)).2.2.ke = init s.ke o ∧
      (∀ p, ((createObject s type init (some o)).2.2.ob.headers p).type =
        if p = o then type else (s.ob.headers p).type) ∧
      (createObject s type init (some o)).2.2.eventType = s.eventType ∧
      (createObject s type init (some o)).2.2.semaphoreType = s.semaphoreType := by
  have given : ¬ (type = 0 ∨ 1 = 0) := by simp [typed]
  have good : ntSuccess statusSuccess = true := rfl
  simp only [createObject, obCreateObject, if_neg given, good]
  refine ⟨trivial, ?_, trivial, trivial⟩
  intro p
  rw [SameTypes.dereference, SameTypes.createHandle]
  by_cases hp : p = o <;> simp [hp, newHeader, ObState.setHeader]

/-- A new object leaves the books of the semaphores at other addresses alone. -/
theorem Books.newObject {w : Audit} (books : Books w) {u : PsState} {o : ObjectRef}
    {entry : Option Ledger}
    (others : ∀ h, h ≠ o → (u.ke.headers h) = (w.ps.ke.headers h))
    (threads : u.ke.threads = w.ps.ke.threads)
    (types : ∀ h, h ≠ o → (u.ob.headers h).type = (w.ps.ob.headers h).type)
    (event : u.eventType = w.ps.eventType) (semaphore : u.semaphoreType = w.ps.semaphoreType)
    (fresh : ∀ L, entry = some L → Balanced u o L) :
    Books ⟨u, Function.update w.ledger o entry⟩ := by
  refine books.keep event semaphore ?_ ?_
  · intro h L hL
    by_cases ho : h = o
    · subst ho
      simp only [Function.update_self] at hL
      exact fresh L hL
    · simp only [Function.update_of_ne ho] at hL
      have same := others h ho
      exact (books.balanced h L hL).congr (by rw [same]) (by rw [same]) (by rw [same])
        (types h ho) semaphore
  · intro t f hf
    dsimp only at hf
    rw [threads] at hf
    exact books.frames t f hf

theorem createObject_refused (s : PsState) (type : TypeRef)
    (init : KeState → HeaderRef → KeState) :
    createObject s type init none = (statusNoMemory, 0, s) := by
  by_cases bad : type = 0 ∨ 1 = 0
  · simp only [createObject, obCreateObject, if_pos bad]
    split <;> simp_all
  · simp only [createObject, obCreateObject, if_neg bad]
    split <;> simp_all

theorem ntCreateSemaphore_cases (s : PsState) (writable : Bool) (initial limit : Int)
    (block : Option ObjectRef) :
    (¬ (writable = true ∧ ValidCounts initial limit) ∧
      (ntCreateSemaphore s writable initial limit block).1 ≠ statusSuccess ∧
      (ntCreateSemaphore s writable initial limit block).2.2 = s) ∨
    ((writable = true ∧ ValidCounts initial limit) ∧
      ntCreateSemaphore s writable initial limit block = createObject s s.semaphoreType
        (fun ke o => keInitializeSemaphore ke o initial limit) block) := by
  have invalidStatus : statusInvalidParameter ≠ statusSuccess := by decide
  have violation : statusAccessViolation ≠ statusSuccess := by decide
  simp only [ntCreateSemaphore, ValidCounts]
  cases writable with
  | false => exact Or.inl ⟨fun h => absurd h.1 (by decide), violation, rfl⟩
  | true =>
    by_cases bad : limit ≤ 0 ∨ initial < 0 ∨ limit < initial
    · simp only [Bool.not_true, Bool.false_eq_true, if_false, if_pos bad]
      exact Or.inl ⟨by omega, invalidStatus, trivial⟩
    · simp only [Bool.not_true, Bool.false_eq_true, if_false, if_neg bad]
      exact Or.inr ⟨⟨trivial, by omega, by omega, by omega⟩, trivial⟩

theorem Books.createSemaphore {w : Audit} (books : Books w) (writable : Bool) (initial limit : Int)
    (block : Option ObjectRef) (small : limit < 2 ^ 31) :
    Books (w.after (.createSemaphore writable initial limit block)) := by
  cases block with
  | none =>
    have same : (w.after (.createSemaphore writable initial limit none)).ps = w.ps := by
      rcases ntCreateSemaphore_cases w.ps writable initial limit none with ⟨_, _, same⟩ | ⟨_, made⟩
      · exact same
      · simp only [Audit.after, SemOp.run, made, createObject_refused]
    have whole : w.after (.createSemaphore writable initial limit none) = w :=
      congrArg (fun ps => Audit.mk ps w.ledger) same
    rw [whole]
    exact books
  | some o =>
    simp only [Audit.after, SemOp.run]
    rcases ntCreateSemaphore_cases w.ps writable initial limit (some o) with
      ⟨invalid, failed, same⟩ | ⟨valid, made⟩
    · rw [if_neg failed, if_neg invalid, same]
      exact books
    · obtain ⟨ke, types, event, semaphore⟩ := createObject_made w.ps books.semaphoreType
        (fun ke o => keInitializeSemaphore ke o initial limit) o
      rw [← made] at ke types event semaphore
      have header : (ntCreateSemaphore w.ps writable initial limit (some o)).2.2.ke.headers o =
          ⟨.semaphore, initial, limit, []⟩ := by
        rw [ke]
        simp [keInitializeSemaphore]
      have booked : ∀ entry : Option Ledger,
          (∀ L, entry = some L → L = ⟨initial, limit, 0, 0⟩) →
          Books ⟨(ntCreateSemaphore w.ps writable initial limit (some o)).2.2,
            Function.update w.ledger o entry⟩ := by
        intro entry fresh
        refine books.newObject ?_ ?_ ?_ event semaphore ?_
        · intro h ho
          rw [ke]
          simp [keInitializeSemaphore, ho]
        · rw [ke]
          rfl
        · intro h ho
          rw [types h, if_neg ho]
        · intro L hL
          obtain rfl := fresh L hL
          obtain ⟨_, positive, low, high⟩ := valid
          refine ⟨?_, ?_, ?_, ⟨positive, small⟩, ?_, ?_, ?_⟩
          · rw [header]
          · rw [types o, if_pos rfl, semaphore]
          · rw [header]
          · rw [header]
            exact low
          · rw [header]
            exact high
          · rw [header]
            simp
      split
      · exact booked _ fun L hL => (Option.some.inj hL).symm
      · exact booked _ fun L hL => absurd hL (by simp)

theorem Books.createEvent {w : Audit} (books : Books w) (writable : Bool)
    (eventType initial : Nat) (block : Option ObjectRef) :
    Books (w.after (.createEvent writable eventType initial block)) := by
  have state : (ntCreateEvent w.ps writable eventType initial block).2.2 =
      if writable then (createObject w.ps w.ps.eventType (fun ke o =>
        keInitializeEvent ke o (eventType = 0) (initial % 256 ≠ 0)) block).2.2 else w.ps := by
    cases writable with
    | false => rfl
    | true =>
      simp only [ntCreateEvent, Bool.not_true, Bool.false_eq_true, if_false, if_true]
      split <;> rfl
  cases block with
  | none =>
    have same : (w.after (.createEvent writable eventType initial none)).ps = w.ps := by
      simp only [Audit.after, SemOp.run, state, createObject_refused, ite_self]
    have whole : w.after (.createEvent writable eventType initial none) = w :=
      congrArg (fun ps => Audit.mk ps w.ledger) same
    rw [whole]
    exact books
  | some o =>
    simp only [Audit.after, SemOp.run, state]
    cases writable with
    | false => exact books
    | true =>
      obtain ⟨ke, types, event, semaphore⟩ := createObject_made w.ps books.eventType
        (fun ke o => keInitializeEvent ke o (eventType = 0) (initial % 256 ≠ 0)) o
      simp only [if_true]
      refine books.newObject ?_ ?_ ?_ event semaphore ?_
      · intro h ho
        rw [ke]
        simp [keInitializeEvent, ho]
      · rw [ke]
        rfl
      · intro h ho
        rw [types h, if_neg ho]
      · intro L hL
        exact absurd hL (by simp)

theorem Books.otherHeader {w : Audit} (books : Books w) {u : PsState} {o : HeaderRef}
    {d : DispatcherHeader} (other : (w.ps.ob.headers o).type ≠ w.ps.semaphoreType)
    (ke : Quiet (w.ps.ke.setHeader o d) u.ke) (ob : SameTypes w.ps.ob u.ob)
    (event : u.eventType = w.ps.eventType) (semaphore : u.semaphoreType = w.ps.semaphoreType) :
    Books ⟨u, w.ledger⟩ := by
  have changed : Books ⟨{ w.ps with ke := w.ps.ke.setHeader o d }, w.ledger⟩ := by
    refine ⟨?_, books.frames, books.semaphoreType, books.eventType, books.distinct⟩
    intro h L hL
    have b := books.balanced h L hL
    have ho : h ≠ o := by
      rintro rfl
      exact other b.object
    exact b.congr (by simp [ho]) (by simp [ho]) (by simp [ho]) rfl rfl
  exact changed.quiet ke ob event semaphore

theorem Books.changeEvent {w : Audit} (books : Books w) (handle : Nat) :
    Books (w.after (.setEvent handle)) ∧ Books (w.after (.resetEvent handle)) := by
  have types := SameTypes.referenceByHandle w.ps.ob handle 0 w.ps.eventType 1
  constructor
  all_goals
    simp only [Audit.after, SemOp.run, SemOp.tests, bookWait, ntSetEvent, ntResetEvent]
    split
    · exact books.quiet (.refl _) types rfl rfl
    · rename_i success
      rw [Bool.not_eq_true, Bool.not_eq_false'] at success
      have typed := byHandle_type books.eventType success
      have other := typed.symm ▸ books.distinct
      first
        | exact books.otherHeader other (.signalObject _ _) (types.trans (.dereference _ _)) rfl rfl
        | exact books.otherHeader other (.refl _) (types.trans (.dereference _ _)) rfl rfl

/-- A release the check accepts neither wraps nor meets the limit. -/
theorem releasedCount_eq {d : DispatcherHeader} {release : Int} (positive : 0 < release)
    (low : 0 ≤ d.signalState) (small : d.limit < 2 ^ 31) (limited : 0 < d.limit)
    (bounded : release < 2 ^ 31) (accepted : ¬ subLong d.limit release < d.signalState) :
    releasedCount d release = d.signalState + release ∧ d.signalState + release ≤ d.limit := by
  have difference : subLong d.limit release = d.limit - release := by
    simp only [subLong]
    rw [Int.bmod_eq_of_le] <;> omega
  rw [difference] at accepted
  have sum : addLong d.signalState release = d.signalState + release := by
    simp only [addLong]
    rw [Int.bmod_eq_of_le] <;> omega
  refine ⟨?_, by omega⟩
  simp only [releasedCount, sum]
  rw [if_neg (by omega)]

theorem keReleaseSemaphore_signals (s : KeState) (o : HeaderRef) (count : Int) :
    (∀ h, ((keReleaseSemaphore s o count).headers h).type = (s.headers h).type) ∧
      (∀ h, ((keReleaseSemaphore s o count).headers h).limit = (s.headers h).limit) ∧
      (∀ h, ((keReleaseSemaphore s o count).headers h).signalState =
        if h = o then releasedCount (s.headers o) count else (s.headers h).signalState) ∧
      ∀ t, ((keReleaseSemaphore s o count).threads t).frame = (s.threads t).frame := by
  have quiet := Quiet.signalObject (s.setHeader o { s.headers o with
    signalState := releasedCount (s.headers o) count }) o
  refine ⟨?_, ?_, ?_, quiet.frame⟩
  · intro h
    refine (quiet.type h).trans ?_
    by_cases ho : h = o <;> simp [ho]
  · intro h
    refine (quiet.limit h).trans ?_
    by_cases ho : h = o <;> simp [ho]
  · intro h
    refine (quiet.signal h).trans ?_
    by_cases ho : h = o <;> simp [ho]

/-- The object a release is for. -/
def released (s : PsState) (handle : Nat) : ObjectRef :=
  (obReferenceObjectByHandle s.ob handle 0 s.semaphoreType 1).2.1

theorem ntReleaseSemaphore_cases (s : PsState) (handle : Nat) (release : Int) :
    SameTypes s.ob (ntReleaseSemaphore s handle release).2.ob ∧
    (ntReleaseSemaphore s handle release).2.eventType = s.eventType ∧
    (ntReleaseSemaphore s handle release).2.semaphoreType = s.semaphoreType ∧
    (((ntReleaseSemaphore s handle release).1 ≠ statusSuccess ∧
        (ntReleaseSemaphore s handle release).2.ke = s.ke) ∨
      ((ntReleaseSemaphore s handle release).1 = statusSuccess ∧ 0 < release ∧
        ¬ subLong (s.ke.headers (released s handle)).limit release <
          (s.ke.headers (released s handle)).signalState ∧
        (ntReleaseSemaphore s handle release).2.ke =
          keReleaseSemaphore s.ke (released s handle) release)) := by
  have types := SameTypes.referenceByHandle s.ob handle 0 s.semaphoreType 1
  have invalid : statusInvalidParameter ≠ statusSuccess := by decide
  have badHandle : statusInvalidHandle ≠ statusSuccess := by decide
  simp only [ntReleaseSemaphore, released]
  generalize obReferenceObjectByHandle s.ob handle 0 s.semaphoreType 1 = r at types
  obtain ⟨status, o, ob⟩ := r
  dsimp only at types ⊢
  by_cases nonpositive : release ≤ 0
  · simp only [if_pos nonpositive]
    exact ⟨.refl _, trivial, trivial, Or.inl ⟨invalid, trivial⟩⟩
  · simp only [if_neg nonpositive]
    by_cases success : ntSuccess status = true
    · simp only [success, Bool.not_true, Bool.false_eq_true, if_false]
      by_cases exceeds : subLong (s.ke.headers o).limit release < (s.ke.headers o).signalState
      · simp only [if_pos exceeds]
        exact ⟨types.trans (.dereference _ _), trivial, trivial, Or.inl ⟨invalid, trivial⟩⟩
      · simp only [if_neg exceeds]
        exact ⟨types.trans (.dereference _ _), trivial, trivial,
          Or.inr ⟨trivial, not_le.mp nonpositive, exceeds, trivial⟩⟩
    · rw [Bool.not_eq_true] at success
      simp only [success, Bool.not_false, if_true]
      exact ⟨types, trivial, trivial, Or.inl ⟨badHandle, trivial⟩⟩

/-- A release adds its units to the books of its semaphore. -/
theorem Books.released {w : Audit} (books : Books w) {u : PsState} {o : ObjectRef} {release : Int}
    (positive : 0 < release) (bounded : release < 2 ^ 31)
    (accepted : ¬ subLong (w.ps.ke.headers o).limit release < (w.ps.ke.headers o).signalState)
    (ke : u.ke = keReleaseSemaphore w.ps.ke o release) (object : SameTypes w.ps.ob u.ob)
    (event : u.eventType = w.ps.eventType) (semaphore : u.semaphoreType = w.ps.semaphoreType) :
    Books ⟨u, Function.update w.ledger o
      ((w.ledger o).map fun L => { L with released := L.released + release })⟩ := by
  obtain ⟨type, limit, signal, frame⟩ := keReleaseSemaphore_signals w.ps.ke o release
  rw [← ke] at type limit signal frame
  refine books.keep event semaphore ?_ ?_
  · intro h L hL
    have signal := signal h
    by_cases ho : h = o
    · subst ho
      rw [if_pos rfl] at signal
      simp only [Function.update_self, Option.map_eq_some_iff] at hL
      obtain ⟨K, hK, rfl⟩ := hL
      have b := books.balanced h K hK
      have same := b.limit
      have range := b.range
      have low := b.low
      have balance := b.books
      obtain ⟨sum, fits⟩ := releasedCount_eq positive low (by omega) (by omega) bounded accepted
      rw [sum] at signal
      refine ⟨(type h).trans b.type, ?_, (limit h).trans same, range, ?_, ?_, ?_⟩
      · rw [object h, semaphore]
        exact b.object
      · dsimp only
        rw [signal]
        omega
      · dsimp only
        rw [signal]
        omega
      · dsimp only
        rw [signal]
        omega
    · rw [if_neg ho] at signal
      simp only [Function.update_of_ne ho] at hL
      exact (books.balanced h L hL).congr (type h) signal (limit h) (object h) semaphore
  · intro t f hf
    exact books.frames t f ((frame t).symm.trans hf)

theorem Books.release {w : Audit} (books : Books w) (handle : Nat) (release : Int)
    (bounded : release < 2 ^ 31) :
    Books (w.after (.release handle release)) := by
  obtain ⟨types, event, semaphore, ⟨failed, ke⟩ | ⟨success, positive, accepted, ke⟩⟩ :=
    ntReleaseSemaphore_cases w.ps handle release
  · have quiet : Quiet w.ps.ke (ntReleaseSemaphore w.ps handle release).2.ke := by
      rw [ke]
      exact .refl _
    simp only [Audit.after, SemOp.run, if_neg failed]
    exact books.quiet quiet types event semaphore
  · simp only [Audit.after, SemOp.run, if_pos success]
    exact books.released positive bounded accepted ke types event semaphore

end Ps
