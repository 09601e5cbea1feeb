import Svindows.Ke.ThreadObjects
import Svindows.Ob.Balance
import Svindows.Ps.Semaphores
import Svindows.Ps.UserSpace

/-!
# Thread creation

`NtCreateThreadEx` takes the pages of a stack and a TEB, a Thread object, a thread
and a handle, one after the other. The thread is queued before the handle is
opened, and nothing takes it back, so with a full handle table the service fails
and leaves it there. Where the service succeeds, the thread holds a reference of
its own to its object until it has signaled it, whatever happens to the handle.

The object manager is that of `Ob.World`, which books the callers' references
beside it, those of the threads among them.
-/

namespace Ps

open Nt Ob Ke

structure ThreadSystem where
  life : World
  ke : KeState
  space : UserSpace
  /-- `g_thread_type`. -/
  threadType : TypeRef

namespace ThreadSystem

/-- `NtCreateThreadEx` behind the creation of its object `o`; `thread` is where the pool
grants the thread and its kernel stack. -/
def startThread (s : ThreadSystem) (o : ObjectRef) (thread : Option ThreadRef) :
    NtStatus × Option Nat × ThreadSystem :=
  let s := { s with
    life := s.life.after (.create s.threadType (some o) 1)
    ke := s.ke.setHeader o ⟨.thread, 0, (s.ke.headers o).limit, []⟩ }
  match thread with
  | none => (statusNoMemory, none, { s with life := s.life.after (.dereference o) })
  | some t =>
    let s := { s with
      ke := keCreateThread s.ke t (some o)
      life := s.life.after (.reference o) }
    let opened := obCreateHandle s.life.ob o genericAll 1
    let s := { s with
      life := (s.life.after (.createHandle o genericAll 1)).after (.dereference o) }
    if !ntSuccess opened.1 then (statusNoMemory, none, s)
    else (statusSuccess, some opened.2.1, { s with ke := keYield s.ke })

/-- `NtCreateThreadEx`: the status, what is stored at the handle's address, and the
state; `writable` says whether that address passes its probe. -/
def ntCreateThreadEx (s : ThreadSystem) (writable : Bool) (block : Option ObjectRef)
    (thread : Option ThreadRef) : Option (NtStatus × Option Nat × ThreadSystem) := do
  let (status, _, _, space) ← Ps.ntCreateThreadEx writable true s.space
  let s := { s with space := space }
  if !ntSuccess status then some (status, none, s)
  else match ntSuccess (obCreateObject s.life.ob s.threadType block 1).1, block with
    | true, some o => some (s.startThread o thread)
    | _, _ =>
      some (statusNoMemory, none, { s with
        life := s.life.after (.create s.threadType block 1) })

/-- `KeTerminateThread`, which gives back the reference of the thread. -/
def keTerminateThread (s : ThreadSystem) : ThreadSystem :=
  match (s.ke.threads s.ke.current).terminationObject with
  | none => { s with ke := Ke.keTerminateThread s.ke }
  | some o => { s with
      ke := Ke.keTerminateThread s.ke
      life := s.life.after (.dereference o) }

end ThreadSystem

inductive ThreadOp where
  /-- Any caller of the object manager; closing a handle is one. -/
  | object (op : LifeOp)
  /-- Scheduling, waits, and services on dispatcher objects. -/
  | dispatch (op : WaitOp)
  /-- The body of an object is set up. -/
  | header (h : HeaderRef) (d : DispatcherHeader)
  | memory (space : UserSpace)
  | terminate
  | createThread (writable : Bool) (block : Option ObjectRef) (thread : Option ThreadRef)

/-- A caller does not give back the reference of a thread. -/
def ThreadSystem.Spares (s : ThreadSystem) (op : LifeOp) : Prop :=
  ∀ t o, (s.ke.threads t).terminationObject = some o → op = .dereference o →
    (if o = s.life.ob.rootDirectory then 1 else 0) + 1 < s.life.refs o

/-- What the pool may grant for a thread and its object. -/
def ThreadSystem.Grants (s : ThreadSystem) (block : Option ObjectRef)
    (thread : Option ThreadRef) : Prop :=
  Grantable s.life.ob block ∧ ∀ t, thread = some t → t ∉ s.ke.processThreads

/-- One operation of a system whose parts keep their promises, on objects with room for
a reference. A new object's body is set up before its block is live: a service is not
interrupted between the two. -/
def ThreadStep (s : ThreadSystem) (op : ThreadOp) (u : ThreadSystem) : Prop :=
  match op with
  | .object op => Allowed s.life op ∧ Room s.life.ob op ∧ s.Spares op ∧
      u = { s with life := s.life.after op }
  | .dispatch op => op.Allowed s.ke ∧ op.Elsewhere s.ke ∧ u = { s with ke := op.apply s.ke }
  | .header h d => ((s.ke.headers h).type = .thread → s.life.ob.live h = false) ∧
      u = { s with ke := s.ke.setHeader h d }
  | .memory space => u = { s with space := space }
  | .terminate => WaitOp.terminate.Allowed s.ke ∧ u = s.keTerminateThread
  | .createThread writable block thread => s.Grants block thread ∧
      ∃ status handle, s.ntCreateThreadEx writable block thread = some (status, handle, u)

/-- The system before any thread with an object has been made. -/
def ThreadStart (s : ThreadSystem) : Prop := Booted s.life ∧ SchedStart s.ke

/-- Every thread with a termination object has a reference to it and runs. -/
structure ThreadInv (s : ThreadSystem) : Prop where
  accounted : Accounted s.life
  settled : Settled s.ke
  listed : ∀ t o, (s.ke.threads t).terminationObject = some o → t ∈ s.ke.processThreads
  going : ∀ t o, (s.ke.threads t).terminationObject = some o →
    (s.ke.threads t).state ≠ .terminated
  held : ∀ t o, (s.ke.threads t).terminationObject = some o →
    (if o = s.life.ob.rootDirectory then 1 else 0) < s.life.refs o
  typed : ∀ t o, (s.ke.threads t).terminationObject = some o → (s.ke.headers o).type = .thread
  single : ∀ t u o, (s.ke.threads t).terminationObject = some o →
    (s.ke.threads u).terminationObject = some o → t = u

/-- The thread runs, and its object has been deleted `d` times as before. -/
structure Running (s : ThreadSystem) (t : ThreadRef) (o : ObjectRef) (d : Nat) : Prop where
  owns : (s.ke.threads t).terminationObject = some o
  kept : s.life.ob.deleted.count o = d

/-- The thread has ended, and while its object has not been deleted, it is signaled. -/
structure Ended (s : ThreadSystem) (t : ThreadRef) (o : ObjectRef) (d : Nat) : Prop where
  state : (s.ke.threads t).state = .terminated
  later : d ≤ s.life.ob.deleted.count o
  signaled : s.life.ob.deleted.count o = d → s.life.ob.live o = true ∧
    (s.ke.headers o).type = .thread ∧ (s.ke.headers o).signalState = 1
  unowned : s.life.ob.deleted.count o = d → ∀ u, (s.ke.threads u).terminationObject ≠ some o

/-- An operation that ends no thread. -/
structure Advances (s u : ThreadSystem) : Prop where
  inv : ThreadInv u
  running : ∀ t o d, Running s t o d → Running u t o d
  ended : ∀ t o d, Ended s t o d → Ended u t o d

variable {s u : ThreadSystem} {o : ObjectRef} {t : ThreadRef}

theorem Advances.trans {v : ThreadSystem} (first : Advances s u) (second : Advances u v) :
    Advances s v where
  inv := second.inv
  running := fun t o d h => second.running t o d (first.running t o d h)
  ended := fun t o d h => second.ended t o d (first.ended t o d h)

theorem ThreadInv.live (inv : ThreadInv s)
    (owns : (s.ke.threads t).terminationObject = some o) : s.life.ob.live o = true :=
  inv.accounted.counted.held o (Nat.zero_lt_of_lt (inv.held t o owns))

variable {w : World}

/-- No operation but a dereference takes references of an object away. -/
theorem after_refs {op : LifeOp} (kept : op ≠ .dereference o) : w.refs o ≤ (w.after op).refs o := by
  have updated : ∀ (b : Bool) (p : ObjectRef), w.refs o ≤
      (if b then Function.update w.refs p (w.refs p + 1) else w.refs) o := by
    intro b p
    by_cases same : o = p
    · subst same
      cases b <;> simp
    · cases b <;> simp [same]
  cases op with
  | create type block out | createDirectory parent name block =>
    cases block with
    | none => exact Nat.le_refl _
    | some p => exact updated _ p
  | reference p => exact updated true p
  | dereference p =>
    have other : o ≠ p := by
      rintro rfl
      exact kept rfl
    simp [World.after, World.release, other]
  | createHandle p access out => exact Nat.le_refl _
  | referenceByHandle handle desired type out => exact updated _ _
  | closeHandle handle => exact Nat.le_refl _
  | insert dir name p => exact Nat.le_refl _
  | lookup path out => exact updated _ _

theorem after_live_iff {op : LifeOp} (acc : Accounted w)
    (after : Accounted (w.after op)) (allowed : Allowed w op) (live : w.ob.live o = true) :
    (w.after op).ob.live o = true ↔ (w.after op).ob.deleted.count o = w.ob.deleted.count o := by
  have before := acc.placed.incarnations o
  have now := after.placed.incarnations o
  rw [if_pos live] at before
  rw [World.after_created allowed live, before] at now
  by_cases stays : (w.after op).ob.live o = true
  · rw [if_pos stays] at now
    exact ⟨fun _ => by omega, fun _ => stays⟩
  · rw [if_neg stays] at now
    exact ⟨fun h => absurd h stays, fun same => by omega⟩

theorem ThreadInv.object (inv : ThreadInv s) (op : LifeOp)
    (allowed : Allowed s.life op) (room : Room s.life.ob op) (spares : s.Spares op) :
    Advances s { s with life := s.life.after op } := by
  have after := inv.accounted.after allowed room
  have grows := World.after_grows s.life op
  have next : ThreadInv { s with life := s.life.after op } := by
    refine ⟨after, inv.settled, inv.listed, inv.going, ?_, inv.typed, inv.single⟩
    intro t o owns
    have before := inv.held t o owns
    have root := grows.root
    dsimp only
    rw [root]
    by_cases given : op = .dereference o
    · have more := spares t o owns given
      subst given
      simp only [World.after, World.release, Function.update_self]
      omega
    · exact Nat.lt_of_lt_of_le before (after_refs given)
  refine ⟨next, ?_, ?_⟩
  · intro t o d running
    have live := (after_live_iff inv.accounted after allowed (inv.live running.owns)).mp
      (next.live (t := t) running.owns)
    exact ⟨running.owns, live.trans running.kept⟩
  · intro t o d ended
    have more := grows.deleted.sublist.count_le o
    have same : (s.life.after op).ob.deleted.count o = d → s.life.ob.deleted.count o = d := by
      intro count
      have := ended.later
      omega
    refine ⟨ended.state, ended.later.trans more, ?_, fun count => ended.unowned (same count)⟩
    intro count
    obtain ⟨live, type, signal⟩ := ended.signaled (same count)
    exact ⟨(after_live_iff inv.accounted after allowed live).mpr (count.trans (same count).symm),
      type, signal⟩

/-- A change of the dispatcher's data that ends no thread and signals no thread object. -/
theorem ThreadInv.keeps (inv : ThreadInv s) {ke : KeState}
    (settled : Settled ke) (keeps : Keeps s.ke ke) : Advances s { s with ke := ke } := by
  refine ⟨⟨inv.accounted, settled, ?_, ?_, ?_, ?_, ?_⟩, ?_, ?_⟩
  · intro t o owns
    rw [keeps.termination] at owns
    exact keeps.listed t (inv.listed t o owns)
  · intro t o owns
    rw [keeps.termination] at owns
    exact fun ended => inv.going t o owns ((keeps.ended t).mp ended)
  · intro t o owns
    rw [keeps.termination] at owns
    exact inv.held t o owns
  · intro t o owns
    rw [keeps.termination] at owns
    exact (keeps.signal o (inv.typed t o owns)).1
  · intro t u o owns owns'
    rw [keeps.termination] at owns owns'
    exact inv.single t u o owns owns'
  · intro t o d running
    exact ⟨(keeps.termination t).trans running.owns, running.kept⟩
  · intro t o d ended
    refine ⟨(keeps.ended t).mpr ended.state, ended.later, ?_, ?_⟩
    · intro count
      obtain ⟨live, type, signal⟩ := ended.signaled count
      exact ⟨live, (keeps.signal o type).1, (keeps.signal o type).2.trans signal⟩
    · intro count u
      rw [keeps.termination]
      exact ended.unowned count u

/-- The body of an object that no thread signals is set up. -/
theorem ThreadInv.header (inv : ThreadInv s) {h : HeaderRef}
    (d : DispatcherHeader) (other : (s.ke.headers h).type = .thread → s.life.ob.live h = false) :
    Advances s { s with ke := s.ke.setHeader h d } := by
  have apart : ∀ o, s.life.ob.live o = true → (s.ke.headers o).type = .thread → o ≠ h := by
    rintro o live type rfl
    exact absurd (live.symm.trans (other type)) (by decide)
  refine ⟨⟨inv.accounted, inv.settled.same ⟨fun _ => rfl, fun _ => rfl, rfl, rfl, rfl, rfl⟩,
    inv.listed, inv.going, inv.held, ?_, inv.single⟩, fun t o d h => ⟨h.owns, h.kept⟩, ?_⟩
  · intro t o owns
    have type := inv.typed t o owns
    simpa [apart o (inv.live owns) type] using type
  · intro t o d ended
    refine ⟨ended.state, ended.later, ?_, ended.unowned⟩
    intro count
    obtain ⟨live, type, signal⟩ := ended.signaled count
    simpa [apart o live type] using And.intro live (And.intro type signal)

theorem ThreadInv.spawn (inv : ThreadInv s)
    (fresh : t ∉ s.ke.processThreads) (unowned : ∀ u, (s.ke.threads u).terminationObject ≠ some o)
    (held : (if o = s.life.ob.rootDirectory then 1 else 0) < s.life.refs o)
    (typed : (s.ke.headers o).type = .thread)
    (unsignaled : (s.ke.headers o).signalState = 0) :
    Advances s { s with ke := keCreateThread s.ke t (some o) } := by
  have thread : ∀ u, ((keCreateThread s.ke t (some o)).threads u).terminationObject =
      if u = t then some o else (s.ke.threads u).terminationObject := by
    intro u
    by_cases hu : u = t <;> simp [keCreateThread, hu]
  have unlisted := inv.settled.unlisted t fresh
  refine ⟨⟨inv.accounted, inv.settled.create fresh, ?_, ?_, ?_, ?_, ?_⟩, ?_, ?_⟩
  · intro u p owns
    rw [thread] at owns
    by_cases hu : u = t
    · rw [hu]
      exact List.mem_append_right _ (List.mem_singleton_self t)
    · rw [if_neg hu] at owns
      exact List.mem_append_left _ (inv.listed u p owns)
  · intro u p owns
    rw [thread] at owns
    by_cases hu : u = t
    · simp [keCreateThread, hu]
    · rw [if_neg hu] at owns
      simpa [keCreateThread, hu] using inv.going u p owns
  · intro u p owns
    rw [thread] at owns
    by_cases hu : u = t
    · rw [if_pos hu] at owns
      rw [← Option.some.inj owns]
      exact held
    · rw [if_neg hu] at owns
      exact inv.held u p owns
  · intro u p owns
    rw [thread] at owns
    by_cases hu : u = t
    · rw [if_pos hu] at owns
      rw [← Option.some.inj owns]
      exact typed
    · rw [if_neg hu] at owns
      exact inv.typed u p owns
  · intro u v p owns owns'
    rw [thread] at owns owns'
    by_cases hu : u = t
    · rw [if_pos hu] at owns
      obtain rfl := Option.some.inj owns
      by_cases hv : v = t
      · rw [hu, hv]
      · rw [if_neg hv] at owns'
        exact absurd owns' (unowned v)
    · rw [if_neg hu] at owns
      by_cases hv : v = t
      · rw [if_pos hv] at owns'
        obtain rfl := Option.some.inj owns'
        exact absurd owns (unowned u)
      · rw [if_neg hv] at owns'
        exact inv.single u v p owns owns'
  · intro u p d running
    have other : u ≠ t := by
      rintro rfl
      exact fresh (inv.listed u p running.owns)
    refine ⟨?_, running.kept⟩
    rw [thread, if_neg other]
    exact running.owns
  · intro u p d ended
    have other : u ≠ t := by
      rintro rfl
      rw [ended.state] at unlisted
      exact absurd unlisted (by decide)
    refine ⟨by simpa [keCreateThread, other] using ended.state, ended.later, ended.signaled, ?_⟩
    intro count v owns
    rw [thread] at owns
    by_cases hv : v = t
    · rw [if_pos hv] at owns
      obtain rfl := Option.some.inj owns
      have signal := (ended.signaled count).2.2
      exact absurd (unsignaled.symm.trans signal) (by decide)
    · rw [if_neg hv] at owns
      exact ended.unowned count v owns

/-- What the end of the current thread does to the threads with an object. -/
structure CurrentEnds (s u : ThreadSystem) : Prop where
  inv : ThreadInv u
  running : ∀ t o d, t ≠ s.ke.current → Running s t o d → Running u t o d
  current : ∀ o d, Running s s.ke.current o d →
    Ended u s.ke.current o d ∧ (u.ke.headers o).signalState = 1
  ended : ∀ t o d, Ended s t o d → Ended u t o d

/-- The current thread ends and signals its object. -/
theorem ThreadInv.ends (inv : ThreadInv s) (notIdle : s.ke.current ≠ idleThread) :
    CurrentEnds s { s with ke := Ke.keTerminateThread s.ke } := by
  have ends := inv.settled.ends notIdle fun h owns => inv.typed _ h owns
  have others : ∀ t o, ((Ke.keTerminateThread s.ke).threads t).terminationObject = some o →
      t ≠ s.ke.current ∧ (s.ke.threads t).terminationObject = some o := by
    intro t o owns
    by_cases here : t = s.ke.current
    · rw [here, ends.released] at owns
      exact absurd owns (by simp)
    · exact ⟨here, (ends.termination t here).symm.trans owns⟩
  refine ⟨⟨inv.accounted, inv.settled.terminate notIdle, ?_, ?_, ?_, ?_, ?_⟩, ?_, ?_, ?_⟩
  · intro t o owns
    exact ends.listed t (inv.listed t o (others t o owns).2)
  · intro t o owns
    obtain ⟨other, owns⟩ := others t o owns
    exact fun ended => inv.going t o owns ((ends.ended t other).mp ended)
  · intro t o owns
    exact inv.held t o (others t o owns).2
  · intro t o owns
    exact (ends.signal o (inv.typed t o (others t o owns).2)).1
  · intro t u o owns owns'
    exact inv.single t u o (others t o owns).2 (others u o owns').2
  · intro t o d other running
    exact ⟨(ends.termination t other).trans running.owns, running.kept⟩
  · intro o d running
    have signal := ends.signaled o running.owns
    refine ⟨⟨ends.state, Nat.le_of_eq running.kept.symm, fun _ => ?_, fun _ u owns => ?_⟩, signal⟩
    · exact ⟨inv.live running.owns, (ends.signal o (inv.typed _ o running.owns)).1, signal⟩
    · obtain ⟨other, owns⟩ := others u o owns
      exact other (inv.single u _ o owns running.owns)
  · intro t o d ended
    have other : t ≠ s.ke.current := by
      rintro rfl
      exact absurd (inv.settled.currentRunning.symm.trans ended.state) (by decide)
    refine ⟨(ends.ended t other).mpr ended.state, ended.later, ?_, ?_⟩
    · intro count
      obtain ⟨live, type, signal⟩ := ended.signaled count
      obtain ⟨type', same⟩ := ends.signal o type
      exact ⟨live, type', (same (ended.unowned count _)).trans signal⟩
    · intro count u owns
      exact ended.unowned count u (others u o owns).2

/-- It then gives its reference back. -/
theorem ThreadInv.terminate (inv : ThreadInv s)
    (notIdle : s.ke.current ≠ idleThread) : CurrentEnds s s.keTerminateThread := by
  have ends := inv.ends notIdle
  cases owned : (s.ke.threads s.ke.current).terminationObject with
  | none =>
    have same : s.keTerminateThread = { s with ke := Ke.keTerminateThread s.ke } := by
      simp only [ThreadSystem.keTerminateThread, owned]
    rw [same]
    exact ends
  | some o =>
    have same : s.keTerminateThread = { s with
        ke := Ke.keTerminateThread s.ke
        life := s.life.after (.dereference o) } := by
      simp only [ThreadSystem.keTerminateThread, owned]
    have gone := ends.current o _ ⟨owned, rfl⟩
    have given := ends.inv.object (.dereference o) (inv.held _ o owned)
      (fun _ target => absurd target (by simp [LifeOp.target]))
      (fun u p owns same => by
        obtain rfl := LifeOp.dereference.inj same
        exact absurd owns (gone.1.unowned rfl u))
    rw [same]
    refine ⟨given.inv, ?_, ?_, ?_⟩
    · intro t p d other running
      exact given.running t p d (ends.running t p d other running)
    · intro p d running
      obtain ⟨ended, signal⟩ := ends.current p d running
      exact ⟨given.ended _ p d ended, signal⟩
    · intro t p d ended
      exact given.ended t p d (ends.ended t p d ended)

/-- A new object, with `n` references of its maker's and no other. -/
structure Made (w : World) (o : ObjectRef) (n : Nat) : Prop where
  live : w.ob.live o = true
  notRoot : o ≠ w.ob.rootDirectory
  refs : w.refs o = n
  count : (w.ob.headers o).pointerCount = n

theorem made_create (acc : Accounted w) {type : TypeRef}
    (typed : type ≠ 0) (fresh : w.ob.live o = false) :
    Made (w.after (.create type (some o) 1)) o 1 := by
  have root : (w.create type o).ob.rootDirectory = w.ob.rootDirectory := by
    rw [create_state w typed o]
    rfl
  have unheld : w.refs o = 0 := by
    by_contra held
    exact absurd (fresh.symm.trans (acc.counted.held o (Nat.pos_of_ne_zero held))) (by decide)
  rw [w.after_create typed (by decide) o]
  refine ⟨?_, ?_, ?_, ?_⟩
  · rw [create_state w typed o]
    exact Function.update_self _ _ _
  · rintro same
    have held := acc.counted.rootHeld
    rw [← root, ← same, unheld] at held
    exact absurd held (by decide)
  · simp [World.create, unheld]
  · rw [create_header w typed o]
    rfl

theorem Made.reference {n : Nat} (made : Made w o n)
    (small : n + 1 < 2 ^ 31) : Made (w.after (.reference o)) o (n + 1) where
  live := made.live
  notRoot := made.notRoot
  refs := by simp [World.after, World.reference, made.refs]
  count := by
    have inc := longInc_of_lt (x := (n : Int)) (by omega) (by omega)
    simp [World.after, World.reference, obReferenceObject, made.count, inc]

theorem ThreadInv.object_made (inv : ThreadInv s) (grantable : Grantable s.life.ob (some o)) :
    Advances s { s with
      life := s.life.after (.create s.threadType (some o) 1)
      ke := s.ke.setHeader o ⟨.thread, 0, (s.ke.headers o).limit, []⟩ } := by
  have body := inv.header ⟨.thread, 0, (s.ke.headers o).limit, []⟩ fun _ => (grantable o rfl).1
  refine body.trans (body.inv.object _ grantable ?_ ?_)
  · exact fun _ target => absurd target (by simp [LifeOp.target])
  · exact fun _ _ _ given => absurd given (by simp)

theorem ThreadInv.unowned (inv : ThreadInv s) (dead : s.life.ob.live o = false) (t : ThreadRef) :
    (s.ke.threads t).terminationObject ≠ some o := by
  intro owns
  exact absurd (dead.symm.trans (inv.live owns)) (by decide)

/-- The first reference to an object of one more is given back. -/
theorem ThreadInv.handOver (inv : ThreadInv s) (notRoot : o ≠ s.life.ob.rootDirectory)
    (held : 0 < s.life.refs o) (spare : s.life.refs o = 1 → ∀ t,
      (s.ke.threads t).terminationObject ≠ some o) :
    Advances s { s with life := s.life.after (.dereference o) } := by
  refine inv.object _ ?_ (fun _ target => absurd target (by simp [LifeOp.target])) ?_
  · simpa [Allowed, notRoot] using held
  · intro t p owns given
    obtain rfl := LifeOp.dereference.inj given
    have more : s.life.refs o ≠ 1 := fun one => spare one t owns
    rw [if_neg notRoot]
    omega

/-- The thread has been made and its object has a reference of the thread and one of the
maker. -/
def ThreadSystem.queued (s : ThreadSystem) (o : ObjectRef) (t : ThreadRef) : ThreadSystem :=
  { s with
    life := (s.life.after (.create s.threadType (some o) 1)).after (.reference o)
    ke := keCreateThread (s.ke.setHeader o ⟨.thread, 0, (s.ke.headers o).limit, []⟩) t (some o) }

structure Queued (s u : ThreadSystem) (o : ObjectRef) (t : ThreadRef) : Prop where
  advances : Advances s u
  running : Running u t o (s.life.ob.deleted.count o)
  made : Made u.life o 2
  type : (u.life.ob.headers o).type = s.threadType
  handles : u.life.ob.handles = s.life.ob.handles

theorem ThreadInv.queued (inv : ThreadInv s)
    (typed : s.threadType ≠ 0) (grantable : Grantable s.life.ob (some o))
    (fresh : t ∉ s.ke.processThreads) : Queued s (s.queued o t) o t := by
  have dead := (grantable o rfl).1
  have made := made_create inv.accounted typed dead
  have object := inv.object_made grantable
  have two := made.reference (by decide)
  have referenced := object.inv.object (.reference o) made.live
    (fun p target _ => by
      obtain rfl := Option.some.inj target
      rw [made.count]
      decide)
    (fun _ _ _ given => absurd given (by simp))
  have spawned := referenced.inv.spawn (t := t) (o := o) fresh (inv.unowned dead)
    (by rw [two.refs, if_neg two.notRoot]; decide) (by simp) (by simp)
  have state : (s.life.after (.create s.threadType (some o) 1)).ob =
      (s.life.create s.threadType o).ob := by
    rw [s.life.after_create typed (by decide) o]
  refine ⟨(object.trans referenced).trans spawned, ⟨?_, ?_⟩, two, ?_, ?_⟩
  · simp [ThreadSystem.queued, keCreateThread]
  · change (s.life.after (.create s.threadType (some o) 1)).ob.deleted.count o = _
    rw [state, create_state s.life typed o]
    rfl
  · have same := SameTypes.reference (s.life.after (.create s.threadType (some o) 1)).ob o o
    rw [state, create_header s.life typed o] at same
    exact same
  · change (s.life.after (.create s.threadType (some o) 1)).ob.handles = _
    rw [state, create_state s.life typed o]
    rfl

/-- The maker opens a handle and gives its own reference back, whether or not there was a
slot for the handle. -/
def ThreadSystem.opened (s : ThreadSystem) (o : ObjectRef) : ThreadSystem :=
  { s with life := (s.life.after (.createHandle o genericAll 1)).after (.dereference o) }

theorem ThreadInv.opened (inv : ThreadInv s)
    (made : Made s.life o 2) : Advances s (s.opened o) := by
  have handle := inv.object (.createHandle o genericAll 1) (Or.inr made.live)
    (fun p target _ => by
      obtain rfl := Option.some.inj target
      rw [made.count]
      decide)
    (fun _ _ _ given => absurd given (by simp))
  have root := (obCreateHandle_grows s.life.ob o genericAll 1).root
  have refs : (s.life.after (.createHandle o genericAll 1)).refs o = 2 := made.refs
  refine handle.trans (handle.inv.handOver ?_ ?_ ?_)
  · exact fun same => made.notRoot (same.trans root)
  · dsimp only
    rw [refs]
    decide
  · intro one
    exact absurd (refs.symm.trans one) (by decide)

theorem ThreadSystem.startThread_some (s : ThreadSystem) (o : ObjectRef) (t : ThreadRef) :
    s.startThread o (some t) =
      if !ntSuccess (obCreateHandle (s.queued o t).life.ob o genericAll 1).1 then
        (statusNoMemory, none, (s.queued o t).opened o)
      else (statusSuccess, some (obCreateHandle (s.queued o t).life.ob o genericAll 1).2.1,
        { (s.queued o t).opened o with ke := keYield (s.queued o t).ke }) := rfl

/-- A thread is behind the handle, and its object is there as long as it is needed. -/
structure Started (s u : ThreadSystem) (handle : Option Nat) : Prop where
  thread : ∃ t o h, handle = some h ∧ t ∉ s.ke.processThreads ∧
    u.ke.processThreads = s.ke.processThreads ++ [t] ∧
    tableMap u.life.ob h = some (o, genericAll) ∧ (u.life.ob.headers o).type = u.threadType ∧
    Running u t o (u.life.ob.deleted.count o)

theorem ThreadInv.startThread (inv : ThreadInv s)
    {thread : Option ThreadRef} (typed : s.threadType ≠ 0)
    (grantable : Grantable s.life.ob (some o))
    (fresh : ∀ t, thread = some t → t ∉ s.ke.processThreads)
    {status : NtStatus} {handle : Option Nat}
    (call : s.startThread o thread = (status, handle, u)) : Advances s u ∧
      ((thread = none ∧ status = statusNoMemory ∧ handle = none ∧
          u.ke.readyQueue = s.ke.readyQueue ∧ u.ke.processThreads = s.ke.processThreads) ∨
        (thread ≠ none ∧ freeSlot s.life.ob = none ∧ status = statusNoMemory ∧
          u.ke.processThreads ≠ s.ke.processThreads) ∨
        (thread ≠ none ∧ freeSlot s.life.ob ≠ none ∧ status = statusSuccess ∧
          Started s u handle)) := by
  have dead := (grantable o rfl).1
  cases thread with
  | none =>
    have object := inv.object_made grantable
    have made := made_create inv.accounted typed dead
    obtain ⟨rfl, rfl, rfl⟩ : _ ∧ _ ∧ _ := by simpa [ThreadSystem.startThread] using call
    refine ⟨object.trans (object.inv.handOver made.notRoot ?_ ?_), Or.inl ⟨rfl, rfl, rfl, rfl, rfl⟩⟩
    · dsimp only
      rw [made.refs]
      decide
    · exact fun _ => inv.unowned dead
  | some t =>
    have queued := inv.queued typed grantable (fresh t rfl)
    have opened := queued.advances.inv.opened queued.made
    have slot : freeSlot (s.queued o t).life.ob = freeSlot s.life.ob := by
      simp only [freeSlot, queued.handles]
    have listed : (s.queued o t).ke.processThreads = s.ke.processThreads ++ [t] := rfl
    have notNull : o ≠ 0 := Nat.ne_of_gt (Nat.lt_of_lt_of_le (by decide) (grantable o rfl).2.1)
    have given : ¬ (o = 0 ∨ 1 = 0) := by simp [notNull]
    rw [s.startThread_some o t] at call
    cases free : freeSlot s.life.ob with
    | none =>
      have refused :
          ntSuccess (obCreateHandle (s.queued o t).life.ob o genericAll 1).1 = false := by
        rw [obCreateHandle, if_neg given, slot, free]
        rfl
      rw [refused] at call
      obtain ⟨rfl, rfl, rfl⟩ : _ ∧ _ ∧ _ := by simpa using call
      refine ⟨queued.advances.trans opened, Or.inr (Or.inl ⟨by simp, rfl, rfl, ?_⟩)⟩
      change s.ke.processThreads ++ [t] ≠ s.ke.processThreads
      simp
    | some i =>
      have success : (obCreateHandle (s.queued o t).life.ob o genericAll 1).1 = statusSuccess := by
        rw [obCreateHandle, if_neg given, slot, free]
      have map := (tableMap_congr (obDereferenceObject_handles _ o)).trans
        ((create_spec (s.queued o t).life.ob genericAll notNull (by decide)).2 success).2.2.2
      have yielded := opened.inv.keeps opened.inv.settled.toSwitching.schedule
        (.schedule opened.inv.settled.toSwitching)
      have whole := (queued.advances.trans opened).trans yielded
      have running := yielded.running t o _ (opened.running t o _ queued.running)
      rw [success] at call
      obtain ⟨rfl, rfl, rfl⟩ : _ ∧ _ ∧ _ := by simpa [ntSuccess, statusSuccess] using call
      refine ⟨whole, Or.inr (Or.inr ⟨by simp, by simp, rfl, ?_⟩)⟩
      refine ⟨t, o, _, rfl, fresh t rfl, ?_, ?_, ?_, ?_⟩
      · exact (kiSchedule_frame _).2.1
      · exact (congrFun map _).trans (Function.update_self _ _ _)
      · exact (((SameTypes.createHandle _ o genericAll 1).trans (.dereference _ o)) o).trans
          queued.type
      · exact ⟨running.owns, rfl⟩

/-- User pages have nothing to do with threads. -/
theorem ThreadInv.memory (inv : ThreadInv s) (space : UserSpace) :
    Advances s { s with space := space } :=
  ⟨⟨inv.accounted, inv.settled, inv.listed, inv.going, inv.held, inv.typed, inv.single⟩,
    fun _ _ _ h => ⟨h.owns, h.kept⟩, fun _ _ _ h => ⟨h.state, h.later, h.signaled, h.unowned⟩⟩

/-- Both regions of a new thread can be mapped, at addresses that are not null. -/
def MapsThread (space : UserSpace) : Prop :=
  ∃ stack s₁ teb s₂, mapUserPages threadStackPages space = some (stack, s₁) ∧
    mapUserPages (processTebSize / pageSize) s₁ = some (teb, s₂) ∧ stack ≠ 0 ∧ teb ≠ 0

theorem ntCreateThreadEx_memory {writable : Bool} {space space' : UserSpace} {status : NtStatus}
    {stack teb : Nat}
    (call : Ps.ntCreateThreadEx writable true space = some (status, stack, teb, space')) :
    (ntSuccess status = true ∧ writable = true ∧ MapsThread space) ∨
      (ntSuccess status = false ∧ (writable = false ∨ ¬ MapsThread space)) := by
  unfold Ps.ntCreateThreadEx at call
  cases writable with
  | false =>
    obtain ⟨rfl, -⟩ := Prod.mk.inj (Option.some.inj call)
    exact Or.inr ⟨by decide, Or.inl rfl⟩
  | true =>
    rw [Bool.not_true, if_neg (by decide)] at call
    simp only [Option.bind_eq_bind, Option.bind_eq_some_iff] at call
    obtain ⟨⟨stack₁, s₁⟩, first, ⟨teb₁, s₂⟩, second, call⟩ := call
    dsimp only at first second call
    split at call
    · rename_i bad
      obtain ⟨rfl, -⟩ := Prod.mk.inj (Option.some.inj call)
      refine Or.inr ⟨by decide, Or.inr ?_⟩
      rintro ⟨stack₂, s₃, teb₂, s₄, first', second', stackOk, tebOk⟩
      obtain ⟨rfl, rfl⟩ := Prod.mk.inj (Option.some.inj (first.symm.trans first'))
      obtain ⟨rfl, rfl⟩ := Prod.mk.inj (Option.some.inj (second.symm.trans second'))
      simp [stackOk, tebOk] at bad
    · rename_i good
      obtain ⟨rfl, -⟩ := Prod.mk.inj (Option.some.inj call)
      simp only [not_or] at good
      exact Or.inl ⟨by decide, rfl, stack₁, s₁, teb₁, s₂, first, second, good.1, good.2.1⟩

/-- A call that goes as far as opening the handle of the new thread. -/
structure Reaches (s : ThreadSystem) (writable : Bool) (block : Option ObjectRef)
    (thread : Option ThreadRef) : Prop where
  writable : writable = true
  memory : MapsThread s.space
  typed : s.threadType ≠ 0
  object : block ≠ none
  thread : thread ≠ none

/-- How a creation ends. -/
inductive Created (s : ThreadSystem) (reaches : Prop) :
    NtStatus × Option Nat × ThreadSystem → Prop where
  | refused {status : NtStatus} {u : ThreadSystem} (early : ¬ reaches)
      (failed : ntSuccess status = false) (queue : u.ke.readyQueue = s.ke.readyQueue)
      (listed : u.ke.processThreads = s.ke.processThreads) : Created s reaches (status, none, u)
  | stranded {handle : Option Nat} {u : ThreadSystem} (late : reaches)
      (full : freeSlot s.life.ob = none)
      (listed : u.ke.processThreads ≠ s.ke.processThreads) :
      Created s reaches (statusNoMemory, handle, u)
  | started {handle : Option Nat} {u : ThreadSystem} (late : reaches)
      (free : freeSlot s.life.ob ≠ none) (started : Started s u handle) :
      Created s reaches (statusSuccess, handle, u)

theorem ThreadInv.createThread (inv : ThreadInv s) {writable : Bool}
    {block : Option ObjectRef} {thread : Option ThreadRef} (grants : s.Grants block thread)
    {r : NtStatus × Option Nat × ThreadSystem}
    (call : s.ntCreateThreadEx writable block thread = some r) :
    Advances s r.2.2 ∧ Created s (Reaches s writable block thread) r := by
  obtain ⟨grantable, fresh⟩ := grants
  simp only [ThreadSystem.ntCreateThreadEx, Option.bind_eq_bind, Option.bind_eq_some_iff] at call
  obtain ⟨⟨status, stack, teb, space⟩, memory, call⟩ := call
  have mapped := inv.memory space
  rcases ntCreateThreadEx_memory memory with ⟨ok, writes, maps⟩ | ⟨failed, early⟩
  · simp only [ok, Bool.not_true, Bool.false_eq_true, if_false] at call
    split at call
    · rename_i o made
      have typed : s.threadType ≠ 0 := by
        intro null
        simp [obCreateObject, null, ntSuccess, statusInvalidParameter] at made
      obtain ⟨status, handle, u⟩ := r
      obtain ⟨started, outcome⟩ :=
        mapped.inv.startThread typed grantable fresh (Option.some.inj call)
      refine ⟨mapped.trans started, ?_⟩
      rcases outcome with ⟨none, rfl, rfl, queue, listed⟩ | ⟨some, full, rfl, listed⟩ |
        ⟨some, free, rfl, thread⟩
      · exact .refused (fun reaches => reaches.thread none) (by decide) queue listed
      · exact .stranded ⟨writes, maps, typed, by simp, some⟩ full listed
      · exact .started ⟨writes, maps, typed, by simp, some⟩ free ⟨thread.thread⟩
    · rename_i unmade
      obtain rfl := Option.some.inj call
      refine ⟨mapped.trans (mapped.inv.object _ grantable ?_ ?_), .refused ?_ (by decide) rfl rfl⟩
      · exact fun _ target => absurd target (by simp [LifeOp.target])
      · exact fun _ _ _ given => absurd given (by simp)
      · intro reaches
        obtain ⟨o, rfl⟩ := Option.ne_none_iff_exists'.mp reaches.object
        refine unmade o ?_ rfl
        simp [obCreateObject, reaches.typed, ntSuccess, statusSuccess]
  · simp only [failed, Bool.not_false, if_true] at call
    obtain rfl := Option.some.inj call
    refine ⟨mapped, .refused ?_ failed rfl rfl⟩
    intro reaches
    exact early.elim (fun refused => absurd (refused.symm.trans reaches.writable) (by decide))
      fun unmapped => unmapped reaches.memory

/-- What one operation does to the threads with an object. -/
structure Passes (s u : ThreadSystem) : Prop where
  inv : ThreadInv u
  running : ∀ t o d, Running s t o d →
    Running u t o d ∨ (Ended u t o d ∧ (u.ke.headers o).signalState = 1)
  ended : ∀ t o d, Ended s t o d → Ended u t o d

theorem Advances.passes (advances : Advances s u) : Passes s u :=
  ⟨advances.inv, fun t o d h => Or.inl (advances.running t o d h), advances.ended⟩

theorem ThreadInv.step (inv : ThreadInv s) {op : ThreadOp}
    (step : ThreadStep s op u) : Passes s u := by
  cases op with
  | object op =>
    obtain ⟨allowed, room, spares, rfl⟩ := step
    exact (inv.object _ allowed room spares).passes
  | dispatch op =>
    obtain ⟨allowed, elsewhere, rfl⟩ := step
    have unowned : ∀ t, t ∉ s.ke.processThreads → (s.ke.threads t).terminationObject = none := by
      intro t unlisted
      by_contra owns
      obtain ⟨o, owns⟩ := Option.ne_none_iff_exists'.mp owns
      exact unlisted (inv.listed t o owns)
    obtain ⟨settled, keeps⟩ := inv.settled.elsewhere allowed elsewhere unowned
    exact (inv.keeps settled keeps).passes
  | header h d =>
    obtain ⟨other, rfl⟩ := step
    exact (inv.header d other).passes
  | memory space =>
    obtain rfl := step
    exact (inv.memory space).passes
  | terminate =>
    obtain ⟨notIdle, rfl⟩ := step
    have ends := inv.terminate notIdle.1
    refine ⟨ends.inv, ?_, ends.ended⟩
    intro t o d running
    by_cases here : t = s.ke.current
    · subst here
      exact Or.inr (ends.current o d running)
    · exact Or.inl (ends.running t o d here running)
  | createThread writable block thread =>
    obtain ⟨grants, status, handle, call⟩ := step
    exact (inv.createThread grants call).1.passes

theorem ThreadStart.inv (start : ThreadStart s) : ThreadInv s := by
  obtain ⟨boot, start⟩ := start
  have unowned : ∀ t, (s.ke.threads t).terminationObject = none := by
    obtain ⟨headers, same⟩ := start
    intro t
    rw [same]
    by_cases ht : t = idleThread <;> simp [keInitializeScheduler, ht, KThread.zero]
  have none : ∀ t o, (s.ke.threads t).terminationObject ≠ some o := by
    intro t o
    simp [unowned t]
  exact ⟨boot.accounted, settled_of_start start, fun t o h => absurd h (none t o),
    fun t o h => absurd h (none t o), fun t o h => absurd h (none t o),
    fun t o h => absurd h (none t o), fun t _ o h => absurd h (none t o)⟩

/-- The states after `s`. -/
def Later : ThreadSystem → ThreadSystem → Prop :=
  Relation.ReflTransGen fun a b => ∃ op, ThreadStep a op b

/-- In every state after one in which it runs, a thread runs or has ended. -/
theorem Later.passes (later : Later s u) (inv : ThreadInv s) {d : Nat} (running : Running s t o d) :
    ThreadInv u ∧ (Running u t o d ∨ Ended u t o d) := by
  induction later with
  | refl => exact ⟨inv, Or.inl running⟩
  | tail _ edge ih =>
    obtain ⟨op, step⟩ := edge
    obtain ⟨inv, now⟩ := ih
    have passes := inv.step step
    refine ⟨passes.inv, ?_⟩
    rcases now with running | ended
    · exact (passes.running t o d running).imp_right fun h => h.1
    · exact Or.inr (passes.ended t o d ended)

/-- From `s` on, the object is there until the thread ends, and the end of the thread
signals it. -/
structure Signals (s : ThreadSystem) (t : ThreadRef) (o : ObjectRef) : Prop where
  kept : ∀ u, Later s u → (u.ke.threads t).state ≠ .terminated →
    u.life.ob.live o = true ∧ u.life.ob.deleted.count o = s.life.ob.deleted.count o
  signaled : ∀ u op v, Later s u → ThreadStep u op v → (u.ke.threads t).state ≠ .terminated →
    (v.ke.threads t).state = .terminated → (v.ke.headers o).signalState = 1
  stays : ∀ u, Later s u → (u.ke.threads t).state = .terminated →
    u.life.ob.deleted.count o = s.life.ob.deleted.count o →
      u.life.ob.live o = true ∧ (u.ke.headers o).signalState = 1

theorem ThreadInv.signals (inv : ThreadInv s)
    (running : Running s t o (s.life.ob.deleted.count o)) : Signals s t o where
  kept := fun u later going => by
    obtain ⟨inv, running | ended⟩ := later.passes inv running
    · exact ⟨inv.live running.owns, running.kept⟩
    · exact absurd ended.state going
  signaled := fun u op v later step going gone => by
    obtain ⟨inv, running | ended⟩ := later.passes inv running
    · have passes := inv.step step
      rcases passes.running t o _ running with running | ended
      · exact absurd gone (passes.inv.going t o running.owns)
      · exact ended.2
    · exact absurd ended.state going
  stays := fun u later gone count => by
    obtain ⟨inv, running | ended⟩ := later.passes inv running
    · exact absurd gone (inv.going t o running.owns)
    · exact ⟨(ended.signaled count).1, (ended.signaled count).2.2⟩

/-- What the caller of `NtCreateThreadEx` relies on: no thread after a failure, and after a
success one thread more and a handle to an object that signals its end. -/
structure AllOrNothing (s : ThreadSystem) (r : NtStatus × Option Nat × ThreadSystem) : Prop where
  nothing : ntSuccess r.1 = false → r.2.2.ke.readyQueue = s.ke.readyQueue ∧
    r.2.2.ke.processThreads = s.ke.processThreads ∧ r.2.1 = none
  all : r.1 = statusSuccess → ∃ t o handle, r.2.1 = some handle ∧
    t ∉ s.ke.processThreads ∧ r.2.2.ke.processThreads = s.ke.processThreads ++ [t] ∧
    tableMap r.2.2.life.ob handle = some (o, genericAll) ∧
    (r.2.2.life.ob.headers o).type = r.2.2.threadType ∧ Signals r.2.2 t o

theorem ThreadInv.allOrNothing_iff (inv : ThreadInv s) {writable : Bool}
    {block : Option ObjectRef} {thread : Option ThreadRef} (grants : s.Grants block thread)
    {r : NtStatus × Option Nat × ThreadSystem}
    (call : s.ntCreateThreadEx writable block thread = some r) :
    AllOrNothing s r ↔ (freeSlot s.life.ob ≠ none ∨ ¬ Reaches s writable block thread) := by
  obtain ⟨advances, created⟩ := inv.createThread grants call
  cases created with
  | refused early failed queue listed =>
    refine ⟨fun _ => Or.inr early, fun _ => ⟨fun _ => ⟨queue, listed, rfl⟩, ?_⟩⟩
    rintro rfl
    exact absurd failed (by decide)
  | stranded late full listed =>
    constructor
    · have failed : ntSuccess statusNoMemory = false := by decide
      exact fun whole => absurd (whole.nothing failed).2.1 listed
    · rintro (free | early)
      · exact absurd full free
      · exact absurd late early
  | started late free started =>
    have success : ntSuccess statusSuccess = true := by decide
    refine ⟨fun _ => Or.inl free, fun _ => ⟨fun failed => ?_, fun _ => ?_⟩⟩
    · exact absurd (success.symm.trans failed) (by decide)
    obtain ⟨t, o, h, handle, fresh, listed, map, type, running⟩ := started.thread
    exact ⟨t, o, h, handle, fresh, listed, map, type, advances.inv.signals running⟩

theorem thread_inv (run : Runs.Reachable ThreadStart ThreadStep s) :
    ThreadInv s :=
  run.invariant (fun _ start => start.inv) fun _ _ _ inv step => (inv.step step).inv

/-- A creation is all or nothing unless the handle table is full when the thread has been
queued. -/
theorem thread_creation_all_or_nothing {s : ThreadSystem}
    (run : Runs.Reachable ThreadStart ThreadStep s) {writable : Bool} {block : Option ObjectRef}
    {thread : Option ThreadRef} (grants : s.Grants block thread)
    {r : NtStatus × Option Nat × ThreadSystem}
    (call : s.ntCreateThreadEx writable block thread = some r) :
    AllOrNothing s r ↔ (freeSlot s.life.ob ≠ none ∨ ¬ Reaches s writable block thread) :=
  (thread_inv run).allOrNothing_iff grants call

theorem ntCreateThreadEx_returns (maps : MapsThread s.space)
    (block : Option ObjectRef) (thread : Option ThreadRef) :
    ∃ r, s.ntCreateThreadEx true block thread = some r := by
  obtain ⟨stack, s₁, teb, s₂, first, second, stackOk, tebOk⟩ := maps
  have memory : Ps.ntCreateThreadEx true true s.space = some (statusSuccess, stack, teb, s₂) := by
    simp [Ps.ntCreateThreadEx, first, second, stackOk, tebOk]
  simp only [ThreadSystem.ntCreateThreadEx, memory, Option.bind_eq_bind, Option.bind_some]
  split
  · exact ⟨_, rfl⟩
  split
  · exact ⟨_, rfl⟩
  · exact ⟨_, rfl⟩

/-- Frames for a thread and for as many tables as its pages can need. -/
def threadFrames : UserSpace :=
  freshUserSpace.withVm { freshUserSpace.vm with
    frames := (List.range 72).map fun i => BitVec.ofNat 64 ((i + 2) * 0x1000) }

theorem threadFrames_maps : MapsThread threadFrames := by
  have count : threadFrames.vm.frames.length = 0 + 4 * 2 + 4 * threadStackPages := by decide
  obtain ⟨s₁, first, next, left⟩ := mapUserPages_of_frames (Nat.le_of_eq count.symm)
  obtain ⟨s₂, second, -, -⟩ := mapUserPages_of_frames left
  refine ⟨_, s₁, _, s₂, first, second, by decide, ?_⟩
  rw [next]
  decide

/-- A booted system in which Thread objects are of type 2. -/
def bootThreads : ThreadSystem := ⟨bootWorld, keInitializeScheduler plainHeaders, threadFrames, 2⟩

theorem bootThreads_start : ThreadStart bootThreads := ⟨bootWorld_booted, plainHeaders, rfl⟩

theorem thread_creation_all_or_nothing_first : ∃ r,
    bootThreads.ntCreateThreadEx true (some (mmKernelHeapBase + 4096)) (some 1) = some r ∧
      AllOrNothing bootThreads r := by
  have grants : bootThreads.Grants (some (mmKernelHeapBase + 4096)) (some 1) := by
    refine ⟨?_, ?_⟩
    · intro o same
      obtain rfl := Option.some.inj same
      exact ⟨by decide, by decide, by decide⟩
    · intro t same
      obtain rfl := Option.some.inj same
      decide
  obtain ⟨r, call⟩ := ntCreateThreadEx_returns (s := bootThreads) threadFrames_maps
    (some (mmKernelHeapBase + 4096)) (some 1)
  refine ⟨r, call, (thread_creation_all_or_nothing (.of_initial bootThreads_start) grants
    call).mpr (Or.inl ?_)⟩
  intro full
  exact freeSlot_none full (i := 0) (by decide) rfl

theorem createHandle_named {s : ObState} {i : Nat} (notNull : o ≠ 0) (slot : freeSlot s = some i) :
    namedBy (obCreateHandle s o genericAll 1).2.2 o = namedBy s o + 1 := by
  obtain ⟨hi, free⟩ := freeSlot_some slot
  have given : ¬ (o = 0 ∨ 1 = 0) := by simp [notNull]
  have slots : (obCreateHandle s o genericAll 1).2.2.handles =
      (s.setEntry i ⟨o, genericAll⟩).handles := by
    rw [obCreateHandle, if_neg given, slot]
    rfl
  have entry := namedBy_setEntry s hi ⟨o, genericAll⟩ o
  rw [free, if_neg (Ne.symm notNull), if_pos rfl, Nat.add_zero] at entry
  rw [namedBy_congr slots, entry]

theorem freeSlot_named {s : ObState} (notNull : o ≠ 0)
    (all : namedBy s o = obMaxHandles) : freeSlot s = none := by
  cases slot : freeSlot s with
  | none => rfl
  | some i =>
    have named := createHandle_named notNull slot
    have most := namedBy_le (obCreateHandle s o genericAll 1).2.2 o
    rw [named, all] at most
    exact absurd most (Nat.not_succ_le_self _)

/-- Handles to the root directory, one after another. -/
theorem root_handles (n : Nat) (hn : n ≤ obMaxHandles) :
    ∃ s, Runs.Reachable ThreadStart ThreadStep s ∧ s.space = threadFrames ∧ s.threadType = 2 ∧
      s.ke = bootThreads.ke ∧ s.life.ob.live = bootWorld.ob.live ∧ s.life.refs = bootWorld.refs ∧
      namedBy s.life.ob mmKernelHeapBase = n := by
  induction n with
  | zero =>
    refine ⟨bootThreads, .of_initial bootThreads_start, rfl, rfl, rfl, rfl, rfl, ?_⟩
    refine namedBy_of_slot_ne ?_
    intro i _ h
    exact absurd h (by simp [bootThreads, bootWorld, HandleEntry.empty, mmKernelHeapBase])
  | succ n ih =>
    obtain ⟨s, run, space, type, ke, lives, refs, named⟩ := ih (by omega)
    have live : s.life.ob.live mmKernelHeapBase = true := by
      rw [lives]
      rfl
    have count := (thread_inv run).accounted.counted.pointers mmKernelHeapBase live
    have linked : linkedIn s.life.ob mmKernelHeapBase ≤ 1 := by
      simp only [linkedIn]
      split <;> decide
    have held : s.life.refs mmKernelHeapBase = 1 := by
      rw [refs]
      rfl
    have few : obMaxHandles < 2 ^ 31 - 3 := by decide
    have opened : ThreadStep s (.object (.createHandle mmKernelHeapBase genericAll 1)) { s with
        life := s.life.after (.createHandle mmKernelHeapBase genericAll 1) } := by
      refine ⟨Or.inr live, ?_, fun _ _ _ given => absurd given (by simp), rfl⟩
      intro o target _
      obtain rfl := Option.some.inj target
      omega
    refine ⟨_, run.next opened, space, type, ke, ?_, ?_, ?_⟩
    · simp only [World.after, (obCreateHandle_frame s.life.ob _ genericAll 1).1, lives]
    · simp only [World.after, refs]
    · simp only [World.after]
      cases slot : freeSlot s.life.ob with
      | none =>
        -- the root is the only object a slot can name
        have all : namedBy s.life.ob mmKernelHeapBase = obMaxHandles := by
          rw [namedBy, Finset.filter_true_of_mem, Finset.card_range]
          intro i hi
          have used := (thread_inv run).accounted.counted.slots i (Finset.mem_range.mp hi)
            (freeSlot_none slot (Finset.mem_range.mp hi))
          rw [lives] at used
          exact of_decide_eq_true used
        rw [named] at all
        exact absurd hn (by rw [all]; exact Nat.not_succ_le_self _)
      | some i => rw [createHandle_named (by decide) slot, named]

/-- With every slot of the handle table in use a creation fails and leaves its thread. -/
theorem full_table_strands_thread :
    ¬ ∀ s, Runs.Reachable ThreadStart ThreadStep s → ∀ writable block thread,
      s.Grants block thread → ∀ r, s.ntCreateThreadEx writable block thread = some r →
        AllOrNothing s r := by
  intro claim
  obtain ⟨s, run, space, type, ke, lives, refs, named⟩ := root_handles obMaxHandles (Nat.le_refl _)
  have full := freeSlot_named (by decide) named
  have maps : MapsThread s.space := by
    rw [space]
    exact threadFrames_maps
  have grants : s.Grants (some (mmKernelHeapBase + 4096)) (some 1) := by
    refine ⟨?_, ?_⟩
    · intro o same
      obtain rfl := Option.some.inj same
      rw [lives]
      exact ⟨by decide, by decide, by decide⟩
    · intro t same
      obtain rfl := Option.some.inj same
      rw [ke]
      decide
  obtain ⟨r, call⟩ := ntCreateThreadEx_returns maps (some (mmKernelHeapBase + 4096)) (some 1)
  have reaches : Reaches s true (some (mmKernelHeapBase + 4096)) (some 1) :=
    ⟨rfl, maps, by rw [type]; decide, by simp, by simp⟩
  rcases ((thread_inv run).allOrNothing_iff grants call).mp (claim s run _ _ _ grants r call) with
    free | early
  · exact free full
  · exact early reaches

end Ps
