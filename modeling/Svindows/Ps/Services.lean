import Svindows.Ke.Thread
import Svindows.Ob.Object

/-!
# Event, semaphore and wait services

The services of `ps/psobj.c` over the dispatcher and the object manager: the
body of an event, a thread or a semaphore begins with its dispatcher header, so
an object's address is its header's. A service runs with interrupts masked and
is one step, except that a wait may block inside; the objects it has referenced
are then kept in `pending` until the thread runs on. Arguments are the `LONG`
and `ULONG` values the services cast their argument words to.
-/

namespace Ps

open Nt Ob Ke

structure PsState where
  ke : KeState
  ob : ObState
  eventType : TypeRef
  threadType : TypeRef
  semaphoreType : TypeRef
  /-- The objects a thread's blocked wait service has referenced. -/
  pending : ThreadRef → List ObjectRef

/-- `LONG` subtraction. -/
def subLong (x y : Int) : Int := Int.bmod (x - y) (2 ^ 32)

def keInitializeEvent (s : KeState) (h : HeaderRef) (notification signaled : Bool) : KeState :=
  s.setHeader h
    { type := if notification then .eventNotification else .eventSynchronization
      signalState := if signaled then 1 else 0
      limit := (s.headers h).limit
      waitList := [] }

/-- Make an object, set its body up and open a handle to it. -/
def createObject (s : PsState) (type : TypeRef) (init : KeState → HeaderRef → KeState)
    (block : Option ObjectRef) : NtStatus × Nat × PsState :=
  let (status, ob) := obCreateObject s.ob type block 1
  match ntSuccess status, block with
  | true, some o =>
    let (status, handle, ob) := obCreateHandle ob o genericAll 1
    (status, handle, { s with ke := init s.ke o, ob := obDereferenceObject ob o })
  | _, _ => (statusNoMemory, 0, { s with ob := ob })

/-- `NtCreateEvent`; `writable` says whether the handle's address passes its probe. -/
def ntCreateEvent (s : PsState) (writable : Bool) (eventType initial : Nat)
    (block : Option ObjectRef) : NtStatus × Nat × PsState :=
  if !writable then (statusAccessViolation, 0, s)
  else
    let (status, handle, s) := createObject s s.eventType
      (fun ke o => keInitializeEvent ke o (eventType = 0) (initial % 256 ≠ 0)) block
    if ntSuccess status then (statusSuccess, handle, s) else (statusNoMemory, 0, s)

def ntSetEvent (s : PsState) (handle : Nat) : NtStatus × PsState :=
  let (status, o, ob) := obReferenceObjectByHandle s.ob handle 0 s.eventType 1
  if !ntSuccess status then (statusInvalidHandle, { s with ob := ob })
  else (statusSuccess, { s with ke := keSetEvent s.ke o, ob := obDereferenceObject ob o })

def ntResetEvent (s : PsState) (handle : Nat) : NtStatus × PsState :=
  let (status, o, ob) := obReferenceObjectByHandle s.ob handle 0 s.eventType 1
  if !ntSuccess status then (statusInvalidHandle, { s with ob := ob })
  else (statusSuccess, { s with ke := keResetEvent s.ke o, ob := obDereferenceObject ob o })

def keInitializeSemaphore (s : KeState) (h : HeaderRef) (initial limit : Int) : KeState :=
  s.setHeader h ⟨.semaphore, initial, limit, []⟩

def ntCreateSemaphore (s : PsState) (writable : Bool) (initial limit : Int)
    (block : Option ObjectRef) : NtStatus × Nat × PsState :=
  if !writable then (statusAccessViolation, 0, s)
  else if limit ≤ 0 ∨ initial < 0 ∨ limit < initial then (statusInvalidParameter, 0, s)
  else createObject s s.semaphoreType (fun ke o => keInitializeSemaphore ke o initial limit) block

def ntReleaseSemaphore (s : PsState) (handle : Nat) (release : Int) : NtStatus × PsState :=
  if release ≤ 0 then (statusInvalidParameter, s)
  else
    let (status, o, ob) := obReferenceObjectByHandle s.ob handle 0 s.semaphoreType 1
    if !ntSuccess status then (statusInvalidHandle, { s with ob := ob })
    else if subLong (s.ke.headers o).limit release < (s.ke.headers o).signalState then
      (statusInvalidParameter, { s with ob := obDereferenceObject ob o })
    else
      (statusSuccess,
        { s with ke := keReleaseSemaphore s.ke o release, ob := obDereferenceObject ob o })

/-- `timeout_to_ticks`; `none` is a null or unreadable timeout. -/
def timeoutToTicks (s : KeState) (timeout : Option Int) : Nat :=
  match timeout with
  | none => infiniteTicks
  | some value =>
    if value = 0 then 0
    else if value < 0 then ((-value).toNat + 99999) / 100000
    else
      let now := wrap64 (s.tickCount * 100000)
      if value.toNat ≤ now then 0 else (value.toNat - now + 99999) / 100000

def referenceWaitable (s : PsState) (handle : Nat) : NtStatus × ObjectRef × ObState :=
  let (status, o, ob) := obReferenceObjectByHandle s.ob handle 0 0 1
  if !ntSuccess status then (statusInvalidHandle, 0, ob)
  else
    let type := (ob.headers o).type
    if type ≠ s.eventType ∧ type ≠ s.threadType ∧ type ≠ s.semaphoreType then
      (statusObjectTypeMismatch, 0, obDereferenceObject ob o)
    else (statusSuccess, o, ob)

/-- The reference loop of `NtWaitForMultipleObjects`: the objects referenced,
up to the first handle that fails. -/
def referenceAll (s : PsState) : List Nat → NtStatus × List ObjectRef × ObState
  | [] => (statusSuccess, [], s.ob)
  | handle :: handles =>
    let (status, o, ob) := referenceWaitable s handle
    if !ntSuccess status then (status, [], ob)
    else
      let (status, objects, ob) := referenceAll { s with ob := ob } handles
      (status, o :: objects, ob)

def dereferenceAll (s : ObState) (objects : List ObjectRef) : ObState :=
  objects.foldr (fun o s => obDereferenceObject s o) s

/-- Behind the wait: let go of the objects, or remember them while blocked. -/
def finishWait (s : PsState) (t : ThreadRef) (objects : List ObjectRef)
    (r : Option NtStatus × KeState) : Option NtStatus × PsState :=
  match r.1 with
  | some status =>
    (some status, { s with
      ke := r.2
      ob := dereferenceAll s.ob objects
      pending := Function.update s.pending t [] })
  | none => (none, { s with ke := r.2, pending := Function.update s.pending t objects })

def keWaitForSingleObjectTimeout (s : KeState) (h : HeaderRef) (timeoutTicks : Nat) :
    Option NtStatus × KeState :=
  keWaitForMultipleObjects s [h] false timeoutTicks

/-- `NtWaitForSingleObject`; no status while it blocks. -/
def ntWaitForSingleObject (s : PsState) (handle : Nat) (timeout : Option Int) :
    Option NtStatus × PsState :=
  let (status, o, ob) := referenceWaitable s handle
  if !ntSuccess status then (some status, { s with ob := ob })
  else finishWait { s with ob := ob } s.ke.current [o]
    (keWaitForSingleObjectTimeout s.ke o (timeoutToTicks s.ke timeout))

/-- `NtWaitForMultipleObjects`: `handles` is the array, if it can be read. -/
def ntWaitForMultipleObjects (s : PsState) (count : Nat) (handles : Option (Nat → Nat))
    (waitType : Nat) (timeout : Option Int) : Option NtStatus × PsState :=
  if count = 0 ∨ keMaximumWaitObjects < count ∨ 1 < waitType then
    (some statusInvalidParameter, s)
  else match handles with
    | none => (some statusAccessViolation, s)
    | some read =>
      let (status, objects, ob) := referenceAll s ((List.range count).map read)
      if !ntSuccess status then (some status, { s with ob := dereferenceAll ob objects })
      else finishWait { s with ob := ob } s.ke.current objects
        (keWaitForMultipleObjects s.ke objects (waitType = 0) (timeoutToTicks s.ke timeout))

/-- A blocked wait service when its thread runs again. -/
def resumeService (s : PsState) (f : WaitFrame) : Option NtStatus × PsState :=
  finishWait s s.ke.current (s.pending s.ke.current) (resumeWait s.ke f)

end Ps
