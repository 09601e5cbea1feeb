import Mathlib.Logic.Function.Basic
import Svindows.Nt.Defs

/-!
# Objects, the handle table and the namespace

An object is known by the address of its body; the header in front of it and,
for a directory, the entry list inside it are one record. Freeing an object
clears its `live` mark and leaves its bytes. Counters are the 32-bit words of
the sources. A `KeBugCheck` sets `bugCheck`; nothing runs after it.
-/

namespace Ob

open Nt

/-- A `POBJECT`; 0 is the null pointer. -/
abbrev ObjectRef := Nat

/-- A `POBJECT_TYPE`; 0 is the null pointer. -/
abbrev TypeRef := Nat

abbrev AccessMask := BitVec 32

/-- A name or a path, as the characters before its terminator. -/
abbrev Name := List Char

def genericAll : AccessMask := 0x10000000#32
def obMaxHandles : Nat := 4096

structure ObjectHeader where
  pointerCount : Int
  handleCount : Int
  type : TypeRef
  name : Option Name
  parentDirectory : Option ObjectRef
  /-- `Entries` of an `OBJECT_DIRECTORY` body. -/
  entries : List ObjectRef
  deriving Repr

structure ObjectType where
  totalObjects : Nat
  totalHandles : Nat
  deriving Repr

structure HandleEntry where
  object : ObjectRef
  grantedAccess : AccessMask
  deriving DecidableEq, Repr

def HandleEntry.empty : HandleEntry := ⟨0, 0⟩

structure ObState where
  headers : ObjectRef → ObjectHeader
  live : ObjectRef → Bool
  types : TypeRef → ObjectType
  handles : Nat → HandleEntry
  rootDirectory : ObjectRef
  directoryType : TypeRef
  bugCheck : Bool
  /-- Objects `ObpDeleteObject` has torn down, in order. -/
  deleted : List ObjectRef

def ObState.setHeader (s : ObState) (o : ObjectRef) (h : ObjectHeader) : ObState :=
  { s with headers := Function.update s.headers o h }

def ObState.setType (s : ObState) (t : TypeRef) (k : ObjectType) : ObState :=
  { s with types := Function.update s.types t k }

def ObState.setEntry (s : ObState) (i : Nat) (e : HandleEntry) : ObState :=
  { s with handles := Function.update s.handles i e }

/-- `InterlockedIncrement` and `InterlockedDecrement` on a `LONG`. -/
def longInc (x : Int) : Int := Int.bmod (x + 1) (2 ^ 32)
def longDec (x : Int) : Int := Int.bmod (x - 1) (2 ^ 32)

/-- A header as `ObCreateObject` fills it in. -/
def newHeader (type : TypeRef) : ObjectHeader := ⟨1, 0, type, none, none, []⟩

/-- `ObCreateObject`, with the block the pool grants, if it grants one; `out` is
where the object is to be stored. -/
def obCreateObject (s : ObState) (type : TypeRef) (block : Option ObjectRef) (out : Nat) :
    NtStatus × ObState :=
  if type = 0 ∨ out = 0 then (statusInvalidParameter, s)
  else match block with
    | none => (statusNoMemory, s)
    | some o =>
      let s := { s.setHeader o (newHeader type) with live := Function.update s.live o true }
      (statusSuccess, s.setType type { s.types type with
        totalObjects := wrap32 ((s.types type).totalObjects + 1) })

def obReferenceObject (s : ObState) (o : ObjectRef) : ObState :=
  s.setHeader o { s.headers o with pointerCount := longInc (s.headers o).pointerCount }

/-- Unlink the object from its directory, if it is in one. -/
def detach (s : ObState) (o : ObjectRef) : ObState :=
  match (s.headers o).parentDirectory with
  | none => s
  | some d =>
    let s := s.setHeader d { s.headers d with entries := (s.headers d).entries.filter (· ≠ o) }
    s.setHeader o { s.headers o with parentDirectory := none }

/-- `ObpDeleteObject`. The delete procedures of the object types do not touch
the object manager's own data. -/
def obpDeleteObject (s : ObState) (o : ObjectRef) : ObState :=
  let type := (s.headers o).type
  let s := detach s o
  let s := if (s.types type).totalObjects ≠ 0 then
    s.setType type { s.types type with totalObjects := (s.types type).totalObjects - 1 } else s
  { s with live := Function.update s.live o false, deleted := s.deleted ++ [o] }

def obDereferenceObject (s : ObState) (o : ObjectRef) : ObState :=
  let remaining := longDec (s.headers o).pointerCount
  let s := s.setHeader o { s.headers o with pointerCount := remaining }
  if remaining < 0 then { s with bugCheck := true }
  else if remaining = 0 then obpDeleteObject s o
  else s

/-- `index_to_handle`, in 32-bit arithmetic. -/
def indexToHandle (index : Nat) : Nat := wrap32 ((index + 1) * 4)

def handleToIndex (handle : Nat) : Option Nat :=
  if handle = 0 ∨ handle % 4 ≠ 0 then none
  else if obMaxHandles ≤ handle / 4 - 1 then none
  else some (handle / 4 - 1)

/-- The first free slot. -/
def freeSlot (s : ObState) : Option Nat :=
  (List.range obMaxHandles).find? fun i => (s.handles i).object = 0

/-- `ObCreateHandle`; `out` is where the handle is to be stored. -/
def obCreateHandle (s : ObState) (object : ObjectRef) (access : AccessMask) (out : Nat) :
    NtStatus × Nat × ObState :=
  if object = 0 ∨ out = 0 then (statusInvalidParameter, 0, s)
  else match freeSlot s with
    | none => (statusInsufficientResources, 0, s)
    | some i =>
      let s := s.setEntry i ⟨object, access⟩
      let s := obReferenceObject s object
      let s := s.setHeader object { s.headers object with
        handleCount := longInc (s.headers object).handleCount }
      let type := (s.headers object).type
      let s := s.setType type { s.types type with
        totalHandles := wrap32 ((s.types type).totalHandles + 1) }
      (statusSuccess, indexToHandle i, s)

/-- The access a grant stands for: `GENERIC_ALL` grants every bit. -/
def effectiveAccess (granted : AccessMask) : AccessMask :=
  if granted &&& genericAll ≠ 0 then BitVec.allOnes 32 else granted

/-- `ObReferenceObjectByHandle`; type 0 is a null type, which matches any. -/
def obReferenceObjectByHandle (s : ObState) (handle : Nat) (desired : AccessMask)
    (type : TypeRef) (out : Nat) : NtStatus × ObjectRef × ObState :=
  match handleToIndex handle with
  | none => (statusInvalidHandle, 0, s)
  | some i =>
    let entry := s.handles i
    if out = 0 ∨ entry.object = 0 then (statusInvalidHandle, 0, s)
    else if type ≠ 0 ∧ (s.headers entry.object).type ≠ type then
      (statusObjectTypeMismatch, 0, s)
    else if desired ≠ 0 ∧ effectiveAccess entry.grantedAccess &&& desired ≠ desired then
      (statusAccessDenied, 0, s)
    else (statusSuccess, entry.object, obReferenceObject s entry.object)

def obCloseHandle (s : ObState) (handle : Nat) : NtStatus × ObState :=
  match handleToIndex handle with
  | none => (statusInvalidHandle, s)
  | some i =>
    let object := (s.handles i).object
    if object = 0 then (statusInvalidHandle, s)
    else
      let s := s.setEntry i .empty
      let s := s.setHeader object { s.headers object with
        handleCount := longDec (s.headers object).handleCount }
      let type := (s.headers object).type
      let s := if (s.types type).totalHandles ≠ 0 then
        s.setType type { s.types type with totalHandles := (s.types type).totalHandles - 1 }
        else s
      (statusSuccess, obDereferenceObject s object)

/-- `ObpFindInDirectory`. -/
def obpFindInDirectory (s : ObState) (dir : ObjectRef) (name : Name) : Option ObjectRef :=
  (s.headers dir).entries.find? fun o => (s.headers o).name = some name

/-- `ObInsertObjectByName`; `none` is a null name. -/
def obInsertObjectByName (s : ObState) (dir : ObjectRef) (name : Option Name)
    (object : ObjectRef) : NtStatus × ObState :=
  match name with
  | none => (statusInvalidParameter, s)
  | some name =>
    if dir = 0 ∨ object = 0 then (statusInvalidParameter, s)
    else if (obpFindInDirectory s dir name).isSome then (statusObjectNameCollision, s)
    else
      let s := s.setHeader object { s.headers object with
        name := some name
        parentDirectory := some dir }
      let s := s.setHeader dir { s.headers dir with
        entries := (s.headers dir).entries ++ [object] }
      (statusSuccess, obReferenceObject s object)

/-- `ObCreateDirectory`; parent 0 makes a directory outside the namespace. -/
def obCreateDirectory (s : ObState) (parent : ObjectRef) (name : Option Name)
    (block : Option ObjectRef) : NtStatus × ObState :=
  let (status, s) := obCreateObject s s.directoryType block 1
  match ntSuccess status, block with
  | true, some o =>
    if parent = 0 then (statusSuccess, s)
    else
      let (status, s) := obInsertObjectByName s parent name o
      if ntSuccess status then (statusSuccess, s) else (status, obDereferenceObject s o)
  | _, _ => (status, s)

/-- The segment loop of `ObLookupObjectByName`: the object a path names, below `dir`. -/
def resolve (s : ObState) : Nat → ObjectRef → Name → NtStatus × ObjectRef
  | 0, _, _ => (statusObjectNameInvalid, 0)
  | fuel + 1, dir, path =>
    let seg := path.takeWhile (· ≠ '\\')
    let rest := path.dropWhile (· ≠ '\\')
    if seg = [] then (statusObjectNameInvalid, 0)
    else match obpFindInDirectory s dir seg with
      | none =>
        (if rest = [] then statusObjectNameNotFound else statusObjectPathNotFound, 0)
      | some o =>
        if rest = [] then (statusSuccess, o)
        else if (s.headers o).type ≠ s.directoryType then (statusObjectPathNotFound, 0)
        else resolve s fuel o rest.tail

/-- `ObLookupObjectByName`. Every segment takes a character and its separator
off the path, so its length is enough fuel. -/
def obLookupObjectByName (s : ObState) (path : Option Name) (out : Nat) :
    NtStatus × ObjectRef × ObState :=
  match path with
  | some ('\\' :: rest) =>
    if out = 0 then (statusObjectNameInvalid, 0, s)
    else if rest = [] then
      (statusSuccess, s.rootDirectory, obReferenceObject s s.rootDirectory)
    else
      let (status, o) := resolve s (rest.length + 1) s.rootDirectory rest
      if ntSuccess status then (status, o, obReferenceObject s o) else (status, 0, s)
  | _ => (statusObjectNameInvalid, 0, s)

end Ob
