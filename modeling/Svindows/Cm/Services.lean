import Svindows.Cm.RegistryRuns
import Svindows.Mm.UserPort
import Svindows.Ob.Object

/-!
# The registry services

`cm_make_handle`, `cm_key_from_handle`, `cm_resolve_oa` and the four `Nt` services
of `cm/registry.c`, over the registry, the object manager and the caller's
memory. `args` is the syscall's argument array.
-/

namespace Cm

open Nt Mm ByteMemory

/-- `keyOf` is the body of each Key object, and `keyType` is `g_key_type`. -/
structure CmWorld where
  registry : Registry
  ob : Ob.ObState
  keyType : Ob.TypeRef
  keyOf : Ob.ObjectRef → Nat
  user : UserPort

abbrev Args := Nat → UInt64

/-- What the pool grants to one call: the keys of a walk by number, the copy of
the data, a new value, and the block of the Key object. -/
structure CallRoom where
  key : Nat → Bool
  copy : Bool
  value : Bool
  block : Option Ob.ObjectRef

/-- `sizeof(KEY_VALUE_PARTIAL_INFORMATION) - 1`: the structure is padded to 16 bytes. -/
def partialHeader : Nat := 15

/-- The offset of `Data` in it. -/
def dataOffset : Nat := 12

def sizeofObjectAttributes : Nat := 48
def pathBuffer : Nat := 128
def valueNameBuffer : Nat := 64

def cmMakeHandle (w : CmWorld) (k : Nat) (block : Option Ob.ObjectRef) : Nat × CmWorld :=
  let made := Ob.obCreateObject w.ob w.keyType block 1
  if ntSuccess made.1 = false then (0, { w with ob := made.2 })
  else
    let obj := block.getD 0
    let w := { w with keyOf := Function.update w.keyOf obj k }
    let opened := Ob.obCreateHandle made.2 obj Ob.genericAll 1
    let w := { w with ob := Ob.obDereferenceObject opened.2.2 obj }
    if ntSuccess opened.1 = false then (0, w) else (opened.2.1, w)

/-- Handle 0 is the root. -/
def cmKeyFromHandle (w : CmWorld) (handle : Nat) : Option Nat × CmWorld :=
  if handle = 0 then (some cmRoot, w)
  else
    let found := Ob.obReferenceObjectByHandle w.ob handle 0 w.keyType 1
    if ntSuccess found.1 = false then (none, w)
    else (some (w.keyOf found.2.1), { w with ob := Ob.obDereferenceObject found.2.2 found.2.1 })

def cmResolveOa (w : CmWorld) (oa : Nat) (create : Bool) (room : Nat → Bool) :
    NtStatus × Nat × CmWorld :=
  if w.user.accepts oa sizeofObjectAttributes = false then (statusAccessViolation, 0, w)
  else
    let u := (w.user.probed oa sizeofObjectAttributes).read (oa + 8) 8
    match cmKeyFromHandle { w with user := u } (load u.bytes (oa + 8) 8) with
    | (none, w) => (statusInvalidHandle, 0, w)
    | (some parent, w) =>
      let u := w.user.read (oa + 16) 8
      match mmCaptureUnicodeName u (load u.bytes (oa + 16) 8) pathBuffer with
      | (none, u) => (statusAccessViolation, 0, { w with user := u })
      | (some name, u) =>
        match cmWalk w.registry parent name create room with
        | (r, none) =>
          (if create then statusNoMemory else statusObjectNameNotFound, 0,
            { w with registry := r, user := u })
        | (r, some k) => (statusSuccess, k, { w with registry := r, user := u })

/-- The common part of `NtCreateKey` and `NtOpenKey`. -/
def openKey (w : CmWorld) (args : Args) (create : Bool) (room : CallRoom) : NtStatus × CmWorld :=
  let outHandle := (args 0).toNat
  if w.user.accepts outHandle 8 = false then (statusAccessViolation, w)
  else
    let w := { w with user := w.user.probed outHandle 8 }
    match cmResolveOa w (args 2).toNat create room.key with
    | (status, k, w) =>
      if ntSuccess status = false then (status, w)
      else
        match cmMakeHandle w k room.block with
        | (h, w) => (statusSuccess, { w with user := w.user.write outHandle 8 h })

/-- `disp` is written after the handle. -/
def ntCreateKey (w : CmWorld) (args : Args) (room : CallRoom) : NtStatus × CmWorld :=
  let disp := (args 6).toNat
  match openKey w args true room with
  | (status, w) =>
    if ntSuccess status = false then (status, w)
    else if disp ≠ 0 ∧ w.user.accepts disp 4 = true then
      (status, { w with user := (w.user.probed disp 4).write disp 4 1 })
    else (status, w)

def ntOpenKey (w : CmWorld) (args : Args) (room : CallRoom) : NtStatus × CmWorld :=
  openKey w args false room

def ntSetValueKey (w : CmWorld) (args : Args) (room : CallRoom) : NtStatus × CmWorld :=
  match cmKeyFromHandle w (args 0).toNat with
  | (none, w) => (statusInvalidHandle, w)
  | (some k, w) =>
    match mmCaptureUnicodeName w.user (args 1).toNat valueNameBuffer with
    | (none, u) => (statusAccessViolation, { w with user := u })
    | (some vname, u) =>
      let type := (args 3).toUInt32
      let data := (args 4).toNat
      let size := (args 5).toUInt32.toNat
      if size ≠ 0 ∧ u.accepts data size = false then
        (statusAccessViolation, { w with user := u })
      else
        let u := if size = 0 then u else (u.probed data size).read data size
        let copy := (List.range size).map fun i => u.bytes (data + i)
        let set := cmSetValue w.registry k vname type copy room.copy room.value
        (set.1, { w with registry := set.2, user := u })

/-- `NtQueryValueKey` once the value is found. -/
def queryValue (u : UserPort) (v : CmValue) (info length resultLen : Nat) : NtStatus × UserPort :=
  let size := v.data.length
  let needed := wrap32 (partialHeader + size)
  let u :=
    if resultLen ≠ 0 ∧ u.accepts resultLen 4 = true then
      (u.probed resultLen 4).write resultLen 4 needed
    else u
  if (info = 0 ∨ length < needed) ∧ (info = 0 ∨ length < partialHeader) then
    (statusBufferTooSmall, u)
  else if u.accepts info length = false then (statusAccessViolation, u)
  else
    let u := u.probed info length
    let u := u.write info 4 0
    let u := u.write (info + 4) 4 v.type.toNat
    let u := u.write (info + 8) 4 size
    let avail := wrap32 (length + (2 ^ 32 - partialHeader))
    let copy := if avail < size then avail else size
    (statusSuccess, u.copyOut (info + dataOffset) copy v.data)

def ntQueryValueKey (w : CmWorld) (args : Args) : NtStatus × CmWorld :=
  match cmKeyFromHandle w (args 0).toNat with
  | (none, w) => (statusInvalidHandle, w)
  | (some k, w) =>
    match mmCaptureUnicodeName w.user (args 1).toNat valueNameBuffer with
    | (none, u) => (statusAccessViolation, { w with user := u })
    | (some vname, u) =>
      match cmFindValue w.registry k vname with
      | none => (statusObjectNameNotFound, { w with user := u })
      | some v =>
        let reply := queryValue u v (args 3).toNat (args 4).toUInt32.toNat (args 5).toNat
        (reply.1, { w with user := reply.2 })

end Cm
