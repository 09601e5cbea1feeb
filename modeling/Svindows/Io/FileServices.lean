import Mathlib.Data.List.DropRight
import Svindows.Io.Fat
import Svindows.Io.File
import Svindows.Ob.Balance

/-!
# Opening, writing and positioning files

The rest of the handle-based services of `io/file.c`. A name of the namespace
opens its object; any other is looked for on the FAT volume, and the whole file
becomes a File object. The FAT driver may not come to an end, and neither does a
call to `NtCreateFile` then.
-/

namespace Io

open Nt Mm Rtl ByteMemory

/-- The services' state: `stamps` are the FAT date and time of a File object, `blocks`
the pool block behind its data, and `printed` what the console has been given. -/
structure IoWorld extends FileWorld where
  stamps : Ob.ObjectRef → Nat × Nat
  blocks : Ob.ObjectRef → Option Nat
  printed : List UInt8
  volume : Option FatVolume
  driver : IoState

def sizeofHandle : Nat := 8
def sizeofObjectAttributes : Nat := 48
def sizeofFileInfo : Nat := 32
def fileOpened : Nat := 1

/-- `ObDereferenceObject`; `IopFileDelete` frees the data of a File object that goes. -/
def dereference (w : IoWorld) (o : Ob.ObjectRef) : IoWorld :=
  let ob := Ob.obDereferenceObject w.ob o
  { w with
    ob := ob
    driver := match ob.live o, w.blocks o with
      | false, some block => exFreePool w.driver block
      | _, _ => w.driver }

/-- What stands behind the last separator of a name. -/
def lastComponent (name : List UInt8) : List UInt8 := name.rtakeWhile fun c => c ≠ 92 ∧ c ≠ 47

/-- A file of the volume becomes a File object with a handle; `block` is what the pool
grants for the object. -/
def openFile (h : Host) (fuel : Nat) (w : IoWorld) (name : List UInt8)
    (block : Option Ob.ObjectRef) : Option (NtStatus × Nat × IoWorld) :=
  match fatLoadFile h w.volume fuel (.ofBytes name) w.driver with
  | none => none
  | some (status, file, driver) =>
    let w := { w with driver := driver }
    match ntSuccess status, file with
    | true, some file =>
      let made := Ob.obCreateObject w.ob w.fileType block 1
      match ntSuccess made.1, block with
      | true, some o =>
        let (status, handle, ob) := Ob.obCreateHandle made.2 o Ob.genericAll 1
        some (status, handle, dereference { w with
          ob := ob
          files := Function.update w.files o ⟨.disk, (List.range file.size).map file.buffer, 0⟩
          stamps := Function.update w.stamps o (file.info.writeDate, file.info.writeTime)
          blocks := Function.update w.blocks o (some file.block) } o)
      | _, _ =>
        some (statusNoMemory, 0, { w with
          ob := made.2
          driver := exFreePool w.driver file.block })
    | _, _ => some (statusObjectNameNotFound, 0, w)

/-- An object of the namespace is opened directly. -/
def openByName (h : Host) (fuel : Nat) (w : IoWorld) (name : List UInt8)
    (block : Option Ob.ObjectRef) : Option (NtStatus × Nat × IoWorld) :=
  let named := Ob.obLookupObjectByName w.ob (some (name.map fun c => Char.ofNat c.toNat)) 1
  if ntSuccess named.1 then
    let (status, handle, ob) := Ob.obCreateHandle named.2.2 named.2.1 Ob.genericAll 1
    some (status, handle, dereference { w with ob := ob } named.2.1)
  else openFile h fuel { w with ob := named.2.2 } (lastComponent name) block

/-- The handle and the IO_STATUS_BLOCK, where there is room for them. -/
def reportOpened (u : UserPort) (out iosb : Nat) (status : NtStatus) (handle : Nat) : UserPort :=
  let u := if ntSuccess status ∧ out ≠ 0 then u.write out sizeofHandle handle else u
  if iosb = 0 then u
  else (u.write iosb 4 status).write (iosb + 8) 8 (if ntSuccess status then fileOpened else 0)

/-- `NtCreateFile`; no result where the FAT driver comes to no end. -/
def ntCreateFile (h : Host) (fuel : Nat) (w : IoWorld) (a : Nat → UInt64)
    (block : Option Ob.ObjectRef) : Option (NtStatus × IoWorld) :=
  let out := (a 0).toNat
  let attributes := (a 2).toNat
  let iosb := (a 3).toNat
  if w.user.accepts out sizeofHandle = false then some (statusAccessViolation, w)
  else
    let u := w.user.probed out sizeofHandle
    if u.accepts iosb sizeofIoStatusBlock = false then
      some (statusAccessViolation, { w with user := u })
    else
      let u := u.probed iosb sizeofIoStatusBlock
      if u.accepts attributes sizeofObjectAttributes = false then
        some (statusAccessViolation, { w with user := u })
      else
        let u := (u.probed attributes sizeofObjectAttributes).read (attributes + 16) 8
        let captured := mmCaptureUnicodeName u (load u.bytes (attributes + 16) 8) 128
        let w := { w with user := captured.2 }
        match captured.1 with
        | none => some (statusAccessViolation, w)
        | some name =>
          (openByName h fuel w name block).map fun r =>
            (r.1, { r.2.2 with user := reportOpened r.2.2.user out iosb r.1 r.2.1 })

def ntWriteFile (w : IoWorld) (a : Nat → UInt64) : NtStatus × IoWorld :=
  let iosb := (a 4).toNat
  let buffer := (a 5).toNat
  let length := (a 6).toNat
  if w.user.accepts iosb sizeofIoStatusBlock = false then (statusAccessViolation, w)
  else
    let u := w.user.probed iosb sizeofIoStatusBlock
    if u.accepts buffer length = false then (statusAccessViolation, { w with user := u })
    else
      let u := u.probed buffer length
      let found := Ob.obReferenceObjectByHandle w.ob (a 0).toNat 0 w.fileType 1
      if ntSuccess found.1 = false then (statusInvalidHandle, { w with user := u })
      else
        let ob := Ob.obDereferenceObject found.2.2 found.2.1
        if (w.files found.2.1).kind = .console then
          (statusSuccess, { w with
            ob := ob
            printed := w.printed ++ (List.range length).map fun i => u.bytes (buffer + i)
            user := reportStatus (u.read buffer length) iosb length })
        else (statusSuccess, { w with ob := ob, user := reportStatus u iosb 0 })

/-- The seven fields of `NTOS_FILE_INFO`. -/
def writeFileInfo (u : UserPort) (out : Nat) (f : FileObject) (stamp : Nat × Nat) : UserPort :=
  ((((((u.write out 8 f.data.length).write (out + 8) 8 f.position).write (out + 16) 4
    (if f.kind = .disk then 0x20 else 0)).write (out + 20) 4
    (if f.kind = .console then 1 else 0)).write (out + 24) 2 stamp.1).write
    (out + 26) 2 stamp.2).write (out + 28) 4 0

def ntQueryFileInfo (w : IoWorld) (a : Nat → UInt64) : NtStatus × IoWorld :=
  let out := (a 1).toNat
  if w.user.accepts out sizeofFileInfo = false then (statusAccessViolation, w)
  else
    let u := w.user.probed out sizeofFileInfo
    let found := Ob.obReferenceObjectByHandle w.ob (a 0).toNat 0 w.fileType 1
    if ntSuccess found.1 = false then (found.1, { w with user := u, ob := found.2.2 })
    else
      (statusSuccess, { w with
        ob := Ob.obDereferenceObject found.2.2 found.2.1
        user := writeFileInfo u out (w.files found.2.1) (w.stamps found.2.1) })

def ntSetFilePosition (w : IoWorld) (a : Nat → UInt64) : NtStatus × IoWorld :=
  let position := (a 1).toNat
  let out := (a 2).toNat
  if out ≠ 0 ∧ w.user.accepts out 8 = false then (statusAccessViolation, w)
  else
    let u := if out = 0 then w.user else w.user.probed out 8
    let found := Ob.obReferenceObjectByHandle w.ob (a 0).toNat 0 w.fileType 1
    if ntSuccess found.1 = false then (found.1, { w with user := u, ob := found.2.2 })
    else
      let ob := Ob.obDereferenceObject found.2.2 found.2.1
      let f := w.files found.2.1
      if f.kind ≠ .disk then (statusInvalidParameter, { w with user := u, ob := ob })
      else
        (statusSuccess, { w with
          ob := ob
          files := Function.update w.files found.2.1 { f with position := position }
          user := if out = 0 then u else u.write out 8 position })

section Balance

variable {w : IoWorld} {v : Ob.World} (acc : Ob.Accounted v)
include acc

theorem ntReadFile_ob {w : FileWorld} (same : w.ob = v.ob) (a : Nat → UInt64) :
    (ntReadFile w a).2.ob = w.ob := by
  obtain ⟨-, undone⟩ := acc.byHandle (a 0).toNat w.fileType
  rw [← same] at undone
  simp only [ntReadFile]
  split
  · rfl
  split
  · rfl
  split
  · rfl
  · rename_i found
    exact undone (by simpa using found)

theorem ntWriteFile_ob (same : w.ob = v.ob) (a : Nat → UInt64) :
    (ntWriteFile w a).2.ob = w.ob := by
  obtain ⟨-, undone⟩ := acc.byHandle (a 0).toNat w.fileType
  rw [← same] at undone
  simp only [ntWriteFile]
  split
  · rfl
  split
  · rfl
  split
  · rfl
  · rename_i found
    have back := undone (by simpa using found)
    split
    · exact back
    · exact back

theorem ntQueryFileInfo_ob (same : w.ob = v.ob) (a : Nat → UInt64) :
    (ntQueryFileInfo w a).2.ob = w.ob := by
  obtain ⟨refused, undone⟩ := acc.byHandle (a 0).toNat w.fileType
  rw [← same] at refused undone
  simp only [ntQueryFileInfo]
  split
  · rfl
  split
  · rename_i failed
    exact refused failed
  · rename_i found
    exact undone (by simpa using found)

theorem ntSetFilePosition_ob (same : w.ob = v.ob) (a : Nat → UInt64) :
    (ntSetFilePosition w a).2.ob = w.ob := by
  obtain ⟨refused, undone⟩ := acc.byHandle (a 0).toNat w.fileType
  rw [← same] at refused undone
  simp only [ntSetFilePosition]
  split
  · rfl
  split
  · rename_i failed
    exact refused failed
  · rename_i found
    have back := undone (by simpa using found)
    split
    · exact back
    · exact back

/-- A file of the volume gets an object if there is room for one, and keeps it if there
is room for its handle. -/
theorem openFile_balanced (same : w.ob = v.ob) {block : Option Ob.ObjectRef}
    (grant : Ob.Grantable w.ob block) {h : Host} {fuel : Nat} {name : List UInt8}
    {r : NtStatus × Nat × IoWorld} (opens : openFile h fuel w name block = some r) :
    Ob.KeepsBalance w.ob r.2.2.ob := by
  simp only [openFile] at opens
  split at opens
  · cases opens
  split at opens
  · rename_i file _ _
    split at opens
    · rename_i o made
      obtain ⟨fresh, window⟩ := grant o rfl
      have typed : w.fileType ≠ 0 := by
        intro untyped
        rw [untyped] at made
        exact absurd made (by simp [Ob.obCreateObject, ntSuccess, statusInvalidParameter])
      cases opens
      rw [same] at fresh ⊢
      exact acc.balanced_openNew typed fresh window Ob.genericAll
    · rename_i refused
      cases opens
      have unmade := Ob.obCreateObject_refused refused
      rw [unmade]
      exact .refl _
  · cases opens
    exact .refl _

theorem openByName_balanced (same : w.ob = v.ob) {block : Option Ob.ObjectRef}
    (grant : Ob.Grantable w.ob block) {h : Host} {fuel : Nat} {name : List UInt8}
    {r : NtStatus × Nat × IoWorld} (opens : openByName h fuel w name block = some r)
    (runs : r.2.2.ob.bugCheck = false) : Ob.KeepsBalance w.ob r.2.2.ob := by
  simp only [openByName] at opens
  have outcome := Ob.lookup_outcome acc (some (name.map fun c => Char.ofNat c.toNat)) 1
  rw [← same] at outcome
  generalize Ob.obLookupObjectByName w.ob (some (name.map fun c => Char.ofNat c.toNat)) 1 =
    named at outcome opens
  rcases outcome with ⟨found, live, state⟩ | ⟨failed, state⟩
  · rw [if_pos found, state] at opens
    cases opens
    rw [same] at live runs ⊢
    exact acc.balanced_handOver live Ob.genericAll runs
  · rw [if_neg (by simp [failed]), state] at opens
    exact openFile_balanced acc same grant opens

theorem ntCreateFile_balanced (same : w.ob = v.ob) {block : Option Ob.ObjectRef}
    (grant : Ob.Grantable w.ob block) {h : Host} {fuel : Nat} {a : Nat → UInt64}
    {r : NtStatus × IoWorld} (returns : ntCreateFile h fuel w a block = some r)
    (runs : r.2.ob.bugCheck = false) : Ob.KeepsBalance w.ob r.2.ob := by
  simp only [ntCreateFile] at returns
  split at returns
  · cases returns
    exact .refl _
  split at returns
  · cases returns
    exact .refl _
  split at returns
  · cases returns
    exact .refl _
  split at returns
  · cases returns
    exact .refl _
  · obtain ⟨opened, opens, rfl⟩ := Option.map_eq_some_iff.mp returns
    -- capturing the name and reporting the outcome change the caller's memory only
    generalize mmCaptureUnicodeName _ _ _ = captured at opens
    exact openByName_balanced acc (w := { w with user := captured.2 }) same grant opens runs

end Balance

end Io
