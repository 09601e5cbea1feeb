import Svindows.Mm.Discipline
import Svindows.Ob.Object

/-!
# File objects

`NtReadFile` of `io/file.c`, over the object manager and the caller's memory. A
disk file is cached whole when it is opened; the console reads as an empty file.
-/

namespace Io

open Nt Mm

inductive FileKind where
  | disk
  | console
  deriving DecidableEq

/-- `Size` is the length of the data. -/
structure FileObject where
  kind : FileKind
  data : List UInt8
  position : Nat

/-- `files` is the body of each File object, and `fileType` is `g_file_type`. -/
structure FileWorld where
  ob : Ob.ObState
  fileType : Ob.TypeRef
  files : Ob.ObjectRef → FileObject
  user : UserPort

def sizeofIoStatusBlock : Nat := 16

/-- How many bytes a read of `length` bytes takes from a file. -/
def FileObject.taken (f : FileObject) (length : Nat) : Nat :=
  if f.kind = .disk ∧ f.position < f.data.length then min length (f.data.length - f.position) else 0

/-- The caller's memory after the IO_STATUS_BLOCK has been filled, if there is one. -/
def reportStatus (u : UserPort) (iosb n : Nat) : UserPort :=
  if iosb = 0 then u else (u.write iosb 4 statusSuccess).write (iosb + 8) 8 n

def ntReadFile (w : FileWorld) (a : Nat → UInt64) : NtStatus × FileWorld :=
  let iosb := (a 4).toNat
  let buffer := (a 5).toNat
  let length := (a 6).toNat
  if w.user.accepts iosb sizeofIoStatusBlock = false then (statusAccessViolation, w)
  else
    let u := w.user.probed iosb sizeofIoStatusBlock
    if u.accepts buffer length = false then (statusAccessViolation, { w with user := u })
    else
      let u := u.probed buffer length
      let found := Ob.obReferenceObjectByHandle w.ob (a 0).toNat 0 w.fileType 1
      if ntSuccess found.1 = false then (statusInvalidHandle, { w with user := u })
      else
        let f := w.files found.2.1
        let n := f.taken length
        let u := if n = 0 then u else u.copyOut buffer n (f.data.drop f.position)
        (statusSuccess,
          { w with
            ob := Ob.obDereferenceObject found.2.2 found.2.1
            files := Function.update w.files found.2.1 { f with position := f.position + n }
            user := reportStatus u iosb n })

theorem FileObject.taken_le (f : FileObject) (length : Nat) : f.taken length ≤ length := by
  simp only [taken]
  split
  · exact Nat.min_le_left ..
  · exact Nat.zero_le _

theorem reportStatus_careful {u : UserPort} {iosb : Nat} (n : Nat)
    (held : .probed iosb sizeofIoStatusBlock ∈ u.log) : Careful u (reportStatus u iosb n) := by
  have size : sizeofIoStatusBlock = 16 := rfl
  simp only [reportStatus]
  split
  · exact .refl u
  · have status : Careful u (u.write iosb 4 statusSuccess) := .write _ held le_rfl (by omega)
    have held := status.longer.subset held
    exact status.trans (.write n held (by omega) (by omega))

/-- A read writes inside the buffer and the IO_STATUS_BLOCK, which it probed. -/
theorem ntReadFile_careful (w : FileWorld) (a : Nat → UInt64) :
    Careful w.user (ntReadFile w a).2.user := by
  simp only [ntReadFile]
  split
  · exact .refl _
  rename_i block
  have first : Careful w.user (w.user.probed (a 4).toNat sizeofIoStatusBlock) :=
    .probed (a 4).toNat_lt (by decide) (not_accepts block)
  have held : .probed (a 4).toNat sizeofIoStatusBlock ∈
      (w.user.probed (a 4).toNat sizeofIoStatusBlock).log := List.mem_cons_self
  generalize w.user.probed (a 4).toNat sizeofIoStatusBlock = u at first held ⊢
  split
  · exact first
  rename_i writable
  have second := first.trans (.probed (a 5).toNat_lt (a 6).toNat_lt (not_accepts writable))
  have buffer : .probed (a 5).toNat (a 6).toNat ∈ (u.probed (a 5).toNat (a 6).toNat).log :=
    List.mem_cons_self
  have held : .probed (a 4).toNat sizeofIoStatusBlock ∈ (u.probed (a 5).toNat (a 6).toNat).log :=
    List.mem_cons_of_mem _ held
  generalize u.probed (a 5).toNat (a 6).toNat = v at second buffer held ⊢
  split
  · exact second
  generalize w.files (Ob.obReferenceObjectByHandle w.ob (a 0).toNat 0 w.fileType 1).2.1 = f
  have few := f.taken_le (a 6).toNat
  split
  · exact second.trans (reportStatus_careful _ held)
  · have copy : Careful v (v.copyOut (a 5).toNat (f.taken (a 6).toNat) (f.data.drop f.position)) :=
      .copyOut _ buffer le_rfl (by omega)
    exact (second.trans copy).trans (reportStatus_careful _ (copy.longer.subset held))

end Io
