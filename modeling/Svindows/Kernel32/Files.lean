import Svindows.Io.FileServices

/-!
# Reading and seeking through file handles

`ReadFile` and `SetFilePointerEx` of `user/kernel32.c` over the services they call.
The locals that a service fills lie on the caller's stack, at `frame`; what the
function stores through the caller's pointers is a result. The last error is left out.
A file is its bytes with a position: a read takes the bytes from the position on, and
a seek goes to a base plus a distance, unless that is negative. The sum is made in 64
bits, so a position of 2^63 or more can be reached, where it is reported as negative.
-/

namespace Kernel32

open Nt Mm Io ByteMemory

/-- The arguments of a service; those not given are 0. -/
def serviceArgs (given : List UInt64) (i : Nat) : UInt64 := given.getD i 0

/-- `ReadFile`: its result, `*read` and the world after it. -/
def readFile (w : IoWorld) (frame h buffer : UInt64) (len : UInt32) : Bool × UInt32 × IoWorld :=
  let st := ntReadFile w.toFileWorld (serviceArgs [h, 0, 0, 0, frame, buffer, len.toUInt64])
  (ntSuccess st.1, UInt32.ofNat (load st.2.user.bytes (frame.toNat + 8) 8),
    { w with toFileWorld := st.2 })

/-- The base of a move, from the `NTOS_FILE_INFO` at `info`. -/
def moveBase (m : Memory) (info : Nat) (moveMethod : UInt32) : Option UInt64 :=
  match moveMethod.toNat with
  | 0 => some 0
  | 1 => some (UInt64.ofNat (load m (info + 8) 8))
  | 2 => some (UInt64.ofNat (load m info 8))
  | _ => none

/-- `(ULONGLONG)(-(distance + 1)) + 1`. -/
def backwards (distance : Int64) : UInt64 := (-(distance + 1)).toUInt64 + 1

/-- `SetFilePointerEx`: its result, `*new_position` and the world after it. The 32 bytes
of `info` and the 8 of `actual` are at `frame`. -/
def setFilePointerEx (w : IoWorld) (frame file : UInt64) (distance : Int64)
    (moveMethod : UInt32) : Bool × Option Int64 × IoWorld :=
  let queried := ntQueryFileInfo w (serviceArgs [file, frame])
  if ntSuccess queried.1 = false then (false, none, queried.2)
  else match moveBase queried.2.user.bytes frame.toNat moveMethod with
    | none => (false, none, queried.2)
    | some base =>
      if distance < 0 ∧ base < backwards distance then (false, none, queried.2)
      else
        let target := if distance < 0 then base - backwards distance else base + distance.toUInt64
        let actual := frame + 32
        let moved := ntSetFilePosition queried.2 (serviceArgs [file, target, actual])
        if ntSuccess moved.1 = false then (false, none, moved.2)
        else
          (true, some (UInt64.ofNat (load moved.2.user.bytes actual.toNat 8)).toInt64, moved.2)

/-- The bytes that a read of `length` bytes returns. -/
def segment (f : FileObject) (length : Nat) : List UInt8 :=
  if f.kind = .disk then (f.data.drop f.position).take length else []

def baseOf (f : FileObject) (moveMethod : UInt32) : Option Nat :=
  match moveMethod.toNat with
  | 0 => some 0
  | 1 => some f.position
  | 2 => some f.data.length
  | _ => none

/-- Where a seek goes, as an integer. -/
def seekTarget (f : FileObject) (distance : Int64) (moveMethod : UInt32) : Option Int :=
  (baseOf f moveMethod).map fun base : Nat => (base : Int) + distance.toInt

/-- The File object that a handle names. -/
def fileNamed (w : IoWorld) (handle : UInt64) : Option Ob.ObjectRef :=
  let found := Ob.obReferenceObjectByHandle w.ob handle.toNat 0 w.fileType 1
  if ntSuccess found.1 then some found.2.1 else none

/-- The file of a `ReadFile` that is not refused. -/
def readable (w : IoWorld) (frame h buffer : UInt64) (len : UInt32) : Option Ob.ObjectRef :=
  if w.user.accepts frame.toNat sizeofIoStatusBlock ∧ w.user.accepts buffer.toNat len.toNat then
    fileNamed w h else none

/-- The disk file of a `SetFilePointerEx` that no service refuses. -/
def seekable (w : IoWorld) (frame file : UInt64) : Option Ob.ObjectRef :=
  if w.user.accepts frame.toNat sizeofFileInfo ∧ w.user.accepts (frame + 32).toNat 8 then
    (fileNamed w file).filter fun o => (w.files o).kind = .disk
  else none

/-- The sizes and positions that the fields of a File object hold. -/
def SizedFiles (w : IoWorld) : Prop :=
  ∀ o, (w.files o).data.length < 2 ^ 63 ∧ (w.files o).position < 2 ^ 64

theorem toUInt64_toInt (d : Int64) :
    (d.toUInt64.toNat : Int) = if d < 0 then d.toInt + 2 ^ 64 else d.toInt := by
  have low := d.le_toInt
  have high := d.toInt_lt
  have word : (d.toUInt64.toNat : Int) = d.toInt % 2 ^ 64 := by
    have signed : d.toInt = d.toBitVec.toInt := rfl
    have unsigned : d.toUInt64.toNat = d.toBitVec.toNat := rfl
    have small := d.toBitVec.isLt
    rw [signed, unsigned, BitVec.toInt_eq_toNat_cond]
    split
    · omega
    · omega
  have sign : d < 0 ↔ d.toInt < 0 := Int64.lt_iff_toInt_lt
  rw [word]
  split
  · rename_i negative
    have := sign.mp negative
    omega
  · rename_i positive
    have := mt sign.mpr positive
    omega

theorem backwards_toNat {d : Int64} (negative : d < 0) :
    ((backwards d).toNat : Int) = -d.toInt := by
  have word := toUInt64_toInt d
  rw [if_pos negative] at word
  have shape : backwards d = -d.toUInt64 := by
    have one : (1 : Int64).toUInt64 = 1 := rfl
    rw [backwards, Int64.toUInt64_neg, Int64.toUInt64_add, one]
    grind
  have size : UInt64.size = 2 ^ 64 := rfl
  have low := d.le_toInt
  have below : d.toInt < 0 := Int64.lt_iff_toInt_lt.mp negative
  rw [shape, UInt64.toNat_neg, size]
  omega

/-- What the code makes of a base and a distance. -/
theorem target_toNat {base : UInt64} {d : Int64} (enough : ¬(d < 0 ∧ base < backwards d)) :
    ((if d < 0 then base - backwards d else base + d.toUInt64).toNat : Int) =
      (base.toNat + d.toInt) % 2 ^ 64 := by
  have word := toUInt64_toInt d
  have small := base.toNat_lt
  have low := d.le_toInt
  have high := d.toInt_lt
  split
  · rename_i negative
    have below : backwards d ≤ base := by
      by_contra more
      exact enough ⟨negative, by simpa using more⟩
    have magnitude := backwards_toNat negative
    have order := UInt64.le_iff_toNat_le.mp below
    rw [UInt64.toNat_sub_of_le _ _ below]
    omega
  · rename_i positive
    rw [if_neg positive] at word
    rw [UInt64.toNat_add]
    omega

theorem fileNamed_some {w : IoWorld} {handle : UInt64} {o : Ob.ObjectRef}
    (named : fileNamed w handle = some o) :
    ntSuccess (Ob.obReferenceObjectByHandle w.ob handle.toNat 0 w.fileType 1).1 = true ∧
      (Ob.obReferenceObjectByHandle w.ob handle.toNat 0 w.fileType 1).2.1 = o := by
  simp only [fileNamed] at named
  split at named
  · rename_i found
    exact ⟨found, Option.some.inj named⟩
  · cases named

theorem fileNamed_none {w : IoWorld} {handle : UInt64} (unnamed : fileNamed w handle = none) :
    ntSuccess (Ob.obReferenceObjectByHandle w.ob handle.toNat 0 w.fileType 1).1 = false := by
  simp only [fileNamed] at unnamed
  split at unnamed
  · cases unnamed
  · rename_i failed
    simpa using failed

@[simp] theorem write_bytes (u : UserPort) (va width v : Nat) :
    (u.write va width v).bytes = store u.bytes va width v := rfl

theorem writeFileInfo_size (u : UserPort) (out : Nat) {f : FileObject} (stamp : Nat × Nat)
    (small : f.data.length < 2 ^ 63) :
    load (writeFileInfo u out f stamp).bytes out 8 = f.data.length := by
  simp only [writeFileInfo, write_bytes]
  iterate 6 rw [load_store_outside (by omega)]
  exact load_store_same (by omega)

theorem writeFileInfo_position (u : UserPort) (out : Nat) {f : FileObject} (stamp : Nat × Nat)
    (small : f.position < 2 ^ 64) :
    load (writeFileInfo u out f stamp).bytes (out + 8) 8 = f.position := by
  simp only [writeFileInfo, write_bytes]
  iterate 5 rw [load_store_outside (by omega)]
  exact load_store_same (by omega)

theorem query_refused {w : IoWorld} {file frame : UInt64}
    (refused : w.user.accepts frame.toNat sizeofFileInfo = false ∨ fileNamed w file = none) :
    ntSuccess (ntQueryFileInfo w (serviceArgs [file, frame])).1 = false ∧
      (ntQueryFileInfo w (serviceArgs [file, frame])).2.files = w.files := by
  simp only [ntQueryFileInfo, serviceArgs, List.getD_cons_zero, List.getD_cons_succ]
  split
  · exact ⟨rfl, rfl⟩
  rename_i accepted
  have failed := fileNamed_none (refused.resolve_left (by simpa using accepted))
  rw [if_pos failed]
  exact ⟨failed, rfl⟩

theorem position_refused {w : IoWorld} (file target : UInt64) {actual : UInt64} (given : actual ≠ 0)
    (refused : w.user.accepts actual.toNat 8 = false ∨
      (fileNamed w file).filter (fun o => (w.files o).kind = .disk) = none) :
    ntSuccess (ntSetFilePosition w (serviceArgs [file, target, actual])).1 = false ∧
      (ntSetFilePosition w (serviceArgs [file, target, actual])).2.files = w.files := by
  have real : actual.toNat ≠ 0 := fun zero => given (UInt64.toNat_inj.mp zero)
  simp only [ntSetFilePosition, serviceArgs, List.getD_cons_zero, List.getD_cons_succ]
  split
  · exact ⟨rfl, rfl⟩
  rename_i accepted
  split
  · rename_i failed
    exact ⟨failed, rfl⟩
  rename_i found
  have named : fileNamed w file =
      some (Ob.obReferenceObjectByHandle w.ob file.toNat 0 w.fileType 1).2.1 := by
    rw [fileNamed, if_pos (by simpa using found)]
  rw [named, Option.filter_eq_none_iff] at refused
  split
  · exact ⟨rfl, rfl⟩
  · rename_i disk
    rcases refused with closed | other
    · exact absurd ⟨real, closed⟩ accepted
    · exact absurd (other _ rfl) (by simpa using disk)

theorem reportStatus_count (u : UserPort) {iosb n : Nat} (given : iosb ≠ 0) (small : n < 2 ^ 64) :
    load (reportStatus u iosb n).bytes (iosb + 8) 8 = n := by
  rw [reportStatus, if_neg given, write_bytes]
  exact load_store_same small

theorem reportStatus_outside (u : UserPort) {iosb b : Nat} (n : Nat)
    (out : b < iosb ∨ iosb + 16 ≤ b) : (reportStatus u iosb n).bytes b = u.bytes b := by
  simp only [reportStatus]
  split
  · rfl
  · rw [write_bytes, store_outside (by omega), write_bytes, store_outside (by omega)]

section Services

variable {v : Ob.World} (acc : Ob.Accounted v) {w : IoWorld} (same : w.ob = v.ob)
include acc same

theorem found_of_named {handle : UInt64} {o : Ob.ObjectRef} (named : fileNamed w handle = some o) :
    let found := Ob.obReferenceObjectByHandle w.ob handle.toNat 0 w.fileType 1
    ntSuccess found.1 = true ∧ found.2.1 = o ∧ Ob.obDereferenceObject found.2.2 o = w.ob := by
  obtain ⟨found, object⟩ := fileNamed_some named
  obtain ⟨-, undone⟩ := acc.byHandle handle.toNat w.fileType
  rw [← same] at undone
  have back := undone found
  rw [object] at back
  exact ⟨found, object, back⟩

/-- A query fills the structure from the file, and changes no file. -/
theorem query_answered {file frame : UInt64} {o : Ob.ObjectRef}
    (accepted : w.user.accepts frame.toNat sizeofFileInfo = true)
    (named : fileNamed w file = some o) (sized : SizedFiles w) :
    ∃ u : UserPort, u.present = w.user.present ∧
      (∀ m, moveBase u.bytes frame.toNat m = (baseOf (w.files o) m).map UInt64.ofNat) ∧
      ntQueryFileInfo w (serviceArgs [file, frame]) = (statusSuccess, { w with user := u }) := by
  obtain ⟨found, object, back⟩ := found_of_named acc same named
  refine ⟨writeFileInfo (w.user.probed frame.toNat sizeofFileInfo) frame.toNat (w.files o)
    (w.stamps o), rfl, ?_, ?_⟩
  · intro m
    obtain ⟨size, position⟩ := sized o
    simp only [moveBase, baseOf, writeFileInfo_size _ _ _ size,
      writeFileInfo_position _ _ _ position]
    split <;> rfl
  · simp only [ntQueryFileInfo, serviceArgs, List.getD_cons_zero, List.getD_cons_succ, accepted,
      found, object, back, Bool.true_eq_false, if_false]

theorem position_set {file : UInt64} (target : UInt64) {actual : UInt64} {o : Ob.ObjectRef}
    (given : actual ≠ 0)
    (accepted : w.user.accepts actual.toNat 8 = true) (named : fileNamed w file = some o)
    (disk : (w.files o).kind = .disk) :
    ∃ u : UserPort, load u.bytes actual.toNat 8 = target.toNat ∧
      ntSetFilePosition w (serviceArgs [file, target, actual]) = (statusSuccess, { w with
        files := Function.update w.files o { w.files o with position := target.toNat }
        user := u }) := by
  have real : actual.toNat ≠ 0 := fun zero => given (UInt64.toNat_inj.mp zero)
  obtain ⟨found, object, back⟩ := found_of_named acc same named
  refine ⟨(w.user.probed actual.toNat 8).write actual.toNat 8 target.toNat,
    load_store_same target.toNat_lt, ?_⟩
  simp only [ntSetFilePosition, serviceArgs, List.getD_cons_zero, List.getD_cons_succ, accepted,
    found, object, back, disk, real, Bool.true_eq_false, and_false, ne_eq, not_true, if_false]

end Services

theorem segment_length (f : FileObject) (length : Nat) :
    (segment f length).length = f.taken length := by
  simp only [segment, FileObject.taken]
  by_cases disk : f.kind = .disk
  · rw [if_pos disk, List.length_take, List.length_drop]
    split
    · rfl
    · rename_i past
      have : ¬f.position < f.data.length := fun inside => past ⟨disk, inside⟩
      omega
  · rw [if_neg disk, if_neg fun inside => disk inside.1]
    rfl

/-- What a read copies is the segment. -/
theorem segment_getElem (f : FileObject) (length i : Nat) (hi : i < (segment f length).length) :
    (f.data.drop f.position).getD i 0 = (segment f length)[i] := by
  have disk : f.kind = .disk := by
    by_contra other
    rw [segment, if_neg other] at hi
    exact absurd hi (Nat.not_lt_zero i)
  have inside : i < (f.data.drop f.position).length := by
    rw [segment, if_pos disk, List.length_take] at hi
    omega
  simp only [segment, if_pos disk, List.getElem_take]
  rw [List.getD_eq_getElem?_getD, List.getElem?_eq_getElem inside, Option.getD_some]

theorem readFile_refused {w : IoWorld} {frame h buffer : UInt64} {len : UInt32}
    (refused : readable w frame h buffer len = none) :
    (readFile w frame h buffer len).1 = false ∧
      (readFile w frame h buffer len).2.2.files = w.files := by
  simp only [readable] at refused
  simp only [readFile, ntReadFile, serviceArgs, List.getD_cons_zero, List.getD_cons_succ]
  split
  · exact ⟨rfl, rfl⟩
  rename_i block
  split
  · exact ⟨rfl, rfl⟩
  rename_i writable
  have failed : fileNamed w h = none := by
    have accepted : w.user.accepts frame.toNat sizeofIoStatusBlock ∧
        w.user.accepts buffer.toNat len.toNat :=
      ⟨Bool.eq_true_of_not_eq_false block, Bool.eq_true_of_not_eq_false writable⟩
    rwa [if_pos accepted] at refused
  rw [if_pos (fileNamed_none failed)]
  exact ⟨rfl, rfl⟩

/-- A read that is not refused fills the buffer with the segment and moves past it, if
the buffer and the callee's local are apart. -/
theorem readFile_returns {v : Ob.World} (acc : Ob.Accounted v) {w : IoWorld} (same : w.ob = v.ob)
    {frame h buffer : UInt64} {len : UInt32} {o : Ob.ObjectRef} (given : frame ≠ 0)
    (apart : frame.toNat + 16 ≤ buffer.toNat ∨ buffer.toNat + len.toNat ≤ frame.toNat)
    (accepted : readable w frame h buffer len = some o) :
    let r := readFile w frame h buffer len
    let bytes := segment (w.files o) len.toNat
    r.1 = true ∧ r.2.1.toNat = bytes.length ∧
      (List.range bytes.length).map (fun i => r.2.2.user.bytes (buffer.toNat + i)) = bytes ∧
      r.2.2.files = Function.update w.files o
        { w.files o with position := (w.files o).position + bytes.length } := by
  simp only [readable] at accepted
  split at accepted
  swap
  · cases accepted
  rename_i writable
  obtain ⟨block, writable⟩ := writable
  obtain ⟨found, object, back⟩ := found_of_named acc same accepted
  have real : frame.toNat ≠ 0 := fun zero => given (UInt64.toNat_inj.mp zero)
  have few : (segment (w.files o) len.toNat).length ≤ len.toNat := by
    rw [segment_length]
    exact FileObject.taken_le ..
  have small := len.toNat_lt
  have size : UInt32.size = 2 ^ 32 := rfl
  have fits : (w.user.probed frame.toNat sizeofIoStatusBlock).accepts buffer.toNat len.toNat =
    true := writable
  simp only [readFile, ntReadFile, serviceArgs, List.getD_cons_zero, List.getD_cons_succ, block,
    fits, found, object, back, Bool.true_eq_false, if_false, UInt32.toNat_toUInt64,
    ← segment_length]
  generalize copied : (if (segment (w.files o) len.toNat).length = 0 then
    (w.user.probed frame.toNat sizeofIoStatusBlock).probed buffer.toNat len.toNat else _) = u
  have filled : ∀ i (hi : i < (segment (w.files o) len.toNat).length),
      u.bytes (buffer.toNat + i) = (segment (w.files o) len.toNat)[i] := by
    intro i hi
    rw [if_neg (by omega)] at copied
    subst copied
    have place : buffer.toNat + i - buffer.toNat = i := by omega
    simp only [UserPort.copyOut, overlay]
    rw [if_pos ⟨by omega, by omega⟩, place, segment_getElem _ _ _ hi]
  refine ⟨rfl, ?_, ?_, trivial⟩
  · rw [reportStatus_count u real (by omega), UInt32.toNat_ofNat_of_lt' (by rw [size]; omega)]
  · apply List.ext_getElem
    · simp
    intro i _ hi
    simp only [List.getElem_map, List.getElem_range]
    rw [reportStatus_outside u _ (by omega), filled i hi]

theorem baseOf_lt {w : IoWorld} (sized : SizedFiles w) {o : Ob.ObjectRef} {m : UInt32} {base : Nat}
    (chosen : baseOf (w.files o) m = some base) : base < 2 ^ 64 := by
  obtain ⟨size, position⟩ := sized o
  simp only [baseOf] at chosen
  split at chosen
  · cases chosen
    decide
  · cases chosen
    exact position
  · cases chosen
    omega
  · cases chosen

theorem negative_seek {base : Nat} (small : base < 2 ^ 64) {d : Int64} :
    (d < 0 ∧ UInt64.ofNat base < backwards d) ↔ (base : Int) + d.toInt < 0 := by
  rw [UInt64.lt_iff_toNat_lt, UInt64.toNat_ofNat_of_lt' small]
  have sign : d < 0 ↔ d.toInt < 0 := Int64.lt_iff_toInt_lt
  constructor
  · rintro ⟨negative, less⟩
    have := backwards_toNat negative
    omega
  · intro below
    have negative : d < 0 := sign.mpr (by omega)
    have := backwards_toNat negative
    exact ⟨negative, by omega⟩

theorem actual_ne_zero {frame : UInt64} (room : frame.toNat + 40 ≤ 2 ^ 64) : frame + 32 ≠ 0 := by
  intro zero
  have word := congrArg UInt64.toNat zero
  rw [UInt64.toNat_add] at word
  have thirtyTwo : (32 : UInt64).toNat = 32 := rfl
  rw [thirtyTwo, Nat.mod_eq_of_lt (by omega)] at word
  exact absurd word (by simp)

/-- A seek that a service refuses, or whose target is no integer from 0 on, fails and
changes no file. -/
theorem setFilePointerEx_fails {v : Ob.World} (acc : Ob.Accounted v) {w : IoWorld}
    (same : w.ob = v.ob) (sized : SizedFiles w) {frame file : UInt64} {d : Int64} {m : UInt32}
    (room : frame.toNat + 40 ≤ 2 ^ 64)
    (refused : ∀ o target, seekable w frame file = some o →
      seekTarget (w.files o) d m = some target → target < 0) :
    (setFilePointerEx w frame file d m).1 = false ∧
      (setFilePointerEx w frame file d m).2.1 = none ∧
      (setFilePointerEx w frame file d m).2.2.files = w.files := by
  simp only [setFilePointerEx]
  cases accepted : w.user.accepts frame.toNat sizeofFileInfo with
  | false =>
    obtain ⟨failed, files⟩ := query_refused (Or.inl accepted)
    rw [if_pos failed]
    exact ⟨rfl, rfl, files⟩
  | true =>
  cases named : fileNamed w file with
  | none =>
    obtain ⟨failed, files⟩ := query_refused (Or.inr named)
    rw [if_pos failed]
    exact ⟨rfl, rfl, files⟩
  | some o =>
  obtain ⟨u, present, bases, answer⟩ := query_answered acc same accepted named sized
  have success : ntSuccess statusSuccess = true := rfl
  simp only [answer, bases, success, Bool.true_eq_false, if_false]
  cases chosen : baseOf (w.files o) m with
  | none => exact ⟨rfl, rfl, rfl⟩
  | some base =>
  simp only [Option.map_some]
  split
  · exact ⟨rfl, rfl, rfl⟩
  rename_i enough
  have reach : ¬(base : Int) + d.toInt < 0 := by
    rw [← negative_seek (baseOf_lt sized chosen)]
    exact enough
  generalize (if d < 0 then UInt64.ofNat base - backwards d else _) = target
  -- the target is no reason to fail, so the second service does
  obtain ⟨failed, files⟩ := position_refused (w := { w with user := u }) file target
    (actual_ne_zero room) (by
      by_contra taken
      rw [not_or] at taken
      have writable : w.user.accepts (frame + 32).toNat 8 = true := by
        rw [UserPort.accepts, ← present]
        exact Bool.eq_true_of_not_eq_false taken.1
      have disk : (w.files o).kind = .disk := by
        by_contra other
        refine taken.2 (Option.filter_eq_none_iff.mpr ?_)
        intro p same
        have object : o = p := Option.some.inj (named.symm.trans same)
        simpa [← object] using other
      refine reach (refused o _ ?_ ?_)
      · rw [seekable, if_pos ⟨accepted, writable⟩, named]
        simpa using disk
      · simp [seekTarget, chosen])
  rw [if_pos failed]
  exact ⟨rfl, rfl, files⟩

theorem setFilePointerEx_moves {v : Ob.World} (acc : Ob.Accounted v) {w : IoWorld}
    (same : w.ob = v.ob) (sized : SizedFiles w) {frame file : UInt64} {d : Int64} {m : UInt32}
    (room : frame.toNat + 40 ≤ 2 ^ 64) {o : Ob.ObjectRef} {target : Int}
    (found : seekable w frame file = some o) (goal : seekTarget (w.files o) d m = some target)
    (positive : 0 ≤ target) :
    (setFilePointerEx w frame file d m).1 = true ∧
      (setFilePointerEx w frame file d m).2.1 = some (Int64.ofInt target) ∧
      (setFilePointerEx w frame file d m).2.2.files = Function.update w.files o
        { w.files o with position := (target % 2 ^ 64).toNat } := by
  simp only [seekable] at found
  split at found
  swap
  · cases found
  rename_i accepted
  obtain ⟨accepted, writable⟩ := accepted
  obtain ⟨named, disk⟩ := Option.filter_eq_some_iff.mp found
  obtain ⟨base, chosen, rfl⟩ := Option.map_eq_some_iff.mp goal
  obtain ⟨u, present, bases, answer⟩ := query_answered acc same accepted named sized
  have success : ntSuccess statusSuccess = true := rfl
  have small := baseOf_lt sized chosen
  have enough : ¬(d < 0 ∧ UInt64.ofNat base < backwards d) := by
    rw [negative_seek small]
    omega
  simp only [setFilePointerEx, answer, bases, chosen, success, Bool.true_eq_false, if_false,
    Option.map_some, if_neg enough]
  have word := target_toNat enough
  rw [UInt64.toNat_ofNat_of_lt' small] at word
  generalize (if d < 0 then UInt64.ofNat base - backwards d else _) = target at word ⊢
  obtain ⟨u', reported, moved⟩ := position_set (w := { w with user := u }) acc same target
    (actual_ne_zero room) (by rw [UserPort.accepts, present]; exact writable) named (by simpa using disk)
  simp only [moved, reported, success, Bool.true_eq_false, if_false]
  refine ⟨trivial, ?_, ?_⟩
  · have size : Int64.size = 2 ^ 64 := rfl
    rw [UInt64.toInt64_ofNat', ← Int64.ofInt_eq_ofNat, word]
    refine congrArg some (Int64.toInt_inj.mp ?_)
    rw [Int64.toInt_ofInt, Int64.toInt_ofInt, size]
    exact Int.emod_bmod _ _
  · rw [← word]
    rfl

end Kernel32
