import Svindows.Kernel32.Files
import Svindows.Lib.Runs

/-!
# File semantics over runs

Calls to `ReadFile` and `SetFilePointerEx`, in any order and through any handles. Each
keeps to file semantics if and only if it is no seek to 2^63 or beyond, and so does each
call of a run. Handles that were opened separately name different files.
-/

namespace Kernel32

open Nt Mm Io

inductive FileOp where
  | read (buffer : UInt64) (len : UInt32)
  | seek (distance : Int64) (moveMethod : UInt32)

/-- A call through a handle, with the caller's memory as it finds it. -/
structure FileCall where
  user : UserPort
  frame : UInt64
  file : UInt64
  op : FileOp

/-- The world a call runs in. -/
def FileCall.enter (c : FileCall) (w : IoWorld) : IoWorld := { w with user := c.user }

def FileCall.after (w : IoWorld) (c : FileCall) : IoWorld :=
  match c.op with
  | .read buffer len => (readFile (c.enter w) c.frame c.file buffer len).2.2
  | .seek distance moveMethod =>
    (setFilePointerEx (c.enter w) c.frame c.file distance moveMethod).2.2

/-- The callee's locals are an object of their own. -/
def FileCall.Proper (c : FileCall) : Prop :=
  match c.op with
  | .read buffer len => c.frame ≠ 0 ∧
      (c.frame.toNat + 16 ≤ buffer.toNat ∨ buffer.toNat + len.toNat ≤ c.frame.toNat)
  | .seek _ _ => c.frame.toNat + 40 ≤ 2 ^ 64

/-- A read returns the segment and moves past it, or is refused and moves nothing. -/
structure ReadFollows (w : IoWorld) (frame h buffer : UInt64) (len : UInt32) : Prop where
  returns : ∀ o, readable w frame h buffer len = some o →
    let r := readFile w frame h buffer len
    let bytes := segment (w.files o) len.toNat
    r.1 = true ∧ r.2.1.toNat = bytes.length ∧
      (List.range bytes.length).map (fun i => r.2.2.user.bytes (buffer.toNat + i)) = bytes ∧
      r.2.2.files = Function.update w.files o
        { w.files o with position := (w.files o).position + bytes.length }
  refused : readable w frame h buffer len = none →
    (readFile w frame h buffer len).1 = false ∧
      (readFile w frame h buffer len).2.2.files = w.files

/-- A seek fails and moves nothing, or goes to the target, an integer below 2^63, and
reports it; it succeeds where no service refuses it and the target is not negative. -/
structure SeekFollows (w : IoWorld) (frame file : UInt64) (d : Int64) (m : UInt32) : Prop where
  outcome : ((setFilePointerEx w frame file d m).1 = false ∧
      (setFilePointerEx w frame file d m).2.2.files = w.files) ∨
    ∃ o target q, seekable w frame file = some o ∧ seekTarget (w.files o) d m = some target ∧
      0 ≤ target ∧ target < 2 ^ 63 ∧
      (setFilePointerEx w frame file d m).1 = true ∧
      (setFilePointerEx w frame file d m).2.1 = some q ∧ q.toInt = target ∧
      (setFilePointerEx w frame file d m).2.2.files = Function.update w.files o
        { w.files o with position := target.toNat }
  succeeds : ∀ o target, seekable w frame file = some o →
    seekTarget (w.files o) d m = some target → 0 ≤ target →
    (setFilePointerEx w frame file d m).1 = true

theorem SeekFollows.reported_nonneg {w : IoWorld} {frame file : UInt64} {d : Int64} {m : UInt32}
    (follows : SeekFollows w frame file d m) {q : Int64}
    (done : (setFilePointerEx w frame file d m).1 = true)
    (reported : (setFilePointerEx w frame file d m).2.1 = some q) : 0 ≤ q.toInt := by
  rcases follows.outcome with ⟨failed, -⟩ | ⟨o, target, p, -, -, positive, -, -, found, value, -⟩
  · exact absurd (failed.symm.trans done) (by decide)
  · obtain rfl := Option.some.inj (found.symm.trans reported)
    omega

def FileOp.Follows (w : IoWorld) (frame file : UInt64) : FileOp → Prop
  | .read buffer len => ReadFollows w frame file buffer len
  | .seek distance moveMethod => SeekFollows w frame file distance moveMethod

/-- File semantics of one call: what it does to its file, and that it leaves the other
files and what the handles name. -/
structure Follows (w : IoWorld) (c : FileCall) : Prop where
  call : c.op.Follows (c.enter w) c.frame c.file
  others : ∀ p, fileNamed w c.file ≠ some p → (c.after w).files p = w.files p
  handles : (c.after w).ob = w.ob

/-- The target of a seek that is carried out is below 2^63. -/
def FileCall.Fits (w : IoWorld) (c : FileCall) : Prop :=
  match c.op with
  | .read _ _ => True
  | .seek distance moveMethod => ∀ o target, seekable (c.enter w) c.frame c.file = some o →
      seekTarget (w.files o) distance moveMethod = some target → target < 2 ^ 63

section Calls

variable {v : Ob.World} (acc : Ob.Accounted v) {w : IoWorld} (same : w.ob = v.ob)
include acc same

theorem readFile_follows {frame h buffer : UInt64} {len : UInt32} (given : frame ≠ 0)
    (apart : frame.toNat + 16 ≤ buffer.toNat ∨ buffer.toNat + len.toNat ≤ frame.toNat) :
    ReadFollows w frame h buffer len where
  returns := fun _ accepted => readFile_returns acc same given apart accepted
  refused := readFile_refused

/-- A seek keeps to the semantics exactly if its target fits. -/
theorem setFilePointerEx_follows (sized : SizedFiles w) {frame file : UInt64} {d : Int64}
    {m : UInt32} (room : frame.toNat + 40 ≤ 2 ^ 64) :
    SeekFollows w frame file d m ↔ ∀ o target, seekable w frame file = some o →
      seekTarget (w.files o) d m = some target → target < 2 ^ 63 := by
  constructor
  · intro follows o target found goal
    by_contra large
    have done := follows.succeeds o target found goal (by omega)
    rcases follows.outcome with ⟨failed, -⟩ | ⟨p, t, -, found', goal', -, small, -⟩
    · exact absurd (failed.symm.trans done) (by decide)
    · cases found.symm.trans found'
      cases goal.symm.trans goal'
      exact large small
  · intro fits
    by_cases moves : ∃ o target, seekable w frame file = some o ∧
        seekTarget (w.files o) d m = some target ∧ 0 ≤ target
    · obtain ⟨o, target, found, goal, positive⟩ := moves
      have small := fits o target found goal
      obtain ⟨done, reported, files⟩ :=
        setFilePointerEx_moves acc same sized room found goal positive
      refine ⟨Or.inr ⟨o, target, _, found, goal, positive, small, done, reported, ?_, ?_⟩,
        fun _ _ _ _ _ => done⟩
      · have size : Int64.size = 2 ^ 64 := rfl
        rw [Int64.toInt_ofInt, size, Int.bmod_eq_of_le] <;> omega
      · rw [files, Int.emod_eq_of_lt positive (by omega)]
    · have failing : ∀ o target, seekable w frame file = some o →
          seekTarget (w.files o) d m = some target → target < 0 := by
        intro o target found goal
        by_contra positive
        exact moves ⟨o, target, found, goal, by omega⟩
      obtain ⟨failed, -, files⟩ := setFilePointerEx_fails acc same sized room failing
      exact ⟨Or.inl ⟨failed, files⟩, fun o target found goal positive =>
        absurd ⟨o, target, found, goal, positive⟩ moves⟩

theorem setFilePointerEx_ob (frame file : UInt64) (d : Int64) (m : UInt32) :
    (setFilePointerEx w frame file d m).2.2.ob = w.ob := by
  have first := ntQueryFileInfo_ob acc same (serviceArgs [file, frame])
  simp only [setFilePointerEx]
  split
  · exact first
  split
  · exact first
  split
  · exact first
  have second := fun a => (ntSetFilePosition_ob acc (first.trans same) a).trans first
  generalize (if d < 0 then _ - backwards d else _) = target
  split
  · exact second _
  · exact second _

theorem readFile_ob (frame h buffer : UInt64) (len : UInt32) :
    (readFile w frame h buffer len).2.2.ob = w.ob :=
  ntReadFile_ob acc same _

theorem after_files (sized : SizedFiles w) {c : FileCall} (proper : c.Proper) :
    (c.after w).files = w.files ∨ ∃ o position, fileNamed w c.file = some o ∧ position < 2 ^ 64 ∧
      (c.after w).files = Function.update w.files o { w.files o with position := position } := by
  obtain ⟨user, frame, file, op⟩ := c
  cases op with
  | read buffer len =>
    obtain ⟨given, apart⟩ := proper
    have follows := readFile_follows acc (w := { w with user := user }) same (h := file) given apart
    cases found : readable { w with user := user } frame file buffer len with
    | none => exact Or.inl (follows.refused found).2
    | some o =>
      refine Or.inr ⟨o, _, ?_, ?_, (follows.returns o found).2.2.2⟩
      · simp only [readable] at found
        split at found
        · exact found
        · cases found
      · obtain ⟨size, position⟩ := sized o
        rw [segment_length]
        simp only [FileObject.taken]
        split
        · omega
        · exact position
  | seek d m =>
    by_cases moves : ∃ o target, seekable { w with user := user } frame file = some o ∧
        seekTarget (w.files o) d m = some target ∧ 0 ≤ target
    · obtain ⟨o, target, found, goal, positive⟩ := moves
      have done := setFilePointerEx_moves acc (w := { w with user := user }) same sized proper
        found goal positive
      refine Or.inr ⟨o, _, ?_, ?_, done.2.2⟩
      · simp only [seekable] at found
        split at found
        · exact (Option.filter_eq_some_iff.mp found).1
        · cases found
      · have word := Int.emod_lt_of_pos target (b := 2 ^ 64) (by decide)
        have sign := Int.emod_nonneg target (b := 2 ^ 64) (by decide)
        omega
    · refine Or.inl (setFilePointerEx_fails acc (w := { w with user := user }) same sized proper
        ?_).2.2
      intro o target found goal
      by_contra positive
      exact moves ⟨o, target, found, goal, by omega⟩

theorem after_ob (c : FileCall) : (c.after w).ob = w.ob := by
  simp only [FileCall.after]
  split
  · exact readFile_ob acc (w := c.enter w) same ..
  · exact setFilePointerEx_ob acc (w := c.enter w) same ..

theorem after_sized (sized : SizedFiles w) {c : FileCall} (proper : c.Proper) :
    SizedFiles (c.after w) := by
  rcases after_files acc same sized proper with files | ⟨o, position, -, small, files⟩
  · rw [SizedFiles, files]
    exact sized
  · intro p
    rw [files]
    by_cases other : p = o
    · rw [other, Function.update_self]
      exact ⟨(sized o).1, small⟩
    · rw [Function.update_of_ne other]
      exact sized p

/-- A call keeps to file semantics exactly if its target, if it has one, fits. -/
theorem follows_iff_fits (sized : SizedFiles w) {c : FileCall} (proper : c.Proper) :
    Follows w c ↔ c.Fits w := by
  have others : ∀ p, fileNamed w c.file ≠ some p → (c.after w).files p = w.files p := by
    intro p unnamed
    rcases after_files acc same sized proper with files | ⟨o, position, named, -, files⟩
    · rw [files]
    · rw [files, Function.update_of_ne]
      rintro rfl
      exact unnamed named
  have handles := after_ob acc same c
  obtain ⟨user, frame, file, op⟩ := c
  cases op with
  | read buffer len =>
    exact ⟨fun _ => trivial, fun _ => ⟨readFile_follows acc (w := { w with user := user }) same
      proper.1 proper.2, others, handles⟩⟩
  | seek d m =>
    have settled : SeekFollows { w with user := user } frame file d m ↔ _ :=
      setFilePointerEx_follows acc (w := { w with user := user }) same sized proper
    exact ⟨fun follows => settled.mp follows.call,
      fun fits => ⟨settled.mpr fits, others, handles⟩⟩

end Calls

section Opening

open Ob

theorem fileNamed_iff {w : IoWorld} {handle : UInt64} {o : ObjectRef} :
    fileNamed w handle = some o ↔ ∃ i, handleToIndex handle.toNat = some i ∧
      (w.ob.handles i).object = o ∧ o ≠ 0 ∧
      (w.fileType ≠ 0 → (w.ob.headers o).type = w.fileType) := by
  cases index : handleToIndex handle.toNat with
  | none => simp [fileNamed, obReferenceObjectByHandle, index, ntSuccess, statusInvalidHandle]
  | some i =>
    simp only [fileNamed, obReferenceObjectByHandle, index]
    constructor
    · intro named
      split at named
      · exact absurd named (by simp [ntSuccess, statusInvalidHandle])
      split at named
      · exact absurd named (by simp [ntSuccess, statusObjectTypeMismatch])
      · rename_i used typed
        obtain rfl : (w.ob.handles i).object = o := by
          simpa [ntSuccess, statusSuccess] using named
        exact ⟨i, rfl, rfl, fun zero => used (Or.inr zero), fun real => by
          by_contra other
          exact typed ⟨real, other⟩⟩
    · rintro ⟨j, same, rfl, real, typed⟩
      obtain rfl := Option.some.inj same
      have used : ¬(1 = 0 ∨ (w.ob.handles i).object = 0) := by simpa using real
      have right : ¬(w.fileType ≠ 0 ∧ (w.ob.headers (w.ob.handles i).object).type ≠ w.fileType) :=
        fun wrong => wrong.2 (typed wrong.1)
      simp only [if_neg used, if_neg right]
      simp [ntSuccess, statusSuccess]

theorem openNew {s : ObState} {type : TypeRef} {o : ObjectRef} {i : Nat} (typed : type ≠ 0)
    (real : o ≠ 0) (slot : freeSlot s = some i) (access : AccessMask) :
    let opened := obCreateHandle (obCreateObject s type (some o) 1).2 o access 1
    let u := obDereferenceObject opened.2.2 o
    opened.2.1 = indexToHandle i ∧ u.handles = Function.update s.handles i ⟨o, access⟩ ∧
      (∀ p, p ≠ o → u.headers p = s.headers p) ∧ (u.headers o).type = type := by
  have there : ¬(o = 0 ∨ 1 = 0) := by simp [real]
  have free : freeSlot (obCreateObject s type (some o) 1).2 = some i := by
    rw [← slot, freeSlot, obCreateObject_handles]
    rfl
  have count : longDec (longInc 1) = 1 := by decide
  simp only [obCreateHandle, if_neg there, free]
  refine ⟨trivial, ?_, ?_, ?_⟩
  · rw [obDereferenceObject_handles]
    simp [obReferenceObject, ObState.setHeader, ObState.setType, ObState.setEntry,
      obCreateObject_handles]
  · intro p other
    simp [obDereferenceObject, obReferenceObject, ObState.setHeader, ObState.setType,
      ObState.setEntry, obCreateObject, typed, newHeader, count, other]
  · simp [obDereferenceObject, obReferenceObject, ObState.setHeader, ObState.setType,
      ObState.setEntry, obCreateObject, typed, newHeader, count]
/-- A file that is opened has an object of its own, and the handles there were name what
they named. -/
theorem openFile_separate {v : World} (acc : Accounted v) {w : IoWorld} (same : w.ob = v.ob)
    {h : Host} {fuel : Nat} {name : List UInt8} {block : Option ObjectRef}
    (grant : Grantable w.ob block) {r : NtStatus × Nat × IoWorld}
    (opens : openFile h fuel w name block = some r) (success : ntSuccess r.1 = true) :
    ∃ o, fileNamed r.2.2 (UInt64.ofNat r.2.1) = some o ∧
      ∀ old p, fileNamed w old = some p → p ≠ o ∧ fileNamed r.2.2 old = some p := by
  simp only [openFile] at opens
  split at opens
  · cases opens
  split at opens
  swap
  · cases opens
    exact absurd success (by simp [ntSuccess, statusObjectNameNotFound])
  split at opens
  swap
  · cases opens
    exact absurd success (by simp [ntSuccess, statusNoMemory])
  rename_i o made
  obtain ⟨fresh, window⟩ := grant o rfl
  have base : 0 < mmKernelHeapBase := by decide
  have real : o ≠ 0 := (base.trans_le window.1).ne'
  have typed : w.fileType ≠ 0 := by
    intro untyped
    rw [untyped] at made
    exact absurd made (by simp [obCreateObject, ntSuccess, statusInvalidParameter])
  cases opens
  cases slot : freeSlot w.ob with
  | none =>
    have full : freeSlot (obCreateObject w.ob w.fileType (some o) 1).2 = none := by
      rw [← slot, freeSlot, obCreateObject_handles]
      rfl
    have there : ¬(o = 0 ∨ 1 = 0) := by simp [real]
    simp only [obCreateHandle, if_neg there, full] at success
    exact absurd success (by decide)
  | some i =>
    obtain ⟨hi, free⟩ := freeSlot_some slot
    obtain ⟨value, handles, others, type⟩ := openNew typed real slot genericAll
    have word : (UInt64.ofNat (indexToHandle i)).toNat = indexToHandle i :=
      UInt64.toNat_ofNat_of_lt' ((Nat.mod_lt _ (by decide)).trans (by decide))
    refine ⟨o, ?_, ?_⟩
    · refine fileNamed_iff.mpr ⟨i, ?_, ?_, real, fun _ => type⟩
      · rw [value, word]
        exact handleToIndex_some.mpr ⟨hi, rfl⟩
      · exact (congrFun handles i).trans (Function.update_self ..) ▸ rfl
    · intro old p named
      obtain ⟨j, index, rfl, used, kind⟩ := fileNamed_iff.mp named
      have hj := (handleToIndex_some.mp index).1
      have live : w.ob.live (w.ob.handles j).object = true := by
        rw [same] at used ⊢
        exact acc.counted.slots j hj used
      have other : (w.ob.handles j).object ≠ o := by
        intro equal
        rw [equal, fresh] at live
        exact absurd live (by decide)
      have apart : j ≠ i := by
        rintro rfl
        exact used free
      refine ⟨other, fileNamed_iff.mpr ⟨j, index, ?_, used, ?_⟩⟩
      · exact congrArg _ ((congrFun handles j).trans (Function.update_of_ne apart ..))
      · intro some
        exact (congrArg _ (others _ other)).trans (kind some)

end Opening

/-- Every call of a run keeps to file semantics if and only if no seek of it goes to 2^63
or beyond; a file that is opened has a position that no other handle moves. -/
theorem file_calls_follow {v : Ob.World} (acc : Ob.Accounted v) {w : IoWorld} (same : w.ob = v.ob)
    (sized : SizedFiles w) :
    (∀ calls : List FileCall, (∀ c ∈ calls, c.Proper) →
      (Runs.Along FileCall.after Follows w calls ↔
        Runs.Along FileCall.after FileCall.Fits w calls)) ∧
    ∀ h fuel name block r, Ob.Grantable w.ob block → openFile h fuel w name block = some r →
      ntSuccess r.1 = true → ∃ o, fileNamed r.2.2 (UInt64.ofNat r.2.1) = some o ∧
        ∀ old p, fileNamed w old = some p → p ≠ o ∧ fileNamed r.2.2 old = some p := by
  constructor
  · intro calls proper
    have along : Runs.Along FileCall.after (fun _ c => c.Proper) w calls := by
      clear same sized
      induction calls generalizing w with
      | nil => trivial
      | cons c calls ih =>
        exact ⟨proper c List.mem_cons_self,
          ih fun d later => proper d (List.mem_cons_of_mem c later)⟩
    refine Runs.along_congr (I := fun w => w.ob = v.ob ∧ SizedFiles w) ?_ ?_ ⟨same, sized⟩ along
    · rintro u c ⟨same, sized⟩ proper -
      exact ⟨(after_ob acc same c).trans same, after_sized acc same sized proper⟩
    · rintro u c ⟨same, sized⟩ proper
      exact follows_iff_fits acc same sized proper
  · intro h fuel name block r grant opens success
    exact openFile_separate acc same grant opens success

/-- A system with a file of three bytes, open through the handle 4. -/
def threeBytes : IoWorld where
  ob := Ob.openedWorld.ob
  fileType := 2
  files := fun _ => ⟨.disk, [65, 66, 67], 0⟩
  user := ⟨fun _ => true, fun _ => 0, []⟩
  stamps := fun _ => (0, 0)
  blocks := fun _ => none
  printed := []
  volume := none
  driver := ⟨0, 0, []⟩

/-- A call through the handle 4 of a thread with its stack below 0x7000. -/
def callOf (op : FileOp) : FileCall := ⟨threeBytes.user, 0x6000, 4, op⟩

/-- A seek from the beginning fits, and reads before and after it keep to the semantics. -/
theorem file_calls_follow_begin :
    Runs.Along FileCall.after Follows threeBytes
      [callOf (.read 0x8000 2), callOf (.seek 1 0), callOf (.read 0x8000 100)] := by
  have sized : SizedFiles threeBytes :=
    fun _ => ⟨(by decide : 3 < 2 ^ 63), (by decide : 0 < 2 ^ 64)⟩
  refine ((file_calls_follow Ob.openedWorld_accounted rfl sized).1 _ ?_).mpr ⟨trivial, ?_, trivial,
    trivial⟩
  · intro c listed
    simp only [List.mem_cons, List.not_mem_nil, or_false] at listed
    rcases listed with rfl | rfl | rfl
    · exact ⟨by decide, by decide⟩
    · exact (by decide : (0x6000 : UInt64).toNat + 40 ≤ 2 ^ 64)
    · exact ⟨by decide, by decide⟩
  · rintro o target - goal
    obtain rfl := Option.some.inj goal
    decide

/-- A seek from the largest position that is reported right to the next one. -/
theorem seek_beyond_int64 :
    (setFilePointerEx ((callOf (.seek 1 1)).enter (FileCall.after threeBytes
        (callOf (.seek Int64.maxValue 0)))) 0x6000 4 1 1).1 = true ∧
      (setFilePointerEx ((callOf (.seek 1 1)).enter (FileCall.after threeBytes
        (callOf (.seek Int64.maxValue 0)))) 0x6000 4 1 1).2.1 = some Int64.minValue ∧
      ¬Runs.Along FileCall.after Follows threeBytes
        [callOf (.seek Int64.maxValue 0), callOf (.seek 1 1)] := by
  have done : (setFilePointerEx ((callOf (.seek 1 1)).enter (FileCall.after threeBytes
      (callOf (.seek Int64.maxValue 0)))) 0x6000 4 1 1).1 = true := by decide +kernel
  have reported : (setFilePointerEx ((callOf (.seek 1 1)).enter (FileCall.after threeBytes
      (callOf (.seek Int64.maxValue 0)))) 0x6000 4 1 1).2.1 = some Int64.minValue := by
    decide +kernel
  refine ⟨done, reported, ?_⟩
  rintro ⟨-, follows, -⟩
  have sign := SeekFollows.reported_nonneg follows.call done reported
  rw [Int64.toInt_minValue] at sign
  exact absurd sign (by decide)

end Kernel32
