import Svindows.Cm.ValueQueries
import Svindows.Mm.Discipline

/-!
# Caller pointers in the registry services

`NtCreateKey` and `NtSetValueKey` probe what they touch. `NtQueryValueKey` probes
the caller's buffer with the caller's length, but the length it needs is a 32-bit
sum: for a value of nearly 4 GiB the sum is small, a buffer of a few bytes passes,
and the copy leaves it.
-/

namespace Cm

open Nt Mm ByteMemory

theorem cmMakeHandle_port (w : CmWorld) (k : Nat) (block : Option Ob.ObjectRef) :
    (cmMakeHandle w k block).2.user = w.user := by
  simp only [cmMakeHandle]
  split
  · rfl
  split
  · rfl
  · rfl

theorem cmResolveOa_careful (w : CmWorld) {oa : Nat} (ho : oa < 2 ^ 64) (create : Bool)
    (room : Nat → Bool) : Careful w.user (cmResolveOa w oa create room).2.2.user := by
  simp only [cmResolveOa]
  split
  · exact .refl _
  rename_i passed
  have held : .probed oa sizeofObjectAttributes ∈
      (w.user.probed oa sizeofObjectAttributes).log := List.mem_cons_self
  have root : Careful (w.user.probed oa sizeofObjectAttributes)
      ((w.user.probed oa sizeofObjectAttributes).read (oa + 8) 8) :=
    .read held (by omega) (by simp only [sizeofObjectAttributes]; omega)
  have opened := (Careful.probed ho (by decide) (not_accepts passed)).trans root
  have same := (cmKeyFromHandle_frame
    { w with user := (w.user.probed oa sizeofObjectAttributes).read (oa + 8) 8 }
    (load w.user.bytes (oa + 8) 8)).2.2.2
  simp only [read_bytes, probed_bytes]
  generalize cmKeyFromHandle { w with user := _ } (load w.user.bytes (oa + 8) 8) = resolved at same
  obtain ⟨_ | parent, w'⟩ := resolved
  · rw [same]
    exact opened
  simp only at same ⊢
  -- The name is captured through a pointer that the probed attributes hold.
  have name : Careful ((w.user.probed oa sizeofObjectAttributes).read (oa + 8) 8)
      (w'.user.read (oa + 16) 8) := by
    rw [same]
    exact .read (List.mem_cons_of_mem _ held) (by omega)
      (by simp only [sizeofObjectAttributes]; omega)
  have captured := (mmCaptureUnicodeName_careful (w'.user.read (oa + 16) 8)
    (load_lt w'.user.bytes (oa + 16) 8) pathBuffer).1
  have whole := (opened.trans name).trans captured
  generalize mmCaptureUnicodeName (w'.user.read (oa + 16) 8) (load w'.user.bytes (oa + 16) 8)
    pathBuffer = got at whole
  obtain ⟨_ | path, u⟩ := got
  · exact whole
  simp only at whole ⊢
  generalize cmWalk w'.registry parent path create room = walked
  obtain ⟨r, _ | k⟩ := walked
  · exact whole
  · exact whole

theorem openKey_careful (w : CmWorld) (args : Args) (create : Bool) (room : CallRoom) :
    Careful w.user (openKey w args create room).2.user := by
  simp only [openKey]
  split
  · exact .refl _
  rename_i passed
  have probed : Careful w.user (w.user.probed (args 0).toNat 8) :=
    .probed (args 0).toNat_lt (by decide) (not_accepts passed)
  have resolved := cmResolveOa_careful { w with user := w.user.probed (args 0).toNat 8 }
    (args 2).toNat_lt create room.key
  generalize cmResolveOa { w with user := w.user.probed (args 0).toNat 8 } (args 2).toNat create
    room.key = result at resolved
  obtain ⟨status, k, w'⟩ := result
  simp only at resolved ⊢
  split
  · exact probed.trans resolved
  have held : .probed (args 0).toNat 8 ∈ w'.user.log :=
    resolved.longer.subset List.mem_cons_self
  rw [cmMakeHandle_port]
  exact (probed.trans resolved).trans (.write _ held le_rfl le_rfl)

theorem ntCreateKey_careful (w : CmWorld) (args : Args) (room : CallRoom) :
    Careful w.user (ntCreateKey w args room).2.user := by
  have opened := openKey_careful w args true room
  simp only [ntCreateKey]
  generalize openKey w args true room = result at opened
  obtain ⟨status, w'⟩ := result
  simp only at opened ⊢
  split
  · exact opened
  split
  · rename_i disposition
    exact opened.trans (.probed_write 1 (args 6).toNat_lt (by decide) disposition.2)
  · exact opened

theorem ntSetValueKey_careful (w : CmWorld) (args : Args) (room : CallRoom) :
    Careful w.user (ntSetValueKey w args room).2.user := by
  have same := (cmKeyFromHandle_frame w (args 0).toNat).2.2.2
  simp only [ntSetValueKey]
  generalize cmKeyFromHandle w (args 0).toNat = resolved at same
  obtain ⟨_ | k, w'⟩ := resolved
  · rw [same]
    exact .refl _
  simp only at same ⊢
  have captured := (mmCaptureUnicodeName_careful w'.user (args 1).toNat_lt valueNameBuffer).1
  rw [same] at captured ⊢
  generalize mmCaptureUnicodeName w.user (args 1).toNat valueNameBuffer = got at captured
  obtain ⟨_ | vname, u⟩ := got
  · exact captured
  simp only at captured ⊢
  split
  · exact captured
  rename_i readable
  split
  · exact captured
  · rename_i some
    refine captured.trans (.probed_read (args 4).toNat_lt ?_ ?_)
    · exact (args 5).toUInt32.toNat_lt.trans (by decide)
    · exact not_accepts fun no => readable ⟨some, no⟩

/-- The sum of the value's size and the header wraps, and a buffer too short for
the header passes for long enough. -/
def SumWraps (u : UserPort) (v : CmValue) (info length : Nat) : Prop :=
  info ≠ 0 ∧ wrap32 (partialHeader + v.data.length) ≤ length ∧ length < partialHeader ∧
    u.accepts info length = true

section Reply

variable {u : UserPort} {v : CmValue} {info length resultLen : Nat}

/-- How many bytes of data the reply copies. -/
def copied (v : CmValue) (length : Nat) : Nat :=
  if wrap32 (length + (2 ^ 32 - partialHeader)) < v.data.length then
    wrap32 (length + (2 ^ 32 - partialHeader))
  else v.data.length

theorem afterResult_careful (hr : resultLen < 2 ^ 64) :
    Careful u (afterResult u v resultLen) ∧
      probedBytes (afterResult u v resultLen).log ≤ probedBytes u.log + 4 := by
  simp only [afterResult]
  split
  · rename_i writable
    refine ⟨.probed_write _ hr (by decide) writable.2, ?_⟩
    simp only [UserPort.write, UserPort.probed, probedBytes]
    omega
  · exact ⟨.refl u, by omega⟩

theorem queryValue_port : (queryValue u v info length resultLen).2 =
    if (info = 0 ∨ length < wrap32 (partialHeader + v.data.length)) ∧
        (info = 0 ∨ length < partialHeader) then afterResult u v resultLen
    else if u.accepts info length = false then afterResult u v resultLen
    else filled (afterResult u v resultLen) v info length (copied v length) := by
  have accepts : (afterResult u v resultLen).accepts info length = u.accepts info length := by
    rw [UserPort.accepts, afterResult_present, UserPort.accepts]
  have result : (if resultLen ≠ 0 ∧ u.accepts resultLen 4 = true then
      (u.probed resultLen 4).write resultLen 4 (wrap32 (partialHeader + v.data.length)) else u) =
      afterResult u v resultLen := rfl
  simp only [queryValue, result, accepts, apply_ite Prod.snd]
  rfl

theorem filled_careful {copy : Nat} (hi : info < 2 ^ 64) (hl : length < 2 ^ 64)
    (passed : u.accepts info length = true) (fits : dataOffset + copy ≤ length) :
    Careful u (filled u v info length copy) := by
  have offset : dataOffset = 12 := rfl
  have held : .probed info length ∈ (u.probed info length).log := List.mem_cons_self
  have title : Careful (u.probed info length) ((u.probed info length).write info 4 0) :=
    .write 0 held le_rfl (by omega)
  have held := title.longer.subset held
  have type : Careful ((u.probed info length).write info 4 0)
      (((u.probed info length).write info 4 0).write (info + 4) 4 v.type.toNat) :=
    .write _ held (by omega) (by omega)
  have held := type.longer.subset held
  have size : Careful _ ((((u.probed info length).write info 4 0).write (info + 4) 4
      v.type.toNat).write (info + 8) 4 v.data.length) :=
    .write _ held (by omega) (by omega)
  have held := size.longer.subset held
  have data := Careful.copyOut v.data held (a := info + dataOffset) (n := copy) (by omega)
    (by omega)
  exact ((((Careful.probed hi hl passed).trans title).trans type).trans size).trans data

/-- A copy longer than everything that was probed. -/
theorem filled_undisciplined {copy : Nat} (more : probedBytes u.log + length < copy) :
    ¬ Disciplined (filled u v info length copy).log := by
  intro disciplined
  have bound := disciplined.1.le_probedBytes
  simp only [UserPort.write, UserPort.probed, probedBytes] at bound
  omega

theorem queryValue_careful (hi : info < 2 ^ 64) (hl : length < 2 ^ 32) (hr : resultLen < 2 ^ 64)
    (fits : ¬ SumWraps u v info length) :
    Careful u (queryValue u v info length resultLen).2 := by
  have header : partialHeader = 15 := rfl
  have offset : dataOffset = 12 := rfl
  have result := (afterResult_careful (u := u) (v := v) hr).1
  rw [queryValue_port]
  split
  · exact result
  rename_i large
  split
  · exact result
  rename_i passed
  have passed := not_accepts passed
  have there : info ≠ 0 := fun zero => large ⟨.inl zero, .inl zero⟩
  have long : partialHeader ≤ length := by
    by_contra short
    rw [not_le] at short
    refine fits ⟨there, ?_, short, passed⟩
    exact not_lt.mp fun less => large ⟨.inr less, .inr short⟩
  have avail : wrap32 (length + (2 ^ 32 - partialHeader)) = length - partialHeader := by
    simp only [wrap32]
    omega
  have few : copied v length ≤ length - partialHeader := by
    simp only [copied, avail]
    split
    · exact le_rfl
    · omega
  refine result.trans (filled_careful hi (by omega) ?_ (by omega))
  rw [UserPort.accepts, afterResult_present]
  exact passed

theorem queryValue_undisciplined (hr : resultLen < 2 ^ 64) (little : probedBytes u.log < 2 ^ 16)
    (wraps : SumWraps u v info length) :
    ¬ Disciplined (queryValue u v info length resultLen).2.log := by
  have header : partialHeader = 15 := rfl
  obtain ⟨there, enough, short, passed⟩ := wraps
  have result := (afterResult_careful (u := u) (v := v) hr).2
  rw [queryValue_port, if_neg, if_neg]
  · have avail : wrap32 (length + (2 ^ 32 - partialHeader)) = length + (2 ^ 32 - partialHeader) :=
      Nat.mod_eq_of_lt (by omega)
    have many : 2 ^ 31 ≤ copied v length := by
      simp only [wrap32] at enough
      simp only [copied, avail]
      split
      · omega
      · omega
    apply filled_undisciplined
    omega
  · rw [passed]
    exact Bool.noConfusion
  · rintro ⟨zero | less, -⟩
    · exact there zero
    · omega

end Reply

/-- The value that a query names, and the port after its name has been captured. -/
def queried (w : CmWorld) (args : Args) : Option (CmValue × UserPort) :=
  match cmKeyFromHandle w (args 0).toNat with
  | (none, _) => none
  | (some k, w) =>
    match mmCaptureUnicodeName w.user (args 1).toNat valueNameBuffer with
    | (none, _) => none
    | (some vname, u) => (cmFindValue w.registry k vname).map (·, u)

/-- The query finds a value whose size wraps in the sum, for the caller's buffer. -/
def QueryWraps (w : CmWorld) (args : Args) : Prop :=
  ∃ v u, queried w args = some (v, u) ∧
    SumWraps w.user v (args 3).toNat (args 4).toUInt32.toNat

theorem ntQueryValueKey_careful {w : CmWorld} {args : Args} (fits : ¬ QueryWraps w args) :
    Careful w.user (ntQueryValueKey w args).2.user := by
  have same := (cmKeyFromHandle_frame w (args 0).toNat).2.2.2
  simp only [QueryWraps, queried] at fits
  simp only [ntQueryValueKey]
  generalize cmKeyFromHandle w (args 0).toNat = resolved at same fits
  obtain ⟨_ | k, w'⟩ := resolved
  · rw [same]
    exact .refl _
  simp only at same fits ⊢
  have captured := (mmCaptureUnicodeName_careful w'.user (args 1).toNat_lt valueNameBuffer).1
  rw [same] at captured fits ⊢
  generalize mmCaptureUnicodeName w.user (args 1).toNat valueNameBuffer = got at captured fits
  obtain ⟨_ | vname, u⟩ := got
  · exact captured
  simp only at captured fits ⊢
  cases found : cmFindValue w'.registry k vname with
  | none => exact captured
  | some v =>
    rw [found] at fits
    refine captured.trans (queryValue_careful (args 3).toNat_lt (args 4).toUInt32.toNat_lt
      (args 5).toNat_lt ?_)
    rintro ⟨there, enough, short, passed⟩
    refine fits ⟨v, u, rfl, there, enough, short, ?_⟩
    rw [UserPort.accepts, ← captured.present]
    exact passed

theorem ntQueryValueKey_undisciplined {w : CmWorld} {args : Args} (start : w.user.log = [])
    (wraps : QueryWraps w args) : ¬ Disciplined (ntQueryValueKey w args).2.user.log := by
  have same := (cmKeyFromHandle_frame w (args 0).toNat).2.2.2
  obtain ⟨v, u, found, wraps⟩ := wraps
  simp only [queried] at found
  simp only [ntQueryValueKey]
  generalize cmKeyFromHandle w (args 0).toNat = resolved at same found
  obtain ⟨_ | k, w'⟩ := resolved
  · exact absurd found (by simp)
  simp only at same found ⊢
  obtain ⟨captured, little⟩ :=
    mmCaptureUnicodeName_careful w'.user (args 1).toNat_lt valueNameBuffer
  rw [same] at captured little found ⊢
  generalize mmCaptureUnicodeName w.user (args 1).toNat valueNameBuffer = got at *
  obtain ⟨_ | vname, u'⟩ := got
  · exact absurd found (by simp)
  simp only [Option.map_eq_some_iff, Prod.mk.injEq] at captured little found ⊢
  obtain ⟨_, named, rfl, rfl⟩ := found
  rw [named]
  apply queryValue_undisciplined (args 5).toNat_lt
  · rw [start] at little
    simp only [probedBytes, valueNameBuffer] at little
    omega
  · obtain ⟨there, enough, short, passed⟩ := wraps
    refine ⟨there, enough, short, ?_⟩
    rw [UserPort.accepts, captured.present]
    exact passed

end Cm
