import Svindows.Cm.Services
import Svindows.Ob.HandleTable

/-!
# The handles that key services return

`cm_make_handle` returns 0 when the object or the handle cannot be created, and 0
is the handle of the registry root. `NtCreateKey` and `NtOpenKey` succeed either
way, so the handle they return names the key they walked to exactly when neither
is exhausted, or that key is the root.
-/

namespace Cm

open Nt Mm ByteMemory

/-- The pool has no block for the Key object, or no handle is free. The type is
there once `CmInitialize` has registered it. -/
def Exhausted (w : CmWorld) (room : CallRoom) : Prop :=
  w.keyType = 0 ∨ room.block.getD 0 = 0 ∨ ∀ i < Ob.obMaxHandles, (w.ob.handles i).object ≠ 0

/-- The key that the walk of the given path reaches. -/
def walkedKey (w : CmWorld) (args : Args) (create : Bool) (room : CallRoom) : Option Nat :=
  let oa := (args 2).toNat
  let root := (cmKeyFromHandle w (load w.user.bytes (oa + 8) 8)).1
  let name := (mmCaptureUnicodeName w.user (load w.user.bytes (oa + 16) 8) pathBuffer).1
  match root, name with
  | some parent, some path => (cmWalk w.registry parent path create room.key).2
  | _, _ => none

/-- `NtCreateKey`, or `NtOpenKey`. -/
def keyService (w : CmWorld) (args : Args) (create : Bool) (room : CallRoom) : NtStatus × CmWorld :=
  if create then ntCreateKey w args room else ntOpenKey w args room

/-- The handle the service stores at its first argument; the disposition comes after it. -/
def handleWritten (w : CmWorld) (args : Args) (create : Bool) (room : CallRoom) : Nat :=
  load (openKey w args create room).2.user.bytes (args 0).toNat 8

theorem ntSuccess_success : ntSuccess statusSuccess = true := rfl

/-- An object of the Key type, once the pool grants its block. -/
theorem obCreateObject_granted (ob : Ob.ObState) {type : Ob.TypeRef} (ht : type ≠ 0) (o : Ob.ObjectRef) :
    (Ob.obCreateObject ob type (some o) 1).1 = statusSuccess ∧
      (Ob.obCreateObject ob type (some o) 1).2.headers o = Ob.newHeader type := by
  simp [Ob.obCreateObject, ht, Ob.ObState.setHeader, Ob.ObState.setType]

/-- The creator's reference goes, the handle's stays: a fresh object whose handle
was made keeps its type. -/
theorem dereference_after_handle {ob : Ob.ObState} {o : Ob.ObjectRef} {type : Ob.TypeRef}
    (fresh : ob.headers o = Ob.newHeader type)
    (made : (Ob.obCreateHandle ob o Ob.genericAll 1).1 = statusSuccess) :
    ((Ob.obDereferenceObject (Ob.obCreateHandle ob o Ob.genericAll 1).2.2 o).headers o).type =
      type := by
  have failed : statusInvalidParameter ≠ statusSuccess := by decide
  have full : statusInsufficientResources ≠ statusSuccess := by decide
  have two : ((Ob.obCreateHandle ob o Ob.genericAll 1).2.2.headers o).pointerCount = 2 ∧
      ((Ob.obCreateHandle ob o Ob.genericAll 1).2.2.headers o).type = type := by
    revert made
    simp only [Ob.obCreateHandle]
    split
    · exact fun h => absurd h failed
    split
    · exact fun h => absurd h full
    · intro _
      simp [Ob.ObState.setType, Ob.ObState.setHeader, Ob.ObState.setEntry, Ob.obReferenceObject,
        fresh, Ob.newHeader, Ob.longInc]
  obtain ⟨count, typed⟩ := two
  have left : Ob.longDec 2 = 1 := by decide
  simp only [Ob.obDereferenceObject, count, left]
  rw [if_neg (by decide), if_neg (by decide)]
  simp [Ob.ObState.setHeader, typed]

theorem freeSlot_iff (ob : Ob.ObState) :
    (Ob.freeSlot ob).isSome ↔ ¬ ∀ i < Ob.obMaxHandles, (ob.handles i).object ≠ 0 := by
  cases found : Ob.freeSlot ob with
  | none => simpa using fun i hi => Ob.freeSlot_none found hi
  | some i =>
    obtain ⟨hi, free⟩ := Ob.freeSlot_some found
    simpa using ⟨i, hi, free⟩

variable {room : CallRoom} {w : CmWorld}

theorem cmMakeHandle_exhausted {k : Nat}
    (exhausted : Exhausted w room) : (cmMakeHandle w k room.block).1 = 0 := by
  simp only [cmMakeHandle]
  split
  · rfl
  rename_i created
  split
  · rfl
  rename_i opened
  exfalso
  rcases exhausted with untyped | missing | full
  · exact created (by simp [Ob.obCreateObject, untyped, ntSuccess, statusInvalidParameter])
  · exact opened (by simp [Ob.obCreateHandle, missing, ntSuccess, statusInvalidParameter])
  · have handles := Ob.obCreateObject_handles w.ob w.keyType room.block 1
    have none : Ob.freeSlot (Ob.obCreateObject w.ob w.keyType room.block 1).2 = none := by
      rw [← Option.not_isSome_iff_eq_none, freeSlot_iff, not_not, handles]
      exact full
    refine opened ?_
    simp only [Ob.obCreateHandle, none]
    split
    · rfl
    · rfl

theorem cmMakeHandle_resolves {k : Nat} (enough : ¬ Exhausted w room) :
    (cmKeyFromHandle (cmMakeHandle w k room.block).2 (cmMakeHandle w k room.block).1).1 =
      some k := by
  simp only [Exhausted, not_or] at enough
  obtain ⟨typed, granted, free⟩ := enough
  obtain ⟨o, block⟩ : ∃ o, room.block = some o := by
    cases h : room.block with
    | none => simp [h] at granted
    | some o => exact ⟨o, rfl⟩
  rw [block, Option.getD_some] at granted
  obtain ⟨created, fresh⟩ := obCreateObject_granted w.ob typed o
  have handles := Ob.obCreateObject_handles w.ob w.keyType (some o) 1
  rw [block]
  simp only [cmMakeHandle, created, ntSuccess_success, Option.getD_some, Bool.true_eq_false, if_false]
  generalize (Ob.obCreateObject w.ob w.keyType (some o) 1).2 = ob at fresh handles ⊢
  have slot : Ob.openHandles (Ob.tableMap ob) < Ob.obMaxHandles := by
    rw [← Ob.freeSlot_isSome, freeSlot_iff, handles]
    exact free
  obtain ⟨status, entry⟩ := Ob.create_spec ob Ob.genericAll granted one_ne_zero
  have made := status.mpr slot
  obtain ⟨nonzero, -, -, table⟩ := entry made
  have kept := dereference_after_handle fresh made
  have slots := Ob.obDereferenceObject_handles (Ob.obCreateHandle ob o Ob.genericAll 1).2.2 o
  simp only [made, ntSuccess_success, Bool.true_eq_false, if_false, cmKeyFromHandle, nonzero]
  generalize (Ob.obCreateHandle ob o Ob.genericAll 1).2.1 = h at table ⊢
  rw [← Ob.tableMap_congr slots] at table
  generalize Ob.obDereferenceObject _ o = ob' at table kept ⊢
  have mapped : Ob.tableMap ob' h = some (o, Ob.genericAll) := by
    rw [table, Function.update_self]
  obtain ⟨reference, object, -⟩ := Ob.reference_spec ob' h 0 w.keyType one_ne_zero
  have found := reference.mpr ⟨o, Ob.genericAll, mapped, .inr kept, by simp [Ob.Grants]⟩
  obtain ⟨a, same, -⟩ := object found
  rw [mapped] at same
  have isObject : (Ob.obReferenceObjectByHandle ob' h 0 w.keyType 1).2.1 = o :=
    (congrArg Prod.fst (Option.some.inj same)).symm
  simp only [found, ntSuccess_success, Bool.true_eq_false, if_false, isObject,
    Function.update_self]

theorem obReferenceObjectByHandle_handles (ob : Ob.ObState) (handle : Nat) (type : Ob.TypeRef) :
    (Ob.obReferenceObjectByHandle ob handle 0 type 1).2.2.handles = ob.handles := by
  obtain ⟨-, found, missing⟩ := Ob.reference_spec ob handle 0 type one_ne_zero
  by_cases done : (Ob.obReferenceObjectByHandle ob handle 0 type 1).1 = statusSuccess
  · obtain ⟨-, -, same⟩ := found done
    rw [same]
    rfl
  · rw [missing done]

/-- Resolving a handle moves reference counts and nothing else. -/
theorem cmKeyFromHandle_frame (w : CmWorld) (handle : Nat) :
    (cmKeyFromHandle w handle).2.ob.handles = w.ob.handles ∧
      (cmKeyFromHandle w handle).2.keyType = w.keyType ∧
      (cmKeyFromHandle w handle).2.registry = w.registry ∧
      (cmKeyFromHandle w handle).2.user = w.user := by
  simp only [cmKeyFromHandle]
  split
  · exact ⟨rfl, rfl, rfl, rfl⟩
  split
  · exact ⟨rfl, rfl, rfl, rfl⟩
  · refine ⟨?_, rfl, rfl, rfl⟩
    rw [Ob.obDereferenceObject_handles]
    exact obReferenceObjectByHandle_handles w.ob handle w.keyType

theorem cmKeyFromHandle_keyOf (w : CmWorld) (handle : Nat) :
    (cmKeyFromHandle w handle).2.keyOf = w.keyOf := by
  simp only [cmKeyFromHandle]
  split
  · rfl
  split <;> rfl

/-- Which key a handle names does not depend on the caller's memory. -/
theorem cmKeyFromHandle_user (w : CmWorld) (u : UserPort) (handle : Nat) :
    (cmKeyFromHandle { w with user := u } handle).1 = (cmKeyFromHandle w handle).1 := by
  simp only [cmKeyFromHandle, apply_ite Prod.fst]

/-- The key and the name that a call's OBJECT_ATTRIBUTES give. -/
def rootKey (w : CmWorld) (oa : Nat) : Option Nat :=
  (cmKeyFromHandle w (load w.user.bytes (oa + 8) 8)).1

def pathName (w : CmWorld) (oa : Nat) : Option Text :=
  (mmCaptureUnicodeName w.user (load w.user.bytes (oa + 16) 8) pathBuffer).1

/-- A probe before the attributes are read changes neither. -/
theorem attributes_probed (w : CmWorld) (a n oa : Nat) :
    rootKey { w with user := w.user.probed a n } oa = rootKey w oa ∧
      pathName { w with user := w.user.probed a n } oa = pathName w oa := by
  refine ⟨cmKeyFromHandle_user w _ _, ?_⟩
  apply mmCaptureUnicodeName_congr
  · rfl
  · rfl

/-- A resolution either fails with the registry unchanged, or walks from the root
key it was given. -/
theorem cmResolveOa_cases (w : CmWorld) (oa : Nat) (create : Bool) (room : Nat → Bool) :
    ∃ status k w', cmResolveOa w oa create room = (status, k, w') ∧
      w'.ob.handles = w.ob.handles ∧ w'.keyType = w.keyType ∧ w'.keyOf = w.keyOf ∧
      ((ntSuccess status = false ∧ status ≠ statusNoMemory ∧ w'.registry = w.registry) ∨
        ∃ parent path, rootKey w oa = some parent ∧ pathName w oa = some path ∧
          w'.registry = (cmWalk w.registry parent path create room).1 ∧
          (ntSuccess status = true → (cmWalk w.registry parent path create room).2 = some k) ∧
          (status = statusNoMemory → (cmWalk w.registry parent path create room).2 = none)) := by
  have denied : ntSuccess statusAccessViolation = false := by decide
  have invalid : ntSuccess statusInvalidHandle = false := by decide
  have missing : ntSuccess (if create = true then statusNoMemory else statusObjectNameNotFound) =
      false := by cases create <;> decide
  simp only [cmResolveOa, rootKey, pathName, read_bytes, probed_bytes]
  split
  · exact ⟨statusAccessViolation, 0, w, rfl, rfl, rfl, rfl, .inl ⟨denied, by decide, rfl⟩⟩
  obtain ⟨handles, type, registry, user⟩ := cmKeyFromHandle_frame
    { w with user := (w.user.probed oa sizeofObjectAttributes).read (oa + 8) 8 }
    (load w.user.bytes (oa + 8) 8)
  have keyOf := cmKeyFromHandle_keyOf
    { w with user := (w.user.probed oa sizeofObjectAttributes).read (oa + 8) 8 }
    (load w.user.bytes (oa + 8) 8)
  rw [← cmKeyFromHandle_user w ((w.user.probed oa sizeofObjectAttributes).read (oa + 8) 8)]
  generalize cmKeyFromHandle { w with user := _ } (load w.user.bytes (oa + 8) 8) = resolved at *
  obtain ⟨_ | parent, w'⟩ := resolved
  · exact ⟨statusInvalidHandle, 0, w', rfl, handles, type, keyOf,
      .inl ⟨invalid, by decide, registry⟩⟩
  have bytes : w'.user.bytes = w.user.bytes := (congrArg UserPort.bytes user).trans rfl
  have present : w'.user.present = w.user.present := (congrArg UserPort.present user).trans rfl
  have registry' : w'.registry = w.registry := registry
  have name : (mmCaptureUnicodeName (w'.user.read (oa + 16) 8) (load w.user.bytes (oa + 16) 8)
      pathBuffer).1 = (mmCaptureUnicodeName w.user (load w.user.bytes (oa + 16) 8)
      pathBuffer).1 := by
    apply mmCaptureUnicodeName_congr
    · exact bytes
    · exact present
  simp only [bytes, registry', ← name]
  generalize mmCaptureUnicodeName (w'.user.read (oa + 16) 8) (load w.user.bytes (oa + 16) 8)
    pathBuffer = got
  obtain ⟨_ | path, u⟩ := got
  · exact ⟨statusAccessViolation, 0, { w' with user := u }, by rw [registry'], handles, type, keyOf,
      .inl ⟨denied, by decide, registry⟩⟩
  simp only
  generalize reached : cmWalk w.registry parent path create room = walked
  obtain ⟨r, _ | k⟩ := walked
  · refine ⟨_, 0, { w' with registry := r, user := u }, rfl, handles, type, keyOf,
      .inr ⟨parent, path, rfl, rfl, ?_, ?_, ?_⟩⟩
    · rw [reached]
    · intro ok
      exact absurd (missing.symm.trans ok) Bool.false_ne_true
    · intro _
      rw [reached]
  · refine ⟨statusSuccess, k, { w' with registry := r, user := u }, rfl, handles, type, keyOf,
      .inr ⟨parent, path, rfl, rfl, ?_, ?_, ?_⟩⟩
    · rw [reached]
    · intro _
      rw [reached]
    · intro full
      exact absurd full (by decide)

theorem walkedKey_eq {args : Args} {create : Bool} {parent : Nat}
    {path : Text} (root : rootKey w (args 2).toNat = some parent)
    (name : pathName w (args 2).toNat = some path) :
    walkedKey w args create room = (cmWalk w.registry parent path create room.key).2 := by
  simp only [rootKey, pathName] at root name
  simp only [walkedKey, root, name]

/-- A resolution that succeeds reaches the key of the path. -/
theorem cmResolveOa_success (w : CmWorld) (args : Args) (create : Bool) (room : CallRoom)
    (done : ntSuccess (cmResolveOa w (args 2).toNat create room.key).1 = true) :
    walkedKey w args create room = some (cmResolveOa w (args 2).toNat create room.key).2.1 ∧
      (cmResolveOa w (args 2).toNat create room.key).2.2.ob.handles = w.ob.handles ∧
      (cmResolveOa w (args 2).toNat create room.key).2.2.keyType = w.keyType := by
  obtain ⟨status, k, w', result, handles, type, -, outcome⟩ :=
    cmResolveOa_cases w (args 2).toNat create room.key
  rw [result] at done ⊢
  rcases outcome with ⟨failed, -⟩ | ⟨parent, path, root, name, -, reached, -⟩
  · exact absurd (failed.symm.trans done) Bool.false_ne_true
  · rw [walkedKey_eq root name]
    exact ⟨reached done, handles, type⟩

theorem openKey_success {args : Args} {create : Bool}
    (done : (openKey w args create room).1 = statusSuccess) :
    ∃ k w', walkedKey w args create room = some k ∧ w'.ob.handles = w.ob.handles ∧
      w'.keyType = w.keyType ∧
      (openKey w args create room).2 = { (cmMakeHandle w' k room.block).2 with
        user := (cmMakeHandle w' k room.block).2.user.write (args 0).toNat 8
          (cmMakeHandle w' k room.block).1 } := by
  have denied : statusAccessViolation ≠ statusSuccess := by decide
  revert done
  simp only [openKey]
  split
  · intro no
    exact absurd no denied
  generalize hw : ({ w with user := w.user.probed (args 0).toNat 8 } : CmWorld) = w₁
  have walked : walkedKey w₁ args create room = walkedKey w args create room := by
    subst hw
    simp only [walkedKey, probed_bytes, cmKeyFromHandle_user]
    rw [mmCaptureUnicodeName_congr (u := w.user) (probed_bytes ..) (probed_present ..)]
  have handles : w₁.ob.handles = w.ob.handles := by rw [← hw]
  have type : w₁.keyType = w.keyType := by rw [← hw]
  have resolve := cmResolveOa_success w₁ args create room
  generalize cmResolveOa w₁ (args 2).toNat create room.key = resolved at resolve ⊢
  obtain ⟨status, k, w₂⟩ := resolved
  simp only at resolve ⊢
  split
  · rename_i failed
    intro zero
    have ok : ntSuccess status = true := by
      rw [show status = statusSuccess from zero]
      rfl
    exact absurd (failed.symm.trans ok) Bool.false_ne_true
  · rename_i ok
    intro _
    obtain ⟨reached, handles', type'⟩ := resolve (by simpa using ok)
    exact ⟨k, w₂, walked ▸ reached, handles'.trans handles, type'.trans type, rfl⟩

theorem cmMakeHandle_small (w : CmWorld) (k : Nat) (block : Option Ob.ObjectRef) :
    (cmMakeHandle w k block).1 < 256 ^ 8 := by
  have zero : 0 < 256 ^ 8 := by decide
  simp only [cmMakeHandle]
  split
  · exact zero
  split
  · exact zero
  · simp only [Ob.obCreateHandle]
    split
    · exact zero
    split
    · exact zero
    · exact (Nat.mod_lt _ (by decide)).trans (by decide)

/-- The service and its common part succeed together and leave the same handles. -/
theorem keyService_openKey (w : CmWorld) (args : Args) (create : Bool) (room : CallRoom) :
    ((keyService w args create room).1 = (openKey w args create room).1) ∧
      ∀ h, (cmKeyFromHandle (keyService w args create room).2 h).1 =
        (cmKeyFromHandle (openKey w args create room).2 h).1 := by
  cases create with
  | false => exact ⟨rfl, fun _ => rfl⟩
  | true =>
    simp only [keyService, if_true, ntCreateKey]
    generalize openKey w args true room = opened
    obtain ⟨status, w'⟩ := opened
    simp only
    split
    · exact ⟨rfl, fun _ => rfl⟩
    · split
      · exact ⟨rfl, fun h => cmKeyFromHandle_user w' _ h⟩
      · exact ⟨rfl, fun _ => rfl⟩

/-- The handle of a successful `NtCreateKey` or `NtOpenKey` names the key its path
leads to, unless an exhausted pool or handle table makes it name the root instead. -/
theorem key_handle_names_walked_key (w : CmWorld) (args : Args) (create : Bool) (room : CallRoom)
    (done : (keyService w args create room).1 = statusSuccess) :
    ∃ k, walkedKey w args create room = some k ∧
      ((cmKeyFromHandle (keyService w args create room).2
          (handleWritten w args create room)).1 = some k ↔
        ¬ Exhausted w room ∨ k = cmRoot) := by
  obtain ⟨status, same⟩ := keyService_openKey w args create room
  rw [status] at done
  obtain ⟨k, w', walked, handles, type, after⟩ := openKey_success done
  have exhausted : Exhausted w' room ↔ Exhausted w room := by
    simp only [Exhausted, handles, type]
  refine ⟨k, walked, ?_⟩
  have written : handleWritten w args create room = (cmMakeHandle w' k room.block).1 := by
    rw [handleWritten, after]
    exact load_store_same (cmMakeHandle_small w' k room.block)
  rw [same, after, written, cmKeyFromHandle_user, ← exhausted]
  by_cases short : Exhausted w' room
  · rw [cmMakeHandle_exhausted short]
    simp [cmKeyFromHandle, short, eq_comm]
  · simp [cmMakeHandle_resolves short, short]

/-- A caller's memory that is 0 but for the listed bytes, with every page present. -/
def sparseMemory (bytes : List (Nat × UInt8)) : UserPort where
  present _ := true
  bytes a := (bytes.lookup a).getD 0
  log := []

/-- The root alone, no handle open, and the Key type registered as type 1. -/
def freshWorld (user : UserPort) : CmWorld where
  registry := emptyRegistry
  ob := ⟨fun _ => Ob.newHeader 0, fun _ => false, fun _ => ⟨0, 0⟩, fun _ => .empty, 0, 0, false, []⟩
  keyType := 1
  keyOf _ := 0
  user := user

/-- OBJECT_ATTRIBUTES at 0x2000 that name the key `a` below the root. -/
def attributesOfA : UserPort :=
  sparseMemory [(0x2011, 0x30), (0x3000, 2), (0x3009, 0x40), (0x4000, 0x61)]

/-- A handle at 0x1000 and the attributes at 0x2000. -/
def openArgs : Args := fun i => if i = 0 then 0x1000 else if i = 2 then 0x2000 else 0

/-- Room for the key, none for its object. -/
def noObject : CallRoom := ⟨fun _ => true, true, true, none⟩

/-- The new key `a` is key 1, but the handle returned with success is 0, the root. -/
theorem new_key_handle_is_root :
    (keyService (freshWorld attributesOfA) openArgs true noObject).1 = statusSuccess ∧
      walkedKey (freshWorld attributesOfA) openArgs true noObject = some 1 ∧
      handleWritten (freshWorld attributesOfA) openArgs true noObject = 0 ∧
      (cmKeyFromHandle (keyService (freshWorld attributesOfA) openArgs true noObject).2 0).1 =
        some cmRoot := by
  refine ⟨?_, ?_, ?_, ?_⟩ <;> decide

/-- Room for the key and for its object. -/
def objectRoom : CallRoom := ⟨fun _ => true, true, true, some 7⟩

theorem key_handle_names_walked_key_a :
    (keyService (freshWorld attributesOfA) openArgs true objectRoom).1 = statusSuccess ∧
      ∃ k, walkedKey (freshWorld attributesOfA) openArgs true objectRoom = some k ∧
        ((cmKeyFromHandle (keyService (freshWorld attributesOfA) openArgs true objectRoom).2
            (handleWritten (freshWorld attributesOfA) openArgs true objectRoom)).1 = some k ↔
          ¬ Exhausted (freshWorld attributesOfA) objectRoom ∨ k = cmRoot) := by
  have done : (keyService (freshWorld attributesOfA) openArgs true objectRoom).1 =
      statusSuccess := by decide +kernel
  exact ⟨done, key_handle_names_walked_key _ _ _ _ done⟩

end Cm
