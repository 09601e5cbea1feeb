import Mathlib.Data.Set.Card
import Svindows.Lib.Runs
import Svindows.Ob.Object

/-!
# The handle table as a finite map

The abstract table is a map from handle values to an object and a granted
access. The concrete one is 4096 slots searched from the first; encoding and
decoding agree on every 64-bit value, so each call does on the slots what it
does on the map.
-/

namespace Ob

open Nt

/-- A finite map from handle values to what they grant. -/
abbrev HandleMap := Nat → Option (ObjectRef × AccessMask)

/-- The map a table stands for. -/
def tableMap (s : ObState) : HandleMap := fun v =>
  match handleToIndex v with
  | none => none
  | some i => if (s.handles i).object = 0 then none
    else some ((s.handles i).object, (s.handles i).grantedAccess)

/-- The number of open handles. -/
noncomputable def openHandles (m : HandleMap) : Nat := {v | m v ≠ none}.ncard

/-- Every desired bit is granted, `GENERIC_ALL` granting all. -/
def Grants (granted desired : AccessMask) : Prop :=
  ∀ i, desired.getLsbD i = true → granted.getLsbD 28 = true ∨ granted.getLsbD i = true

variable {i : Nat} {s : ObState}

theorem handleToIndex_some {v : Nat} :
    handleToIndex v = some i ↔ i < obMaxHandles ∧ v = indexToHandle i := by
  have size : obMaxHandles = 4096 := rfl
  simp only [handleToIndex, indexToHandle, wrap32]
  constructor
  · intro h
    split at h
    · exact absurd h (by simp)
    · split at h
      · exact absurd h (by simp)
      · simp only [Option.some.injEq] at h
        omega
  · rintro ⟨hi, rfl⟩
    have small : (i + 1) * 4 % 2 ^ 32 = (i + 1) * 4 := Nat.mod_eq_of_lt (by omega)
    rw [small, if_neg (by omega), if_neg (by omega)]
    congr 1
    omega

theorem indexToHandle_injective {j : Nat} (hi : i < obMaxHandles) (hj : j < obMaxHandles)
    (same : indexToHandle i = indexToHandle j) : i = j := by
  have left := handleToIndex_some.mpr ⟨hi, rfl⟩
  rw [same, handleToIndex_some.mpr ⟨hj, rfl⟩] at left
  exact (Option.some.inj left).symm

theorem indexToHandle_shape (hi : i < obMaxHandles) :
    indexToHandle i ≠ 0 ∧ 4 ∣ indexToHandle i := by
  have size : obMaxHandles = 4096 := rfl
  simp only [indexToHandle, wrap32]
  omega

theorem tableMap_index (hi : i < obMaxHandles) :
    tableMap s (indexToHandle i) = if (s.handles i).object = 0 then none
      else some ((s.handles i).object, (s.handles i).grantedAccess) := by
  simp only [tableMap, handleToIndex_some.mpr ⟨hi, rfl⟩]

theorem tableMap_setSlot {s' : ObState} {e : HandleEntry} (hi : i < obMaxHandles)
    (slots : s'.handles = Function.update s.handles i e) :
    tableMap s' = Function.update (tableMap s) (indexToHandle i)
      (if e.object = 0 then none else some (e.object, e.grantedAccess)) := by
  funext v
  by_cases hv : v = indexToHandle i
  · subst hv
    rw [tableMap_index hi, slots]
    simp
  · rw [Function.update_of_ne hv]
    simp only [tableMap]
    split
    · rfl
    · rename_i j found
      have other : j ≠ i := by
        rintro rfl
        exact hv (handleToIndex_some.mp found).2
      simp [slots, other]

theorem open_iff_slot {v : Nat} :
    tableMap s v ≠ none ↔ ∃ i, i < obMaxHandles ∧ (s.handles i).object ≠ 0 ∧
      v = indexToHandle i := by
  constructor
  · intro h
    simp only [tableMap] at h
    split at h
    · exact absurd rfl h
    · rename_i i found
      obtain ⟨hi, hv⟩ := handleToIndex_some.mp found
      refine ⟨i, hi, ?_, hv⟩
      intro free
      rw [if_pos free] at h
      exact h rfl
  · rintro ⟨i, hi, used, rfl⟩
    rw [tableMap_index hi, if_neg used]
    simp

theorem openHandles_eq (s : ObState) :
    openHandles (tableMap s) =
      ((Finset.range obMaxHandles).filter fun i => (s.handles i).object ≠ 0).card := by
  have image : {v | tableMap s v ≠ none} = indexToHandle ''
      ((Finset.range obMaxHandles).filter fun i => (s.handles i).object ≠ 0 : Finset Nat) := by
    ext v
    simp only [Set.mem_ofPred_eq, open_iff_slot, Set.mem_image, Finset.mem_coe, Finset.mem_filter,
      Finset.mem_range]
    constructor
    · rintro ⟨i, hi, used, rfl⟩
      exact ⟨i, ⟨hi, used⟩, rfl⟩
    · rintro ⟨i, ⟨hi, used⟩, rfl⟩
      exact ⟨i, hi, used, rfl⟩
  rw [openHandles, image, Set.InjOn.ncard_image, Set.ncard_coe_finset]
  intro i hi j hj same
  simp only [Finset.coe_filter, Finset.mem_range, Set.mem_ofPred_eq] at hi hj
  exact indexToHandle_injective hi.1 hj.1 same

theorem freeSlot_some (found : freeSlot s = some i) :
    i < obMaxHandles ∧ (s.handles i).object = 0 := by
  have free := List.find?_some found
  have listed := List.mem_of_find?_eq_some found
  exact ⟨List.mem_range.mp listed, by simpa using free⟩

theorem freeSlot_none (full : freeSlot s = none) {i : Nat}
    (hi : i < obMaxHandles) : (s.handles i).object ≠ 0 := by
  have := List.find?_eq_none.mp full i (List.mem_range.mpr hi)
  simpa using this

theorem freeSlot_isSome (s : ObState) :
    (freeSlot s).isSome ↔ openHandles (tableMap s) < obMaxHandles := by
  rw [openHandles_eq]
  cases found : freeSlot s with
  | none =>
    have all : ((Finset.range obMaxHandles).filter fun i => (s.handles i).object ≠ 0) =
        Finset.range obMaxHandles :=
      Finset.filter_true_of_mem (fun i hi => freeSlot_none found (Finset.mem_range.mp hi))
    rw [all]
    simp
  | some i =>
    obtain ⟨hi, free⟩ := freeSlot_some found
    have proper : ((Finset.range obMaxHandles).filter fun i => (s.handles i).object ≠ 0) ⊂
        Finset.range obMaxHandles := by
      refine (Finset.filter_ssubset).mpr ⟨i, Finset.mem_range.mpr hi, ?_⟩
      simpa using free
    have := Finset.card_lt_card proper
    rw [Finset.card_range] at this
    simpa using this

theorem detach_handles (s : ObState) (o : ObjectRef) : (detach s o).handles = s.handles := by
  simp only [detach]
  split <;> rfl

theorem obpDeleteObject_handles (s : ObState) (o : ObjectRef) :
    (obpDeleteObject s o).handles = s.handles := by
  have detached := detach_handles s o
  simp only [obpDeleteObject]
  generalize detach s o = d at detached ⊢
  split <;> exact detached

theorem obDereferenceObject_handles (s : ObState) (o : ObjectRef) :
    (obDereferenceObject s o).handles = s.handles := by
  simp only [obDereferenceObject]
  split
  · rfl
  · split
    · exact obpDeleteObject_handles _ o
    · rfl

theorem obCreateObject_handles (s : ObState) (type : TypeRef) (block : Option ObjectRef)
    (out : Nat) : (obCreateObject s type block out).2.handles = s.handles := by
  unfold obCreateObject
  split
  · rfl
  · split
    · rfl
    · rfl

theorem obInsertObjectByName_handles (s : ObState) (dir : ObjectRef) (name : Option Name)
    (object : ObjectRef) : (obInsertObjectByName s dir name object).2.handles = s.handles := by
  unfold obInsertObjectByName
  split
  · rfl
  · split
    · rfl
    · split
      · rfl
      · rfl

theorem obCreateDirectory_handles (s : ObState) (parent : ObjectRef) (name : Option Name)
    (block : Option ObjectRef) : (obCreateDirectory s parent name block).2.handles = s.handles := by
  have made := obCreateObject_handles s s.directoryType block 1
  simp only [obCreateDirectory]
  generalize obCreateObject s s.directoryType block 1 = r at made ⊢
  split
  · rename_i o _
    have inserted := (obInsertObjectByName_handles r.2 parent name o).trans made
    split
    · exact made
    · split
      · exact inserted
      · exact (obDereferenceObject_handles _ _).trans inserted
  · exact made

theorem genericAll_bit (i : Nat) : genericAll.getLsbD i = decide (i = 28) := by
  by_cases small : i < 32
  · revert small
    revert i
    decide
  · rw [BitVec.getLsbD_of_ge _ _ (by omega)]
    simp
    omega

theorem genericAll_granted (a : AccessMask) :
    a &&& genericAll ≠ 0 ↔ a.getLsbD 28 = true := by
  constructor
  · intro some
    by_contra unset
    refine some (BitVec.eq_of_getLsbD_eq ?_)
    intro i _
    rw [BitVec.getLsbD_and, genericAll_bit]
    by_cases hi : i = 28
    · subst hi
      rw [Bool.eq_false_iff.mpr unset]
      rfl
    · simp [hi]
  · intro set none
    have bit : (a &&& genericAll).getLsbD 28 = (0 : AccessMask).getLsbD 28 := by rw [none]
    rw [BitVec.getLsbD_and, set, genericAll_bit] at bit
    exact absurd bit (by decide)

/-- The mask test of the sources is the bitwise grant. -/
theorem access_granted (a d : AccessMask) :
    (d ≠ 0 ∧ effectiveAccess a &&& d ≠ d) ↔ ¬ Grants a d := by
  have bits : effectiveAccess a &&& d = d ↔ Grants a d := by
    simp only [effectiveAccess, Grants]
    by_cases all : a.getLsbD 28 = true
    · rw [if_pos ((genericAll_granted a).mpr all), BitVec.allOnes_and]
      simp [all]
    · rw [if_neg (fun some => all ((genericAll_granted a).mp some))]
      simp only [all, Bool.false_eq_true, false_or]
      constructor
      · intro same i hi
        rw [← same, BitVec.getLsbD_and, Bool.and_eq_true] at hi
        exact hi.1
      · intro each
        refine BitVec.eq_of_getLsbD_eq ?_
        intro i _
        rw [BitVec.getLsbD_and]
        cases hd : d.getLsbD i with
        | false => simp
        | true => simp [each i hd]
  rw [← bits]
  constructor
  · exact fun h => h.2
  · intro h
    refine ⟨?_, h⟩
    rintro rfl
    exact h (by simp)

theorem invalidHandle_ne : statusInvalidHandle ≠ statusSuccess := by decide

theorem typeMismatch_ne : statusObjectTypeMismatch ≠ statusSuccess := by decide

theorem accessDenied_ne : statusAccessDenied ≠ statusSuccess := by decide

theorem create_spec (s : ObState) {object : ObjectRef} {out : Nat} (access : AccessMask)
    (ho : object ≠ 0) (hout : out ≠ 0) :
    ((obCreateHandle s object access out).1 = statusSuccess ↔
      openHandles (tableMap s) < obMaxHandles) ∧
    ((obCreateHandle s object access out).1 = statusSuccess →
      (obCreateHandle s object access out).2.1 ≠ 0 ∧
      4 ∣ (obCreateHandle s object access out).2.1 ∧
      tableMap s (obCreateHandle s object access out).2.1 = none ∧
      tableMap (obCreateHandle s object access out).2.2 = Function.update (tableMap s)
        (obCreateHandle s object access out).2.1 (some (object, access))) := by
  rw [← freeSlot_isSome]
  cases found : freeSlot s with
  | none =>
    have full : (obCreateHandle s object access out).1 = statusInsufficientResources := by
      simp [obCreateHandle, ho, hout, found]
    rw [full]
    constructor
    · simp [statusInsufficientResources, statusSuccess]
    · intro h
      exact absurd h (by decide)
  | some i =>
    obtain ⟨hi, free⟩ := freeSlot_some found
    have status : (obCreateHandle s object access out).1 = statusSuccess := by
      simp [obCreateHandle, ho, hout, found]
    have handle : (obCreateHandle s object access out).2.1 = indexToHandle i := by
      simp [obCreateHandle, ho, hout, found]
    have slots : (obCreateHandle s object access out).2.2.handles =
        Function.update s.handles i ⟨object, access⟩ := by
      simp [obCreateHandle, ho, hout, found, ObState.setEntry, ObState.setHeader,
        ObState.setType, obReferenceObject]
    rw [status, handle]
    refine ⟨by simp, fun _ => ⟨(indexToHandle_shape hi).1, (indexToHandle_shape hi).2, ?_, ?_⟩⟩
    · rw [tableMap_index hi, if_pos free]
    · rw [tableMap_setSlot hi slots, if_neg ho]

theorem create_fails (s : ObState) (object : ObjectRef) (access : AccessMask) (out : Nat)
    (failed : (obCreateHandle s object access out).1 ≠ statusSuccess) :
    (obCreateHandle s object access out).2.2 = s := by
  simp only [obCreateHandle] at failed ⊢
  split
  · rfl
  · rw [if_neg ‹_›] at failed
    split
    · rfl
    · rename_i found
      rw [found] at failed
      exact absurd rfl failed

theorem reference_spec (s : ObState) (handle : Nat) (desired : AccessMask) (type : TypeRef)
    {out : Nat} (hout : out ≠ 0) :
    ((obReferenceObjectByHandle s handle desired type out).1 = statusSuccess ↔
      ∃ o a, tableMap s handle = some (o, a) ∧
        (type = 0 ∨ (s.headers o).type = type) ∧ Grants a desired) ∧
    ((obReferenceObjectByHandle s handle desired type out).1 = statusSuccess →
      ∃ a, tableMap s handle =
          some ((obReferenceObjectByHandle s handle desired type out).2.1, a) ∧
        (obReferenceObjectByHandle s handle desired type out).2.2 =
          obReferenceObject s (obReferenceObjectByHandle s handle desired type out).2.1) ∧
    ((obReferenceObjectByHandle s handle desired type out).1 ≠ statusSuccess →
      (obReferenceObjectByHandle s handle desired type out).2.2 = s) := by
  cases found : handleToIndex handle with
  | none =>
    have result : obReferenceObjectByHandle s handle desired type out =
        (statusInvalidHandle, 0, s) := by
      simp only [obReferenceObjectByHandle, found]
    have closed : tableMap s handle = none := by
      simp only [tableMap, found]
    rw [result, closed]
    refine ⟨?_, fun h => absurd h invalidHandle_ne, fun _ => rfl⟩
    simp [invalidHandle_ne]
  | some i =>
    by_cases free : (s.handles i).object = 0
    · have result : obReferenceObjectByHandle s handle desired type out =
          (statusInvalidHandle, 0, s) := by
        simp only [obReferenceObjectByHandle, found]
        rw [if_pos (Or.inr free)]
      have closed : tableMap s handle = none := by
        simp only [tableMap, found]
        rw [if_pos free]
      rw [result, closed]
      refine ⟨?_, fun h => absurd h invalidHandle_ne, fun _ => rfl⟩
      simp [invalidHandle_ne]
    · have used : tableMap s handle =
          some ((s.handles i).object, (s.handles i).grantedAccess) := by
        simp only [tableMap, found]
        rw [if_neg free]
      have present : ¬ (out = 0 ∨ (s.handles i).object = 0) := by
        rintro (h | h)
        · exact hout h
        · exact free h
      by_cases wrong : type ≠ 0 ∧ (s.headers (s.handles i).object).type ≠ type
      · have result : obReferenceObjectByHandle s handle desired type out =
            (statusObjectTypeMismatch, 0, s) := by
          simp only [obReferenceObjectByHandle, found]
          rw [if_neg present, if_pos wrong]
        rw [result, used]
        refine ⟨⟨fun h => absurd h typeMismatch_ne, ?_⟩, fun h => absurd h typeMismatch_ne,
          fun _ => rfl⟩
        rintro ⟨o, a, same, matching, _⟩
        simp only [Option.some.injEq, Prod.mk.injEq] at same
        obtain ⟨rfl, rfl⟩ := same
        rcases matching with h | h
        · exact absurd h wrong.1
        · exact absurd h wrong.2
      · have matching : type = 0 ∨ (s.headers (s.handles i).object).type = type := by
          by_contra no
          rw [not_or] at no
          exact wrong no
        by_cases denied : desired ≠ 0 ∧
            effectiveAccess (s.handles i).grantedAccess &&& desired ≠ desired
        · have result : obReferenceObjectByHandle s handle desired type out =
              (statusAccessDenied, 0, s) := by
            simp only [obReferenceObjectByHandle, found]
            rw [if_neg present, if_neg wrong, if_pos denied]
          rw [result, used]
          refine ⟨⟨fun h => absurd h accessDenied_ne, ?_⟩, fun h => absurd h accessDenied_ne,
            fun _ => rfl⟩
          rintro ⟨o, a, same, _, grants⟩
          simp only [Option.some.injEq, Prod.mk.injEq] at same
          obtain ⟨rfl, rfl⟩ := same
          exact absurd grants ((access_granted _ _).mp denied)
        · have result : obReferenceObjectByHandle s handle desired type out =
              (statusSuccess, (s.handles i).object,
                obReferenceObject s (s.handles i).object) := by
            simp only [obReferenceObjectByHandle, found]
            rw [if_neg present, if_neg wrong, if_neg denied]
          have grants : Grants (s.handles i).grantedAccess desired := by
            by_contra no
            exact denied ((access_granted _ _).mpr no)
          rw [result, used]
          exact ⟨⟨fun _ => ⟨_, _, rfl, matching, grants⟩, fun _ => rfl⟩,
            fun _ => ⟨_, rfl, rfl⟩, fun h => absurd rfl h⟩

theorem obReferenceObject_counts (s : ObState) (o : ObjectRef) :
    ((obReferenceObject s o).headers o).pointerCount =
        Int.bmod ((s.headers o).pointerCount + 1) (2 ^ 32) ∧
      ∀ p, p ≠ o → (obReferenceObject s o).headers p = s.headers p := by
  refine ⟨?_, fun p other => Function.update_of_ne other _ _⟩
  simp [obReferenceObject, ObState.setHeader, longInc]

theorem close_spec (s : ObState) (handle : Nat) :
    ((obCloseHandle s handle).1 = statusSuccess ↔ tableMap s handle ≠ none) ∧
    ((obCloseHandle s handle).1 = statusSuccess →
      tableMap (obCloseHandle s handle).2 = Function.update (tableMap s) handle none) ∧
    ((obCloseHandle s handle).1 ≠ statusSuccess → (obCloseHandle s handle).2 = s) := by
  cases found : handleToIndex handle with
  | none =>
    have result : obCloseHandle s handle = (statusInvalidHandle, s) := by
      simp only [obCloseHandle, found]
    have closed : tableMap s handle = none := by
      simp only [tableMap, found]
    rw [result, closed]
    refine ⟨?_, fun h => absurd h invalidHandle_ne, fun _ => rfl⟩
    simp [invalidHandle_ne]
  | some i =>
    obtain ⟨hi, rfl⟩ := handleToIndex_some.mp found
    by_cases free : (s.handles i).object = 0
    · have result : obCloseHandle s (indexToHandle i) = (statusInvalidHandle, s) := by
        simp only [obCloseHandle, found]
        rw [if_pos free]
      rw [result, tableMap_index hi, if_pos free]
      refine ⟨?_, fun h => absurd h invalidHandle_ne, fun _ => rfl⟩
      simp [invalidHandle_ne]
    · have status : (obCloseHandle s (indexToHandle i)).1 = statusSuccess := by
        simp only [obCloseHandle, found]
        rw [if_neg free]
      have slots : (obCloseHandle s (indexToHandle i)).2.handles =
          Function.update s.handles i .empty := by
        simp only [obCloseHandle, found]
        rw [if_neg free]
        simp only [obDereferenceObject_handles]
        split <;> rfl
      rw [status, tableMap_index hi, if_neg free]
      refine ⟨by simp, fun _ => ?_, fun h => absurd rfl h⟩
      rw [tableMap_setSlot hi slots]
      simp [HandleEntry.empty]

/-- The object manager beside the map its callers have built up. -/
structure Table where
  ob : ObState
  map : HandleMap

inductive TableOp where
  | create (object : ObjectRef) (access : AccessMask) (out : Nat)
  | reference (handle : Nat) (desired : AccessMask) (type : TypeRef) (out : Nat)
  | close (handle : Nat)
  /-- Anything else in the kernel: it can change every object but no slot. -/
  | elsewhere (ob : ObState)

/-- The slots change by the calls alone; the map changes by their results. -/
def Table.Step (w : Table) : TableOp → Table → Prop
  | .create object access out, w' =>
    w'.ob = (obCreateHandle w.ob object access out).2.2 ∧
      w'.map = if (obCreateHandle w.ob object access out).1 = statusSuccess then
        Function.update w.map (obCreateHandle w.ob object access out).2.1 (some (object, access))
      else w.map
  | .reference handle desired type out, w' =>
    w'.ob = (obReferenceObjectByHandle w.ob handle desired type out).2.2 ∧ w'.map = w.map
  | .close handle, w' =>
    w'.ob = (obCloseHandle w.ob handle).2 ∧
      w'.map = if (obCloseHandle w.ob handle).1 = statusSuccess then
        Function.update w.map handle none else w.map
  | .elsewhere ob, w' => ob.handles = w.ob.handles ∧ w'.ob = ob ∧ w'.map = w.map

/-- The table after `ObInitializeHandleTable`. -/
def Table.Start (w : Table) : Prop :=
  (∀ i, w.ob.handles i = .empty) ∧ w.map = fun _ => none

/-- Slots and map agree. -/
def Table.Agrees (w : Table) : Prop := w.map = tableMap w.ob

theorem tableMap_congr {s' : ObState} (slots : s'.handles = s.handles) :
    tableMap s' = tableMap s := by
  funext v
  simp only [tableMap, slots]

theorem Table.Agrees.step {w w' : Table} {op : TableOp} (agrees : w.Agrees)
    (step : w.Step op w') : w'.Agrees := by
  cases op with
  | create object access out =>
    obtain ⟨ob, map⟩ := step
    rw [Agrees, ob, map]
    split
    · rename_i success
      have given : object ≠ 0 ∧ out ≠ 0 := by
        by_contra no
        have refused : object = 0 ∨ out = 0 := by
          rw [not_and_or, not_not, not_not] at no
          exact no
        simp [obCreateHandle, refused, statusInvalidParameter, statusSuccess] at success
      rw [((create_spec w.ob access given.1 given.2).2 success).2.2.2, agrees]
    · rename_i failed
      rw [create_fails w.ob object access out failed, agrees]
  | reference handle desired type out =>
    obtain ⟨ob, map⟩ := step
    rw [Agrees, ob, map, agrees]
    refine (tableMap_congr ?_).symm
    simp only [obReferenceObjectByHandle]
    split
    · rfl
    · split
      · rfl
      · split
        · rfl
        · split <;> rfl
  | close handle =>
    obtain ⟨ob, map⟩ := step
    obtain ⟨_, closes, keeps⟩ := close_spec w.ob handle
    rw [Agrees, ob, map]
    split
    · rename_i success
      rw [closes success, agrees]
    · rename_i failed
      rw [keeps failed, agrees]
  | elsewhere s =>
    obtain ⟨slots, ob, map⟩ := step
    rw [Agrees, ob, map, agrees]
    exact (tableMap_congr slots).symm

theorem Table.Start.agrees {w : Table} (start : w.Start) : w.Agrees := by
  obtain ⟨empty, map⟩ := start
  rw [Agrees, map]
  funext v
  simp only [tableMap, empty, HandleEntry.empty]
  split <;> simp

/-- In every run the table answers as the map does. -/
theorem handle_table_refines_map {w : Table} (run : Runs.Reachable Table.Start Table.Step w) :
    (∀ object access out, object ≠ 0 → out ≠ 0 →
      ((obCreateHandle w.ob object access out).1 = statusSuccess ↔
        openHandles w.map < obMaxHandles) ∧
      ((obCreateHandle w.ob object access out).1 = statusSuccess →
        (obCreateHandle w.ob object access out).2.1 ≠ 0 ∧
        4 ∣ (obCreateHandle w.ob object access out).2.1 ∧
        w.map (obCreateHandle w.ob object access out).2.1 = none ∧
        tableMap (obCreateHandle w.ob object access out).2.2 = Function.update w.map
          (obCreateHandle w.ob object access out).2.1 (some (object, access)))) ∧
    (∀ object access out, (obCreateHandle w.ob object access out).1 ≠ statusSuccess →
      (obCreateHandle w.ob object access out).2.2 = w.ob) ∧
    (∀ handle desired type out, out ≠ 0 →
      ((obReferenceObjectByHandle w.ob handle desired type out).1 = statusSuccess ↔
        ∃ o a, w.map handle = some (o, a) ∧
          (type = 0 ∨ (w.ob.headers o).type = type) ∧ Grants a desired) ∧
      ((obReferenceObjectByHandle w.ob handle desired type out).1 = statusSuccess →
        ∃ a, w.map handle =
            some ((obReferenceObjectByHandle w.ob handle desired type out).2.1, a) ∧
          (obReferenceObjectByHandle w.ob handle desired type out).2.2 =
            obReferenceObject w.ob
              (obReferenceObjectByHandle w.ob handle desired type out).2.1) ∧
      (∀ o s', obReferenceObjectByHandle w.ob handle desired type out = (statusSuccess, o, s') →
        (s'.headers o).pointerCount = Int.bmod ((w.ob.headers o).pointerCount + 1) (2 ^ 32) ∧
          ∀ p, p ≠ o → s'.headers p = w.ob.headers p) ∧
      ((obReferenceObjectByHandle w.ob handle desired type out).1 ≠ statusSuccess →
        (obReferenceObjectByHandle w.ob handle desired type out).2.2 = w.ob)) ∧
    (∀ handle,
      ((obCloseHandle w.ob handle).1 = statusSuccess ↔ w.map handle ≠ none) ∧
      ((obCloseHandle w.ob handle).1 = statusSuccess →
        tableMap (obCloseHandle w.ob handle).2 = Function.update w.map handle none) ∧
      ((obCloseHandle w.ob handle).1 ≠ statusSuccess → (obCloseHandle w.ob handle).2 = w.ob)) := by
  have agrees : w.Agrees := run.invariant (fun _ start => start.agrees)
    (fun _ _ _ agrees step => agrees.step step)
  rw [agrees]
  refine ⟨?_, ?_, ?_, ?_⟩
  · intro object access out ho hout
    exact create_spec w.ob access ho hout
  · exact create_fails w.ob
  · intro handle desired type out hout
    obtain ⟨opens, found, missing⟩ := reference_spec w.ob handle desired type hout
    refine ⟨opens, found, fun o s' result => ?_, missing⟩
    rw [result] at found
    obtain ⟨_, -, same⟩ := found rfl
    have referenced : s' = obReferenceObject w.ob o := same
    exact referenced ▸ obReferenceObject_counts w.ob o
  · exact close_spec w.ob

/-- A table with every slot free, over objects of type 1. -/
def freshTable : Table where
  ob := ⟨fun _ => newHeader 1, fun _ => true, fun _ => ⟨0, 0⟩, fun _ => .empty, 8, 1, false, []⟩
  map := fun _ => none

/-- The first handle of a fresh table, given for full access, is looked up for
any access. The look-up counts as one reference more. -/
theorem handle_table_refines_map_fresh :
    (obCreateHandle freshTable.ob 16 genericAll 1).1 = statusSuccess ∧
      (obCreateHandle freshTable.ob 16 genericAll 1).2.1 ≠ 0 ∧
      (obReferenceObjectByHandle (obCreateHandle freshTable.ob 16 genericAll 1).2.2
        (obCreateHandle freshTable.ob 16 genericAll 1).2.1 5#32 0 1).1 = statusSuccess ∧
      ((obReferenceObjectByHandle (obCreateHandle freshTable.ob 16 genericAll 1).2.2
        (obCreateHandle freshTable.ob 16 genericAll 1).2.1 5#32 0 1).2.2.headers 16).pointerCount =
          Int.bmod (((obCreateHandle freshTable.ob 16 genericAll 1).2.2.headers 16).pointerCount + 1)
            (2 ^ 32) := by
  have start : Runs.Reachable Table.Start Table.Step freshTable :=
    .of_initial ⟨fun _ => rfl, rfl⟩
  have created := (handle_table_refines_map start).1 16 genericAll 1 (by decide) (by decide)
  have room : openHandles freshTable.map < obMaxHandles := by
    simp [openHandles, freshTable, obMaxHandles]
  have success := created.1.mpr room
  generalize hr : obCreateHandle freshTable.ob 16 genericAll 1 = r at created success ⊢
  have step : Table.Step freshTable (.create 16 genericAll 1)
      ⟨r.2.2, Function.update freshTable.map r.2.1 (some (16, genericAll))⟩ := by
    refine ⟨?_, ?_⟩
    · rw [hr]
    · rw [hr, if_pos success]
  obtain ⟨lookup, found, counts, -⟩ :=
    (handle_table_refines_map (start.next step)).2.2.1 r.2.1 5#32 0 1 (by decide)
  have done := lookup.mpr ⟨16, genericAll, Function.update_self .., .inl rfl,
    fun _ _ => .inl (by decide)⟩
  obtain ⟨_, mapped, -⟩ := found done
  have here := Function.update_self r.2.1 (some (16, genericAll)) freshTable.map
  have object := congrArg Prod.fst (Option.some.inj (here.symm.trans mapped))
  have counted := (counts _ _ (Prod.ext done rfl)).1
  rw [← object] at counted
  exact ⟨success, (created.2 success).1, done, counted⟩

end Ob
