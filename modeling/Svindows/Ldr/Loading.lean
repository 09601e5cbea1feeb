import Svindows.Ldr.ImageRanges
import Svindows.Ldr.Loader

/-!
# What a load leaves behind

Whatever the loader does, the modules in its table stay where they are, and the
slots in use come before the free ones. A module that is in the table is returned
from there, in the state in which it was asked for.
-/

namespace Ldr

open Nt ByteMemory Rtl Partial

theorem toLower_eq_zero (c : UInt8) : toLower c = 0 ↔ c = 0 := by
  have all : ∀ n : Fin 256, toLower (UInt8.ofNat n.val) = 0 ↔ UInt8.ofNat n.val = 0 := by
    decide +kernel
  simpa using all ⟨c.toNat, c.toNat_lt⟩

theorem toLower_toNat_ne_zero {c : UInt8} {cs : List UInt8} (h : 0 ∉ c :: cs) :
    (toLower c).toNat ≠ 0 := by
  intro zero
  have nul : c = 0 := (toLower_eq_zero c).mp (UInt8.toNat_inj.mp zero)
  exact h (nul ▸ List.mem_cons_self)

theorem ciCompare_eq_zero {as bs : List UInt8} (ha : 0 ∉ as) (hb : 0 ∉ bs) :
    ciCompare as bs = 0 ↔ as.map toLower = bs.map toLower := by
  induction as generalizing bs with
  | nil =>
    cases bs with
    | nil => simp [ciCompare]
    | cons b bs =>
      have letter := toLower_toNat_ne_zero hb
      simp only [ciCompare, List.map_nil, List.map_cons]
      constructor
      · intro h
        omega
      · intro h
        cases h
  | cons a as ih =>
    cases bs with
    | nil =>
      have letter := toLower_toNat_ne_zero ha
      simp only [ciCompare, List.map_nil, List.map_cons]
      constructor
      · intro h
        omega
      · intro h
        cases h
    | cons b bs =>
      have rest := ih (fun mem => ha (List.mem_cons_of_mem _ mem))
        (fun mem => hb (List.mem_cons_of_mem _ mem))
      simp only [ciCompare, List.map_cons, List.cons.injEq]
      by_cases same : toLower a = toLower b
      · rw [if_neg (not_not.mpr same), rest]
        exact ⟨fun h => ⟨same, h⟩, fun h => h.2⟩
      · rw [if_pos same]
        have differ : (toLower a).toNat ≠ (toLower b).toNat := fun h => same (UInt8.toNat_inj.mp h)
        constructor
        · intro h
          omega
        · intro h
          exact absurd h.1 same

theorem ciStrcmp_eq_zero (a b : CString) :
    ciStrcmp a b = 0 ↔ a.bytes.map toLower = b.bytes.map toLower :=
  ciCompare_eq_zero a.noNul b.noNul

/-- The first slot that holds a name. -/
def slotOf (table : ModuleTable) (name : CString) : Option Nat :=
  slots.find? fun i => (table i).valid && ciStrcmp name (table i).name == 0

/-- The slots in use come first. -/
def Packed (table : ModuleTable) : Prop :=
  ∀ i j, i < j → j < maxLoadedModules → (table j).valid = true → (table i).valid = true

def HasRoom (table : ModuleTable) : Prop := ∃ i, i < maxLoadedModules ∧ (table i).valid = false

variable {table table' table'' : ModuleTable} {name name' : CString} {base i : Nat}

theorem lookupModule_eq (table : ModuleTable) (name : CString) :
    lookupModule table name = ((slotOf table name).map fun i => (table i).base).getD 0 := by
  rw [lookupModule, slotOf]
  cases slots.find? _ <;> rfl

theorem slotOf_eq_some : slotOf table name = some i ↔
    i < maxLoadedModules ∧ (table i).valid = true ∧ ciStrcmp name (table i).name = 0 ∧
      ∀ j < i, (table j).valid = true → ciStrcmp name (table j).name ≠ 0 := by
  rw [slotOf, slots, List.find?_range_eq_some]
  simp only [Bool.and_eq_true, beq_iff_eq, List.mem_range, Bool.not_eq_true', Bool.and_eq_false_iff,
    beq_eq_false_iff_ne]
  constructor
  · rintro ⟨⟨valid, same⟩, small, before⟩
    refine ⟨small, valid, same, fun j hj used => ?_⟩
    rcases before j hj with free | other
    · rw [used] at free
      cases free
    · exact other
  · rintro ⟨small, valid, same, before⟩
    refine ⟨⟨valid, same⟩, small, fun j hj => ?_⟩
    cases used : (table j).valid with
    | false => exact .inl rfl
    | true => exact .inr (before j hj used)

/-- Names that are equal without case are found in the same slot. -/
theorem slotOf_congr (same : ciStrcmp name name' = 0) (table : ModuleTable) :
    slotOf table name = slotOf table name' := by
  have letters := (ciStrcmp_eq_zero name name').mp same
  have test : ∀ i, (ciStrcmp name (table i).name == 0) = (ciStrcmp name' (table i).name == 0) := by
    intro i
    rw [Bool.eq_iff_iff, beq_iff_eq, beq_iff_eq, ciStrcmp_eq_zero, ciStrcmp_eq_zero, letters]
  simp only [slotOf, test]

/-- The fields of a slot are as wide as in `LDR_LOADED`. -/
def FieldsFit (table : ModuleTable) : Prop :=
  ∀ i, (table i).valid = true → (table i).base < 2 ^ 64 ∧ (table i).name.bytes.length ≤ 31

/-- Modules stay in the table, it stays packed, and what it holds fits. -/
structure TableGrows (table table' : ModuleTable) : Prop where
  kept : ∀ i, (table i).valid = true → (table' i).valid = true ∧
    (table' i).name = (table i).name ∧ (table' i).base = (table i).base
  packed : Packed table → Packed table'
  fit : FieldsFit table → FieldsFit table'

theorem TableGrows.refl (table : ModuleTable) : TableGrows table table :=
  ⟨fun _ valid => ⟨valid, rfl, rfl⟩, id, id⟩

theorem TableGrows.trans (first : TableGrows table table') (second : TableGrows table' table'') :
    TableGrows table table'' where
  kept i valid := by
    obtain ⟨valid', name', base'⟩ := first.kept i valid
    obtain ⟨valid'', name'', base''⟩ := second.kept i valid'
    exact ⟨valid'', name''.trans name', base''.trans base'⟩
  packed := second.packed ∘ first.packed
  fit := second.fit ∘ first.fit

theorem TableGrows.slotOf (grows : TableGrows table table') (packed : Packed table)
    (h : slotOf table name = some i) :
    slotOf table' name = some i ∧ (table' i).base = (table i).base := by
  obtain ⟨small, valid, same, before⟩ := slotOf_eq_some.mp h
  obtain ⟨valid', name', base'⟩ := grows.kept i valid
  refine ⟨slotOf_eq_some.mpr ⟨small, valid', name' ▸ same, fun j hj _ => ?_⟩, base'⟩
  have used := packed j i hj small valid
  rw [(grows.kept j used).2.1]
  exact before j hj used

theorem TableGrows.of_fields (fields : ∀ k, (table' k).valid = (table k).valid ∧
    (table' k).name = (table k).name ∧ (table' k).base = (table k).base) :
    TableGrows table table' where
  kept k valid := ⟨(fields k).1.trans valid, (fields k).2⟩
  packed packed i j lt small valid := by
    rw [(fields i).1]
    exact packed i j lt small ((fields j).1 ▸ valid)
  fit fit i valid := by
    obtain ⟨valid', name', base'⟩ := fields i
    rw [name', base']
    exact fit i (valid' ▸ valid)

theorem rememberDependency_grows (table : ModuleTable) (importer dependency : Nat) :
    TableGrows table (rememberDependency table importer dependency) := by
  rw [rememberDependency]
  split
  · exact .refl _
  · split
    · rename_i i j _ _
      refine .of_fields fun k => ?_
      by_cases here : k = i
      · subst here
        simp
      · simp [here]
    · exact .refl _

theorem rememberModule_eq (room : HasRoom table) (name : CString) (base : Nat) :
    ∃ i, i < maxLoadedModules ∧ (table i).valid = false ∧ (∀ j < i, (table j).valid = true) ∧
      rememberModule table name base =
        Function.update table i { table i with name := name.take 31, base := base, valid := true } := by
  obtain ⟨k, small, free⟩ := room
  cases first : slots.find? fun i => !(table i).valid with
  | none =>
    have used := List.find?_eq_none.mp first k (List.mem_range.mpr small)
    simp [free] at used
  | some i =>
    have here := List.find?_range_eq_some.mp first
    simp only [Bool.not_eq_true', List.mem_range, Bool.not_eq_false'] at here
    exact ⟨i, here.2.1, here.1, fun j hj => by simpa using here.2.2 j hj, by rw [rememberModule, first]⟩

theorem rememberModule_full (full : ¬ HasRoom table) (name : CString) (base : Nat) :
    rememberModule table name base = table := by
  rw [rememberModule]
  cases first : slots.find? fun i => !(table i).valid with
  | none => rfl
  | some i =>
    have here := List.find?_range_eq_some.mp first
    simp only [Bool.not_eq_true', List.mem_range] at here
    exact absurd ⟨i, here.2.1, here.1⟩ full

theorem rememberModule_grows (table : ModuleTable) (name : CString) {base : Nat}
    (word : base < 2 ^ 64) : TableGrows table (rememberModule table name base) := by
  by_cases room : HasRoom table
  · obtain ⟨i, small, free, before, eq⟩ := rememberModule_eq room name base
    rw [eq]
    have elsewhere : ∀ k, (table k).valid = true → k ≠ i := by
      rintro k valid rfl
      rw [valid] at free
      cases free
    refine ⟨fun k valid => ?_, fun packed k l lt bound valid => ?_, fun fit k valid => ?_⟩
    · rw [Function.update_of_ne (elsewhere k valid)]
      exact ⟨valid, rfl, rfl⟩
    · by_cases here : k = i
      · rw [here, Function.update_self]
      · rw [Function.update_of_ne here]
        by_cases there : l = i
        · exact before k (there ▸ lt)
        · rw [Function.update_of_ne there] at valid
          exact packed k l lt bound valid
    · by_cases here : k = i
      · rw [here, Function.update_self]
        exact ⟨word, by simp [CString.take]⟩
      · rw [Function.update_of_ne here] at valid ⊢
        exact fit k valid
  · rw [rememberModule_full room]
    exact .refl table

theorem take_of_length {s : CString} {n : Nat} (h : s.bytes.length ≤ n) : s.take n = s :=
  CString.ext (List.take_of_length_le h)

theorem slotOf_rememberModule (room : HasRoom table) (new : slotOf table name = none)
    (short : name.bytes.length ≤ 31) (base : Nat) :
    ∃ i, slotOf (rememberModule table name base) name = some i ∧
      (rememberModule table name base i).base = base := by
  obtain ⟨i, small, free, before, eq⟩ := rememberModule_eq room name base
  rw [eq, take_of_length short]
  refine ⟨i, slotOf_eq_some.mpr ⟨small, by rw [Function.update_self], ?_, fun j hj _ => ?_⟩,
    by rw [Function.update_self]⟩
  · rw [Function.update_self, ciStrcmp_eq_zero]
  · rw [Function.update_of_ne (Nat.ne_of_lt hj)]
    intro same
    have none_ := List.find?_eq_none.mp new j (List.mem_range.mpr (hj.trans small))
    simp [before j hj, same] at none_

/-- The loader is as deep as before, and its table has grown. -/
structure Grows (s t : LinkState) : Prop where
  depth : t.depth = s.depth
  table : TableGrows s.table t.table

instance : Std.Refl Grows := ⟨fun s => ⟨rfl, .refl s.table⟩⟩

instance : IsTrans LinkState Grows :=
  ⟨fun _ _ _ first second => ⟨second.depth.trans first.depth, first.table.trans second.table⟩⟩

theorem getMemory_grows : Keeps Grows getMemory := Keeps.bind .get fun _ => .pure _

theorem setImage_grows (image : LdrState) : Keeps Grows (setImage image) :=
  .modify fun s => ⟨rfl, .refl s.table⟩

theorem modifyTable_grows {f : ModuleTable → ModuleTable} (h : ∀ table, TableGrows table (f table)) :
    Keeps Grows (modifyTable f) :=
  .modify fun s => ⟨rfl, h s.table⟩

theorem writeAt_grows (p n v : Nat) : Keeps Grows (writeAt p n v) :=
  Keeps.bind .get fun _ => setImage_grows _

theorem when_grows {p : Prop} [Decidable p] {x : LdrM Unit} (h : Keeps Grows x) :
    Keeps Grows (when_ p x) :=
  .ite h (.pure _)

theorem probeForWrite_grows (va n : Nat) : Keeps Grows (probeForWrite va n) :=
  Keeps.bind .get fun _ => .pure _

theorem ldrpEnsureStubArena_grows : Keeps Grows ldrpEnsureStubArena := by
  refine Keeps.bind .get fun s => .ite (.pure _) ?_
  refine .bind (.lift _) fun mapped => .bind (setImage_grows _) fun _ => .ite (.pure _) ?_
  exact .bind (.modify fun s => ⟨rfl, .refl s.table⟩) fun _ => .pure _

theorem ldrpImportStub_grows : Keeps Grows ldrpImportStub := by
  refine ldrpEnsureStubArena_grows.bind fun _ => .ite (.pure _) ?_
  refine .bind .get fun _ => .ite (.pure _) ?_
  exact .bind (.modify fun s => ⟨rfl, .refl s.table⟩) fun _ => (writeAt_grows _ _ _).bind fun _ => .pure _

structure Calls.Grow (c : Calls) : Prop where
  load : ∀ name, Keeps Grows (c.ldrpLoadModule name)
  byName : ∀ base name, Keeps Grows (c.ldrGetProcAddress base name)
  byOrdinal : ∀ base n, Keeps Grows (c.ldrpProcByOrdinal base n)

variable {c : Calls} (h : c.Grow)

theorem readString_grows (c : Calls) (a : Nat) : Keeps Grows (readString c a) :=
  getMemory_grows.bind fun _ => .lift _

include h

theorem Calls.Grow.proc (base : Nat) (key : ProcKey) : Keeps Grows (c.proc base key) := by
  cases key with
  | name s => exact h.byName base s
  | ordinal n => exact h.byOrdinal base n

theorem ldrpExportRvaToAddress_grows (base rva : Nat) (dir : DataDirectory) :
    Keeps Grows (ldrpExportRvaToAddress c base rva dir) := by
  refine .ite ((readString_grows c _).bind fun text => ?_) (.pure _)
  cases parseForwarder text with
  | none => exact .pure _
  | some target => exact (h.load _).bind fun base => .ite (.pure _) (h.proc base _)

theorem ldrGetProcAddress_grows (base : Nat) (name : CString) :
    Keeps Grows (ldrGetProcAddress c base name) := by
  refine getMemory_grows.bind fun m => ?_
  cases ntHeaders m base with
  | none => exact .pure _
  | some nt =>
    refine .ite (.pure _) ?_
    cases rvaByName m base (base + (dataDirectory m nt directoryEntryExport).virtualAddress) name with
    | none => exact .pure _
    | some rva => exact ldrpExportRvaToAddress_grows h base rva _

theorem ldrpProcByOrdinal_grows (base ordinal : Nat) :
    Keeps Grows (ldrpProcByOrdinal c base ordinal) := by
  refine getMemory_grows.bind fun m => .bind (.lift _) fun nt => .ite (.pure _) ?_
  cases rvaByOrdinal m base (base + (dataDirectory m nt directoryEntryExport).virtualAddress)
    ordinal with
  | none => exact .pure _
  | some rva => exact ldrpExportRvaToAddress_grows h base rva _

theorem loadDependency_grows (base : Nat) (dll : CString) :
    Keeps Grows (loadDependency c base dll) :=
  Keeps.bind .get fun _ => .ite (.pure _) <| (h.load dll).bind fun _ =>
    (modifyTable_grows fun _ => rememberDependency_grows _ _ _).bind fun _ => .pure _

theorem procIfLoaded_grows (base : Nat) (key : ProcKey) : Keeps Grows (procIfLoaded c base key) :=
  .ite (.pure _) (h.proc base key)

theorem importFrom_grows (dll : CString) (dllBase : Nat) (name : CString) :
    Keeps Grows (importFrom c dll dllBase name) :=
  (procIfLoaded_grows h _ _).bind fun _ => .bind .get fun _ => .ite (h.byName _ _) (.pure _)

theorem importByName_grows (dll : CString) (dllBase : Nat) (name : CString) :
    Keeps Grows (importByName c dll dllBase name) :=
  (importFrom_grows h _ _ _).bind fun _ =>
    .ite (.bind .get fun _ => procIfLoaded_grows h _ _) (.pure _)

theorem resolveThunks_grows (dllBase names iat : Nat) (hint : Nat → Nat)
    {byName : CString → LdrM Nat} (grows : ∀ s, Keeps Grows (byName s)) :
    Keeps Grows (resolveThunks c dllBase names iat hint byName) := by
  have address : ∀ thunk, Keeps Grows (thunkAddress c dllBase hint byName thunk) := fun _ =>
    .ite (procIfLoaded_grows h _ _) ((readString_grows c _).bind grows)
  have stub : ∀ found, Keeps Grows (addressOrStub found) := fun _ =>
    .ite ldrpImportStub_grows (.pure _)
  refine .loop (fun i => getMemory_grows.bind fun _ => .ite (.pure _) ?_) _ _
  exact (address _).bind fun found => (stub found).bind fun _ =>
    (writeAt_grows _ _ _).bind fun _ => .pure _

theorem ldrResolveImports_grows (base : Nat) : Keeps Grows (ldrResolveImports c base) := by
  have descriptor : ∀ desc, Keeps Grows (resolveImport c base desc) := fun _ =>
    getMemory_grows.bind fun _ => (readString_grows c _).bind fun _ =>
      (loadDependency_grows h _ _).bind fun _ => getMemory_grows.bind fun _ =>
        resolveThunks_grows h _ _ _ _ (importByName_grows h _ _)
  refine getMemory_grows.bind fun m => .bind (.lift _) fun nt => .ite (.pure _) ?_
  refine .loop (fun desc => getMemory_grows.bind fun _ => .ite (.pure _) ?_) _ _
  exact (descriptor desc).bind fun _ => .pure _

theorem ldrResolveDelayImports_grows (base : Nat) : Keeps Grows (ldrResolveDelayImports c base) := by
  have descriptor : ∀ desc, Keeps Grows (resolveDelayImport c base desc) := fun _ =>
    getMemory_grows.bind fun _ => (readString_grows c _).bind fun _ =>
      (loadDependency_grows h _ _).bind fun _ => getMemory_grows.bind fun _ =>
        (when_grows (writeAt_grows _ _ _)).bind fun _ =>
          resolveThunks_grows h _ _ _ _ (importFrom_grows h _ _)
  refine getMemory_grows.bind fun m => .bind (.lift _) fun nt => .ite (.pure _) ?_
  refine .loop (fun d => getMemory_grows.bind fun _ => .ite (.pure _) (.ite (.pure _) ?_)) _ _
  exact (descriptor _).bind fun _ => .pure _

theorem patchImage_grows (name : CString) (base : Nat) : Keeps Grows (patchImage c name base) := by
  refine .ite (writeAt_grows _ _ _) (.ite ?_ (.pure _))
  exact (h.byName _ _).bind fun _ => (when_grows (writeAt_grows _ _ _)).bind fun _ =>
    (h.byName _ _).bind fun _ => (probeForWrite_grows _ _).bind fun _ =>
      when_grows (writeAt_grows _ _ _)

omit h in
theorem setGuardPointer_grows (slot target : Nat) : Keeps Grows (setGuardPointer slot target) :=
  (probeForWrite_grows _ _).bind fun _ => when_grows (writeAt_grows _ _ _)

omit h in
theorem ldrpInitializeGuardPointers_grows (base : Nat) :
    Keeps Grows (ldrpInitializeGuardPointers base) := by
  refine getMemory_grows.bind fun m => .bind (.lift _) fun nt => .ite (.pure _) ?_
  refine ldrpEnsureStubArena_grows.bind fun _ => .ite (.pure _) ?_
  exact getMemory_grows.bind fun _ => (setGuardPointer_grows _ _).bind fun _ =>
    setGuardPointer_grows _ _

theorem linkImage_grows (base : Nat) : Keeps Grows (linkImage c base) := by
  refine (ldrResolveImports_grows h base).bind fun _ => .ite (.pure _) ?_
  refine (ldrResolveDelayImports_grows h base).bind fun _ => .ite (.pure _) ?_
  refine (ldrpInitializeGuardPointers_grows base).bind fun _ => .bind ?_ fun _ => .pure _
  exact .bind .get fun _ => .bind (.lift _) fun _ => setImage_grows _

theorem finishLoad_grows (name : CString) {base : Nat} (word : base < 2 ^ 64) :
    Keeps Grows (finishLoad c name base) :=
  (modifyTable_grows fun _ => rememberModule_grows _ _ word).bind fun _ =>
    (patchImage_grows h _ _).bind fun _ => (linkImage_grows h _).bind fun _ =>
      .ite (.pure _) (.pure _)

variable (volume : CString → Option PeFile) (rounds : Nat)

omit h in
theorem mapFile_grows (file : PeFile) : Keeps Grows (mapFile rounds file) :=
  Keeps.bind .get fun _ => .bind (.lift _) fun _ => .bind (.lift _) fun _ =>
    (setImage_grows _).bind fun _ => .pure _

omit h in
theorem mapFile_base (file : PeFile) (s : LinkState) (r : NtStatus × Nat) (t : LinkState)
    (run : mapFile rounds file s = some (r, t)) : r.2 < 2 ^ 64 := by
  obtain ⟨_, _, _, run⟩ := bind_eq_some.mp run
  obtain ⟨mapped, _, lifted, run⟩ := bind_eq_some.mp run
  obtain ⟨_, map, same⟩ := Option.map_eq_some_iff.mp lifted
  cases same
  obtain ⟨_, _, _, run⟩ := bind_eq_some.mp run
  obtain ⟨_, _, _, run⟩ := bind_eq_some.mp run
  cases run
  exact ldrpMapImage_base map

theorem ldrpLoadModuleWorker_grows (name : CString) :
    Keeps Grows (ldrpLoadModuleWorker c volume rounds name) := by
  simp only [ldrpLoadModuleWorker]
  cases hostOf name with
  | some host => exact h.load host
  | none =>
    refine .bind .get fun s => .ite (.pure _) ?_
    simp only [loadFile]
    cases volume name with
    | none => exact .pure _
    | some file =>
      exact (mapFile_grows rounds file).bind_of (mapFile_base rounds file) fun _ word =>
        .ite (.pure _) (finishLoad_grows h _ word)

omit h

/-- A load is deeper by one while it is under way. -/
theorem ldrpLoadModule_eq (c : Calls) (name : CString) (s : LinkState) :
    ldrpLoadModule c volume rounds name s =
      if maxDependencyDepth ≤ s.depth then some (0, s)
      else (ldrpLoadModuleWorker c volume rounds name { s with depth := s.depth + 1 }).map fun r =>
        (r.1, { r.2 with depth := r.2.depth - 1 }) := by
  have start : (get : LdrM LinkState) s = some (s, s) := rfl
  rw [ldrpLoadModule, bind_of_some start]
  split
  · rfl
  · have deeper : (modify fun s => { s with depth := s.depth + 1 } : LdrM PUnit) s =
        some (⟨⟩, { s with depth := s.depth + 1 }) := rfl
    rw [bind_of_some deeper]
    cases result : ldrpLoadModuleWorker c volume rounds name { s with depth := s.depth + 1 } with
    | none => rw [bind_none result, Option.map_none]
    | some r =>
      rw [bind_of_some result]
      rfl

include h in
theorem ldrpLoadModule_grows (name : CString) :
    Keeps Grows (ldrpLoadModule c volume rounds name) := by
  intro s a t run
  rw [ldrpLoadModule_eq] at run
  split at run
  · cases run
    exact Std.Refl.refl s
  · obtain ⟨⟨a', u⟩, worker, same⟩ := Option.map_eq_some_iff.mp run
    cases same
    have grows := ldrpLoadModuleWorker_grows h volume rounds name _ _ _ worker
    refine ⟨?_, grows.table⟩
    change u.depth - 1 = s.depth
    rw [grows.depth, Nat.add_sub_cancel]

theorem calls_grow (fuel : Nat) : (calls volume rounds fuel).Grow := by
  induction fuel with
  | zero => exact ⟨fun _ => .failure, fun _ _ => .failure, fun _ _ => .failure⟩
  | succ fuel ih =>
    exact ⟨ldrpLoadModule_grows ih volume rounds, ldrGetProcAddress_grows ih,
      ldrpProcByOrdinal_grows ih⟩

/-- The name under which a module is looked up and loaded. -/
def routed (name : CString) : CString := (hostOf name).getD name

variable {volume rounds} {s t : LinkState} {b : Nat}

theorem own_cached (c : Calls) (shallow : s.depth < maxDependencyDepth) (own : hostOf name = none)
    (cached : lookupModule s.table name ≠ 0) :
    ldrpLoadModule c volume rounds name s = some (lookupModule s.table name, s) := by
  rw [ldrpLoadModule_eq, if_neg (Nat.not_le.mpr shallow)]
  simp only [ldrpLoadModuleWorker, own]
  have start : (get : LdrM LinkState) { s with depth := s.depth + 1 } =
      some ({ s with depth := s.depth + 1 }, { s with depth := s.depth + 1 }) := rfl
  rw [bind_of_some start, if_pos cached]
  rfl

/-- An alias is loaded as its host, one level deeper. -/
theorem alias_eq {host : CString} (fuel : Nat) (shallow : s.depth < maxDependencyDepth)
    (alias_ : hostOf name = some host) :
    (calls volume rounds (fuel + 1)).ldrpLoadModule name s =
      ((calls volume rounds fuel).ldrpLoadModule host { s with depth := s.depth + 1 }).map fun r =>
        (r.1, { r.2 with depth := r.2.depth - 1 }) := by
  change ldrpLoadModule (calls volume rounds fuel) volume rounds name s = _
  rw [ldrpLoadModule_eq, if_neg (Nat.not_le.mpr shallow)]
  simp only [ldrpLoadModuleWorker, alias_]

theorem load_cached (fuel : Nat) (shallow : s.depth + 1 < maxDependencyDepth)
    (cached : lookupModule s.table (routed name) ≠ 0) :
    (calls volume rounds (fuel + 2)).ldrpLoadModule name s =
      some (lookupModule s.table (routed name), s) := by
  cases alias_ : hostOf name with
  | none =>
    simp only [routed, alias_, Option.getD_none] at cached ⊢
    exact own_cached _ (by omega) alias_ cached
  | some host =>
    simp only [routed, alias_, Option.getD_some] at cached ⊢
    have host_ : (calls volume rounds (fuel + 1)).ldrpLoadModule host { s with depth := s.depth + 1 } =
        some (lookupModule s.table host, { s with depth := s.depth + 1 }) :=
      own_cached _ shallow (hostOf_hostOf alias_) cached
    rw [alias_eq _ (by omega) alias_, host_]
    rfl

theorem own_new (c : Calls) (shallow : s.depth < maxDependencyDepth) (own : hostOf name = none)
    (new : lookupModule s.table name = 0) :
    ldrpLoadModule c volume rounds name s =
      (loadFile c volume rounds name { s with depth := s.depth + 1 }).map fun r =>
        (r.1, { r.2 with depth := r.2.depth - 1 }) := by
  rw [ldrpLoadModule_eq, if_neg (Nat.not_le.mpr shallow)]
  simp only [ldrpLoadModuleWorker, own]
  have start : (get : LdrM LinkState) { s with depth := s.depth + 1 } =
      some ({ s with depth := s.depth + 1 }, { s with depth := s.depth + 1 }) := rfl
  rw [bind_of_some start, if_neg (not_not.mpr new)]

theorem own_cases (c : Calls) (shallow : s.depth < maxDependencyDepth) (own : hostOf name = none)
    (run : ldrpLoadModule c volume rounds name s = some (b, t)) :
    (lookupModule s.table name ≠ 0 ∧ b = lookupModule s.table name ∧ t = s) ∨
      (lookupModule s.table name = 0 ∧
        ∃ u, loadFile c volume rounds name { s with depth := s.depth + 1 } = some (b, u) ∧
          t = { u with depth := u.depth - 1 }) := by
  by_cases new : lookupModule s.table name = 0
  · rw [own_new c shallow own new] at run
    obtain ⟨⟨b', u⟩, load, same⟩ := Option.map_eq_some_iff.mp run
    cases same
    exact .inr ⟨new, u, load, rfl⟩
  · rw [own_cached c shallow own new] at run
    cases run
    exact .inl ⟨new, rfl, rfl⟩

/-- A load that is not refused for its depth returns the module that is in the table, or
loads the file under the name that it is routed to. -/
theorem load_cases {fuel : Nat} (shallow : s.depth + 1 < maxDependencyDepth)
    (run : (calls volume rounds fuel).ldrpLoadModule name s = some (b, t)) :
    (lookupModule s.table (routed name) ≠ 0 ∧ b = lookupModule s.table (routed name) ∧ t = s) ∨
      (lookupModule s.table (routed name) = 0 ∧ ∃ fuel d u,
        loadFile (calls volume rounds fuel) volume rounds (routed name) { s with depth := d } =
          some (b, u) ∧ t = { u with depth := s.depth }) := by
  cases fuel with
  | zero => cases run
  | succ fuel =>
    have depth := (calls_grow volume rounds (fuel + 1)).load name s b t run
    cases alias_ : hostOf name with
    | none =>
      simp only [routed, alias_, Option.getD_none]
      rcases own_cases _ (by omega) alias_ run with cached | ⟨new, u, load, rfl⟩
      · exact .inl cached
      · refine .inr ⟨new, fuel, s.depth + 1, u, load, ?_⟩
        rw [← depth.depth]
    | some host =>
      simp only [routed, alias_, Option.getD_some]
      rw [alias_eq _ (by omega) alias_] at run
      obtain ⟨⟨b', v⟩, inner, same⟩ := Option.map_eq_some_iff.mp run
      cases same
      cases fuel with
      | zero => cases inner
      | succ fuel =>
        rcases own_cases _ (by exact shallow) (hostOf_hostOf alias_) inner with
          ⟨cached, rfl, rfl⟩ | ⟨new, u, load, rfl⟩
        · exact .inl ⟨cached, rfl, rfl⟩
        · refine .inr ⟨new, fuel, s.depth + 1 + 1, u, load, ?_⟩
          rw [← depth.depth]

theorem finishLoad_cases {c : Calls} (h : c.Grow) (run : finishLoad c name base s = some (b, t)) :
    (b = 0 ∨ b = base) ∧ Grows { s with table := rememberModule s.table name base } t := by
  have remembered : modifyTable (fun table => rememberModule table name base) s =
      some ((), { s with table := rememberModule s.table name base }) := rfl
  rw [finishLoad, bind_of_some remembered] at run
  obtain ⟨_, u, patch, run⟩ := bind_eq_some.mp run
  obtain ⟨status, v, link, run⟩ := bind_eq_some.mp run
  have grows : Grows { s with table := rememberModule s.table name base } v :=
    IsTrans.trans _ u v (patchImage_grows h name base _ _ _ patch) (linkImage_grows h base _ _ _ link)
  split at run
  · cases run
    exact ⟨.inl rfl, grows⟩
  · cases run
    exact ⟨.inr rfl, grows⟩

theorem loadFile_cases {c : Calls} (run : loadFile c volume rounds name s = some (b, t)) :
    (volume name = none ∧ b = 0 ∧ t = s) ∨
      ∃ file r status, volume name = some file ∧ ldrpMapImage rounds s.image file = some r ∧
        r.status = some status ∧
        ((ntSuccess status = false ∧ b = 0 ∧ t = { s with image := r.state }) ∨
          (ntSuccess status = true ∧
            finishLoad c name r.base { s with image := r.state } = some (b, t))) := by
  simp only [loadFile] at run
  cases there : volume name with
  | none =>
    rw [there] at run
    cases run
    exact .inl ⟨rfl, rfl, rfl⟩
  | some file =>
    rw [there] at run
    obtain ⟨⟨status, base⟩, u, map, run⟩ := bind_eq_some.mp run
    have start : (get : LdrM LinkState) s = some (s, s) := rfl
    rw [mapFile, bind_of_some start] at map
    obtain ⟨r, v, lifted, map⟩ := bind_eq_some.mp map
    obtain ⟨_, mapped, same⟩ := Option.map_eq_some_iff.mp lifted
    cases same
    obtain ⟨status', w, lifted, map⟩ := bind_eq_some.mp map
    obtain ⟨_, returned, same⟩ := Option.map_eq_some_iff.mp lifted
    cases same
    have stored : setImage r.state s = some ((), { s with image := r.state }) := rfl
    rw [bind_of_some stored] at map
    cases map
    refine .inr ⟨file, r, status, rfl, mapped, returned, ?_⟩
    simp only [] at run
    split at run
    · rename_i failed
      cases run
      exact .inl ⟨failed, rfl, rfl⟩
    · rename_i succeeded
      exact .inr ⟨by simpa using succeeded, run⟩

end Ldr
