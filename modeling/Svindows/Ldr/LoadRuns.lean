import Svindows.Ldr.ImageRanges
import Svindows.Ldr.InitOrder
import Svindows.Ldr.Loading
import Svindows.Lib.Runs

/-!
# Loading a module again

The loader's entry points, in any order and with anything happening to memory
between them. A module that was loaded is found again under every spelling that is
routed the same way, if its name was kept whole in a slot of the table.
-/

namespace Ldr

open Nt ByteMemory Rtl Partial Relation

def initBlockVa : Nat := 0x90000

/-- The block as it lies in its page. -/
def initBlockMemory (block : InitBlock) (m : Memory) : Memory :=
  let m := putBytes m initBlockVa pageSize fun _ => 0
  let m := putAt m initBlockVa 8 block.finalEntry
  let m := putAt m (initBlockVa + 8) 8 block.entries.length
  (block.entries.zipIdx.foldl fun m entry =>
    let at_ := initBlockVa + 16 + 16 * entry.2
    putAt (putAt m at_ 8 entry.1.moduleBase) (at_ + 8) 8 entry.1.entryPoint) m

/-- `LdrpBuildInitBlock` with its page; whether there is a thunk to start in. -/
def prepareStart (c : Calls) (executableEntry : Nat) : LdrM Bool := do
  let s ← get
  match s.image.vm.frames with
  | [] => pure false
  | pa :: frames => do
    let (done, vm) ← lift (Mm.mmMapPage { s.image.vm with frames := frames }
      (BitVec.ofNat 64 initBlockVa) pa (Mm.pteUser ||| Mm.pteWrite))
    setImage { s.image with vm := vm }
    if done = false then pure false
    else do
      let block ← lift (ldrpBuildInitBlock s.table s.image.mem c.turns executableEntry)
      setImage { s.image with vm := vm, mem := initBlockMemory block s.image.mem }
      let thunk ← procIfLoaded c (lookupModule s.table (.lit "ntdll.dll"))
        (.name (.lit "LdrInitializeProcess"))
      pure (thunk ≠ 0)

/-- `LdrLoadExecutable`; whether it succeeds. -/
def ldrLoadExecutable (c : Calls) (volume : CString → Option PeFile) (rounds : Nat)
    (filename : CString) : LdrM Bool :=
  match volume filename with
  | none => pure false
  | some file => do
    let (status, base) ← mapFile rounds file
    if ntSuccess status = false then pure false
    else do
      modifyTable fun table => rememberModule table filename base
      let status ← linkImage c base
      if ntSuccess status = false then pure false
      else do
        let m ← getMemory
        prepareStart c (wrap64 (base + entryRva m base))

theorem prepareStart_grows {c : Calls} (h : c.Grow) (executableEntry : Nat) :
    Keeps Grows (prepareStart c executableEntry) := by
  refine Keeps.bind .get fun s => ?_
  cases s.image.vm.frames with
  | nil => exact .pure _
  | cons pa frames =>
    refine .bind (.lift _) fun mapped => (setImage_grows _).bind fun _ => .ite (.pure _) ?_
    exact .bind (.lift _) fun _ => (setImage_grows _).bind fun _ =>
      (procIfLoaded_grows h _ _).bind fun _ => .pure _

theorem ldrLoadExecutable_grows {c : Calls} (h : c.Grow) (volume : CString → Option PeFile)
    (rounds : Nat) (filename : CString) :
    Keeps Grows (ldrLoadExecutable c volume rounds filename) := by
  rw [ldrLoadExecutable]
  cases volume filename with
  | none => exact .pure _
  | some file =>
    refine (mapFile_grows rounds file).bind_of (mapFile_base rounds file) fun _ word =>
      .ite (.pure _) ?_
    refine (modifyTable_grows fun _ => rememberModule_grows _ _ word).bind fun _ => ?_
    refine (linkImage_grows h _).bind fun _ => .ite (.pure _) ?_
    exact getMemory_grows.bind fun _ => prepareStart_grows h _

inductive LinkOp where
  | load (volume : CString → Option PeFile) (rounds fuel : Nat) (name : CString)
  | execute (volume : CString → Option PeFile) (rounds fuel : Nat) (filename : CString)
  | lookup (volume : CString → Option PeFile) (rounds fuel base : Nat) (key : ProcKey)
  /-- Programs and the rest of the kernel. -/
  | other (stubs : StubArena) (image : LdrState)

def LinkStart (s : LinkState) : Prop := (∀ i, (s.table i).valid = false) ∧ s.depth = 0

def LinkStep (s : LinkState) : LinkOp → LinkState → Prop
  | .load volume rounds fuel name, t => ∃ b, ldrLoadLibrary volume rounds fuel name s = some (b, t)
  | .execute volume rounds fuel filename, t =>
    ∃ r, ldrLoadExecutable (calls volume rounds fuel) volume rounds filename s = some (r, t)
  | .lookup volume rounds fuel base key, t =>
    ∃ a, (calls volume rounds fuel).proc base key s = some (a, t)
  | .other stubs image, t => t = { s with stubs := stubs, image := image }

variable {s t u : LinkState}

theorem LinkStep.grows {op : LinkOp} (step : LinkStep s op t) : Grows s t := by
  cases op with
  | load volume rounds fuel name =>
    obtain ⟨b, run⟩ := step
    exact (calls_grow volume rounds fuel).load name s b t run
  | execute volume rounds fuel filename =>
    obtain ⟨r, run⟩ := step
    exact ldrLoadExecutable_grows (calls_grow volume rounds fuel) volume rounds filename s r t run
  | lookup volume rounds fuel base key =>
    obtain ⟨a, run⟩ := step
    exact (calls_grow volume rounds fuel).proc base key s a t run
  | other stubs image =>
    cases step
    exact ⟨rfl, .refl s.table⟩

theorem grows_of_steps (path : ReflTransGen (fun a b => ∃ op, LinkStep a op b) s t) : Grows s t := by
  induction path with
  | refl => exact Std.Refl.refl s
  | tail _ step ih =>
    obtain ⟨op, step⟩ := step
    exact IsTrans.trans _ _ _ ih step.grows

/-- Between calls no load is under way, and the table is packed. -/
structure LinkSound (s : LinkState) : Prop where
  idle : s.depth = 0
  packed : Packed s.table

theorem LinkSound.of_reachable (run : Runs.Reachable LinkStart LinkStep s) : LinkSound s := by
  refine run.invariant ?_ ?_
  · rintro s ⟨empty, idle⟩
    refine ⟨idle, fun i j _ _ used => ?_⟩
    rw [empty j] at used
    cases used
  · intro s op t sound step
    exact ⟨step.grows.depth.trans sound.idle, step.grows.table.packed sound.packed⟩

/-- There is a slot for a new module, and its name is kept whole. -/
structure SlotFor (table : ModuleTable) (name : CString) : Prop where
  new : slotOf table name = none
  room : HasRoom table
  short : name.bytes.length ≤ 31

variable {volume : CString → Option PeFile} {rounds fuel b : Nat} {name name' : CString}

/-- A module with a slot of its own is found in it after its load. -/
theorem remembered {c : Calls} {base : Nat} (word : base < 2 ^ 64) (h : c.Grow)
    (packed : Packed s.table) (fits : SlotFor s.table name) (run : finishLoad c name base s = some (b, t)) :
    ∃ i, slotOf t.table name = some i ∧ (t.table i).base = base := by
  obtain ⟨i, found, base_⟩ := slotOf_rememberModule fits.room fits.new fits.short base
  have grows := (finishLoad_cases h run).2.table
  have packed' := (rememberModule_grows s.table name word).packed packed
  obtain ⟨found', same⟩ := grows.slotOf packed' found
  exact ⟨i, found', same.trans base_⟩

theorem slotOf_of_lookup {table : ModuleTable} (h : lookupModule table name ≠ 0) :
    ∃ i, slotOf table name = some i ∧ (table i).base = lookupModule table name := by
  rw [lookupModule_eq] at h ⊢
  cases found : slotOf table name with
  | none =>
    rw [found] at h
    exact absurd rfl h
  | some i => exact ⟨i, rfl, rfl⟩

theorem lookup_of_slotOf {table : ModuleTable} {i : Nat} (h : slotOf table name = some i) :
    lookupModule table name = (table i).base := by
  rw [lookupModule_eq, h]
  rfl

theorem loaded_slot (sound : LinkSound s)
    (loaded : ldrLoadLibrary volume rounds fuel name s = some (b, t)) (some_ : b ≠ 0)
    (fits : lookupModule s.table (routed name) ≠ 0 ∨ SlotFor s.table (routed name)) :
    ∃ i, slotOf t.table (routed name) = some i ∧ (t.table i).base = b := by
  have shallow : s.depth + 1 < maxDependencyDepth := by
    rw [sound.idle]
    decide
  rcases load_cases shallow loaded with ⟨cached, rfl, rfl⟩ | ⟨new, fuel', d, v, load, rfl⟩
  · exact slotOf_of_lookup cached
  · have fits : SlotFor s.table (routed name) := fits.resolve_left (not_not.mpr new)
    rcases loadFile_cases load with ⟨-, zero, -⟩ | ⟨file, r, status, -, map, -, rest⟩
    · exact absurd zero some_
    · rcases rest with ⟨-, zero, -⟩ | ⟨-, finish⟩
      · exact absurd zero some_
      · have grow := calls_grow volume rounds fuel'
        have base := (finishLoad_cases grow finish).1.resolve_left some_
        rw [base]
        exact remembered (s := { s with depth := d, image := r.state }) (t := v) (ldrpMapImage_base map) grow sound.packed
          fits finish

theorem modules_load_once (run : Runs.Reachable LinkStart LinkStep s)
    (loaded : ldrLoadLibrary volume rounds fuel name s = some (b, t)) (some_ : b ≠ 0)
    (later : ReflTransGen (fun a b => ∃ op, LinkStep a op b) t u)
    (same : ciStrcmp name name' = 0) (route : hostOf name' = hostOf name)
    (fits : lookupModule s.table (routed name) ≠ 0 ∨ SlotFor s.table (routed name))
    (volume' : CString → Option PeFile) (rounds' fuel' : Nat) :
    ldrLoadLibrary volume' rounds' (fuel' + 2) name' u = some (b, u) := by
  have sound := LinkSound.of_reachable run
  have first : Grows s t := (calls_grow volume rounds fuel).load name s b t loaded
  have second := grows_of_steps later
  obtain ⟨i, found, base⟩ := loaded_slot sound loaded some_ fits
  obtain ⟨found', base'⟩ := second.table.slotOf (first.table.packed sound.packed) found
  have spelled : ciStrcmp (routed name') (routed name) = 0 := by
    rw [ciStrcmp_eq_zero, routed, routed, route]
    cases hostOf name with
    | none => exact ((ciStrcmp_eq_zero name name').mp same).symm
    | some host => rfl
  have lookup : lookupModule u.table (routed name') = b := by
    rw [lookup_of_slotOf ((slotOf_congr spelled u.table).trans found'), base', base]
  have shallow : u.depth + 1 < maxDependencyDepth := by
    rw [second.depth, first.depth, sound.idle]
    decide
  have cached := @load_cached name' volume' rounds' u fuel' shallow (by rw [lookup]; exact some_)
  rw [lookup] at cached
  exact cached

/-- No module is loaded, and there are frames for one page and its tables. -/
def noModules : LinkState := ⟨fun _ => ⟨.lit "", 0, 0, false⟩, 0, ⟨0, 0, 0⟩, noImages⟩

theorem noModules_start : LinkStart noModules := ⟨fun _ => rfl, rfl⟩

/-- A volume with a single file. -/
def oneFile (name : CString) (file : PeFile) : CString → Option PeFile := fun other =>
  if other = name then some file else none

/-- A volume with a small kernel32. -/
def kernel32Only : CString → Option PeFile :=
  oneFile (.lit "kernel32.dll") (plainImage 0x400000 0x1000 328 328)

theorem modules_load_once_other_case :
    ∃ t, ldrLoadLibrary kernel32Only 1 2 (.lit "kernel32.dll") noModules = some (0x400000, t) ∧
      ldrLoadLibrary kernel32Only 1 2 (.lit "KERNEL32.DLL") t = some (0x400000, t) := by
  have first : (ldrLoadLibrary kernel32Only 1 2 (.lit "kernel32.dll") noModules).map Prod.fst =
      some 0x400000 := by decide +kernel
  obtain ⟨⟨b, t⟩, loaded, rfl⟩ := Option.map_eq_some_iff.mp first
  have fits : SlotFor noModules.table (routed (.lit "kernel32.dll")) :=
    ⟨by decide +kernel, ⟨0, by decide, rfl⟩, by decide +kernel⟩
  exact ⟨t, loaded, modules_load_once (.of_initial noModules_start) loaded (by decide) .refl
    (by decide +kernel) (by decide +kernel) (.inr fits) kernel32Only 1 0⟩

/-- A contract is routed to kernel32 in one spelling and looked for on the volume in the other. -/
theorem contract_lost_in_capitals :
    LinkStart noModules ∧
    ciStrcmp (.lit "api-ms-win-core-file-l1-1-0.dll") (.lit "API-MS-Win-Core-File-L1-1-0.dll") = 0 ∧
    ((do
      let first ← ldrLoadLibrary kernel32Only 1 3 (.lit "api-ms-win-core-file-l1-1-0.dll")
      let second ← ldrLoadLibrary kernel32Only 1 3 (.lit "API-MS-Win-Core-File-L1-1-0.dll")
      pure (first, second) : LdrM (Nat × Nat)) noModules).map Prod.fst = some (0x400000, 0) :=
  ⟨noModules_start, by decide +kernel, by decide +kernel⟩

end Ldr
