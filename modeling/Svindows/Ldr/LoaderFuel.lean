import Svindows.Ldr.Loader

/-!
# The loader's fuel

More fuel changes no result of the loader: where one of its functions returns, it
returns the same over functions that are more patient.
-/

namespace Ldr

open Nt ByteMemory Rtl Partial

theorem bytesAt_mono {m : Memory} {fuel fuel' a : Nat} {bytes : List UInt8} (le : fuel ≤ fuel')
    (h : bytesAt m fuel a = some bytes) : bytesAt m fuel' a = some bytes := by
  induction fuel generalizing fuel' a bytes with
  | zero => cases h
  | succ fuel ih =>
    cases fuel' with
    | zero => cases le
    | succ fuel' =>
      simp only [bytesAt] at h ⊢
      split at h
      · rename_i nul
        rw [if_pos nul]
        exact h
      · rename_i char
        rw [if_neg char]
        obtain ⟨rest, tail, rfl⟩ := Option.map_eq_some_iff.mp h
        rw [ih (Nat.le_of_succ_le_succ le) tail, Option.map_some]

theorem stringAt_mono {m : Memory} {fuel fuel' a : Nat} {s : CString} (le : fuel ≤ fuel')
    (h : stringAt m fuel a = some s) : stringAt m fuel' a = some s := by
  obtain ⟨bytes, found, rfl⟩ := Option.map_eq_some_iff.mp h
  rw [stringAt, bytesAt_mono le found, Option.map_some]

/-- The second functions are more patient. -/
structure Calls.Below (c d : Calls) : Prop where
  turns : c.turns ≤ d.turns
  load : ∀ name, Partial.Below (c.ldrpLoadModule name) (d.ldrpLoadModule name)
  byName : ∀ base name, Partial.Below (c.ldrGetProcAddress base name) (d.ldrGetProcAddress base name)
  byOrdinal : ∀ base n, Partial.Below (c.ldrpProcByOrdinal base n) (d.ldrpProcByOrdinal base n)

variable {c d : Calls} (h : c.Below d)

include h

theorem Calls.Below.proc (base : Nat) (key : ProcKey) :
    Partial.Below (c.proc base key) (d.proc base key) := by
  cases key with
  | name s => exact h.byName base s
  | ordinal n => exact h.byOrdinal base n

theorem readString_below (a : Nat) : Partial.Below (readString c a) (readString d a) := by
  refine Partial.Below.bind (.refl _) fun m s r run => ?_
  obtain ⟨text, found, rfl⟩ := Option.map_eq_some_iff.mp run
  exact Option.map_eq_some_iff.mpr ⟨text, stringAt_mono h.turns found, rfl⟩

theorem ldrpResolveForwarder_below (a : Nat) :
    Partial.Below (ldrpResolveForwarder c a) (ldrpResolveForwarder d a) := by
  refine (readString_below h a).bind fun text => ?_
  cases parseForwarder text with
  | none => exact .refl _
  | some target => exact (h.load _).bind fun base => .ite (.refl _) (h.proc base _)

theorem ldrpExportRvaToAddress_below (base rva : Nat) (dir : DataDirectory) :
    Partial.Below (ldrpExportRvaToAddress c base rva dir) (ldrpExportRvaToAddress d base rva dir) :=
  .ite (ldrpResolveForwarder_below h _) (.refl _)

theorem ldrGetProcAddress_below (base : Nat) (name : CString) :
    Partial.Below (ldrGetProcAddress c base name) (ldrGetProcAddress d base name) := by
  refine Partial.Below.bind (.refl _) fun m => ?_
  cases ntHeaders m base with
  | none => exact .refl _
  | some nt =>
    refine .ite (.refl _) ?_
    cases rvaByName m base (base + (dataDirectory m nt directoryEntryExport).virtualAddress) name with
    | none => exact .refl _
    | some rva => exact ldrpExportRvaToAddress_below h base rva _

theorem ldrpProcByOrdinal_below (base ordinal : Nat) :
    Partial.Below (ldrpProcByOrdinal c base ordinal) (ldrpProcByOrdinal d base ordinal) := by
  refine Partial.Below.bind (.refl _) fun m => .bind (.refl _) fun nt => .ite (.refl _) ?_
  cases rvaByOrdinal m base (base + (dataDirectory m nt directoryEntryExport).virtualAddress)
    ordinal with
  | none => exact .refl _
  | some rva => exact ldrpExportRvaToAddress_below h base rva _

theorem loadDependency_below (base : Nat) (dll : CString) :
    Partial.Below (loadDependency c base dll) (loadDependency d base dll) :=
  Partial.Below.bind (.refl _) fun _ => .ite (.refl _) ((h.load dll).bind fun _ => .refl _)

theorem procIfLoaded_below (base : Nat) (key : ProcKey) :
    Partial.Below (procIfLoaded c base key) (procIfLoaded d base key) :=
  .ite (.refl _) (h.proc base key)

theorem importFrom_below (dll : CString) (dllBase : Nat) (name : CString) :
    Partial.Below (importFrom c dll dllBase name) (importFrom d dll dllBase name) :=
  (procIfLoaded_below h _ _).bind fun _ => .bind (.refl _) fun _ => .ite (h.byName _ _) (.refl _)

theorem importByName_below (dll : CString) (dllBase : Nat) (name : CString) :
    Partial.Below (importByName c dll dllBase name) (importByName d dll dllBase name) :=
  (importFrom_below h _ _ _).bind fun _ =>
    .ite (.bind (.refl _) fun _ => procIfLoaded_below h _ _) (.refl _)

theorem thunkAddress_below (dllBase : Nat) (hint : Nat → Nat) {byName byName' : CString → LdrM Nat}
    (below : ∀ s, Partial.Below (byName s) (byName' s)) (thunk : Nat) :
    Partial.Below (thunkAddress c dllBase hint byName thunk)
      (thunkAddress d dllBase hint byName' thunk) :=
  .ite (procIfLoaded_below h _ _) ((readString_below h _).bind below)

theorem resolveThunks_below (dllBase names iat : Nat) (hint : Nat → Nat)
    {byName byName' : CString → LdrM Nat} (below : ∀ s, Partial.Below (byName s) (byName' s)) :
    Partial.Below (resolveThunks c dllBase names iat hint byName)
      (resolveThunks d dllBase names iat hint byName') := by
  refine Partial.Below.loop (fun i => ?_) h.turns 0
  exact .bind (.refl _) fun _ => .ite (.refl _) <|
    (thunkAddress_below h _ _ below _).bind fun _ => .refl _

theorem resolveImport_below (base desc : Nat) :
    Partial.Below (resolveImport c base desc) (resolveImport d base desc) :=
  Partial.Below.bind (.refl _) fun _ => (readString_below h _).bind fun _ =>
    (loadDependency_below h _ _).bind fun _ => .bind (.refl _) fun _ =>
      resolveThunks_below h _ _ _ _ (importByName_below h _ _)

theorem ldrResolveImports_below (base : Nat) :
    Partial.Below (ldrResolveImports c base) (ldrResolveImports d base) := by
  refine Partial.Below.bind (.refl _) fun m => .bind (.refl _) fun nt => .ite (.refl _) ?_
  refine .loop (fun desc => ?_) h.turns _
  exact .bind (.refl _) fun _ => .ite (.refl _) ((resolveImport_below h _ _).bind fun _ => .refl _)

theorem resolveDelayImport_below (base desc : Nat) :
    Partial.Below (resolveDelayImport c base desc) (resolveDelayImport d base desc) :=
  Partial.Below.bind (.refl _) fun _ => (readString_below h _).bind fun _ =>
    (loadDependency_below h _ _).bind fun _ => .bind (.refl _) fun _ => .bind (.refl _) fun _ =>
      resolveThunks_below h _ _ _ _ (importFrom_below h _ _)

theorem ldrResolveDelayImports_below (base : Nat) :
    Partial.Below (ldrResolveDelayImports c base) (ldrResolveDelayImports d base) := by
  refine Partial.Below.bind (.refl _) fun m => .bind (.refl _) fun nt => .ite (.refl _) ?_
  refine .loop (fun k => ?_) h.turns _
  refine .bind (.refl _) fun _ => .ite (.refl _) (.ite (.refl _) ?_)
  exact (resolveDelayImport_below h _ _).bind fun _ => .refl _

theorem patchImage_below (name : CString) (base : Nat) :
    Partial.Below (patchImage c name base) (patchImage d name base) := by
  refine .ite (.refl _) (.ite ?_ (.refl _))
  exact (h.byName _ _).bind fun _ => .bind (.refl _) fun _ => (h.byName _ _).bind fun _ => .refl _

theorem linkImage_below (base : Nat) : Partial.Below (linkImage c base) (linkImage d base) :=
  (ldrResolveImports_below h base).bind fun _ => .ite (.refl _) <|
    (ldrResolveDelayImports_below h base).bind fun _ => .refl _

variable (volume : CString → Option PeFile) (rounds : Nat)

theorem finishLoad_below (name : CString) (base : Nat) :
    Partial.Below (finishLoad c name base) (finishLoad d name base) :=
  Partial.Below.bind (.refl _) fun _ => (patchImage_below h name base).bind fun _ =>
    (linkImage_below h base).bind fun _ => .refl _

theorem loadFile_below (name : CString) :
    Partial.Below (loadFile c volume rounds name) (loadFile d volume rounds name) := by
  simp only [loadFile]
  cases volume name with
  | none => exact .refl _
  | some file => exact .bind (.refl _) fun _ => .ite (.refl _) (finishLoad_below h name _)

theorem ldrpLoadModule_below (name : CString) :
    Partial.Below (ldrpLoadModule c volume rounds name) (ldrpLoadModule d volume rounds name) := by
  have worker : Partial.Below (ldrpLoadModuleWorker c volume rounds name)
      (ldrpLoadModuleWorker d volume rounds name) := by
    simp only [ldrpLoadModuleWorker]
    cases hostOf name with
    | some host => exact h.load host
    | none => exact .bind (.refl _) fun _ => .ite (.refl _) (loadFile_below h volume rounds name)
  exact .bind (.refl _) fun _ => .ite (.refl _) <|
    .bind (.refl _) fun _ => worker.bind fun _ => .refl _

omit h

theorem calls_turns (fuel : Nat) : (calls volume rounds fuel).turns = fuel := by
  cases fuel <;> rfl

theorem calls_succ (fuel : Nat) : (calls volume rounds fuel).Below (calls volume rounds (fuel + 1)) := by
  induction fuel with
  | zero => exact ⟨Nat.zero_le _, fun _ => .failure _, fun _ _ => .failure _, fun _ _ => .failure _⟩
  | succ fuel ih =>
    exact ⟨Nat.le_succ _, ldrpLoadModule_below ih volume rounds, ldrGetProcAddress_below ih,
      ldrpProcByOrdinal_below ih⟩

theorem calls_mono {fuel fuel' : Nat} (le : fuel ≤ fuel') :
    (calls volume rounds fuel).Below (calls volume rounds fuel') := by
  induction le with
  | refl => exact ⟨Nat.le_refl _, fun _ => .refl _, fun _ _ => .refl _, fun _ _ => .refl _⟩
  | @step fuel' _ ih =>
    have more := calls_succ volume rounds fuel'
    exact ⟨ih.turns.trans more.turns, fun name => (ih.load name).trans (more.load name),
      fun base name => (ih.byName base name).trans (more.byName base name),
      fun base n => (ih.byOrdinal base n).trans (more.byOrdinal base n)⟩

/-- A result does not depend on the fuel. -/
theorem load_unique {fuel fuel' : Nat} {name : CString} {s : LinkState} {r r' : Nat × LinkState}
    (h : (calls volume rounds fuel).ldrpLoadModule name s = some r)
    (h' : (calls volume rounds fuel').ldrpLoadModule name s = some r') : r = r' := by
  have left := (calls_mono volume rounds (Nat.le_max_left fuel fuel')).load name s r h
  have right := (calls_mono volume rounds (Nat.le_max_right fuel fuel')).load name s r' h'
  exact Option.some.inj (left.symm.trans right)

end Ldr
