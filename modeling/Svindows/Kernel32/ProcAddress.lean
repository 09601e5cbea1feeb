import Svindows.Ldr.Lookups

/-!
# GetProcAddress

kernel32 walks the export directory of a mapped module on its own. It finds the
entry that the kernel's loader finds, and returns its address also where that is
the text of a forwarder, which the loader follows.
-/

namespace Kernel32

open Nt ByteMemory Rtl Ldr

/-- `pe_export_dir`; `none` is `NULL`. -/
def peExportDir (m : Memory) (base : Nat) : Option Nat :=
  let nt := base + value m (base + 0x3C) 4
  if value m nt 4 ≠ 0x00004550 then none
  else
    let rva := value m (nt + 0x18 + 0x70) 4
    if rva = 0 then none else some (base + rva)

/-- The loop of `str_eq`; the end of the list is its NUL. -/
def strEq (m : Memory) : Nat → List UInt8 → Bool
  | a, [] => m (wrap64 a) == 0
  | a, c :: cs =>
    if m (wrap64 a) = 0 then m (wrap64 a) == c
    else if m (wrap64 a) ≠ c then false
    else strEq m (a + 1) cs

/-- `GetProcAddress`; an argument below 2^16 is an ordinal. -/
def getProcAddress (m : Memory) (base : Nat) (key : ProcKey) : Nat :=
  if base = 0 then 0
  else
    match peExportDir m base with
    | none => 0
    | some ed =>
      match key with
      | .ordinal n =>
        let idx := wrap32 (n + (2 ^ 32 - ordinalBase m ed))
        if numberOfFunctions m ed ≤ idx then 0 else wrap64 (base + funcRva m base ed idx)
      | .name name =>
        match (List.range (numberOfNames m ed)).find? fun i =>
          strEq m (base + nameRva m base ed i) name.bytes with
        | none => 0
        | some i => wrap64 (base + funcRva m base ed (nameOrdinal m base ed i))

variable {m : Memory} {base nt : Nat}

theorem strEq_eq {bytes : List UInt8} (noNul : 0 ∉ bytes) (m : Memory) (a : Nat) :
    strEq m a bytes = strcmpEq m a bytes := by
  induction bytes generalizing a with
  | nil => rfl
  | cons c cs ih =>
    have head : 0 ≠ c := fun same => noNul (same ▸ List.mem_cons_self)
    have tail : 0 ∉ cs := fun mem => noNul (List.mem_cons_of_mem _ mem)
    simp only [strEq, strcmpEq]
    by_cases nul : m (wrap64 a) = 0
    · simp [nul, head]
    · rw [if_neg nul]
      by_cases same : m (wrap64 a) = c
      · rw [if_neg (not_not.mpr same), beq_iff_eq.mpr same, ih tail, Bool.true_and]
      · rw [if_pos same, beq_false_of_ne same, Bool.false_and]

theorem peExportDir_eq (headers : ntHeaders m base = some nt) :
    peExportDir m base =
      if (dataDirectory m nt directoryEntryExport).virtualAddress = 0 then none
      else some (base + (dataDirectory m nt directoryEntryExport).virtualAddress) := by
  simp only [ntHeaders] at headers
  split at headers
  · cases headers
  · split at headers
    · cases headers
    · rename_i signature
      obtain rfl := Option.some.inj headers
      have pe : value m (base + value m (base + 0x3C) 4) 4 = 0x00004550 := not_not.mp signature
      simp only [peExportDir, dataDirectory, directoryEntryExport, pe]
      rfl

theorem getProcAddress_eq (based : base ≠ 0) (headers : ntHeaders m base = some nt) (key : ProcKey) :
    getProcAddress m base key =
      if (dataDirectory m nt directoryEntryExport).virtualAddress = 0 then 0
      else
        match rvaOf m base (base + (dataDirectory m nt directoryEntryExport).virtualAddress) key with
        | none => 0
        | some rva => wrap64 (base + rva) := by
  rw [getProcAddress, if_neg based, peExportDir_eq headers]
  by_cases empty : (dataDirectory m nt directoryEntryExport).virtualAddress = 0
  · rw [if_pos empty, if_pos empty]
  · rw [if_neg empty, if_neg empty]
    cases key with
    | ordinal n =>
      simp only [rvaOf, rvaByOrdinal]
      split <;> rfl
    | name name =>
      simp only [rvaOf, rvaByName, strEq_eq name.noNul]
      cases (List.range _).find? _ <;> rfl

/-- A module as the linkers make it, for the export under a key. -/
structure WellFormed (volume : CString → Option PeFile) (rounds : Nat) (s : LinkState)
    (base nt : Nat) (key : ProcKey) : Prop where
  based : base ≠ 0
  headers : ntHeaders s.image.mem base = some nt
  directory : (dataDirectory s.image.mem nt directoryEntryExport).virtualAddress = 0 ↔
    (dataDirectory s.image.mem nt directoryEntryExport).size = 0
  /-- A forwarder's text lies below the end of the address space, and no module has
  code where it is, also when the lookup has loaded more of them. -/
  text : ∀ a, findExport s.image.mem base key = some (.forwarder a) → a < 2 ^ 64 ∧
    ∀ fuel r t, (calls volume rounds fuel).proc base key s = some (r, t) →
      ∀ base' key', findExport t.image.mem base' key' ≠ some (.address a)

variable {volume : CString → Option PeFile} {rounds : Nat} {s : LinkState} {key : ProcKey}

/-- kernel32 takes the text of a forwarder for the export. -/
def plainAddress : Found → Nat
  | .nothing => 0
  | .address a => a
  | .forwarder a => wrap64 a

theorem WellFormed.find (wf : WellFormed volume rounds s base nt key) :
    findExport s.image.mem base key = some (findIn s.image.mem base nt key) := by
  simp only [findExport, wf.headers]

theorem WellFormed.getProcAddress (wf : WellFormed volume rounds s base nt key) :
    getProcAddress s.image.mem base key = plainAddress (findIn s.image.mem base nt key) := by
  rw [getProcAddress_eq wf.based wf.headers, findIn]
  simp only [wf.directory]
  split
  · rfl
  · cases rvaOf s.image.mem base _ key with
    | none => rfl
    | some rva =>
      simp only []
      split <;> rfl

theorem WellFormed.text_ne (wf : WellFormed volume rounds s base nt key) {a : Nat}
    (forwards : findIn s.image.mem base nt key = .forwarder a) : a ≠ 0 := by
  simp only [findIn] at forwards
  split at forwards
  · cases forwards
  · split at forwards
    · cases forwards
    · split at forwards
      · cases forwards
        have := wf.based
        omega
      · cases forwards

theorem lookups_agree_iff (wf : WellFormed volume rounds s base nt key) :
    (∃ fuel t, (calls volume rounds fuel).proc base key s =
        some (getProcAddress s.image.mem base key, t)) ↔
      ∀ a, findExport s.image.mem base key ≠ some (.forwarder a) := by
  rw [wf.getProcAddress]
  have find := wf.find
  constructor
  · rintro ⟨fuel, t, agrees⟩ a forwards
    have here : findIn s.image.mem base nt key = .forwarder a := Option.some.inj (find ▸ forwards)
    obtain ⟨below, alone⟩ := wf.text a forwards
    have word : wrap64 a = a := Nat.mod_eq_of_lt below
    rw [here, plainAddress, word] at agrees
    rcases proc_result volume rounds agrees with zero | ⟨base', key', address⟩
    · exact wf.text_ne here zero
    · exact alone fuel a t agrees base' key' address
  · intro plain
    refine ⟨1, s, ?_⟩
    rw [proc_succ, find, Option.bind_some]
    cases here : findIn s.image.mem base nt key with
    | nothing => rfl
    | address a => rfl
    | forwarder a =>
      rw [here] at find
      exact absurd find (plain a)

/-- `f` of `a.dll` is code. -/
def plainMemory : Memory := oneExport (fun _ => 0) 0x10000 0x1000 0

/-- `f` of `a.dll` is forwarded to `f` of `b.dll`. -/
def forwardedMemory : Memory :=
  oneExport (oneExport (fun _ => 0) 0x20000 0x1000 0) 0x10000 0x260 0x662E62

theorem lookups_agree_on_code :
    (∃ fuel t, (calls (fun _ => none) 0 fuel).proc 0x10000 (.name (.lit "f"))
      (linkedModules plainMemory) = some (0x11000, t)) ∧
    getProcAddress plainMemory 0x10000 (.name (.lit "f")) = 0x11000 := by
  have find : findExport plainMemory 0x10000 (.name (.lit "f")) = some (.address 0x11000) := by
    decide +kernel
  have address : getProcAddress plainMemory 0x10000 (.name (.lit "f")) = 0x11000 := by
    decide +kernel
  have wf : WellFormed (fun _ => none) 0 (linkedModules plainMemory) 0x10000 0x10040
      (.name (.lit "f")) := by
    refine ⟨by decide, by decide +kernel, by decide +kernel, fun a forwards => ?_⟩
    exact absurd (find.symm.trans forwards) (by simp)
  have agrees := (lookups_agree_iff wf).mpr fun a forwards =>
    absurd (find.symm.trans forwards) (by simp)
  exact ⟨address ▸ agrees, address⟩

theorem forwarder_returned_as_code :
    ntHeaders forwardedMemory 0x10000 = some 0x10040 ∧
    dataDirectory forwardedMemory 0x10040 directoryEntryExport = ⟨0x200, 0x100⟩ ∧
    ((calls (fun _ => none) 0 6).proc 0x10000 (.name (.lit "f"))
      (linkedModules forwardedMemory)).map (·.1) = some 0x21000 ∧
    getProcAddress forwardedMemory 0x10000 (.name (.lit "f")) = 0x10260 := by
  decide +kernel

end Kernel32
