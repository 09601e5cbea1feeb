import Svindows.Ldr.LoaderFuel

/-!
# Looking up an export

`LdrGetProcAddress` and `LdrpProcByOrdinal` find nothing, an address, or the text
of a forwarder in the mapped image. The first two are answers; a forwarder is
followed into the module it names.
-/

namespace Ldr

open Nt ByteMemory Rtl Partial

inductive Found where
  | nothing
  | address (a : Nat)
  | forwarder (a : Nat)
  deriving DecidableEq

def rvaOf (m : Memory) (base ed : Nat) : ProcKey → Option Nat
  | .name s => rvaByName m base ed s
  | .ordinal n => rvaByOrdinal m base ed n

/-- What the image with NT headers at `nt` has for a key. -/
def findIn (m : Memory) (base nt : Nat) (key : ProcKey) : Found :=
  let dir := dataDirectory m nt directoryEntryExport
  if dir.size = 0 then .nothing
  else
    match rvaOf m base (base + dir.virtualAddress) key with
    | none => .nothing
    | some rva => if isForwarderRva dir rva then .forwarder (base + rva) else .address (wrap64 (base + rva))

/-- What is found; without headers, a lookup by ordinal faults. -/
def findExport (m : Memory) (base : Nat) (key : ProcKey) : Option Found :=
  match ntHeaders m base, key with
  | some nt, key => some (findIn m base nt key)
  | none, .name _ => some .nothing
  | none, .ordinal _ => none

/-- What a lookup makes of what it finds. -/
def answer (c : Calls) : Found → LdrM Nat
  | .nothing => pure 0
  | .address a => pure a
  | .forwarder a => ldrpResolveForwarder c a

variable (c : Calls)

theorem answer_findIn (m : Memory) (base nt : Nat) (key : ProcKey) :
    answer c (findIn m base nt key) =
      if (dataDirectory m nt directoryEntryExport).size = 0 then pure 0
      else
        match rvaOf m base (base + (dataDirectory m nt directoryEntryExport).virtualAddress) key with
        | none => pure 0
        | some rva =>
          ldrpExportRvaToAddress c base rva (dataDirectory m nt directoryEntryExport) := by
  simp only [findIn]
  split
  · rfl
  · cases rvaOf m base (base + (dataDirectory m nt directoryEntryExport).virtualAddress) key with
    | none => rfl
    | some rva =>
      simp only [ldrpExportRvaToAddress]
      split <;> rfl

theorem ldrGetProcAddress_eq (base : Nat) (name : CString) (s : LinkState) :
    ldrGetProcAddress c base name s =
      (findExport s.image.mem base (.name name)).bind (fun found => answer c found s) := by
  have memory : getMemory s = some (s.image.mem, s) := rfl
  rw [ldrGetProcAddress, bind_of_some memory]
  cases headers : ntHeaders s.image.mem base with
  | none =>
    simp only [findExport, headers]
    rfl
  | some nt =>
    simp only [findExport, headers, Option.bind_some]
    exact (congrFun (answer_findIn c s.image.mem base nt (.name name)) s).symm

theorem ldrpProcByOrdinal_eq (base ordinal : Nat) (s : LinkState) :
    ldrpProcByOrdinal c base ordinal s =
      (findExport s.image.mem base (.ordinal ordinal)).bind (fun found => answer c found s) := by
  have memory : getMemory s = some (s.image.mem, s) := rfl
  rw [ldrpProcByOrdinal, bind_of_some memory]
  cases headers : ntHeaders s.image.mem base with
  | none =>
    simp only [findExport, headers]
    rfl
  | some nt =>
    have lifted : (lift (some nt) : LdrM Nat) s = some (nt, s) := rfl
    rw [bind_of_some lifted]
    simp only [findExport, headers, Option.bind_some]
    exact (congrFun (answer_findIn c s.image.mem base nt (.ordinal ordinal)) s).symm

theorem readString_eq_some {c : Calls} {a : Nat} {s t : LinkState} {text : CString} :
    readString c a s = some (text, t) ↔ stringAt s.image.mem c.turns a = some text ∧ t = s := by
  change (stringAt s.image.mem c.turns a).map (·, s) = some (text, t) ↔ _
  rw [Option.map_eq_some_iff]
  constructor
  · rintro ⟨_, found, same⟩
    cases same
    exact ⟨found, rfl⟩
  · rintro ⟨found, rfl⟩
    exact ⟨text, found, rfl⟩

theorem followTarget_eq_some {c : Calls} {target : CString × ProcKey} {r : Nat} {s t : LinkState} :
    followTarget c (some target) s = some (r, t) ↔
      ∃ base u, c.ldrpLoadModule target.1 s = some (base, u) ∧
        ((base = 0 ∧ r = 0 ∧ t = u) ∨ (base ≠ 0 ∧ c.proc base target.2 u = some (r, t))) := by
  rw [followTarget, bind_eq_some]
  constructor
  · rintro ⟨base, u, load, rest⟩
    refine ⟨base, u, load, ?_⟩
    by_cases none_ : base = 0
    · rw [if_pos none_] at rest
      cases rest
      exact .inl ⟨none_, rfl, rfl⟩
    · rw [if_neg none_] at rest
      exact .inr ⟨none_, rest⟩
  · rintro ⟨base, u, load, rest⟩
    refine ⟨base, u, load, ?_⟩
    rcases rest with ⟨rfl, rfl, rfl⟩ | ⟨some_, rest⟩
    · rfl
    · rw [if_neg some_]
      exact rest

/-- A forwarder is answered in one of three ways. -/
theorem ldrpResolveForwarder_eq_some {c : Calls} {a r : Nat} {s t : LinkState} :
    ldrpResolveForwarder c a s = some (r, t) ↔
      ∃ text, stringAt s.image.mem c.turns a = some text ∧
        ((parseForwarder text = none ∧ r = 0 ∧ t = s) ∨
          ∃ target base u, parseForwarder text = some target ∧
            c.ldrpLoadModule target.1 s = some (base, u) ∧
            ((base = 0 ∧ r = 0 ∧ t = u) ∨ (base ≠ 0 ∧ c.proc base target.2 u = some (r, t)))) := by
  rw [ldrpResolveForwarder, bind_eq_some]
  constructor
  · rintro ⟨text, u, read, rest⟩
    obtain ⟨found, rfl⟩ := readString_eq_some.mp read
    refine ⟨text, found, ?_⟩
    cases parse : parseForwarder text with
    | none =>
      rw [parse] at rest
      cases rest
      exact .inl ⟨rfl, rfl, rfl⟩
    | some target =>
      rw [parse] at rest
      obtain ⟨base, u, load, rest⟩ := followTarget_eq_some.mp rest
      exact .inr ⟨target, base, u, rfl, load, rest⟩
  · rintro ⟨text, found, rest⟩
    refine ⟨text, s, readString_eq_some.mpr ⟨found, rfl⟩, ?_⟩
    rcases rest with ⟨parse, rfl, rfl⟩ | ⟨target, base, u, parse, load, rest⟩
    · rw [parse]
      rfl
    · rw [parse]
      exact followTarget_eq_some.mpr ⟨base, u, load, rest⟩

variable (volume : CString → Option PeFile) (rounds : Nat)

theorem proc_zero (base : Nat) (key : ProcKey) (s : LinkState) :
    (calls volume rounds 0).proc base key s = none := by
  cases key <;> rfl

theorem proc_succ (fuel base : Nat) (key : ProcKey) (s : LinkState) :
    (calls volume rounds (fuel + 1)).proc base key s =
      (findExport s.image.mem base key).bind (fun found => answer (calls volume rounds fuel) found s) := by
  cases key with
  | name name => exact ldrGetProcAddress_eq (calls volume rounds fuel) base name s
  | ordinal n => exact ldrpProcByOrdinal_eq (calls volume rounds fuel) base n s

/-- What a lookup returns is 0 or the address of an export that is no forwarder. -/
theorem proc_result {fuel base a : Nat} {key : ProcKey} {s t : LinkState}
    (h : (calls volume rounds fuel).proc base key s = some (a, t)) :
    a = 0 ∨ ∃ base' key', findExport t.image.mem base' key' = some (.address a) := by
  induction fuel generalizing base key s with
  | zero =>
    rw [proc_zero] at h
    cases h
  | succ fuel ih =>
    rw [proc_succ] at h
    obtain ⟨found, here, result⟩ := Option.bind_eq_some_iff.mp h
    cases found with
    | nothing =>
      cases result
      exact .inl rfl
    | address b =>
      cases result
      exact .inr ⟨base, key, here⟩
    | forwarder text =>
      obtain ⟨_, -, ⟨-, zero, -⟩ | ⟨target, base', u, -, -, ⟨-, zero, -⟩ | ⟨-, rest⟩⟩⟩ :=
        ldrpResolveForwarder_eq_some.mp result
      · exact .inl zero
      · exact .inl zero
      · exact ih rest

/-- An image at `base` that exports `f`, at `rva`; there is room for a forwarder's text at 0x260. -/
def oneExport (m : Memory) (base rva text : Nat) : Memory :=
  let m := store m base 2 imageDosSignature
  let m := store m (base + 60) 4 64
  let m := store m (base + 64) 4 imageNtSignature
  let m := store m (base + 200) 4 0x200
  let m := store m (base + 204) 4 0x100
  let m := store m (base + 0x214) 4 1
  let m := store m (base + 0x218) 4 1
  let m := store m (base + 0x21C) 4 0x240
  let m := store m (base + 0x220) 4 0x244
  let m := store m (base + 0x224) 4 0x248
  let m := store m (base + 0x240) 4 rva
  let m := store m (base + 0x244) 4 0x250
  let m := store m (base + 0x250) 2 0x66
  store m (base + 0x260) 4 text

/-- `a.dll` and `b.dll` are loaded. -/
def twoModules : ModuleTable := fun i =>
  if i = 0 then ⟨.lit "a.dll", 0x10000, 0, true⟩
  else if i = 1 then ⟨.lit "b.dll", 0x20000, 0, true⟩
  else ⟨.lit "", 0, 0, false⟩

/-- Both modules in a memory. -/
def linkedModules (m : Memory) : LinkState :=
  ⟨twoModules, 0, ⟨0, 0, 0⟩, ⟨⟨fun _ _ => 0, 0, []⟩, 0x400000000, m⟩⟩

end Ldr
