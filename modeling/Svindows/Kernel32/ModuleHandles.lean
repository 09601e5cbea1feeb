import Svindows.Ldr.ModuleLists

/-!
# GetModuleHandle

kernel32 walks the load order list that the kernel has written into the memory of the
process. A program finds in it the module that the kernel finds in its table.
-/

namespace Kernel32

open Nt ByteMemory LinkedRing Rtl Ldr

/-- `ascii_ieq` -/
def asciiIeq (a b : UInt8) : Bool := toLower a == toLower b

/-- The loop of `ustr_eq_ascii` over the units that are left; a unit is cut to a byte. -/
def sameAscii (m : Memory) : Nat → Nat → List UInt8 → Bool
  | _, 0, [] => true
  | _, 0, _ :: _ => false
  | _, _ + 1, [] => false
  | p, n + 1, c :: cs => asciiIeq (load m p 2).toUInt8 c && sameAscii m (p + 2) n cs

def ustrEqAscii (m : Memory) (u : Nat) (ascii : CString) : Bool :=
  sameAscii m (load m (u + 8) 8) (load m u 2 / 2) ascii.bytes

/-- `GetModuleHandleA` in `turns` turns of its loop; no name is `NULL`. -/
def getModuleHandleA (m : Memory) (turns peb : Nat) (name : Option CString) : Option Nat :=
  match name with
  | none => some (load m (peb + 0x10) 8)
  | some name =>
    let ldr := load m (peb + 0x18) 8
    if ldr = 0 then some 0
    else
      let head := ldr + 0x10
      let test (e : Nat) := if ustrEqAscii m (e + 0x58) name then some (load m (e + 0x30) 8) else none
      (Loop.run (walkTurn (linksAt m) head test) turns ((linksAt m).next head)).map (·.getD 0)

/-- `GetModuleHandleW`: the name as it is narrowed, 63 units of it at most. -/
def getModuleHandleW (m : Memory) (turns peb : Nat) (name : Option (List UInt16)) : Option Nat :=
  getModuleHandleA m turns peb
    (name.map fun units => .ofBytes ((units.take 63).map fun u => u.toNat.toUInt8))

variable {m : Memory} {e : Nat} {module_ : LdrLoaded} {name : CString}

theorem sameAscii_eq {p : Nat} {text ascii : List UInt8}
    (units : ∀ j c, text[j]? = some c → load m (p + 2 * j) 2 = c.toNat) :
    sameAscii m p text.length ascii = true ↔ ascii.map toLower = text.map toLower := by
  induction text generalizing p ascii with
  | nil => cases ascii <;> simp [sameAscii]
  | cons d text ih =>
    cases ascii with
    | nil => simp [sameAscii]
    | cons c cs =>
      have first : (load m p 2).toUInt8 = d := by
        rw [show load m p 2 = d.toNat from units 0 d rfl]
        exact UInt8.ofNat_toNat
      have rest : sameAscii m (p + 2) text.length cs = true ↔ cs.map toLower = text.map toLower :=
        ih fun j c' unit => by
          rw [← units (j + 1) c' unit]
          congr 1
          omega
      simp only [List.length_cons, sameAscii, first, asciiIeq, Bool.and_eq_true, beq_iff_eq, rest,
        List.map_cons, List.cons.injEq]
      exact and_congr_left' eq_comm

theorem ustrEqAscii_entry (holds : EntryHolds m e module_) (short : module_.name.bytes.length ≤ 31)
    (name : CString) : ustrEqAscii m (e + 0x58) name = true ↔ ciStrcmp name module_.name = 0 := by
  have whole : entryName module_ = module_.name.bytes := List.take_of_length_le (by omega)
  have place : e + 0x58 + 8 = e + 0x60 := rfl
  rw [ustrEqAscii, place, holds.buffer, holds.length, Nat.mul_div_cancel_left _ (by decide),
    ciStrcmp_eq_zero, ← whole]
  exact sameAscii_eq holds.units

/-- What a program can know of a module: its base, once it is listed. -/
def listedBase (s : ProcessState) (name : CString) : Nat :=
  match slotOf s.link.table name with
  | some i => if s.lists.linked i then (s.link.table i).base else 0
  | none => 0

theorem listedBase_of_all {s : ProcessState} (every : AllListed s.link.table s.lists) (name : CString) :
    listedBase s name = lookupModule s.link.table name := by
  rw [listedBase, lookupModule_eq]
  cases found : slotOf s.link.table name with
  | none => rfl
  | some i =>
    obtain ⟨small, valid, -⟩ := slotOf_eq_some.mp found
    exact if_pos (every i small valid)

theorem findSome_congr {α β : Type} {f g : α → Option β} {xs : List α} (same : ∀ x ∈ xs, f x = g x) :
    xs.findSome? f = xs.findSome? g := by
  induction xs with
  | nil => rfl
  | cons x xs ih =>
    rw [List.findSome?_cons, List.findSome?_cons, same x List.mem_cons_self,
      ih fun y member => same y (List.mem_cons_of_mem x member)]

/-- The walk over the first `k` slots finds the first of that name. -/
theorem findSome_nodes (name : CString) {table : ModuleTable} {k : Nat}
    {test : Nat → Option Nat}
    (few : k ≤ maxLoadedModules) (used : ∀ i < k, (table i).valid = true)
    (tests : ∀ i < k, test (entryAt table i) =
      if ciStrcmp name (table i).name = 0 then some (table i).base else none) :
    ((nodes table 0 k).findSome? test).getD 0 =
      match slotOf table name with
      | some i => if i < k then (table i).base else 0
      | none => 0 := by
  let named (i : Nat) : Bool := (table i).valid && ciStrcmp name (table i).name == 0
  have here : (nodes table 0 k).findSome? test =
      ((List.range k).find? named).map fun i => (table i).base := by
    rw [nodes, List.findSome?_map, List.find?_eq_findSome?_guard, List.map_findSome?]
    refine findSome_congr fun i member => ?_
    have lt : i < k := List.mem_range.mp member
    simp only [Function.comp_apply, Nat.mul_zero, Nat.add_zero, tests i lt, Option.guard, named,
      used i lt, Bool.true_and, beq_iff_eq]
    split_ifs <;> rfl
  have all : slotOf table name =
      ((List.range k).find? named).or
        (((List.range (maxLoadedModules - k)).map (k + ·)).find? named) := by
    rw [slotOf, slots, ← List.find?_append, ← List.range_add, Nat.add_sub_of_le few]
  rw [here, all]
  cases first : (List.range k).find? named with
  | some i =>
    have lt : i < k := List.mem_range.mp (List.mem_of_find?_eq_some first)
    exact (if_pos lt).symm
  | none =>
    cases later : ((List.range (maxLoadedModules - k)).map (k + ·)).find? named with
    | none => rfl
    | some i =>
      obtain ⟨j, -, rfl⟩ := List.mem_map.mp (List.mem_of_find?_eq_some later)
      exact (if_neg (by omega)).symm

variable {s t : ProcessState}

/-- In a process that has its lists the walk ends, and finds the first module of that name that is
listed. -/
theorem module_handle_is_listed (run : Runs.Reachable ProcessStart SparingStep s)
    (created : s.lists.pebLdr ≠ 0) (name : CString) {turns : Nat} (enough : maxLoadedModules < turns) :
    getModuleHandleA s.mem turns processPebVa (some name) = some (listedBase s name) := by
  have inv := ProcessInv.of_reachable run
  obtain ⟨k, built⟩ := inv.built created
  have few := built.lists.few
  have ring := built.lists.rings 0 (by decide)
  have head : listHead processLdrVa 0 = processLdrVa + 0x10 := rfl
  rw [head] at ring
  have short : (nodes s.link.table 0 k).length < turns := by
    rw [nodes, List.length_map, List.length_range]
    omega
  simp only [getModuleHandleA, built.peb]
  rw [if_neg (by decide), ring.walk _ short, Option.map_some,
    findSome_nodes name few built.lists.used fun i lt => ?_, listedBase]
  · congr 1
    cases slotOf s.link.table name with
    | none => rfl
    | some i => exact if_congr (built.lists.linked i).symm rfl rfl
  · have entry := built.lists.entries i lt
    rw [entry.base]
    exact if_congr (ustrEqAscii_entry entry (inv.fit i (built.lists.used i lt)).2 name) rfl rfl

/-- Behind a load that succeeds a program finds what the kernel finds, under every name. -/
theorem module_handle_is_lookup {volume : CString → Option PeFile} {rounds fuel b : Nat}
    {dll : CString} {u : LinkState} (run : Runs.Reachable ProcessStart SparingStep s)
    (created : s.lists.pebLdr ≠ 0)
    (load : ldrLoadLibrary volume rounds fuel dll s.link = some (b, u)) (some_ : b ≠ 0)
    (step : SparingStep s (.load volume rounds fuel dll) t) (name : CString) {turns : Nat}
    (enough : maxLoadedModules < turns) :
    getModuleHandleA t.mem turns processPebVa (some name) = some (lookupModule u.table name) := by
  obtain ⟨built, table, every⟩ := listed_of_load run created load some_ step
  rw [module_handle_is_listed (run.next step) built name enough, listedBase_of_all every, table]

/-- A program that asks for a module by the name it was loaded under gets what `LdrLoadLibrary`
returned, whatever the case of the letters. -/
theorem module_handle_of_loaded {volume : CString → Option PeFile} {rounds fuel b : Nat}
    {dll : CString} {u : LinkState} (run : Runs.Reachable ProcessStart SparingStep s)
    (created : s.lists.pebLdr ≠ 0)
    (load : ldrLoadLibrary volume rounds fuel dll s.link = some (b, u)) (some_ : b ≠ 0)
    (step : SparingStep s (.load volume rounds fuel dll) t) (plain : hostOf dll = none)
    (fits : lookupModule s.link.table dll ≠ 0 ∨ SlotFor s.link.table dll)
    (name : CString) (same : ciStrcmp dll name = 0) {turns : Nat} (enough : maxLoadedModules < turns) :
    getModuleHandleA t.mem turns processPebVa (some name) = some b := by
  have route : routed dll = dll := by rw [routed, plain]; rfl
  obtain ⟨i, found, base⟩ := loaded_slot (ProcessInv.of_reachable run).sound load some_ (route.symm ▸ fits)
  rw [route, slotOf_congr same] at found
  rw [module_handle_is_lookup run created load some_ step name enough, lookup_of_slotOf found, base]

theorem module_handle_of_loaded_kernel32 : ∃ s t u,
    Runs.Reachable ProcessStart SparingStep s ∧
      ldrLoadLibrary kernel32Only 1 2 (.lit "kernel32.dll") s.link = some (0x400000, u) ∧
      SparingStep s (.load kernel32Only 1 2 (.lit "kernel32.dll")) t ∧
      getModuleHandleA t.mem 65 processPebVa (some (.lit "Kernel32.DLL")) = some 0x400000 := by
  obtain ⟨s, t, u, run, created, known, again, step⟩ := kernel32_twice
  have plain : hostOf (.lit "kernel32.dll") = none := by decide +kernel
  exact ⟨s, t, u, run, again, step, module_handle_of_loaded run created again (by decide) step plain
    (.inl known) (.lit "Kernel32.DLL") (by decide +kernel) (by decide)⟩

end Kernel32
