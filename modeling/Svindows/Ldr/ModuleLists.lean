import Svindows.Ldr.LoadRuns
import Svindows.Lib.LinkedRing

/-!
# The module lists of the process

`LdrBuildProcessModuleList`, `LdrLoadLibrary` and the functions behind them in `ldr/pe.c`.
The modules of the table are copied one behind another into a region of user memory and
threaded onto the three lists of `PEB_LDR_DATA`. The bytes that are written make three
rings over the same entries, in the order of the table.
-/

namespace Ldr

open Nt Rtl ByteMemory LinkedRing

def processPebVa : Nat := 0x61000
def processLdrVa : Nat := 0x62000
def processLdrSize : Nat := 0x6000

def sizeofPebLdrData : Nat := 0x40
def sizeofLdrEntry : Nat := 0x70

/-- The list heads of `PEB_LDR_DATA`: load order, memory order, initialization order. -/
def listHead (ldr d : Nat) : Nat := ldr + 0x10 + 0x10 * d

/-- `wname`: the units of a name and a NUL. -/
def storeName (m : Memory) (a : Nat) : List UInt8 → Memory
  | [] => store m a 2 0
  | c :: cs => storeName (store m a 2 c.toNat) (a + 2) cs

/-- A UNICODE_STRING. -/
def storeUstr (m : Memory) (a length maximumLength buffer : Nat) : Memory :=
  store (store (store m a 2 length) (a + 2) 2 maximumLength) (a + 8) 8 buffer

/-- The part of a name that an entry keeps. -/
def entryName (module_ : LdrLoaded) : List UInt8 := module_.name.bytes.take 63

/-- The fields of a new entry, its links apart. -/
def writeEntry (m : Memory) (e : Nat) (module_ : LdrLoaded) : Memory :=
  let m := fill m e sizeofLdrEntry 0
  let nt := ntHeaders m module_.base
  let entryPoint := nt.elim 0 fun nt => wrap64 (module_.base + value m (nt + 40) 4)
  let sizeOfImage := nt.elim 0 fun nt => value m (nt + 80) 4
  let m := store m (e + 0x30) 8 module_.base
  let m := store m (e + 0x38) 8 entryPoint
  let m := store m (e + 0x40) 4 sizeOfImage
  let n := (entryName module_).length
  let wname := e + sizeofLdrEntry
  let m := storeName m wname (entryName module_)
  let m := storeUstr m (e + 0x58) (n * 2) ((n + 1) * 2) wname
  storeUstr m (e + 0x48) (n * 2) ((n + 1) * 2) wname

/-- Behind an entry and its name, realigned. -/
def nextEntry (e : Nat) (module_ : LdrLoaded) : Nat :=
  (e + sizeofLdrEntry + ((entryName module_).length + 1) * 2 + 7) / 8 * 8

/-- `g_peb_ldr`, `g_ldr_cursor`, `g_ldr_end` and the `Linked` fields of `g_loaded`. -/
structure ProcessLists where
  pebLdr : Nat
  cursor : Nat
  stop : Nat
  linked : Nat → Bool

/-- The three insertions of an entry. -/
def threadEntry (m : Memory) (ldr e : Nat) : Memory :=
  let m := insertTailList m (listHead ldr 0) e
  let m := insertTailList m (listHead ldr 1) (e + 0x10)
  insertTailList m (listHead ldr 2) (e + 0x20)

/-- `ldr_link_module` for the module in slot `i`. -/
def ldrLinkModule (i : Nat) (module_ : LdrLoaded) (s : ProcessLists) (m : Memory) :
    ProcessLists × Memory :=
  if s.pebLdr = 0 ∨ s.linked i = true then (s, m)
  else if s.stop < s.cursor + sizeofLdrEntry + 128 then (s, m)
  else
    ({ s with cursor := nextEntry s.cursor module_, linked := Function.update s.linked i true },
      threadEntry (writeEntry m s.cursor module_) s.pebLdr s.cursor)

/-- The loop of `ldr_sync_module_list`. -/
def syncSlots (table : ModuleTable) : List Nat → ProcessLists × Memory → ProcessLists × Memory
  | [], s => s
  | i :: is, s =>
    syncSlots table is
      (if (table i).valid = true ∧ s.1.linked i = false then ldrLinkModule i (table i) s.1 s.2 else s)

def ldrSyncModuleList (table : ModuleTable) (s : ProcessLists) (m : Memory) : ProcessLists × Memory :=
  syncSlots table slots (s, m)

/-- `PEB_LDR_DATA` with three empty lists. -/
def emptyLists (m : Memory) (ldr : Nat) : Memory :=
  let m := fill m ldr sizeofPebLdrData 0
  let m := store m ldr 4 sizeofPebLdrData
  let m := store m (ldr + 4) 1 1
  let m := initializeListHead m (listHead ldr 0)
  let m := initializeListHead m (listHead ldr 1)
  initializeListHead m (listHead ldr 2)

def ldrBuildProcessModuleList (table : ModuleTable) (peb ldrVa ldrSize : Nat) (s : ProcessLists)
    (m : Memory) : ProcessLists × Memory :=
  let s := { s with
    pebLdr := ldrVa
    cursor := ldrVa + sizeofPebLdrData
    stop := ldrVa + ldrSize }
  let (s, m) := ldrSyncModuleList table s (emptyLists m ldrVa)
  (s, store m (peb + 0x18) 8 ldrVa)

/-- Where the entry of the module in slot `k` stands if every module before it is listed. -/
def entryAt (table : ModuleTable) : Nat → Nat
  | 0 => processLdrVa + sizeofPebLdrData
  | k + 1 => nextEntry (entryAt table k) (table k)

/-- The fields of an entry that `GetModuleHandle` reads. -/
structure EntryHolds (m : Memory) (e : Nat) (module_ : LdrLoaded) : Prop where
  base : load m (e + 0x30) 8 = module_.base
  length : load m (e + 0x58) 2 = 2 * (entryName module_).length
  buffer : load m (e + 0x60) 8 = e + sizeofLdrEntry
  units : ∀ j c, (entryName module_)[j]? = some c → load m (e + sizeofLdrEntry + 2 * j) 2 = c.toNat

variable {m m' : Memory} {module_ : LdrLoaded} {e : Nat}

variable {a b : Nat}

theorem storeName_outside {name : List UInt8}
    (off : b < a ∨ a + 2 * (name.length + 1) ≤ b) : storeName m a name b = m b := by
  induction name generalizing m a with
  | nil =>
    rw [List.length_nil] at off
    exact store_outside (by omega)
  | cons c cs ih =>
    rw [List.length_cons] at off
    rw [storeName, ih (by omega), store_outside (by omega)]

theorem load_storeName_outside {width : Nat} {name : List UInt8}
    (off : b + width ≤ a ∨ a + 2 * (name.length + 1) ≤ b) :
    load (storeName m a name) b width = load m b width :=
  load_congr fun _ low high => storeName_outside (by omega)

theorem storeName_units {j : Nat} {c : UInt8} {name : List UInt8} (unit : name[j]? = some c) :
    load (storeName m a name) (a + 2 * j) 2 = c.toNat := by
  induction name generalizing m a j with
  | nil => simp at unit
  | cons d name ih =>
    cases j with
    | zero =>
      cases unit
      have kept : load (storeName (store m a 2 c.toNat) (a + 2) name) a 2 =
          load (store m a 2 c.toNat) a 2 :=
        load_congr fun b low high => storeName_outside (by omega)
      refine kept.trans ?_
      exact load_store_same (Nat.lt_trans c.toNat_lt (by decide))
    | succ j =>
      have place : a + 2 * (j + 1) = a + 2 + 2 * j := by omega
      rw [storeName, place]
      exact ih (by simpa using unit)

theorem entryName_length_le (module_ : LdrLoaded) : (entryName module_).length ≤ 63 := by
  simp only [entryName, List.length_take]
  omega

theorem nextEntry_bounds (e : Nat) (module_ : LdrLoaded) :
    e + sizeofLdrEntry + 2 * ((entryName module_).length + 1) ≤ nextEntry e module_ ∧
      nextEntry e module_ ≤ e + sizeofLdrEntry + 135 := by
  have short := entryName_length_le module_
  have size : sizeofLdrEntry = 0x70 := rfl
  simp only [nextEntry]
  omega

theorem EntryHolds.congr (holds : EntryHolds m e module_)
    (same : ∀ b, e + 0x30 ≤ b → b < nextEntry e module_ → m' b = m b) :
    EntryHolds m' e module_ := by
  have bound := (nextEntry_bounds e module_).1
  have size : sizeofLdrEntry = 0x70 := rfl
  refine ⟨?_, ?_, ?_, fun j c unit => ?_⟩
  · rw [← holds.base]
    exact load_congr fun b low high => same b (by omega) (by omega)
  · rw [← holds.length]
    exact load_congr fun b low high => same b (by omega) (by omega)
  · rw [← holds.buffer]
    exact load_congr fun b low high => same b (by omega) (by omega)
  · have inside : j < (entryName module_).length := (List.getElem?_eq_some_iff.mp unit).1
    rw [← holds.units j c unit]
    exact load_congr fun b low high => same b (by omega) (by omega)

theorem writeEntry_outside (off : b < e ∨ nextEntry e module_ ≤ b) :
    writeEntry m e module_ b = m b := by
  have bound := (nextEntry_bounds e module_).1
  have size : sizeofLdrEntry = 0x70 := rfl
  simp only [writeEntry, storeUstr]
  iterate 6 rw [store_outside (by omega)]
  rw [storeName_outside (by omega)]
  iterate 3 rw [store_outside (by omega)]
  exact fill_outside (by omega)

theorem writeEntry_holds (m : Memory) (base : module_.base < 2 ^ 64)
    (word : e + sizeofLdrEntry < 2 ^ 64) :
    EntryHolds (writeEntry m e module_) e module_ := by
  have short := entryName_length_le module_
  have size : sizeofLdrEntry = 0x70 := rfl
  simp only [writeEntry, storeUstr]
  refine ⟨?_, ?_, ?_, fun j c unit => ?_⟩
  · iterate 6 rw [load_store_outside (by omega)]
    rw [load_storeName_outside (by omega), load_store_outside (by omega),
      load_store_outside (by omega), load_store_same base]
  · iterate 5 rw [load_store_outside (by omega)]
    rw [load_store_same (by omega), Nat.mul_comm]
  · iterate 3 rw [load_store_outside (by omega)]
    exact load_store_same word
  · iterate 6 rw [load_store_outside (by omega)]
    exact storeName_units unit

section Places

variable {table table' : ModuleTable} {i j k d d' : Nat}

theorem entryAt_step (table : ModuleTable) (i : Nat) :
    entryAt table i + sizeofLdrEntry + 2 ≤ entryAt table (i + 1) ∧
      entryAt table (i + 1) ≤ entryAt table i + 247 := by
  have bounds := nextEntry_bounds (entryAt table i) (table i)
  have size : sizeofLdrEntry = 0x70 := rfl
  rw [entryAt]
  omega

theorem entryAt_mono (table : ModuleTable) : Monotone (entryAt table) :=
  monotone_nat_of_le_succ fun i => by
    have step := (entryAt_step table i).1
    omega

/-- The entries follow each other. -/
theorem entryAt_lt (table : ModuleTable) (lt : i < j) :
    entryAt table i + sizeofLdrEntry ≤ entryAt table j := by
  have step := (entryAt_step table i).1
  have rest : entryAt table (i + 1) ≤ entryAt table j := entryAt_mono table lt
  omega

theorem entryAt_bounds (table : ModuleTable) (k : Nat) :
    processLdrVa + sizeofPebLdrData ≤ entryAt table k ∧
      entryAt table k ≤ processLdrVa + sizeofPebLdrData + 247 * k := by
  induction k with
  | zero => exact ⟨Nat.le_refl _, Nat.le_refl _⟩
  | succ k ih =>
    have step := entryAt_step table k
    omega

theorem entryAt_room (table : ModuleTable) (few : k ≤ maxLoadedModules) :
    entryAt table k + sizeofLdrEntry + 128 ≤ processLdrVa + processLdrSize := by
  have bound := (entryAt_bounds table k).2
  have slots : maxLoadedModules = 64 := rfl
  have size : sizeofLdrEntry = 0x70 := rfl
  have head : sizeofPebLdrData = 0x40 := rfl
  have region : processLdrSize = 0x6000 := rfl
  omega

theorem entryAt_congr (same : ∀ i < k, (table' i).name = (table i).name) :
    entryAt table' k = entryAt table k := by
  induction k with
  | zero => rfl
  | succ k ih =>
    rw [entryAt, entryAt, ih fun i lt => same i (Nat.lt_succ_of_lt lt)]
    simp only [nextEntry, entryName, same k (Nat.lt_succ_self k)]

/-- The nodes of the list `d` behind its head. -/
def nodes (table : ModuleTable) (d k : Nat) : List Nat :=
  (List.range k).map fun i => entryAt table i + 0x10 * d

theorem nodes_succ (table : ModuleTable) (d k : Nat) :
    nodes table d (k + 1) = nodes table d k ++ [entryAt table k + 0x10 * d] := by
  rw [nodes, List.range_succ, List.map_append]
  rfl

theorem node_cases (node : a ∈ listHead processLdrVa d :: nodes table d k) :
    a = listHead processLdrVa d ∨ ∃ i < k, a = entryAt table i + 0x10 * d := by
  rw [List.mem_cons, nodes, List.mem_map] at node
  rcases node with head | ⟨i, member, rfl⟩
  · exact .inl head
  · exact .inr ⟨i, List.mem_range.mp member, rfl⟩

/-- Two nodes are one node of one list, or share no bytes. -/
theorem nodes_cases {k' : Nat} (lists : d = d' ∨ d < 3 ∧ d' < 3)
    (node : a ∈ listHead processLdrVa d :: nodes table d k)
    (node' : b ∈ listHead processLdrVa d' :: nodes table d' k') :
    a = b ∧ d = d' ∨ a + 16 ≤ b ∨ b + 16 ≤ a := by
  have size : sizeofLdrEntry = 0x70 := rfl
  have head : sizeofPebLdrData = 0x40 := rfl
  rcases node_cases node with rfl | ⟨i, -, rfl⟩
  · rcases node_cases node' with rfl | ⟨j, -, rfl⟩
    · simp only [listHead]
      omega
    · have low := (entryAt_bounds table j).1
      rw [listHead]
      omega
  · rcases node_cases node' with rfl | ⟨j, -, rfl⟩
    · have low := (entryAt_bounds table i).1
      rw [listHead]
      omega
    · rcases Nat.lt_trichotomy i j with lt | rfl | lt
      · have := entryAt_lt table lt
        omega
      · omega
      · have := entryAt_lt table lt
        omega

theorem nodes_apart (node : a ∈ listHead processLdrVa d :: nodes table d k)
    (node' : b ∈ listHead processLdrVa d :: nodes table d k) : Apart a b :=
  (nodes_cases (.inl rfl) node node').imp_left And.left

/-- Nodes of different lists share no bytes. -/
theorem nodes_disjoint {k' : Nat} (small : d < 3) (small' : d' < 3) (other : d ≠ d')
    (node : a ∈ listHead processLdrVa d :: nodes table d k)
    (node' : b ∈ listHead processLdrVa d' :: nodes table d' k') : a + 16 ≤ b ∨ b + 16 ≤ a :=
  (nodes_cases (.inr ⟨small, small'⟩) node node').resolve_left fun one => other one.2

end Places

section Rings

variable {table table' : ModuleTable} {d k : Nat} {n : Nat → Nat}

/-- List `d` is a ring over the first `n d` entries. -/
def Rings (table : ModuleTable) (m : Memory) (n : Nat → Nat) : Prop :=
  ∀ d < 3, IsRing (linksAt m) (listHead processLdrVa d) (nodes table d (n d))

/-- A byte that belongs to no list head and to no link of the first `k` entries. -/
def OffLinks (table : ModuleTable) (k b : Nat) : Prop :=
  (b < processLdrVa ∨ processLdrVa + sizeofPebLdrData ≤ b) ∧
    ∀ i < k, b < entryAt table i ∨ entryAt table i + 0x30 ≤ b

theorem node_off {j : Nat} (small : d < 3) (off : OffLinks table k b) (le : j ≤ k)
    (node : a ∈ listHead processLdrVa d :: nodes table d j) : b < a ∨ a + 16 ≤ b := by
  have head : sizeofPebLdrData = 0x40 := rfl
  rcases node_cases node with rfl | ⟨i, lt, rfl⟩
  · have := off.1
    rw [listHead]
    omega
  · have := off.2 i (Nat.lt_of_lt_of_le lt le)
    omega

theorem Rings.congr (rings : Rings table m n) (few : ∀ d, n d ≤ k)
    (same : ∀ b, processLdrVa ≤ b → b < entryAt table k → m' b = m b) : Rings table m' n := by
  intro d small
  refine (rings d small).congr (same_of_bytes fun a node b low high => ?_)
  have size : sizeofLdrEntry = 0x70 := rfl
  have head : sizeofPebLdrData = 0x40 := rfl
  have least := (entryAt_bounds table k).1
  rcases node_cases node with rfl | ⟨i, lt, rfl⟩
  · rw [listHead] at low high
    exact same b (by omega) (by omega)
  · have first := (entryAt_bounds table i).1
    have last := entryAt_lt table (Nat.lt_of_lt_of_le lt (few d))
    exact same b (by omega) (by omega)

/-- The next entry is added to list `d`. -/
theorem Rings.insert (rings : Rings table m n) (small : d < 3) (few : n d ≤ maxLoadedModules) :
    Rings table (insertTailList m (listHead processLdrVa d) (entryAt table (n d) + 0x10 * d))
      (Function.update n d (n d + 1)) := by
  have ring := rings d small
  have room := entryAt_room table few
  have fresh : entryAt table (n d) + 0x10 * d ∉ listHead processLdrVa d :: nodes table d (n d) := by
    intro node
    have size : sizeofLdrEntry = 0x70 := rfl
    have head : sizeofPebLdrData = 0x40 := rfl
    rcases node_cases node with same | ⟨i, lt, same⟩
    · have low := (entryAt_bounds table (n d)).1
      rw [listHead] at same
      omega
    · have := entryAt_lt table lt
      omega
  intro d' small'
  by_cases here : d' = d
  · subst here
    rw [Function.update_self, nodes_succ]
    refine ring.insertTailList fresh (fun a node b node' => ?_) fun a node => ?_
    · rw [← nodes_succ] at node node'
      exact nodes_apart node node'
    · rw [← nodes_succ] at node
      have region : processLdrVa + processLdrSize = 0x68000 := rfl
      rcases node_cases node with rfl | ⟨i, lt, rfl⟩
      · rw [listHead, processLdrVa]
        omega
      · have := entryAt_mono table (Nat.lt_succ_iff.mp lt)
        omega
  · rw [Function.update_of_ne here]
    refine ring.insertTailList_other (rings d' small') fun a node b node' => ?_
    rw [← nodes_succ] at node
    exact nodes_disjoint small small' (Ne.symm here) node node'

theorem Rings.insert_outside (rings : Rings table m n) (small : d < 3) (few : n d < k)
    (off : OffLinks table k b) :
    insertTailList m (listHead processLdrVa d) (entryAt table (n d) + 0x10 * d) b = m b := by
  have new : entryAt table (n d) + 0x10 * d ∈
      listHead processLdrVa d :: nodes table d (n d + 1) := by
    rw [nodes_succ]
    simp
  exact insertTailList_outside (node_off small off few.le List.mem_cons_self)
    (node_off small off few new) (node_off small off few.le (rings d small).prev_mem)

/-- The three insertions of the entry of slot `k`. -/
theorem Rings.threadEntry (rings : Rings table m fun _ => k) (few : k ≤ maxLoadedModules) :
    Rings table (threadEntry m processLdrVa (entryAt table k)) (fun _ => k + 1) ∧
      ∀ b, OffLinks table (k + 1) b → threadEntry m processLdrVa (entryAt table k) b = m b := by
  have none_ : 0 < 3 := by decide
  have first := rings.insert none_ few
  have second := first.insert (d := 1) (by decide) few
  have third := second.insert (d := 2) (by decide) few
  refine ⟨fun d small => ?_, fun b off => ?_⟩
  · have ring := third d small
    have all : d = 0 ∨ d = 1 ∨ d = 2 := by omega
    rcases all with rfl | rfl | rfl
    · exact ring
    · exact ring
    · exact ring
  · have next : k < k + 1 := Nat.lt_succ_self k
    have outside := second.insert_outside (d := 2) (by decide) next off
    rw [first.insert_outside (d := 1) (by decide) next off,
      rings.insert_outside none_ next off] at outside
    exact outside

end Rings

/-- The modules in the first `k` slots are listed, in this order. -/
structure Lists (table : ModuleTable) (s : ProcessLists) (m : Memory) (k : Nat) : Prop where
  few : k ≤ maxLoadedModules
  used : ∀ i < k, (table i).valid = true
  linked : ∀ i, s.linked i = true ↔ i < k
  pebLdr : s.pebLdr = processLdrVa
  cursor : s.cursor = entryAt table k
  stop : s.stop = processLdrVa + processLdrSize
  rings : Rings table m fun _ => k
  entries : ∀ i < k, EntryHolds m (entryAt table i) (table i)

section Lists

variable {table table' : ModuleTable} {s : ProcessLists} {k : Nat}

/-- Before the region of the lists, or behind it. -/
def Outside (b : Nat) : Prop := b < processLdrVa ∨ processLdrVa + processLdrSize ≤ b

theorem Outside.offLinks (outside : Outside b) (few : k ≤ maxLoadedModules) :
    OffLinks table k b := by
  have size : sizeofLdrEntry = 0x70 := rfl
  rcases outside with before | behind
  · refine ⟨.inl before, fun i _ => .inl ?_⟩
    have low := (entryAt_bounds table i).1
    omega
  · have inside := entryAt_room table few
    have low := (entryAt_bounds table k).1
    refine ⟨.inr (by omega), fun i lt => .inr ?_⟩
    have : entryAt table i ≤ entryAt table k := entryAt_mono table lt.le
    omega

/-- The links of every entry lie before its other fields. -/
theorem field_offLinks {i : Nat} (first : entryAt table i + 0x30 ≤ b)
    (last : b < entryAt table (i + 1)) : OffLinks table k b := by
  have size : sizeofLdrEntry = 0x70 := rfl
  have least := (entryAt_bounds table i).1
  refine ⟨.inr (by omega), fun j _ => ?_⟩
  rcases Nat.lt_trichotomy i j with lt | rfl | lt
  · have : entryAt table (i + 1) ≤ entryAt table j := entryAt_mono table lt
    omega
  · exact .inr first
  · have := entryAt_lt table lt
    omega

/-- A module that is not listed yet gets the next entry. -/
theorem Lists.link_eq (lists : Lists table s m k) (room : k < maxLoadedModules) :
    ldrLinkModule k (table k) s m =
      ({ s with cursor := entryAt table (k + 1), linked := Function.update s.linked k true },
        threadEntry (writeEntry m (entryAt table k) (table k)) processLdrVa (entryAt table k)) := by
  have unlinked : ¬ s.linked k = true := fun linked => Nat.lt_irrefl k ((lists.linked k).mp linked)
  have nonzero : s.pebLdr ≠ 0 := by
    rw [lists.pebLdr]
    decide
  rw [ldrLinkModule, if_neg (not_or.mpr ⟨nonzero, unlinked⟩), lists.cursor, lists.stop,
    if_neg (Nat.not_lt.mpr (entryAt_room table room.le)), lists.pebLdr]
  rfl

/-- The module of slot `k` is listed behind the first `k`, and only bytes of the region are
written. -/
theorem Lists.link (lists : Lists table s m k) (fits : FieldsFit table) (room : k < maxLoadedModules)
    (valid : (table k).valid = true) : ∃ s' m', ldrLinkModule k (table k) s m = (s', m') ∧
      Lists table s' m' (k + 1) ∧ ∀ b, Outside b → m' b = m b := by
  have written : ∀ b, b < entryAt table k ∨ entryAt table (k + 1) ≤ b →
      writeEntry m (entryAt table k) (table k) b = m b := fun b off => writeEntry_outside off
  have rings : Rings table (writeEntry m (entryAt table k) (table k)) fun _ => k :=
    lists.rings.congr (fun _ => Nat.le_refl k) fun b _ high => written b (.inl high)
  obtain ⟨threaded, outside⟩ := rings.threadEntry room.le
  refine ⟨_, _, lists.link_eq room, ⟨room, fun i lt => ?_, fun i => ?_, lists.pebLdr, rfl,
    lists.stop, threaded, fun i lt => ?_⟩, fun b off => ?_⟩
  · rcases Nat.lt_succ_iff_lt_or_eq.mp lt with lt | rfl
    · exact lists.used i lt
    · exact valid
  · show Function.update s.linked k true i = true ↔ i < k + 1
    rw [Nat.lt_succ_iff_lt_or_eq, ← lists.linked i, Function.update_apply]
    split_ifs with same
    · exact iff_of_true rfl (.inr same)
    · rw [or_iff_left same]
  · have holds : EntryHolds (writeEntry m (entryAt table k) (table k)) (entryAt table i) (table i) := by
      rcases Nat.lt_succ_iff_lt_or_eq.mp lt with lt | rfl
      · refine (lists.entries i lt).congr fun b _ last => written b (.inl ?_)
        exact Nat.lt_of_lt_of_le last (entryAt_mono table lt)
      · have inside := entryAt_room table room.le
        have region : processLdrVa + processLdrSize = 0x68000 := rfl
        exact writeEntry_holds m (fits i valid).1 (by omega)
    exact holds.congr fun b first last => outside b (field_offLinks first last)
  · rw [outside b (off.offLinks room)]
    have low := (entryAt_bounds table k).1
    have inside : entryAt table (k + 1) + sizeofLdrEntry + 128 ≤ _ := entryAt_room table room
    rcases off with before | behind
    · exact written b (.inl (by omega))
    · exact written b (.inr (by omega))

/-- The loop over the slots from `i` on lists every module. -/
theorem Lists.sync (packed : Packed table) (fits : FieldsFit table) :
    ∀ {n i s m k}, i + n = maxLoadedModules → Lists table s m k →
      (i ≤ k ∨ (table k).valid = false) → ∃ s' m' k', syncSlots table (List.range' i n) (s, m) =
        (s', m') ∧ Lists table s' m' k' ∧
        (∀ j < maxLoadedModules, (table j).valid = true → j < k') ∧
        ∀ b, Outside b → m' b = m b := by
  intro n
  induction n with
  | zero =>
    intro i s m k all lists place
    refine ⟨s, m, k, rfl, lists, fun j small valid => ?_, fun b _ => rfl⟩
    rcases place with le | free
    · omega
    · by_contra beyond
      rcases Nat.eq_or_lt_of_le (Nat.le_of_not_lt beyond) with rfl | lt
      · rw [free] at valid
        cases valid
      · rw [packed k j lt small valid] at free
        cases free
  | succ n ih =>
    intro i s m k all lists place
    rw [List.range'_succ, syncSlots]
    split_ifs with new
    · -- an unlinked module is in the slot behind the listed ones
      have beyond : k ≤ i := by
        by_contra lt
        rw [(lists.linked i).mpr (Nat.lt_of_not_le lt)] at new
        cases new.2
      have here : i = k := by
        rcases Nat.eq_or_lt_of_le beyond with same | lt
        · exact same.symm
        · rcases place with le | free
          · omega
          · rw [packed k i lt (by omega) new.1] at free
            cases free
      subst here
      obtain ⟨s', m', linked, lists', outside⟩ := lists.link fits (by omega) new.1
      rw [linked]
      obtain ⟨s'', m'', k'', rest, lists'', every, outside'⟩ := ih (by omega) lists' (.inl le_rfl)
      exact ⟨s'', m'', k'', rest, lists'', every, fun b off => (outside' b off).trans (outside b off)⟩
    · refine ih (by omega) lists ?_
      rcases place with le | free
      · rcases Nat.eq_or_lt_of_le le with rfl | lt
        · refine .inr ?_
          have unlinked : s.linked i = false := by
            rw [← Bool.not_eq_true, lists.linked i]
            exact Nat.lt_irrefl i
          rw [← Bool.not_eq_true]
          exact fun valid => new ⟨valid, unlinked⟩
        · exact .inl lt
      · exact .inr free

/-- The lists stay as the table grows and memory outside of the region changes. -/
theorem Lists.grow (lists : Lists table s m k) (grows : TableGrows table table')
    (same : ∀ b, ¬ Outside b → m' b = m b) : Lists table' s m' k := by
  have names : ∀ i < k, (table' i).name = (table i).name := fun i lt =>
    (grows.kept i (lists.used i lt)).2.1
  have places : ∀ i ≤ k, entryAt table' i = entryAt table i := fun i le =>
    entryAt_congr fun j lt => names j (Nat.lt_of_lt_of_le lt le)
  have inside : ∀ b, processLdrVa ≤ b → b < entryAt table k → m' b = m b := by
    intro b low high
    have room := entryAt_room table lists.few
    refine same b fun outside => ?_
    rw [Outside] at outside
    omega
  refine ⟨lists.few, fun i lt => (grows.kept i (lists.used i lt)).1, lists.linked, lists.pebLdr,
    lists.cursor.trans (places k le_rfl).symm, lists.stop, fun d small => ?_, fun i lt => ?_⟩
  · have ring := (lists.rings.congr (fun _ => le_rfl) inside) d small
    have spelled : nodes table' d k = nodes table d k :=
      List.map_congr_left fun i member => by rw [places i (List.mem_range.mp member).le]
    rw [spelled]
    exact ring
  · have holds : EntryHolds m' (entryAt table i) (table i) := by
      refine (lists.entries i lt).congr fun b first last => inside b ?_ ?_
      · have := (entryAt_bounds table i).1
        omega
      · exact Nat.lt_of_lt_of_le last (entryAt_mono table lt)
    have base := (grows.kept i (lists.used i lt)).2.2
    have name : entryName (table' i) = entryName (table i) := by rw [entryName, names i lt, entryName]
    rw [places i lt.le]
    refine ⟨base ▸ holds.base, name ▸ holds.length, holds.buffer, fun j c unit => ?_⟩
    exact holds.units j c (name ▸ unit)

/-- Every module in the table is listed. -/
def AllListed (table : ModuleTable) (s : ProcessLists) : Prop :=
  ∀ i < maxLoadedModules, (table i).valid = true → s.linked i = true

theorem Lists.ldrSyncModuleList (lists : Lists table s m k) (packed : Packed table)
    (fits : FieldsFit table) : ∃ s' m' k', Ldr.ldrSyncModuleList table s m = (s', m') ∧
      Lists table s' m' k' ∧ AllListed table s' ∧ ∀ b, Outside b → m' b = m b := by
  obtain ⟨s', m', k', run, lists', every, outside⟩ :=
    lists.sync packed fits (Nat.zero_add maxLoadedModules) (.inl (Nat.zero_le k))
  refine ⟨s', m', k', ?_, lists', fun i small valid => ?_, outside⟩
  · rw [Ldr.ldrSyncModuleList, slots, List.range_eq_range', run]
  · exact (lists'.linked i).mpr (every i small valid)

theorem emptyLists_rings (table : ModuleTable) (m : Memory) :
    Rings table (emptyLists m processLdrVa) fun _ => 0 := by
  have word : ∀ d < 3, listHead processLdrVa d < 2 ^ 64 := by decide
  -- the heads stand behind each other
  have apart : ∀ {m d d'}, d < 3 → d' < 3 → d ≠ d' → IsRing (linksAt m) (listHead processLdrVa d) [] →
      IsRing (linksAt (initializeListHead m (listHead processLdrVa d'))) (listHead processLdrVa d)
        [] := by
    intro m d d' small small' other ring
    refine ring.congr (same_of_bytes fun a node b low high => initializeListHead_outside ?_)
    rw [List.mem_singleton] at node
    subst node
    simp only [listHead] at low high ⊢
    omega
  intro d small
  have all : d = 0 ∨ d = 1 ∨ d = 2 := by omega
  rcases all with rfl | rfl | rfl
  · exact apart small (by decide) (by decide) (apart small (by decide) (by decide)
      (initializeListHead_ring _ (word 0 small)))
  · exact apart small (by decide) (by decide) (initializeListHead_ring _ (word 1 small))
  · exact initializeListHead_ring _ (word 2 small)

theorem build_lists (packed : Packed table) (fits : FieldsFit table)
    (unlinked : ∀ i, s.linked i = false) : ∃ s' m' k',
      ldrBuildProcessModuleList table processPebVa processLdrVa processLdrSize s m = (s', m') ∧
      Lists table s' m' k' ∧ AllListed table s' ∧ load m' (processPebVa + 0x18) 8 = processLdrVa := by
  have start : Lists table
      { s with
        pebLdr := processLdrVa
        cursor := processLdrVa + sizeofPebLdrData
        stop := processLdrVa + processLdrSize } (emptyLists m processLdrVa) 0 :=
    { few := Nat.zero_le _
      used := fun i lt => absurd lt (Nat.not_lt_zero i)
      linked := fun i => by simp [unlinked i]
      pebLdr := rfl
      cursor := rfl
      stop := rfl
      rings := emptyLists_rings table m
      entries := fun i lt => absurd lt (Nat.not_lt_zero i) }
  obtain ⟨s', m', k', run, lists, every, -⟩ := start.ldrSyncModuleList packed fits
  have kept : Lists table s' (store m' (processPebVa + 0x18) 8 processLdrVa) k' :=
    lists.grow (.refl table) fun b inside => store_outside (by
      rw [Outside, not_or, processLdrVa] at inside
      rw [processPebVa]
      omega)
  exact ⟨s', _, k', by rw [ldrBuildProcessModuleList, run], kept, every, load_store_same (by decide)⟩

/-- Before the process has its lists nothing is linked. -/
theorem syncSlots_unbuilt (none_ : s.pebLdr = 0) (is : List Nat) :
    syncSlots table is (s, m) = (s, m) := by
  induction is with
  | nil => rfl
  | cons i is ih =>
    have stays : ldrLinkModule i (table i) s m = (s, m) := by
      rw [ldrLinkModule, if_pos (.inl none_)]
    rw [syncSlots]
    split_ifs
    · show syncSlots table is (ldrLinkModule i (table i) s m) = (s, m)
      rw [stays, ih]
    · exact ih

end Lists

/-- The loader, its memory and the lists of the process. -/
structure ProcessState where
  link : LinkState
  lists : ProcessLists

def ProcessState.mem (s : ProcessState) : Memory := s.link.image.mem

inductive ProcessOp where
  /-- `PsCreateUserProcess` builds the lists. -/
  | build
  /-- `LdrLoadLibrary`. -/
  | load (volume : CString → Option PeFile) (rounds fuel : Nat) (name : CString)
  /-- Programs and the rest of the kernel. -/
  | other (op : LinkOp)

/-- The lists and the pointer of the PEB to them are left alone, as they are from the moment the
process has them. -/
def Spared (m m' : Memory) : Prop :=
  ∀ b, ¬ Outside b ∨ processPebVa + 0x18 ≤ b ∧ b < processPebVa + 0x20 → m' b = m b

def LinkState.withMem (s : LinkState) (m : Memory) : LinkState :=
  { s with image := { s.image with mem := m } }

def ProcessStart (s : ProcessState) : Prop :=
  LinkStart s.link ∧ s.lists.pebLdr = 0 ∧ ∀ i, s.lists.linked i = false

/-- The list code apart, the step spares the lists: neither the loader's writes to the images and
their imports nor a program overwrite them. -/
def ProcessOp.Spares (s t : ProcessState) : ProcessOp → Prop
  | .build => True
  | .load volume rounds fuel name => ∀ b u,
    ldrLoadLibrary volume rounds fuel name s.link = some (b, u) → Spared s.mem u.image.mem
  | .other _ => Spared s.mem t.mem

def ProcessStep (s : ProcessState) : ProcessOp → ProcessState → Prop
  | .build, t => s.lists.pebLdr = 0 ∧ ∃ m,
    ldrBuildProcessModuleList s.link.table processPebVa processLdrVa processLdrSize s.lists s.mem =
      (t.lists, m) ∧ t.link = s.link.withMem m
  | .load volume rounds fuel name, t => ∃ b u,
    ldrLoadLibrary volume rounds fuel name s.link = some (b, u) ∧
      if b = 0 then t.lists = s.lists ∧ t.link = u
      else ∃ m, ldrSyncModuleList u.table s.lists u.image.mem = (t.lists, m) ∧ t.link = u.withMem m
  | .other op, t => LinkStep s.link op t.link ∧ t.lists = s.lists

/-- A step that spares the lists once the process has them. -/
def SparingStep (s : ProcessState) (op : ProcessOp) (t : ProcessState) : Prop :=
  ProcessStep s op t ∧ (s.lists.pebLdr ≠ 0 → op.Spares s t)

/-- The process has its lists. -/
structure Built (s : ProcessState) (k : Nat) : Prop where
  lists : Lists s.link.table s.lists s.mem k
  peb : load s.mem (processPebVa + 0x18) 8 = processLdrVa

structure ProcessInv (s : ProcessState) : Prop where
  sound : LinkSound s.link
  fit : FieldsFit s.link.table
  lists : (s.lists.pebLdr = 0 ∧ ∀ i, s.lists.linked i = false) ∨ ∃ k, Built s k

variable {s t : ProcessState} {k : Nat}

theorem Built.created (built : Built s k) : s.lists.pebLdr ≠ 0 := by
  rw [built.lists.pebLdr]
  decide

theorem Spared.peb {m m' : Memory} (spared : Spared m m') :
    load m' (processPebVa + 0x18) 8 = load m (processPebVa + 0x18) 8 :=
  load_congr fun b low high => spared b (.inr ⟨low, high⟩)

/-- Writing only the region leaves the pointer of the PEB alone. -/
theorem peb_of_outside {m m' : Memory} (outside : ∀ b, Outside b → m' b = m b) :
    load m' (processPebVa + 0x18) 8 = load m (processPebVa + 0x18) 8 :=
  load_congr fun b _ high => outside b (.inl (by rw [processLdrVa]; rw [processPebVa] at high; omega))

theorem LinkSound.grows {s t : LinkState} (sound : LinkSound s) (grows : Grows s t) : LinkSound t :=
  ⟨grows.depth.trans sound.idle, grows.table.packed sound.packed⟩

theorem ProcessInv.step {op : ProcessOp} (inv : ProcessInv s) (step : SparingStep s op t) :
    ProcessInv t := by
  obtain ⟨step, spares⟩ := step
  cases op with
  | build =>
    obtain ⟨none_, m, run, same⟩ := step
    have table : t.link.table = s.link.table := by rw [same]; rfl
    have mem : t.mem = m := by rw [ProcessState.mem, same]; rfl
    have sound : LinkSound t.link := by rw [same]; exact ⟨inv.sound.idle, inv.sound.packed⟩
    have fit : FieldsFit t.link.table := table ▸ inv.fit
    rcases inv.lists with ⟨-, unlinked⟩ | ⟨k, built⟩
    · obtain ⟨s', m', k', run', lists, -, peb⟩ := build_lists inv.sound.packed inv.fit unlinked (m := s.mem)
      obtain ⟨rfl, rfl⟩ := Prod.mk.inj (run'.symm.trans run)
      exact ⟨sound, fit, .inr ⟨k', by rw [table, mem]; exact lists, by rw [mem]; exact peb⟩⟩
    · rw [built.lists.pebLdr] at none_
      cases none_
  | load volume rounds fuel name =>
    obtain ⟨b, u, load, rest⟩ := step
    have grows : Grows s.link u := (calls_grow volume rounds fuel).load name s.link b u load
    have sound : LinkSound u := inv.sound.grows grows
    have fit : FieldsFit u.table := grows.table.fit inv.fit
    split at rest
    · obtain ⟨lists, rfl⟩ := rest
      refine ⟨sound, fit, ?_⟩
      rcases inv.lists with ⟨none_, unlinked⟩ | ⟨k, built⟩
      · exact .inl (by rw [lists]; exact ⟨none_, unlinked⟩)
      · have spared := spares built.created b _ load
        refine .inr ⟨k, ?_, spared.peb.trans built.peb⟩
        rw [lists]
        exact built.lists.grow grows.table fun b inside => spared b (.inl inside)
    · obtain ⟨m, run, same⟩ := rest
      have table : t.link.table = u.table := by rw [same]; rfl
      have mem : t.mem = m := by rw [ProcessState.mem, same]; rfl
      refine ⟨by rw [same]; exact ⟨sound.idle, sound.packed⟩, table ▸ fit, ?_⟩
      rcases inv.lists with ⟨none_, unlinked⟩ | ⟨k, built⟩
      · rw [ldrSyncModuleList, syncSlots_unbuilt none_] at run
        rw [← (Prod.mk.inj run).1]
        exact .inl ⟨none_, unlinked⟩
      · have spared := spares built.created b _ load
        have grown := built.lists.grow grows.table fun b inside => spared b (.inl inside)
        obtain ⟨s', m', k', run', lists, -, outside⟩ := grown.ldrSyncModuleList sound.packed fit
        obtain ⟨rfl, rfl⟩ := Prod.mk.inj (run'.symm.trans run)
        refine .inr ⟨k', by rw [table, mem]; exact lists, ?_⟩
        rw [mem]
        exact (peb_of_outside outside).trans (spared.peb.trans built.peb)
  | other op =>
    obtain ⟨link, lists⟩ := step
    have grows := link.grows
    refine ⟨inv.sound.grows grows, grows.table.fit inv.fit, ?_⟩
    rcases inv.lists with ⟨none_, unlinked⟩ | ⟨k, built⟩
    · exact .inl (by rw [lists]; exact ⟨none_, unlinked⟩)
    · have spared := spares built.created
      refine .inr ⟨k, ?_, spared.peb.trans built.peb⟩
      rw [lists]
      exact built.lists.grow grows.table fun b inside => spared b (.inl inside)

theorem ProcessInv.built (inv : ProcessInv s) (created : s.lists.pebLdr ≠ 0) : ∃ k, Built s k :=
  inv.lists.resolve_left fun unbuilt => created unbuilt.1

theorem ProcessInv.of_reachable (run : Runs.Reachable ProcessStart SparingStep s) : ProcessInv s := by
  refine run.invariant ?_ fun _ _ _ inv step => inv.step step
  rintro s ⟨link, none_, unlinked⟩
  refine ⟨.of_reachable (.of_initial link), fun i valid => ?_, .inl ⟨none_, unlinked⟩⟩
  rw [link.1 i] at valid
  cases valid

/-- From its creation on the process has three rings over the same entries: the modules of the
first slots of the table, in their order. They stay as long as nothing but the list code writes
to them. -/
theorem module_lists_kept (run : Runs.Reachable ProcessStart SparingStep s)
    (created : s.lists.pebLdr ≠ 0) : ∃ k, Built s k :=
  (ProcessInv.of_reachable run).built created

theorem loaded_twice {start u : LinkState} {volume : CString → Option PeFile} {rounds fuel : Nat}
    {dll : CString} (begin : LinkStart start) (loaded : ldrLoadLibrary volume rounds (fuel + 2) dll start = some (b, u))
    (some_ : b ≠ 0) (found : lookupModule u.table (routed dll) = b) : ∃ s t v,
      Runs.Reachable ProcessStart SparingStep s ∧ s.lists.pebLdr ≠ 0 ∧ s.link.table = u.table ∧
        ldrLoadLibrary volume rounds (fuel + 2) dll s.link = some (b, v) ∧
        SparingStep s (.load volume rounds (fuel + 2) dll) t := by
  let unbuilt : ProcessLists := ⟨0, 0, 0, fun _ => false⟩
  have run : Runs.Reachable ProcessStart SparingStep ⟨u, unbuilt⟩ := by
    refine (Runs.Reachable.of_initial (s := ⟨start, unbuilt⟩) ⟨begin, rfl, fun _ => rfl⟩).next
      (l := .load volume rounds (fuel + 2) dll)
      ⟨⟨b, u, loaded, ?_⟩, fun built => absurd rfl built⟩
    rw [if_neg some_]
    exact ⟨u.image.mem, syncSlots_unbuilt rfl slots, rfl⟩
  have inv := ProcessInv.of_reachable run
  have sound : LinkSound u := inv.sound
  obtain ⟨lists, m, k, build, listed, -⟩ := build_lists (s := unbuilt) (m := u.image.mem)
    sound.packed inv.fit fun _ => rfl
  have run' : Runs.Reachable ProcessStart SparingStep ⟨u.withMem m, lists⟩ :=
    run.next (l := .build) ⟨⟨rfl, m, build, rfl⟩, fun _ => trivial⟩
  have depth : (u.withMem m).depth + 1 < maxDependencyDepth := by
    rw [show (u.withMem m).depth = 0 from sound.idle]
    decide
  have again := @load_cached dll volume rounds (u.withMem m) fuel depth
    (by rw [show (u.withMem m).table = u.table from rfl, found]; exact some_)
  rw [show (u.withMem m).table = u.table from rfl, found] at again
  refine ⟨_, ⟨u.withMem (ldrSyncModuleList u.table lists m).2,
    (ldrSyncModuleList u.table lists m).1⟩, _, run', ?_, rfl, again, ⟨_, _, again, ?_⟩, ?_⟩
  · rw [listed.pebLdr]
    decide
  · rw [if_neg some_]
    exact ⟨_, rfl, rfl⟩
  · -- the module is in the table, so that the loader writes nothing
    rintro - b' v' load
    obtain ⟨-, rfl⟩ := Prod.mk.inj (Option.some.inj (again.symm.trans load))
    exact fun _ _ => rfl

theorem kernel32_twice : ∃ s t u,
    Runs.Reachable ProcessStart SparingStep s ∧ s.lists.pebLdr ≠ 0 ∧
      lookupModule s.link.table (.lit "kernel32.dll") ≠ 0 ∧
      ldrLoadLibrary kernel32Only 1 2 (.lit "kernel32.dll") s.link = some (0x400000, u) ∧
      SparingStep s (.load kernel32Only 1 2 (.lit "kernel32.dll")) t := by
  have first : (ldrLoadLibrary kernel32Only 1 2 (.lit "kernel32.dll") noModules).map (fun r =>
      (r.1, lookupModule r.2.table (.lit "kernel32.dll"))) = some (0x400000, 0x400000) := by
    decide +kernel
  obtain ⟨⟨b, u⟩, loaded, same⟩ := Option.map_eq_some_iff.mp first
  obtain ⟨rfl, found⟩ := Prod.mk.inj same
  have plain : hostOf (.lit "kernel32.dll") = none := by decide +kernel
  have route : routed (.lit "kernel32.dll") = .lit "kernel32.dll" := by rw [routed, plain]; rfl
  obtain ⟨s, t, v, run, created, table, again, step⟩ := loaded_twice noModules_start loaded (by decide)
    (by rw [route]; exact found)
  refine ⟨s, t, v, run, created, ?_, again, step⟩
  rw [table, show lookupModule u.table (.lit "kernel32.dll") = 0x400000 from found]
  decide

theorem module_lists_kept_kernel32 : ∃ s k, lookupModule s.link.table (.lit "kernel32.dll") ≠ 0 ∧
    Built s k := by
  obtain ⟨s, -, -, run, created, known, -⟩ := kernel32_twice
  obtain ⟨k, built⟩ := module_lists_kept run created
  exact ⟨s, k, known, built⟩

/-- A load that succeeds lists every module of the table, those it did not ask for as well. -/
theorem listed_of_load {volume : CString → Option PeFile} {rounds fuel : Nat} {name : CString}
    {u : LinkState} (run : Runs.Reachable ProcessStart SparingStep s)
    (created : s.lists.pebLdr ≠ 0)
    (load : ldrLoadLibrary volume rounds fuel name s.link = some (b, u)) (some_ : b ≠ 0)
    (step : SparingStep s (.load volume rounds fuel name) t) :
    t.lists.pebLdr ≠ 0 ∧ t.link.table = u.table ∧ AllListed t.link.table t.lists := by
  have inv := ProcessInv.of_reachable run
  obtain ⟨k, built⟩ := inv.built created
  obtain ⟨⟨b', u', load', rest⟩, spares⟩ := step
  obtain ⟨rfl, rfl⟩ := Prod.mk.inj (Option.some.inj (load'.symm.trans load))
  rw [if_neg some_] at rest
  obtain ⟨m, sync, same⟩ := rest
  have table : t.link.table = u'.table := by rw [same]; rfl
  have grows : Grows s.link u' := (calls_grow volume rounds fuel).load name s.link b' u' load
  have grown := built.lists.grow grows.table fun b inside =>
    spares built.created b' u' load b (.inl inside)
  obtain ⟨s', m', k', sync', lists, every, -⟩ := grown.ldrSyncModuleList
    (grows.table.packed inv.sound.packed) (grows.table.fit inv.fit)
  obtain ⟨rfl, rfl⟩ := Prod.mk.inj (sync'.symm.trans sync)
  refine ⟨?_, table, table ▸ every⟩
  rw [lists.pebLdr]
  decide

end Ldr
