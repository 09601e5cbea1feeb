import Mathlib.Data.List.Perm.Subperm
import Svindows.Ldr.Modules
import Svindows.Lib.PostOrder

/-!
# The order in which DLLs are initialized

The traversal of `LdrpBuildInitBlock`: a depth-first walk over the recorded
dependencies, first from the executable in slot 0 and then from every module it
has not met. The list it leaves in the init block is the post-order of the walk,
without the executable and the modules that have no entry point. The block lies
in a page of its own, so writing it changes no image.
-/

namespace Ldr

open Nt ByteMemory PostOrder

structure InitEntry where
  moduleBase : Nat
  entryPoint : Nat
  deriving DecidableEq

/-- `Count` is the length of the list. -/
structure InitBlock where
  finalEntry : Nat
  entries : List InitEntry
  deriving DecidableEq

/-- `state` and the block; 0, 1 and 2 are fresh, open and done. -/
structure InitWalk where
  state : Nat → Mark
  block : InitBlock

/-- `AddressOfEntryPoint` of a mapped image, or 0 if it has no headers. -/
def entryRva (m : Memory) (base : Nat) : Nat :=
  match ntHeaders m base with
  | none => 0
  | some nt => value m (nt + 40) 4

def initEntry (table : ModuleTable) (m : Memory) (index : Nat) : InitEntry where
  moduleBase := (table index).base
  entryPoint := wrap64 ((table index).base + entryRva m (table index).base)

/-- The end of `LdrpAppendInitDfs`, when the dependencies are done. -/
def appendInit (table : ModuleTable) (m : Memory) (index : Nat) (block : InitBlock) : InitBlock :=
  if index = 0 then block
  else if entryRva m (table index).base = 0 ∨ maxLoadedModules ≤ block.entries.length then block
  else { block with entries := block.entries ++ [initEntry table m index] }

/-- `LdrpAppendInitDfs`; `none` is out of fuel. -/
def ldrpAppendInitDfs (table : ModuleTable) (m : Memory) : Nat → Nat → InitWalk → Option InitWalk
  | 0, _, _ => none
  | fuel + 1, index, s =>
    if maxLoadedModules ≤ index ∨ (table index).valid = false ∨ s.state index = .done then some s
    else if s.state index = .open_ then some s
    else
      (slots.foldlM
        (fun s i =>
          if (table index).dependencies.getLsbD i then ldrpAppendInitDfs table m fuel i s
          else some s)
        { s with state := Function.update s.state index .open_ }).map fun s =>
          { state := Function.update s.state index .done
            block := appendInit table m index s.block }

/-- The traversal of `LdrpBuildInitBlock`. -/
def ldrpBuildInitBlock (table : ModuleTable) (m : Memory) (fuel executableEntry : Nat) :
    Option InitBlock := do
  let s ← ldrpAppendInitDfs table m fuel 0 ⟨fun _ => .fresh, ⟨executableEntry, []⟩⟩
  let s ← (List.range' 1 63).foldlM
    (fun s i =>
      if (table i).valid = true ∧ s.state i = .fresh then ldrpAppendInitDfs table m fuel i s
      else some s) s
  some s.block

/-- The valid modules a module depends on. -/
def dependenciesOf (table : ModuleTable) (index : Nat) : List Nat :=
  slots.filter fun i => (table index).dependencies.getLsbD i && (table i).valid

def validSlots (table : ModuleTable) : List Nat := slots.filter fun i => (table i).valid

/-- A recorded dependency between two modules. -/
def DependsOn (table : ModuleTable) (index dependency : Nat) : Prop :=
  Edge (dependenciesOf table) index dependency

/-- The module is one that gets an entry. -/
def hasEntry (table : ModuleTable) (m : Memory) (index : Nat) : Bool :=
  index ≠ 0 ∧ entryRva m (table index).base ≠ 0

variable {table : ModuleTable} {m : Memory}

/-- The state of the source's walk for a walk over the graph. -/
structure Sim (table : ModuleTable) (m : Memory) (entry : Nat) (s : InitWalk) (w : Walk Nat) :
    Prop where
  state : s.state = w.mark
  entries : s.block.entries = (w.order.filter (hasEntry table m)).map (initEntry table m)
  final : s.block.finalEntry = entry
  bounded : ∀ i ∈ w.order, i < maxLoadedModules

variable {entry : Nat} {s : InitWalk} {w w' : Walk Nat} {index : Nat}

theorem Sim.open_ (sim : Sim table m entry s w) (index : Nat) :
    Sim table m entry { s with state := Function.update s.state index .open_ }
      (w.set index .open_) where
  state := by rw [sim.state]; rfl
  entries := sim.entries
  final := sim.final
  bounded := sim.bounded

/-- There is room for one more: the list has distinct slots below 64, without this one. -/
theorem Sim.room (sim : Sim table m entry s w) (nodup : w.order.Nodup)
    (small : index < maxLoadedModules) (new : index ∉ w.order) :
    s.block.entries.length < maxLoadedModules := by
  have listed : (w.order ++ [index]).Nodup := List.nodup_append.mpr ⟨nodup, by simp, by
    rintro a ha b hb rfl
    exact new (List.mem_singleton.mp hb ▸ ha)⟩
  have inside : w.order ++ [index] ⊆ slots := by
    intro i hi
    rcases List.mem_append.mp hi with old | this
    · exact List.mem_range.mpr (sim.bounded i old)
    · rw [List.mem_singleton.mp this]
      exact List.mem_range.mpr small
  have length := (List.subperm_of_subset listed inside).length_le
  have filtered := List.length_filter_le (hasEntry table m) w.order
  rw [List.length_append, List.length_singleton, slots, List.length_range] at length
  rw [sim.entries, List.length_map]
  omega

theorem Sim.finish (sim : Sim table m entry s w) (ok : Ok (dependenciesOf table) w)
    (small : index < maxLoadedModules) (opened : w.mark index = .open_) :
    Sim table m entry ⟨Function.update s.state index .done, appendInit table m index s.block⟩
      (w.finish index) where
  state := by rw [sim.state]; rfl
  entries := by
    have new : index ∉ w.order := by
      rw [ok.mem index, opened]
      decide
    have room := sim.room ok.nodup small new
    simp only [appendInit, Walk.finish, List.filter_append, List.map_append, ← sim.entries]
    by_cases executable : index = 0
    · simp [executable, hasEntry]
    · by_cases empty : entryRva m (table index).base = 0
      · simp [executable, empty, hasEntry]
      · simp [executable, empty, hasEntry, Nat.not_le.mpr room]
  final := by
    simp only [appendInit]
    split
    · exact sim.final
    · split <;> exact sim.final
  bounded := by
    intro i hi
    rcases List.mem_append.mp hi with old | this
    · exact sim.bounded i old
    · rw [List.mem_singleton.mp this]
      exact small

theorem mem_dependenciesOf {i : Nat} : i ∈ dependenciesOf table index ↔
    i < maxLoadedModules ∧ (table index).dependencies.getLsbD i = true ∧
      (table i).valid = true := by
  simp [dependenciesOf, slots]

theorem mem_validSlots {i : Nat} :
    i ∈ validSlots table ↔ i < maxLoadedModules ∧ (table i).valid = true := by
  simp [validSlots, slots]

theorem slots_small : ∀ i ∈ slots, i < maxLoadedModules := fun _ hi => List.mem_range.mp hi

/-- What one visit of the source does is what one visit of the graph does. -/
def Simulates (table : ModuleTable) (m : Memory) (entry fuel : Nat) : Prop :=
  ∀ index ∈ validSlots table, ∀ w w' s, visit (dependenciesOf table) fuel index w = some w' →
    Ok (dependenciesOf table) w → OpenReach (dependenciesOf table) w index →
    Sim table m entry s w →
    ∃ s', ldrpAppendInitDfs table m (fuel + 1) index s = some s' ∧ Sim table m entry s' w'

/-- The loop over the dependency bits; a bit for a slot that is not valid does nothing. -/
theorem Simulates.loop {fuel : Nat} (simulates : Simulates table m entry fuel)
    (bit : Nat → Bool) {is : List Nat} (small : ∀ i ∈ is, i < maxLoadedModules)
    (run : (is.filter fun i => bit i && (table i).valid).foldlM
      (fun w i => visit (dependenciesOf table) fuel i w) w = some w')
    (ok : Ok (dependenciesOf table) w)
    (reach : ∀ i ∈ is.filter fun i => bit i && (table i).valid,
      OpenReach (dependenciesOf table) w i) (sim : Sim table m entry s w) :
    ∃ s', is.foldlM (fun s i =>
        if bit i then ldrpAppendInitDfs table m (fuel + 1) i s else some s) s = some s' ∧
      Sim table m entry s' w' := by
  induction is generalizing w s with
  | nil =>
    cases run
    exact ⟨s, rfl, sim⟩
  | cons i is ih =>
    have small' : ∀ j ∈ is, j < maxLoadedModules := fun j hj => small j (List.mem_cons_of_mem i hj)
    rw [List.foldlM_cons]
    by_cases chosen : bit i = true ∧ (table i).valid = true
    · have kept : (bit i && (table i).valid) = true := by simp [chosen]
      rw [List.filter_cons_of_pos (p := fun i => bit i && (table i).valid) kept] at run reach
      simp only [List.foldlM_cons, Option.bind_eq_bind, Option.bind_eq_some_iff] at run
      obtain ⟨x, first, rest⟩ := run
      have open_ := reach i List.mem_cons_self
      have mem : i ∈ validSlots table :=
        mem_validSlots.mpr ⟨small i List.mem_cons_self, chosen.2⟩
      obtain ⟨s₁, step, sim₁⟩ := simulates i mem w x s first ok open_ sim
      have visited := visit_visited first ok open_
      obtain ⟨s', loop, sim'⟩ := ih small' rest visited.ok
        (fun j hj => (reach j (List.mem_cons_of_mem i hj)).later visited.grown) sim₁
      refine ⟨s', ?_, sim'⟩
      rw [if_pos chosen.1, step]
      exact loop
    · have dropped : ¬ (bit i && (table i).valid) = true := by simpa using chosen
      rw [List.filter_cons_of_neg (p := fun i => bit i && (table i).valid) dropped] at run reach
      obtain ⟨s', loop, sim'⟩ := ih small' run ok reach sim
      refine ⟨s', ?_, sim'⟩
      have skip : (if bit i then ldrpAppendInitDfs table m (fuel + 1) i s else some s) = some s := by
        by_cases set : bit i = true
        · have invalid : (table i).valid = false := by simpa [set] using chosen
          simp [set, ldrpAppendInitDfs, invalid]
        · rw [if_neg set]
      rw [skip]
      exact loop

theorem simulates (fuel : Nat) : Simulates table m entry fuel := by
  induction fuel with
  | zero =>
    intro index _ w w' s run
    cases run
  | succ fuel ih =>
    intro index mem w w' s run ok reach sim
    obtain ⟨small, valid⟩ := mem_validSlots.mp mem
    have visited := visit_visited run ok reach
    simp only [visit] at run
    rw [ldrpAppendInitDfs]
    have inside : ¬ maxLoadedModules ≤ index := by omega
    simp only [inside, valid, Bool.true_eq_false, false_or, sim.state]
    cases mark : w.mark index with
    | done | open_ =>
      rw [mark, if_pos (by decide)] at run
      cases run
      exact ⟨s, by simp, sim⟩
    | fresh =>
      rw [mark, if_neg (by decide)] at run
      obtain ⟨x, turns, rfl⟩ := Option.map_eq_some_iff.mp run
      have reach' : ∀ d ∈ dependenciesOf table index,
          OpenReach (dependenciesOf table) (w.set index .open_) d := fun d edge =>
        reach.open_.step edge
      have opened := ok.open_ mark
      obtain ⟨s', loop, sim'⟩ := ih.loop (table index).dependencies.getLsbD slots_small turns
        opened reach' (sim.open_ index)
      obtain ⟨ok', grown, -⟩ := foldlM_visited (fun d _ y y' => visit_visited) turns opened reach'
      have still : x.mark index = .open_ := by
        rw [grown.met index (by simp [Walk.set])]
        simp [Walk.set]
      rw [sim.state] at loop
      refine ⟨_, ?_, sim'.finish ok' small still⟩
      simp [loop]

/-- The test before a visit repeats what the visit tests itself. -/
theorem root_visit (fuel index : Nat) (s : InitWalk) :
    (if (table index).valid = true ∧ s.state index = .fresh then
        ldrpAppendInitDfs table m (fuel + 1) index s else some s) =
      ldrpAppendInitDfs table m (fuel + 1) index s := by
  split
  · rfl
  next skip =>
    rw [ldrpAppendInitDfs]
    cases valid : (table index).valid with
    | false => simp
    | true =>
      cases mark : s.state index with
      | fresh => exact absurd ⟨valid, mark⟩ skip
      | open_ => simp
      | done => simp

/-- The traversal is one loop over all slots. -/
theorem ldrpBuildInitBlock_eq (fuel executableEntry : Nat) :
    ldrpBuildInitBlock table m (fuel + 1) executableEntry =
      (slots.foldlM (fun s i => ldrpAppendInitDfs table m (fuel + 1) i s)
        ⟨fun _ => .fresh, ⟨executableEntry, []⟩⟩).map InitWalk.block := by
  have split : slots = 0 :: List.range' 1 63 := by decide
  simp only [ldrpBuildInitBlock, root_visit, split, List.foldlM_cons]
  cases ldrpAppendInitDfs table m (fuel + 1) 0 ⟨fun _ => .fresh, ⟨executableEntry, []⟩⟩ with
  | none => rfl
  | some s =>
    simp only [Option.bind_eq_bind, Option.bind_some]
    cases (List.range' 1 63).foldlM
      (fun s i => ldrpAppendInitDfs table m (fuel + 1) i s) s <;> rfl

theorem ldrpBuildInitBlock_walk {fuel executableEntry : Nat} {w : Walk Nat}
    (run : walk (dependenciesOf table) fuel (validSlots table) = some w) :
    ldrpBuildInitBlock table m (fuel + 1) executableEntry =
      some ⟨executableEntry, (w.order.filter (hasEntry table m)).map (initEntry table m)⟩ := by
  have start : Sim table m executableEntry ⟨fun _ => .fresh, ⟨executableEntry, []⟩⟩
      ⟨fun _ => .fresh, []⟩ := ⟨rfl, rfl, rfl, by simp⟩
  have ok : Ok (dependenciesOf table) ⟨fun _ => .fresh, []⟩ := by
    refine ⟨List.nodup_nil, ?_, ?_⟩ <;> simp
  have reach : ∀ i ∈ slots.filter fun i => true && (table i).valid,
      OpenReach (dependenciesOf table) ⟨fun _ => .fresh, []⟩ i := by
    intro i _ u opened
    cases opened
  obtain ⟨s, loop, sim⟩ := (simulates fuel).loop (fun _ => true) slots_small run ok reach start
  simp only [if_true] at loop
  rw [ldrpBuildInitBlock_eq, loop, Option.map_some, ← sim.entries, ← sim.final]

/-- The traversal ends, and the block lists every module but the executable that has
an entry point once, after the modules it depends on unless these depend on it too. -/
theorem dlls_initialized_in_order (table : ModuleTable) (m : Memory) (executableEntry : Nat) :
    ∃ order : List Nat,
      (∀ fuel, 66 ≤ fuel → ldrpBuildInitBlock table m fuel executableEntry =
        some ⟨executableEntry, order.map (initEntry table m)⟩) ∧
      order.Nodup ∧
      (∀ i, i ∈ order ↔ i < maxLoadedModules ∧ (table i).valid = true ∧ i ≠ 0 ∧
        entryRva m (table i).base ≠ 0) ∧
      ∀ a ∈ order, ∀ d ∈ order, DependsOn table a d →
        ¬ Relation.TransGen (DependsOn table) d a → Before order d a := by
  have closed : ∀ i ∈ validSlots table, ∀ d ∈ dependenciesOf table i, d ∈ validSlots table := by
    intro i _ d edge
    obtain ⟨small, -, valid⟩ := mem_dependenciesOf.mp edge
    exact mem_validSlots.mpr ⟨small, valid⟩
  have length : (validSlots table).length < 65 :=
    Nat.lt_succ_of_le (List.length_filter_le _ slots)
  obtain ⟨w, run, nodup, mem, placed⟩ := walk_spec closed length
  refine ⟨w.order.filter (hasEntry table m), ?_, nodup.filter _, ?_, ?_⟩
  · intro fuel enough
    obtain ⟨more, rfl⟩ : ∃ more, fuel = 65 + more + 1 := ⟨fuel - 66, by omega⟩
    exact ldrpBuildInitBlock_walk (walk_mono run more)
  · intro i
    rw [List.mem_filter, mem i, mem_validSlots]
    simp [hasEntry, and_assoc]
  · intro a ha d hd edge apart
    have listed := List.mem_filter.mp ha
    rcases placed a d listed.1 edge with before | back
    · have kept := before.filter (hasEntry table m)
      simpa [Before, listed.2, (List.mem_filter.mp hd).2] using kept
    · rcases Relation.reflTransGen_iff_eq_or_transGen.mp back with rfl | path
      · exact absurd (.single edge) apart
      · exact absurd path apart

end Ldr
