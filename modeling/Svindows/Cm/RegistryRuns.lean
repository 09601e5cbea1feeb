import Svindows.Cm.FoldedTree

/-!
# Runs of the registry

Every registry that `CmInitialize` and later walks with create and
`cm_set_value` calls build has siblings and values with different folded names,
so paths and value names address it like the keys of a map.
-/

namespace Cm

open Nt KeyedTree

structure Sound (r : Registry) : Prop where
  root : 0 < r.next
  tree : WellFormed r.tree
  values : ∀ k < r.next, ((r.keys k).values.map fun v => folded v.name).Nodup

theorem emptyRegistry_sound : Sound emptyRegistry where
  root := Nat.one_pos
  tree :=
    { later := fun _ _ _ kid => absurd kid List.not_mem_nil
      oneParent := fun _ _ _ _ _ kid => absurd kid List.not_mem_nil
      distinct := fun _ _ => List.nodup_nil }
  values _ _ := List.nodup_nil

variable {r r' : Registry}

theorem Sound.created (sound : Sound r) (created : Created r r') : Sound r' where
  root := sound.root.trans_le created.grows.next
  tree := created.wellFormed
  values k hk := by
    rcases lt_or_ge k r.next with old | new
    · rw [created.values k old]
      exact sound.values k old
    · rw [created.fresh k new hk]
      exact List.nodup_nil

theorem Sound.valueSet (sound : Sound r) {k : Nat} {name data : Text}
    {type : UInt32} (set : ValueSet r r' k name type data) : Sound r' where
  root := by
    rw [set.next]
    exact sound.root
  tree := by
    rw [set.tree]
    exact sound.tree
  values j hj := by
    rw [set.next] at hj
    by_cases same : j = k
    · subst same
      exact set.distinct (sound.values j hj)
    · rw [set.others j same]
      exact sound.values j hj

/-- A walk with create, from any key there is. -/
theorem Sound.walk (sound : Sound r) {start : Nat} (hs : start < r.next)
    (path : Text) (room : Nat → Bool) : Created r (cmWalk r start path true room).1 := by
  rw [cmWalk_eq]
  exact (walkKeys_create room (stored_short path) sound.tree hs).1

theorem Sound.walk_leads (sound : Sound r) {start k : Nat} (hs : start < r.next)
    {path : Text} {room : Nat → Bool} (walked : cmWalk r start path true room = (r', some k)) :
    Created r r' ∧ r'.tree.descend start ((stored path).map folded) = some k := by
  rw [cmWalk_eq] at walked
  obtain ⟨created, leads⟩ := walkKeys_create room (stored_short path) sound.tree hs
  rw [walked] at created leads
  exact ⟨created, leads k rfl⟩

theorem cmWalk_open (r : Registry) (start : Nat) (path : Text) (room : Nat → Bool) :
    cmWalk r start path false room = (r, r.tree.descend start ((stored path).map folded)) := by
  rw [cmWalk_eq, walkKeys_open]

theorem Sound.set (sound : Sound r) (k : Nat) {name : Text}
    (short : name.length ≤ nameMax) (type : UInt32) (data : Text) (copyRoom valueRoom : Bool) :
    Sound (cmSetValue r k name type data copyRoom valueRoom).2 := by
  by_cases done : (cmSetValue r k name type data copyRoom valueRoom).1 = statusSuccess
  · exact sound.valueSet (cmSetValue_spec short (Prod.ext done rfl))
  · rw [cmSetValue_failed done]
    exact sound

theorem Sound.seedValues {room : SeedRoom} {k : Nat} {values : List (String × UInt32 × Text)}
    (short : ∀ v ∈ values, (ascii v.1).length ≤ nameMax) {r : Registry} (sound : Sound r) :
    Sound (seedValues room k r values) := by
  induction values generalizing r with
  | nil => exact sound
  | cons v values ih =>
    have one := sound.set k (short v (List.mem_cons_self ..)) v.2.1 v.2.2 (room.copy v.1)
      (room.value v.1)
    exact ih (fun u hu => short u (List.mem_cons_of_mem v hu)) one

theorem cmSetValue_next (r : Registry) (k : Nat) (name : Text) (type : UInt32) (data : Text)
    (copyRoom valueRoom : Bool) :
    (cmSetValue r k name type data copyRoom valueRoom).2.next = r.next := by
  simp only [cmSetValue]
  split
  · rfl
  split
  · rfl
  · split <;> rfl

theorem seedValues_next (room : SeedRoom) (k : Nat) (values : List (String × UInt32 × Text))
    (r : Registry) : (seedValues room k r values).next = r.next := by
  induction values generalizing r with
  | nil => rfl
  | cons v values ih => exact (ih _).trans (cmSetValue_next ..)

theorem Sound.seedKey {room : SeedRoom} {start : Nat} {seed : Seed}
    (short : ∀ v ∈ seed.values, (ascii v.1).length ≤ nameMax) {r : Registry} (sound : Sound r)
    (hs : start < r.next) :
    Sound (seedKey room start r seed) ∧ r.next ≤ (seedKey room start r seed).next := by
  have created := sound.walk hs (ascii seed.path) room.key
  have one := sound.created created
  have grown := created.grows.next
  simp only [Cm.seedKey]
  generalize cmWalk r start (ascii seed.path) true room.key = walked at created one grown ⊢
  obtain ⟨r', _ | k⟩ := walked
  · exact ⟨one, grown⟩
  · exact ⟨one.seedValues short, grown.trans_eq (seedValues_next room k seed.values r').symm⟩

theorem Sound.seeds (sound : Sound r) (room : SeedRoom) {start : Nat}
    (seeds : List Seed) (short : ∀ seed ∈ seeds, ∀ v ∈ seed.values, (ascii v.1).length ≤ nameMax)
    (hs : start < r.next) :
    Sound (seeds.foldl (Cm.seedKey room start) r) ∧
      start < (seeds.foldl (Cm.seedKey room start) r).next := by
  induction seeds generalizing r with
  | nil => exact ⟨sound, hs⟩
  | cons seed seeds ih =>
    obtain ⟨one, grown⟩ := sound.seedKey (short seed (List.mem_cons_self ..)) hs
    exact ih one (fun s hs => short s (List.mem_cons_of_mem seed hs)) (hs.trans_le grown)

theorem cmInitialize_sound (room : SeedRoom) : Sound (cmInitialize room) := by
  have first : cmRoot < emptyRegistry.next := Nat.one_pos
  obtain ⟨sound, hr⟩ := emptyRegistry_sound.seeds room machineSeeds (by decide) first
  simp only [cmInitialize]
  generalize machineSeeds.foldl (Cm.seedKey room cmRoot) emptyRegistry = r at sound hr ⊢
  generalize ascii "\\Registry\\User\\Software\\Microsoft\\Windows\\CurrentVersion" = path
  have last : ∀ v ∈ [("ProfilesDirectory", regExpandSz, spaced "%SystemDrive%\\Users")],
      (ascii v.1).length ≤ nameMax := by decide
  cases walked : cmWalk r cmRoot path true room.key with
  | mk r' reached =>
    have created := sound.walk hr path room.key
    rw [walked] at created
    have sound' := sound.created created
    have hr' : cmRoot < r'.next := sound'.root
    cases reached with
    | none => exact (sound'.seedKey last hr').1
    | some user =>
      have known : user < r'.next := by
        have leads := (sound.walk_leads hr walked).2
        exact (sound'.tree.descend_bounds hr' leads).2
      obtain ⟨sound'', hu⟩ := sound'.seeds room userSeeds (by decide) known
      exact (sound''.seedKey last (Nat.zero_lt_of_lt hu)).1

inductive RegistryOp where
  /-- `cm_walk` with create. -/
  | walk (start : Nat) (path : Text) (room : Nat → Bool)
  | setValue (k : Nat) (name : ValueName) (type : UInt32) (data : Text)
      (copyRoom valueRoom : Bool)

/-- One call on keys that exist. -/
def Registry.Step (r : Registry) : RegistryOp → Registry → Prop
  | .walk start path room, r' => start < r.next ∧ r' = (cmWalk r start path true room).1
  | .setValue k name type data copyRoom valueRoom, r' =>
      k < r.next ∧ r' = (cmSetValue r k name.bytes type data copyRoom valueRoom).2

def Registry.Start (r : Registry) : Prop := ∃ room, r = cmInitialize room

theorem Sound.step {op : RegistryOp} (sound : Sound r) (step : r.Step op r') : Sound r' := by
  cases op with
  | walk start path room =>
    obtain ⟨hs, rfl⟩ := step
    exact sound.created (sound.walk hs path room)
  | setValue k name type data copyRoom valueRoom =>
    obtain ⟨-, rfl⟩ := step
    exact sound.set k name.fits type data copyRoom valueRoom

theorem sound_of_run (run : Runs.Reachable Registry.Start Registry.Step r) : Sound r := by
  refine run.invariant ?_ fun _ _ _ sound step => sound.step step
  intro r start
  obtain ⟨room, hr⟩ := start
  rw [hr]
  exact cmInitialize_sound room

/-- The type and data of a value. -/
def contents (v : CmValue) : UInt32 × Text := (v.type, v.data)

/-- The registry addressed by folded paths and folded value names. -/
structure TreeMap (r : Registry) : Prop where
  siblings : ∀ k < r.next, ((r.keys k).subkeys.map fun c => folded (r.keys c).name).Nodup
  valueNames : ∀ k < r.next, ((r.keys k).values.map fun v => folded v.name).Nodup
  /-- A walk with create reaches a key when every allocation succeeds. -/
  creates : ∀ start < r.next, ∀ p room, (∀ n, room n = true) →
    ∃ r' k, cmWalk r start p true room = (r', some k)
  /-- What it created is opened under every spelling, and creating it again changes nothing. -/
  reopens : ∀ start < r.next, ∀ p q, SamePath p q → ∀ room r' k,
    cmWalk r start p true room = (r', some k) → ∀ room',
      cmWalk r' start q false room' = (r', some k) ∧ cmWalk r' start q true room' = (r', some k)
  /-- Different paths are opened as, or created as, different keys. -/
  apart : ∀ start < r.next, ∀ p q, Fits p → Fits q → ¬ SamePath p q → ∀ room room' r' r'' k k',
    (cmWalk r start p false room = (r', some k) → cmWalk r' start q false room' = (r'', some k') →
      k ≠ k') ∧
    (cmWalk r start p true room = (r', some k) → cmWalk r' start q true room' = (r'', some k') →
      k ≠ k')
  /-- A value is set when the allocations succeed. -/
  sets : ∀ k < r.next, ∀ (n : ValueName) t d,
    (cmSetValue r k n.bytes t d true true).1 = statusSuccess
  /-- It is found under every spelling of its name, and nothing else changes. -/
  finds : ∀ k < r.next, ∀ (n : ValueName) t d copyRoom valueRoom r',
    cmSetValue r k n.bytes t d copyRoom valueRoom = (statusSuccess, r') →
      (∀ n', folded n' = folded n.bytes → (cmFindValue r' k n').map contents = some (t, d)) ∧
      ∀ j n', j ≠ k ∨ folded n' ≠ folded n.bytes →
        (cmFindValue r' j n').map contents = (cmFindValue r j n').map contents

/-- Registries built by the walks and the value calls are case-insensitive tree maps. -/
theorem registry_is_tree_map {r : Registry}
    (run : Runs.Reachable Registry.Start Registry.Step r) : TreeMap r := by
  have sound := sound_of_run run
  refine ⟨sound.tree.distinct, sound.values, ?_, ?_, ?_, ?_, ?_⟩
  · intro start hs p room granted
    have some := walkKeys_granted granted r start (stored p)
    rw [← cmWalk_eq] at some
    obtain ⟨k, reached⟩ := Option.isSome_iff_exists.mp some
    exact ⟨_, k, Prod.ext rfl reached⟩
  · intro start hs p q same room r' k walked room'
    obtain ⟨-, leads⟩ := sound.walk_leads hs walked
    rw [same.stored] at leads
    rw [cmWalk_open, leads, cmWalk_eq, walkKeys_existing room' leads]
    exact ⟨rfl, rfl⟩
  · intro start hs p q fitsP fitsQ differ room room' r' r'' k k'
    constructor
    · rw [cmWalk_open, cmWalk_open, stored_fits fitsP, stored_fits fitsQ]
      intro first second equal
      obtain ⟨rfl, left⟩ := Prod.ext_iff.mp first
      have right := congrArg Prod.snd second
      rw [← equal] at right
      exact differ (sound.tree.descend_injective hs left right)
    · intro first second equal
      obtain ⟨created, left⟩ := sound.walk_leads hs first
      have hs' := hs.trans_le created.grows.next
      obtain ⟨created', right⟩ := (sound.created created).walk_leads hs' second
      have left' := created'.grows.descend created.wellFormed created'.wellFormed hs' left
      rw [stored_fits fitsP] at left'
      rw [stored_fits fitsQ, ← equal] at right
      exact differ
        (created'.wellFormed.descend_injective (hs'.trans_le created'.grows.next) left' right)
  · intro k hk n t d
    exact cmSetValue_granted r k n.bytes t d
  · intro k hk n t d copyRoom valueRoom r' done
    have set := cmSetValue_spec n.fits done
    obtain ⟨v, found, typed, filled⟩ := set.new
    constructor
    · intro n' same
      rw [cmFindValue_congr r' k same, found]
      simp [contents, typed, filled]
    · intro j n' other
      by_cases key : j = k
      · subst key
        have differ : folded n' ≠ folded n.bytes := other.resolve_left (fun h => h rfl)
        rw [set.old n' differ]
      · rw [cmFindValue, cmFindValue, set.others j key]

/-- Every allocation succeeds. -/
def ampleRoom : SeedRoom := ⟨fun _ => true, fun _ => true, fun _ => true⟩

theorem registry_is_tree_map_walked :
    TreeMap (cmWalk (cmInitialize ampleRoom) cmRoot (ascii "/Registry\\Machine/") true
      ampleRoom.key).1 := by
  have first : Runs.Reachable Registry.Start Registry.Step (cmInitialize ampleRoom) :=
    .of_initial ⟨ampleRoom, rfl⟩
  refine registry_is_tree_map (first.next (l := .walk cmRoot (ascii "/Registry\\Machine/") ampleRoom.key) ?_)
  exact ⟨(cmInitialize_sound ampleRoom).root, rfl⟩

end Cm
