import Svindows.Cm.Names

/-!
# The registry under refused allocations

What is left when the pool refuses a block. `cm_set_value` is modelled with its
blocks: it gives back the copy of the data when there is no room for a new value,
and is as if it had not been called. A walk with create keeps the keys it made
before the one that was refused: no key is ever freed, so a failed `NtCreateKey`
leaves what a successful one on the shorter path leaves.
-/

namespace Cm

open Nt Mm KeyedTree

/-- A value with the block of its node and that of its data; `none` is NULL. -/
structure PooledValue where
  value : CmValue
  node : Nat
  copy : Option Nat
  deriving DecidableEq

/-- The values of each key, the blocks in use, and the blocks that were freed while
not in use. A block has the number of its allocation. -/
structure ValuePool where
  values : Nat → List PooledValue
  next : Nat
  live : List Nat
  stray : List Nat

def ValuePool.alloc (s : ValuePool) (room : Bool) : Option Nat × ValuePool :=
  if room = false then (none, s)
  else (some s.next, { s with next := s.next + 1, live := s.next :: s.live })

/-- `ExFreePool`, also of NULL, which the callers leave out. -/
def ValuePool.free (s : ValuePool) : Option Nat → ValuePool
  | none => s
  | some b =>
    if b ∈ s.live then { s with live := s.live.erase b } else { s with stray := b :: s.stray }

/-- The block for the copy of the data; there is none for empty data. -/
def ValuePool.takeCopy (s : ValuePool) (data : Text) (room : Bool) : Option Nat × ValuePool :=
  if data = [] then (none, s) else s.alloc room

/-- `cm_set_value` with its blocks. -/
def setPooledValue (s : ValuePool) (k : Nat) (name : Text) (type : UInt32) (data : Text)
    (copyRoom nodeRoom : Bool) : NtStatus × ValuePool :=
  let copy := (s.takeCopy data copyRoom).1
  let s := (s.takeCopy data copyRoom).2
  if data ≠ [] ∧ copy = none then (statusNoMemory, s)
  else
    match (s.values k).find? fun v => ciEq v.value.name name with
    | some v =>
      let s := s.free v.copy
      let values := updateFirst (fun v => ciEq v.value.name name)
        (fun v => { v with value := { v.value with type := type, data := data }, copy := copy })
        (s.values k)
      (statusSuccess, { s with values := Function.update s.values k values })
    | none =>
      match s.alloc nodeRoom with
      | (none, s) => (statusNoMemory, s.free copy)
      | (some node, s) =>
        let values := s.values k ++ [⟨⟨name.take nameMax, type, data⟩, node, copy⟩]
        (statusSuccess, { s with values := Function.update s.values k values })

/-- The values without their blocks. -/
def Pooled (s : ValuePool) (r : Registry) : Prop :=
  ∀ k, (s.values k).map (·.value) = (r.keys k).values

@[simp] theorem ValuePool.alloc_values (s : ValuePool) (room : Bool) :
    (s.alloc room).2.values = s.values := by
  cases room <;> rfl

@[simp] theorem ValuePool.takeCopy_values (s : ValuePool) (data : Text) (room : Bool) :
    (s.takeCopy data room).2.values = s.values := by
  simp only [ValuePool.takeCopy]
  split
  · rfl
  · exact s.alloc_values room

@[simp] theorem ValuePool.free_values (s : ValuePool) (b : Option Nat) :
    (s.free b).values = s.values := by
  cases b with
  | none => rfl
  | some b =>
    simp only [ValuePool.free]
    split <;> rfl

theorem takeCopy_refused_iff (s : ValuePool) (data : Text) (room : Bool) :
    (data ≠ [] ∧ (s.takeCopy data room).1 = none) ↔ (data ≠ [] ∧ room = false) := by
  by_cases empty : data = []
  · simp [empty]
  · cases room <;> simp [ValuePool.takeCopy, ValuePool.alloc, empty]

/-- Updating an element and forgetting part of it. -/
theorem forget_updateFirst {α : Type} {β : Type} {p : α → Bool} {q : β → Bool} {f : α → α} {g : β → β}
    {view : α → β} (tests : ∀ a, q (view a) = p a) (updates : ∀ a, view (f a) = g (view a))
    (l : List α) : (updateFirst p f l).map view = updateFirst q g (l.map view) := by
  induction l with
  | nil => rfl
  | cons a l ih =>
    simp only [updateFirst, List.map_cons, tests]
    split
    · rw [List.map_cons, updates]
    · rw [List.map_cons, ih]

variable {r : Registry} {k : Nat}

theorem pooled_update {s s' : ValuePool} (pooled : Pooled s r) {k : Nat}
    {values : List PooledValue} {plain : List CmValue}
    (others : s'.values = Function.update s.values k values)
    (same : values.map (·.value) = plain) :
    Pooled s' { r with keys := Function.update r.keys k { r.keys k with values := plain } } := by
  intro j
  rw [others]
  by_cases here : j = k
  · subst here
    simp only [Function.update_self]
    exact same
  · simp only [Function.update_of_ne here]
    exact pooled j

/-- With its blocks left out it is `cm_set_value`. -/
theorem setPooledValue_refines {s : ValuePool} (pooled : Pooled s r) (k : Nat)
    (name : Text) (type : UInt32) (data : Text) (copyRoom nodeRoom : Bool) :
    (setPooledValue s k name type data copyRoom nodeRoom).1 =
        (cmSetValue r k name type data copyRoom nodeRoom).1 ∧
      Pooled (setPooledValue s k name type data copyRoom nodeRoom).2
        (cmSetValue r k name type data copyRoom nodeRoom).2 := by
  simp only [setPooledValue, cmSetValue, takeCopy_refused_iff]
  by_cases refused : data ≠ [] ∧ copyRoom = false
  · rw [if_pos refused, if_pos refused]
    refine ⟨rfl, fun j => ?_⟩
    rw [ValuePool.takeCopy_values]
    exact pooled j
  rw [if_neg refused, if_neg refused, ValuePool.takeCopy_values]
  have found : cmFindValue r k name =
      ((s.values k).find? fun v => ciEq v.value.name name).map (·.value) := by
    rw [cmFindValue, ← pooled k, List.find?_map]
    rfl
  rw [found]
  cases (s.values k).find? fun v => ciEq v.value.name name with
  | some v =>
    simp only [Option.map_some, ValuePool.free_values, ValuePool.takeCopy_values]
    refine ⟨trivial, pooled_update pooled rfl ?_⟩
    rw [← pooled k]
    exact forget_updateFirst (by intro; rfl) (by intro; rfl) _
  | none =>
    simp only [Option.map_none]
    cases nodeRoom with
    | false =>
      refine ⟨rfl, fun j => ?_⟩
      simp only [ValuePool.alloc, if_true, ValuePool.free_values, ValuePool.takeCopy_values]
      exact pooled j
    | true =>
      simp only [ValuePool.alloc, Bool.true_eq_false, if_false, ValuePool.takeCopy_values]
      refine ⟨trivial, pooled_update pooled rfl ?_⟩
      rw [List.map_append, pooled k]
      rfl

/-- The blocks and the values are those of another state. -/
structure SameBlocks (s s' : ValuePool) : Prop where
  values : s'.values = s.values
  live : s'.live = s.live
  stray : s'.stray = s.stray

theorem SameBlocks.refl (s : ValuePool) : SameBlocks s s := ⟨rfl, rfl, rfl⟩

/-- The copy is given back, and it was in use. -/
theorem free_takeCopy (s : ValuePool) (data : Text) (room : Bool) :
    SameBlocks s ((s.takeCopy data room).2.free (s.takeCopy data room).1) := by
  by_cases empty : data = []
  · rw [ValuePool.takeCopy, if_pos empty]
    exact .refl s
  · rw [ValuePool.takeCopy, if_neg empty]
    cases room with
    | false => exact .refl s
    | true => constructor <;> simp [ValuePool.alloc, ValuePool.free]

/-- A refused `cm_set_value` leaves no trace. -/
theorem setPooledValue_refused {s : ValuePool} {name : Text} {type : UInt32} {data : Text}
    {copyRoom nodeRoom : Bool}
    (refused : (setPooledValue s k name type data copyRoom nodeRoom).1 = statusNoMemory) :
    SameBlocks s (setPooledValue s k name type data copyRoom nodeRoom).2 := by
  have other : statusSuccess ≠ statusNoMemory := by decide
  revert refused
  simp only [setPooledValue]
  split
  · rename_i none_
    intro _
    obtain ⟨some_, full⟩ := (takeCopy_refused_iff s data copyRoom).mp none_
    rw [ValuePool.takeCopy, if_neg some_, full]
    exact .refl s
  split
  · exact fun success => absurd success other
  · cases nodeRoom with
    | false => exact fun _ => free_takeCopy s data copyRoom
    | true => exact fun success => absurd success other

/-- The keys of `r` are in `r'` with their values, and the others are new keys
without values, each in the list of its parent. -/
structure KeysKept (r r' : Registry) : Prop where
  next : r.next ≤ r'.next
  name : ∀ j < r.next, (r'.keys j).name = (r.keys j).name
  parent : ∀ j < r.next, (r'.keys j).parent = (r.keys j).parent
  values : ∀ j < r.next, (r'.keys j).values = (r.keys j).values
  subkeys : ∀ j < r.next, ∃ new, (r'.keys j).subkeys = (r.keys j).subkeys ++ new ∧
    ∀ c ∈ new, r.next ≤ c ∧ c < r'.next
  linked : ∀ j, r.next ≤ j → j < r'.next → (r'.keys j).values = [] ∧
    ∃ p < j, (r'.keys j).parent = some p ∧ j ∈ (r'.keys p).subkeys

theorem KeysKept.refl (r : Registry) : KeysKept r r where
  next := le_rfl
  name _ _ := rfl
  parent _ _ := rfl
  values _ _ := rfl
  subkeys _ _ := ⟨[], (List.append_nil _).symm, fun _ mem => absurd mem List.not_mem_nil⟩
  linked _ lo hi := absurd hi (Nat.not_lt.mpr lo)

theorem KeysKept.trans {r' r'' : Registry} (first : KeysKept r r') (second : KeysKept r' r'') :
    KeysKept r r'' where
  next := first.next.trans second.next
  name j hj := (second.name j (hj.trans_le first.next)).trans (first.name j hj)
  parent j hj := (second.parent j (hj.trans_le first.next)).trans (first.parent j hj)
  values j hj := (second.values j (hj.trans_le first.next)).trans (first.values j hj)
  subkeys j hj := by
    obtain ⟨new, grown, bounds⟩ := first.subkeys j hj
    obtain ⟨more, grown', bounds'⟩ := second.subkeys j (hj.trans_le first.next)
    refine ⟨new ++ more, by rw [grown', grown, List.append_assoc], fun c mem => ?_⟩
    rcases List.mem_append.mp mem with earlier | later
    · exact ⟨(bounds c earlier).1, (bounds c earlier).2.trans_le second.next⟩
    · exact ⟨first.next.trans (bounds' c later).1, (bounds' c later).2⟩
  linked j lo hi := by
    by_cases earlier : j < r'.next
    · obtain ⟨empty, p, below, parent, listed⟩ := first.linked j lo earlier
      obtain ⟨more, grown, -⟩ := second.subkeys p (below.trans earlier)
      refine ⟨by rw [second.values j earlier, empty], p, below,
        by rw [second.parent j earlier, parent], ?_⟩
      rw [grown]
      exact List.mem_append_left more listed
    · exact second.linked j (Nat.le_of_not_lt earlier) hi

theorem KeysKept.alloc (hk : k < r.next) (name : Text) :
    KeysKept r (cmAllocKey r name k true).1 := by
  have keys : ∀ j, (cmAllocKey r name k true).1.keys j =
      if j = k then { r.keys k with subkeys := (r.keys k).subkeys ++ [r.next] }
      else if j = r.next then newKey name (some k) else r.keys j := by
    intro j
    have older : k ≠ r.next := by omega
    by_cases here : j = k
    · simp [cmAllocKey, here, Function.update_of_ne older]
    · by_cases new : j = r.next
      · simp [cmAllocKey, new, older.symm]
      · simp [cmAllocKey, here, new]
  have old : ∀ j < r.next, j ≠ k → (cmAllocKey r name k true).1.keys j = r.keys j := by
    intro j hj other
    rw [keys, if_neg other, if_neg (by omega)]
  have parent : (cmAllocKey r name k true).1.keys k =
      { r.keys k with subkeys := (r.keys k).subkeys ++ [r.next] } := by
    rw [keys, if_pos rfl]
  have fresh : (cmAllocKey r name k true).1.keys r.next = newKey name (some k) := by
    rw [keys, if_neg (by omega), if_pos rfl]
  have next : (cmAllocKey r name k true).1.next = r.next + 1 := rfl
  refine ⟨by omega, fun j hj => ?_, fun j hj => ?_, fun j hj => ?_, fun j hj => ?_,
    fun j lo hi => ?_⟩
  · by_cases here : j = k
    · rw [here, parent]
    · rw [old j hj here]
  · by_cases here : j = k
    · rw [here, parent]
    · rw [old j hj here]
  · by_cases here : j = k
    · rw [here, parent]
    · rw [old j hj here]
  · by_cases here : j = k
    · refine ⟨[r.next], by rw [here, parent], fun c mem => ?_⟩
      rw [List.mem_singleton.mp mem]
      omega
    · exact ⟨[], by rw [old j hj here, List.append_nil], fun c mem => absurd mem List.not_mem_nil⟩
  · obtain rfl : j = r.next := by omega
    rw [fresh]
    refine ⟨rfl, k, hk, rfl, ?_⟩
    rw [parent]
    exact List.mem_append_right _ (List.mem_singleton_self _)

/-- The walk that is refused a key made those before it, and stands at the parent. -/
structure RefusedAt (room : Nat → Bool) (r : Registry) (k : Nat) (comps : List Text) (r' : Registry)
    (done : List Text) (missing : Text) (cur : Nat) : Prop where
  path : ∃ rest, comps = done ++ missing :: rest
  walked : walkKeys true (fun _ => true) r k done = (r', some cur)
  absent : cmFindSubkey r' cur missing = none
  refused : room r'.next = false
  granted : ∀ n, r.next ≤ n → n < r'.next → room n = true

theorem walkKeys_refused {room : Nat → Bool} {comps : List Text}
    (refused : (walkKeys true room r k comps).2 = none) :
    ∃ done missing cur,
      RefusedAt room r k comps (walkKeys true room r k comps).1 done missing cur := by
  induction comps generalizing r k with
  | nil => exact absurd refused (by simp [walkKeys])
  | cons comp comps ih =>
    simp only [walkKeys] at refused ⊢
    cases found : cmFindSubkey r k comp with
    | some child =>
      rw [found] at refused
      obtain ⟨done, missing, cur, ⟨rest, split⟩, walked, absent, no, granted⟩ := ih refused
      refine ⟨comp :: done, missing, cur, ⟨rest, by rw [split, List.cons_append]⟩, ?_, absent, no,
        granted⟩
      simp only [walkKeys, found]
      exact walked
    | none =>
      cases no : room r.next with
      | false =>
        exact ⟨[], comp, k, ⟨comps, rfl⟩, rfl, found, no, fun n lo hi => absurd hi (Nat.not_lt.mpr lo)⟩
      | true =>
        rw [found, no] at refused
        obtain ⟨done, missing, cur, ⟨rest, split⟩, walked, absent, no', granted⟩ := ih refused
        refine ⟨comp :: done, missing, cur, ⟨rest, by rw [split, List.cons_append]⟩, ?_, absent, no',
          fun n lo hi => ?_⟩
        · simp only [walkKeys, found]
          exact walked
        · by_cases first : n = r.next
          · rw [first, no]
          · exact granted n (by simp only; omega) hi

/-- A walk whose first new key is refused changes nothing. -/
theorem walkKeys_refused_first {room : Nat → Bool} {comps : List Text}
    (no : room r.next = false) (k : Nat) : (walkKeys true room r k comps).1 = r := by
  induction comps generalizing k with
  | nil => rfl
  | cons comp comps ih =>
    simp only [walkKeys]
    cases cmFindSubkey r k comp with
    | some child => exact ih child
    | none =>
      rw [no]
      rfl

theorem walkKeys_kept (room : Nat → Bool) {comps : List Text}
    (short : ∀ c ∈ comps, c.length ≤ nameMax) {r : Registry} (wf : WellFormed r.tree) {k : Nat}
    (hk : k < r.next) : KeysKept r (walkKeys true room r k comps).1 := by
  induction comps generalizing r k with
  | nil => exact .refl r
  | cons comp comps ih =>
    have shortTail := fun c hc => short c (List.mem_cons_of_mem comp hc)
    simp only [walkKeys]
    cases found : cmFindSubkey r k comp with
    | some child =>
      rw [cmFindSubkey_eq] at found
      exact ih shortTail wf (wf.later k hk child (Tree.child_some found).1).2
    | none =>
      cases room r.next with
      | false => exact .refl r
      | true =>
        have one := Created.alloc wf hk (short comp List.mem_cons_self) found
        exact (KeysKept.alloc hk comp).trans
          (ih shortTail one.wellFormed (Nat.lt_succ_self r.next))

theorem walkKeys_unchanged_iff {room : Nat → Bool} {comps : List Text}
    (refused : (walkKeys true room r k comps).2 = none) :
    (walkKeys true room r k comps).1 = r ↔ room r.next = false := by
  obtain ⟨done, missing, cur, at_⟩ := walkKeys_refused refused
  constructor
  · intro same
    rw [← same]
    exact at_.refused
  · exact fun no => walkKeys_refused_first no k

theorem ntCreateKey_noMemory {w : CmWorld} {args : Args} {room : CallRoom}
    (full : (ntCreateKey w args room).1 = statusNoMemory) :
    ∃ parent path, rootKey w (args 2).toNat = some parent ∧
      pathName w (args 2).toNat = some path ∧
      (ntCreateKey w args room).2.registry = (cmWalk w.registry parent path true room.key).1 ∧
      (cmWalk w.registry parent path true room.key).2 = none := by
  have denied : statusAccessViolation ≠ statusNoMemory := by decide
  have success : statusSuccess ≠ statusNoMemory := by decide
  have failure : ntSuccess statusNoMemory = false := by decide
  have status : (ntCreateKey w args room).1 = (openKey w args true room).1 :=
    (keyService_openKey w args true room).1
  have registry : (ntCreateKey w args room).2.registry = (openKey w args true room).2.registry :=
    (keyService_frame w args true room).1
  rw [status] at full
  rw [registry]
  revert full
  simp only [openKey]
  split
  · exact fun full => absurd full denied
  obtain ⟨root, name⟩ := attributes_probed w (args 0).toNat 8 (args 2).toNat
  obtain ⟨st, k, w', result, -, -, -, outcome⟩ := cmResolveOa_cases
    { w with user := w.user.probed (args 0).toNat 8 } (args 2).toNat true room.key
  rw [root, name] at outcome
  rw [result]
  simp only
  split
  · intro full
    rcases outcome with ⟨-, other, -⟩ | ⟨parent, path, rooted, named, walked, -, none_⟩
    · exact absurd full other
    · exact ⟨parent, path, rooted, named, walked, none_ full⟩
  · exact fun full => absurd full success

/-- After a refused `NtCreateKey`: the keys it found are as before, those it made
before the refused one are there as a successful call on the path up to them would
have left them, and there are none only if the first key was refused. -/
structure KeptUpToRefusal (w : CmWorld) (args : Args) (room : CallRoom) (r' : Registry) : Prop where
  kept : KeysKept w.registry r'
  made : ∃ parent path done missing cur, rootKey w (args 2).toNat = some parent ∧
    pathName w (args 2).toNat = some path ∧
    RefusedAt room.key w.registry parent (stored path) r' done missing cur
  unchanged : r' = w.registry ↔ room.key w.registry.next = false

/-- A refused `cm_set_value` leaves the values and the blocks as they were, and gives
back no block twice. A refused `NtCreateKey` keeps every key, value and value data,
and adds the keys it made before the refused one, each in the tree and empty. -/
theorem refused_updates_kept (s : ValuePool) (k : Nat) (name : Text) (type : UInt32) (data : Text)
    (copyRoom nodeRoom : Bool) {w : CmWorld} (good : w.Good) (args : Args) (room : CallRoom) :
    ((setPooledValue s k name type data copyRoom nodeRoom).1 = statusNoMemory →
        SameBlocks s (setPooledValue s k name type data copyRoom nodeRoom).2) ∧
      ((ntCreateKey w args room).1 = statusNoMemory →
        KeptUpToRefusal w args room (ntCreateKey w args room).2.registry) := by
  refine ⟨setPooledValue_refused, fun full => ?_⟩
  obtain ⟨parent, path, root, named, registry, refused⟩ := ntCreateKey_noMemory full
  rw [cmWalk_eq] at registry refused
  rw [registry]
  have start := cmKeyFromHandle_exists good root
  obtain ⟨done, missing, cur, at_⟩ := walkKeys_refused refused
  exact ⟨walkKeys_kept room.key (stored_short path) good.sound.tree start,
    ⟨parent, path, done, missing, cur, root, named, at_⟩, walkKeys_unchanged_iff refused⟩

/-- OBJECT_ATTRIBUTES at 0x2000 that name the key `a\a` below the root. -/
def attributesOfAA : UserPort :=
  sparseMemory [(0x2011, 0x30), (0x3000, 6), (0x3009, 0x40), (0x4000, 0x61), (0x4002, 0x5C),
    (0x4004, 0x61)]

/-- Room for key 1 and for no other key. -/
def oneKeyRoom : CallRoom := ⟨fun k => k == 1, true, true, some 7⟩

theorem freshWorld_good (user : UserPort) : (freshWorld user).Good :=
  ⟨emptyRegistry_sound, fun _ => Nat.one_pos⟩

/-- The call that makes `a` and is refused `a\a` keeps `a`; a value refused its node
gives back the copy of its data. -/
theorem refused_updates_kept_two :
    SameBlocks ⟨fun _ => [], 0, [], []⟩
        (setPooledValue ⟨fun _ => [], 0, [], []⟩ cmRoot [0x61] 1 [7] true false).2 ∧
      KeptUpToRefusal (freshWorld attributesOfAA) openArgs oneKeyRoom
        (ntCreateKey (freshWorld attributesOfAA) openArgs oneKeyRoom).2.registry := by
  obtain ⟨set, create⟩ := refused_updates_kept ⟨fun _ => [], 0, [], []⟩ cmRoot [0x61] 1 [7] true
    false (freshWorld_good attributesOfAA) openArgs oneKeyRoom
  exact ⟨set (by decide), create (by decide)⟩

/-- The call fails for want of memory and there is a new key `a`. -/
theorem refused_create_leaves_key :
    (ntCreateKey (freshWorld attributesOfAA) openArgs oneKeyRoom).1 = statusNoMemory ∧
      (freshWorld attributesOfAA).registry.next = 1 ∧
      (ntCreateKey (freshWorld attributesOfAA) openArgs oneKeyRoom).2.registry.next = 2 ∧
      ((freshWorld attributesOfAA).registry.keys cmRoot).subkeys = [] ∧
      ((ntCreateKey (freshWorld attributesOfAA) openArgs oneKeyRoom).2.registry.keys
        cmRoot).subkeys = [1] := by
  refine ⟨?_, ?_, ?_, ?_, ?_⟩ <;> decide

end Cm
