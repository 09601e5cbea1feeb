import Mathlib.Data.List.TakeWhile
import Svindows.Cm.Registry
import Svindows.Lib.Runs

/-!
# The registry as a case-insensitive tree map

A path stands for the list of its non-empty components, each with its ASCII
capitals folded. Walking is descending in the tree of folded names, creating
adds one node for each missing component, and the values of a key are a map from
folded names.
-/

namespace Cm

open Nt KeyedTree

/-- A name up to ASCII case. -/
def folded (name : Text) : Text := name.map fold

/-- The components of a path: what stands between separators, empty ones dropped. -/
def components (path : Text) : List Text := (path.splitOnP isSeparator).filter (· ≠ [])

/-- Paths that are equal up to ASCII case and separators. -/
def SamePath (p q : Text) : Prop := (components p).map folded = (components q).map folded

/-- Every component fits in a key's name. -/
def Fits (path : Text) : Prop := ∀ c ∈ components path, c.length ≤ nameMax

/-- A value name as every caller of `cm_set_value` passes it, from a `char[64]`
buffer or a short literal. -/
structure ValueName where
  bytes : Text
  fits : bytes.length ≤ nameMax

/-- The keys and their folded names. -/
def Registry.tree (r : Registry) : KeyedTree.Tree Text where
  kids k := (r.keys k).subkeys
  label k := folded (r.keys k).name
  next := r.next

theorem ciEq_iff (a b : Text) : ciEq a b = true ↔ folded a = folded b := by
  induction a generalizing b with
  | nil => cases b <;> simp [ciEq, folded]
  | cons x xs ih =>
    cases b with
    | nil => simp [ciEq, folded]
    | cons y ys =>
      by_cases same : fold x = fold y
      · simpa [ciEq, folded, same] using ih ys
      · simp [ciEq, folded, same]

theorem ciEq_decide (b : Text) :
    (fun a : Text => ciEq a b) = fun a => decide (folded a = folded b) := by
  funext a
  rw [Bool.eq_iff_iff, ciEq_iff, decide_eq_true_eq]

theorem cmFindSubkey_eq (r : Registry) (k : Nat) (name : Text) :
    cmFindSubkey r k name = r.tree.child k (folded name) := by
  have test : (fun c => ciEq (r.keys c).name name) =
      fun c => decide (folded (r.keys c).name = folded name) := by
    funext c
    exact congrFun (ciEq_decide name) (r.keys c).name
  rw [cmFindSubkey, test]
  rfl

theorem components_nil : components [] = [] := rfl

/-- Separators in front do not count. -/
theorem components_dropWhile (path : Text) :
    components (path.dropWhile isSeparator) = components path := by
  induction path with
  | nil => rfl
  | cons c cs ih =>
    by_cases sep : isSeparator c = true
    · rw [List.dropWhile_cons_of_pos sep, ih]
      simp [components, List.splitOnP_cons_eq_if_modifyHead, sep]
    · rw [List.dropWhile_cons_of_neg sep]

theorem components_separator {sep : UInt8} (isSep : isSeparator sep = true) (path : Text) :
    components (sep :: path) = components path := by
  simp [components, List.splitOnP_cons_eq_if_modifyHead, isSep]

theorem components_cons {c : UInt8} (plain : isSeparator c = false) (path : Text) :
    components (c :: path) = (c :: path).takeWhile (fun c => !isSeparator c) ::
      components ((c :: path).dropWhile fun c => !isSeparator c) := by
  have inside : ∀ d ∈ (c :: path).takeWhile (fun c => !isSeparator c), isSeparator d = false := by
    intro d hd
    simpa using List.mem_takeWhile_imp hd
  have word : (c :: path).takeWhile (fun c => !isSeparator c) ≠ [] := by simp [plain]
  have whole := List.takeWhile_append_dropWhile (l := c :: path) (p := fun c => !isSeparator c)
  have stop := List.head?_dropWhile_not (fun c => !isSeparator c) (c :: path)
  generalize (c :: path).takeWhile (fun c => !isSeparator c) = w at *
  generalize (c :: path).dropWhile (fun c => !isSeparator c) = rest at *
  rw [← whole]
  cases rest with
  | nil =>
    rw [List.append_nil, components, List.splitOnP_eq_singleton inside]
    simp [word, components_nil]
  | cons sep tail =>
    have isSep : isSeparator sep = true := by simpa using stop
    rw [components_separator isSep, components,
      List.splitOnP_append_cons_of_forall_mem inside sep isSep]
    simp [word, components]

/-- The walk over a list of components. -/
def walkKeys (create : Bool) (room : Nat → Bool) :
    Registry → Nat → List Text → Registry × Option Nat
  | r, cur, [] => (r, some cur)
  | r, cur, comp :: comps =>
    match cmFindSubkey r cur comp with
    | some child => walkKeys create room r child comps
    | none =>
      if create = false then (r, none)
      else
        match cmAllocKey r comp cur (room r.next) with
        | (r, none) => (r, none)
        | (r, some child) => walkKeys create room r child comps

/-- The components as the walk cuts them. -/
def stored (path : Text) : List Text := (components path).map fun c => c.take nameMax

theorem cmWalkLoop_eq (create : Bool) (room : Nat → Bool) {fuel : Nat} {path : Text}
    (enough : path.length ≤ fuel) (r : Registry) (cur : Nat) :
    cmWalkLoop create room fuel r cur path = walkKeys create room r cur (stored path) := by
  induction fuel generalizing path r cur with
  | zero =>
    rw [List.eq_nil_of_length_eq_zero (Nat.le_zero.mp enough)]
    rfl
  | succ fuel ih =>
    have shorter := List.length_dropWhile_le isSeparator path
    have stop := List.head?_dropWhile_not isSeparator path
    rw [stored, ← components_dropWhile]
    simp only [cmWalkLoop]
    generalize path.dropWhile isSeparator = p at shorter stop ⊢
    cases p with
    | nil => rfl
    | cons c cs =>
      have plain : isSeparator c = false := by simpa using stop
      have left : ((c :: cs).dropWhile fun c => !isSeparator c).length ≤ fuel := by
        have := List.length_dropWhile_le (fun c => !isSeparator c) cs
        simp only [plain, Bool.not_false, List.dropWhile_cons_of_pos, List.length_cons] at *
        omega
      rw [if_neg (List.cons_ne_nil c cs), components_cons plain, List.map_cons]
      simp only [walkKeys]
      generalize (c :: cs).dropWhile (fun c => !isSeparator c) = rest at left ⊢
      cases cmFindSubkey r cur (((c :: cs).takeWhile fun c => !isSeparator c).take nameMax) with
      | some child => exact ih left r child
      | none =>
        rcases cmAllocKey r _ cur (room r.next) with ⟨r', _ | child⟩
        · rfl
        · simp only [ih left r' child]
          rfl

theorem cmWalk_eq (r : Registry) (start : Nat) (path : Text) (create : Bool) (room : Nat → Bool) :
    cmWalk r start path create room = walkKeys create room r start (stored path) :=
  cmWalkLoop_eq create room le_rfl r start

theorem stored_fits {path : Text} (fits : Fits path) : stored path = components path := by
  rw [stored, List.map_congr_left (g := id), List.map_id]
  intro c hc
  exact List.take_of_length_le (fits c hc)

theorem stored_short (path : Text) : ∀ c ∈ stored path, c.length ≤ nameMax := by
  intro c hc
  obtain ⟨d, -, rfl⟩ := List.mem_map.mp hc
  exact List.length_take_le _ _

/-- Equal paths stay equal when their components are cut. -/
theorem SamePath.stored {p q : Text} (same : SamePath p q) :
    (stored p).map folded = (stored q).map folded := by
  have cut : ∀ path : Text, (Cm.stored path).map folded =
      ((components path).map folded).map fun c => c.take nameMax := by
    intro path
    simp [Cm.stored, folded, List.map_take]
  rw [cut, cut, same]

variable {k : Nat} {r : Registry}

theorem cmAllocKey_tree (hk : k < r.next) {name : Text} (short : name.length ≤ nameMax) :
    (cmAllocKey r name k true).1.tree = r.tree.add k (folded name) := by
  have older : r.next ≠ k := by omega
  have tree : (cmAllocKey r name k true).1.tree =
      ⟨fun j => ((cmAllocKey r name k true).1.keys j).subkeys,
        fun j => folded ((cmAllocKey r name k true).1.keys j).name, r.next + 1⟩ := rfl
  rw [tree]
  have same : ∀ t t' : KeyedTree.Tree Text, t.kids = t'.kids → t.label = t'.label →
      t.next = t'.next → t = t' := by
    rintro ⟨⟩ ⟨⟩ rfl rfl rfl
    rfl
  apply same
  · funext j
    by_cases hj : j = k
    · subst hj
      simp [cmAllocKey, KeyedTree.Tree.add, Registry.tree, Function.update_of_ne older.symm]
    · by_cases hn : j = r.next
      · subst hn
        simp [cmAllocKey, KeyedTree.Tree.add, Registry.tree, hj, newKey]
      · simp [cmAllocKey, KeyedTree.Tree.add, Registry.tree, hj, hn]
  · funext j
    by_cases hj : j = k
    · subst hj
      simp [cmAllocKey, KeyedTree.Tree.add, Registry.tree, Function.update_of_ne older.symm]
    · by_cases hn : j = r.next
      · subst hn
        simp [cmAllocKey, KeyedTree.Tree.add, Registry.tree, hj, newKey,
          List.take_of_length_le short]
      · simp [cmAllocKey, KeyedTree.Tree.add, Registry.tree, hj, hn]
  · rfl

/-- A new key has no values and the values of the others stay. -/
theorem cmAllocKey_values (hk : k < r.next) (name : Text) (j : Nat) :
    ((cmAllocKey r name k true).1.keys j).values =
      if j = r.next then [] else (r.keys j).values := by
  have older : r.next ≠ k := by omega
  by_cases hj : j = k
  · subst hj
    simp [cmAllocKey, older.symm]
  · by_cases hn : j = r.next
    · subst hn
      simp [cmAllocKey, hj, newKey]
    · simp [cmAllocKey, hj, hn]

/-- Opening is descending. -/
theorem walkKeys_open (room : Nat → Bool) (r : Registry) (k : Nat) (comps : List Text) :
    walkKeys false room r k comps = (r, r.tree.descend k (comps.map folded)) := by
  induction comps generalizing k with
  | nil => rfl
  | cons comp comps ih =>
    simp only [walkKeys, List.map_cons, KeyedTree.Tree.descend, cmFindSubkey_eq]
    cases r.tree.child k (folded comp) with
    | none => rfl
    | some child => exact ih child

/-- Creating what exists changes nothing. -/
theorem walkKeys_existing (room : Nat → Bool) {r : Registry} {k c : Nat} {comps : List Text}
    (leads : r.tree.descend k (comps.map folded) = some c) :
    walkKeys true room r k comps = (r, some c) := by
  induction comps generalizing k with
  | nil =>
    cases leads
    rfl
  | cons comp comps ih =>
    simp only [List.map_cons, KeyedTree.Tree.descend] at leads
    simp only [walkKeys, cmFindSubkey_eq]
    cases found : r.tree.child k (folded comp) with
    | none => simp [found] at leads
    | some child =>
      rw [found] at leads
      exact ih leads

/-- What a walk with create does to the registry. -/
structure Created (r r' : Registry) : Prop where
  wellFormed : WellFormed r'.tree
  grows : Grows r.tree r'.tree
  values : ∀ j, j < r.next → (r'.keys j).values = (r.keys j).values
  fresh : ∀ j, r.next ≤ j → j < r'.next → (r'.keys j).values = []

theorem Created.refl (wf : WellFormed r.tree) : Created r r where
  wellFormed := wf
  grows := Grows.refl _
  values _ _ := rfl
  fresh j lo hi := by omega

theorem Created.trans {r' r'' : Registry} (first : Created r r') (second : Created r' r'') :
    Created r r'' where
  wellFormed := second.wellFormed
  grows := first.grows.trans second.grows
  values j hj := by
    have known : j < r'.next := hj.trans_le first.grows.next
    rw [second.values j known, first.values j hj]
  fresh j lo hi := by
    rcases lt_or_ge j r'.next with known | new
    · rw [second.values j known, first.fresh j lo known]
    · exact second.fresh j new hi

theorem Created.alloc (wf : WellFormed r.tree) {k : Nat} (hk : k < r.next)
    {name : Text} (short : name.length ≤ nameMax)
    (missing : cmFindSubkey r k name = none) : Created r (cmAllocKey r name k true).1 where
  wellFormed := by
    rw [cmAllocKey_tree hk short]
    exact wf.add hk (by rwa [← cmFindSubkey_eq])
  grows := by
    rw [cmAllocKey_tree hk short]
    exact KeyedTree.Tree.add_grows hk
  values j hj := by
    rw [cmAllocKey_values hk, if_neg (by omega)]
  fresh j lo hi := by
    have last : (cmAllocKey r name k true).1.next = r.next + 1 := rfl
    rw [cmAllocKey_values hk, if_pos (by omega)]

theorem walkKeys_create (room : Nat → Bool) {comps : List Text}
    (short : ∀ c ∈ comps, c.length ≤ nameMax) {r : Registry} (wf : WellFormed r.tree) {k : Nat}
    (hk : k < r.next) :
    Created r (walkKeys true room r k comps).1 ∧
      ∀ c, (walkKeys true room r k comps).2 = some c →
        (walkKeys true room r k comps).1.tree.descend k (comps.map folded) = some c := by
  induction comps generalizing r k with
  | nil =>
    refine ⟨Created.refl wf, ?_⟩
    intro c found
    exact found
  | cons comp comps ih =>
    have shortTail := fun c hc => short c (List.mem_cons_of_mem comp hc)
    simp only [walkKeys]
    cases found : cmFindSubkey r k comp with
    | some child =>
      have kid := found
      rw [cmFindSubkey_eq] at kid
      have known := (wf.later k hk child (KeyedTree.Tree.child_some kid).1).2
      obtain ⟨created, leads⟩ := ih shortTail wf known
      refine ⟨created, ?_⟩
      intro c reached
      simp only [List.map_cons, KeyedTree.Tree.descend,
        created.grows.child wf created.wellFormed hk kid]
      exact leads c reached
    | none =>
      cases granted : room r.next with
      | false =>
        refine ⟨Created.refl wf, ?_⟩
        intro c reached
        exact absurd reached (by simp [cmAllocKey])
      | true =>
        have one := Created.alloc wf hk (short comp (List.mem_cons_self ..)) found
        have isNew : (cmAllocKey r comp k true).2 = some r.next := rfl
        have kid : (cmAllocKey r comp k true).1.tree.child k (folded comp) = some r.next := by
          rw [cmAllocKey_tree hk (short comp (List.mem_cons_self ..))]
          exact wf.add_child hk (by rwa [← cmFindSubkey_eq])
        generalize cmAllocKey r comp k true = grown at one isNew kid ⊢
        obtain ⟨r', child⟩ := grown
        cases isNew
        have older : k < r'.next := hk.trans_le one.grows.next
        have known := (one.wellFormed.later k older r.next (KeyedTree.Tree.child_some kid).1).2
        obtain ⟨created, leads⟩ := ih shortTail one.wellFormed known
        simp only [Bool.true_eq_false, if_false]
        refine ⟨one.trans created, ?_⟩
        intro c reached
        simp only [List.map_cons, KeyedTree.Tree.descend,
          created.grows.child one.wellFormed created.wellFormed older kid]
        exact leads c reached

theorem walkKeys_granted {room : Nat → Bool} (granted : ∀ n, room n = true) (r : Registry) (k : Nat)
    (comps : List Text) : (walkKeys true room r k comps).2.isSome := by
  induction comps generalizing r k with
  | nil => rfl
  | cons comp comps ih =>
    simp only [walkKeys]
    cases cmFindSubkey r k comp with
    | some child => exact ih r child
    | none =>
      simp only [granted]
      exact ih _ _

theorem cmFindValue_eq (r : Registry) (k : Nat) (name : Text) :
    cmFindValue r k name =
      (r.keys k).values.find? fun v => decide (folded v.name = folded name) := by
  have test : (fun v : CmValue => ciEq v.name name) =
      fun v => decide (folded v.name = folded name) := by
    funext v
    exact congrFun (ciEq_decide name) v.name
  rw [cmFindValue, test]

/-- A lookup does not see the case of the name. -/
theorem cmFindValue_congr (r : Registry) (k : Nat) {n m : Text} (same : folded n = folded m) :
    cmFindValue r k n = cmFindValue r k m := by
  rw [cmFindValue_eq, cmFindValue_eq, same]

/-- The registry after a successful `cm_set_value`: only the values of `k` differ,
the name is mapped to the new contents and every other name is mapped as before. -/
structure ValueSet (r r' : Registry) (k : Nat) (name : Text) (type : UInt32) (data : Text) :
    Prop where
  next : r'.next = r.next
  tree : r'.tree = r.tree
  others : ∀ j, j ≠ k → r'.keys j = r.keys j
  new : ∃ v, cmFindValue r' k name = some v ∧ v.type = type ∧ v.data = data
  old : ∀ n, folded n ≠ folded name → cmFindValue r' k n = cmFindValue r k n
  distinct : ((r.keys k).values.map fun v => folded v.name).Nodup →
    ((r'.keys k).values.map fun v => folded v.name).Nodup

theorem tree_of_values (r : Registry) (k : Nat) (values : List CmValue) :
    Registry.tree { r with keys := Function.update r.keys k { r.keys k with values := values } } =
      r.tree := by
  have kids : (fun j => (Function.update r.keys k { r.keys k with values := values } j).subkeys) =
      fun j => (r.keys j).subkeys := by
    funext j
    by_cases hj : j = k
    · subst hj
      simp
    · simp [hj]
  have label :
      (fun j => folded (Function.update r.keys k { r.keys k with values := values } j).name) =
      fun j => folded (r.keys j).name := by
    funext j
    by_cases hj : j = k
    · subst hj
      simp
    · simp [hj]
  simp only [Registry.tree, kids, label]

theorem cmSetValue_spec {r' : Registry} {name : Text} (short : name.length ≤ nameMax)
    {type : UInt32} {data : Text} {copyRoom valueRoom : Bool}
    (set : cmSetValue r k name type data copyRoom valueRoom = (statusSuccess, r')) :
    ValueSet r r' k name type data := by
  have failed : statusNoMemory ≠ statusSuccess := by decide
  simp only [cmSetValue] at set
  split at set
  · exact absurd (congrArg Prod.fst set) failed
  cases found : cmFindValue r k name with
  | some v =>
    rw [found] at set
    have after := (congrArg Prod.snd set).symm
    subst after
    have test := found
    rw [cmFindValue] at test
    refine ⟨rfl, tree_of_values r k _, fun j hj => by simp [hj], ?_, ?_, ?_⟩
    · refine ⟨{ v with type := type, data := data }, ?_, rfl, rfl⟩
      simp only [cmFindValue, Function.update_self]
      rw [find?_updateFirst_self (by intro; rfl), test]
      rfl
    · intro n other
      simp only [cmFindValue, Function.update_self]
      refine find?_updateFirst_other (by intro; rfl) ?_ _
      intro u named
      rw [Bool.eq_false_iff]
      intro also
      exact other (((ciEq_iff _ _).mp also).symm.trans ((ciEq_iff _ _).mp named))
    · intro nodup
      simp only [Function.update_self]
      rwa [map_updateFirst _ (by intro; rfl)]
  | none =>
    simp only [found] at set
    split at set
    · exact absurd (congrArg Prod.fst set) failed
    have after := (congrArg Prod.snd set).symm
    subst after
    have cut : name.take nameMax = name := List.take_of_length_le short
    have missing := found
    rw [cmFindValue_eq] at missing
    refine ⟨rfl, tree_of_values r k _, fun j hj => by simp [hj], ?_, ?_, ?_⟩
    · refine ⟨⟨name, type, data⟩, ?_, rfl, rfl⟩
      simp [cmFindValue_eq, List.find?_append, missing, cut]
    · intro n other
      have apart : folded name ≠ folded n := fun h => other h.symm
      simp [cmFindValue_eq, List.find?_append, cut, apart]
    · intro nodup
      simp only [Function.update_self, List.map_append, List.map_cons, List.map_nil, cut]
      refine List.Nodup.append nodup (List.nodup_singleton _) ?_
      intro m used new
      obtain ⟨v, stored, named⟩ := List.mem_map.mp used
      have isNew : m = folded name := by simpa using new
      have none := List.find?_eq_none.mp missing v stored
      simp [named, isNew] at none

theorem cmSetValue_granted (r : Registry) (k : Nat) (name : Text) (type : UInt32) (data : Text) :
    (cmSetValue r k name type data true true).1 = statusSuccess := by
  simp only [cmSetValue, Bool.true_eq_false, and_false, if_false]
  cases cmFindValue r k name <;> rfl

theorem cmSetValue_status (r : Registry) (k : Nat) (name : Text) (type : UInt32) (data : Text)
    (copyRoom valueRoom : Bool) :
    (cmSetValue r k name type data copyRoom valueRoom).1 = statusSuccess ∨
      (cmSetValue r k name type data copyRoom valueRoom).1 = statusNoMemory := by
  simp only [cmSetValue]
  split
  · exact .inr rfl
  split
  · exact .inl rfl
  · split
    · exact .inr rfl
    · exact .inl rfl

theorem cmSetValue_failed {name : Text} {type : UInt32} {data : Text} {copyRoom valueRoom : Bool}
    (failed : (cmSetValue r k name type data copyRoom valueRoom).1 ≠ statusSuccess) :
    (cmSetValue r k name type data copyRoom valueRoom).2 = r := by
  revert failed
  simp only [cmSetValue]
  split
  · exact fun _ => rfl
  split
  · exact fun h => absurd rfl h
  · split
    · exact fun _ => rfl
    · exact fun h => absurd rfl h

end Cm
