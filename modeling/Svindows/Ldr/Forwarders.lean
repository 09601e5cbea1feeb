import Mathlib.Data.Fintype.Card
import Mathlib.Data.Set.Finite.Lattice
import Mathlib.Data.Set.Finite.List
import Svindows.Ldr.Loading
import Svindows.Ldr.Lookups

/-!
# Chains of forwarders

A lookup that comes upon a forwarder loads the module it names and looks up there.
Nothing counts these steps, and `g_ldr_depth` is back at its old value before each
of them. A lookup returns unless its chain comes back to where it has been, goes on
loading modules for ever, or loads one whose load does not return.
-/

namespace Ldr

open Nt ByteMemory Rtl Partial Relation

/-- A lookup on the way, with the loader as it finds it. -/
structure Lookup where
  state : LinkState
  base : Nat
  key : ProcKey

variable (volume : CString → Option PeFile) (rounds : Nat)

def Returns (x : Lookup) : Prop :=
  ∃ fuel r, (calls volume rounds fuel).proc x.base x.key x.state = some r

/-- `LdrpLoadModule` returns `base` and leaves `t`. -/
def Loads (s : LinkState) (name : CString) (base : Nat) (t : LinkState) : Prop :=
  ∃ fuel, (calls volume rounds fuel).ldrpLoadModule name s = some (base, t)

/-- The lookup comes upon a forwarder, which names that target. -/
def Forwards (x : Lookup) (target : Option (CString × ProcKey)) : Prop :=
  ∃ a fuel text, findExport x.state.image.mem x.base x.key = some (.forwarder a) ∧
    stringAt x.state.image.mem fuel a = some text ∧ parseForwarder text = target

/-- The lookup returns without another one. -/
inductive Ends (x : Lookup) : Prop where
  | nothing (h : findExport x.state.image.mem x.base x.key = some .nothing)
  | address {a : Nat} (h : findExport x.state.image.mem x.base x.key = some (.address a))
  | malformed (h : Forwards x none)
  | unloaded {target : CString × ProcKey} {t : LinkState} (h : Forwards x (some target))
      (load : Loads volume rounds x.state target.1 0 t)

/-- The lookup goes on with another one. -/
structure Next (x y : Lookup) : Prop where
  forwards : ∃ name, Forwards x (some (name, y.key)) ∧ Loads volume rounds x.state name y.base y.state
  loaded : y.base ≠ 0

variable {volume rounds} {x y z : Lookup}

theorem Forwards.unique {target target' : Option (CString × ProcKey)} (h : Forwards x target)
    (h' : Forwards x target') : target = target' := by
  obtain ⟨a, fuel, text, find, string, rfl⟩ := h
  obtain ⟨a', fuel', text', find', string', rfl⟩ := h'
  obtain rfl : a = a' := by
    rw [find] at find'
    cases find'
    rfl
  have left := stringAt_mono (Nat.le_max_left fuel fuel') string
  have right := stringAt_mono (Nat.le_max_right fuel fuel') string'
  rw [Option.some.inj (left.symm.trans right)]

theorem Loads.unique {s t t' : LinkState} {name : CString} {base base' : Nat}
    (h : Loads volume rounds s name base t) (h' : Loads volume rounds s name base' t') :
    base = base' ∧ t = t' := by
  obtain ⟨fuel, run⟩ := h
  obtain ⟨fuel', run'⟩ := h'
  exact Prod.mk.inj (load_unique volume rounds run run')

theorem Next.unique (h : Next volume rounds x y) (h' : Next volume rounds x z) : y = z := by
  obtain ⟨⟨name, forwards, load⟩, -⟩ := h
  obtain ⟨⟨name', forwards', load'⟩, -⟩ := h'
  have same := Option.some.inj (forwards.unique forwards')
  obtain ⟨rfl, keys⟩ := Prod.mk.inj same
  obtain ⟨bases, states⟩ := load.unique load'
  cases y
  cases z
  simp_all

theorem Ends.not_next (h : Ends volume rounds x) : ¬ Next volume rounds x y := by
  rintro ⟨⟨name, forwards, load⟩, loaded⟩
  obtain ⟨a, fuel, text, find, string, parse⟩ := id forwards
  cases h with
  | nothing none_ =>
    rw [find] at none_
    cases none_
  | address code =>
    rw [find] at code
    cases code
  | malformed bad => cases bad.unique forwards
  | unloaded other load' =>
    cases other.unique forwards
    exact loaded (load.unique load').1

theorem proc_cases {fuel : Nat} {r : Nat × LinkState}
    (h : (calls volume rounds (fuel + 1)).proc x.base x.key x.state = some r) :
    Ends volume rounds x ∨ ∃ y, Next volume rounds x y ∧
      (calls volume rounds fuel).proc y.base y.key y.state = some r := by
  rw [proc_succ] at h
  obtain ⟨found, find, result⟩ := Option.bind_eq_some_iff.mp h
  cases found with
  | nothing => exact .inl (.nothing find)
  | address a => exact .inl (.address find)
  | forwarder a =>
    obtain ⟨text, string, ⟨parse, -, -⟩ | ⟨target, base, u, parse, load, rest⟩⟩ :=
      ldrpResolveForwarder_eq_some.mp result
    · exact .inl (.malformed ⟨a, _, text, find, string, parse⟩)
    · have forwards : Forwards x (some target) := ⟨a, _, text, find, string, parse⟩
      rcases rest with ⟨rfl, -, -⟩ | ⟨some_, rest⟩
      · exact .inl (.unloaded forwards ⟨fuel, load⟩)
      · exact .inr ⟨⟨u, base, target.2⟩, ⟨⟨target.1, forwards, fuel, load⟩, some_⟩, rest⟩

theorem read_with {m : Memory} {a fuel : Nat} {text : CString} (h : stringAt m fuel a = some text)
    {fuel' : Nat} (le : fuel ≤ fuel') :
    stringAt m (calls volume rounds fuel').turns a = some text := by
  rw [calls_turns]
  exact stringAt_mono le h

theorem Ends.returns (h : Ends volume rounds x) : Returns volume rounds x := by
  cases h with
  | nothing none_ => exact ⟨1, (0, x.state), by rw [proc_succ, none_]; rfl⟩
  | @address a code => exact ⟨1, (a, x.state), by rw [proc_succ, code]; rfl⟩
  | malformed bad =>
    obtain ⟨a, fuel, text, find, string, parse⟩ := bad
    refine ⟨fuel + 1, (0, x.state), ?_⟩
    rw [proc_succ, find]
    exact ldrpResolveForwarder_eq_some.mpr
      ⟨text, read_with string (Nat.le_refl _), .inl ⟨parse, rfl, rfl⟩⟩
  | @unloaded target t forwards load =>
    obtain ⟨a, fuel, text, find, string, parse⟩ := forwards
    obtain ⟨fuel', load⟩ := load
    refine ⟨max fuel fuel' + 1, (0, t), ?_⟩
    rw [proc_succ, find]
    refine ldrpResolveForwarder_eq_some.mpr ⟨text, read_with string (Nat.le_max_left _ _), .inr ?_⟩
    exact ⟨target, 0, t, parse, (calls_mono volume rounds (Nat.le_max_right _ _)).load _ _ _ load,
      .inl ⟨rfl, rfl, rfl⟩⟩

theorem Next.returns (next : Next volume rounds x y) (h : Returns volume rounds y) :
    Returns volume rounds x := by
  obtain ⟨⟨name, ⟨a, fuel, text, find, string, parse⟩, fuel', load⟩, loaded⟩ := next
  obtain ⟨fuel'', r, rest⟩ := h
  refine ⟨fuel + fuel' + fuel'' + 1, r, ?_⟩
  rw [proc_succ, find]
  refine ldrpResolveForwarder_eq_some.mpr ⟨text, read_with string (by omega), .inr ?_⟩
  exact ⟨(name, y.key), y.base, y.state, parse,
    (calls_mono volume rounds (by omega)).load _ _ _ load,
    .inr ⟨loaded, (calls_mono volume rounds (by omega)).proc _ _ _ _ rest⟩⟩

variable (volume rounds) in
/-- The chain from a lookup ends. -/
structure Settles (x : Lookup) : Prop where
  /-- Headers are there, texts have an end, and loads return. -/
  goesOn : ∀ y, ReflTransGen (Next volume rounds) x y →
    Ends volume rounds y ∨ ∃ z, Next volume rounds y z
  /-- No lookup comes up again with the loader in the same state. -/
  fresh : ∀ y, ReflTransGen (Next volume rounds) x y → ¬ TransGen (Next volume rounds) y y
  /-- The loader's state changes finitely often. -/
  steady : ∃ y, ReflTransGen (Next volume rounds) x y ∧
    ∀ z, ReflTransGen (Next volume rounds) y z → z.state = y.state

theorem Ends.eq_of_reaches (h : Ends volume rounds x)
    (path : ReflTransGen (Next volume rounds) x y) : y = x := by
  rcases ReflTransGen.cases_head path with same | ⟨z, next, -⟩
  · exact same.symm
  · exact absurd next h.not_next

theorem Next.reaches (next : Next volume rounds x y) (path : ReflTransGen (Next volume rounds) x z) :
    z = x ∨ ReflTransGen (Next volume rounds) y z := by
  rcases ReflTransGen.cases_head path with same | ⟨y', next', rest⟩
  · exact .inl same.symm
  · exact .inr (next.unique next' ▸ rest)

theorem Settles.of_ends (h : Ends volume rounds x) : Settles volume rounds x where
  goesOn y path := by
    rw [h.eq_of_reaches path]
    exact .inl h
  fresh y path cycle := by
    rw [h.eq_of_reaches path] at cycle
    obtain ⟨z, next, -⟩ := TransGen.head'_iff.mp cycle
    exact h.not_next next
  steady := ⟨x, .refl, fun z path => by rw [h.eq_of_reaches path]⟩

theorem Settles.of_next (next : Next volume rounds x y) (h : Settles volume rounds y) :
    Settles volume rounds x where
  goesOn z path := by
    rcases next.reaches path with rfl | path
    · exact .inr ⟨y, next⟩
    · exact h.goesOn z path
  fresh z path cycle := by
    rcases next.reaches path with rfl | path
    · obtain ⟨y', next', back⟩ := TransGen.head'_iff.mp cycle
      exact h.fresh z (next.unique next' ▸ back) cycle
    · exact h.fresh z path cycle
  steady := by
    obtain ⟨z, path, same⟩ := h.steady
    exact ⟨z, .head next path, same⟩

theorem Returns.settles (h : Returns volume rounds x) : Settles volume rounds x := by
  obtain ⟨fuel, r, run⟩ := h
  induction fuel generalizing x with
  | zero =>
    rw [proc_zero] at run
    cases run
  | succ fuel ih =>
    rcases proc_cases run with ends | ⟨y, next, rest⟩
    · exact .of_ends ends
    · exact .of_next next (ih rest)

/-- The targets that a forwarder can name. -/
def targets : Set (CString × ProcKey) :=
  {name | name.bytes.length ≤ 61} ×ˢ
    (ProcKey.name '' {s | s.bytes.length ≤ 127} ∪ ProcKey.ordinal '' Set.Iio (2 ^ 16))

theorem finite_short (n : Nat) : {s : CString | s.bytes.length ≤ n}.Finite := by
  have bytes : Finite UInt8 := .of_injective UInt8.toFin fun _ _ => UInt8.toFin_inj.mp
  have lists := List.finite_length_le UInt8 n
  exact lists.preimage fun s _ t _ same => CString.ext same

theorem targets_finite : targets.Finite :=
  (finite_short 61).prod <|
    ((finite_short 127).image _).union ((Set.finite_lt_nat _).image _)

theorem ofBytes_length_le (bytes : List UInt8) : (CString.ofBytes bytes).bytes.length ≤ bytes.length :=
  (List.takeWhile_prefix _).length_le

theorem symbolKey_mem {symbol : CString} (short : symbol.bytes.length ≤ 127) :
    symbolKey symbol ∈
      ProcKey.name '' {s | s.bytes.length ≤ 127} ∪ ProcKey.ordinal '' Set.Iio (2 ^ 16) := by
  simp only [symbolKey]
  split
  · exact .inr ⟨_, Nat.mod_lt _ (by decide), rfl⟩
  · exact .inl ⟨symbol, short, rfl⟩

theorem parseForwarder_mem {text : CString} {target : CString × ProcKey}
    (h : parseForwarder text = some target) : target ∈ targets := by
  simp only [parseForwarder] at h
  split at h
  · cases h
  · rename_i dot _
    split at h
    · cases h
    · rename_i bounds
      cases h
      refine ⟨?_, symbolKey_mem ?_⟩
      · have cut := ofBytes_length_le (text.bytes.take dot ++ (CString.lit ".dll").bytes)
        have suffix : (CString.lit ".dll").bytes.length = 4 := by decide
        rw [List.length_append, List.length_take, suffix] at cut
        refine cut.trans ?_
        omega
      · have cut := ofBytes_length_le ((text.bytes.drop (dot + 1)).take 127)
        rw [List.length_take] at cut
        omega

/-- As long as the loader's state stays the same, there are finitely many lookups. -/
theorem finite_chain (same : ∀ z, ReflTransGen (Next volume rounds) y z → z.state = y.state) :
    {z | ReflTransGen (Next volume rounds) y z}.Finite := by
  let from_ : CString × ProcKey → Set Lookup := fun target =>
    {z | Loads volume rounds y.state target.1 z.base z.state ∧ z.key = target.2}
  have single : ∀ target, (from_ target).Finite := by
    intro target
    refine Set.Subsingleton.finite ?_
    rintro ⟨t, base, key⟩ ⟨load, rfl⟩ ⟨t', base', key'⟩ ⟨load', rfl⟩
    obtain ⟨rfl, rfl⟩ := load.unique load'
    rfl
  refine ((Set.finite_singleton y).union (targets_finite.biUnion fun target _ => single target)).subset ?_
  intro z path
  rcases ReflTransGen.cases_tail path with same_ | ⟨z', before, next⟩
  · exact .inl same_
  · obtain ⟨⟨name, ⟨a, fuel, text, find, string, parse⟩, load⟩, -⟩ := next
    refine .inr (Set.mem_biUnion (parseForwarder_mem parse) ⟨?_, rfl⟩)
    rw [← same z' before]
    exact load

/-- An acyclic chain of finitely many lookups is followed from its end. -/
theorem Settles.returns (h : Settles volume rounds x) : Returns volume rounds x := by
  obtain ⟨y, path, same⟩ := h.steady
  have finite := finite_chain same
  have wellFounded : WellFounded fun z w : {z | ReflTransGen (Next volume rounds) y z} =>
      TransGen (Next volume rounds) w.1 z.1 := by
    have := finite.to_subtype
    have : IsTrans _ fun z w : {z | ReflTransGen (Next volume rounds) y z} =>
        TransGen (Next volume rounds) w.1 z.1 := ⟨fun _ _ _ first second => second.trans first⟩
    have : Std.Irrefl fun z w : {z | ReflTransGen (Next volume rounds) y z} =>
        TransGen (Next volume rounds) w.1 z.1 := ⟨fun z => h.fresh z.1 (path.trans z.2)⟩
    exact Finite.wellFounded_of_trans_of_irrefl _
  have all : ∀ z : {z | ReflTransGen (Next volume rounds) y z}, Returns volume rounds z.1 := by
    intro z
    induction z using wellFounded.induction with
    | _ z ih =>
      rcases h.goesOn z.1 (path.trans z.2) with ends | ⟨w, next⟩
      · exact ends.returns
      · exact next.returns (ih ⟨w, z.2.tail next⟩ (.single next))
  have last := all ⟨y, .refl⟩
  clear all wellFounded finite same h
  induction path using ReflTransGen.head_induction_on with
  | refl => exact last
  | head next _ ih => exact next.returns ih

theorem Next.of_cached {name : CString} {key : ProcKey} {base : Nat}
    (shallow : x.state.depth + 1 < maxDependencyDepth) (forwards : Forwards x (some (name, key)))
    (cached : lookupModule x.state.table (routed name) = base) (loaded : base ≠ 0) :
    Next volume rounds x ⟨x.state, base, key⟩ := by
  subst cached
  exact ⟨⟨name, forwards, 2, load_cached 0 shallow loaded⟩, loaded⟩

end Ldr
