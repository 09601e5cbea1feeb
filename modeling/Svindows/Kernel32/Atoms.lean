import Svindows.Msvcrt.Printf
import Svindows.User.Atoms

/-!
# Atoms of kernel32

`GlobalAddAtomW`, `GlobalFindAtomW` and `GetAtomNameW` of `kernel32.c` on the table of the
process. Names are compared as they are spelled when they are added and ignoring case when
they are looked up, and the table keeps 63 units of each.

A name is the list of its units before the zero. A number below `0xC000` in place of a
pointer is an integer atom, null for 0.
-/

namespace Kernel32

open User (WideString lowerUnit SameName)

def localAtomCapacity : Nat := 128
def atomChars : Nat := 64

inductive AtomName where
  | integer (value : Nat)
  | text (units : WideString)

/-- The loop of `GlobalAddAtomW`. -/
def sameUnits : WideString → WideString → Bool
  | a :: as, b :: bs => if a = b then sameUnits as bs else false
  | [], [] => true
  | _, _ => false

/-- The loop of `KiFindAtomW`. -/
def sameFolded : WideString → WideString → Bool
  | a :: as, b :: bs => if lowerUnit a ≠ lowerUnit b then false else sameFolded as bs
  | [], [] => true
  | _, _ => false

/-- `KiFindAtomW`, which `GlobalFindAtomW` and `FindAtomW` call. -/
def kiFindAtomW (names : List WideString) : AtomName → Nat
  | .integer value => value
  | .text name =>
    match names.findIdx? (sameFolded · name) with
    | some i => 0xC000 + i
    | none => 0

/-- The atom, 0 if there is no room, and the table. -/
def globalAddAtomW (names : List WideString) (name : WideString) : Nat × List WideString :=
  match names.findIdx? (sameUnits · name) with
  | some i => (0xC000 + i, names)
  | none =>
    if localAtomCapacity ≤ names.length then (0, names)
    else (0xC000 + names.length, names ++ [name.take (atomChars - 1)])

/-- The two loops that write into `out`, from index `len` on. -/
def copyLoop (capacity : Nat) : Nat → WideString → WideString
  | _, [] => []
  | len, c :: cs => if len + 1 < capacity then c :: copyLoop capacity (len + 1) cs else []

def atomDigits (atom : Nat) : WideString :=
  if atom = 0 then [0x30] else (Msvcrt.digitLoop (0x30 + ·) 10 8 atom).reverse

/-- `KiAtomNameToWide`, which `GetAtomNameW` calls: the length and the units that are written
from `out[0]` on; `out` may be null. -/
def kiAtomNameToWide (names : List WideString) (atom : Nat) (out : Bool) (capacity : Nat) :
    Nat × WideString :=
  if out = false ∨ capacity = 0 then (0, [])
  else if atom < 0xC000 then
    let text := 0x23 :: copyLoop capacity 1 (atomDigits atom)
    (text.length, text ++ [0])
  else
    match names[atom - 0xC000]? with
    | none => (0, [])
    | some name =>
      let text := copyLoop capacity 0 name
      (text.length, text ++ [0])

/-- The names, and what `GlobalAddAtomW` returned for which name. -/
structure AtomTable where
  names : List WideString
  log : List (WideString × Nat)

/-- A call of `GlobalAddAtomW`; for null it does nothing. -/
def AtomTable.add (s : AtomTable) : Option WideString → AtomTable
  | none => s
  | some name =>
    let (atom, names) := globalAddAtomW s.names name
    ⟨names, s.log ++ [(name, atom)]⟩

def addAtoms (calls : List (Option WideString)) : AtomTable := calls.foldl AtomTable.add ⟨[], []⟩

/-- Once a call has returned an atom, a later one returns the same atom for the same name,
ignoring case, and another for others; the atom is found by name, and the name by atom. -/
structure AtomLaws (s : AtomTable) : Prop where
  again : s.log.Pairwise fun x y => x.2 ≠ 0 → (y.2 = x.2 ↔ SameName x.1 y.1)
  find : ∀ x ∈ s.log, x.2 ≠ 0 → kiFindAtomW s.names (.text x.1) = x.2
  name : ∀ x ∈ s.log, x.2 ≠ 0 → ∀ capacity, x.1.length < capacity →
    ∃ text, kiAtomNameToWide s.names x.2 true capacity = (text.length, text ++ [0]) ∧
      SameName text x.1

/-- The name fits, and is spelled as the table has it. -/
def Consistent (names : List WideString) (name : WideString) : Prop :=
  (name.length < atomChars ∨ localAtomCapacity ≤ names.length) ∧
    ∀ m ∈ names, SameName m name → m = name

theorem sameUnits_iff {a b : WideString} : sameUnits a b = true ↔ a = b := by
  induction a generalizing b with
  | nil => cases b <;> simp [sameUnits]
  | cons c a ih =>
    cases b with
    | nil => simp [sameUnits]
    | cons d b =>
      rw [sameUnits, List.cons.injEq, ← ih]
      split_ifs with same <;> simp [same]

theorem sameFolded_iff {a b : WideString} : sameFolded a b = true ↔ SameName a b := by
  induction a generalizing b with
  | nil => cases b <;> simp [sameFolded, SameName]
  | cons c a ih =>
    cases b with
    | nil => simp [sameFolded, SameName]
    | cons d b =>
      rw [sameFolded, SameName, List.map_cons, List.map_cons, List.cons.injEq]
      split_ifs with other
      · simp [other]
      · rw [ih, SameName]
        simp [not_not.mp other]

theorem copyLoop_eq (capacity : Nat) (len : Nat) (cs : WideString) :
    copyLoop capacity len cs = cs.take (capacity - 1 - len) := by
  induction cs generalizing len with
  | nil => simp [copyLoop]
  | cons c cs ih =>
    rw [copyLoop, ih]
    split_ifs with room
    · rw [show capacity - 1 - len = (capacity - 1 - (len + 1)) + 1 by omega, List.take_succ_cons]
    · rw [show capacity - 1 - len = 0 by omega, List.take_zero]

/-- What `GlobalAddAtomW` does: the name is there as it is spelled, the table is full, or the
name is appended. -/
theorem globalAddAtomW_cases (names : List WideString) (name : WideString) :
    (∃ i, names[i]? = some name ∧ globalAddAtomW names name = (0xC000 + i, names)) ∨
      (name ∉ names ∧ localAtomCapacity ≤ names.length ∧ globalAddAtomW names name = (0, names)) ∨
      (name ∉ names ∧ names.length < localAtomCapacity ∧ globalAddAtomW names name =
        (0xC000 + names.length, names ++ [name.take (atomChars - 1)])) := by
  rw [globalAddAtomW]
  cases found : names.findIdx? (sameUnits · name) with
  | some i =>
    obtain ⟨low, same, -⟩ := List.findIdx?_eq_some_iff_getElem.mp found
    refine .inl ⟨i, ?_, rfl⟩
    rw [List.getElem?_eq_getElem low, sameUnits_iff.mp same]
  | none =>
    have absent : name ∉ names := by
      intro mem
      have := List.findIdx?_eq_none_iff.mp found name mem
      rw [sameUnits_iff.mpr rfl] at this
      exact absurd this (by simp)
    simp only
    split_ifs with full
    · exact .inr (.inl ⟨absent, full, rfl⟩)
    · exact .inr (.inr ⟨absent, Nat.lt_of_not_le full, rfl⟩)

theorem kiAtomNameToWide_name {names : List WideString} {i capacity : Nat} {m : WideString}
    (taken : names[i]? = some m) (room : m.length < capacity) :
    kiAtomNameToWide names (0xC000 + i) true capacity = (m.length, m ++ [0]) := by
  have some_ : ¬ (true = false ∨ capacity = 0) := by simp; omega
  have whole : copyLoop capacity 0 m = m := by
    rw [copyLoop_eq, List.take_of_length_le (by omega)]
  rw [kiAtomNameToWide, if_neg some_, if_neg (by omega), Nat.add_sub_cancel_left, taken]
  simp only [whole]

theorem addAtoms_append (calls calls' : List (Option WideString)) :
    addAtoms (calls ++ calls') = calls'.foldl AtomTable.add (addAtoms calls) :=
  List.foldl_append ..

theorem slot_append {names : List WideString} {i : Nat} {m : WideString} (slot : names[i]? = some m)
    (more : List WideString) : (names ++ more)[i]? = some m := by
  rwa [List.getElem?_append_left (List.getElem?_eq_some_iff.mp slot).1]

/-- Slots and calls stay as they are. -/
structure AtomTable.Extends (s t : AtomTable) : Prop where
  names : s.names <+: t.names
  log : s.log <+: t.log

theorem AtomTable.add_extends (s : AtomTable) (call : Option WideString) :
    s.Extends (s.add call) := by
  cases call with
  | none => exact ⟨List.prefix_rfl, List.prefix_rfl⟩
  | some name =>
    refine ⟨?_, List.prefix_append _ _⟩
    rcases globalAddAtomW_cases s.names name with ⟨i, -, result⟩ | ⟨-, -, result⟩ | ⟨-, -, result⟩
    all_goals simp only [AtomTable.add, result, List.prefix_rfl, List.prefix_append]

theorem foldl_extends (s : AtomTable) (calls : List (Option WideString)) :
    s.Extends (calls.foldl AtomTable.add s) := by
  induction calls generalizing s with
  | nil => exact ⟨List.prefix_rfl, List.prefix_rfl⟩
  | cons call calls ih =>
    have first := s.add_extends call
    have rest := ih (s.add call)
    exact ⟨first.names.trans rest.names, first.log.trans rest.log⟩

/-- Every slot is the first 63 units of a name that was added. -/
structure AtomTable.Recorded (s : AtomTable) : Prop where
  short : ∀ m ∈ s.names, m.length < atomChars
  origin : ∀ i m, s.names[i]? = some m →
    ∃ name, (name, 0xC000 + i) ∈ s.log ∧ m = name.take (atomChars - 1)

theorem AtomTable.Recorded.add {s : AtomTable} (recorded : s.Recorded) (call : Option WideString) :
    (s.add call).Recorded := by
  cases call with
  | none => exact recorded
  | some name =>
    have kept : ∀ i m, s.names[i]? = some m → ∀ atom,
        ∃ n, (n, 0xC000 + i) ∈ s.log ++ [(name, atom)] ∧ m = n.take (atomChars - 1) := by
      intro i m slot atom
      obtain ⟨n, mem, same⟩ := recorded.origin i m slot
      exact ⟨n, List.mem_append_left _ mem, same⟩
    rcases globalAddAtomW_cases s.names name with ⟨i, -, result⟩ | ⟨-, -, result⟩ | ⟨-, -, result⟩
    · simp only [AtomTable.add, result]
      exact ⟨recorded.short, fun i m slot => kept i m slot _⟩
    · simp only [AtomTable.add, result]
      exact ⟨recorded.short, fun i m slot => kept i m slot _⟩
    · simp only [AtomTable.add, result]
      refine ⟨?_, fun i m slot => ?_⟩
      · intro m mem
        rcases List.mem_append.mp mem with old | new
        · exact recorded.short m old
        · rw [List.mem_singleton.mp new]
          exact Nat.lt_of_le_of_lt (List.length_take_le ..) (by decide)
      · simp only [List.getElem?_append, List.getElem?_singleton] at slot
        split_ifs at slot with low here
        · exact kept i m slot _
        · have same : i = s.names.length := by omega
          cases slot
          exact ⟨name, by simp [same], rfl⟩

theorem addAtoms_recorded (calls : List (Option WideString)) : (addAtoms calls).Recorded := by
  induction calls using List.reverseRecOn with
  | nil =>
    exact ⟨fun m mem => absurd mem List.not_mem_nil, fun i m slot => by simp [addAtoms] at slot⟩
  | append_singleton calls call ih =>
    rw [addAtoms_append]
    exact ih.add call

/-- No two slots have the same name, and every call that returned an atom found or wrote its
name as it is spelled; the others found a table that was full. -/
structure AtomTable.Sound (s : AtomTable) : Prop where
  distinct : ∀ (i j : Nat) (m n : WideString),
    s.names[i]? = some m → s.names[j]? = some n → SameName m n → i = j
  logged : ∀ x ∈ s.log, (∃ i, s.names[i]? = some x.1 ∧ x.2 = 0xC000 + i) ∨
    x.2 = 0 ∧ localAtomCapacity ≤ s.names.length ∧ ∀ m ∈ s.names, ¬ SameName m x.1

theorem AtomTable.Sound.add {s : AtomTable} (sound : s.Sound) {name : WideString}
    (consistent : Consistent s.names name) : (s.add (some name)).Sound := by
  obtain ⟨fits, spelled⟩ := consistent
  rcases globalAddAtomW_cases s.names name with
    ⟨i, slot, result⟩ | ⟨absent, full, result⟩ | ⟨absent, room, result⟩
  · simp only [AtomTable.add, result]
    refine ⟨sound.distinct, fun x mem => ?_⟩
    rcases List.mem_append.mp mem with old | new
    · exact sound.logged x old
    · rw [List.mem_singleton.mp new]
      exact .inl ⟨i, slot, rfl⟩
  · simp only [AtomTable.add, result]
    refine ⟨sound.distinct, fun x mem => ?_⟩
    rcases List.mem_append.mp mem with old | new
    · exact sound.logged x old
    · rw [List.mem_singleton.mp new]
      exact .inr ⟨rfl, full, fun m mem same => absent (spelled m mem same ▸ mem)⟩
  · have whole : name.take (atomChars - 1) = name := by
      refine List.take_of_length_le (Nat.le_sub_one_of_lt (fits.resolve_right ?_))
      exact Nat.not_le.mpr room
    simp only [AtomTable.add, result, whole]
    have fresh : ∀ m ∈ s.names, ¬ SameName m name :=
      fun m mem same => absent (spelled m mem same ▸ mem)
    refine ⟨fun i j m n slot slot' same => ?_, fun x mem => ?_⟩
    · simp only [List.getElem?_append, List.getElem?_singleton] at slot slot'
      split_ifs at slot slot' with low low' here' here low'
      · exact sound.distinct i j m n slot slot' same
      · cases slot'
        exact absurd same (fresh m (List.mem_of_getElem? slot))
      · cases slot
        exact absurd same.symm (fresh n (List.mem_of_getElem? slot'))
      · omega
    · rcases List.mem_append.mp mem with old | new
      · rcases sound.logged x old with ⟨i, slot, atom⟩ | ⟨-, full, -⟩
        · exact .inl ⟨i, slot_append slot _, atom⟩
        · exact absurd full (Nat.not_le.mpr room)
      · rw [List.mem_singleton.mp new]
        exact .inl ⟨s.names.length, by simp, rfl⟩

theorem addAtoms_sound {calls : List (Option WideString)}
    (consistent : ∀ pre name post, calls = pre ++ some name :: post →
      Consistent (addAtoms pre).names name) : (addAtoms calls).Sound := by
  induction calls using List.reverseRecOn with
  | nil =>
    exact ⟨fun i j m n slot => by simp [addAtoms] at slot, fun x mem => absurd mem List.not_mem_nil⟩
  | append_singleton calls call ih =>
    have before := ih fun pre name post same =>
      consistent pre name (post ++ [call]) (by simp [same])
    rw [addAtoms_append]
    cases call with
    | none => exact before
    | some name => exact before.add (consistent calls name [] rfl)

/-- The laws hold of a sound table. -/
theorem AtomTable.Sound.laws {s : AtomTable} (sound : s.Sound) : AtomLaws s where
  again := by
    refine List.pairwise_of_forall_mem_list fun x hx y hy some_ => ?_
    rcases sound.logged x hx with ⟨i, slot, atom⟩ | ⟨none, -, -⟩
    · rcases sound.logged y hy with ⟨j, slot', atom'⟩ | ⟨none, -, other⟩
      · constructor
        · intro same
          obtain rfl : i = j := by omega
          rw [Option.some.inj (slot.symm.trans slot')]
          rfl
        · intro same
          rw [atom, atom', sound.distinct i j _ _ slot slot' same]
      · refine iff_of_false (fun same => some_ (same.symm.trans none)) ?_
        exact other x.1 (List.mem_of_getElem? slot)
    · exact absurd none some_
  find x hx some_ := by
    rcases sound.logged x hx with ⟨i, slot, atom⟩ | ⟨none, -, -⟩
    · obtain ⟨low, same⟩ := List.getElem?_eq_some_iff.mp slot
      have found : s.names.findIdx? (sameFolded · x.1) = some i := by
        refine List.findIdx?_eq_some_iff_getElem.mpr ⟨low, ?_, fun j before equal => ?_⟩
        · rw [same, sameFolded_iff]
          rfl
        · have j_low : j < s.names.length := by omega
          have := sound.distinct j i _ _ (List.getElem?_eq_getElem j_low) slot
            (sameFolded_iff.mp equal)
          omega
      rw [kiFindAtomW, found, atom]
    · exact absurd none some_
  name x hx some_ capacity room := by
    rcases sound.logged x hx with ⟨i, slot, atom⟩ | ⟨none, -, -⟩
    · exact ⟨x.1, by rw [atom, kiAtomNameToWide_name slot room], rfl⟩
    · exact absurd none some_

section Broken

variable {s t : AtomTable} {name : WideString}

theorem AtomTable.Extends.slot (extends_ : s.Extends t) {i : Nat} {m : WideString}
    (slot : s.names[i]? = some m) : t.names[i]? = some m := by
  obtain ⟨more, same⟩ := extends_.names
  rw [← same]
  exact slot_append slot more

/-- A name that is cut does not come back. -/
theorem not_laws_of_long (recorded : s.Recorded) (later : (s.add (some name)).Extends t)
    (long : atomChars ≤ name.length) (room : s.names.length < localAtomCapacity) :
    ¬ AtomLaws t := by
  intro laws
  rcases globalAddAtomW_cases s.names name with
    ⟨i, slot, -⟩ | ⟨-, full, -⟩ | ⟨-, -, result⟩
  · have := recorded.short name (List.mem_of_getElem? slot)
    omega
  · omega
  · have added : s.add (some name) = ⟨s.names ++ [name.take (atomChars - 1)],
        s.log ++ [(name, 0xC000 + s.names.length)]⟩ := by
      simp only [AtomTable.add, result]
    have slot : (s.add (some name)).names[s.names.length]? = some (name.take (atomChars - 1)) := by
      simp [added]
    have logged : (name, 0xC000 + s.names.length) ∈ t.log := by
      refine later.log.mem ?_
      simp [added]
    obtain ⟨text, result, same⟩ := laws.name _ logged (by simp) (name.length + 1) (by simp)
    have cut : (name.take (atomChars - 1)).length = atomChars - 1 :=
      List.length_take_of_le (by omega)
    rw [kiAtomNameToWide_name (later.slot slot) (by omega), cut] at result
    have length := same.length
    have := congrArg Prod.fst result
    simp only [atomChars] at *
    omega

/-- A name that is spelled in another way gets another atom. -/
theorem not_laws_of_variant (recorded : s.Recorded) (later : (s.add (some name)).Extends t)
    {m : WideString} (mem : m ∈ s.names) (same : SameName m name) (other : m ≠ name) :
    ¬ AtomLaws t := by
  intro laws
  obtain ⟨i, low, slot⟩ := List.mem_iff_getElem.mp mem
  have slot : s.names[i]? = some m := by rw [List.getElem?_eq_getElem low, slot]
  obtain ⟨first, logged, -⟩ := recorded.origin i m slot
  have extends_ : s.Extends t :=
    ⟨(s.add_extends (some name)).names.trans later.names,
      (s.add_extends (some name)).log.trans later.log⟩
  -- the first name's atom has the slot of `m`, so it is `m` up to case
  obtain ⟨text, result, named⟩ := laws.name _ (extends_.log.mem logged) (by simp)
    (max first.length m.length + 1) (by simp only; omega)
  rw [kiAtomNameToWide_name (extends_.slot slot) (by omega)] at result
  have text_eq : m = text := (List.append_inj' (congrArg Prod.snd result) rfl).1
  have variant : SameName first name := (text_eq ▸ named).symm.trans same
  have again : ∀ atom, (s.add (some name)).log = s.log ++ [(name, atom)] → atom = 0xC000 + i := by
    intro atom log
    have pairs := laws.again.sublist later.log.sublist
    rw [log] at pairs
    have pair := (List.pairwise_append.mp pairs).2.2 _ logged _ (List.mem_singleton_self _)
    exact (pair (by simp)).mpr variant
  rcases globalAddAtomW_cases s.names name with ⟨j, slot', result⟩ | ⟨-, -, result⟩ | ⟨-, -, result⟩
  · have atom := again (0xC000 + j) (by simp only [AtomTable.add, result])
    obtain rfl : j = i := by omega
    exact other (Option.some.inj (slot.symm.trans slot'))
  · have atom := again 0 (by simp only [AtomTable.add, result])
    omega
  · have atom := again (0xC000 + s.names.length) (by simp only [AtomTable.add, result])
    omega

end Broken

/-- Exactly the runs that keep the laws: every name fits as long as there is room, and is
spelled as it was first. -/
theorem atomLaws_iff (calls : List (Option WideString)) :
    AtomLaws (addAtoms calls) ↔ ∀ pre name post, calls = pre ++ some name :: post →
      Consistent (addAtoms pre).names name := by
  refine ⟨fun laws pre name post same => ?_, fun consistent => (addAtoms_sound consistent).laws⟩
  have recorded := addAtoms_recorded pre
  have later : ((addAtoms pre).add (some name)).Extends (addAtoms calls) := by
    rw [same, addAtoms_append, List.foldl_cons]
    exact foldl_extends _ post
  refine ⟨?_, fun m mem variant => ?_⟩
  · by_contra long
    simp only [not_or, Nat.not_lt, Nat.not_le] at long
    exact not_laws_of_long recorded later long.1 long.2 laws
  · by_contra other
    exact not_laws_of_variant recorded later mem variant other laws

/-- Exactly the calls that write below `capacity`. -/
theorem kiAtomNameToWide_within (names : List WideString) (atom : Nat) (out : Bool)
    (capacity : Nat) : (kiAtomNameToWide names atom out capacity).2.length ≤ capacity ↔
      ¬ (out = true ∧ atom < 0xC000 ∧ capacity = 1) := by
  rw [kiAtomNameToWide]
  split_ifs with none integer
  · refine iff_of_true (Nat.zero_le _) ?_
    rintro ⟨rfl, -, rfl⟩
    simp at none
  · simp only [not_or, Bool.not_eq_false] at none
    simp only [copyLoop_eq, List.length_append, List.length_cons, List.length_take, List.length_nil,
      none.1, integer, true_and]
    omega
  · simp only [not_or, Bool.not_eq_false] at none
    refine iff_of_true ?_ fun wrong => integer wrong.2.1
    cases names[atom - 0xC000]? with
    | none => exact Nat.zero_le _
    | some name =>
      simp only [copyLoop_eq, List.length_append, List.length_take, List.length_cons,
        List.length_nil]
      omega

/-- Exactly when the atoms of a run agree with the names, and which calls for a name stay
inside of the buffer. -/
theorem atom_table_laws (calls : List (Option WideString)) (names : List WideString) (atom : Nat)
    (out : Bool) (capacity : Nat) :
    (AtomLaws (addAtoms calls) ↔ ∀ pre name post, calls = pre ++ some name :: post →
      Consistent (addAtoms pre).names name) ∧
    ((kiAtomNameToWide names atom out capacity).2.length ≤ capacity ↔
      ¬ (out = true ∧ atom < 0xC000 ∧ capacity = 1)) :=
  ⟨atomLaws_iff calls, kiAtomNameToWide_within names atom out capacity⟩

/-- `Foo` and `foo` get two atoms, and integer atom 5 writes two units into a buffer of one. -/
theorem foo_atoms :
    SameName [0x46, 0x6F, 0x6F] [0x66, 0x6F, 0x6F] ∧
    (addAtoms [some [0x46, 0x6F, 0x6F], some [0x66, 0x6F, 0x6F]]).log.map Prod.snd =
      [0xC000, 0xC001] ∧
    kiAtomNameToWide [] 5 true 1 = (1, [0x23, 0]) := by
  refine ⟨rfl, ?_, ?_⟩ <;> decide

end Kernel32
