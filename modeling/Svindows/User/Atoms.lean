import Mathlib.Data.List.TakeWhile
import Svindows.Lib.Runs
import Svindows.User.Classes

/-!
# USER atoms

`KiCaptureAtomName`, `NtUserRegisterWindowMessage` and `NtUserGetAtomName` of
`ke/syscall.c`. Messages and classes share one table of names, which only grows.

A message name of 64 units or more does not fit the buffer of the capture; the
capture then takes the UNICODE_STRING itself for the characters of a bare string.
A class name is cut to 31 units. Names that fit are interned ignoring case.
-/

namespace User

open Nt Mm ByteMemory

/-- `KiUserAtomName`. -/
def kiUserAtomName (atoms : List AtomEntry) (atom : Nat) : Option WideString :=
  (atoms.find? fun entry => entry.atom == atom).map AtomEntry.name

/-- `KiCaptureAtomName`: a UNICODE_STRING, or a bare string if it does not look like one. -/
def kiCaptureAtomName (u : UserPort) (arg cap : Nat) : WideString × UserPort :=
  let bare := fun u => ((kiCopyWideFromUser u arg cap).1.getD [], (kiCopyWideFromUser u arg cap).2)
  if arg = 0 then ([], u)
  else if u.accepts arg sizeofUnicodeString = false then bare u
  else
    let length := load u.bytes arg 2
    let u := (u.probed arg sizeofUnicodeString).read arg 2
    if length / 2 = 0 ∨ cap ≤ length / 2 then bare u
    else
      let maximumLength := load u.bytes (arg + 2) 2
      let u := u.read (arg + 2) 2
      if maximumLength < length then bare u
      else
        let buffer := load u.bytes (arg + 8) 8
        let u := u.read (arg + 8) 8
        if buffer = 0 ∨ u.accepts buffer (length / 2 * 2) = false then bare u
        else
          (unitsAt u.bytes arg,
            (u.probed buffer (length / 2 * 2)).read buffer (length / 2 * 2))

def ntUserRegisterWindowMessage (atoms : List AtomEntry) (u : UserPort) (a : Nat → UInt64) :
    Nat × List AtomEntry × UserPort :=
  match kiCaptureAtomName u (a 0).toNat userAtomChars with
  | ([], u) => (0, atoms, u)
  | (name, u) =>
    let interned := kiUserAddAtom atoms name
    (interned.1, interned.2, u)

/-- The copy loop of `NtUserGetAtomName` into the buffer that `buffer` finds in the memory. -/
def putUnits (buffer : Memory → Nat) : WideString → Nat → UserPort → UserPort
  | [], _, u => u
  | c :: cs, i, u => putUnits buffer cs (i + 1) (u.write (buffer u.bytes + 2 * i) 2 c)

/-- The units and their zero. -/
def putName (buffer : Memory → Nat) (name : WideString) (u : UserPort) : UserPort :=
  putUnits buffer (name ++ [0]) 0 u

/-- The name goes to the buffer of the UNICODE_STRING at `arg`, which is looked up again for each
unit. -/
def putString (u : UserPort) (arg : Nat) (name : WideString) : Nat × UserPort :=
  let buffer := nameBuffer u.bytes arg
  let maximumLength := load u.bytes (arg + 2) 2
  let taken := name.take (maximumLength / 2 - 1)
  let size := (taken.length + 1) * 2
  let seen := (u.probed arg sizeofUnicodeString).read (arg + 8) 8
  if buffer = 0 then (0, seen)
  else if maximumLength < 2 ∨ u.accepts buffer size = false then (0, seen.read (arg + 2) 2)
  else
    let put := putName (nameBuffer · arg) taken ((seen.read (arg + 2) 2).probed buffer size)
    (taken.length, put.write arg 2 (taken.length * 2))

/-- The name goes to a bare buffer. -/
def putPlain (u : UserPort) (buffer capacity : Nat) (name : WideString) : Nat × UserPort :=
  let taken := name.take (capacity - 1)
  let size := (taken.length + 1) * 2
  if buffer = 0 ∨ capacity = 0 then (0, u)
  else if u.accepts buffer size = false then (0, u)
  else (taken.length, putName (fun _ => buffer) taken (u.probed buffer size))

/-- `NtUserGetAtomName`: the count that it returns. Without a capacity the argument is a
UNICODE_STRING. -/
def ntUserGetAtomName (atoms : List AtomEntry) (u : UserPort) (a : Nat → UInt64) :
    Nat × UserPort :=
  match kiUserAtomName atoms ((a 0).toNat % 2 ^ 16) with
  | none => (0, u)
  | some name =>
    let buffer := (a 1).toNat
    let capacity := wrap32 (a 2).toNat
    if buffer ≠ 0 ∧ capacity = 0 ∧ u.accepts buffer sizeofUnicodeString = true then
      putString u buffer name
    else putPlain u buffer capacity name

/-- Equal ignoring the case of ASCII letters. -/
def SameName (a b : WideString) : Prop := a.map lowerUnit = b.map lowerUnit

/-- A readable UNICODE_STRING with a name that is not empty and has no zero in it. -/
structure Counted (u : UserPort) (arg : Nat) : Prop where
  there : arg ≠ 0
  readable : u.accepts arg sizeofUnicodeString = true
  some_ : load u.bytes arg 2 / 2 ≠ 0
  maximum : load u.bytes arg 2 ≤ load u.bytes (arg + 2) 2
  buffer : nameBuffer u.bytes arg ≠ 0
  units : u.accepts (nameBuffer u.bytes arg) (load u.bytes arg 2 / 2 * 2) = true
  noNul : 0 ∉ unitsAt u.bytes arg

inductive AtomKind where
  | message | windowClass
  deriving DecidableEq

/-- A call that has returned an atom. -/
structure Registration where
  kind : AtomKind
  name : WideString
  atom : Nat
  deriving DecidableEq

/-- The units that the service has room for. -/
def AtomKind.room : AtomKind → Nat
  | .message => userAtomChars
  | .windowClass => classNameChars

def Registration.Fits (r : Registration) : Prop := r.name.length < r.kind.room

/-- The tables, and the calls that have returned an atom. -/
structure AtomSystem where
  table : ClassTable
  log : List Registration

def AtomSystem.logged (s : AtomSystem) (kind : AtomKind) (name : WideString) (atom : Nat) :
    List Registration :=
  if atom = 0 then s.log else s.log ++ [⟨kind, name, atom⟩]

inductive AtomOp where
  | message (u : UserPort) (a : Nat → UInt64)
  | windowClass (u : UserPort) (a : Nat → UInt64)

def AtomSystem.Step (s : AtomSystem) : AtomOp → AtomSystem → Prop
  | .message u a, t => Counted u (a 0).toNat ∧
      let r := ntUserRegisterWindowMessage s.table.atoms u a
      t = ⟨⟨s.table.classes, r.2.1⟩, s.logged .message (unitsAt u.bytes (a 0).toNat) r.1⟩
  | .windowClass u a, t => Counted u (a 1).toNat ∧
      let r := ntUserRegisterClassExWOW s.table u a
      t = ⟨r.2.1, s.logged .windowClass (unitsAt u.bytes (a 1).toNat) r.1⟩

def emptyAtoms : AtomSystem := ⟨⟨fun _ => unusedClass, []⟩, []⟩

def AtomSystem.Start (s : AtomSystem) : Prop := s = emptyAtoms

variable {a b name : WideString} {u : UserPort} {arg : Nat}

theorem SameName.length (same : SameName a b) : a.length = b.length := by
  simpa using congrArg List.length same

theorem SameName.symm (same : SameName a b) : SameName b a := Eq.symm same

theorem SameName.trans {c : WideString} (first : SameName a b) (second : SameName b c) :
    SameName a c := Eq.trans first second

theorem kiWideEqual_iff (ha : 0 ∉ a) (hb : 0 ∉ b) : kiWideEqual a b = true ↔ SameName a b := by
  induction a generalizing b with
  | nil =>
    cases b with
    | nil => exact ⟨fun _ => rfl, fun _ => rfl⟩
    | cons c b =>
      have some_ : c ≠ 0 := fun zero => hb (zero ▸ List.mem_cons_self)
      simp [kiWideEqual, SameName, some_]
  | cons c a ih =>
    have some_ : c ≠ 0 := fun zero => ha (zero ▸ List.mem_cons_self)
    cases b with
    | nil => simp [kiWideEqual, SameName, some_]
    | cons d b =>
      have other : d ≠ 0 := fun zero => hb (zero ▸ List.mem_cons_self)
      have rest := ih (fun mem => ha (List.mem_cons_of_mem _ mem))
        (fun mem => hb (List.mem_cons_of_mem _ mem))
      simp only [kiWideEqual, some_, other, ne_eq, not_false_eq_true, and_self, if_true,
        Bool.and_eq_true, beq_iff_eq, rest, SameName, List.map_cons, List.cons.injEq]

/-- A name as the tables keep them. -/
structure GoodName (room : Nat) (name : WideString) : Prop where
  some_ : name ≠ []
  units : ∀ c ∈ name, c ≠ 0 ∧ c < 2 ^ 16
  short : name.length < room

theorem GoodName.noNul {room : Nat} (good : GoodName room name) : 0 ∉ name :=
  fun mem => (good.units 0 mem).1 rfl

theorem accepts_shorter {va n m : Nat} (hv : va < 2 ^ 64) (hn : n < 2 ^ 64)
    (accepted : u.accepts va n = true) (le : m ≤ n) : u.accepts va m = true := by
  rcases Nat.eq_zero_or_pos m with rfl | positive
  · rfl
  · obtain ⟨below, pages⟩ := (mmProbeForRead_iff hv hn (by omega)).mp accepted
    exact (mmProbeForRead_iff hv (by omega) positive).mpr
      ⟨by omega, fun b lo hi => pages b lo (by omega)⟩

theorem unitsAt_units {m : Memory} {c : Nat} (mem : c ∈ unitsAt m arg) : c < 2 ^ 16 := by
  simp only [unitsAt, List.mem_map] at mem
  obtain ⟨i, -, rfl⟩ := mem
  exact load_lt m _ 2

theorem unitsAt_length (m : Memory) (arg : Nat) : (unitsAt m arg).length = load m arg 2 / 2 := by
  simp [unitsAt]

theorem copyWide_good (src n : Nat) : ∀ (i : Nat) (u : UserPort),
    (∀ c ∈ (copyWide src n i u).1, c ≠ 0 ∧ c < 2 ^ 16) ∧ (copyWide src n i u).1.length ≤ n := by
  induction n with
  | zero => exact fun _ _ => ⟨fun _ mem => absurd mem List.not_mem_nil, le_rfl⟩
  | succ n ih =>
    intro i u
    simp only [copyWide]
    split
    · exact ⟨fun _ mem => absurd mem List.not_mem_nil, Nat.zero_le _⟩
    split
    · exact ⟨fun _ mem => absurd mem List.not_mem_nil, Nat.zero_le _⟩
    · rename_i some_
      obtain ⟨units, short⟩ := ih (i + 1) ((u.probed (wrap64 (src + 2 * i)) 2).read
        (wrap64 (src + 2 * i)) 2)
      refine ⟨fun c mem => ?_, Nat.succ_le_succ short⟩
      rcases List.mem_cons.mp mem with rfl | later
      · exact ⟨some_, load_lt _ _ 2⟩
      · exact units c later

/-- The UNICODE_STRING read as a bare string starts with its length. -/
theorem bare_good {v : UserPort} (hv : arg < 2 ^ 64) (counted : Counted u arg)
    (bytes : v.bytes = u.bytes) (present : v.present = u.present) :
    GoodName userAtomChars ((kiCopyWideFromUser v arg userAtomChars).1.getD []) := by
  have readable : v.accepts arg 2 = true := by
    have whole := accepts_shorter hv (by decide) counted.readable (show 2 ≤ 16 by decide)
    rwa [UserPort.accepts, ← present] at whole
  have first : load v.bytes arg 2 ≠ 0 := by
    have some_ := counted.some_
    rw [bytes]
    omega
  have starts : ¬ (arg = 0 ∨ v.accepts arg 2 = false) := by
    rw [readable]
    simpa using counted.there
  obtain ⟨units, short⟩ := copyWide_good arg 63 0 (v.probed arg 2)
  rw [kiCopyWideFromUser, if_neg starts]
  refine ⟨?_, units, Nat.lt_succ_of_le short⟩
  have here : wrap64 (arg + 2 * 0) = arg := Nat.mod_eq_of_lt hv
  have again : (v.probed arg 2).accepts arg 2 = true := readable
  simp only [userAtomChars, Option.getD_some]
  rw [show 64 - 1 = 62 + 1 from rfl, copyWide]
  simp only [here, again, read_bytes, probed_bytes, first]
  simp

theorem kiCaptureAtomName_fits (counted : Counted u arg)
    (short : (unitsAt u.bytes arg).length < userAtomChars) :
    (kiCaptureAtomName u arg userAtomChars).1 = unitsAt u.bytes arg := by
  have readable : ¬ u.accepts arg sizeofUnicodeString = false := by simp [counted.readable]
  have longs : ¬ load u.bytes (arg + 2) 2 < load u.bytes arg 2 := Nat.not_lt.mpr counted.maximum
  have usable : ¬ (load u.bytes (arg + 8) 8 = 0 ∨
      u.accepts (load u.bytes (arg + 8) 8) (load u.bytes arg 2 / 2 * 2) = false) := by
    have units : u.accepts (load u.bytes (arg + 8) 8) (load u.bytes arg 2 / 2 * 2) = true :=
      counted.units
    rw [units]
    exact not_or.mpr ⟨counted.buffer, Bool.noConfusion⟩
  rw [unitsAt_length] at short
  have fits : ¬ (load u.bytes arg 2 / 2 = 0 ∨ userAtomChars ≤ load u.bytes arg 2 / 2) :=
    not_or.mpr ⟨counted.some_, Nat.not_le.mpr short⟩
  rw [kiCaptureAtomName, if_neg counted.there, if_neg readable]
  dsimp only
  rw [if_neg fits]
  exact congrArg Prod.fst ((if_neg longs).trans (if_neg usable))

theorem kiCaptureAtomName_good (hv : arg < 2 ^ 64)
    (counted : Counted u arg) : GoodName userAtomChars (kiCaptureAtomName u arg userAtomChars).1 := by
  by_cases short : (unitsAt u.bytes arg).length < userAtomChars
  · rw [kiCaptureAtomName_fits counted short]
    refine ⟨fun none => ?_, fun c mem => ?_, short⟩
    · have length := congrArg List.length none
      rw [unitsAt_length] at length
      exact counted.some_ length
    · exact ⟨fun zero => counted.noNul (zero ▸ mem), unitsAt_units mem⟩
  · have readable : ¬ u.accepts arg sizeofUnicodeString = false := by simp [counted.readable]
    rw [unitsAt_length, Nat.not_lt] at short
    rw [kiCaptureAtomName, if_neg counted.there, if_neg readable]
    dsimp only
    rw [if_pos (Or.inr short)]
    exact bare_good hv counted rfl rfl

/-- A class name is the beginning of the caller's. -/
theorem className_counted (counted : Counted u arg) (wcex : Nat) :
    className u wcex arg = ((unitsAt u.bytes arg).take 31, (stringName u arg).2) ∧
      GoodName classNameChars ((unitsAt u.bytes arg).take 31) := by
  have chars : nameChars u.bytes arg = min 31 (load u.bytes arg 2 / 2) := rfl
  have some_ := counted.some_
  have given : NameGiven u arg := by
    refine ⟨counted.there, counted.readable, by omega, counted.buffer, ?_⟩
    have length := load_lt u.bytes arg 2
    exact accepts_shorter (load_lt u.bytes (arg + 8) 8) (by omega) counted.units (by omega)
  have units : nameUnits u.bytes arg = (unitsAt u.bytes arg).take 31 := by
    rw [nameUnits, unitsAt, ← List.map_take, List.take_range, chars]
    rfl
  have length : ((unitsAt u.bytes arg).take 31).length = min 31 (load u.bytes arg 2 / 2) := by
    rw [List.length_take, unitsAt_length]
  refine ⟨by rw [className_given given, units], ⟨?_, ?_, ?_⟩⟩
  · intro none
    rw [none, List.length_nil] at length
    omega
  · intro c mem
    have whole := List.mem_of_mem_take mem
    exact ⟨fun zero => counted.noNul (zero ▸ whole), unitsAt_units whole⟩
  · rw [length, classNameChars]
    omega

/-- Every name has one entry, and every entry its own atom. -/
structure Interning (atoms : List AtomEntry) : Prop where
  few : atoms.length ≤ userMaxAtoms
  numbered : ∀ i e, atoms[i]? = some e → e.atom = userAtomFirst + i
  good : ∀ e ∈ atoms, GoodName userAtomChars e.name
  distinct : atoms.Pairwise fun e e' => ¬ SameName e.name e'.name

/-- The atom belongs to an entry of this name. -/
def Names (atoms : List AtomEntry) (atom : Nat) (name : WideString) : Prop :=
  ∃ e ∈ atoms, e.atom = atom ∧ SameName e.name name

theorem Names.mono {atoms atoms' : List AtomEntry} {atom : Nat}
    (names : Names atoms atom name) (longer : atoms <+: atoms') : Names atoms' atom name := by
  obtain ⟨e, mem, rest⟩ := names
  exact ⟨e, longer.subset mem, rest⟩

variable {atoms : List AtomEntry} {s : AtomSystem} {atom : Nat}

theorem Interning.entry_unique (interning : Interning atoms)
    {e e' : AtomEntry} (he : e ∈ atoms) (he' : e' ∈ atoms) :
    (e.atom = e'.atom → e = e') ∧ (SameName e.name e'.name → e = e') := by
  obtain ⟨i, hi, rfl⟩ := List.getElem_of_mem he
  obtain ⟨j, hj, rfl⟩ := List.getElem_of_mem he'
  constructor
  · intro same
    have first := interning.numbered i _ (List.getElem?_eq_getElem hi)
    have second := interning.numbered j _ (List.getElem?_eq_getElem hj)
    have index : i = j := by omega
    subst index
    rfl
  · intro same
    rcases Nat.lt_trichotomy i j with before | rfl | after
    · exact absurd same (List.pairwise_iff_getElem.mp interning.distinct i j hi hj before)
    · rfl
    · exact absurd same.symm (List.pairwise_iff_getElem.mp interning.distinct j i hj hi after)

/-- Two entries have the same atom exactly when they have the same name. -/
theorem Interning.names_iff (interning : Interning atoms)
    {atom' : Nat} {name' : WideString} (names : Names atoms atom name)
    (names' : Names atoms atom' name') : atom = atom' ↔ SameName name name' := by
  obtain ⟨e, he, rfl, same⟩ := names
  obtain ⟨e', he', rfl, same'⟩ := names'
  obtain ⟨byAtom, byName⟩ := interning.entry_unique he he'
  constructor
  · intro atoms
    exact same.symm.trans ((byAtom atoms).symm ▸ same')
  · intro names
    rw [byName (same.trans (names.trans same'.symm))]

theorem Interning.append (interning : Interning atoms)
    (room : atoms.length < userMaxAtoms) (good : GoodName userAtomChars name)
    (new : ∀ e ∈ atoms, ¬ SameName e.name name) :
    Interning (atoms ++ [⟨name, userAtomFirst + atoms.length⟩]) where
  few := by
    rw [List.length_append, List.length_singleton]
    exact room
  numbered i e found := by
    rcases Nat.lt_or_ge i atoms.length with old | last
    · rw [List.getElem?_append_left old] at found
      exact interning.numbered i e found
    · rw [List.getElem?_append_right last] at found
      rw [List.getElem?_singleton] at found
      split at found
      · obtain rfl := Option.some.inj found
        simp only
        omega
      · cases found
  good e mem := by
    rcases List.mem_append.mp mem with old | last
    · exact interning.good e old
    · rw [List.mem_singleton.mp last]
      exact good
  distinct := by
    rw [List.pairwise_append]
    refine ⟨interning.distinct, List.pairwise_singleton _ _, fun e mem e' last => ?_⟩
    rw [List.mem_singleton.mp last]
    exact new e mem

/-- What interning a name does: nothing, for want of room, or it finds or makes the entry. -/
theorem kiUserAddAtom_spec (interning : Interning atoms) (good : GoodName userAtomChars name) :
    atoms <+: (kiUserAddAtom atoms name).2 ∧ Interning (kiUserAddAtom atoms name).2 ∧
      ((kiUserAddAtom atoms name).1 = 0 ∨
        Names (kiUserAddAtom atoms name).2 (kiUserAddAtom atoms name).1 name) := by
  obtain ⟨c, cs, rfl⟩ := List.exists_cons_of_ne_nil good.some_
  have starts : ¬ (c :: cs).headD 0 = 0 := (good.units c List.mem_cons_self).1
  rw [kiUserAddAtom, if_neg starts]
  cases found : atoms.find? fun entry => kiWideEqual entry.name (c :: cs) with
  | some e =>
    have mem := List.mem_of_find?_eq_some found
    have equal : kiWideEqual e.name (c :: cs) = true := by simpa using List.find?_some found
    exact ⟨List.prefix_rfl, interning, .inr ⟨e, mem, rfl,
      (kiWideEqual_iff (interning.good e mem).noNul good.noNul).mp equal⟩⟩
  | none =>
    dsimp only
    split
    · exact ⟨List.prefix_rfl, interning, .inl rfl⟩
    · rename_i room
      rw [userMaxAtoms, Nat.not_le] at room
      have whole : ((c :: cs).takeWhile (· ≠ 0)).take (userAtomChars - 1) = c :: cs := by
        have all : ∀ d ∈ c :: cs, (decide (d ≠ 0)) = true :=
          fun d mem => decide_eq_true (good.units d mem).1
        rw [List.takeWhile_eq_self_iff.mpr all]
        exact List.take_of_length_le (Nat.le_pred_of_lt good.short)
      have atom : (userAtomFirst + atoms.length) % 2 ^ 16 = userAtomFirst + atoms.length := by
        rw [userAtomFirst]
        omega
      rw [whole, atom]
      have new : ∀ e ∈ atoms, ¬ SameName e.name (c :: cs) := by
        intro e mem same
        have none := List.find?_eq_none.mp found e mem
        exact none ((kiWideEqual_iff (interning.good e mem).noNul good.noNul).mpr same)
      exact ⟨List.prefix_append _ _, interning.append room good new,
        .inr ⟨_, List.mem_append_right _ List.mem_cons_self, rfl, rfl⟩⟩

theorem kiUserAtomName_entry (interning : Interning atoms)
    {e : AtomEntry} (mem : e ∈ atoms) : kiUserAtomName atoms e.atom = some e.name := by
  rw [kiUserAtomName]
  cases found : atoms.find? fun entry => entry.atom == e.atom with
  | none =>
    have none := List.find?_eq_none.mp found e mem
    exact absurd (beq_self_eq_true e.atom) none
  | some e' =>
    have same : e'.atom = e.atom := by simpa using List.find?_some found
    rw [Option.map_some, ((interning.entry_unique (List.mem_of_find?_eq_some found) mem).1 same)]

theorem kiUserAtomName_mono {atoms' : List AtomEntry} (interning : Interning atoms')
    (longer : atoms <+: atoms')
    (known : kiUserAtomName atoms atom = some name) : kiUserAtomName atoms' atom = some name := by
  rw [kiUserAtomName, Option.map_eq_some_iff] at known
  obtain ⟨e, found, rfl⟩ := known
  have same : e.atom = atom := by simpa using List.find?_some found
  subst same
  exact kiUserAtomName_entry interning (longer.subset (List.mem_of_find?_eq_some found))

/-- The entry behind a call: its name is the registered one if that fits, and shorter if not. -/
structure Registered (atoms : List AtomEntry) (r : Registration) : Prop where
  entry : ∃ e ∈ atoms, e.atom = r.atom ∧ e.name.length < r.kind.room ∧
    (r.Fits → SameName e.name r.name)
  counted : r.name.length < 2 ^ 15

structure Sound (s : AtomSystem) : Prop where
  interning : Interning s.table.atoms
  classes : ∀ i, (s.table.classes i).used = true →
    GoodName classNameChars (s.table.classes i).name ∧
      ((s.table.classes i).atom = 0 ∨
        Names s.table.atoms (s.table.classes i).atom (s.table.classes i).name)
  log : ∀ r ∈ s.log, Registered s.table.atoms r

theorem Registered.mono {atoms' : List AtomEntry} {r : Registration}
    (registered : Registered atoms r) (longer : atoms <+: atoms') : Registered atoms' r := by
  obtain ⟨⟨e, mem, rest⟩, counted⟩ := registered
  exact ⟨⟨e, longer.subset mem, rest⟩, counted⟩

theorem registered_of_names {kind : AtomKind} {whole : WideString} (names : Names atoms atom name) (short : name.length < kind.room)
    (fits : whole.length < kind.room → name = whole) (counted : whole.length < 2 ^ 15) :
    Registered atoms ⟨kind, whole, atom⟩ := by
  obtain ⟨e, mem, same, equal⟩ := names
  refine ⟨⟨e, mem, same, ?_, fun room => ?_⟩, counted⟩
  · rwa [equal.length]
  · rw [← fits room]
    exact equal

theorem logged_registered {kind : AtomKind} (old : ∀ r ∈ s.log, Registered atoms r)
    (new : atom ≠ 0 → Registered atoms ⟨kind, name, atom⟩) :
    ∀ r ∈ s.logged kind name atom, Registered atoms r := by
  intro r mem
  rw [AtomSystem.logged] at mem
  split at mem
  · exact old r mem
  · rename_i some_
    rcases List.mem_append.mp mem with before | last
    · exact old r before
    · rw [List.mem_singleton.mp last]
      exact new some_

theorem unitsAt_short (m : Memory) (arg : Nat) : (unitsAt m arg).length < 2 ^ 15 := by
  have length := load_lt m arg 2
  rw [unitsAt_length]
  omega

theorem ntUserRegisterWindowMessage_eq {a : Nat → UInt64}
    (counted : Counted u (a 0).toNat) (atoms : List AtomEntry) :
    (ntUserRegisterWindowMessage atoms u a).1 =
        (kiUserAddAtom atoms (kiCaptureAtomName u (a 0).toNat userAtomChars).1).1 ∧
      (ntUserRegisterWindowMessage atoms u a).2.1 =
        (kiUserAddAtom atoms (kiCaptureAtomName u (a 0).toNat userAtomChars).1).2 := by
  have some_ := (kiCaptureAtomName_good (a 0).toNat_lt counted).some_
  rw [ntUserRegisterWindowMessage]
  generalize kiCaptureAtomName u (a 0).toNat userAtomChars = got at some_
  obtain ⟨_ | ⟨c, name⟩, v⟩ := got
  · exact absurd rfl some_
  · exact ⟨rfl, rfl⟩

theorem Sound.message (sound : Sound s) {a : Nat → UInt64} (counted : Counted u (a 0).toNat) :
    s.table.atoms <+: (ntUserRegisterWindowMessage s.table.atoms u a).2.1 ∧
      Sound ⟨⟨s.table.classes, (ntUserRegisterWindowMessage s.table.atoms u a).2.1⟩,
        s.logged .message (unitsAt u.bytes (a 0).toNat)
          (ntUserRegisterWindowMessage s.table.atoms u a).1⟩ := by
  obtain ⟨atom, table⟩ := ntUserRegisterWindowMessage_eq counted s.table.atoms
  have good := kiCaptureAtomName_good (a 0).toNat_lt counted
  obtain ⟨longer, interning, result⟩ := kiUserAddAtom_spec sound.interning good
  rw [atom, table]
  refine ⟨longer, interning, fun i used => ?_, ?_⟩
  · obtain ⟨name, atom⟩ := sound.classes i used
    exact ⟨name, atom.imp_right fun names => names.mono longer⟩
  · refine logged_registered (fun r mem => (sound.log r mem).mono longer) fun some_ => ?_
    exact registered_of_names (result.resolve_left some_) good.short
      (kiCaptureAtomName_fits counted) (unitsAt_short _ _)

theorem ClassTable.named_some {t : ClassTable} {i : Nat} (found : t.named name = some i) :
    (t.classes i).used = true ∧ kiWideEqual (t.classes i).name name = true := by
  have both := List.find?_some found
  rwa [Bool.and_eq_true] at both

theorem GoodName.weaken {room room' : Nat} (good : GoodName room name)
    (le : room ≤ room') : GoodName room' name :=
  ⟨good.some_, good.units, good.short.trans_le le⟩

theorem Sound.windowClass (sound : Sound s) {a : Nat → UInt64} (counted : Counted u (a 1).toNat) :
    s.table.atoms <+: (ntUserRegisterClassExWOW s.table u a).2.1.atoms ∧
      Sound ⟨(ntUserRegisterClassExWOW s.table u a).2.1,
        s.logged .windowClass (unitsAt u.bytes (a 1).toNat)
          (ntUserRegisterClassExWOW s.table u a).1⟩ := by
  obtain ⟨named, good⟩ := className_counted counted (a 0).toNat
  have fits : (unitsAt u.bytes (a 1).toNat).length < classNameChars →
      (unitsAt u.bytes (a 1).toNat).take 31 = unitsAt u.bytes (a 1).toNat :=
    fun short => List.take_of_length_le (Nat.le_pred_of_lt short)
  rw [ntUserRegisterClassExWOW, named]
  obtain ⟨c, name, cons⟩ := List.exists_cons_of_ne_nil good.some_
  rw [cons] at good fits ⊢
  dsimp only
  cases known : s.table.named (c :: name) with
  | some i =>
    obtain ⟨used, equal⟩ := ClassTable.named_some known
    obtain ⟨goodClass, atom⟩ := sound.classes i used
    refine ⟨List.prefix_rfl, sound.interning, sound.classes,
      logged_registered sound.log fun some_ => ?_⟩
    obtain ⟨e, mem, same, sameName⟩ := atom.resolve_left some_
    have equal' := (kiWideEqual_iff goodClass.noNul good.noNul).mp equal
    exact registered_of_names ⟨e, mem, same, sameName.trans equal'⟩ good.short fits
      (unitsAt_short _ _)
  | none =>
    cases free : s.table.free with
    | none =>
      exact ⟨List.prefix_rfl, sound.interning, sound.classes, sound.log⟩
    | some i =>
      have room : classNameChars ≤ userAtomChars := by decide
      obtain ⟨longer, interning, result⟩ :=
        kiUserAddAtom_spec sound.interning (good.weaken room)
      refine ⟨longer, interning, fun j used => ?_, ?_⟩
      · by_cases here : j = i
        · subst here
          dsimp only
          rw [Function.update_self]
          exact ⟨good, result⟩
        · dsimp only at used ⊢
          rw [Function.update_of_ne here] at used ⊢
          obtain ⟨name, atom⟩ := sound.classes j used
          exact ⟨name, atom.imp_right fun names => names.mono longer⟩
      · refine logged_registered (fun r mem => (sound.log r mem).mono longer) fun some_ => ?_
        exact registered_of_names (result.resolve_left some_) good.short fits (unitsAt_short _ _)

theorem Sound.step {t : AtomSystem} {op : AtomOp} (sound : Sound s) (step : s.Step op t) :
    s.table.atoms <+: t.table.atoms ∧ Sound t := by
  cases op with
  | message u a =>
    obtain ⟨counted, rfl⟩ := step
    exact sound.message counted
  | windowClass u a =>
    obtain ⟨counted, rfl⟩ := step
    exact sound.windowClass counted

theorem sound_of_run
    (run : Runs.Reachable AtomSystem.Start AtomSystem.Step s) : Sound s := by
  refine run.invariant ?_ (fun _ _ _ sound step => (sound.step step).2)
  rintro s rfl
  exact ⟨⟨Nat.zero_le _, fun i e found => by simp [emptyAtoms] at found, fun e mem => absurd mem List.not_mem_nil,
    List.Pairwise.nil⟩, fun i used => Bool.noConfusion used, fun r mem => absurd mem List.not_mem_nil⟩

/-- The units in a buffer. -/
def bufferUnits (m : Memory) (base n : Nat) : WideString :=
  (List.range n).map fun i => load m (base + 2 * i) 2

/-- A writable buffer with room for `n` units and their zero. -/
structure PlainBuffer (u : UserPort) (a : Nat → UInt64) (n : Nat) : Prop where
  there : (a 1).toNat ≠ 0
  large : n < wrap32 (a 2).toNat
  writable : u.accepts (a 1).toNat ((n + 1) * 2) = true

/-- A UNICODE_STRING with such a buffer, which does not overlap the string itself. -/
structure StringBuffer (u : UserPort) (a : Nat → UInt64) (n : Nat) : Prop where
  there : (a 1).toNat ≠ 0
  bare : wrap32 (a 2).toNat = 0
  readable : u.accepts (a 1).toNat sizeofUnicodeString = true
  buffer : nameBuffer u.bytes (a 1).toNat ≠ 0
  large : n < load u.bytes ((a 1).toNat + 2) 2 / 2
  writable : u.accepts (nameBuffer u.bytes (a 1).toNat) ((n + 1) * 2) = true
  apart : nameBuffer u.bytes (a 1).toNat + (n + 1) * 2 ≤ (a 1).toNat ∨
    (a 1).toNat + sizeofUnicodeString ≤ nameBuffer u.bytes (a 1).toNat

/-- `NtUserGetAtomName` answers with this name, whichever kind of buffer it is given. -/
def GivesBack (atoms : List AtomEntry) (atom : Nat) (name : WideString) : Prop :=
  ∀ u a, (a 0).toNat = atom →
    (PlainBuffer u a name.length →
      SameName (bufferUnits (ntUserGetAtomName atoms u a).2.bytes (a 1).toNat
        (ntUserGetAtomName atoms u a).1) name) ∧
    (StringBuffer u a name.length →
      SameName (unitsAt (ntUserGetAtomName atoms u a).2.bytes (a 1).toNat) name)

/-- A buffer that stays where it is while its units are written. -/
theorem putUnits_spec {buffer : Memory → Nat} {b : Nat} (cs : WideString) : ∀ (i : Nat) (u : UserPort),
    (∀ m : Memory, (∀ x, x < b ∨ b + 2 * (i + cs.length) ≤ x → m x = u.bytes x) → buffer m = b) →
    (∀ c ∈ cs, c < 2 ^ 16) →
    (∀ x, x < b + 2 * i ∨ b + 2 * (i + cs.length) ≤ x →
      (putUnits buffer cs i u).bytes x = u.bytes x) ∧
      ∀ j (hj : j < cs.length), load (putUnits buffer cs i u).bytes (b + 2 * (i + j)) 2 = cs[j] := by
  induction cs with
  | nil => exact fun i u _ _ => ⟨fun _ _ => rfl, fun j hj => absurd hj (Nat.not_lt_zero j)⟩
  | cons c cs ih =>
    intro i u fixed small
    have length : (c :: cs).length = cs.length + 1 := rfl
    have here : buffer u.bytes = b := fixed u.bytes fun _ _ => rfl
    have wrote : ∀ x, x < b + 2 * i ∨ b + 2 * (i + 1) ≤ x →
        store u.bytes (b + 2 * i) 2 c x = u.bytes x := fun x h => store_outside (by omega)
    obtain ⟨outside, inside⟩ := ih (i + 1) (u.write (b + 2 * i) 2 c)
      (fun m same => fixed m fun x h => by
        rw [length] at h
        exact (same x (by omega)).trans (wrote x (by omega)))
      (fun d mem => small d (List.mem_cons_of_mem c mem))
    simp only [putUnits, here]
    refine ⟨fun x h => ?_, fun j hj => ?_⟩
    · rw [length] at h
      exact (outside x (by omega)).trans (wrote x (by omega))
    · cases j with
      | zero =>
        have still : load (putUnits buffer cs (i + 1) (u.write (b + 2 * i) 2 c)).bytes (b + 2 * i) 2 =
            load (store u.bytes (b + 2 * i) 2 c) (b + 2 * i) 2 :=
          load_congr fun x lo hi => outside x (by omega)
        exact still.trans (load_store_same (small c List.mem_cons_self))
      | succ j =>
        have next := inside j (Nat.lt_of_succ_lt_succ hj)
        rw [show i + (j + 1) = i + 1 + j by omega, next]
        rfl

theorem putName_units {buffer : Memory → Nat} {b : Nat}
    (fixed : ∀ m : Memory, (∀ x, x < b ∨ b + (name.length + 1) * 2 ≤ x → m x = u.bytes x) →
      buffer m = b)
    (small : ∀ c ∈ name, c < 2 ^ 16) :
    bufferUnits (putName buffer name u).bytes b name.length = name ∧
      ∀ x, x < b ∨ b + (name.length + 1) * 2 ≤ x → (putName buffer name u).bytes x = u.bytes x := by
  have length : (name ++ [0]).length = name.length + 1 := by simp
  obtain ⟨outside, inside⟩ := @putUnits_spec buffer b (name ++ [0]) 0 u
    (fun m same => fixed m fun x h => same x (by rw [length]; omega))
    (fun c mem => by
      rcases List.mem_append.mp mem with unit | zero
      · exact small c unit
      · rw [List.mem_singleton.mp zero]
        decide)
  refine ⟨?_, fun x h => outside x (by rw [length]; omega)⟩
  refine List.ext_getElem (by simp [bufferUnits]) fun i hi hi' => ?_
  have unit := inside i (by omega)
  rw [List.getElem_append_left hi', Nat.zero_add] at unit
  simpa [bufferUnits, putName] using unit

theorem ntUserGetAtomName_plain {a : Nat → UInt64} {n : Nat}
    (known : kiUserAtomName atoms ((a 0).toNat % 2 ^ 16) = some name)
    (good : GoodName userAtomChars name) (le : name.length ≤ n) (plain : PlainBuffer u a n) :
    bufferUnits (ntUserGetAtomName atoms u a).2.bytes (a 1).toNat
      (ntUserGetAtomName atoms u a).1 = name := by
  have large := plain.large
  have whole : name.take (wrap32 (a 2).toNat - 1) = name := List.take_of_length_le (by omega)
  have counted : wrap32 (a 2).toNat ≠ 0 := by omega
  have short : wrap32 (a 2).toNat < 2 ^ 32 := Nat.mod_lt _ (by decide)
  have writable := accepts_shorter (a 1).toNat_lt (by omega) plain.writable
    (show (name.length + 1) * 2 ≤ (n + 1) * 2 by omega)
  simp only [ntUserGetAtomName, known, putPlain, whole, writable, plain.there, counted, false_and,
    and_false, or_self, if_false, Bool.true_eq_false]
  exact (putName_units (fun _ _ => rfl) fun c mem => (good.units c mem).2).1

theorem ntUserGetAtomName_string {a : Nat → UInt64} {n : Nat}
    (known : kiUserAtomName atoms ((a 0).toNat % 2 ^ 16) = some name)
    (good : GoodName userAtomChars name) (le : name.length ≤ n) (string : StringBuffer u a n) :
    unitsAt (ntUserGetAtomName atoms u a).2.bytes (a 1).toNat = name := by
  have large := string.large
  have apart := string.apart
  have room := load_lt u.bytes ((a 1).toNat + 2) 2
  have size : sizeofUnicodeString = 16 := rfl
  have whole : name.take (load u.bytes ((a 1).toNat + 2) 2 / 2 - 1) = name :=
    List.take_of_length_le (by omega)
  have some_ : ¬ load u.bytes ((a 1).toNat + 2) 2 < 2 := by omega
  have writable : u.accepts (nameBuffer u.bytes (a 1).toNat) ((name.length + 1) * 2) = true :=
    accepts_shorter (load_lt u.bytes ((a 1).toNat + 8) 8) (by omega) string.writable (by omega)
  have header : ∀ m : Memory, (∀ x, x < nameBuffer u.bytes (a 1).toNat ∨
      nameBuffer u.bytes (a 1).toNat + (name.length + 1) * 2 ≤ x → m x = u.bytes x) →
      nameBuffer m (a 1).toNat = nameBuffer u.bytes (a 1).toNat :=
    fun m same => load_congr fun x lo hi => same x (by omega)
  have small : ∀ c ∈ name, c < 2 ^ 16 := fun c mem => (good.units c mem).2
  obtain ⟨units, outside⟩ := @putName_units name
    ((((u.probed (a 1).toNat sizeofUnicodeString).read ((a 1).toNat + 8) 8).read
      ((a 1).toNat + 2) 2).probed (nameBuffer u.bytes (a 1).toNat) ((name.length + 1) * 2))
    (nameBuffer · (a 1).toNat) (nameBuffer u.bytes (a 1).toNat) header small
  have bytes : (ntUserGetAtomName atoms u a).2.bytes =
      store (putName (nameBuffer · (a 1).toNat) name
        ((((u.probed (a 1).toNat sizeofUnicodeString).read ((a 1).toNat + 8) 8).read
          ((a 1).toNat + 2) 2).probed (nameBuffer u.bytes (a 1).toNat)
            ((name.length + 1) * 2))).bytes (a 1).toNat 2 (name.length * 2) := by
    have form : (a 1).toNat ≠ 0 ∧ wrap32 (a 2).toNat = 0 ∧
        u.accepts (a 1).toNat sizeofUnicodeString = true :=
      ⟨string.there, string.bare, string.readable⟩
    simp only [ntUserGetAtomName, known, if_pos form, putString, whole, writable, string.buffer,
      some_, or_self, if_false, Bool.true_eq_false]
    rfl
  generalize putName (nameBuffer · (a 1).toNat) name _ = v at units outside bytes
  have short := good.short
  have chars : userAtomChars = 64 := rfl
  have length : load (store v.bytes (a 1).toNat 2 (name.length * 2)) (a 1).toNat 2 = name.length * 2 :=
    load_store_same (show name.length * 2 < 256 ^ 2 by omega)
  have pointer : load (store v.bytes (a 1).toNat 2 (name.length * 2)) ((a 1).toNat + 8) 8 =
      nameBuffer u.bytes (a 1).toNat := by
    rw [load_store_outside (by omega)]
    exact header v.bytes outside
  rw [bytes, unitsAt, length, pointer, Nat.mul_div_cancel _ (by decide)]
  refine Eq.trans (List.map_congr_left fun i mem => ?_) units
  have inside := List.mem_range.mp mem
  exact load_store_outside (by omega)

theorem Interning.atom_lt (interning : Interning atoms) {e : AtomEntry}
    (mem : e ∈ atoms) : e.atom < 2 ^ 16 := by
  obtain ⟨i, hi, rfl⟩ := List.getElem_of_mem mem
  have few := interning.few
  rw [interning.numbered i _ (List.getElem?_eq_getElem hi), userAtomFirst]
  rw [userMaxAtoms] at few
  omega

/-- A caller with memory everywhere, and a buffer for `n` units at 64 KiB. -/
def openPort : UserPort := ⟨fun _ => true, fun _ => 0, []⟩

def openCall (atom n : Nat) : Nat → UInt64
  | 0 => .ofNat atom
  | 1 => 0x10000
  | _ => .ofNat (n + 1)

theorem openCall_plain (atom : Nat) {n : Nat} (counted : n < 2 ^ 15) :
    PlainBuffer openPort (openCall atom n) n where
  there := show (0x10000 : Nat) ≠ 0 by decide
  large := by
    have value : (openCall atom n 2).toNat = n + 1 :=
      UInt64.toNat_ofNat_of_lt' (by rw [UInt64.size]; omega)
    rw [value, wrap32]
    omega
  writable := by
    have base : (openCall atom n 1).toNat = 0x10000 := rfl
    have limit : mmUserMax = 0x800000000000 := rfl
    rw [base]
    exact (mmProbeForRead_iff (by decide) (by omega) (by omega)).mpr
      ⟨by omega, fun _ _ _ => rfl⟩

theorem givesBack_iff (sound : Sound s) {r : Registration} (mem : r ∈ s.log) :
    GivesBack s.table.atoms r.atom r.name ↔ r.Fits := by
  obtain ⟨⟨e, entry, atom, short, fits⟩, counted⟩ := sound.log r mem
  have good := sound.interning.good e entry
  have small := sound.interning.atom_lt entry
  have known : ∀ n, n = r.atom → kiUserAtomName s.table.atoms (n % 2 ^ 16) = some e.name := by
    intro n same
    rw [same, ← atom, Nat.mod_eq_of_lt small]
    exact kiUserAtomName_entry sound.interning entry
  constructor
  · intro gives
    by_contra long
    have longer : e.name.length < r.name.length := short.trans_le (Nat.not_lt.mp long)
    have asked : (openCall r.atom r.name.length 0).toNat = r.atom :=
      UInt64.toNat_ofNat_of_lt' (by rw [UInt64.size]; omega)
    have plain := openCall_plain r.atom counted
    have same := (gives _ _ asked).1 plain
    rw [ntUserGetAtomName_plain (known _ asked) good longer.le plain] at same
    exact absurd same.length longer.ne
  · intro room u a asked
    have same := fits room
    refine ⟨fun plain => ?_, fun string => ?_⟩
    · rw [ntUserGetAtomName_plain (known _ asked) good same.length.le plain]
      exact same
    · rw [ntUserGetAtomName_string (known _ asked) good same.length.le string]
      exact same

/-- Messages have the same atom exactly if they have the same name, the names of the atoms never
change, and every atom gives back the name it was returned for. -/
structure Interned (s : AtomSystem) : Prop where
  messages : ∀ r ∈ s.log, ∀ r' ∈ s.log, r.kind = .message → r'.kind = .message →
    (r.atom = r'.atom ↔ SameName r.name r'.name)
  stable : ∀ t, Relation.ReflTransGen (fun s t => ∃ op, AtomSystem.Step s op t) s t →
    ∀ atom name, kiUserAtomName s.table.atoms atom = some name →
      kiUserAtomName t.table.atoms atom = some name
  givesBack : ∀ r ∈ s.log, GivesBack s.table.atoms r.atom r.name

theorem Sound.steps {t : AtomSystem} (sound : Sound s)
    (path : Relation.ReflTransGen (fun s t => ∃ op, AtomSystem.Step s op t) s t) :
    s.table.atoms <+: t.table.atoms ∧ Sound t := by
  induction path with
  | refl => exact ⟨List.prefix_rfl, sound⟩
  | tail _ edge ih =>
    obtain ⟨op, step⟩ := edge
    obtain ⟨longer, sound'⟩ := ih.2.step step
    exact ⟨ih.1.trans longer, sound'⟩

/-- A run interns its names exactly if all names it has registered fit. -/
theorem atoms_intern_iff {s : AtomSystem}
    (run : Runs.Reachable AtomSystem.Start AtomSystem.Step s) :
    Interned s ↔ ∀ r ∈ s.log, r.Fits := by
  have sound := sound_of_run run
  constructor
  · intro interned r mem
    exact (givesBack_iff sound mem).mp (interned.givesBack r mem)
  · intro fits
    have names : ∀ r ∈ s.log, Names s.table.atoms r.atom r.name := by
      intro r mem
      obtain ⟨⟨e, entry, atom, -, same⟩, -⟩ := sound.log r mem
      exact ⟨e, entry, atom, same (fits r mem)⟩
    refine ⟨fun r mem r' mem' _ _ => sound.interning.names_iff (names r mem) (names r' mem'), ?_,
      fun r mem => (givesBack_iff sound mem).mpr (fits r mem)⟩
    intro t path atom name known
    obtain ⟨longer, later⟩ := sound.steps path
    exact kiUserAtomName_mono later.interning longer known

/-- A UNICODE_STRING at 0x1000 with `n` times the unit `c` at 0x2000. -/
def stringPort (n : Nat) (c : UInt8) : UserPort where
  present _ := true
  bytes b :=
    if b = 0x1000 ∨ b = 0x1002 then (2 * n).toUInt8
    else if b = 0x1009 then 0x20
    else if 0x2000 ≤ b ∧ b < 0x2000 + 2 * n ∧ b % 2 = 0 then c
    else 0
  log := []

def stringCall : Nat → UInt64 := fun _ => 0x1000

/-- The tables after a message was registered with this string. -/
def AtomSystem.afterMessage (s : AtomSystem) (n : Nat) (c : UInt8) : AtomSystem :=
  let r := ntUserRegisterWindowMessage s.table.atoms (stringPort n c) stringCall
  ⟨⟨s.table.classes, r.2.1⟩, s.logged .message (unitsAt (stringPort n c).bytes 0x1000) r.1⟩

theorem reach_message
    (run : Runs.Reachable AtomSystem.Start AtomSystem.Step s) {n : Nat} {c : UInt8}
    (counted : Counted (stringPort n c) 0x1000) :
    Runs.Reachable AtomSystem.Start AtomSystem.Step (s.afterMessage n c) :=
  run.next (show s.Step (.message (stringPort n c) stringCall) _ from ⟨counted, rfl⟩)

theorem atoms_intern_short_message :
    Interned (emptyAtoms.afterMessage 2 0x41) ∧
      (emptyAtoms.afterMessage 2 0x41).log = [⟨.message, [0x41, 0x41], 0xC000⟩] := by
  have counted : Counted (stringPort 2 0x41) 0x1000 := by
    refine ⟨?_, ?_, ?_, ?_, ?_, ?_, ?_⟩ <;> decide +kernel
  have log : (emptyAtoms.afterMessage 2 0x41).log = [⟨.message, [0x41, 0x41], 0xC000⟩] := by
    decide +kernel
  refine ⟨(atoms_intern_iff (reach_message (.of_initial rfl) counted)).mpr fun r mem => ?_, log⟩
  rw [log] at mem
  rw [List.mem_singleton.mp mem]
  exact (by decide : 2 < 64)

/-- Two messages of 64 units share an atom: both are taken for the two characters that the length
and the maximum length of their strings look like. -/
theorem long_messages_share_atom : ∃ s, Runs.Reachable AtomSystem.Start AtomSystem.Step s ∧
    s.log = [⟨.message, List.replicate 64 0x61, 0xC000⟩, ⟨.message, List.replicate 64 0x62, 0xC000⟩] ∧
    ¬ Interned s := by
  have first : Counted (stringPort 64 0x61) 0x1000 := by
    refine ⟨?_, ?_, ?_, ?_, ?_, ?_, ?_⟩ <;> decide +kernel
  have second : Counted (stringPort 64 0x62) 0x1000 := by
    refine ⟨?_, ?_, ?_, ?_, ?_, ?_, ?_⟩ <;> decide +kernel
  have log : ((emptyAtoms.afterMessage 64 0x61).afterMessage 64 0x62).log =
      [⟨.message, List.replicate 64 0x61, 0xC000⟩, ⟨.message, List.replicate 64 0x62, 0xC000⟩] := by
    decide +kernel
  have run := reach_message (reach_message (.of_initial rfl) first) second
  generalize (emptyAtoms.afterMessage 64 0x61).afterMessage 64 0x62 = s at log run
  refine ⟨s, run, log, fun interned => ?_⟩
  have same := interned.messages _ (log ▸ List.mem_cons_self) _
    (log ▸ List.mem_cons_of_mem _ List.mem_cons_self) rfl rfl
  have equal : SameName (List.replicate 64 0x61) (List.replicate 64 0x62) := same.mp rfl
  rw [SameName] at equal
  exact absurd equal (by decide)

end User
