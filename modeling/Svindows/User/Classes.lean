import Svindows.Mm.Discipline

/-!
# Window classes and the atom table

`KiCopyWideFromUser`, `KiWideEqual`, `KiUserAddAtom` and the two class services of
`ke/syscall.c`. A wide string is the list of its units; what follows the list is
the terminating zero.

Registering a class reads its name from the UNICODE_STRING or, failing that, from
the WNDCLASSEX, and only on the second way is the WNDCLASSEX probed.
-/

namespace User

open Nt Mm ByteMemory

abbrev WideString := List Nat

def lowerUnit (c : Nat) : Nat := if 0x41 ≤ c ∧ c ≤ 0x5A then c + 32 else c

def kiWideEqual : WideString → WideString → Bool
  | a :: as, b :: bs =>
    if a ≠ 0 ∧ b ≠ 0 then lowerUnit a == lowerUnit b && kiWideEqual as bs else a == b
  | a :: _, [] => a == 0
  | [], b :: _ => b == 0
  | [], [] => true

structure AtomEntry where
  name : WideString
  atom : Nat

def userMaxAtoms : Nat := 192
def userAtomChars : Nat := 64
def userAtomFirst : Nat := 0xC000

/-- The atom, 0 if the table is full, and the table. -/
def kiUserAddAtom (atoms : List AtomEntry) (name : WideString) : Nat × List AtomEntry :=
  if name.headD 0 = 0 then (0, atoms)
  else
    match atoms.find? fun entry => kiWideEqual entry.name name with
    | some entry => (entry.atom, atoms)
    | none =>
      if userMaxAtoms ≤ atoms.length then (0, atoms)
      else
        let atom := (userAtomFirst + atoms.length) % 2 ^ 16
        (atom, atoms ++ [⟨(name.takeWhile (· ≠ 0)).take (userAtomChars - 1), atom⟩])

/-- The loop of `KiCopyWideFromUser`, from unit `i` on with room for `n` more. -/
def copyWide (src : Nat) : Nat → Nat → UserPort → WideString × UserPort
  | 0, _, u => ([], u)
  | n + 1, i, u =>
    let va := wrap64 (src + 2 * i)
    if u.accepts va 2 = false then ([], u)
    else
      let u := (u.probed va 2).read va 2
      let c := load u.bytes va 2
      if c = 0 then ([], u)
      else
        let rest := copyWide src n (i + 1) u
        (c :: rest.1, rest.2)

/-- `none` when the buffer is left as it was. -/
def kiCopyWideFromUser (u : UserPort) (src cap : Nat) : Option WideString × UserPort :=
  if src = 0 ∨ u.accepts src 2 = false then (none, u)
  else
    let copy := copyWide src (cap - 1) 0 (u.probed src 2)
    (some copy.1, copy.2)

structure UserClassLocal where
  name : WideString
  wndProc : Nat
  hInstance : Nat
  style : Nat
  wndExtra : Nat
  atom : Nat
  used : Bool

def userMaxClasses : Nat := 64

structure ClassTable where
  classes : Nat → UserClassLocal
  atoms : List AtomEntry

def unusedClass : UserClassLocal := ⟨[], 0, 0, 0, 0, 0, false⟩

/-- The first class of this name. -/
def ClassTable.named (t : ClassTable) (name : WideString) : Option Nat :=
  (List.range userMaxClasses).find? fun i =>
    (t.classes i).used && kiWideEqual (t.classes i).name name

def ClassTable.free (t : ClassTable) : Option Nat :=
  (List.range userMaxClasses).find? fun i => !(t.classes i).used

def wndClassExStyle : Nat := 0x04
def wndClassExWndProc : Nat := 0x08
def wndClassExWndExtra : Nat := 0x14
def wndClassExHInstance : Nat := 0x18
def wndClassExClassName : Nat := 0x40
def sizeofWndClassEx : Nat := 80
def sizeofUnicodeString : Nat := 16
def classNameChars : Nat := 32

/-- How many units of the UNICODE_STRING are taken, and where they are. -/
def nameChars (m : Memory) (ustr : Nat) : Nat := min (classNameChars - 1) (load m ustr 2 / 2)

def nameBuffer (m : Memory) (ustr : Nat) : Nat := load m (ustr + 8) 8

/-- The units of a class name in the caller's memory. -/
def nameUnits (m : Memory) (ustr : Nat) : WideString :=
  (List.range (nameChars m ustr)).map fun i => load m (nameBuffer m ustr + 2 * i) 2

/-- The name that the UNICODE_STRING gives, empty if it gives none. -/
def stringName (u : UserPort) (ustr : Nat) : WideString × UserPort :=
  if ustr ≠ 0 ∧ u.accepts ustr sizeofUnicodeString = true then
    let header := (u.probed ustr sizeofUnicodeString).read ustr 2
    if nameChars u.bytes ustr = 0 then ([], header)
    else
      let header := header.read (ustr + 8) 8
      let buffer := nameBuffer u.bytes ustr
      let size := nameChars u.bytes ustr * 2
      if buffer ≠ 0 ∧ u.accepts buffer size = true then
        (nameUnits u.bytes ustr, (header.probed buffer size).read buffer size)
      else ([], header)
  else ([], u)

/-- The name that the WNDCLASSEX gives. -/
def wndClassName (u : UserPort) (wcex : Nat) : WideString × UserPort :=
  if wcex ≠ 0 ∧ u.accepts wcex sizeofWndClassEx = true then
    let u := (u.probed wcex sizeofWndClassEx).read (wcex + wndClassExClassName) 8
    let copy := kiCopyWideFromUser u (load u.bytes (wcex + wndClassExClassName) 8) classNameChars
    (copy.1.getD [], copy.2)
  else ([], u)

def className (u : UserPort) (wcex ustr : Nat) : WideString × UserPort :=
  match stringName u ustr with
  | ([], u) => wndClassName u wcex
  | (name, u) => (name, u)

/-- The fields of the WNDCLASSEX that a class keeps. Only the extra bytes are
probed; they stay as they were in `old` if the probe fails. -/
def readFields (u : UserPort) (wcex : Nat) (old : UserClassLocal) : UserClassLocal × UserPort :=
  let style := wrap64 (wcex + wndClassExStyle)
  let extra := wrap64 (wcex + wndClassExWndExtra)
  let wndProc := wrap64 (wcex + wndClassExWndProc)
  let hInstance := wrap64 (wcex + wndClassExHInstance)
  let filled := { old with
    style := load u.bytes style 4
    wndProc := load u.bytes wndProc 8
    hInstance := load u.bytes hInstance 8 }
  let u := u.read style 4
  if u.accepts extra 4 = true then
    ({ filled with wndExtra := load u.bytes extra 4 },
      ((((u.probed extra 4).read extra 4).read wndProc 8).read hInstance 8))
  else (filled, (u.read wndProc 8).read hInstance 8)

def ntUserRegisterClassExWOW (t : ClassTable) (u : UserPort) (a : Nat → UInt64) :
    Nat × ClassTable × UserPort :=
  match className u (a 0).toNat (a 1).toNat with
  | ([], u) => (0, t, u)
  | (name, u) =>
    match t.named name with
    | some i => ((t.classes i).atom, t, u)
    | none =>
      match t.free with
      | none => (0, t, u)
      | some i =>
        let fields := readFields u (a 0).toNat (t.classes i)
        let interned := kiUserAddAtom t.atoms name
        let made := { fields.1 with name := name, atom := interned.1, used := true }
        (interned.1, ⟨Function.update t.classes i made, interned.2⟩, fields.2)

/-- `stack` is what the uninitialized name buffer holds. -/
def ntUserUnregisterClass (t : ClassTable) (u : UserPort) (a : Nat → UInt64)
    (stack : WideString) : Nat × ClassTable × UserPort :=
  let pointer := (a 1).toNat
  let u := u.read pointer 8
  let copy := kiCopyWideFromUser u (load u.bytes pointer 8) classNameChars
  match t.named (copy.1.getD stack) with
  | some i => (1, { t with classes := Function.update t.classes i unusedClass }, copy.2)
  | none => (0, t, copy.2)

theorem copyWide_careful (src n : Nat) : ∀ (i : Nat) (u : UserPort),
    Careful u (copyWide src n i u).2 := by
  induction n with
  | zero => exact fun _ u => .refl u
  | succ n ih =>
    intro i u
    simp only [copyWide]
    split
    · exact .refl u
    rename_i passed
    have unit : Careful u ((u.probed (wrap64 (src + 2 * i)) 2).read (wrap64 (src + 2 * i)) 2) :=
      .probed_read (Nat.mod_lt _ (by decide)) (by decide) (not_accepts passed)
    split
    · exact unit
    · exact unit.trans (ih _ _)

theorem kiCopyWideFromUser_careful (u : UserPort) {src : Nat} (hs : src < 2 ^ 64) (cap : Nat) :
    Careful u (kiCopyWideFromUser u src cap).2 := by
  simp only [kiCopyWideFromUser]
  split
  · exact .refl u
  · rename_i passed
    have passed := not_accepts (not_or.mp passed).2
    exact (Careful.probed hs (by decide) passed).trans (copyWide_careful ..)

/-- The UNICODE_STRING gives a name. -/
def NameGiven (u : UserPort) (ustr : Nat) : Prop :=
  ustr ≠ 0 ∧ u.accepts ustr sizeofUnicodeString = true ∧ nameChars u.bytes ustr ≠ 0 ∧
    nameBuffer u.bytes ustr ≠ 0 ∧
    u.accepts (nameBuffer u.bytes ustr) (nameChars u.bytes ustr * 2) = true

/-- A byte of the UNICODE_STRING or of its buffer. -/
def InName (m : Memory) (ustr b : Nat) : Prop :=
  (ustr ≤ b ∧ b < ustr + sizeofUnicodeString) ∨
    (nameBuffer m ustr ≤ b ∧ b < nameBuffer m ustr + nameChars m ustr * 2)

theorem stringName_careful (u : UserPort) {ustr : Nat} (hu : ustr < 2 ^ 64) :
    Careful u (stringName u ustr).2 := by
  simp only [stringName]
  split
  swap
  · exact .refl u
  rename_i given
  have string : sizeofUnicodeString = 16 := rfl
  have held : .probed ustr sizeofUnicodeString ∈ (u.probed ustr sizeofUnicodeString).log :=
    List.mem_cons_self
  have length : Careful (u.probed ustr sizeofUnicodeString)
      ((u.probed ustr sizeofUnicodeString).read ustr 2) := .read held le_rfl (by omega)
  have first := (Careful.probed hu (by decide) given.2).trans length
  split
  · exact first
  have buffer : Careful ((u.probed ustr sizeofUnicodeString).read ustr 2)
      (((u.probed ustr sizeofUnicodeString).read ustr 2).read (ustr + 8) 8) :=
    .read (List.mem_cons_of_mem _ held) (by omega) (by omega)
  have header := first.trans buffer
  split
  · rename_i units
    have few : nameChars u.bytes ustr ≤ classNameChars - 1 := Nat.min_le_left ..
    have chars : classNameChars = 32 := rfl
    exact header.trans (.probed_read (load_lt ..) (by omega) units.2)
  · exact header

variable {u : UserPort} {ustr wcex : Nat}

/-- The name comes from the string exactly when the string gives one. -/
theorem stringName_given (given : NameGiven u ustr) :
    (stringName u ustr).1 = nameUnits u.bytes ustr ∧ (stringName u ustr).1 ≠ [] ∧
      ∀ b, Covered (stringName u ustr).2.log b ↔ InName u.bytes ustr b ∨ Covered u.log b := by
  obtain ⟨there, passed, some, buffer, readable⟩ := given
  have result : stringName u ustr = (nameUnits u.bytes ustr,
      (((((u.probed ustr sizeofUnicodeString).read ustr 2).read (ustr + 8) 8).probed
        (nameBuffer u.bytes ustr) (nameChars u.bytes ustr * 2)).read
        (nameBuffer u.bytes ustr) (nameChars u.bytes ustr * 2))) := by
    rw [stringName, if_pos ⟨there, passed⟩, if_neg some, if_pos ⟨buffer, readable⟩]
  rw [result]
  refine ⟨rfl, ?_, ?_⟩
  · simpa [nameUnits] using some
  · intro b
    simp only [UserPort.read, UserPort.probed, covered_read, covered_probed, InName]
    exact or_assoc.symm.trans (or_congr_left or_comm)

theorem stringName_missing (missing : ¬ NameGiven u ustr) : (stringName u ustr).1 = [] := by
  simp only [stringName]
  split
  · rename_i there
    split
    · rfl
    rename_i some
    split
    · rename_i units
      exact absurd ⟨there.1, there.2, some, units.1, units.2⟩ missing
    · rfl
  · rfl

/-- The bytes of the fields that are read without a probe of their own. -/
def FieldByte (wcex b : Nat) : Prop :=
  (wrap64 (wcex + wndClassExStyle) ≤ b ∧ b < wrap64 (wcex + wndClassExStyle) + 4) ∨
    (wrap64 (wcex + wndClassExWndProc) ≤ b ∧ b < wrap64 (wcex + wndClassExWndProc) + 8) ∨
    (wrap64 (wcex + wndClassExHInstance) ≤ b ∧ b < wrap64 (wcex + wndClassExHInstance) + 8)

/-- A name from the WNDCLASSEX comes after a probe of the WNDCLASSEX. -/
theorem wndClassName_careful (u : UserPort) {wcex : Nat} (hw : wcex < 2 ^ 64) :
    Careful u (wndClassName u wcex).2 ∧ ((wndClassName u wcex).1 ≠ [] →
      ∀ b, FieldByte wcex b → Covered (wndClassName u wcex).2.log b) := by
  simp only [wndClassName]
  split
  swap
  · exact ⟨.refl u, fun named => absurd rfl named⟩
  rename_i given
  have size : sizeofWndClassEx = 80 := rfl
  have offset : wndClassExClassName = 0x40 := rfl
  have held : .probed wcex sizeofWndClassEx ∈ (u.probed wcex sizeofWndClassEx).log :=
    List.mem_cons_self
  have pointer : Careful (u.probed wcex sizeofWndClassEx)
      ((u.probed wcex sizeofWndClassEx).read (wcex + wndClassExClassName) 8) :=
    .read held (by omega) (by omega)
  have copy := kiCopyWideFromUser_careful
    ((u.probed wcex sizeofWndClassEx).read (wcex + wndClassExClassName) 8)
    (load_lt u.bytes (wcex + wndClassExClassName) 8) classNameChars
  simp only [read_bytes, probed_bytes]
  refine ⟨((Careful.probed hw (by decide) given.2).trans pointer).trans copy, ?_⟩
  intro _ b field
  have below := ((mmProbeForRead_iff hw (by decide) (by decide)).mp given.2).1
  have limit : mmUserMax = 0x800000000000 := rfl
  refine ⟨wcex, sizeofWndClassEx, copy.longer.subset (List.mem_cons_of_mem _ held), ?_, ?_⟩
  · simp only [FieldByte, wrap64, wndClassExStyle, wndClassExWndProc, wndClassExHInstance] at field
    omega
  · simp only [FieldByte, wrap64, wndClassExStyle, wndClassExWndProc, wndClassExHInstance] at field
    omega

theorem fieldBytes_iff {log : List Touch} : (∀ b, FieldByte wcex b → Covered log b) ↔
      RangeCovered log (wrap64 (wcex + wndClassExHInstance)) 8 ∧
        RangeCovered log (wrap64 (wcex + wndClassExWndProc)) 8 ∧
        RangeCovered log (wrap64 (wcex + wndClassExStyle)) 4 := by
  constructor
  · intro all
    refine ⟨?_, ?_, ?_⟩
    · exact fun b lo hi => all b (.inr (.inr ⟨lo, hi⟩))
    · exact fun b lo hi => all b (.inr (.inl ⟨lo, hi⟩))
    · exact fun b lo hi => all b (.inl ⟨lo, hi⟩)
  · rintro ⟨inst, proc, style⟩ b (⟨lo, hi⟩ | ⟨lo, hi⟩ | ⟨lo, hi⟩)
    · exact style b lo hi
    · exact proc b lo hi
    · exact inst b lo hi

theorem readFields_careful (old : UserClassLocal)
    (covered : ∀ b, FieldByte wcex b → Covered u.log b) :
    Careful u (readFields u wcex old).2 := by
  obtain ⟨inst, proc, style⟩ := fieldBytes_iff.mp covered
  -- What is covered at first stays covered.
  have later : ∀ {v : UserPort} {a n : Nat}, Careful u v → RangeCovered u.log a n →
      Careful u (v.read a n) := fun careful range =>
    careful.trans (.touch (fun b lo hi => (range b lo hi).mono careful.longer) (.inl rfl) rfl rfl)
  simp only [readFields]
  split
  · rename_i passed
    have extra := Careful.probed_read (Nat.mod_lt _ (by decide)) (by decide) passed
    exact later (later ((later (.refl u) style).trans extra) proc) inst
  · exact later (later (later (.refl u) style) proc) inst

/-- Reading the fields is disciplined only where they were covered before; the
probe of the extra bytes covers none of them. -/
theorem readFields_iff (old : UserClassLocal) : Disciplined (readFields u wcex old).2.log ↔
      (∀ b, FieldByte wcex b → Covered u.log b) ∧ Disciplined u.log := by
  have apart : ∀ {off len : Nat} {log : List Touch}, off + len ≤ wndClassExWndExtra ∨
      wndClassExWndExtra + 4 ≤ off → off + len ≤ sizeofWndClassEx →
      (RangeCovered (.probed (wrap64 (wcex + wndClassExWndExtra)) 4 :: log) (wrap64 (wcex + off))
        len ↔ RangeCovered log (wrap64 (wcex + off)) len) := by
    intro off len log outside inside
    simp only [wndClassExWndExtra, sizeofWndClassEx] at outside inside ⊢
    constructor
    · intro covered b lo hi
      refine (covered_probed.mp (covered b lo hi)).resolve_left ?_
      simp only [wrap64] at lo hi ⊢
      omega
    · intro covered b lo hi
      exact covered_probed.mpr (.inr (covered b lo hi))
  rw [fieldBytes_iff]
  simp only [readFields]
  split
  · have self := rangeCovered_self (.read (wrap64 (wcex + wndClassExStyle)) 4 :: u.log)
      (wrap64 (wcex + wndClassExWndExtra)) 4
    simp only [UserPort.read, UserPort.probed, Disciplined, rangeCovered_read, self, true_and,
      @apart wndClassExWndProc 8 _ (by decide) (by decide),
      @apart wndClassExHInstance 8 _ (by decide) (by decide), and_assoc]
  · simp only [UserPort.read, Disciplined, rangeCovered_read, and_assoc]

/-- The class is new, there is room for it, its name comes with the string, and
some field of the WNDCLASSEX lies outside the string and its buffer. -/
def FieldsUnprobed (t : ClassTable) (u : UserPort) (a : Nat → UInt64) : Prop :=
  NameGiven u (a 1).toNat ∧ t.named (nameUnits u.bytes (a 1).toNat) = none ∧ t.free ≠ none ∧
    ∃ b, FieldByte (a 0).toNat b ∧ ¬ InName u.bytes (a 1).toNat b

theorem className_given (given : NameGiven u ustr) (wcex : Nat) :
    className u wcex ustr = (nameUnits u.bytes ustr, (stringName u ustr).2) := by
  obtain ⟨units, some, -⟩ := stringName_given given
  rw [className, ← units]
  generalize stringName u ustr = got at some
  obtain ⟨_ | ⟨c, name⟩, v⟩ := got
  · exact absurd rfl some
  · rfl

theorem className_missing (missing : ¬ NameGiven u ustr) :
    className u wcex ustr = wndClassName (stringName u ustr).2 wcex := by
  have none := stringName_missing missing
  rw [className]
  generalize stringName u ustr = got at none
  obtain ⟨name, v⟩ := got
  cases none
  rfl

/-- The port after a registration whose name has been found. -/
theorem ntUserRegisterClassExWOW_port {t : ClassTable} {v : UserPort} {a : Nat → UInt64}
    {name : WideString} (got : className u (a 0).toNat (a 1).toNat = (name, v)) :
    (ntUserRegisterClassExWOW t u a).2.2 = v ∨ (name ≠ [] ∧ t.named name = none ∧
      ∃ i, t.free = some i ∧
        (ntUserRegisterClassExWOW t u a).2.2 = (readFields v (a 0).toNat (t.classes i)).2) := by
  rw [ntUserRegisterClassExWOW, got]
  cases name with
  | nil => exact .inl rfl
  | cons c name =>
    cases known : t.named (c :: name) with
    | some i => exact .inl (by simp [known])
    | none =>
      cases room : t.free with
      | none => exact .inl (by simp [known])
      | some i => exact .inr ⟨List.cons_ne_nil _ _, rfl, i, rfl, by simp [known]⟩

theorem ntUserRegisterClassExWOW_careful {t : ClassTable} {a : Nat → UInt64}
    (probed : ¬ FieldsUnprobed t u a) : Careful u (ntUserRegisterClassExWOW t u a).2.2 := by
  have string := stringName_careful u (a 1).toNat_lt
  by_cases given : NameGiven u (a 1).toNat
  · rcases ntUserRegisterClassExWOW_port (t := t) (className_given given (a 0).toNat) with
      same | ⟨-, new, i, room, fields⟩
    · rw [same]
      exact string
    · rw [fields]
      refine string.trans (readFields_careful _ ?_)
      intro b field
      refine ((stringName_given given).2.2 b).mpr (.inl ?_)
      by_contra outside
      exact probed ⟨given, new, by rw [room]; exact Option.some_ne_none i, b, field, outside⟩
  · obtain ⟨careful, covers⟩ := wndClassName_careful (stringName u (a 1).toNat).2 (a 0).toNat_lt
    rcases ntUserRegisterClassExWOW_port (t := t) (className_missing given) with
      same | ⟨named, -, i, -, fields⟩
    · rw [same]
      exact string.trans careful
    · rw [fields]
      exact (string.trans careful).trans (readFields_careful _ (covers named))

theorem ntUserRegisterClassExWOW_undisciplined {t : ClassTable} {a : Nat → UInt64}
    (start : u.log = []) (unprobed : FieldsUnprobed t u a) :
    ¬ Disciplined (ntUserRegisterClassExWOW t u a).2.2.log := by
  obtain ⟨given, new, room, b, field, outside⟩ := unprobed
  obtain ⟨units, some, covered⟩ := stringName_given given
  obtain ⟨i, room⟩ := Option.ne_none_iff_exists'.mp room
  have port : (ntUserRegisterClassExWOW t u a).2.2 =
      (readFields (stringName u (a 1).toNat).2 (a 0).toNat (t.classes i)).2 := by
    rw [units] at some
    rw [ntUserRegisterClassExWOW, className_given given]
    obtain ⟨c, name, cons⟩ := List.exists_cons_of_ne_nil some
    rw [cons] at new
    simp [cons, new, room]
  rw [port, readFields_iff]
  rintro ⟨all, -⟩
  rcases (covered b).mp (all b field) with inside | before
  · exact outside inside
  · rw [start] at before
    exact not_covered_nil b before

/-- The pointer to the name is read before anything is probed. -/
theorem ntUserUnregisterClass_undisciplined {t : ClassTable} (a : Nat → UInt64)
    (stack : WideString) (start : u.log = []) :
    ¬ Disciplined (ntUserUnregisterClass t u a stack).2.2.log := by
  intro disciplined
  have longer : (u.read (a 1).toNat 8).log <:+ (ntUserUnregisterClass t u a stack).2.2.log := by
    have copy := kiCopyWideFromUser_careful (u.read (a 1).toNat 8)
      (load_lt u.bytes (a 1).toNat 8) classNameChars
    rw [ntUserUnregisterClass, read_bytes]
    generalize kiCopyWideFromUser (u.read (a 1).toNat 8) (load u.bytes (a 1).toNat 8)
      classNameChars = got at copy ⊢
    split
    · exact copy.longer
    · exact copy.longer
  have first := (disciplined.of_suffix longer).1 (a 1).toNat le_rfl (by omega)
  rw [start] at first
  exact not_covered_nil _ first

end User
