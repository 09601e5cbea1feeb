import Svindows.Lib.Ring
import Mathlib.Tactic.SplitIfs

/-!
# The keyboard

`hal/keyboard.c` turns the scan codes of set 1 into characters and keeps them in a ring of
64 bytes, which `KbdReadChar` drains. It keeps one flag for the two Shift keys and one for
Caps Lock. Beside it stand the keys themselves, as the bytes so far tell of them.
-/

namespace Hal

def chars (s : String) : List UInt8 := s.toList.map fun c => c.toNat.toUInt8

/-- The characters of the codes; those beyond the list have none. -/
def kbdMap : List UInt8 :=
  [0, 27] ++ chars "1234567890-=" ++ [8, 9] ++ chars "qwertyuiop[]" ++ [10, 0] ++
    chars "asdfghjkl;'`" ++ [0] ++ chars "\\zxcvbnm,./" ++ [0] ++ chars "*" ++ [0] ++ chars " "

def kbdMapShift : List UInt8 :=
  [0, 27] ++ chars "!@#$%^&*()_+" ++ [8, 9] ++ chars "QWERTYUIOP\x7b\x7d" ++ [10, 0] ++
    chars "ASDFGHJKL:\"~" ++ [0] ++ chars "|ZXCVBNM<>?" ++ [0] ++ chars "*" ++ [0] ++ chars " "

def kbdRing : Nat := 64

structure Kbd where
  ring : Nat → UInt8
  head : Nat
  tail : Nat
  shift : Bool
  caps : Bool

def Kbd.boot : Kbd := ⟨fun _ => 0, 0, 0, false, false⟩

def kbdPush (s : Kbd) (c : UInt8) : Kbd :=
  let next := (s.head + 1) % kbdRing
  if next ≠ s.tail then { s with ring := Function.update s.ring s.head c, head := next } else s

def isRelease (sc : UInt8) : Bool := sc &&& 0x80 ≠ 0
def keyCode (sc : UInt8) : UInt8 := sc &&& 0x7F

/-- What Caps Lock makes of a character. -/
def capsChar (s : Kbd) (c : UInt8) : UInt8 :=
  if s.caps ∧ 97 ≤ c ∧ c ≤ 122 then c - 97 + 65
  else if s.caps ∧ 65 ≤ c ∧ c ≤ 90 ∧ ¬ s.shift then c - 65 + 97
  else c

def kbdIrq (s : Kbd) (sc : UInt8) : Kbd :=
  -- The comment in the source has the byte behind the prefix ignored.
  if sc = 0xE0 then s
  else
    let release := isRelease sc
    let code := keyCode sc
    if code = 0x2A ∨ code = 0x36 then { s with shift := !release }
    else if release then s
    else if code = 0x3A then { s with caps := !s.caps }
    else
      let c := if s.shift then kbdMapShift.getD code.toNat 0 else kbdMap.getD code.toNat 0
      if c = 0 then s else kbdPush s (capsChar s c)

def kbdDataAvailable (s : Kbd) : Bool := s.head ≠ s.tail

def kbdReadChar (s : Kbd) : UInt8 × Kbd :=
  if s.head = s.tail then (0, s)
  else (s.ring s.tail, { s with tail := (s.tail + 1) % kbdRing })

inductive Event
  | byte (sc : UInt8)
  | read

def Kbd.next (s : Kbd) : Event → Kbd
  | .byte sc => kbdIrq s sc
  | .read => (kbdReadChar s).2

/-- Whether the last byte was the prefix, which keys are held (extended or not, by code), and
whether Caps Lock is on. -/
structure Keys where
  prefixed : Bool
  held : Bool → UInt8 → Bool
  caps : Bool

def Keys.none : Keys := ⟨false, fun _ _ => false, false⟩

def Keys.next (k : Keys) : Event → Keys
  | .read => k
  | .byte sc =>
    if k.prefixed = false ∧ sc = 0xE0 then { k with prefixed := true }
    else
      { prefixed := false
        held := fun extended code =>
          if extended = k.prefixed ∧ code = keyCode sc then !isRelease sc
          else k.held extended code
        caps := if k.prefixed = false ∧ sc = 0x3A then !k.caps else k.caps }

/-- The left or the right Shift key is held. -/
def Keys.shiftHeld (k : Keys) : Bool := k.held false 0x2A || k.held false 0x36

/-- Each key alternates make and break. -/
def Alternates : Keys → List Event → Prop
  | _, [] => True
  | k, .read :: events => Alternates k events
  | k, .byte sc :: events =>
    (k.prefixed = false ∧ sc = 0xE0 ∨ k.held k.prefixed (keyCode sc) = isRelease sc) ∧
      Alternates (k.next (.byte sc)) events

/-- The lower-case letter of a key, if it has one. -/
def letterKey (code : UInt8) : Prop :=
  97 ≤ kbdMap.getD code.toNat 0 ∧ kbdMap.getD code.toNat 0 ≤ 122

/-- The letter in the case that Shift and Caps Lock give it. -/
def Keys.letter (k : Keys) (code : UInt8) : UInt8 :=
  if k.shiftHeld ≠ k.caps then kbdMap.getD code.toNat 0 - 32 else kbdMap.getD code.toNat 0

/-- The characters not read yet. -/
def Kbd.contents (s : Kbd) : List UInt8 := Ring.contents s.ring kbdRing s.head s.tail

def Kbd.Full (s : Kbd) : Prop := (s.head + 1) % kbdRing = s.tail

structure Kbd.SameRing (s s' : Kbd) : Prop where
  ring : s'.ring = s.ring
  head : s'.head = s.head
  tail : s'.tail = s.tail

/-- What is asked of a byte. -/
structure ByteLaw (k : Keys) (s : Kbd) (sc : UInt8) : Prop where
  shift : (kbdIrq s sc).shift = (k.next (.byte sc)).shiftHeld
  extended : k.prefixed = true → s.SameRing (kbdIrq s sc) ∧ (kbdIrq s sc).shift = s.shift ∧
    (kbdIrq s sc).caps = s.caps
  letter : k.prefixed = false → isRelease sc = false → letterKey (keyCode sc) →
    (s.Full → s.SameRing (kbdIrq s sc)) ∧
    (¬ s.Full → (kbdIrq s sc).contents = s.contents ++ [k.letter (keyCode sc)])

/-- The law at every byte of a stream. -/
def Lawful : Keys → Kbd → List Event → Prop
  | _, _, [] => True
  | k, s, .read :: events => Lawful k (s.next .read) events
  | k, s, .byte sc :: events =>
    ByteLaw k s sc ∧ Lawful (k.next (.byte sc)) (s.next (.byte sc)) events

/-- A byte behind the prefix finds nothing to do. -/
def Idle (s : Kbd) (sc : UInt8) : Prop :=
  if keyCode sc = 0x2A ∨ keyCode sc = 0x36 then s.shift = !isRelease sc
  else isRelease sc = true ∨
    keyCode sc ≠ 0x3A ∧ (kbdMap.getD (keyCode sc).toNat 0 = 0 ∨ s.Full)

/-- When a byte is treated rightly: it has nothing to do behind a prefix; no Shift key is let
go while the other is held; no letter is typed with both Shift and Caps Lock into a ring with
room. -/
structure ByteSound (k : Keys) (s : Kbd) (sc : UInt8) : Prop where
  extended : k.prefixed = true → Idle s sc
  left : k.prefixed = false → sc = 0xAA → k.held false 0x36 = false
  right : k.prefixed = false → sc = 0xB6 → k.held false 0x2A = false
  letter : k.prefixed = false → isRelease sc = false → letterKey (keyCode sc) →
    ¬ (k.shiftHeld = true ∧ k.caps = true) ∨ s.Full

def Sound : Keys → Kbd → List Event → Prop
  | _, _, [] => True
  | k, s, .read :: events => Sound k (s.next .read) events
  | k, s, .byte sc :: events =>
    ByteSound k s sc ∧ Sound (k.next (.byte sc)) (s.next (.byte sc)) events

/-- The flags are those of the keys. -/
structure Tracks (k : Keys) (s : Kbd) : Prop where
  head : s.head < kbdRing
  tail : s.tail < kbdRing
  shift : s.shift = k.shiftHeld
  caps : s.caps = k.caps

theorem byte_parts : ∀ i : Fin 256, (keyCode (UInt8.ofNat i)).toNat = i % 128 ∧
    isRelease (UInt8.ofNat i) = decide (128 ≤ i.val) := by
  decide +kernel

theorem keyCode_toNat (sc : UInt8) : (keyCode sc).toNat = sc.toNat % 128 := by
  have parts := (byte_parts ⟨sc.toNat, sc.toNat_lt⟩).1
  rwa [UInt8.ofNat_toNat] at parts

theorem isRelease_eq (sc : UInt8) : isRelease sc = decide (128 ≤ sc.toNat) := by
  have parts := (byte_parts ⟨sc.toNat, sc.toNat_lt⟩).2
  rwa [UInt8.ofNat_toNat] at parts

theorem byte_iff {sc a : UInt8} :
    sc = a ↔ keyCode sc = keyCode a ∧ isRelease sc = isRelease a := by
  refine ⟨fun same => same ▸ ⟨rfl, rfl⟩, fun ⟨code, release⟩ => UInt8.toNat_inj.mp ?_⟩
  have low := congrArg UInt8.toNat code
  rw [keyCode_toNat, keyCode_toNat] at low
  rw [isRelease_eq, isRelease_eq, decide_eq_decide] at release
  have := sc.toNat_lt
  have := a.toNat_lt
  omega

/-- Two tables, of the letters in both cases and of the codes without a character. -/
theorem kbdMap_table : ∀ i < 58,
    (97 ≤ kbdMap.getD i 0 ∧ kbdMap.getD i 0 ≤ 122 →
      kbdMapShift.getD i 0 = kbdMap.getD i 0 - 32 ∧ i ≠ 0x2A ∧ i ≠ 0x36) ∧
    (kbdMapShift.getD i 0 = 0 ↔ kbdMap.getD i 0 = 0) := by
  decide +kernel

theorem kbdMap_beyond {i : Nat} (beyond : 58 ≤ i) :
    kbdMap.getD i 0 = 0 ∧ kbdMapShift.getD i 0 = 0 := by
  have plain : kbdMap[i]? = none := List.getElem?_eq_none beyond
  have shifted : kbdMapShift[i]? = none := List.getElem?_eq_none beyond
  rw [List.getD_eq_getElem?_getD, List.getD_eq_getElem?_getD, plain, shifted]
  exact ⟨rfl, rfl⟩

theorem kbdMapShift_eq_zero (i : Nat) : kbdMapShift.getD i 0 = 0 ↔ kbdMap.getD i 0 = 0 := by
  by_cases inside : i < 58
  · exact (kbdMap_table i inside).2
  · obtain ⟨lower, upper⟩ := kbdMap_beyond (Nat.not_lt.mp inside)
    exact iff_of_true upper lower

/-- A letter key is none of those that the code treats first. -/
structure Letter (code : UInt8) : Prop where
  upper : kbdMapShift.getD code.toNat 0 = kbdMap.getD code.toNat 0 - 32
  notShift : ¬ (code = 0x2A ∨ code = 0x36)
  notCaps : code ≠ 0x3A

theorem letterKey.letter {code : UInt8} (key : letterKey code) : Letter code := by
  have inside : code.toNat < 58 := by
    by_contra beyond
    have low := key.1
    rw [(kbdMap_beyond (Nat.not_lt.mp beyond)).1] at low
    exact absurd low (by decide)
  obtain ⟨upper, left, right⟩ := (kbdMap_table _ inside).1 key
  refine ⟨upper, ?_, ?_⟩
  · rintro (rfl | rfl)
    · exact left rfl
    · exact right rfl
  · rintro rfl
    exact absurd inside (by decide)

section Byte

variable {k : Keys} {s : Kbd} {sc : UInt8}

theorem kbdIrq_shift (code : keyCode sc = 0x2A ∨ keyCode sc = 0x36) :
    kbdIrq s sc = { s with shift := !isRelease sc } := by
  have plain : sc ≠ 0xE0 := by
    rintro rfl
    exact absurd code (by decide)
  simp only [kbdIrq, if_neg plain, if_pos code]

theorem kbdIrq_release (code : ¬ (keyCode sc = 0x2A ∨ keyCode sc = 0x36))
    (release : isRelease sc = true) : kbdIrq s sc = s := by
  simp only [kbdIrq, if_neg code, release, if_true, ite_self]

theorem kbdIrq_caps (code : keyCode sc = 0x3A) (make : isRelease sc = false) :
    kbdIrq s sc = { s with caps := !s.caps } := by
  obtain rfl : sc = 0x3A := byte_iff.mpr ⟨code, make⟩
  rfl

theorem kbdIrq_char (code : ¬ (keyCode sc = 0x2A ∨ keyCode sc = 0x36))
    (make : isRelease sc = false) (other : keyCode sc ≠ 0x3A) :
    kbdIrq s sc = if kbdMap.getD (keyCode sc).toNat 0 = 0 then s
      else kbdPush s (capsChar s (if s.shift then kbdMapShift.getD (keyCode sc).toNat 0
        else kbdMap.getD (keyCode sc).toNat 0)) := by
  have plain : sc ≠ 0xE0 := by
    rintro rfl
    exact absurd make (by decide)
  have none_ : (if s.shift then kbdMapShift.getD (keyCode sc).toNat 0
      else kbdMap.getD (keyCode sc).toNat 0) = 0 ↔ kbdMap.getD (keyCode sc).toNat 0 = 0 := by
    split
    · exact kbdMapShift_eq_zero _
    · exact Iff.rfl
  simp only [kbdIrq, if_neg plain, if_neg code, make, if_neg other, none_]
  rfl

theorem kbdPush_full (full : s.Full) (c : UInt8) : kbdPush s c = s :=
  if_neg (not_not_intro full)

theorem kbdPush_room (room : ¬ s.Full) (c : UInt8) : kbdPush s c =
    { s with ring := Function.update s.ring s.head c, head := (s.head + 1) % kbdRing } :=
  if_pos room

theorem Kbd.SameRing.refl (s : Kbd) : s.SameRing s := ⟨rfl, rfl, rfl⟩

theorem sameRing_push (head : s.head < kbdRing) (c : UInt8) :
    s.SameRing (kbdPush s c) ↔ s.Full := by
  refine ⟨fun same => ?_, fun full => ?_⟩
  · by_contra room
    have moved := same.head
    rw [kbdPush_room room] at moved
    have moved : (s.head + 1) % 64 = s.head := moved
    have head : s.head < 64 := head
    omega
  · rw [kbdPush_full full]
    exact .refl s

theorem kbdPush_flags (s : Kbd) (c : UInt8) :
    (kbdPush s c).shift = s.shift ∧ (kbdPush s c).caps = s.caps := by
  simp only [kbdPush]
  split <;> exact ⟨rfl, rfl⟩

/-- What a byte does, by the kind of its key. -/
inductive IrqEffect (s : Kbd) (sc : UInt8) : Kbd → Prop
  | shift (code : keyCode sc = 0x2A ∨ keyCode sc = 0x36) :
    IrqEffect s sc { s with shift := !isRelease sc }
  | release (code : ¬ (keyCode sc = 0x2A ∨ keyCode sc = 0x36)) (release : isRelease sc = true) :
    IrqEffect s sc s
  | caps (lock : sc = 0x3A) : IrqEffect s sc { s with caps := !s.caps }
  | empty (code : ¬ (keyCode sc = 0x2A ∨ keyCode sc = 0x36)) (other : keyCode sc ≠ 0x3A)
      (none_ : kbdMap.getD (keyCode sc).toNat 0 = 0) : IrqEffect s sc s
  | char (code : ¬ (keyCode sc = 0x2A ∨ keyCode sc = 0x36)) (make : isRelease sc = false)
      (other : keyCode sc ≠ 0x3A) (some_ : kbdMap.getD (keyCode sc).toNat 0 ≠ 0) (c : UInt8) :
    IrqEffect s sc (kbdPush s c)

theorem kbdIrq_effect (s : Kbd) (sc : UInt8) : IrqEffect s sc (kbdIrq s sc) := by
  by_cases code : keyCode sc = 0x2A ∨ keyCode sc = 0x36
  · rw [kbdIrq_shift code]
    exact .shift code
  · cases direction : isRelease sc with
    | true =>
      rw [kbdIrq_release code direction]
      exact .release code direction
    | false =>
      by_cases lock : keyCode sc = 0x3A
      · rw [kbdIrq_caps lock direction]
        exact .caps (byte_iff.mpr ⟨lock, direction⟩)
      · rw [kbdIrq_char code direction lock]
        split
        · next none_ => exact .empty code lock none_
        · next some_ => exact .char code direction lock some_ _

theorem IrqEffect.keepsShift {t : Kbd} (effect : IrqEffect s sc t)
    (code : ¬ (keyCode sc = 0x2A ∨ keyCode sc = 0x36)) : t.shift = s.shift := by
  cases effect with
  | shift code' => exact absurd code' code
  | release | caps | empty => rfl
  | char _ _ _ _ c => exact (kbdPush_flags s c).1

theorem IrqEffect.capsFlag {t : Kbd} (effect : IrqEffect s sc t) :
    t.caps = if sc = 0x3A then !s.caps else s.caps := by
  cases effect with
  | shift code =>
    refine (if_neg ?_).symm
    rintro rfl
    exact absurd code (by decide)
  | release _ release =>
    refine (if_neg ?_).symm
    rintro rfl
    exact absurd release (by decide)
  | caps lock => exact (if_pos lock).symm
  | empty _ other =>
    refine (if_neg ?_).symm
    rintro rfl
    exact other rfl
  | char _ _ other _ c =>
    rw [(kbdPush_flags s c).2, if_neg]
    rintro rfl
    exact other rfl

theorem kbdPush_bounds (head : s.head < kbdRing) (tail : s.tail < kbdRing) (c : UInt8) :
    (kbdPush s c).head < kbdRing ∧ (kbdPush s c).tail < kbdRing := by
  simp only [kbdPush]
  split
  · exact ⟨Nat.mod_lt _ (by decide), tail⟩
  · exact ⟨head, tail⟩

theorem IrqEffect.bounds {t : Kbd} (effect : IrqEffect s sc t) (head : s.head < kbdRing)
    (tail : s.tail < kbdRing) : t.head < kbdRing ∧ t.tail < kbdRing := by
  cases effect with
  | shift | release | caps | empty => exact ⟨head, tail⟩
  | char _ _ _ _ c => exact kbdPush_bounds head tail c

theorem capsChar_letter (tracks : Tracks k s) {code : UInt8} (key : letterKey code) :
    capsChar s (if s.shift then kbdMapShift.getD code.toNat 0 else kbdMap.getD code.toNat 0) =
      k.letter code ↔ ¬ (k.shiftHeld = true ∧ k.caps = true) := by
  have upperCase := key.letter.upper
  obtain ⟨low, high⟩ := key
  rw [upperCase, capsChar, Keys.letter, tracks.shift, tracks.caps]
  generalize kbdMap.getD code.toNat 0 = c at low high
  have low' : 97 ≤ c.toNat := UInt8.le_iff_toNat_le.mp low
  have high' : c.toNat ≤ 122 := UInt8.le_iff_toNat_le.mp high
  have upper : (c - 32).toNat = c.toNat - 32 :=
    UInt8.toNat_sub_of_le _ _ (UInt8.le_iff_toNat_le.mpr (Nat.le_trans (by decide) low'))
  have typed : c - 97 + 65 = c - 32 := by
    refine UInt8.toNat_inj.mp ?_
    rw [UInt8.toNat_add, UInt8.toNat_sub_of_le _ _ low, upper]
    show (c.toNat - 97 + 65) % 256 = _
    omega
  have notLower : ¬ 97 ≤ c - 32 := by
    rw [UInt8.le_iff_toNat_le, upper]
    show ¬ 97 ≤ _
    omega
  have other : c - 32 ≠ c := fun same => by
    rw [same] at upper
    omega
  cases k.shiftHeld <;> cases k.caps
  · simp
  · simp [low, high, typed]
  · simp
  · simp [notLower, other]

/-- Behind a prefix a byte changes nothing exactly if it is idle. -/
theorem extended_iff {t : Kbd} (effect : IrqEffect s sc t) (head : s.head < kbdRing) :
    s.SameRing t ∧ t.shift = s.shift ∧ t.caps = s.caps ↔ Idle s sc := by
  rw [Idle]
  cases effect with
  | shift code =>
    rw [if_pos code]
    exact ⟨fun same => same.2.1.symm, fun agree => ⟨⟨rfl, rfl, rfl⟩, agree.symm, rfl⟩⟩
  | release code release =>
    rw [if_neg code]
    exact iff_of_true ⟨.refl s, rfl, rfl⟩ (Or.inl release)
  | caps lock =>
    have code : ¬ (keyCode 0x3A = 0x2A ∨ keyCode 0x3A = 0x36) := by decide
    have make : isRelease 0x3A = false := by decide
    rw [lock, if_neg code, make]
    refine iff_of_false (fun same => absurd same.2.2 (by simp)) ?_
    rintro (release | ⟨other, -⟩)
    · cases release
    · exact other rfl
  | empty code other none_ =>
    rw [if_neg code]
    exact iff_of_true ⟨.refl s, rfl, rfl⟩ (Or.inr ⟨other, Or.inl none_⟩)
  | char code make other some_ c =>
    rw [if_neg code, sameRing_push head, make]
    refine ⟨fun same => Or.inr ⟨other, Or.inr same.1⟩, fun idle => ⟨?_, kbdPush_flags s c⟩⟩
    exact ((idle.resolve_left nofun).2).resolve_left some_

theorem next_prefixed (prefixed : k.prefixed = true) :
    (k.next (.byte sc)).shiftHeld = k.shiftHeld := by
  simp [Keys.next, Keys.shiftHeld, prefixed]

theorem shift_iff (tracks : Tracks k s) (plain : k.prefixed = false) :
    (kbdIrq s sc).shift = (k.next (.byte sc)).shiftHeld ↔
      (sc = 0xAA → k.held false 0x36 = false) ∧ (sc = 0xB6 → k.held false 0x2A = false) := by
  have flag := tracks.shift
  rw [byte_iff (a := 0xAA), byte_iff (a := 0xB6)]
  change _ ↔ (keyCode sc = 0x2A ∧ isRelease sc = true → _) ∧
    (keyCode sc = 0x36 ∧ isRelease sc = true → _)
  by_cases extended : sc = 0xE0
  · subst extended
    simp [Keys.next, kbdIrq, plain, flag, Keys.shiftHeld, show keyCode 0xE0 = 0x60 by decide]
  have next : (k.next (.byte sc)).shiftHeld =
      ((if 0x2A = keyCode sc then !isRelease sc else k.held false 0x2A) ||
        (if 0x36 = keyCode sc then !isRelease sc else k.held false 0x36)) := by
    simp [Keys.next, Keys.shiftHeld, plain, extended]
  rw [next]
  by_cases left : keyCode sc = 0x2A
  · rw [kbdIrq_shift (Or.inl left)]
    cases isRelease sc <;> simp [left]
  by_cases right : keyCode sc = 0x36
  · rw [kbdIrq_shift (Or.inr right)]
    cases isRelease sc <;> simp [right]
  rw [(kbdIrq_effect s sc).keepsShift (not_or.mpr ⟨left, right⟩), flag]
  simp [left, right, Ne.symm left, Ne.symm right, Keys.shiftHeld]

theorem letter_iff (tracks : Tracks k s) (make : isRelease sc = false)
    (key : letterKey (keyCode sc)) :
    (s.Full → s.SameRing (kbdIrq s sc)) ∧
    (¬ s.Full → (kbdIrq s sc).contents = s.contents ++ [k.letter (keyCode sc)]) ↔
      ¬ (k.shiftHeld = true ∧ k.caps = true) ∨ s.Full := by
  have some_ : kbdMap.getD (keyCode sc).toNat 0 ≠ 0 := fun zero => by
    have low := key.1
    rw [zero] at low
    exact absurd low (by decide)
  rw [kbdIrq_char key.letter.notShift make key.letter.notCaps, if_neg some_,
    sameRing_push tracks.head, ← capsChar_letter tracks key]
  generalize capsChar s _ = c
  by_cases full : s.Full
  · simp [full]
  · have pushed : (kbdPush s c).contents = s.contents ++ [c] := by
      rw [kbdPush_room full]
      exact Ring.contents_push tracks.head tracks.tail s.ring c full
    simp [full, pushed]

theorem byteLaw_iff (tracks : Tracks k s) : ByteLaw k s sc ↔ ByteSound k s sc := by
  cases mode : k.prefixed with
  | true =>
    have idle := extended_iff (kbdIrq_effect s sc) tracks.head
    constructor
    · intro law
      exact ⟨fun _ => idle.mp (law.extended mode), by simp [mode], by simp [mode], by simp [mode]⟩
    · intro sound
      have same := idle.mpr (sound.extended mode)
      refine ⟨?_, fun _ => same, by simp [mode]⟩
      rw [next_prefixed mode, same.2.1, tracks.shift]
  | false =>
    constructor
    · intro law
      obtain ⟨left, right⟩ := (shift_iff tracks mode).mp law.shift
      exact ⟨by simp [mode], fun _ => left, fun _ => right,
        fun _ make key => (letter_iff tracks make key).mp (law.letter mode make key)⟩
    · intro sound
      exact ⟨(shift_iff tracks mode).mpr ⟨sound.left mode, sound.right mode⟩, by simp [mode],
        fun _ make key => (letter_iff tracks make key).mpr (sound.letter mode make key)⟩

theorem Tracks.byte (tracks : Tracks k s) (law : ByteLaw k s sc) :
    Tracks (k.next (.byte sc)) (s.next (.byte sc)) := by
  obtain ⟨head, tail⟩ := (kbdIrq_effect s sc).bounds tracks.head tracks.tail
  refine ⟨head, tail, law.shift, ?_⟩
  show (kbdIrq s sc).caps = (k.next (.byte sc)).caps
  cases mode : k.prefixed with
  | true =>
    rw [(law.extended mode).2.2, tracks.caps]
    simp [Keys.next, mode]
  | false =>
    rw [(kbdIrq_effect s sc).capsFlag, tracks.caps]
    by_cases extended : sc = 0xE0
    · subst extended
      simp [Keys.next, mode]
    · simp [Keys.next, mode, extended]

theorem Tracks.read (tracks : Tracks k s) : Tracks k (s.next .read) := by
  show Tracks k (kbdReadChar s).2
  rw [kbdReadChar]
  split
  · exact tracks
  · exact ⟨tracks.head, Nat.mod_lt _ (by decide), tracks.shift, tracks.caps⟩

/-- There is a character if and only if one has not been read. -/
theorem kbdDataAvailable_iff (tail : s.tail < kbdRing) :
    kbdDataAvailable s = true ↔ s.contents ≠ [] := by
  have empty : s.contents = [] ↔ s.tail = s.head := Ring.contents_eq_nil tail
  rw [kbdDataAvailable, decide_eq_true_iff]
  exact not_congr (eq_comm.trans empty.symm)

/-- The characters are read in the order in which they were typed. -/
theorem kbdReadChar_contents (tracks : Tracks k s) (available : kbdDataAvailable s = true) :
    s.contents = (kbdReadChar s).1 :: (kbdReadChar s).2.contents := by
  have some_ : s.head ≠ s.tail := decide_eq_true_iff.mp available
  rw [kbdReadChar, if_neg some_]
  exact Ring.contents_pop tracks.head tracks.tail s.ring (Ne.symm some_)

end Byte

/-- The flags track the keys as long as every byte is treated rightly. -/
theorem lawful_iff {k : Keys} {s : Kbd} (tracks : Tracks k s) (events : List Event) :
    Lawful k s events ↔ Sound k s events := by
  induction events generalizing k s with
  | nil => exact Iff.rfl
  | cons event events ih =>
    cases event with
    | read => exact ih tracks.read
    | byte sc =>
      have here : ByteLaw k s sc ↔ ByteSound k s sc := byteLaw_iff tracks
      constructor
      · rintro ⟨law, rest⟩
        exact ⟨here.mp law, (ih (tracks.byte law)).mp rest⟩
      · rintro ⟨sound, rest⟩
        have law := here.mpr sound
        exact ⟨law, (ih (tracks.byte law)).mpr rest⟩

theorem tracks_boot : Tracks .none .boot := ⟨by decide, by decide, rfl, rfl⟩

/-- Every stream, also one in which keys do not alternate, is treated rightly if and only if
each of its bytes is. -/
theorem keyboard_iff (events : List Event) :
    Lawful .none .boot events ↔ Sound .none .boot events :=
  lawful_iff tracks_boot events

/-- Both Shift keys go down and the left one goes up. -/
def twoShifts : List Event := [.byte 0x2A, .byte 0x36, .byte 0xAA]

/-- Enter on the keypad. -/
def keypadEnter : List Event := [.byte 0xE0, .byte 0x1C]

/-- Caps Lock, then A with Shift. -/
def shiftCapsA : List Event := [.byte 0x3A, .byte 0xBA, .byte 0x2A, .byte 0x1E]

/-- The three ways to go wrong: one flag for two Shift keys, a byte behind the prefix that is
not ignored, and Caps Lock that does not undo Shift. -/
theorem twoShifts_unlawful :
    (Alternates .none twoShifts ∧ ¬ Lawful .none .boot twoShifts) ∧
    (Alternates .none keypadEnter ∧ ¬ Lawful .none .boot keypadEnter) ∧
    (Alternates .none shiftCapsA ∧ ¬ Lawful .none .boot shiftCapsA) := by
  refine ⟨⟨?_, fun law => ?_⟩, ⟨?_, fun law => ?_⟩, ?_, fun law => ?_⟩
  · exact ⟨Or.inr (by decide), Or.inr (by decide), Or.inr (by decide), trivial⟩
  · exact absurd law.2.2.1.shift (by decide)
  · exact ⟨Or.inl (by decide), Or.inr (by decide), trivial⟩
  · exact absurd (law.2.1.extended rfl).1.head (by decide)
  · exact ⟨Or.inr (by decide), Or.inr (by decide), Or.inr (by decide), Or.inr (by decide), trivial⟩
  · have typed := (law.2.2.2.1.letter rfl (by decide) ⟨by decide, by decide⟩).2 (by
      show ¬ (0 + 1) % 64 = 0
      decide)
    exact absurd typed (by decide)

end Hal
