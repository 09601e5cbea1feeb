import Svindows.Mm.UserPort
import Svindows.Mm.Vmm
import Svindows.User.Windows

/-!
# Window longs

`KiGetWindowLong`, `KiSetWindowLong` and `NtUserSetWindowLong` of `ke/syscall.c`. The
sixteen longs of a window are words of its slot of the object arena. Neither function
asks whether the index is negative, and the larger indices lead out of the longs.
-/

namespace User

open Nt Mm ByteMemory

/-- The bytes of a slot of the arena. -/
def windowSlotSize : Nat := 0x200

def windowLongBase : Nat := 0x60
def windowLongCount : Nat := 16

def wndStyleOff : Nat := 0x30
def wndWndExtraOff : Nat := 0xE8
def wndParentOff : Nat := 0x100

/-- The size of the `USER_WINDOW_HEAD` that carries a window's identity: its handle, lock
count, flags, thread, desktop and own address. -/
def windowHeadSize : Nat := 0x28

/-- The test that both functions begin with. -/
def longRefused (hwnd : Word) (index : BitVec 32) : Bool :=
  slotOf hwnd.toNat = 0 ∨ 128 ≤ slotOf hwnd.toNat ∨ index.toInt < -(windowLongCount : Int)

/-- The address of a long: the index is negated in 32 bits and scaled in 64. -/
def longAddress (hwnd : Word) (index : BitVec 32) : Word :=
  BitVec.ofNat 64 (processUserObjectArenaVa + slotOf hwnd.toNat * windowSlotSize +
    windowLongBase) + (-index - 1#32).signExtend 64 * 8#64

def kiGetWindowLong (u : UserPort) (hwnd : Word) (index : BitVec 32) : Word × UserPort :=
  if longRefused hwnd index then (0, u)
  else
    let longs := (longAddress hwnd index).toNat
    if mmProbeForRead u.present longs 8 = false then (0, u)
    else (BitVec.ofNat 64 (load u.bytes longs 8), (u.probed longs 8).read longs 8)

/-- The old value, nothing when the function returns FALSE. -/
def kiSetWindowLong (u : UserPort) (hwnd : Word) (index : BitVec 32) (value : Word) :
    Option Word × UserPort :=
  if longRefused hwnd index then (none, u)
  else
    let longs := (longAddress hwnd index).toNat
    if mmProbeForWrite u.present longs 8 = false then (none, u)
    else
      (some (BitVec.ofNat 64 (load u.bytes longs 8)),
        ((u.probed longs 8).read longs 8).write longs 8 value.toNat)

def ntUserSetWindowLong (u : UserPort) (a : Nat → Word) : Word × UserPort :=
  let set := kiSetWindowLong u (a 0) ((a 1).setWidth 32) (a 2)
  (set.1.getD 0, set.2)

/-- The call returns FALSE: no such slot, an index below the longs, or no memory. -/
def SetFails (u : UserPort) (hwnd : Word) (index : BitVec 32) : Prop :=
  longRefused hwnd index = true ∨
    mmProbeForWrite u.present (longAddress hwnd index).toNat 8 = false

variable {hwnd : Word} {index : BitVec 32} {u : UserPort}

theorem longRefused_false : longRefused hwnd index = false ↔
      0 < slotOf hwnd.toNat ∧ slotOf hwnd.toNat < 128 ∧ -16 ≤ index.toInt := by
  rw [longRefused, decide_eq_false_iff_not, windowLongCount]
  omega

/-- Past the test neither the negation nor the sign extension changes the value. -/
theorem negated_toInt (low : -16 ≤ index.toInt) :
    ((-index - 1#32).signExtend 64).toInt = -index.toInt - 1 := by
  have high : 2 * index.toInt < 2 ^ 32 := BitVec.two_mul_toInt_lt
  have one : (1#32).toInt = 1 := by decide
  rw [BitVec.toInt_signExtend_of_le (by decide), BitVec.toInt_sub, BitVec.toInt_neg, one,
    Int.bmod_eq_of_le (n := -index.toInt) (by omega) (by omega),
    Int.bmod_eq_of_le (by omega) (by omega)]

/-- The address as an integer; a long below address 0 would wrap around. -/
theorem longAddress_toNat (hwnd : Word) {index : BitVec 32} (low : -16 ≤ index.toInt) :
    ((longAddress hwnd index).toNat : Int) =
      (0x1300058 + slotOf hwnd.toNat * 0x200 - index.toInt * 8) % 2 ^ 64 := by
  have slot : slotOf hwnd.toNat < 0x10000 := Nat.mod_lt _ (by decide)
  have scaled := negated_toInt low
  have word := BitVec.toInt_eq_toNat_cond ((-index - 1#32).signExtend 64)
  simp only [longAddress, BitVec.toNat_add, BitVec.toNat_mul, BitVec.toNat_ofNat,
    processUserObjectArenaVa, windowSlotSize, windowLongBase]
  split at word <;> omega

/-- The two functions look at the same word. -/
theorem kiSetWindowLong_fails (fails : SetFails u hwnd index) (value : Word) :
    kiSetWindowLong u hwnd index value = (none, u) := by
  rcases fails with refused | absent
  · rw [kiSetWindowLong, if_pos refused]
  · rw [kiSetWindowLong]
    split
    · rfl
    · exact if_pos absent

theorem not_setFails (given : ¬SetFails u hwnd index) : longRefused hwnd index = false ∧
      mmProbeForRead u.present (longAddress hwnd index).toNat 8 = true := by
  rw [SetFails, not_or, Bool.not_eq_true, Bool.not_eq_false] at given
  exact given

theorem kiSetWindowLong_sets (given : ¬SetFails u hwnd index) (value : Word) :
    ∃ old, (kiSetWindowLong u hwnd index value).1 = some old ∧
      (kiSetWindowLong u hwnd index value).2.present = u.present ∧
      (kiSetWindowLong u hwnd index value).2.bytes =
        store u.bytes (longAddress hwnd index).toNat 8 value.toNat := by
  obtain ⟨allowed, mapped⟩ := not_setFails given
  have writable : ¬mmProbeForWrite u.present (longAddress hwnd index).toNat 8 = false :=
    ne_false_of_eq_true mapped
  simp only [kiSetWindowLong, if_neg (ne_true_of_eq_false allowed), if_neg writable]
  exact ⟨_, rfl, rfl, rfl⟩

theorem kiGetWindowLong_value (u : UserPort) (hwnd : Word) (index : BitVec 32) :
    (kiGetWindowLong u hwnd index).1 =
      if longRefused hwnd index ∨
          mmProbeForRead u.present (longAddress hwnd index).toNat 8 = false then 0
      else BitVec.ofNat 64 (load u.bytes (longAddress hwnd index).toNat 8) := by
  rw [kiGetWindowLong]
  by_cases refused : longRefused hwnd index = true
  · rw [if_pos refused, if_pos (.inl refused)]
  rw [if_neg refused]
  by_cases absent : mmProbeForRead u.present (longAddress hwnd index).toNat 8 = false
  · rw [if_pos absent, if_pos (.inr absent)]
  · rw [if_neg absent, if_neg (not_or.mpr ⟨refused, absent⟩)]

/-- The fields of a window that the kernel fills in or reads, with their sizes. -/
def windowFields : List (Nat × Nat) :=
  [(wndStyleOff, 4), (wndWndExtraOff, 4), (wndParentOff, 8), (wndWndProcOff, 8)]

/-- The word at `a` belongs to the longs' part of the window's slot. -/
def InWindow (hwnd : Word) (a : Nat) : Prop :=
  let head := processUserObjectArenaVa + slotOf hwnd.toNat * windowSlotSize
  head + windowHeadSize ≤ a ∧ a + 8 ≤ head + windowSlotSize ∧
    ∀ field ∈ windowFields, a + 8 ≤ head + field.1 ∨ head + field.1 + field.2 ≤ a

/-- One of the sixteen longs of a window. -/
def IsLong (index : BitVec 32) : Prop := -16 ≤ index.toInt ∧ index.toInt < 0

/-- Whatever is set, the call fails without a change, or it changes one word of the
window and of all the longs in `counted` only the one it was asked to change. -/
def LongsStay (counted : BitVec 32 → Prop) (u : UserPort) (hwnd : Word) (index : BitVec 32) :
    Prop :=
  ∀ value, let set := kiSetWindowLong u hwnd index value
    (set.1 = none ∧ set.2 = u) ∨
    (set.1 ≠ none ∧
      (∃ a, InWindow hwnd a ∧ (∀ b, b < a ∨ a + 8 ≤ b → set.2.bytes b = u.bytes b) ∧
        load set.2.bytes a 8 = value.toNat) ∧
      (kiGetWindowLong set.2 hwnd index).1 = value ∧
      ∀ other i, counted i → slotOf other.toNat ≠ slotOf hwnd.toNat ∨ i ≠ index →
        (kiGetWindowLong set.2 other i).1 = (kiGetWindowLong u other i).1)

/-- The indices whose word meets neither the identity nor one of the fields. -/
def KeepsFields (index : BitVec 32) : Prop := index.toInt ≤ 4 ∨ index.toInt = 6

theorem KeepsFields.inWindow
    (allowed : longRefused hwnd index = false) (keeps : KeepsFields index) :
    InWindow hwnd (longAddress hwnd index).toNat := by
  obtain ⟨_, _, low⟩ := longRefused_false.mp allowed
  have place := longAddress_toNat hwnd low
  rw [KeepsFields] at keeps
  simp only [InWindow, windowFields, List.forall_mem_cons, List.not_mem_nil, false_imp_iff,
    implies_true, and_true, processUserObjectArenaVa, windowSlotSize, windowHeadSize, wndStyleOff,
    wndWndExtraOff, wndParentOff, wndWndProcOff]
  omega

theorem InWindow.keepsFields {a : Nat}
    (allowed : longRefused hwnd index = false) (inside : InWindow hwnd a)
    (first : a ≤ (longAddress hwnd index).toNat) (last : (longAddress hwnd index).toNat < a + 8) :
    KeepsFields index := by
  obtain ⟨_, _, low⟩ := longRefused_false.mp allowed
  have place := longAddress_toNat hwnd low
  have high : 2 * index.toInt < 2 ^ 32 := BitVec.two_mul_toInt_lt
  simp only [InWindow, windowFields, List.forall_mem_cons, List.not_mem_nil, false_imp_iff,
    implies_true, and_true, processUserObjectArenaVa, windowSlotSize, windowHeadSize, wndStyleOff,
    wndWndExtraOff, wndParentOff, wndWndProcOff] at inside
  rw [KeepsFields]
  omega

/-- Two longs whose words do not meet. -/
theorem longAddress_apart {other : Word} {i : BitVec 32}
    (allowed : longRefused hwnd index = false) (also : longRefused other i = false)
    (differ : slotOf hwnd.toNat * 64 - index.toInt ≠ slotOf other.toNat * 64 - i.toInt) :
    (longAddress other i).toNat + 8 ≤ (longAddress hwnd index).toNat ∨
      (longAddress hwnd index).toNat + 8 ≤ (longAddress other i).toNat := by
  obtain ⟨_, _, low⟩ := longRefused_false.mp allowed
  obtain ⟨_, _, low'⟩ := longRefused_false.mp also
  have place := longAddress_toNat hwnd low
  have place' := longAddress_toNat other low'
  have high : 2 * index.toInt < 2 ^ 32 := BitVec.two_mul_toInt_lt
  have high' : 2 * i.toInt < 2 ^ 32 := BitVec.two_mul_toInt_lt
  omega

/-- A get after a set sees the set value through its own word and nothing elsewhere. -/
theorem get_after_set (given : ¬SetFails u hwnd index) (value other : Word) (i : BitVec 32) :
    (slotOf other.toNat = slotOf hwnd.toNat → i = index →
      (kiGetWindowLong (kiSetWindowLong u hwnd index value).2 other i).1 = value) ∧
    ((longRefused other i = false →
        slotOf hwnd.toNat * 64 - index.toInt ≠ slotOf other.toNat * 64 - i.toInt) →
      (kiGetWindowLong (kiSetWindowLong u hwnd index value).2 other i).1 =
        (kiGetWindowLong u other i).1) := by
  obtain ⟨allowed, mapped⟩ := not_setFails given
  obtain ⟨_, _, present, bytes⟩ := kiSetWindowLong_sets given value
  rw [kiGetWindowLong_value, kiGetWindowLong_value, present, bytes]
  refine ⟨fun slot same => ?_, fun apart => ?_⟩
  · have word : longAddress other i = longAddress hwnd index := by
      rw [longAddress, longAddress, slot, same]
    have passes : longRefused other i = longRefused hwnd index := by
      rw [longRefused, longRefused, slot, same]
    rw [word, passes, if_neg (by simp [allowed, mapped]),
      load_store_same (lt_of_lt_of_eq value.isLt (by decide)), BitVec.ofNat_toNat,
      BitVec.setWidth_eq]
  · by_cases refused : longRefused other i = true
    · rw [if_pos (.inl refused), if_pos (.inl refused)]
    · have also := eq_false_of_ne_true refused
      rw [load_store_outside (longAddress_apart allowed also (apart also))]

/-- Setting a long to a word with another first byte shows where the long lies. -/
theorem LongsStay.keepsFields {counted : BitVec 32 → Prop} (stay : LongsStay counted u hwnd index)
    (given : ¬SetFails u hwnd index) : KeepsFields index := by
  let place := (longAddress hwnd index).toNat
  let value : Word := BitVec.ofNat 64 ((u.bytes place).toNat + 1)
  obtain ⟨old, sets, _, bytes⟩ := kiSetWindowLong_sets given value
  rcases stay value with ⟨fails, _⟩ | ⟨_, ⟨a, inside, same, _⟩, _, _⟩
  · rw [sets] at fails
    exact absurd fails (by simp)
  have changed : (kiSetWindowLong u hwnd index value).2.bytes place ≠ u.bytes place := by
    have byte := (u.bytes place).toNat_lt
    have low : value.toNat = (u.bytes place).toNat + 1 := by
      rw [BitVec.toNat_ofNat, Nat.mod_eq_of_lt (by omega)]
    rw [bytes, store, if_pos ⟨le_rfl, by omega⟩, low]
    intro equal
    have numbers := congrArg UInt8.toNat equal
    rw [UInt8.toNat_ofNat', Nat.sub_self, Nat.pow_zero, Nat.div_one] at numbers
    omega
  have covered : a ≤ place ∧ place < a + 8 := by
    by_contra outside
    exact changed (same place (by omega))
  exact inside.keepsFields (not_setFails given).1 covered.1 covered.2

/-- A set that keeps to the longs of its window changes only its own of those whose words
it cannot meet. -/
theorem KeepsFields.longsStay {counted : BitVec 32 → Prop} (given : ¬SetFails u hwnd index)
    (keeps : KeepsFields index)
    (apart : ∀ other i, counted i → longRefused other i = false →
      slotOf other.toNat ≠ slotOf hwnd.toNat ∨ i ≠ index →
      slotOf hwnd.toNat * 64 - index.toInt ≠ slotOf other.toNat * 64 - i.toInt) :
    LongsStay counted u hwnd index := by
  intro value
  obtain ⟨old, sets, _, bytes⟩ := kiSetWindowLong_sets given value
  refine .inr ⟨by simp [sets], ⟨(longAddress hwnd index).toNat,
    keeps.inWindow (not_setFails given).1, ?_, ?_⟩, ?_, ?_⟩
  · intro b outside
    rw [bytes, store_outside outside]
  · rw [bytes, load_store_same (lt_of_lt_of_eq value.isLt (by decide))]
  · exact (get_after_set given value hwnd index).1 rfl rfl
  · intro other i counts differ
    exact (get_after_set given value other i).2 fun also => apart other i counts also differ

theorem LongsStay.of_fails {counted : BitVec 32 → Prop}
    (fails : SetFails u hwnd index) : LongsStay counted u hwnd index := by
  intro value
  rw [kiSetWindowLong_fails fails]
  exact .inl ⟨rfl, rfl⟩

/-- The word of a long is also, 64 indices on, a word of the next slot. -/
theorem LongsStay.last
    (stay : LongsStay (fun _ => True) u hwnd index) (given : ¬SetFails u hwnd index) :
    slotOf hwnd.toNat = 127 := by
  obtain ⟨allowed, mapped⟩ := not_setFails given
  obtain ⟨positive, small, low⟩ := longRefused_false.mp allowed
  have keeps := stay.keepsFields given
  rw [KeepsFields] at keeps
  by_contra earlier
  have slot : slotOf (BitVec.ofNat 64 (slotOf hwnd.toNat + 1)).toNat = slotOf hwnd.toNat + 1 := by
    rw [BitVec.toNat_ofNat, slotOf]
    omega
  have on : (index + 64#32).toInt = index.toInt + 64 := by
    have distance : (64#32).toInt = 64 := by decide
    rw [BitVec.toInt_add, distance, Int.bmod_eq_of_le (by omega) (by omega)]
  have also : longRefused (BitVec.ofNat 64 (slotOf hwnd.toNat + 1)) (index + 64#32) = false := by
    rw [longRefused_false, slot, on]
    omega
  have same : longAddress (BitVec.ofNat 64 (slotOf hwnd.toNat + 1)) (index + 64#32) =
      longAddress hwnd index := by
    have place := longAddress_toNat hwnd low
    have place' := longAddress_toNat (BitVec.ofNat 64 (slotOf hwnd.toNat + 1))
      (longRefused_false.mp also).2.2
    rw [slot, on] at place'
    exact BitVec.eq_of_toNat_eq (by omega)
  have seen (v : UserPort) (mapped' : v.present = u.present) :
      (kiGetWindowLong v (BitVec.ofNat 64 (slotOf hwnd.toNat + 1)) (index + 64#32)).1 =
        (kiGetWindowLong v hwnd index).1 := by
    rw [kiGetWindowLong_value, kiGetWindowLong_value, also, allowed, same]
  let value := (kiGetWindowLong u hwnd index).1 + 1#64
  obtain ⟨old, sets, present, _⟩ := kiSetWindowLong_sets given value
  rcases stay value with ⟨fails, _⟩ | ⟨_, _, get, others⟩
  · rw [sets] at fails
    exact absurd fails (by simp)
  have kept := others (BitVec.ofNat 64 (slotOf hwnd.toNat + 1)) (index + 64#32) trivial
    (.inl (by omega))
  rw [seen _ present, seen u rfl, get] at kept
  have numbers := congrArg BitVec.toNat kept
  rw [BitVec.toNat_add, BitVec.toNat_ofNat] at numbers
  omega

/-- A set keeps to its window exactly when it fails or its index is one of the sixteen
longs, one of the next five or 6. The larger indices reach the style, the identity or
another slot, and counted over all indices every word has a second name except in the
last slot. -/
theorem window_longs_stay (u : UserPort) (hwnd : Word) (index : BitVec 32) :
    (LongsStay IsLong u hwnd index ↔ SetFails u hwnd index ∨ KeepsFields index) ∧
    (LongsStay (fun _ => True) u hwnd index ↔
      SetFails u hwnd index ∨ (KeepsFields index ∧ slotOf hwnd.toNat = 127)) := by
  by_cases fails : SetFails u hwnd index
  · exact ⟨iff_of_true (.of_fails fails) (.inl fails), iff_of_true (.of_fails fails) (.inl fails)⟩
  obtain ⟨_, _, low⟩ := longRefused_false.mp (not_setFails fails).1
  rw [or_iff_right fails, or_iff_right fails]
  constructor
  · refine ⟨fun stay => stay.keepsFields fails, fun keeps => keeps.longsStay fails ?_⟩
    rintro other i ⟨first, last⟩ - differ equal
    rw [KeepsFields] at keeps
    have slots : slotOf other.toNat = slotOf hwnd.toNat := by omega
    exact differ.elim (fun h => h slots) fun h => h (BitVec.eq_of_toInt_eq (by omega))
  · refine ⟨fun stay => ⟨stay.keepsFields fails, stay.last fails⟩, ?_⟩
    rintro ⟨keeps, lastSlot⟩
    refine keeps.longsStay fails ?_
    rintro other i - also differ equal
    obtain ⟨_, small, first⟩ := longRefused_false.mp also
    rw [KeepsFields] at keeps
    have slots : slotOf other.toNat = slotOf hwnd.toNat := by omega
    exact differ.elim (fun h => h slots) fun h => h (BitVec.eq_of_toInt_eq (by omega))

/-- A mapped arena whose first window is visible. -/
def visibleHead : UserPort :=
  ⟨fun _ => true, store (fun _ => 0) (0x1300200 + wndStyleOff) 4 wsVisible, []⟩

/-- Long 5 of the first window is its style: the service returns it and clears it. -/
theorem style_is_long_five :
    ¬LongsStay IsLong visibleHead 0x10001#64 5#32 ∧
    let set := ntUserSetWindowLong visibleHead fun k => [0x10001#64, 5#64, 0#64].getD k 0
    set.1 = BitVec.ofNat 64 wsVisible ∧
      load set.2.bytes (0x1300200 + wndStyleOff) 4 = 0 := by
  refine ⟨fun stay => ?_, by decide, by decide⟩
  have keeps := stay.keepsFields (by unfold SetFails; decide)
  revert keeps
  unfold KeepsFields
  decide

end User
