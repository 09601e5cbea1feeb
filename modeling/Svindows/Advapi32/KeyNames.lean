import Svindows.Msvcrt.WideFormat
import Svindows.Rtl.CString

/-!
# Key names through advapi32

`build_key_name` and `build_key_name_w` of `advapi32.c`: what the A and the W functions make
of a key handle and a subkey. Predefined keys become a path from the root of the registry.
The arrays have 256 elements; a store elsewhere is `none`. A NULL string is one without
characters to both.
-/

namespace Advapi32

open Rtl Msvcrt

variable {α : Type}

def isPredefined (h : UInt64) : Bool := h &&& 0x80000000 ≠ 0

/-- `root_prefix`. A sign-extended handle is cut to 32 bits first. -/
def rootPrefix (h : UInt64) : CString :=
  let v := if h &&& 0xFFFFFFFF00000000 ≠ 0 then h &&& 0xFFFFFFFF else h
  if v = 0x80000002 then .lit "\\Registry\\Machine"
  else if v = 0x80000001 then .lit "\\Registry\\User"
  else if v = 0x80000003 then .lit "\\Registry\\User"
  else .lit "\\Registry"

def arraySize : Nat := 256

/-- `array[i] = c`. -/
def put (array : Nat → α) (i : Nat) (c : α) : Option (Nat → α) :=
  if i < arraySize then some (Function.update array i c) else none

/-- `while (*s) array[i++] = *s++`. -/
def copyLoop : List α → Nat → (Nat → α) → Option (Nat × (Nat → α))
  | [], i, array => some (i, array)
  | c :: text, i, array => (put array i c).bind (copyLoop text (i + 1))

/-- `while (*s && n < 255) array[n++] = *s++`. -/
def copyLoopBounded : List α → Nat → (Nat → α) → Option (Nat × (Nat → α))
  | [], n, array => some (n, array)
  | c :: text, n, array =>
    if n < 255 then (put array n c).bind (copyLoopBounded text (n + 1)) else some (n, array)

/-- The backslash and the subkey, if there is one. -/
def separated (backslash : α) (subKey : List α) : List α :=
  if subKey.isEmpty then [] else backslash :: subKey

def subKeyText (subKey : Option CString) : List UInt8 := (subKey.map (·.bytes)).getD []
def subKeyUnits (subKey : Option WideString) : List UInt16 := (subKey.map (·.units)).getD []

/-- The loop of `widen`, with `cap - 1 - n` turns left. -/
def widenTurns (s : Nat → UInt8) : Nat → Nat → (Nat → UInt16) → Option (Nat × (Nat → UInt16))
  | 0, n, w => some (n, w)
  | turns + 1, n, w =>
    if s n = 0 then some (n, w) else (put w n (s n).toUInt16).bind (widenTurns s turns (n + 1))

/-- `widen(w, s, 256)`. -/
def widenArray (w : Nat → UInt16) (s : Nat → UInt8) : Option (Nat × (Nat → UInt16)) := do
  let (n, w) ← widenTurns s (arraySize - 1) 0 w
  let w ← put w n 0
  return (n, w)

/-- A RootDirectory and a UNICODE_STRING. -/
structure KeyName where
  root : UInt64
  length : UInt16
  maximumLength : UInt16
  buffer : Nat → UInt16

/-- `init_ustr` beside the RootDirectory. -/
def keyName (root : UInt64) (w : Nat → UInt16) (chars : Nat) : KeyName :=
  ⟨root, UInt16.ofNat (chars * 2), UInt16.ofNat (chars * 2 + 2), w⟩

/-- The `path` of a predefined key. -/
def buildPath (h : UInt64) (subKey : Option CString) (path : Nat → UInt8) :
    Option (Nat → UInt8) := do
  let (i, path) ← copyLoop (rootPrefix h).bytes 0 path
  let (i, path) ← copyLoop (separated 0x5C (subKeyText subKey)) i path
  put path i 0

def buildKeyName (h : UInt64) (subKey : Option CString) (path : Nat → UInt8)
    (wbuf : Nat → UInt16) : Option KeyName :=
  if isPredefined h then do
    let path ← buildPath h subKey path
    let (n, w) ← widenArray wbuf path
    return keyName 0 w n
  else do
    let (n, w) ← widenArray wbuf fun i => (subKeyText subKey).getD i 0
    return keyName h w n

def buildKeyNameW (h : UInt64) (subKey : Option WideString) (wbuf : Nat → UInt16) :
    Option KeyName :=
  if isPredefined h then do
    let (n, w) ← copyLoopBounded ((rootPrefix h).bytes.map UInt8.toUInt16) 0 wbuf
    let (n, w) ← copyLoopBounded (separated 0x5C (subKeyUnits subKey)) n w
    let w ← put w n 0
    return keyName 0 w n
  else do
    let (n, w) ← copyLoopBounded (subKeyUnits subKey) 0 wbuf
    let w ← put w n 0
    return keyName h w n

/-- The first `n` elements of an array. -/
def held (array : Nat → α) (n : Nat) : List α := (List.range n).map array

/-- The name that the length counts. -/
def KeyName.counted (k : KeyName) : List UInt16 := held k.buffer (k.length.toNat / 2)

/-- A string in `WCHAR`s. -/
def widened (s : CString) : WideString where
  units := s.bytes.map UInt8.toUInt16
  noNul member := by
    obtain ⟨c, inside, zero⟩ := List.mem_map.mp member
    obtain rfl : c = 0 := UInt8.toNat_inj.mp (congrArg UInt16.toNat zero)
    exact s.noNul inside

/-- Both keep inside their arrays, and they agree on an ASCII subkey. -/
def KeyNamesAgree (h : UInt64) (subKey : Option CString) : Prop :=
  ∀ path wbuf wbuf', ∃ a w, buildKeyName h subKey path wbuf = some a ∧
    buildKeyNameW h (subKey.map widened) wbuf' = some w ∧
    ((∀ c ∈ subKeyText subKey, c < 128) →
      a.root = w.root ∧ a.length = w.length ∧ a.counted = w.counted)

section Arrays

variable {array : Nat → α}

theorem put_some {i : Nat} (inside : i < arraySize) (c : α) :
    put array i c = some (Function.update array i c) := if_pos inside

theorem held_update_last (array : Nat → α) (n : Nat) (c : α) :
    held (Function.update array n c) n = held array n :=
  List.map_congr_left fun _ less =>
    Function.update_of_ne (Nat.ne_of_lt (List.mem_range.mp less)) ..

theorem held_update (array : Nat → α) (n : Nat) (c : α) :
    held (Function.update array n c) (n + 1) = held array n ++ [c] := by
  rw [held, List.range_succ, List.map_append, ← held, held_update_last, List.map_singleton,
    Function.update_self]

theorem copyLoop_some (more : List α) {n : Nat} (array : Nat → α)
    (fits : n + more.length ≤ arraySize) :
    ∃ array', copyLoop more n array = some (n + more.length, array') ∧
      held array' (n + more.length) = held array n ++ more := by
  induction more generalizing n array with
  | nil => exact ⟨array, rfl, (List.append_nil _).symm⟩
  | cons c more ih =>
    rw [List.length_cons] at fits
    obtain ⟨array', run, contents⟩ := ih (n := n + 1) (Function.update array n c) (by omega)
    have sum : n + 1 + more.length = n + (c :: more).length := by
      rw [List.length_cons]
      omega
    rw [sum] at run contents
    refine ⟨array', ?_, ?_⟩
    · rw [copyLoop, put_some (by omega), Option.bind_some, run]
    · rw [contents, held_update, List.append_assoc, List.singleton_append]

theorem copyLoop_none (more : List α) {n : Nat} (array : Nat → α) (inside : n ≤ arraySize)
    (long : arraySize < n + more.length) : copyLoop more n array = none := by
  induction more generalizing n array with
  | nil =>
    rw [List.length_nil] at long
    omega
  | cons c more ih =>
    rw [List.length_cons] at long
    rw [copyLoop, put]
    split_ifs with room
    · exact ih _ (by omega) (by omega)
    · rfl

/-- The bounded loop keeps what fits below 255. -/
theorem copyLoopBounded_some (more : List α) {n : Nat} (array : Nat → α) (inside : n ≤ 255) :
    ∃ array', copyLoopBounded more n array = some (min 255 (n + more.length), array') ∧
      held array' (min 255 (n + more.length)) = held array n ++ more.take (255 - n) := by
  induction more generalizing n array with
  | nil =>
    have last : min 255 (n + ([] : List α).length) = n := by
      rw [List.length_nil]
      omega
    rw [last, List.take_nil, List.append_nil]
    exact ⟨array, rfl, rfl⟩
  | cons c more ih =>
    rw [copyLoopBounded]
    split_ifs with room
    · obtain ⟨array', run, contents⟩ := ih (n := n + 1) (Function.update array n c) (by omega)
      have sum : n + 1 + more.length = n + (c :: more).length := by
        rw [List.length_cons]
        omega
      have left : 255 - n = 255 - (n + 1) + 1 := by omega
      rw [sum] at run contents
      refine ⟨array', ?_, ?_⟩
      · rw [put_some (Nat.lt_succ_of_lt room), Option.bind_some, run]
      · rw [contents, held_update, List.append_assoc, left, List.take_succ_cons,
          List.singleton_append]
    · have last : min 255 (n + (c :: more).length) = n := by omega
      have none_ : 255 - n = 0 := by omega
      rw [last, none_, List.take_zero, List.append_nil]
      exact ⟨array, rfl, rfl⟩

theorem copyLoopBounded_full (more : List α) (array : Nat → α) :
    copyLoopBounded more 255 array = some (255, array) := by
  cases more <;> rfl

theorem copyLoopBounded_append (first more : List α) {n : Nat} (array : Nat → α)
    (inside : n ≤ 255) : copyLoopBounded (first ++ more) n array =
      (copyLoopBounded first n array).bind fun (n, array) => copyLoopBounded more n array := by
  induction first generalizing n array with
  | nil => rfl
  | cons c first ih =>
    rw [List.cons_append, copyLoopBounded, copyLoopBounded]
    split_ifs with room
    · rw [put_some (Nat.lt_succ_of_lt room), Option.bind_some, Option.bind_some, ih _ room]
    · obtain rfl : n = 255 := by omega
      exact (copyLoopBounded_full more array).symm

end Arrays

/-- An array that holds a text with its NUL. -/
structure Reads (s : Nat → UInt8) (text : List UInt8) : Prop where
  units : held s text.length = text
  nul : s text.length = 0
  noNul : 0 ∉ text

theorem Reads.here {s : Nat → UInt8} {text : List UInt8} (reads : Reads s text) {n : Nat}
    (less : n < text.length) : text[n] = s n := by
  have unit := List.getElem_of_eq reads.units (by simpa [held] using less)
  rw [← unit]
  simp [held]

theorem widenTurns_eq {s : Nat → UInt8} {text : List UInt8} (reads : Reads s text)
    {turns n : Nat} (w : Nat → UInt16) (sum : n + turns = 255) (before : n ≤ text.length) :
    widenTurns s turns n w = copyLoopBounded ((text.drop n).map UInt8.toUInt16) n w := by
  induction turns generalizing n w with
  | zero =>
    obtain rfl : n = 255 := sum
    rw [widenTurns, copyLoopBounded_full]
  | succ turns ih =>
    rw [widenTurns]
    rcases Nat.eq_or_lt_of_le before with rfl | less
    · rw [if_pos reads.nul, List.drop_length]
      rfl
    · have here := reads.here less
      have nonzero : s n ≠ 0 := fun zero => reads.noNul (by
        rw [← zero, ← here]
        exact List.getElem_mem less)
      rw [if_neg nonzero, List.drop_eq_getElem_cons less, List.map_cons, copyLoopBounded,
        if_pos (by omega), here, put_some (by show n < 256; omega), Option.bind_some,
        Option.bind_some, ih _ (by omega) less]

/-- What all four ways come to: the units that fit, and a NUL. -/
def named (root : UInt64) (units : List UInt16) (wbuf : Nat → UInt16) : Option KeyName := do
  let (n, w) ← copyLoopBounded units 0 wbuf
  let w ← put w n 0
  return keyName root w n

theorem named_some (root : UInt64) (units : List UInt16) (wbuf : Nat → UInt16) :
    ∃ k, named root units wbuf = some k ∧ k.root = root ∧
      k.length = UInt16.ofNat (min 255 units.length * 2) ∧ k.counted = units.take 255 := by
  obtain ⟨w, run, contents⟩ := copyLoopBounded_some units wbuf (Nat.zero_le 255)
  rw [Nat.zero_add] at run contents
  have room : min 255 units.length < arraySize := by
    show _ < 256
    omega
  refine ⟨keyName root (Function.update w (min 255 units.length) 0) (min 255 units.length),
    ?_, rfl, rfl, ?_⟩
  · simp [named, run, put_some room]
  · have chars : (UInt16.ofNat (min 255 units.length * 2)).toNat / 2 = min 255 units.length := by
      rw [UInt16.toNat_ofNat']
      omega
    rw [KeyName.counted, keyName, chars, held_update_last, contents]
    rfl

theorem widenArray_named {s : Nat → UInt8} {text : List UInt8} (reads : Reads s text)
    (root : UInt64) (wbuf : Nat → UInt16) :
    (do let (n, w) ← widenArray wbuf s; return keyName root w n) =
      named root (text.map UInt8.toUInt16) wbuf := by
  simp only [widenArray, named, arraySize]
  rw [widenTurns_eq reads wbuf rfl (Nat.zero_le _), List.drop_zero]
  simp [Option.bind_assoc]

/-- The path of a predefined key. -/
def pathText (h : UInt64) (subKey : Option CString) : List UInt8 :=
  (rootPrefix h).bytes ++ separated 0x5C (subKeyText subKey)

theorem noNul_subKeyText (subKey : Option CString) : 0 ∉ subKeyText subKey := by
  cases subKey with
  | none => exact List.not_mem_nil
  | some s => exact s.noNul

theorem noNul_pathText (h : UInt64) (subKey : Option CString) : 0 ∉ pathText h subKey := by
  intro member
  rcases List.mem_append.mp member with first | rest
  · exact (rootPrefix h).noNul first
  · rw [separated] at rest
    split at rest
    · cases rest
    · rcases List.mem_cons.mp rest with zero | inside
      · exact absurd zero (by decide)
      · exact noNul_subKeyText subKey inside

theorem rootPrefix_length (h : UInt64) : (rootPrefix h).bytes.length ≤ 17 := by
  simp only [rootPrefix]
  split_ifs <;> decide

variable {h : UInt64} {subKey : Option CString}

/-- The path is built exactly if it fits with its NUL. -/
theorem buildPath_some (path : Nat → UInt8) (fits : (pathText h subKey).length < arraySize) :
    ∃ path', buildPath h subKey path = some path' ∧ Reads path' (pathText h subKey) := by
  have length : (pathText h subKey).length = (rootPrefix h).bytes.length +
      (separated 0x5C (subKeyText subKey)).length := List.length_append
  obtain ⟨first, run, start⟩ := copyLoop_some (rootPrefix h).bytes path
    (n := 0) (by omega)
  obtain ⟨second, run', whole⟩ := copyLoop_some (separated 0x5C (subKeyText subKey)) first
    (n := 0 + (rootPrefix h).bytes.length) (by omega)
  rw [start] at whole
  rw [Nat.zero_add, ← length] at run' whole
  refine ⟨Function.update second (pathText h subKey).length 0, ?_, ?_, Function.update_self ..,
    noNul_pathText h subKey⟩
  · simp [buildPath, run, run', put_some fits]
  · rw [held_update_last, whole]
    rfl

theorem buildPath_none (path : Nat → UInt8)
    (long : arraySize ≤ (pathText h subKey).length) : buildPath h subKey path = none := by
  have length : (pathText h subKey).length = (rootPrefix h).bytes.length +
      (separated 0x5C (subKeyText subKey)).length := List.length_append
  have short := rootPrefix_length h
  have size : arraySize = 256 := rfl
  obtain ⟨first, run, -⟩ := copyLoop_some (rootPrefix h).bytes path (n := 0) (by omega)
  rcases Nat.eq_or_lt_of_le long with full | longer
  · obtain ⟨second, run', -⟩ := copyLoop_some (separated 0x5C (subKeyText subKey)) first
      (n := 0 + (rootPrefix h).bytes.length) (by omega)
    rw [Nat.zero_add, ← length, ← full] at run'
    simp [buildPath, run, run', put]
  · have stuck := copyLoop_none (separated 0x5C (subKeyText subKey)) first
      (n := (rootPrefix h).bytes.length) (by omega) (by omega)
    simp [buildPath, run, stuck]

theorem reads_subKey (subKey : Option CString) :
    Reads (fun i => (subKeyText subKey).getD i 0) (subKeyText subKey) where
  units := by
    refine List.ext_getElem (by simp [held]) fun i less less' => ?_
    simp [held, less']
  nul := by simp
  noNul := noNul_subKeyText subKey

/-- The units of the name. -/
def nameUnits (h : UInt64) (subKey : Option WideString) : List UInt16 :=
  if isPredefined h then
    (rootPrefix h).bytes.map UInt8.toUInt16 ++ separated 0x5C (subKeyUnits subKey)
  else subKeyUnits subKey

def nameRoot (h : UInt64) : UInt64 := if isPredefined h then 0 else h

theorem buildKeyNameW_named (h : UInt64) (subKey : Option WideString) (wbuf : Nat → UInt16) :
    buildKeyNameW h subKey wbuf = named (nameRoot h) (nameUnits h subKey) wbuf := by
  rw [buildKeyNameW, nameRoot, nameUnits]
  split
  · rw [named, copyLoopBounded_append _ _ wbuf (Nat.zero_le 255)]
    simp [Option.bind_assoc]
  · rfl

theorem subKeyUnits_widened (subKey : Option CString) :
    subKeyUnits (subKey.map widened) = (subKeyText subKey).map UInt8.toUInt16 := by
  cases subKey <;> rfl

theorem separated_map (subKey : List UInt8) :
    (separated 0x5C subKey).map UInt8.toUInt16 = separated 0x5C (subKey.map UInt8.toUInt16) := by
  cases subKey <;> rfl

theorem buildKeyName_named (path : Nat → UInt8) (wbuf : Nat → UInt16)
    (fits : isPredefined h → (pathText h subKey).length < arraySize) :
    buildKeyName h subKey path wbuf =
      named (nameRoot h) (nameUnits h (subKey.map widened)) wbuf := by
  rw [buildKeyName, nameRoot, nameUnits, subKeyUnits_widened]
  split
  · next predefined =>
    obtain ⟨path', built, reads⟩ := buildPath_some path (fits predefined)
    rw [built, ← separated_map, ← List.map_append]
    exact widenArray_named reads 0 wbuf
  · exact widenArray_named (reads_subKey subKey) h wbuf

theorem buildKeyName_none (path : Nat → UInt8) (wbuf : Nat → UInt16) (predefined : isPredefined h)
    (long : arraySize ≤ (pathText h subKey).length) : buildKeyName h subKey path wbuf = none := by
  rw [buildKeyName, if_pos predefined, buildPath_none path long]
  rfl

/-- The A builder keeps to its path if and only if prefix, separator and subkey leave room for
a NUL, and then agrees with the W builder, which never leaves its array. -/
theorem keyNames_iff (h : UInt64) :
    (∀ subKey, KeyNamesAgree h subKey ↔
      (isPredefined h → (pathText h subKey).length < arraySize)) ∧
    ∀ subKey wbuf, (buildKeyNameW h subKey wbuf).isSome := by
  refine ⟨fun subKey => ⟨fun agree predefined => ?_, fun fits path wbuf wbuf' => ?_⟩,
    fun subKey wbuf => ?_⟩
  · by_contra long
    obtain ⟨a, -, built, -⟩ := agree (fun _ => 0) (fun _ => 0) fun _ => 0
    rw [buildKeyName_none _ _ predefined (Nat.not_lt.mp long)] at built
    cases built
  · obtain ⟨a, built, root, length, counted⟩ :=
      named_some (nameRoot h) (nameUnits h (subKey.map widened)) wbuf
    obtain ⟨w, built', root', length', counted'⟩ :=
      named_some (nameRoot h) (nameUnits h (subKey.map widened)) wbuf'
    refine ⟨a, w, ?_, ?_, fun _ => ⟨?_, ?_, ?_⟩⟩
    · rw [buildKeyName_named path wbuf fits, built]
    · rw [buildKeyNameW_named, built']
    · rw [root, root']
    · rw [length, length']
    · rw [counted, counted']
  · obtain ⟨k, built, -⟩ := named_some (nameRoot h) (nameUnits h subKey) wbuf
    rw [buildKeyNameW_named, built]
    rfl

/-- HKEY_LOCAL_MACHINE with a subkey of 238 characters. -/
theorem localMachine_beyond :
    ¬ KeyNamesAgree 0x80000002 (some (.ofBytes (List.replicate 238 0x61))) := by
  intro agree
  obtain ⟨a, -, built, -⟩ := agree (fun _ => 0) (fun _ => 0) fun _ => 0
  rw [buildKeyName_none _ _ rfl (by decide +kernel)] at built
  cases built

end Advapi32
