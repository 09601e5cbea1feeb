import Svindows.Cm.ValueQueries

/-!
# Registry values through advapi32

`RegSetValueExA/W` and `RegQueryValueExA/W` of `advapi32.c`. The query asks the
kernel for the value into a local buffer of 512 bytes and then copies as many
bytes as the reply's `DataLength` says, while the kernel has copied at most 497.

The locals of a call are addresses in the caller's memory; an out parameter is
what the call stores there, if it is not NULL.
-/

namespace Advapi32

open Nt Mm ByteMemory Cm

def errorSuccess : Nat := 0
def errorFileNotFound : Nat := 2
def keyValuePartialInformation : UInt64 := 2

/-- `sizeof(buf)`. -/
def bufferSize : Nat := 512

/-- Where the locals of a call lie, and the empty literals. They are different
objects, so the buffer and ResultLength do not overlap. -/
structure Frame where
  wbuf : UInt64
  name : UInt64
  buf : UInt64
  resultLen : UInt64
  literal : UInt64
  apart : resultLen.toNat + 4 ≤ buf.toNat ∨ buf.toNat + bufferSize ≤ resultLen.toNat

/-- The loop of `widen`, with `cap - 1 - n` rounds left. -/
def widenLoop (w : Nat) : Nat → Memory → Nat → Nat → Memory × Nat
  | 0, m, _, n => (m, n)
  | left + 1, m, s, n =>
    if m s = 0 then (m, n)
    else widenLoop w left (store m (w + 2 * n) 2 (m s).toNat) (s + 1) (n + 1)

/-- Widen an ASCII string into `w`; NULL is the empty literal. -/
def widen (m : Memory) (w s cap : Nat) : Memory × Nat :=
  let widened := if s = 0 then (m, 0) else widenLoop w (cap - 1) m s 0
  (store widened.1 (w + 2 * widened.2) 2 0, widened.2)

def wideLenLoop (m : Memory) (s : Nat) : Nat → Nat
  | 0 => 0
  | fuel + 1 => if load m s 2 = 0 then 0 else wideLenLoop m (s + 2) fuel + 1

/-- The length of a wide string, which an `int` counts. -/
def wideLen (m : Memory) (s : Nat) : Nat := if s = 0 then 0 else wideLenLoop m s (2 ^ 31 - 1)

def initUstr (m : Memory) (u buf chars : Nat) : Memory :=
  store (store (store m u 2 (chars * 2)) (u + 2) 2 (chars * 2 + 2)) (u + 8) 8 buf

/-- The memory once the UNICODE_STRING of the value name is built, by the A and by
the W function. -/
def nameBuilt (wide : Bool) (m : Memory) (f : Frame) (valueName : UInt64) : Memory :=
  if wide then
    initUstr m f.name.toNat (if valueName = 0 then f.literal else valueName).toNat
      (wideLen m valueName.toNat)
  else
    let widened := widen m f.wbuf.toNat valueName.toNat 128
    initUstr widened.1 f.name.toNat f.wbuf.toNat widened.2

/-- The world at the system call. -/
def atSyscall (w : CmWorld) (m : Memory) : CmWorld :=
  { w with user := ⟨w.user.present, m, []⟩ }

def setSyscall (wide : Bool) (w : CmWorld) (f : Frame) (valueName : UInt64) : CmWorld :=
  atSyscall w (nameBuilt wide w.user.bytes f valueName)

def setArgs (f : Frame) (hKey type data cbData : UInt64) : Args := fun i =>
  match i with
  | 0 => hKey
  | 1 => f.name
  | 3 => type
  | 4 => data
  | 5 => cbData
  | _ => 0

/-- `RegSetValueExA` and `RegSetValueExW`. -/
def regSetValueEx (wide : Bool) (w : CmWorld) (f : Frame) (hKey valueName : UInt64)
    (type : UInt32) (data : UInt64) (cbData : UInt32) (room : CallRoom) : Nat × CmWorld :=
  let done := ntSetValueKey (setSyscall wide w f valueName)
    (setArgs f hKey type.toUInt64 data cbData.toUInt64) room
  (if ntSuccess done.1 then errorSuccess else errorFileNotFound, done.2)

def querySyscall (wide : Bool) (w : CmWorld) (f : Frame) (valueName : UInt64) : CmWorld :=
  atSyscall w (store (nameBuilt wide w.user.bytes f valueName) f.resultLen.toNat 4 0)

def queryArgs (f : Frame) (hKey : UInt64) : Args := fun i =>
  match i with
  | 0 => hKey
  | 1 => f.name
  | 2 => keyValuePartialInformation
  | 3 => f.buf
  | 4 => UInt64.ofNat bufferSize
  | 5 => f.resultLen
  | _ => 0

/-- What a query hands back, and the addresses of its buffer that it read. -/
structure QueryResult where
  status : Nat
  type : Option Nat
  data : List UInt8
  cbData : Option Nat
  reads : List Nat

def addresses (va len : Nat) : List Nat := (List.range len).map fun i => va + i

/-- What the query does with the reply in its buffer. `wantsType` and `wantsData` say
that the pointers are not NULL, and `cbData` is the caller's size, if it has one. -/
def takeReply (m : Memory) (buf : Nat) (wantsType wantsData : Bool) (cbData : Option UInt32) :
    QueryResult :=
  let dataLength := load m (buf + 8) 4
  let copy :=
    match wantsData, cbData with
    | true, some n => if n.toNat < dataLength then n.toNat else dataLength
    | _, _ => 0
  { status := errorSuccess
    type := if wantsType then some (load m (buf + 4) 4) else none
    data := (addresses (buf + dataOffset) copy).map m
    cbData := cbData.map fun _ => dataLength
    reads := (if wantsType then addresses (buf + 4) 4 else []) ++
      (if cbData.isSome then addresses (buf + 8) 4 else []) ++ addresses (buf + dataOffset) copy }

/-- `RegQueryValueExA` and `RegQueryValueExW`. -/
def regQueryValueEx (wide : Bool) (w : CmWorld) (f : Frame) (hKey valueName : UInt64)
    (wantsType wantsData : Bool) (cbData : Option UInt32) : QueryResult × CmWorld :=
  let done := ntQueryValueKey (querySyscall wide w f valueName) (queryArgs f hKey)
  if ntSuccess done.1 = false then (⟨errorFileNotFound, none, [], none, []⟩, done.2)
  else (takeReply done.2.user.bytes f.buf.toNat wantsType wantsData cbData, done.2)

/-- Only bytes of the buffer that the kernel wrote are read, and with success the
caller gets the first bytes of the stored data, as many as fit. -/
structure ReturnsStored (r : QueryResult) (log : List Touch) (buf : Nat) (wantsData : Bool)
    (cbData : Option UInt32) (data : Text) : Prop where
  reads : ∀ a ∈ r.reads, (buf ≤ a ∧ a < buf + bufferSize) ∧
    ∃ va len, .wrote va len ∈ log ∧ va ≤ a ∧ a < va + len
  stored : r.status = errorSuccess → wantsData = true → ∀ n, cbData = some n →
    r.data = data.take (min n.toNat data.length)

/-- The caller wants, and the value has, more bytes than the kernel copies. -/
def Overruns (w : CmWorld) (f : Frame) (wantsData : Bool) (cbData : Option UInt32) (size : Nat) :
    Prop :=
  wantsData = true ∧ (∃ n, cbData = some n ∧ bufferSize - partialHeader < min n.toNat size) ∧
    f.buf.toNat ≠ 0 ∧ w.user.accepts f.buf.toNat bufferSize = true

theorem mem_addresses {va len a : Nat} : a ∈ addresses va len ↔ va ≤ a ∧ a < va + len := by
  simp only [addresses, List.mem_map, List.mem_range]
  constructor
  · rintro ⟨i, hi, rfl⟩
    omega
  · rintro ⟨lo, hi⟩
    exact ⟨a - va, by omega, by omega⟩

variable {u : UserPort} {v : CmValue}

/-- The writes of a query that succeeds. -/
theorem filled_writes {info length copy resultLen va len : Nat}
    (clean : ∀ va len, .wrote va len ∉ u.log) :
    .wrote va len ∈ (filled (afterResult u v resultLen) v info length copy).log →
      (va = info + dataOffset ∧ len = copy) ∨ (info ≤ va ∧ va + len ≤ info + dataOffset) ∨
        (va = resultLen ∧ len = 4) := by
  have offset : dataOffset = 12 := rfl
  intro wrote
  simp only [filled, UserPort.copyOut, UserPort.write, UserPort.probed, List.mem_cons,
    Touch.wrote.injEq, reduceCtorEq, false_or] at wrote
  rcases wrote with ⟨rfl, rfl⟩ | ⟨rfl, rfl⟩ | ⟨rfl, rfl⟩ | ⟨rfl, rfl⟩ | before
  · exact .inl ⟨rfl, rfl⟩
  · exact .inr (.inl (by omega))
  · exact .inr (.inl (by omega))
  · exact .inr (.inl (by omega))
  · right; right
    simp only [afterResult] at before
    split at before
    · simp only [UserPort.write, UserPort.probed, List.mem_cons, Touch.wrote.injEq, reduceCtorEq,
        false_or] at before
      rcases before with same | before
      · exact same
      · exact absurd before (clean va len)
    · exact absurd before (clean va len)

/-- The header and the copied data were written. -/
theorem filled_written {info length copy resultLen a : Nat}
    (lo : info ≤ a) (hi : a < info + dataOffset + copy) :
    ∃ va len, .wrote va len ∈ (filled (afterResult u v resultLen) v info length copy).log ∧
      va ≤ a ∧ a < va + len := by
  have offset : dataOffset = 12 := rfl
  have log : ∃ rest, (filled (afterResult u v resultLen) v info length copy).log =
      .wrote (info + dataOffset) copy :: .wrote (info + 8) 4 :: .wrote (info + 4) 4 ::
        .wrote info 4 :: rest := ⟨_, rfl⟩
  obtain ⟨rest, log⟩ := log
  rw [log]
  by_cases data : info + dataOffset ≤ a
  · exact ⟨_, _, by simp, data, hi⟩
  by_cases length : info + 8 ≤ a
  · exact ⟨info + 8, 4, by simp, length, by omega⟩
  by_cases type : info + 4 ≤ a
  · exact ⟨info + 4, 4, by simp, type, by omega⟩
  · exact ⟨info, 4, by simp, lo, by omega⟩

theorem ntSetValueKey_ok {w : CmWorld} {args : Args} {room : CallRoom}
    (ok : ntSuccess (ntSetValueKey w args room).1 = true) :
    (ntSetValueKey w args room).1 = statusSuccess := by
  revert ok
  simp only [ntSetValueKey]
  generalize cmKeyFromHandle w (args 0).toNat = resolved
  obtain ⟨_ | k, w₁⟩ := resolved
  · intro no
    exact absurd no Bool.false_ne_true
  simp only
  split
  · intro no
    exact absurd no Bool.false_ne_true
  split
  · intro no
    exact absurd no Bool.false_ne_true
  generalize ((List.range (args 5).toUInt32.toNat).map _) = data
  intro ok
  rcases cmSetValue_status w₁.registry k _ (args 3).toUInt32 data room.copy room.value with
    done | failed
  · exact done
  · rw [failed] at ok
    exact absurd ok Bool.false_ne_true

theorem copied_data {info length copy n : Nat} (within : n ≤ copy) (short : n ≤ v.data.length) :
    (addresses (info + dataOffset) n).map (filled u v info length copy).bytes = v.data.take n := by
  apply List.ext_getElem
  · simp [addresses, short]
  · intro i left right
    have hi : i < n := by simpa [addresses] using left
    have byte : (filled u v info length copy).bytes (info + dataOffset + i) =
        v.data.getD (info + dataOffset + i - (info + dataOffset)) 0 := by
      rw [filled_bytes]
      exact if_pos ⟨by omega, by omega⟩
    have known : i < v.data.length := by omega
    simp only [addresses, List.getElem_map, List.getElem_range, List.getElem_take, byte,
      Nat.add_sub_cancel_left]
    rw [List.getD_eq_getElem?_getD, List.getElem?_eq_getElem known, Option.getD_some]

/-- The bytes that a query takes out of its buffer. -/
def taken (wantsData : Bool) (cbData : Option UInt32) (size : Nat) : Nat :=
  match wantsData, cbData with
  | true, some n => min n.toNat size
  | _, _ => 0

theorem takeReply_eq {m : Memory} {buf size : Nat} (counted : load m (buf + 8) 4 = size)
    (wantsType wantsData : Bool) (cbData : Option UInt32) :
    (takeReply m buf wantsType wantsData cbData).data =
        (addresses (buf + dataOffset) (taken wantsData cbData size)).map m ∧
      (takeReply m buf wantsType wantsData cbData).reads =
        (if wantsType then addresses (buf + 4) 4 else []) ++
          (if cbData.isSome then addresses (buf + 8) 4 else []) ++
          addresses (buf + dataOffset) (taken wantsData cbData size) := by
  have copy : ∀ n : UInt32, (if n.toNat < size then n.toNat else size) = min n.toNat size := by
    intro n
    split <;> omega
  simp only [takeReply, taken, counted]
  cases wantsData with
  | false => exact ⟨rfl, rfl⟩
  | true =>
    cases cbData with
    | none => exact ⟨rfl, rfl⟩
    | some n => simp only [copy, and_self]

/-- The reply to a query of `v` in the local buffer, with what the kernel copied. -/
theorem takeReply_returns {f : Frame} (small : v.data.length < 2 ^ 31)
    (clean : ∀ va len, .wrote va len ∉ u.log) (wantsType wantsData : Bool)
    (cbData : Option UInt32) :
    ReturnsStored
        (takeReply (filled (afterResult u v f.resultLen.toNat) v f.buf.toNat bufferSize
          (min (bufferSize - partialHeader) v.data.length)).bytes f.buf.toNat wantsType wantsData
          cbData)
        (filled (afterResult u v f.resultLen.toNat) v f.buf.toNat bufferSize
          (min (bufferSize - partialHeader) v.data.length)).log
        f.buf.toNat wantsData cbData v.data ↔
      taken wantsData cbData v.data.length ≤ bufferSize - partialHeader := by
  have offset : dataOffset = 12 := rfl
  have header : partialHeader = 15 := rfl
  have buffer : bufferSize = 512 := rfl
  have apart := f.apart
  obtain ⟨data, reads⟩ := takeReply_eq (filled_counted (u := afterResult u v f.resultLen.toNat)
    small (min (bufferSize - partialHeader) v.data.length)) wantsType wantsData cbData
  have limit : taken wantsData cbData v.data.length ≤ v.data.length := by
    simp only [taken]
    split <;> omega
  constructor
  · intro returns
    by_contra many
    obtain ⟨-, va, len, wrote, lo, hi⟩ := returns.reads
      (f.buf.toNat + dataOffset + (bufferSize - partialHeader)) (by
        rw [reads]
        refine List.mem_append_right _ (mem_addresses.mpr ?_)
        omega)
    rcases filled_writes clean wrote with ⟨rfl, rfl⟩ | ⟨-, below⟩ | ⟨rfl, rfl⟩
    · omega
    · omega
    · omega
  · intro few
    constructor
    · intro a read
      have place : f.buf.toNat ≤ a ∧
          a < f.buf.toNat + dataOffset + taken wantsData cbData v.data.length := by
        rw [reads] at read
        rcases List.mem_append.mp read with read | read
        · rcases List.mem_append.mp read with read | read
          · split at read
            · have := mem_addresses.mp read
              omega
            · exact absurd read List.not_mem_nil
          · split at read
            · have := mem_addresses.mp read
              omega
            · exact absurd read List.not_mem_nil
        · have := mem_addresses.mp read
          omega
      exact ⟨⟨place.1, by omega⟩, filled_written place.1 (by omega)⟩
    · intro _ wanted n size
      subst wanted size
      rw [data]
      exact copied_data (by omega) limit

theorem regQueryValueEx_returns {wide : Bool} {w : CmWorld} {f : Frame} {hKey valueName : UInt64}
    {k : Nat} {n : Text} (key : (cmKeyFromHandle w hKey.toNat).1 = some k)
    (name : (mmCaptureUnicodeName (querySyscall wide w f valueName).user f.name.toNat
      valueNameBuffer).1 = some n)
    (found : cmFindValue w.registry k n = some v) (small : v.data.length < 2 ^ 31)
    (wantsType wantsData : Bool) (cbData : Option UInt32) :
    ReturnsStored (regQueryValueEx wide w f hKey valueName wantsType wantsData cbData).1
        (regQueryValueEx wide w f hKey valueName wantsType wantsData cbData).2.user.log
        f.buf.toNat wantsData cbData v.data ↔
      ¬ Overruns w f wantsData cbData v.data.length := by
  have buffer : bufferSize = 512 := rfl
  have header : partialHeader = 15 := rfl
  have key' : (cmKeyFromHandle (querySyscall wide w f valueName) (queryArgs f hKey 0).toNat).1 =
      some k := (cmKeyFromHandle_user w _ _).trans key
  obtain ⟨u, -, -, writes, outcome⟩ := ntQueryValueKey_cases key' name found small
  have clean : ∀ va len, .wrote va len ∉ u.log := by
    intro va len
    rw [writes]
    exact List.not_mem_nil
  have length : (queryArgs f hKey 4).toUInt32.toNat = bufferSize := rfl
  rw [length] at outcome
  have quiet : ReturnsStored ⟨errorFileNotFound, none, [], none, []⟩
      (ntQueryValueKey (querySyscall wide w f valueName) (queryArgs f hKey)).2.user.log
      f.buf.toNat wantsData cbData v.data :=
    ⟨fun a read => absurd read List.not_mem_nil, fun no => absurd no (by decide)⟩
  simp only [regQueryValueEx]
  rcases outcome with ⟨refused, status, -⟩ | ⟨refused, status, -⟩ | ⟨some, -, accepted, status, user⟩
  · rw [status, if_pos (by decide)]
    refine iff_of_true quiet ?_
    rintro ⟨-, -, some, -⟩
    rcases refused with null | short
    · exact some null
    · omega
  · rw [status, if_pos (by decide)]
    refine iff_of_true quiet ?_
    rintro ⟨-, -, -, accepted⟩
    exact absurd (refused.symm.trans accepted) Bool.false_ne_true
  · rw [status, if_neg (by decide)]
    simp only [user]
    rw [show (queryArgs f hKey 3).toNat = f.buf.toNat from rfl,
      show (queryArgs f hKey 5).toNat = f.resultLen.toNat from rfl,
      takeReply_returns small clean]
    constructor
    · rintro few ⟨wanted, ⟨n, size, many⟩, -⟩
      subst wanted size
      simp only [taken] at few
      omega
    · intro fits
      by_contra many
      refine fits ?_
      cases wantsData with
      | false => simp [taken] at many
      | true =>
        cases cbData with
        | none => simp [taken] at many
        | some n => exact ⟨rfl, ⟨n, rfl, not_le.mp many⟩, some, accepted⟩

/-- A query delivers stored bytes only, unless the caller wants and the value has
more than the 497 bytes that the kernel copies into the local buffer. -/
theorem value_query_returns_stored {wide wide' : Bool} {w w' w₂ : CmWorld} {f f₂ : Frame}
    {hKey hKey₂ valueName valueName₂ data : UInt64} {type cb : UInt32} {room : CallRoom}
    (set : regSetValueEx wide w f hKey valueName type data cb room = (errorSuccess, w'))
    (small : cb.toNat < 2 ^ 31) (stored : w₂.registry = w'.registry)
    (key : (cmKeyFromHandle w₂ hKey₂.toNat).1 = (cmKeyFromHandle w hKey.toNat).1)
    (name : (mmCaptureUnicodeName (querySyscall wide' w₂ f₂ valueName₂).user f₂.name.toNat
        valueNameBuffer).1 =
      (mmCaptureUnicodeName (setSyscall wide w f valueName).user f.name.toNat valueNameBuffer).1)
    (wantsType wantsData : Bool) (cbData : Option UInt32) :
    ReturnsStored
        (regQueryValueEx wide' w₂ f₂ hKey₂ valueName₂ wantsType wantsData cbData).1
        (regQueryValueEx wide' w₂ f₂ hKey₂ valueName₂ wantsType wantsData cbData).2.user.log
        f₂.buf.toNat wantsData cbData
        (bytesFrom (setSyscall wide w f valueName).user.bytes data.toNat cb.toNat) ↔
      ¬ Overruns w₂ f₂ wantsData cbData cb.toNat := by
  have ok : ntSuccess (ntSetValueKey (setSyscall wide w f valueName)
      (setArgs f hKey type.toUInt64 data cb.toUInt64) room).1 = true := by
    by_contra failed
    have status := congrArg Prod.fst set
    simp only [regSetValueEx, failed] at status
    exact absurd status (by decide)
  have after := congrArg Prod.snd set
  have done : ntSetValueKey (setSyscall wide w f valueName)
      (setArgs f hKey type.toUInt64 data cb.toUInt64) room = (statusSuccess, w') :=
    Prod.ext (ntSetValueKey_ok ok) after
  obtain ⟨k, n, resolved, got, valueSet⟩ := ntSetValueKey_success done
  have resolved' : (cmKeyFromHandle w hKey.toNat).1 = some k :=
    (cmKeyFromHandle_user w _ _).symm.trans resolved
  obtain ⟨v, found, -, filled⟩ := valueSet.new
  rw [← stored] at found
  have count : (setArgs f hKey type.toUInt64 data cb.toUInt64 5).toUInt32 = cb := by
    simp [setArgs]
  rw [count] at filled
  have bytes : v.data = bytesFrom (setSyscall wide w f valueName).user.bytes data.toNat cb.toNat :=
    filled
  have size : v.data.length = cb.toNat := by simp [bytes, bytesFrom]
  rw [← bytes, ← size]
  exact regQueryValueEx_returns (key.trans resolved') (name.trans got) found (size ▸ small)
    wantsType wantsData cbData

/-- A frame whose locals lie one page apart. -/
def farFrame : Frame := ⟨0x1000, 0x2000, 0x3000, 0x4000, 0x5000, by decide⟩

/-- A value name `a` at 0x6000, stored by its A function with data from 0x7000 on. -/
def nameAtSix : UserPort := sparseMemory [(0x6000, 0x61)]

/-- The world after `size` bytes have been stored under the name. -/
def storedWorld (size : UInt32) : Nat × CmWorld :=
  regSetValueEx false (freshWorld nameAtSix) farFrame 0 0x6000 3 0x7000 size objectRoom

/-- A value of 498 bytes: the query reads the last one, at 0x31FD, from a byte of its
buffer that the kernel did not write. -/
theorem long_query_reads_unwritten :
    (storedWorld 498).1 = errorSuccess ∧
      ¬ ReturnsStored
        (regQueryValueEx false (storedWorld 498).2 farFrame 0 0x6000 false true (some 498)).1
        (regQueryValueEx false (storedWorld 498).2 farFrame 0 0x6000 false true
          (some 498)).2.user.log
        0x3000 true (some 498) (List.replicate 498 0) := by
  refine ⟨by decide +kernel, ?_⟩
  intro returns
  obtain ⟨-, va, len, wrote, lo, hi⟩ := returns.reads 0x31FD (by decide +kernel)
  have log : (regQueryValueEx false (storedWorld 498).2 farFrame 0 0x6000 false true
      (some 498)).2.user.log =
      [.wrote 0x300C 497, .wrote 0x3008 4, .wrote 0x3004 4, .wrote 0x3000 4, .probed 0x3000 512,
        .wrote 0x4000 4, .probed 0x4000 4, .read 0x1000 2, .probed 0x1000 2, .read 0x2008 8,
        .read 0x2000 2, .probed 0x2000 16] := by decide +kernel
  rw [log] at wrote
  simp only [List.mem_cons, Touch.wrote.injEq, reduceCtorEq, false_or, List.not_mem_nil,
    or_false] at wrote
  omega

theorem value_query_returns_stored_wide :
    ReturnsStored
      (regQueryValueEx true (storedWorld 4).2 farFrame 0 0x6000 true true (some 8)).1
      (regQueryValueEx true (storedWorld 4).2 farFrame 0 0x6000 true true (some 8)).2.user.log
      0x3000 true (some 8) [0, 0, 0, 0] := by
  have set : regSetValueEx false (freshWorld nameAtSix) farFrame 0 0x6000 3 0x7000 4 objectRoom =
      (errorSuccess, (storedWorld 4).2) := Prod.ext (by decide +kernel) rfl
  have name : (mmCaptureUnicodeName (querySyscall true (storedWorld 4).2 farFrame 0x6000).user
      farFrame.name.toNat valueNameBuffer).1 = (mmCaptureUnicodeName
      (setSyscall false (freshWorld nameAtSix) farFrame 0x6000).user farFrame.name.toNat
      valueNameBuffer).1 := by decide +kernel
  have fits : ¬ Overruns (storedWorld 4).2 farFrame true (some 8) 4 := by
    rintro ⟨-, ⟨n, size, many⟩, -⟩
    cases size
    exact absurd many (by decide)
  exact (value_query_returns_stored set (by decide) rfl rfl name true true (some 8)).mpr fits

end Advapi32
