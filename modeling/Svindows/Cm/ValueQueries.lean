import Svindows.Cm.KeyHandles

/-!
# Setting and querying a value

`NtQueryValueKey` compares the buffer length with `sizeof - 1`, which is 15, while
`Data` starts at offset 12. A buffer of at least 15 bytes that is too short for the
data is still filled, partly, and the call succeeds.
-/

namespace Cm

open Nt Mm ByteMemory

/-- The bytes of a user buffer. -/
def bytesFrom (m : Memory) (va size : Nat) : Text := (List.range size).map fun i => m (va + i)

/-- The reply is in the buffer: type, length and all the data, which the call's
last write copied there. -/
structure Delivered (u : UserPort) (info : Nat) (type : UInt32) (data : Text) : Prop where
  typed : load u.bytes (info + 4) 4 = type.toNat
  counted : load u.bytes (info + 8) 4 = data.length
  bytes : ∀ i < data.length, u.bytes (info + dataOffset + i) = data.getD i 0
  copied : ∃ n rest, u.log = .wrote (info + dataOffset) n :: rest ∧ data.length ≤ n

/-- What is asked of a query of a value with this type and data. -/
structure QueryMeets (w : CmWorld) (args : Args) (type : UInt32) (data : Text) : Prop where
  complete : (ntQueryValueKey w args).1 = statusSuccess →
    Delivered (ntQueryValueKey w args).2.user (args 3).toNat type data
  tooSmall : (args 4).toUInt32.toNat < dataOffset + data.length →
    (ntQueryValueKey w args).1 ≠ statusSuccess
  /-- Only the buffer and the ResultLength change. -/
  confined : ∀ x, x < (args 3).toNat ∨ (args 3).toNat + (args 4).toUInt32.toNat ≤ x →
    x < (args 5).toNat ∨ (args 5).toNat + 4 ≤ x →
    (ntQueryValueKey w args).2.user.bytes x = w.user.bytes x
  /-- The ResultLength is reported when it does not lie in the buffer. -/
  reported : (args 5).toNat ≠ 0 → w.user.accepts (args 5).toNat 4 = true →
    (args 5).toNat + 4 ≤ (args 3).toNat ∨
      (args 3).toNat + (args 4).toUInt32.toNat ≤ (args 5).toNat →
    load (ntQueryValueKey w args).2.user.bytes (args 5).toNat 4 = partialHeader + data.length
  /-- A buffer of that length gets everything. -/
  retried : ∀ again : Args, again 0 = args 0 → again 1 = args 1 → (again 3).toNat ≠ 0 →
    (again 4).toUInt32.toNat = partialHeader + data.length →
    w.user.accepts (again 3).toNat (partialHeader + data.length) = true →
    (ntQueryValueKey w again).1 = statusSuccess ∧
      Delivered (ntQueryValueKey w again).2.user (again 3).toNat type data

/-- A buffer that gets a cut reply with success. -/
def Cut (w : CmWorld) (args : Args) (size : Nat) : Prop :=
  (args 3).toNat ≠ 0 ∧ partialHeader ≤ (args 4).toUInt32.toNat ∧
    (args 4).toUInt32.toNat < partialHeader + size ∧
    w.user.accepts (args 3).toNat (args 4).toUInt32.toNat = true

section Reply

variable {u : UserPort} {v : CmValue} {info length resultLen : Nat}

/-- The port after ResultLength has been stored, if it can be. -/
def afterResult (u : UserPort) (v : CmValue) (resultLen : Nat) : UserPort :=
  if resultLen ≠ 0 ∧ u.accepts resultLen 4 = true then
    (u.probed resultLen 4).write resultLen 4 (wrap32 (partialHeader + v.data.length))
  else u

theorem afterResult_present : (afterResult u v resultLen).present = u.present := by
  simp only [afterResult]
  split <;> rfl

theorem afterResult_outside {x : Nat} (outside : x < resultLen ∨ resultLen + 4 ≤ x) :
    (afterResult u v resultLen).bytes x = u.bytes x := by
  simp only [afterResult]
  split
  · exact store_outside outside
  · rfl

theorem afterResult_reported (small : v.data.length < 2 ^ 31) (some : resultLen ≠ 0)
    (accepted : u.accepts resultLen 4 = true) :
    load (afterResult u v resultLen).bytes resultLen 4 = partialHeader + v.data.length := by
  have header : partialHeader = 15 := rfl
  rw [afterResult, if_pos ⟨some, accepted⟩]
  have whole : wrap32 (partialHeader + v.data.length) = partialHeader + v.data.length :=
    Nat.mod_eq_of_lt (by omega)
  rw [whole]
  exact load_store_same (by omega)

/-- The port after the buffer has been filled with `copy` bytes of data. -/
def filled (u : UserPort) (v : CmValue) (info length copy : Nat) : UserPort :=
  ((((u.probed info length).write info 4 0).write (info + 4) 4 v.type.toNat).write (info + 8) 4
    v.data.length).copyOut (info + dataOffset) copy v.data

/-- The three outcomes of a query whose value is found. -/
theorem queryValue_eq (small : v.data.length < 2 ^ 31) (word : length < 2 ^ 32) :
    queryValue u v info length resultLen =
      if info = 0 ∨ length < partialHeader then
        (statusBufferTooSmall, afterResult u v resultLen)
      else if u.accepts info length = false then
        (statusAccessViolation, afterResult u v resultLen)
      else (statusSuccess, filled (afterResult u v resultLen) v info length
        (min (length - partialHeader) v.data.length)) := by
  have header : partialHeader = 15 := rfl
  have needed : wrap32 (partialHeader + v.data.length) = partialHeader + v.data.length :=
    Nat.mod_eq_of_lt (by omega)
  have refused : ((info = 0 ∨ length < partialHeader + v.data.length) ∧
      (info = 0 ∨ length < partialHeader)) ↔ (info = 0 ∨ length < partialHeader) := by
    constructor
    · exact And.right
    · rintro (zero | short)
      · exact ⟨.inl zero, .inl zero⟩
      · exact ⟨.inr (by omega), .inr short⟩
  have accepts : (afterResult u v resultLen).accepts info length = u.accepts info length := by
    rw [UserPort.accepts, afterResult_present, UserPort.accepts]
  have result : (if resultLen ≠ 0 ∧ u.accepts resultLen 4 = true then
      (u.probed resultLen 4).write resultLen 4 (partialHeader + v.data.length) else u) =
      afterResult u v resultLen := by
    rw [afterResult, needed]
  simp only [queryValue, needed, result, refused, accepts]
  split
  · rfl
  · rename_i long
    split
    · rfl
    · have avail : wrap32 (length + (2 ^ 32 - partialHeader)) = length - partialHeader := by
        simp only [wrap32, header]
        omega
      have copy : (if length - partialHeader < v.data.length then length - partialHeader
          else v.data.length) = min (length - partialHeader) v.data.length := by
        split <;> omega
      rw [avail, copy]
      rfl

/-- The memory with the three header words of the reply. -/
def headed (u : UserPort) (v : CmValue) (info : Nat) : Memory :=
  store (store (store u.bytes info 4 0) (info + 4) 4 v.type.toNat) (info + 8) 4 v.data.length

theorem filled_bytes (copy : Nat) : (filled u v info length copy).bytes =
    overlay (headed u v info) (fun x => v.data.getD (x - (info + dataOffset)) 0)
      (info + dataOffset) copy := rfl

theorem filled_outside {copy x : Nat} (fits : dataOffset + copy ≤ length)
    (outside : x < info ∨ info + length ≤ x) :
    (filled u v info length copy).bytes x = u.bytes x := by
  have offset : dataOffset = 12 := rfl
  rw [filled_bytes, overlay_outside (by omega), headed, store_outside (by omega),
    store_outside (by omega), store_outside (by omega)]

theorem filled_header {copy x : Nat} (before : x < info + dataOffset) :
    (filled u v info length copy).bytes x = headed u v info x := by
  rw [filled_bytes, overlay_outside (.inl before)]

/-- The reply names the whole length, however much was copied. -/
theorem filled_counted (small : v.data.length < 2 ^ 31) (copy : Nat) :
    load (filled u v info length copy).bytes (info + 8) 4 = v.data.length := by
  have offset : dataOffset = 12 := rfl
  rw [load_congr (fun x _ hx => filled_header (by omega)), headed]
  exact load_store_same (by omega)

/-- The reply is complete when all the data was copied. -/
theorem filled_delivers (small : v.data.length < 2 ^ 31) {copy : Nat} :
    Delivered (filled u v info length copy) info v.type v.data ↔ v.data.length ≤ copy := by
  have offset : dataOffset = 12 := rfl
  constructor
  · intro delivered
    obtain ⟨n, rest, log, all⟩ := delivered.copied
    have same : copy = n := by
      simp only [filled, UserPort.copyOut, List.cons.injEq, Touch.wrote.injEq] at log
      exact log.1.2
    omega
  · intro all
    refine ⟨?_, filled_counted small copy, ?_, ⟨copy, _, rfl, all⟩⟩
    · rw [load_congr (fun x _ hx => filled_header (by omega)), headed,
        load_store_outside (by omega)]
      exact load_store_same v.type.toNat_lt
    · intro i hi
      have inside : (filled u v info length copy).bytes (info + dataOffset + i) =
          v.data.getD (info + dataOffset + i - (info + dataOffset)) 0 :=
        if_pos ⟨by omega, by omega⟩
      rw [inside, Nat.add_sub_cancel_left]

end Reply

theorem captured_length (size : Nat) (units : List Nat) :
    (captured size units).length ≤ size - 1 := by
  rw [captured, List.length_map]
  exact List.length_take_le _ _

/-- A successful set stores the bytes of the caller's buffer under the captured name. -/
theorem ntSetValueKey_success {w w' : CmWorld} {args : Args} {room : CallRoom}
    (set : ntSetValueKey w args room = (statusSuccess, w')) :
    ∃ k name, (cmKeyFromHandle w (args 0).toNat).1 = some k ∧
      (mmCaptureUnicodeName w.user (args 1).toNat valueNameBuffer).1 = some name ∧
      ValueSet w.registry w'.registry k name (args 3).toUInt32
        (bytesFrom w.user.bytes (args 4).toNat (args 5).toUInt32.toNat) := by
  have invalid : statusInvalidHandle ≠ statusSuccess := by decide
  have denied : statusAccessViolation ≠ statusSuccess := by decide
  obtain ⟨-, -, registry, user⟩ := cmKeyFromHandle_frame w (args 0).toNat
  revert set
  simp only [ntSetValueKey]
  generalize cmKeyFromHandle w (args 0).toNat = resolved at registry user ⊢
  obtain ⟨_ | k, w₁⟩ := resolved
  · intro set
    exact absurd (congrArg Prod.fst set) invalid
  simp only at registry user ⊢
  rw [user, registry]
  have short : ∀ n, (mmCaptureUnicodeName w.user (args 1).toNat valueNameBuffer).1 = some n →
      n.length ≤ nameMax := by
    intro n got
    rw [mmCaptureUnicodeName_some got]
    exact captured_length _ _
  have kept := (mmCaptureUnicodeName_bytes w.user (args 1).toNat valueNameBuffer).1
  generalize mmCaptureUnicodeName w.user (args 1).toNat valueNameBuffer = got at short kept ⊢
  obtain ⟨_ | name, u⟩ := got
  · intro set
    exact absurd (congrArg Prod.fst set) denied
  simp only at short kept ⊢
  split
  · intro set
    exact absurd (congrArg Prod.fst set) denied
  intro set
  have bytes : (if (args 5).toUInt32.toNat = 0 then u
      else (u.probed (args 4).toNat (args 5).toUInt32.toNat).read (args 4).toNat
        (args 5).toUInt32.toNat).bytes = w.user.bytes := by
    split
    · exact kept
    · exact kept
  rw [bytes] at set
  refine ⟨k, name, rfl, rfl, ?_⟩
  have status := congrArg Prod.fst set
  have after := congrArg (fun p => p.2.registry) set
  exact cmSetValue_spec (short name rfl) (Prod.ext status after)

/-- A query that finds a value replies with it. -/
theorem ntQueryValueKey_found {w : CmWorld} {args : Args} {k : Nat} {name : Text} {v : CmValue}
    (key : (cmKeyFromHandle w (args 0).toNat).1 = some k)
    (got : (mmCaptureUnicodeName w.user (args 1).toNat valueNameBuffer).1 = some name)
    (found : cmFindValue w.registry k name = some v) :
    ∃ u : UserPort, u.bytes = w.user.bytes ∧ u.present = w.user.present ∧
      (∀ va len, .wrote va len ∈ u.log ↔ .wrote va len ∈ w.user.log) ∧
      (ntQueryValueKey w args).1 =
        (queryValue u v (args 3).toNat (args 4).toUInt32.toNat (args 5).toNat).1 ∧
      (ntQueryValueKey w args).2.user =
        (queryValue u v (args 3).toNat (args 4).toUInt32.toNat (args 5).toNat).2 := by
  obtain ⟨-, -, registry, user⟩ := cmKeyFromHandle_frame w (args 0).toNat
  obtain ⟨bytes, present⟩ := mmCaptureUnicodeName_bytes w.user (args 1).toNat valueNameBuffer
  refine ⟨(mmCaptureUnicodeName w.user (args 1).toNat valueNameBuffer).2, bytes, present,
    mmCaptureUnicodeName_writes w.user (args 1).toNat valueNameBuffer, ?_⟩
  simp only [ntQueryValueKey]
  generalize cmKeyFromHandle w (args 0).toNat = resolved at key registry user ⊢
  obtain ⟨k', w₁⟩ := resolved
  simp only at key registry user ⊢
  subst key
  simp only [user]
  generalize mmCaptureUnicodeName w.user (args 1).toNat valueNameBuffer = capture at got ⊢
  obtain ⟨name', u⟩ := capture
  simp only at got ⊢
  subst got
  rw [registry]
  simp only [found, and_self]

theorem ntQueryValueKey_cases {w : CmWorld} {args : Args} {k : Nat} {name : Text} {v : CmValue}
    (key : (cmKeyFromHandle w (args 0).toNat).1 = some k)
    (got : (mmCaptureUnicodeName w.user (args 1).toNat valueNameBuffer).1 = some name)
    (found : cmFindValue w.registry k name = some v) (small : v.data.length < 2 ^ 31) :
    ∃ u : UserPort, u.bytes = w.user.bytes ∧ u.present = w.user.present ∧
      (∀ va len, .wrote va len ∈ u.log ↔ .wrote va len ∈ w.user.log) ∧
      ((((args 3).toNat = 0 ∨ (args 4).toUInt32.toNat < partialHeader) ∧
          (ntQueryValueKey w args).1 = statusBufferTooSmall ∧
          (ntQueryValueKey w args).2.user = afterResult u v (args 5).toNat) ∨
        (w.user.accepts (args 3).toNat (args 4).toUInt32.toNat = false ∧
          (ntQueryValueKey w args).1 = statusAccessViolation ∧
          (ntQueryValueKey w args).2.user = afterResult u v (args 5).toNat) ∨
        ((args 3).toNat ≠ 0 ∧ partialHeader ≤ (args 4).toUInt32.toNat ∧
          w.user.accepts (args 3).toNat (args 4).toUInt32.toNat = true ∧
          (ntQueryValueKey w args).1 = statusSuccess ∧
          (ntQueryValueKey w args).2.user = filled (afterResult u v (args 5).toNat) v
            (args 3).toNat (args 4).toUInt32.toNat
            (min ((args 4).toUInt32.toNat - partialHeader) v.data.length))) := by
  obtain ⟨u, bytes, present, writes, status, user⟩ := ntQueryValueKey_found key got found
  refine ⟨u, bytes, present, writes, ?_⟩
  have accepts : u.accepts (args 3).toNat (args 4).toUInt32.toNat =
      w.user.accepts (args 3).toNat (args 4).toUInt32.toNat := by
    rw [UserPort.accepts, present, UserPort.accepts]
  rw [status, user, queryValue_eq small (args 4).toUInt32.toNat_lt, accepts]
  by_cases refused : (args 3).toNat = 0 ∨ (args 4).toUInt32.toNat < partialHeader
  · rw [if_pos refused]
    exact .inl ⟨refused, rfl, rfl⟩
  · rw [if_neg refused]
    rw [not_or, not_lt] at refused
    cases probe : w.user.accepts (args 3).toNat (args 4).toUInt32.toNat with
    | false => exact .inr (.inl ⟨rfl, rfl, rfl⟩)
    | true => exact .inr (.inr ⟨refused.1, refused.2, rfl, rfl, rfl⟩)

/-- A value that was set is returned whole by every later query, except to a buffer
of at least 15 bytes that is too short for it, which gets a part of it with success. -/
theorem value_round_trips {w w' w₂ : CmWorld} {args query : Args} {room : CallRoom}
    (set : ntSetValueKey w args room = (statusSuccess, w'))
    (small : (args 5).toUInt32.toNat < 2 ^ 31) (stored : w₂.registry = w'.registry)
    (key : (cmKeyFromHandle w₂ (query 0).toNat).1 = (cmKeyFromHandle w (args 0).toNat).1)
    (name : (mmCaptureUnicodeName w₂.user (query 1).toNat valueNameBuffer).1 =
      (mmCaptureUnicodeName w.user (args 1).toNat valueNameBuffer).1) :
    QueryMeets w₂ query (args 3).toUInt32
        (bytesFrom w.user.bytes (args 4).toNat (args 5).toUInt32.toNat) ↔
      ¬ Cut w₂ query (args 5).toUInt32.toNat := by
  obtain ⟨k, n, resolved, got, after⟩ := ntSetValueKey_success set
  rw [resolved] at key
  rw [got] at name
  obtain ⟨v, found, typed, same⟩ := after.new
  rw [← stored] at found
  have size : v.data.length = (args 5).toUInt32.toNat := by simp [same, bytesFrom]
  rw [← same, ← typed, ← size]
  rw [← size] at small
  have tooSmall : statusBufferTooSmall ≠ statusSuccess := by decide
  have denied : statusAccessViolation ≠ statusSuccess := by decide
  have header : partialHeader = 15 := rfl
  have offset : dataOffset = 12 := rfl
  obtain ⟨u, bytes, present, -, outcome⟩ := ntQueryValueKey_cases key name found small
  constructor
  · rintro meets ⟨info, long, short, accepted⟩
    rcases outcome with ⟨refused, -⟩ | ⟨refused, -⟩ | ⟨-, -, -, done, user⟩
    · omega
    · rw [accepted] at refused
      exact absurd refused.symm Bool.false_ne_true
    · have delivered := meets.complete done
      rw [user, filled_delivers small] at delivered
      omega
  · intro whole
    have enough : (ntQueryValueKey w₂ query).1 = statusSuccess →
        partialHeader + v.data.length ≤ (query 4).toUInt32.toNat := by
      intro done
      rcases outcome with ⟨-, failed, -⟩ | ⟨-, failed, -⟩ | ⟨info, long, accepted, -⟩
      · exact absurd (failed.symm.trans done) tooSmall
      · exact absurd (failed.symm.trans done) denied
      · by_contra short
        exact whole ⟨info, long, by omega, accepted⟩
    refine ⟨?_, ?_, ?_, ?_, ?_⟩
    · intro done
      have long := enough done
      rcases outcome with ⟨-, failed, -⟩ | ⟨-, failed, -⟩ | ⟨-, -, -, -, user⟩
      · exact absurd (failed.symm.trans done) tooSmall
      · exact absurd (failed.symm.trans done) denied
      · rw [user, filled_delivers small]
        omega
    · intro short done
      have := enough done
      omega
    · intro x outside away
      rcases outcome with ⟨-, -, user⟩ | ⟨-, -, user⟩ | ⟨-, long, -, done, user⟩
      · rw [user, afterResult_outside away, bytes]
      · rw [user, afterResult_outside away, bytes]
      · have := enough done
        rw [user, filled_outside (by omega) outside, afterResult_outside away, bytes]
    · intro nonzero accepted away
      have probe : u.accepts (query 5).toNat 4 = true := by
        rw [UserPort.accepts, present]
        exact accepted
      rcases outcome with ⟨-, -, user⟩ | ⟨-, -, user⟩ | ⟨-, long, -, done, user⟩
      · rw [user, afterResult_reported small nonzero probe]
      · rw [user, afterResult_reported small nonzero probe]
      · have := enough done
        rw [user, load_congr (fun x _ hx => filled_outside (by omega) (by omega)),
          afterResult_reported small nonzero probe]
    · intro again handle string info long accepted
      rw [← handle] at key
      rw [← string] at name
      obtain ⟨u', -, -, -, outcome'⟩ := ntQueryValueKey_cases key name found small
      rw [long] at outcome'
      rcases outcome' with ⟨refused, -⟩ | ⟨refused, -⟩ | ⟨-, -, -, done, user⟩
      · omega
      · rw [accepted] at refused
        exact absurd refused.symm Bool.false_ne_true
      · refine ⟨done, ?_⟩
        rw [user, filled_delivers small]
        omega

/-- A value name `a` at 0x3000 and four bytes of data at 0x5000. -/
def valueOfA : UserPort :=
  sparseMemory [(0x3000, 2), (0x3009, 0x40), (0x4000, 0x61), (0x5000, 1), (0x5001, 2),
    (0x5002, 3), (0x5003, 4)]

/-- Set the value `a` of the root to the four bytes, with type REG_BINARY. -/
def setArgs : Args := fun i =>
  if i = 1 then 0x3000 else if i = 3 then 3 else if i = 4 then 0x5000 else if i = 5 then 4 else 0

/-- Query it into a buffer at 0x6000. -/
def queryArgs (length : UInt64) : Args := fun i =>
  if i = 1 then 0x3000 else if i = 3 then 0x6000 else if i = 4 then length else 0

/-- The world after the value was set. -/
def valueWorld : CmWorld := (ntSetValueKey (freshWorld valueOfA) setArgs objectRoom).2

/-- 16 bytes hold the reply, but only the first byte of the data is copied. -/
theorem short_query_succeeds :
    (ntSetValueKey (freshWorld valueOfA) setArgs objectRoom).1 = statusSuccess ∧
      (ntQueryValueKey valueWorld (queryArgs 16)).1 = statusSuccess ∧
      ¬ QueryMeets valueWorld (queryArgs 16) 3 [1, 2, 3, 4] := by
  have done : (ntQueryValueKey valueWorld (queryArgs 16)).1 = statusSuccess := by decide
  refine ⟨by decide, done, ?_⟩
  intro meets
  have second := (meets.complete done).bytes 1 (by decide)
  exact absurd second (by decide)

theorem value_round_trips_19 :
    QueryMeets valueWorld (queryArgs 19) 3 [1, 2, 3, 4] := by
  have set : ntSetValueKey (freshWorld valueOfA) setArgs objectRoom =
      (statusSuccess, valueWorld) := Prod.ext (by decide) rfl
  have fits : ¬ Cut valueWorld (queryArgs 19) 4 := by
    rintro ⟨-, -, short, -⟩
    exact absurd short (by decide)
  exact (value_round_trips set (by decide) rfl (by decide) (by decide)).mpr fits

end Cm
