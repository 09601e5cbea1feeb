import Mathlib.Logic.Function.Basic
import Mathlib.Algebra.Ring.Nat
import Svindows.Lib.Runs

/-!
# Thread-local and fiber-local slots

The `Tls` and `Fls` functions of `kernel32.c`. Which slots are taken is shared by
all threads, the TLS values hang from each thread's TEB, and the FLS values are
one array for the process. Every access to shared data is a step of the thread
that makes it; what follows it on the thread's own data belongs to the same step.

`TlsFree` clears the slot of the thread that calls it and of no other, so a later
`TlsAlloc` hands out an index under which another thread still finds its old
value; and an FLS value is seen by every thread.
-/

namespace Kernel32

def tlsMinimumAvailable : Nat := 64
def flsMaximumAvailable : Nat := 128

/-- Where a thread is in the code of a slot function. -/
inductive LocalPc where
  | out
  /-- Before the read of `TlsAlloc`. -/
  | tlsAlloc
  /-- Before its compare-and-swap, with the value it read. -/
  | tlsAllocSwap (old : BitVec 64)
  | tlsFree (index : Nat)
  | tlsFreeSwap (index : Nat) (old : BitVec 64)
  /-- `TlsSetValue` has found the index taken. -/
  | tlsSet (index value : Nat)
  /-- `FlsAlloc` before its compare-and-swap on a slot. -/
  | flsAlloc (index : Nat)
  /-- It has claimed the slot. -/
  | flsAllocInit (index : Nat)
  /-- `FlsFree` has found the slot taken. -/
  | flsFree (index : Nat)
  /-- It has given the slot up. -/
  | flsFreeClear (index : Nat)
  | flsSet (index value : Nat)
  deriving DecidableEq

/-- `slots` is the vector at TEB+0x58, if the thread has one yet. -/
structure LocalState (T : Type) where
  bitmap : BitVec 64
  slots : T → Option (Nat → Nat)
  flsTaken : Nat → Bool
  flsSlots : Nat → Nat
  pc : T → LocalPc

/-- The calls, and the next access of a call. -/
inductive LocalAction where
  | tlsAlloc
  | tlsFree (index : Nat)
  | tlsGetValue (index : Nat)
  | tlsSetValue (index value : Nat)
  | flsAlloc
  | flsFree (index : Nat)
  | flsGetValue (index : Nat)
  | flsSetValue (index value : Nat)
  /-- `granted` says whether there is memory for a slot vector. -/
  | run (granted : Bool)
  deriving DecidableEq

/-- What a step does to the slots. -/
inductive SlotEffect where
  | nothing
  | takeTls (index : Nat)
  | dropTls (index : Nat)
  | storeTls (index value : Nat)
  | claimFls (index : Nat)
  /-- `FlsAlloc` clears the slot and returns its index. -/
  | readyFls (index : Nat)
  | dropFls (index : Nat)
  | clearFls (index : Nat)
  | storeFls (index value : Nat)
  deriving DecidableEq

/-- The lowest clear bit. -/
def firstClear (old : BitVec 64) : Nat :=
  ((List.range tlsMinimumAvailable).find? fun i => !old.getLsbD i).getD tlsMinimumAvailable

variable {T : Type} [DecidableEq T]

namespace LocalState

/-- A call starts outside of the functions; the check that comes first in
`TlsSetValue`, `FlsFree` and `FlsSetValue` is its first access. -/
def call (s : LocalState T) : LocalAction → LocalPc
  | .tlsAlloc => .tlsAlloc
  | .tlsFree i => if tlsMinimumAvailable ≤ i then .out else .tlsFree i
  | .tlsSetValue i v =>
    if tlsMinimumAvailable ≤ i ∨ s.bitmap.getLsbD i = false then .out else .tlsSet i v
  | .flsAlloc => .flsAlloc 1
  | .flsFree i => if flsMaximumAvailable ≤ i ∨ s.flsTaken i = false then .out else .flsFree i
  | .flsSetValue i v =>
    if flsMaximumAvailable ≤ i ∨ s.flsTaken i = false then .out else .flsSet i v
  | .tlsGetValue _ | .flsGetValue _ | .run _ => .out

/-- The next access of thread `t` inside a function: what it does and where it leads. -/
def access (s : LocalState T) (t : T) (granted : Bool) : LocalPc → SlotEffect × LocalPc
  | .out => (.nothing, .out)
  | .tlsAlloc =>
    (.nothing, if s.bitmap = BitVec.allOnes 64 then .out else .tlsAllocSwap s.bitmap)
  | .tlsAllocSwap old =>
    if s.bitmap = old then (.takeTls (firstClear old), .out) else (.nothing, .tlsAlloc)
  | .tlsFree i =>
    (.nothing, if s.bitmap.getLsbD i = false then .out else .tlsFreeSwap i s.bitmap)
  | .tlsFreeSwap i old => if s.bitmap = old then (.dropTls i, .out) else (.nothing, .tlsFree i)
  | .tlsSet i v =>
    (if (s.slots t).isSome || granted then .storeTls i v else .nothing, .out)
  | .flsAlloc i =>
    if flsMaximumAvailable ≤ i then (.nothing, .out)
    else if s.flsTaken i then (.nothing, .flsAlloc (i + 1))
    else (.claimFls i, .flsAllocInit i)
  | .flsAllocInit i => (.readyFls i, .out)
  | .flsFree i => (.dropFls i, .flsFreeClear i)
  | .flsFreeClear i => (.clearFls i, .out)
  | .flsSet i v => (.storeFls i v, .out)

/-- What a step does and where it leads, if thread `t` can make it. -/
def act (s : LocalState T) (t : T) : LocalAction → Option (SlotEffect × LocalPc)
  | .run granted => if s.pc t = .out then none else some (s.access t granted (s.pc t))
  | a => if s.pc t = .out then some (.nothing, s.call a) else none

def apply (s : LocalState T) (t : T) : SlotEffect → LocalState T
  | .nothing => s
  | .takeTls i => { s with bitmap := s.bitmap ||| 1#64 <<< i }
  | .dropTls i =>
    { s with
      bitmap := s.bitmap &&& ~~~(1#64 <<< i)
      slots := Function.update s.slots t ((s.slots t).map fun v => Function.update v i 0) }
  | .storeTls i v =>
    { s with
      slots := Function.update s.slots t
        (some (Function.update ((s.slots t).getD fun _ => 0) i v)) }
  | .claimFls i => { s with flsTaken := Function.update s.flsTaken i true }
  | .readyFls i => { s with flsSlots := Function.update s.flsSlots i 0 }
  | .dropFls i => { s with flsTaken := Function.update s.flsTaken i false }
  | .clearFls i => { s with flsSlots := Function.update s.flsSlots i 0 }
  | .storeFls i v => { s with flsSlots := Function.update s.flsSlots i v }

def at_ (s : LocalState T) (t : T) (pc : LocalPc) : LocalState T :=
  { s with pc := Function.update s.pc t pc }

/-- What a thread's slot holds, whether the index is taken or not. -/
def stored (s : LocalState T) (t : T) (i : Nat) : Nat := ((s.slots t).getD fun _ => 0) i

/-- What `TlsGetValue` returns to a thread. -/
def tlsGetValue (s : LocalState T) (t : T) (i : Nat) : Nat :=
  if tlsMinimumAvailable ≤ i ∨ s.bitmap.getLsbD i = false then 0 else s.stored t i

/-- What `FlsGetValue` returns, to any thread. -/
def flsGetValue (s : LocalState T) (i : Nat) : Nat :=
  if i < flsMaximumAvailable then s.flsSlots i else 0

end LocalState

/-- The state, with who has set what since the index was last returned, and which
FLS indices have been returned and not given up. -/
structure Watched (T : Type) where
  now : LocalState T
  tlsSet : T → Nat → Bool
  flsSet : T → Nat → Bool
  flsHeld : Nat → Bool

namespace Watched

def apply (w : Watched T) (t : T) (e : SlotEffect) (pc : LocalPc) : Watched T where
  now := (w.now.apply t e).at_ t pc
  tlsSet u j :=
    match e with
    | .takeTls i => if j = i then false else w.tlsSet u j
    | .storeTls i _ => if u = t ∧ j = i then true else w.tlsSet u j
    | _ => w.tlsSet u j
  flsSet u j :=
    match e with
    | .readyFls i => if j = i then false else w.flsSet u j
    | .storeFls i _ => if u = t ∧ j = i then true else w.flsSet u j
    | _ => w.flsSet u j
  flsHeld j :=
    match e with
    | .readyFls i => if j = i then true else w.flsHeld j
    | .dropFls i => if j = i then false else w.flsHeld j
    | _ => w.flsHeld j

def Step (w : Watched T) (l : T × LocalAction) (w' : Watched T) : Prop :=
  ∃ e pc, w.now.act l.1 l.2 = some (e, pc) ∧ w' = w.apply l.1 e pc

/-- A process in which no function has been called. -/
def start : Watched T where
  now := ⟨0, fun _ => none, fun _ => false, fun _ => 0, fun _ => .out⟩
  tlsSet _ _ := false
  flsSet _ _ := false
  flsHeld _ := false

/-- A thread reads NULL from an index that it has not set since it was returned. -/
def StartsEmpty (w : Watched T) : Prop :=
  (∀ t i, w.now.bitmap.getLsbD i = true → w.tlsSet t i = false → w.now.tlsGetValue t i = 0) ∧
    ∀ t i, w.flsHeld i = true → w.flsSet t i = false → w.now.flsGetValue i = 0

/-- A returned index is not allocated yet, and a set changes nothing for others. -/
def Separate (w : Watched T) (t : T) (e : SlotEffect) (w' : Watched T) : Prop :=
  match e with
  | .takeTls i => w.now.bitmap.getLsbD i = false
  | .readyFls i => w.flsHeld i = false
  | .storeTls _ _ | .storeFls _ _ => ∀ u, u ≠ t → ∀ i,
      w'.now.tlsGetValue u i = w.now.tlsGetValue u i ∧ w'.now.flsGetValue i = w.now.flsGetValue i
  | _ => True

end Watched

/-- No TLS index is given up under which another thread has, or is about to store, a
value; no FLS index is given up while `FlsAlloc` is handing it out; and FLS values
are only changed by a thread that is alone. -/
def LocalGuard (s : LocalState T) (t : T) : SlotEffect → Prop
  | .dropTls i => ∀ u, u ≠ t → s.stored u i = 0 ∧ ∀ v, s.pc u = .tlsSet i v → v = 0
  | .dropFls i => ∀ u, s.pc u ≠ .flsAllocInit i
  | .storeFls i v => v = s.flsSlots i ∨ ∀ u, u = t
  | _ => True

def Watched.GuardedStep (w : Watched T) (l : T × LocalAction) (w' : Watched T) : Prop :=
  ∃ e pc, w.now.act l.1 l.2 = some (e, pc) ∧ LocalGuard w.now l.1 e ∧ w' = w.apply l.1 e pc

namespace LocalState

variable {s : LocalState T} {t u : T} {a : LocalAction} {e : SlotEffect} {pc : LocalPc}

/-- Where a thread stands when its step touches the slots. -/
def Origin (s : LocalState T) (t : T) : SlotEffect → Prop
  | .takeTls i => s.pc t = .tlsAllocSwap s.bitmap ∧ i = firstClear s.bitmap
  | .storeTls i v => s.pc t = .tlsSet i v
  | .claimFls i => s.flsTaken i = false
  | .readyFls i => s.pc t = .flsAllocInit i
  | _ => True

/-- What is known when a step leads into the middle of a function. -/
def Arrival (s : LocalState T) (e : SlotEffect) : LocalPc → Prop
  | .tlsAllocSwap old => old ≠ BitVec.allOnes 64
  | .tlsSet i _ => e = .nothing ∧ s.bitmap.getLsbD i = true
  | .flsAllocInit i => e = .claimFls i
  | _ => True

omit [DecidableEq T] in
theorem call_arrival (s : LocalState T) (a : LocalAction) : s.Arrival .nothing (s.call a) := by
  cases a <;> simp only [call] <;> try split
  all_goals simp_all [Arrival]

omit [DecidableEq T] in
theorem access_spec (h : s.pc t = pc) (granted : Bool) :
    s.Origin t (s.access t granted pc).1 ∧
      s.Arrival (s.access t granted pc).1 (s.access t granted pc).2 := by
  cases pc <;> simp only [access] <;> (repeat' split)
  all_goals simp_all [Origin, Arrival]

omit [DecidableEq T] in
theorem act_spec (h : s.act t a = some (e, pc)) : s.Origin t e ∧ s.Arrival e pc := by
  cases a with
  | run granted =>
    simp only [act, Option.ite_none_left_eq_some, Option.some.injEq] at h
    have spec := s.access_spec (t := t) rfl granted
    rwa [h.2] at spec
  | _ =>
    simp only [act, Option.ite_none_right_eq_some, Option.some.injEq, Prod.mk.injEq] at h
    obtain ⟨-, rfl, rfl⟩ := h
    exact ⟨trivial, s.call_arrival _⟩

theorem at_pc (s : LocalState T) (t : T) (pc : LocalPc) :
    (s.at_ t pc).pc = Function.update s.pc t pc :=
  rfl

@[simp]
theorem apply_pc (s : LocalState T) (t : T) (e : SlotEffect) : (s.apply t e).pc = s.pc := by
  cases e <;> rfl

/-- What a step makes of a slot of a thread. -/
theorem apply_stored (s : LocalState T) (t u : T) (e : SlotEffect) (j : Nat) :
    (s.apply t e).stored u j =
      match e with
      | .dropTls i => if u = t ∧ j = i then 0 else s.stored u j
      | .storeTls i v => if u = t ∧ j = i then v else s.stored u j
      | _ => s.stored u j := by
  cases e with
  | dropTls i =>
    by_cases hu : u = t
    · subst hu
      cases h : s.slots u <;> by_cases hj : j = i <;> simp [apply, stored, h, hj]
    · simp [apply, stored, hu]
  | storeTls i v =>
    by_cases hu : u = t
    · subst hu
      by_cases hj : j = i <;> simp [apply, stored, hj]
    · simp [apply, stored, hu]
  | _ => rfl

theorem apply_bit (s : LocalState T) (t : T) (e : SlotEffect) (j : Nat) :
    (s.apply t e).bitmap.getLsbD j =
      match e with
      | .takeTls i => s.bitmap.getLsbD j || decide (j = i ∧ i < 64)
      | .dropTls i => s.bitmap.getLsbD j && decide (j ≠ i)
      | _ => s.bitmap.getLsbD j := by
  cases e with
  | takeTls i =>
    simp only [apply, BitVec.getLsbD_or, BitVec.getLsbD_shiftLeft, BitVec.getLsbD_one]
    grind
  | dropTls i =>
    simp only [apply, BitVec.getLsbD_and, BitVec.getLsbD_not, BitVec.getLsbD_shiftLeft,
      BitVec.getLsbD_one]
    have := s.bitmap.getLsbD_of_ge j
    grind
  | _ => rfl

theorem apply_flsTaken (s : LocalState T) (t : T) (e : SlotEffect) (j : Nat) :
    (s.apply t e).flsTaken j =
      match e with
      | .claimFls i => if j = i then true else s.flsTaken j
      | .dropFls i => if j = i then false else s.flsTaken j
      | _ => s.flsTaken j := by
  cases e <;> simp [apply, Function.update_apply]

theorem apply_flsSlots (s : LocalState T) (t : T) (e : SlotEffect) (j : Nat) :
    (s.apply t e).flsSlots j =
      match e with
      | .readyFls i | .clearFls i => if j = i then 0 else s.flsSlots j
      | .storeFls i v => if j = i then v else s.flsSlots j
      | _ => s.flsSlots j := by
  cases e <;> simp [apply, Function.update_apply]

end LocalState

theorem firstClear_spec {old : BitVec 64} (h : old ≠ BitVec.allOnes 64) :
    firstClear old < 64 ∧ old.getLsbD (firstClear old) = false := by
  obtain ⟨i, hi, clear⟩ : ∃ i, i < 64 ∧ old.getLsbD i = false := by
    by_contra full
    refine h (BitVec.eq_of_getLsbD_eq fun i hi => ?_)
    cases bit : old.getLsbD i with
    | false => exact absurd ⟨i, hi, bit⟩ full
    | true =>
      rw [BitVec.getLsbD_allOnes]
      simp [hi]
  unfold firstClear
  cases found : (List.range tlsMinimumAvailable).find? fun i => !old.getLsbD i with
  | none =>
    have := List.find?_eq_none.mp found i (List.mem_range.mpr hi)
    simp [clear] at this
  | some j =>
    have bit := List.find?_some found
    have range := List.mem_range.mp (List.mem_of_find?_eq_some found)
    exact ⟨range, by simpa using bit⟩

/-- What the guarded steps keep: an index that is not taken holds nothing for any
thread, and `FlsAlloc` works on a slot that it alone has claimed. -/
structure LocalInv (w : Watched T) : Prop where
  swap : ∀ t old, w.now.pc t = .tlsAllocSwap old → old ≠ BitVec.allOnes 64
  free : ∀ t i, w.now.bitmap.getLsbD i = false → w.now.stored t i = 0
  pending : ∀ t i v, w.now.pc t = .tlsSet i v → w.now.bitmap.getLsbD i = false → v = 0
  unset : ∀ t i, w.tlsSet t i = false → w.now.stored t i = 0
  held : ∀ i, w.flsHeld i = true → w.now.flsTaken i = true
  claimed : ∀ t i, w.now.pc t = .flsAllocInit i →
    w.now.flsTaken i = true ∧ w.flsHeld i = false
  alone : ∀ t u i, w.now.pc t = .flsAllocInit i → w.now.pc u = .flsAllocInit i → t = u
  flsUnset : ∀ t i, w.flsSet t i = false → w.now.flsSlots i = 0

namespace LocalInv

variable {w : Watched T} {t u : T} {e : SlotEffect} {pc : LocalPc}

omit [DecidableEq T] in
theorem of_start : LocalInv (Watched.start : Watched T) := by
  constructor <;> simp [Watched.start, LocalState.stored]

theorem step_swap (inv : LocalInv w) (arrival : w.now.Arrival e pc) (old : BitVec 64)
    (h : (w.apply t e pc).now.pc u = .tlsAllocSwap old) : old ≠ BitVec.allOnes 64 := by
  simp only [Watched.apply, LocalState.at_pc, LocalState.apply_pc, Function.update_apply] at h
  split at h
  · subst h
    exact arrival
  · exact inv.swap u old h

omit [DecidableEq T] in
theorem taken_was_clear (inv : LocalInv w) {i : Nat} (origin : w.now.Origin t (.takeTls i)) :
    i < 64 ∧ w.now.bitmap.getLsbD i = false := by
  obtain ⟨at_swap, rfl⟩ := origin
  exact firstClear_spec (inv.swap t _ at_swap)

theorem step_free (inv : LocalInv w) (origin : w.now.Origin t e)
    (guard : LocalGuard w.now t e) (i : Nat)
    (clear : (w.apply t e pc).now.bitmap.getLsbD i = false) :
    (w.apply t e pc).now.stored u i = 0 := by
  change (w.now.apply t e).bitmap.getLsbD i = false at clear
  change (w.now.apply t e).stored u i = 0
  rw [LocalState.apply_bit] at clear
  rw [LocalState.apply_stored]
  cases e with
  | dropTls j =>
    by_cases hi : i = j
    · subst hi
      by_cases hu : u = t
      · simp [hu]
      · simp [hu, (guard u hu).1]
    · simp only [hi, and_false, if_false]
      exact inv.free u i (by simpa [hi] using clear)
  | storeTls j v =>
    dsimp only at clear ⊢
    split
    next h =>
      obtain ⟨rfl, rfl⟩ := h
      exact inv.pending u i v origin clear
    next => exact inv.free u i clear
  | takeTls j =>
    simp only [Bool.or_eq_false_iff] at clear
    exact inv.free u i clear.1
  | _ => exact inv.free u i clear

theorem step_pending (inv : LocalInv w) (arrival : w.now.Arrival e pc)
    (guard : LocalGuard w.now t e) (i v : Nat) (h : (w.apply t e pc).now.pc u = .tlsSet i v)
    (clear : (w.apply t e pc).now.bitmap.getLsbD i = false) : v = 0 := by
  change (w.now.apply t e).bitmap.getLsbD i = false at clear
  simp only [Watched.apply, LocalState.at_pc, LocalState.apply_pc, Function.update_apply] at h
  rw [LocalState.apply_bit] at clear
  split at h
  · subst h
    obtain ⟨rfl, bit⟩ := arrival
    simp [bit] at clear
  next hu =>
    cases e with
    | dropTls j =>
      by_cases hi : i = j
      · subst hi
        exact (guard u hu).2 v h
      · exact inv.pending u i v h (by simpa [hi] using clear)
    | takeTls j =>
      simp only [Bool.or_eq_false_iff] at clear
      exact inv.pending u i v h clear.1
    | _ => exact inv.pending u i v h clear

theorem step_unset (inv : LocalInv w) (origin : w.now.Origin t e) (i : Nat)
    (h : (w.apply t e pc).tlsSet u i = false) : (w.apply t e pc).now.stored u i = 0 := by
  change (w.now.apply t e).stored u i = 0
  rw [LocalState.apply_stored]
  cases e with
  | takeTls j =>
    by_cases hi : i = j
    · subst hi
      exact inv.free u i (inv.taken_was_clear origin).2
    · exact inv.unset u i (by simpa [Watched.apply, hi] using h)
  | dropTls j =>
    dsimp only
    split
    · rfl
    · exact inv.unset u i h
  | storeTls j v =>
    simp only [Watched.apply] at h
    dsimp only
    split at h
    · cases h
    next hne =>
      rw [if_neg hne]
      exact inv.unset u i h
  | _ => exact inv.unset u i h

theorem step_held (inv : LocalInv w) (origin : w.now.Origin t e) (i : Nat)
    (h : (w.apply t e pc).flsHeld i = true) : (w.apply t e pc).now.flsTaken i = true := by
  change (w.now.apply t e).flsTaken i = true
  rw [LocalState.apply_flsTaken]
  cases e with
  | claimFls j =>
    dsimp only
    split
    · rfl
    · exact inv.held i h
  | readyFls j =>
    by_cases hi : i = j
    · subst hi
      exact (inv.claimed t i origin).1
    · exact inv.held i (by simpa [Watched.apply, hi] using h)
  | dropFls j =>
    simp only [Watched.apply] at h
    split at h
    · cases h
    next hne =>
      simp only [hne, if_false]
      exact inv.held i h
  | _ => exact inv.held i h

/-- A slot that a thread is about to hand out stays claimed while others step. -/
theorem step_claimed_other (inv : LocalInv w) (origin : w.now.Origin t e)
    (guard : LocalGuard w.now t e) (hu : u ≠ t) (i : Nat) (h : w.now.pc u = .flsAllocInit i) :
    (w.apply t e pc).now.flsTaken i = true ∧ (w.apply t e pc).flsHeld i = false := by
  change (w.now.apply t e).flsTaken i = true ∧ _
  rw [LocalState.apply_flsTaken]
  obtain ⟨taken, fresh⟩ := inv.claimed u i h
  cases e with
  | claimFls j => simp [Watched.apply, taken, fresh]
  | readyFls j =>
    have hi : i ≠ j := by
      rintro rfl
      exact hu (inv.alone u t i h origin)
    simp [Watched.apply, hi, taken, fresh]
  | dropFls j =>
    have hi : i ≠ j := by
      rintro rfl
      exact guard u h
    simp [Watched.apply, hi, taken, fresh]
  | _ => exact ⟨taken, fresh⟩

theorem step_claimed (inv : LocalInv w) (origin : w.now.Origin t e) (arrival : w.now.Arrival e pc)
    (guard : LocalGuard w.now t e) (i : Nat) (h : (w.apply t e pc).now.pc u = .flsAllocInit i) :
    (w.apply t e pc).now.flsTaken i = true ∧ (w.apply t e pc).flsHeld i = false := by
  simp only [Watched.apply, LocalState.at_pc, LocalState.apply_pc, Function.update_apply] at h
  split at h
  · subst h
    obtain rfl : e = .claimFls i := arrival
    have unclaimed : w.now.flsTaken i = false := origin
    constructor
    · change (w.now.apply t (.claimFls i)).flsTaken i = true
      simp [LocalState.apply_flsTaken]
    · change w.flsHeld i = false
      cases held : w.flsHeld i with
      | false => rfl
      | true =>
        have := inv.held i held
        simp_all
  next hu => exact inv.step_claimed_other origin guard hu i h

theorem step_alone (inv : LocalInv w) (origin : w.now.Origin t e) (arrival : w.now.Arrival e pc)
    (u v : T) (i : Nat) (hu : (w.apply t e pc).now.pc u = .flsAllocInit i)
    (hv : (w.apply t e pc).now.pc v = .flsAllocInit i) : u = v := by
  -- only an unclaimed slot can be claimed, and then nobody else is handing it out
  have newcomer : ∀ x, pc = .flsAllocInit i → w.now.pc x ≠ .flsAllocInit i := by
    intro x hpc hx
    subst hpc
    obtain rfl : e = .claimFls i := arrival
    have unclaimed : w.now.flsTaken i = false := origin
    simp [(inv.claimed x i hx).1] at unclaimed
  simp only [Watched.apply, LocalState.at_pc, LocalState.apply_pc, Function.update_apply] at hu hv
  split at hu <;> split at hv
  · simp_all
  · exact absurd hv (newcomer v hu)
  · exact absurd hu (newcomer u hv)
  · exact inv.alone u v i hu hv

theorem step_flsUnset (inv : LocalInv w) (guard : LocalGuard w.now t e) (i : Nat)
    (h : (w.apply t e pc).flsSet u i = false) : (w.apply t e pc).now.flsSlots i = 0 := by
  change (w.now.apply t e).flsSlots i = 0
  rw [LocalState.apply_flsSlots]
  cases e with
  | readyFls j =>
    by_cases hi : i = j
    · simp [hi]
    · simp only [hi, if_false]
      exact inv.flsUnset u i (by simpa [Watched.apply, hi] using h)
  | clearFls j =>
    dsimp only
    split
    · rfl
    · exact inv.flsUnset u i h
  | storeFls j v =>
    simp only [Watched.apply] at h
    dsimp only
    split at h
    · cases h
    next hne =>
      have old := inv.flsUnset u i h
      split
      next hi =>
        subst hi
        rcases guard with same | single
        · rw [same, old]
        · exact absurd ⟨single u, rfl⟩ hne
      next => exact old
  | _ => exact inv.flsUnset u i h

theorem step (inv : LocalInv w) (origin : w.now.Origin t e) (arrival : w.now.Arrival e pc)
    (guard : LocalGuard w.now t e) : LocalInv (w.apply t e pc) where
  swap _ := inv.step_swap arrival
  free _ := inv.step_free origin guard
  pending _ := inv.step_pending arrival guard
  unset _ := inv.step_unset origin
  held := inv.step_held origin
  claimed _ := inv.step_claimed origin arrival guard
  alone := inv.step_alone origin arrival
  flsUnset _ := inv.step_flsUnset guard

omit [DecidableEq T] in
theorem startsEmpty (inv : LocalInv w) : w.StartsEmpty := by
  constructor
  · intro t i _ unset
    unfold LocalState.tlsGetValue
    split
    · rfl
    · exact inv.unset t i unset
  · intro t i _ unset
    unfold LocalState.flsGetValue
    split
    · exact inv.flsUnset t i unset
    · rfl

theorem separate (inv : LocalInv w) (origin : w.now.Origin t e)
    (guard : LocalGuard w.now t e) : w.Separate t e (w.apply t e pc) := by
  cases e with
  | takeTls i => exact (inv.taken_was_clear origin).2
  | readyFls i => exact (inv.claimed t i origin).2
  | storeTls j v =>
    intro u hu i
    constructor
    · have same : (w.now.apply t (.storeTls j v)).stored u i = w.now.stored u i := by
        simp [LocalState.apply_stored, hu]
      change (if _ then 0 else (w.now.apply t (.storeTls j v)).stored u i) = _
      rw [same]
      rfl
    · rfl
  | storeFls j v =>
    intro u hu i
    refine ⟨rfl, ?_⟩
    have same : (w.now.apply t (.storeFls j v)).flsSlots i = w.now.flsSlots i := by
      rw [LocalState.apply_flsSlots]
      dsimp only
      split
      next hi =>
        subst hi
        rcases guard with same | single
        · exact same
        · exact absurd (single u) hu
      next => rfl
    change (if i < flsMaximumAvailable then (w.now.apply t (.storeFls j v)).flsSlots i else 0) = _
    rw [same]
    rfl
  | _ => trivial

end LocalInv

/-- While no thread gives up a TLS index that another still has a value under, gives
up an FLS index that is being handed out, or changes an FLS value that others see,
slots start empty, indices are fresh and sets stay private. -/
theorem local_slots_isolated {w : Watched T}
    (run : Runs.Reachable (· = Watched.start) Watched.GuardedStep w) :
    w.StartsEmpty ∧
      ∀ t a e pc, w.now.act t a = some (e, pc) → LocalGuard w.now t e →
        w.Separate t e (w.apply t e pc) := by
  have inv : LocalInv w := by
    refine run.invariant ?_ ?_
    · rintro _ rfl
      exact .of_start
    · rintro w ⟨t, a⟩ _ inv ⟨e, pc, h, guard, rfl⟩
      obtain ⟨origin, arrival⟩ := LocalState.act_spec h
      exact inv.step origin arrival guard
  refine ⟨inv.startsEmpty, ?_⟩
  intro t a e pc h guard
  exact inv.separate (LocalState.act_spec h).1 guard

/-- One thread has taken index 0, and the other has set it. -/
def indexInUse : Watched Bool :=
  ((((Watched.start.apply true .nothing .tlsAlloc).apply true .nothing (.tlsAllocSwap 0)).apply
    true (.takeTls 0) .out).apply false .nothing (.tlsSet 0 7)).apply false (.storeTls 0 7) .out

theorem indexInUse_reachable :
    Runs.Reachable (· = Watched.start) Watched.GuardedStep indexInUse := by
  have start : Runs.Reachable (· = Watched.start) Watched.GuardedStep
    (Watched.start : Watched Bool) := .of_initial rfl
  have called := start.next (l := (true, .tlsAlloc)) ⟨.nothing, .tlsAlloc, rfl, trivial, rfl⟩
  have read := called.next (l := (true, .run true)) ⟨.nothing, .tlsAllocSwap 0, rfl, trivial, rfl⟩
  have taken := read.next (l := (true, .run true)) ⟨.takeTls 0, .out, rfl, trivial, rfl⟩
  have setting := taken.next (l := (false, .tlsSetValue 0 7)) ⟨.nothing, .tlsSet 0 7, rfl, trivial, rfl⟩
  exact setting.next (l := (false, .run true)) ⟨.storeTls 0 7, .out, rfl, trivial, rfl⟩

theorem local_slots_isolated_in_use :
    indexInUse.now.tlsGetValue false 0 = 7 ∧ indexInUse.StartsEmpty :=
  ⟨by decide, (local_slots_isolated indexInUse_reachable).1⟩

/-- The first thread gives the index up and takes it again. -/
def indexTakenAgain : Watched Bool :=
  (((((indexInUse.apply true .nothing (.tlsFree 0)).apply true .nothing (.tlsFreeSwap 0 1)).apply
    true (.dropTls 0) .out).apply true .nothing .tlsAlloc).apply
      true .nothing (.tlsAllocSwap 0)).apply true (.takeTls 0) .out

theorem indexTakenAgain_reachable :
    Runs.Reachable (· = Watched.start) Watched.Step indexTakenAgain := by
  have inUse : Runs.Reachable (· = Watched.start) Watched.Step indexInUse :=
    indexInUse_reachable.mono fun _ _ _ ⟨e, pc, act, _, after⟩ => ⟨e, pc, act, after⟩
  have called := inUse.next (l := (true, .tlsFree 0)) ⟨.nothing, .tlsFree 0, rfl, rfl⟩
  have read := called.next (l := (true, .run true)) ⟨.nothing, .tlsFreeSwap 0 1, rfl, rfl⟩
  have dropped := read.next (l := (true, .run true)) ⟨.dropTls 0, .out, rfl, rfl⟩
  have allocating := dropped.next (l := (true, .tlsAlloc)) ⟨.nothing, .tlsAlloc, rfl, rfl⟩
  have empty := allocating.next (l := (true, .run true)) ⟨.nothing, .tlsAllocSwap 0, rfl, rfl⟩
  exact empty.next (l := (true, .run true)) ⟨.takeTls 0, .out, rfl, rfl⟩

/-- A thread has taken FLS index 1 and is about to store a value. -/
def flsAboutToSet : Watched Bool :=
  (((Watched.start.apply true .nothing (.flsAlloc 1)).apply
    true (.claimFls 1) (.flsAllocInit 1)).apply true (.readyFls 1) .out).apply
      true .nothing (.flsSet 1 5)

theorem flsAboutToSet_reachable :
    Runs.Reachable (· = Watched.start) Watched.Step flsAboutToSet := by
  have start : Runs.Reachable (· = Watched.start) Watched.Step
    (Watched.start : Watched Bool) := .of_initial rfl
  have called := start.next (l := (true, .flsAlloc)) ⟨.nothing, .flsAlloc 1, rfl, rfl⟩
  have claimed := called.next (l := (true, .run true)) ⟨.claimFls 1, .flsAllocInit 1, rfl, rfl⟩
  have taken := claimed.next (l := (true, .run true)) ⟨.readyFls 1, .out, rfl, rfl⟩
  exact taken.next (l := (true, .flsSetValue 1 5)) ⟨.nothing, .flsSet 1 5, rfl, rfl⟩

/-- The second thread, which has not set the new index, reads 7 from it; and what one
thread stores in an FLS slot is what the other then reads. -/
theorem stale_and_shared_slots :
    (Runs.Reachable (· = Watched.start) Watched.Step indexTakenAgain ∧
      indexTakenAgain.tlsSet false 0 = false ∧ indexTakenAgain.now.tlsGetValue false 0 = 7 ∧
      ¬ indexTakenAgain.StartsEmpty) ∧
    Runs.Reachable (· = Watched.start) Watched.Step flsAboutToSet ∧
      flsAboutToSet.now.act true (.run true) = some (.storeFls 1 5, .out) ∧
      ¬ flsAboutToSet.Separate true (.storeFls 1 5)
        (flsAboutToSet.apply true (.storeFls 1 5) .out) := by
  constructor
  · refine ⟨indexTakenAgain_reachable, rfl, by decide, ?_⟩
    intro empty
    have zero := empty.1 false 0 (by decide) rfl
    revert zero
    decide
  · refine ⟨flsAboutToSet_reachable, rfl, ?_⟩
    intro separate
    have same := (separate false (by decide) 1).2
    revert same
    decide

end Kernel32
