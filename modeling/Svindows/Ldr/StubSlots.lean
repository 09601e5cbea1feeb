import Svindows.Ldr.Loader
import Svindows.Lib.Runs
import Svindows.Mm.PageMap
import Svindows.User.Callbacks

/-!
# The stub arena

Import stubs, callback thunks and `CREATESTRUCTW`s are cut from one arena that user code
may write and execute. Each of the three checks the end of the arena for itself, in
`ldr/pe.c` and `ke/syscall.c`. A run records the ranges they hand out.
-/

namespace Ldr

open Nt ByteMemory Partial

/-- `LdrStubArenaNext`; an advance of 0 only looks. -/
def ldrStubArenaNext (advance : Nat) : LdrM Nat := do
  let s ← get
  modify fun s => { s with stubs := { s.stubs with next := wrap64 (s.stubs.next + advance) } }
  pure s.stubs.next

def writeBytes (p : Nat) (bytes : List UInt8) : LdrM Unit := do
  let s ← get
  setImage { s.image with
    mem := putBytes s.image.mem p bytes.length fun d => bytes.getD d 0 }

theorem ldrStubArenaNext_eq (advance : Nat) (s : LinkState) :
    ldrStubArenaNext advance s = some (s.stubs.next,
      { s with stubs := { s.stubs with next := wrap64 (s.stubs.next + advance) } }) := rfl

theorem writeBytes_eq (p : Nat) (bytes : List UInt8) (s : LinkState) :
    writeBytes p bytes s = some ((), { s with
      image := { s.image with
        mem := putBytes s.image.mem p bytes.length fun d => bytes.getD d 0 } }) := rfl

/-- Take `need` bytes of the arena and fill them in; 0 when they are not there. -/
def takeArena (need : Nat) (bytes : List UInt8) : LdrM Nat := do
  if (← ldrpEnsureStubArena) = false then pure 0
  else do
    let s ← get
    if s.stubs.stop < wrap64 (s.stubs.next + need) then pure 0
    else do
      let slot ← ldrStubArenaNext need
      writeBytes slot bytes
      pure slot

/-- The `n` bytes of a number, least significant first. -/
def leBytes (n v : Nat) : List UInt8 := (List.range n).map fun d => UInt8.ofNat (v / 256 ^ d)

/-- `movabs rax, value` and the move to the register of argument `i`. -/
def moveArgument (i value : Nat) : List UInt8 :=
  [0x48, 0xB8] ++ leBytes 8 value ++
    [if i < 2 then 0x48 else 0x49, 0x89, UInt8.ofNat (if i < 2 then 0xC1 + i else 0xC0 + (i - 2))]

def snNtCallbackReturn : Nat := 0xFC

/-- The code that calls `target` and comes back through a system call. -/
def callbackCode (target a1 a2 a3 a4 : Nat) : List UInt8 :=
  moveArgument 0 a1 ++ moveArgument 1 a2 ++ moveArgument 2 a3 ++ moveArgument 3 a4 ++
    [0x48, 0x83, 0xEC, 0x28] ++ [0x48, 0xB8] ++ leBytes 8 target ++ [0xFF, 0xD0] ++
    [0x49, 0x89, 0xC2] ++ [0xB8] ++ leBytes 4 snNtCallbackReturn ++ [0x0F, 0x05] ++ [0xCC]

def callbackThunkSize : Nat := 5 * 16

def ldrpBuildCallbackThunk (target a1 a2 a3 a4 : Nat) : LdrM Nat :=
  takeArena callbackThunkSize (callbackCode target a1 a2 a3 a4)

/-- The `CREATESTRUCTW` of the arguments of `NtUserCreateWindowEx`. -/
def createStruct (a : Nat → Nat) (hwnd : Nat) : List UInt8 :=
  leBytes 8 (a 12) ++ leBytes 8 (a 11) ++ leBytes 8 (a 10) ++ leBytes 8 (a 9) ++
    leBytes 4 (a 8) ++ leBytes 4 (a 7) ++ leBytes 4 (a 6) ++ leBytes 4 (a 5) ++
    leBytes 4 (a 4) ++ leBytes 4 0 ++ leBytes 8 (a 3) ++ leBytes 8 (a 1) ++ leBytes 8 hwnd ++
    leBytes 16 0

def createStructSize : Nat := 0x60

def kiBuildCreateStruct (a : Nat → Nat) (hwnd : Nat) : LdrM Nat :=
  takeArena createStructSize (createStruct a hwnd)

@[simp] theorem leBytes_length (n v : Nat) : (leBytes n v).length = n := by
  rw [leBytes, List.length_map, List.length_range]

theorem callbackCode_length (target a1 a2 a3 a4 : Nat) :
    (callbackCode target a1 a2 a3 a4).length = 79 := by
  simp [callbackCode, moveArgument]

theorem createStruct_length (a : Nat → Nat) (hwnd : Nat) :
    (createStruct a hwnd).length = createStructSize := by
  simp [createStruct, createStructSize]

/-- The cursor and the memory once the arena is there. -/
def readyStubs (s : LinkState) : StubArena :=
  if s.stubs.arena = 0 then ⟨stubArenaVa, stubArenaVa + 2 * stubSlotSize, cfgTraceVa⟩ else s.stubs

def readyMemory (s : LinkState) : Memory :=
  if s.stubs.arena = 0 then arenaMemory s.image.mem else s.image.mem

/-- The outcomes of taking `need` bytes: there is no arena, there is no room and the
result is `fallback`, or the bytes at the cursor are taken and filled in. -/
inductive Takes (need : Nat) (bytes : List UInt8) (fallback : Nat) (s t : LinkState) : Nat → Prop
  | unmapped (none : s.stubs.arena = 0) (stubs : t.stubs = s.stubs)
      (mem : t.image.mem = s.image.mem) : Takes need bytes fallback s t 0
  | full (short : (readyStubs s).stop < wrap64 ((readyStubs s).next + need))
      (stubs : t.stubs = readyStubs s) (mem : t.image.mem = readyMemory s) :
      Takes need bytes fallback s t fallback
  | took (room : ¬(readyStubs s).stop < wrap64 ((readyStubs s).next + need))
      (arena : t.stubs.arena = (readyStubs s).arena) (stop : t.stubs.stop = (readyStubs s).stop)
      (next : t.stubs.next = (readyStubs s).next + need ∨
        t.stubs.next = wrap64 ((readyStubs s).next + need))
      (mem : t.image.mem = putBytes (readyMemory s) (readyStubs s).next bytes.length
        fun d => bytes.getD d 0) : Takes need bytes fallback s t (readyStubs s).next

variable {s t : LinkState} {a : Nat} {bytes : List UInt8}

theorem modify_run {f : LinkState → LinkState} {u : PUnit}
    (run : (modify f : LdrM PUnit) s = some (u, t)) : t = f s := by
  cases run
  rfl

theorem ldrpEnsureStubArena_cases {done : Bool} (run : ldrpEnsureStubArena s = some (done, t)) :
    (done = true ∧ t.stubs = readyStubs s ∧ t.image.mem = readyMemory s) ∨
    (done = false ∧ s.stubs.arena = 0 ∧ t.stubs = s.stubs ∧ t.image.mem = s.image.mem) := by
  obtain ⟨_, _, got, run⟩ := bind_eq_some.mp run
  cases got
  rw [readyStubs, readyMemory]
  by_cases arena : s.stubs.arena = 0
  · rw [if_neg (not_not.mpr arena)] at run
    obtain ⟨⟨mapped, vm⟩, u, lifted, run⟩ := bind_eq_some.mp run
    have same : u = s := by
      cases pages : mapArenaPages stubArenaPages stubArenaVa s.image.vm with
      | none => simp [lift, pages] at lifted
      | some r =>
        simp only [lift, pages, Option.map_some, Option.some.injEq, Prod.mk.injEq] at lifted
        exact lifted.2.symm
    subst same
    obtain ⟨_, v, set, run⟩ := bind_eq_some.mp run
    cases set
    cases mapped with
    | false =>
      cases run
      exact .inr ⟨rfl, arena, rfl, rfl⟩
    | true =>
      rw [if_neg Bool.noConfusion] at run
      obtain ⟨_, w, made, run⟩ := bind_eq_some.mp run
      cases run
      rw [if_pos arena, if_pos arena, modify_run made]
      exact .inl ⟨rfl, rfl, by dsimp only⟩
  · rw [if_pos arena] at run
    cases run
    rw [if_neg arena, if_neg arena]
    exact .inl ⟨rfl, rfl, rfl⟩

theorem takeArena_takes {need : Nat}
    (run : takeArena need bytes s = some (a, t)) : Takes need bytes 0 s t a := by
  obtain ⟨done, u, ensured, run⟩ := bind_eq_some.mp run
  rcases ldrpEnsureStubArena_cases ensured with ⟨rfl, stubs, mem⟩ | ⟨rfl, none, stubs, mem⟩
  · rw [if_neg Bool.noConfusion] at run
    obtain ⟨_, _, got, run⟩ := bind_eq_some.mp run
    cases got
    rw [stubs] at run
    by_cases short : (readyStubs s).stop < wrap64 ((readyStubs s).next + need)
    · rw [if_pos short] at run
      cases run
      exact .full short stubs mem
    · rw [if_neg short] at run
      obtain ⟨slot, v, advanced, run⟩ := bind_eq_some.mp run
      rw [ldrStubArenaNext_eq, Option.some.injEq, Prod.mk.injEq] at advanced
      obtain ⟨rfl, rfl⟩ := advanced
      obtain ⟨_, w, written, run⟩ := bind_eq_some.mp run
      rw [writeBytes_eq, Option.some.injEq, Prod.mk.injEq] at written
      obtain ⟨-, rfl⟩ := written
      cases run
      rw [stubs]
      exact .took short rfl rfl (.inr rfl) (by rw [mem])
  · rw [if_pos rfl] at run
    cases run
    exact .unmapped none stubs mem

/-- The code of an import stub. -/
def stubCode : List UInt8 := [0x31, 0xC0, 0xC3]

theorem ldrpImportStub_takes (run : ldrpImportStub s = some (a, t)) :
    Takes stubSlotSize stubCode (readyStubs s).arena s t a := by
  obtain ⟨done, u, ensured, run⟩ := bind_eq_some.mp run
  rcases ldrpEnsureStubArena_cases ensured with ⟨rfl, stubs, mem⟩ | ⟨rfl, none, stubs, mem⟩
  · rw [if_neg Bool.noConfusion] at run
    obtain ⟨_, _, got, run⟩ := bind_eq_some.mp run
    cases got
    rw [stubs] at run
    by_cases short : (readyStubs s).stop < wrap64 ((readyStubs s).next + stubSlotSize)
    · rw [if_pos short] at run
      cases run
      exact .full short stubs mem
    · rw [if_neg short] at run
      cases run
      refine .took short ?_ ?_ (.inl ?_) ?_
      · show u.stubs.arena = _
        rw [stubs]
      · show u.stubs.stop = _
        rw [stubs]
      · show u.stubs.next + stubSlotSize = _
        rw [stubs]
      · show putAt u.image.mem (readyStubs s).next 3 0xC3C031 = _
        rw [mem]
        funext b
        show putBytes (readyMemory s) (readyStubs s).next 3 _ b = putBytes _ _ 3 _ b
        by_cases inside : sub64 b (readyStubs s).next < 3
        · simp only [putBytes, if_pos inside]
          have code : ∀ d < 3, UInt8.ofNat (0xC3C031 / 256 ^ d) = stubCode.getD d 0 := by decide
          exact code _ inside
        · simp only [putBytes, if_neg inside]
  · rw [if_pos rfl] at run
    cases run
    exact .unmapped none stubs mem

inductive ArenaCall where
  | importStub
  | callbackThunk (target a1 a2 a3 a4 : Nat)
  | createStruct (a : Nat → Nat) (hwnd : Nat)
  /-- User code writes to its memory. -/
  | userWrite (p : Nat) (bytes : List UInt8)

def ArenaCall.run : ArenaCall → LdrM Nat
  | .importStub => ldrpImportStub
  | .callbackThunk target a1 a2 a3 a4 => ldrpBuildCallbackThunk target a1 a2 a3 a4
  | .createStruct a hwnd => kiBuildCreateStruct a hwnd
  | .userWrite p bytes => do
    writeBytes p bytes
    pure 0

/-- The bytes that a call asks for and those it fills in. -/
def ArenaCall.need : ArenaCall → Nat
  | .importStub => stubSlotSize
  | .callbackThunk .. => callbackThunkSize
  | .createStruct .. => createStructSize
  | .userWrite .. => 0

def ArenaCall.code : ArenaCall → List UInt8
  | .importStub => stubCode
  | .callbackThunk target a1 a2 a3 a4 => callbackCode target a1 a2 a3 a4
  | .createStruct a hwnd => Ldr.createStruct a hwnd
  | .userWrite .. => []

/-- A loader with the ranges that were handed out, latest first, and the import stubs
among them that user code has not written to. -/
structure ArenaRun where
  link : LinkState
  ranges : List (Nat × Nat)
  intact : List Nat

/-- The arena is not there yet. -/
def ArenaStart (r : ArenaRun) : Prop := r.link.stubs.arena = 0 ∧ r.ranges = [] ∧ r.intact = []

/-- A result that is not 0 is a range of its own, unless it is the arena's base: the stubs
of imports share it when there is no room. -/
def HandsOut (t : LinkState) (a : Nat) : Prop := a ≠ 0 ∧ a ≠ t.stubs.arena

instance (t : LinkState) (a : Nat) : Decidable (HandsOut t a) :=
  inferInstanceAs (Decidable (_ ∧ _))

/-- What user code can write to. -/
def ArenaCall.Allowed : ArenaCall → Prop
  | .userWrite p bytes => p + bytes.length ≤ mmUserMax
  | _ => True

def ArenaCall.isStub : ArenaCall → Bool
  | .importStub => true
  | _ => false

/-- Whether the call leaves the slot at `a` alone, if it is not the kernel's doing. -/
def ArenaCall.spares : ArenaCall → Nat → Bool
  | .userWrite p bytes, a => a + stubSlotSize ≤ p ∨ p + bytes.length ≤ a
  | _, _ => true

def ArenaStep (r : ArenaRun) (c : ArenaCall) (t : ArenaRun) : Prop :=
  c.Allowed ∧ ∃ a, c.run r.link = some (a, t.link) ∧
    t.ranges = (if HandsOut t.link a then [(a, c.need)] else []) ++ r.ranges ∧
    t.intact = (if c.isStub ∧ HandsOut t.link a then [a] else []) ++ r.intact.filter c.spares

/-- Ranges laid one after another behind the two CFG thunks, up to the cursor. -/
inductive Stacked : Nat → List (Nat × Nat) → Prop
  | bottom : Stacked (stubArenaVa + 2 * stubSlotSize) []
  | range {next n : Nat} {ranges : List (Nat × Nat)} (below : Stacked next ranges) :
      Stacked (next + n) ((next, n) :: ranges)

/-- Two ranges that share no byte. -/
def RangesApart (x y : Nat × Nat) : Prop := x.1 + x.2 ≤ y.1 ∨ y.1 + y.2 ≤ x.1

theorem Stacked.bounds {next : Nat} {ranges : List (Nat × Nat)} (stacked : Stacked next ranges) :
    stubArenaVa + 2 * stubSlotSize ≤ next ∧
      ∀ x ∈ ranges, stubArenaVa + 2 * stubSlotSize ≤ x.1 ∧ x.1 + x.2 ≤ next := by
  induction stacked with
  | bottom => exact ⟨le_rfl, fun x here => absurd here List.not_mem_nil⟩
  | @range next n ranges below ih =>
    refine ⟨by omega, fun x here => ?_⟩
    rcases List.mem_cons.mp here with rfl | older
    · exact ⟨ih.1, le_rfl⟩
    · have := ih.2 x older
      omega

theorem Stacked.apart {next : Nat} {ranges : List (Nat × Nat)} (stacked : Stacked next ranges) :
    ranges.Pairwise RangesApart := by
  induction stacked with
  | bottom => exact .nil
  | range below ih => exact .cons (fun x older => .inr (below.bounds.2 x older).2) ih

/-- The code of an import stub is at `a`. -/
def StubAt (m : Memory) (a : Nat) : Prop := m a = 0x31 ∧ m (a + 1) = 0xC0 ∧ m (a + 2) = 0xC3

/-- The arena is in use. -/
structure ArenaUsed (r : ArenaRun) : Prop where
  arena : r.link.stubs.arena = stubArenaVa
  stop : r.link.stubs.stop = cfgTraceVa
  stacked : Stacked r.link.stubs.next r.ranges
  room : r.link.stubs.next ≤ cfgTraceVa
  intact : ∀ a ∈ r.intact, (a, stubSlotSize) ∈ r.ranges ∧ StubAt r.link.image.mem a

def ArenaSound (r : ArenaRun) : Prop := ArenaStart r ∨ ArenaUsed r

/-- The arena as the next producer finds it. -/
structure ArenaReady (r : ArenaRun) : Prop where
  arena : (readyStubs r.link).arena = stubArenaVa
  stop : (readyStubs r.link).stop = cfgTraceVa
  stacked : Stacked (readyStubs r.link).next r.ranges
  room : (readyStubs r.link).next ≤ cfgTraceVa
  intact : ∀ a ∈ r.intact, (a, stubSlotSize) ∈ r.ranges ∧ StubAt (readyMemory r.link) a

theorem ArenaSound.ready {r : ArenaRun} (sound : ArenaSound r) : ArenaReady r := by
  rcases sound with ⟨none, ranges, intact⟩ | used
  · have stubs : readyStubs r.link =
        ⟨stubArenaVa, stubArenaVa + 2 * stubSlotSize, cfgTraceVa⟩ := if_pos none
    refine ⟨by rw [stubs], by rw [stubs], ?_, ?_, fun a here => ?_⟩
    · rw [stubs, ranges]
      exact .bottom
    · rw [stubs]
      decide
    · rw [intact] at here
      cases here
  · have some_ : r.link.stubs.arena ≠ 0 := by
      rw [used.arena]
      decide
    have stubs : readyStubs r.link = r.link.stubs := if_neg some_
    have mem : readyMemory r.link = r.link.image.mem := if_neg some_
    refine ⟨?_, ?_, ?_, ?_, ?_⟩
    · rw [stubs, used.arena]
    · rw [stubs, used.stop]
    · rw [stubs]
      exact used.stacked
    · rw [stubs]
      exact used.room
    · rw [mem]
      exact used.intact

theorem StubAt.congr {m m' : Memory} (code : StubAt m a)
    (same : ∀ b, a ≤ b → b < a + stubSlotSize → m' b = m b) : StubAt m' a := by
  have size : stubSlotSize = 16 := rfl
  obtain ⟨first, second, third⟩ := code
  exact ⟨(same a (by omega) (by omega)).trans first,
    (same (a + 1) (by omega) (by omega)).trans second,
    (same (a + 2) (by omega) (by omega)).trans third⟩

/-- A producer keeps the ranges stacked, and the stubs below its range as they were. -/
theorem ArenaSound.takes {r t : ArenaRun} {need fallback a : Nat} {bytes : List UInt8}
    {stub : Bool} (sound : ArenaSound r) (takes : Takes need bytes fallback r.link t.link a)
    (shared : fallback = 0 ∨ fallback = (readyStubs r.link).arena)
    (fits : bytes.length ≤ need) (small : need < 2 ^ 32)
    (code : stub = true → need = stubSlotSize ∧ bytes = stubCode)
    (ranges : t.ranges = (if HandsOut t.link a then [(a, need)] else []) ++ r.ranges)
    (intact : t.intact = (if stub ∧ HandsOut t.link a then [a] else []) ++ r.intact) :
    ArenaSound t := by
  have ready := sound.ready
  have size : stubSlotSize = 16 := rfl
  have trace : cfgTraceVa = 0x88FF8 := rfl
  have va : stubArenaVa = 0x69000 := rfl
  cases takes with
  | unmapped none stubs mem =>
    have no : ¬HandsOut t.link 0 := fun out => out.1 rfl
    rw [if_neg no, List.nil_append] at ranges
    rw [if_neg (fun h => no h.2), List.nil_append] at intact
    rcases sound with ⟨_, before, before'⟩ | used
    · exact .inl ⟨by rw [stubs, none], by rw [ranges, before], by rw [intact, before']⟩
    · have := used.arena
      omega
  | full short stubs mem =>
    have no : ¬HandsOut t.link fallback := by
      rintro ⟨some_, other⟩
      rw [stubs] at other
      exact shared.elim some_ other
    rw [if_neg no, List.nil_append] at ranges
    rw [if_neg (fun h => no h.2), List.nil_append] at intact
    refine .inr ⟨?_, ?_, ?_, ?_, ?_⟩
    · rw [stubs, ready.arena]
    · rw [stubs, ready.stop]
    · rw [stubs, ranges]
      exact ready.stacked
    · rw [stubs]
      exact ready.room
    · rw [intact, ranges, mem]
      exact ready.intact
  | took room arena stop next mem =>
    obtain ⟨low, inside⟩ := ready.stacked.bounds
    have high := ready.room
    rw [ready.stop, wrap64, Nat.mod_eq_of_lt (by omega)] at room
    have cursor : t.link.stubs.next = (readyStubs r.link).next + need := by
      rcases next with same | same
      · exact same
      · rw [same, wrap64, Nat.mod_eq_of_lt (by omega)]
    have yes : HandsOut t.link (readyStubs r.link).next := by
      refine ⟨by omega, ?_⟩
      rw [arena, ready.arena]
      omega
    rw [if_pos yes] at ranges
    have kept : ∀ b < (readyStubs r.link).next, t.link.image.mem b = readyMemory r.link b := by
      intro b below
      rw [mem]
      exact putBytes_outside (by omega) (by omega) (.inl below)
    refine .inr ⟨by rw [arena, ready.arena], by rw [stop, ready.stop], ?_, by omega, ?_⟩
    · rw [cursor, ranges]
      exact .range ready.stacked
    · intro b here
      rw [intact, List.mem_append] at here
      rw [ranges]
      rcases here with new | old
      · by_cases made : stub = true
        · obtain ⟨rfl, rfl⟩ := code made
          rw [if_pos ⟨made, yes⟩, List.mem_singleton] at new
          subst new
          have byte : ∀ d < 3, t.link.image.mem ((readyStubs r.link).next + d) =
              stubCode.getD d 0 := by
            intro d three
            rw [mem]
            exact putBytes_inside (by omega) three
          exact ⟨List.mem_cons_self, byte 0 (by decide), byte 1 (by decide), byte 2 (by decide)⟩
        · rw [if_neg (fun h => made h.1)] at new
          cases new
      · obtain ⟨range, stubAt⟩ := ready.intact b old
        have bound := (inside _ range).2
        refine ⟨List.mem_cons_of_mem _ range, stubAt.congr fun c _ below => kept c ?_⟩
        simp only at bound
        omega

/-- User code changes nothing but bytes of its own range. -/
theorem ArenaSound.userWrite {r t : ArenaRun} {p : Nat}
    (sound : ArenaSound r) (step : ArenaStep r (.userWrite p bytes) t) : ArenaSound t := by
  obtain ⟨allowed, a, run, ranges, intact⟩ := step
  have limit : mmUserMax = 2 ^ 47 := by decide
  have size : stubSlotSize = 16 := rfl
  simp only [ArenaCall.Allowed] at allowed
  obtain ⟨_, u, written, run⟩ := bind_eq_some.mp run
  rw [writeBytes_eq, Option.some.injEq, Prod.mk.injEq] at written
  obtain ⟨-, written⟩ := written
  obtain ⟨rfl, link⟩ := Prod.mk.inj (Option.some.inj run)
  rw [link] at written
  have no : ¬HandsOut t.link 0 := fun out => out.1 rfl
  rw [if_neg no, List.nil_append] at ranges
  rw [if_neg (fun h => no h.2), List.nil_append] at intact
  rcases sound with ⟨none, before, before'⟩ | used
  · exact .inl ⟨by rw [← written]; exact none, by rw [ranges, before], by rw [intact, before']; rfl⟩
  · refine .inr ⟨?_, ?_, ?_, ?_, fun b here => ?_⟩
    · rw [← written]
      exact used.arena
    · rw [← written]
      exact used.stop
    · rw [← written, ranges]
      exact used.stacked
    · rw [← written]
      exact used.room
    · rw [intact, List.mem_filter] at here
      obtain ⟨range, stubAt⟩ := used.intact b here.1
      have spared : b + stubSlotSize ≤ p ∨ p + bytes.length ≤ b := of_decide_eq_true here.2
      have low := (used.stacked.bounds.2 _ range).2
      have high := used.room
      have trace : cfgTraceVa = 0x88FF8 := rfl
      simp only at low
      refine ⟨by rw [ranges]; exact range, stubAt.congr fun c above below => ?_⟩
      have mem : t.link.image.mem =
          putBytes r.link.image.mem p bytes.length fun d => bytes.getD d 0 := by rw [← written]
      rw [mem]
      exact putBytes_outside (by omega) (by omega) (by omega)

theorem ArenaSound.step {r t : ArenaRun} {c : ArenaCall} (sound : ArenaSound r)
    (step : ArenaStep r c t) : ArenaSound t := by
  cases c with
  | userWrite p bytes => exact sound.userWrite step
  | importStub =>
    obtain ⟨_, a, run, ranges, intact⟩ := step
    have all : r.intact.filter ArenaCall.importStub.spares = r.intact :=
      List.filter_eq_self.mpr fun _ _ => rfl
    rw [all] at intact
    exact sound.takes (ldrpImportStub_takes run) (.inr rfl) (by decide) (by decide)
      (fun _ => ⟨rfl, rfl⟩) ranges intact
  | callbackThunk target a1 a2 a3 a4 =>
    obtain ⟨_, a, run, ranges, intact⟩ := step
    have all : r.intact.filter (ArenaCall.callbackThunk target a1 a2 a3 a4).spares = r.intact :=
      List.filter_eq_self.mpr fun _ _ => rfl
    rw [all] at intact
    refine sound.takes (takeArena_takes run) (.inl rfl) ?_ (by decide)
      (fun no => absurd no Bool.false_ne_true) ranges intact
    rw [callbackCode_length]
    decide
  | createStruct fields hwnd =>
    obtain ⟨_, a, run, ranges, intact⟩ := step
    have all : r.intact.filter (ArenaCall.createStruct fields hwnd).spares = r.intact :=
      List.filter_eq_self.mpr fun _ _ => rfl
    rw [all] at intact
    exact sound.takes (takeArena_takes run) (.inl rfl) (createStruct_length fields hwnd).le
      (by decide) (fun no => absurd no Bool.false_ne_true) ranges intact

theorem reachable_arena_sound {r : ArenaRun} (run : Runs.Reachable ArenaStart ArenaStep r) :
    ArenaSound r :=
  run.invariant (fun _ start => .inl start) fun _ _ _ sound step => sound.step step

/-- Only the range that is handed out changes, beside the set-up of the arena. -/
theorem Takes.outside {r : ArenaRun} {need fallback b : Nat} (ready : ArenaReady r)
    (takes : Takes need bytes fallback r.link t a)
    (fits : bytes.length ≤ need) (small : need < 2 ^ 32) (out : HandsOut t a) (word : b < 2 ^ 64)
    (outside : b < a ∨ a + need ≤ b) : t.image.mem b = readyMemory r.link b := by
  cases takes with
  | unmapped => exact absurd rfl out.1
  | full short stubs mem => rw [mem]
  | took room arena stop next mem =>
    have high := ready.room
    have trace : cfgTraceVa = 0x88FF8 := rfl
    rw [mem]
    exact putBytes_outside (by omega) word (by omega)

/-- In every run the ranges handed out are apart from one another, lie in the arena and
clear of the CFG thunks and the trace word; the stubs that user code has not written to
hold their code; and a callback thunk is written within its range. An import gets no range
of its own exactly when the room for one is gone, and then it gets the arena's base. -/
theorem stub_ranges_disjoint {r : ArenaRun} (run : Runs.Reachable ArenaStart ArenaStep r) :
    r.ranges.Pairwise RangesApart ∧
    (∀ x ∈ r.ranges, stubArenaVa + 2 * stubSlotSize ≤ x.1 ∧ x.1 + x.2 ≤ cfgTraceVa) ∧
    (∀ a ∈ r.intact, (a, stubSlotSize) ∈ r.ranges ∧ StubAt r.link.image.mem a) ∧
    (∀ target a1 a2 a3 a4 a t,
      ldrpBuildCallbackThunk target a1 a2 a3 a4 r.link = some (a, t) → HandsOut t a →
      ∀ b < 2 ^ 64, b < a ∨ a + callbackThunkSize ≤ b →
        t.image.mem b = readyMemory r.link b) ∧
    ∀ a t, ldrpImportStub r.link = some (a, t) → a ≠ 0 →
      (¬HandsOut t a ↔ cfgTraceVa < (readyStubs r.link).next + stubSlotSize) ∧
      (¬HandsOut t a → a = stubArenaVa) := by
  have sound := reachable_arena_sound run
  refine ⟨?_, ?_, ?_, ?_, ?_⟩
  · rcases sound with start | used
    · rw [start.2.1]
      exact .nil
    · exact used.stacked.apart
  · rcases sound with start | used
    · rw [start.2.1]
      exact fun x here => absurd here List.not_mem_nil
    · intro x here
      have bound := used.stacked.bounds.2 x here
      have high := used.room
      omega
  · rcases sound with start | used
    · rw [start.2.2]
      exact fun x here => absurd here List.not_mem_nil
    · exact used.intact
  · intro target a1 a2 a3 a4 a t built out b word outside
    refine (takeArena_takes built).outside sound.ready ?_ (by decide) out word outside
    rw [callbackCode_length]
    decide
  · intro a t made some_
    have ready := sound.ready
    obtain ⟨low, -⟩ := ready.stacked.bounds
    have high := ready.room
    have size : stubSlotSize = 16 := rfl
    have trace : cfgTraceVa = 0x88FF8 := rfl
    have va : stubArenaVa = 0x69000 := rfl
    cases ldrpImportStub_takes made with
    | unmapped => exact absurd rfl some_
    | full short stubs mem =>
      rw [ready.stop, wrap64, Nat.mod_eq_of_lt (by omega)] at short
      have shared : ¬HandsOut t (readyStubs r.link).arena := by
        rw [HandsOut, stubs]
        exact fun out => out.2 rfl
      exact ⟨⟨fun _ => short, fun _ => shared⟩, fun _ => ready.arena⟩
    | took room arena =>
      rw [ready.stop, wrap64, Nat.mod_eq_of_lt (by omega)] at room
      have out : HandsOut t (readyStubs r.link).next := by
        rw [HandsOut, arena, ready.arena]
        exact ⟨some_, by omega⟩
      exact ⟨⟨fun shared => absurd out shared, fun short => absurd short room⟩,
        fun shared => absurd out shared⟩

/-- The arena of a callback kernel, which knows the cursor but not the bytes. -/
def callbackView (stackNext : Nat) (s : LinkState) : User.CallbackKernel :=
  ⟨stackNext, s.stubs.arena, s.stubs.next, s.stubs.stop⟩

/-- Taking bytes is the step of the callback kernel. -/
theorem takeArena_refines {r : ArenaRun} {need : Nat} (sound : ArenaSound r) (small : need < 2 ^ 32)
    (run : takeArena need bytes r.link = some (a, t)) (stackNext : Nat) :
    ∃ pages, User.takeStub pages need (callbackView stackNext r.link) =
      (a, callbackView stackNext t) := by
  have ready := sound.ready
  have high := ready.room
  have trace : cfgTraceVa = 0x88FF8 := rfl
  have exact_ : wrap64 ((readyStubs r.link).next + need) = (readyStubs r.link).next + need :=
    Nat.mod_eq_of_lt (by omega)
  have ensured : User.ldrpEnsureStubArena true (callbackView stackNext r.link) =
      (true, ⟨stackNext, (readyStubs r.link).arena, (readyStubs r.link).next,
        (readyStubs r.link).stop⟩) := by
    rw [User.ldrpEnsureStubArena, readyStubs, callbackView]
    by_cases none : r.link.stubs.arena = 0
    · rw [if_neg (not_not.mpr none), if_pos none]
      rfl
    · rw [if_pos none, if_neg none]
  cases takeArena_takes run with
  | unmapped none stubs mem =>
    refine ⟨false, ?_⟩
    rw [callbackView, callbackView, stubs]
    simp only [User.takeStub, User.ldrpEnsureStubArena, none, ne_eq, not_true_eq_false, if_false,
      Bool.not_false, if_true]
  | full short stubs mem =>
    rw [exact_] at short
    refine ⟨true, ?_⟩
    rw [User.takeStub, ensured, callbackView, stubs]
    simp only [Bool.not_true, Bool.false_eq_true, if_false, gt_iff_lt, if_pos short]
  | took room arena stop next mem =>
    rw [exact_] at room next
    refine ⟨true, ?_⟩
    rw [User.takeStub, ensured, callbackView, arena, stop, next.elim id id]
    simp only [Bool.not_true, Bool.false_eq_true, if_false, gt_iff_lt, if_neg room]

/-- A page takes four frames at most. -/
theorem mapArenaPages_of_frames (n : Nat) : ∀ (va : Nat) {vm : Mm.VmState},
    4 * n ≤ vm.frames.length → ∃ vm', mapArenaPages n va vm = some (true, vm') := by
  induction n with
  | zero => exact fun _ _ _ => ⟨_, rfl⟩
  | succ n ih =>
    intro va vm enough
    cases frames : vm.frames with
    | nil =>
      rw [frames, List.length_nil] at enough
      omega
    | cons pa rest =>
      rw [frames, List.length_cons] at enough
      have three : 4 * n + 3 ≤ rest.length := by omega
      obtain ⟨done, vm₁, first, left⟩ := Mm.mmMapPage_returns_of_frames (s := { vm with
        frames := rest }) three (BitVec.ofNat 64 va) pa (Mm.pteUser ||| Mm.pteWrite)
      obtain ⟨vm', later⟩ := ih (va + pageSize) left
      refine ⟨vm', ?_⟩
      simp only [mapArenaPages, frames, first, Option.bind_eq_bind, Option.bind_some]
      exact later

/-- A machine with 128 free frames before its first stub. -/
def bareArena : ArenaRun :=
  let frames := (List.range 128).map fun i => BitVec.ofNat 64 (0x2000 + i * 0x1000)
  ⟨⟨fun _ => ⟨.lit "", 0, 0, false⟩, 0, ⟨0, 0, 0⟩,
    ⟨⟨fun _ _ => 0, 0x1000#64, frames⟩, 0x400000000, fun _ => 0⟩⟩, [], []⟩

theorem bareArena_ensured : ∃ t, ldrpEnsureStubArena bareArena.link = some (true, t) := by
  have enough : 4 * stubArenaPages ≤ bareArena.link.image.vm.frames.length := by
    simp [bareArena, stubArenaPages]
  obtain ⟨vm, mapped⟩ := mapArenaPages_of_frames stubArenaPages stubArenaVa enough
  have lifted : (lift (mapArenaPages stubArenaPages stubArenaVa bareArena.link.image.vm) :
      LdrM (Bool × Mm.VmState)) bareArena.link = some ((true, vm), bareArena.link) := by
    rw [lift, mapped, Option.map_some]
  have got : (get : LdrM LinkState) bareArena.link = some (bareArena.link, bareArena.link) := rfl
  have done : (ldrpEnsureStubArena bareArena.link).map Prod.fst = some true := by
    rw [ldrpEnsureStubArena, bind_of_some got,
      if_neg (show ¬bareArena.link.stubs.arena ≠ 0 from not_not.mpr rfl), bind_of_some lifted]
    rfl
  obtain ⟨⟨_, t⟩, run, rfl⟩ := Option.map_eq_some_iff.mp done
  exact ⟨t, run⟩

theorem ldrpImportStub_takes_next (ensured : ldrpEnsureStubArena s = some (true, t))
    (room : ¬t.stubs.stop < wrap64 (t.stubs.next + stubSlotSize)) :
    ∃ u, ldrpImportStub s = some (t.stubs.next, u) := by
  have got : (get : LdrM LinkState) t = some (t, t) := rfl
  have done : (ldrpImportStub s).map Prod.fst = some t.stubs.next := by
    rw [ldrpImportStub, bind_of_some ensured, if_neg Bool.noConfusion, bind_of_some got,
      if_neg room]
    rfl
  obtain ⟨⟨_, u⟩, run, rfl⟩ := Option.map_eq_some_iff.mp done
  exact ⟨u, run⟩

theorem ldrpEnsureStubArena_used (used : s.stubs.arena ≠ 0) :
    ldrpEnsureStubArena s = some (true, s) := by
  have got : (get : LdrM LinkState) s = some (s, s) := rfl
  rw [ldrpEnsureStubArena, bind_of_some got, if_pos used]
  rfl

/-- One more import stub while there is room. -/
theorem stub_step {r : ArenaRun} (run : Runs.Reachable ArenaStart ArenaStep r)
    (ensured : ldrpEnsureStubArena r.link = some (true, s))
    (left : (readyStubs r.link).next + stubSlotSize ≤ cfgTraceVa) :
    ∃ t, Runs.Reachable ArenaStart ArenaStep t ∧
      t.link.stubs.next = (readyStubs r.link).next + stubSlotSize ∧
      t.intact = (readyStubs r.link).next :: r.intact ∧
      t.link.image.mem stubArenaVa = readyMemory r.link stubArenaVa := by
  have ready := (reachable_arena_sound run).ready
  obtain ⟨low, -⟩ := ready.stacked.bounds
  have size : stubSlotSize = 16 := rfl
  have trace : cfgTraceVa = 0x88FF8 := rfl
  have va : stubArenaVa = 0x69000 := rfl
  have stubs : s.stubs = readyStubs r.link := by
    rcases ldrpEnsureStubArena_cases ensured with ⟨-, stubs, -⟩ | ⟨no, -⟩
    · exact stubs
    · exact absurd no Bool.noConfusion
  have fits : wrap64 ((readyStubs r.link).next + stubSlotSize) =
      (readyStubs r.link).next + stubSlotSize := Nat.mod_eq_of_lt (by omega)
  have room : ¬(readyStubs r.link).stop < wrap64 ((readyStubs r.link).next + stubSlotSize) := by
    rw [fits, ready.stop]
    omega
  obtain ⟨u, made⟩ := ldrpImportStub_takes_next ensured (by rw [stubs]; exact room)
  rw [stubs] at made
  generalize slot : (readyStubs r.link).next = a at made
  cases ldrpImportStub_takes made with
  | unmapped => omega
  | full short => exact absurd short room
  | took _ arena stop next mem =>
    rw [fits] at next
    have out : HandsOut u (readyStubs r.link).next := by
      rw [HandsOut, arena, ready.arena]
      omega
    let t : ArenaRun := ⟨u, ((readyStubs r.link).next, stubSlotSize) :: r.ranges,
      (readyStubs r.link).next :: r.intact⟩
    have all : r.intact.filter ArenaCall.importStub.spares = r.intact :=
      List.filter_eq_self.mpr fun _ _ => rfl
    have step : ArenaStep r .importStub t := by
      refine ⟨trivial, _, made, ?_, ?_⟩
      · rw [if_pos out]
        rfl
      · rw [if_pos ⟨rfl, out⟩, all]
        rfl
    refine ⟨t, run.next step, next.elim id id, rfl, ?_⟩
    show u.image.mem stubArenaVa = _
    rw [mem]
    exact putBytes_outside (by simp only [stubCode, List.length_cons, List.length_nil]; omega)
      (by omega) (.inl (by omega))

/-- A run of `n + 1` import stubs, one behind the other; the first CFG thunk is a `ret`. -/
theorem stubs_reached (n : Nat) (few : n < 8189) : ∃ r,
    Runs.Reachable ArenaStart ArenaStep r ∧
      r.link.stubs.next = 0x69020 + (n + 1) * 16 ∧ 0x69020 ∈ r.intact ∧
      r.link.image.mem stubArenaVa = 0xC3 := by
  have va : stubArenaVa = 0x69000 := rfl
  have size : stubSlotSize = 16 := rfl
  have trace : cfgTraceVa = 0x88FF8 := rfl
  induction n with
  | zero =>
    obtain ⟨s, ensured⟩ := bareArena_ensured
    obtain ⟨t, run, next, intact, ret⟩ := stub_step (.of_initial ⟨rfl, rfl, rfl⟩) ensured
      (by decide)
    have code : readyMemory bareArena.link stubArenaVa = 0xC3 := by decide
    exact ⟨t, run, next, by rw [intact]; exact List.mem_cons_self, ret.trans code⟩
  | succ n ih =>
    obtain ⟨r, run, next, intact, ret⟩ := ih (by omega)
    rcases reachable_arena_sound run with start | used
    · rw [start.2.2] at intact
      cases intact
    have some_ : r.link.stubs.arena ≠ 0 := by
      rw [used.arena]
      decide
    have stubs : readyStubs r.link = r.link.stubs := if_neg some_
    have mem : readyMemory r.link = r.link.image.mem := if_neg some_
    obtain ⟨t, run', next', intact', ret'⟩ := stub_step run (ldrpEnsureStubArena_used some_) (by
      rw [stubs]
      omega)
    rw [stubs] at next'
    refine ⟨t, run', by omega, ?_, ?_⟩
    · rw [intact']
      exact List.mem_cons_of_mem _ intact
    · rw [ret', mem, ret]

/-- After two import stubs. -/
theorem stub_ranges_disjoint_two : ∃ r, Runs.Reachable ArenaStart ArenaStep r ∧
    r.link.stubs.next = 0x69040 ∧ StubAt r.link.image.mem 0x69020 ∧
    r.ranges.Pairwise RangesApart := by
  obtain ⟨r, run, next, intact, -⟩ := stubs_reached 1 (by decide)
  obtain ⟨apart, -, stubs, -⟩ := stub_ranges_disjoint run
  exact ⟨r, run, next, (stubs _ intact).2, apart⟩

/-- With 8189 stubs the arena is full, and the next import gets the CFG check thunk, which
is a bare `ret`. -/
theorem full_arena_gives_cfg_thunk : ∃ r t, Runs.Reachable ArenaStart ArenaStep r ∧
    ldrpImportStub r.link = some (stubArenaVa, t) ∧ t.image.mem stubArenaVa = 0xC3 ∧
    ¬StubAt t.image.mem stubArenaVa := by
  obtain ⟨r, run, next, intact, ret⟩ := stubs_reached 8188 (by decide)
  rcases reachable_arena_sound run with start | used
  · rw [start.2.2] at intact
    cases intact
  have some_ : r.link.stubs.arena ≠ 0 := by
    rw [used.arena]
    decide
  have got : (get : LdrM LinkState) r.link = some (r.link, r.link) := rfl
  have short : r.link.stubs.stop < wrap64 (r.link.stubs.next + stubSlotSize) := by
    rw [used.stop, next]
    decide
  refine ⟨r, r.link, run, ?_, ret, fun code => ?_⟩
  · rw [ldrpImportStub, bind_of_some (ldrpEnsureStubArena_used some_), if_neg Bool.noConfusion,
      bind_of_some got, if_pos short, used.arena]
    rfl
  · exact absurd (ret.symm.trans code.1) (by decide)

end Ldr
