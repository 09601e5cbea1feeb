import Svindows.Arch.Cpu

/-!
# Interrupts and exceptions

The 256 stubs of `isr.asm` and their common path. Each brings the stack to one layout, the
`KTRAP_FRAME` that `KiDispatchTrap` is given, and goes back to what was interrupted. The layout
is written down twice, in the pushes and in the structure of `ntos/ke.h`.
-/

namespace Arch

open ByteMemory WordStack

/-- The vectors for which the processor pushes an error code. -/
def hasErrorCode (vector : Nat) : Bool := [8, 10, 11, 12, 13, 14, 17, 21].contains vector

def isrStub (vector : Nat) : List Instr :=
  (if hasErrorCode vector then [] else [.pushImm 0]) ++ [.pushImm (BitVec.ofNat 64 vector)]

/-- The registers in the order in which the common path pushes them. -/
def isrPushes : List Reg :=
  [.rax, .rbx, .rcx, .rdx, .rsi, .rdi, .rbp, .r8, .r9, .r10, .r11, .r12, .r13, .r14, .r15]

def isrPops : List Reg :=
  [.r15, .r14, .r13, .r12, .r11, .r10, .r9, .r8, .rbp, .rdi, .rsi, .rdx, .rcx, .rbx, .rax]

def isrSave : List Instr :=
  isrPushes.map .push ++ [.mov .rdi .rsp, .mov .rbp .rsp, .andImm .rsp (-16#64)]

def isrLeave : List Instr :=
  .mov .rsp .rbp :: isrPops.map .pop ++
    [.addImm .rsp 16#64] ++ [.testByte .rsp 8 3, .jz 1, .swapgs] ++ [.iretq]

def isrCommon (kiDispatchTrap : Cpu → Cpu) : List Instr :=
  [.testByte .rsp 24 3, .jz 1, .swapgs] ++ (isrSave ++ .call kiDispatchTrap :: isrLeave)

/-- The code behind the gate of a vector. -/
def isr (vector : Nat) (kiDispatchTrap : Cpu → Cpu) : List Instr :=
  isrStub vector ++ isrCommon kiDispatchTrap

structure KTrapFrame where
  r15 : Word
  r14 : Word
  r13 : Word
  r12 : Word
  r11 : Word
  r10 : Word
  r9 : Word
  r8 : Word
  rbp : Word
  rdi : Word
  rsi : Word
  rdx : Word
  rcx : Word
  rbx : Word
  rax : Word
  vector : Word
  errorCode : Word
  rip : Word
  cs : Word
  rflags : Word
  rsp : Word
  ss : Word

/-- The fields in memory, from the first one up. -/
def KTrapFrame.words (f : KTrapFrame) : List Word :=
  [f.r15, f.r14, f.r13, f.r12, f.r11, f.r10, f.r9, f.r8, f.rbp, f.rdi, f.rsi, f.rdx, f.rcx, f.rbx,
    f.rax, f.vector, f.errorCode, f.rip, f.cs, f.rflags, f.rsp, f.ss]

def sizeofKTrapFrame : Nat := 176

/-- What was interrupted, as a frame. -/
def Cpu.frame (c : Cpu) (vector errorCode : Word) : KTrapFrame where
  r15 := c.regs .r15
  r14 := c.regs .r14
  r13 := c.regs .r13
  r12 := c.regs .r12
  r11 := c.regs .r11
  r10 := c.regs .r10
  r9 := c.regs .r9
  r8 := c.regs .r8
  rbp := c.regs .rbp
  rdi := c.regs .rdi
  rsi := c.regs .rsi
  rdx := c.regs .rdx
  rcx := c.regs .rcx
  rbx := c.regs .rbx
  rax := c.regs .rax
  vector := vector
  errorCode := errorCode
  rip := c.rip
  cs := c.cs
  rflags := c.rflags
  rsp := c.regs .rsp
  ss := c.ss

/-- What `KiDispatchTrap` finds when it is called. -/
structure Presents (c : Cpu) (vector errorCode : Word) (d : Cpu) : Prop where
  frame : Holds d.mem (d.regs .rdi).toNat (c.frame vector errorCode).words
  elsewhere : ∀ a, a < (d.regs .rdi).toNat ∨ (d.regs .rdi).toNat + sizeofKTrapFrame ≤ a →
    d.mem a = c.mem a
  below : d.sp ≤ (d.regs .rdi).toNat
  aligned : d.regs .rsp &&& 15#64 = 0
  cs : d.cs = 0x08
  interrupts : d.rflags.getLsbD 9 = false
  gs : d.gs = if c.user then c.kernelGs else c.gs
  kernelGs : d.kernelGs = if c.user then c.gs else c.kernelGs

/-- A function in C that leaves the frame as it is. -/
structure KeepsFrame (d d' : Cpu) : Prop where
  rbp : d'.regs .rbp = d.regs .rbp
  gs : d'.gs = d.gs
  kernelGs : d'.kernelGs = d.kernelGs
  frame : ∀ a, (d.regs .rdi).toNat ≤ a → a < (d.regs .rdi).toNat + sizeofKTrapFrame →
    d'.mem a = d.mem a

/-- All but the memory is the same. -/
structure Resumes (c c' : Cpu) : Prop where
  regs : c'.regs = c.regs
  rip : c'.rip = c.rip
  cs : c'.cs = c.cs
  rflags : c'.rflags = c.rflags
  ss : c'.ss = c.ss
  gs : c'.gs = c.gs
  kernelGs : c'.kernelGs = c.kernelGs

variable {c : Cpu} {stack : Word} {error : Option Word}

/-- The top of the stack that the processor pushes on. -/
def trapStack (stack : Word) : Word := stack &&& -16#64

/-- Behind the stub, where all vectors look alike. -/
def entered (c : Cpu) (stack vector errorCode : Word) : Cpu :=
  { c.set .rsp (trapStack stack - 56#64) with
    mem := pushAll c.mem (trapStack stack).toNat
      [c.ss, c.regs .rsp, c.rflags, c.cs, c.rip, errorCode, vector]
    cs := 0x08
    ss := if c.user then 0 else c.ss
    rflags := c.rflags &&& ~~~0x14300 }

theorem stub_enters {vector : Nat} (hardware : error.isSome = hasErrorCode vector)
    (room : sizeofKTrapFrame ≤ (trapStack stack).toNat) :
    (isrStub vector).foldl Instr.step (c.deliver stack error) =
      entered c stack (BitVec.ofNat 64 vector) (error.getD 0) := by
  have sp : (c.set .rsp (trapStack stack)).sp = (trapStack stack).toNat := by simp [Cpu.sp]
  have pushes : (isrStub vector).foldl Instr.step (c.deliver stack error) =
      { [c.ss, c.regs .rsp, c.rflags, c.cs, c.rip, error.getD 0, BitVec.ofNat 64 vector].foldl
          Cpu.push (c.set .rsp (trapStack stack)) with
        cs := 0x08
        ss := if c.user then 0 else c.ss
        rflags := c.rflags &&& ~~~0x14300 } := by
    cases error with
    | none =>
      rw [isrStub, ← hardware]
      rfl
    | some code =>
      rw [isrStub, ← hardware]
      rfl
  rw [sizeofKTrapFrame] at room
  rw [pushes, foldl_push (by rw [sp]; simp only [List.length_cons, List.length_nil]; omega), sp]
  simp only [entered, Cpu.set, Function.update_self, Function.update_idem, List.length_cons,
    List.length_nil]

theorem tested {m : Memory} {a : Nat} (cs : word m a = c.cs) : (m a &&& 3 == 0) = !c.user := by
  have low : (m a &&& 3).toNat = (c.cs &&& 3#64).toNat := by
    rw [UInt8.toNat_and, BitVec.toNat_and, byte_toNat, cs]
    change c.cs.toNat % 2 ^ 8 &&& (2 ^ 2 - 1) = c.cs.toNat &&& (2 ^ 2 - 1)
    rw [Nat.and_two_pow_sub_one_eq_mod, Nat.and_two_pow_sub_one_eq_mod]
    omega
  have same : m a &&& 3 = 0 ↔ c.cs &&& 3#64 = 0 := by
    rw [← UInt8.toNat_inj, ← BitVec.toNat_inj, low]
    rfl
  rw [Bool.eq_iff_iff]
  simp [Cpu.user, same]

/-- `swapgs`, if the code that was interrupted was not the kernel's. -/
def swapIf (user : Bool) (c : Cpu) : Cpu :=
  if user then { c.setZero false with gs := c.kernelGs, kernelGs := c.gs } else c.setZero true

variable {d : Cpu}

/-- On the way out the bases are exchanged back. -/
theorem swapIf_back (gs : d.gs = if c.user then c.kernelGs else c.gs)
    (kernelGs : d.kernelGs = if c.user then c.gs else c.kernelGs) :
    (swapIf c.user d).gs = c.gs ∧ (swapIf c.user d).kernelGs = c.kernelGs := by
  cases user : c.user with
  | false =>
    rw [user] at gs kernelGs
    exact ⟨gs, kernelGs⟩
  | true =>
    rw [user] at gs kernelGs
    exact ⟨kernelGs, gs⟩

theorem run_swap {offset : Nat} (cs : word d.mem (d.place .rsp offset) = c.cs) (code : List Instr) :
    runFrom 0 ([.testByte .rsp offset 3, .jz 1, .swapgs] ++ code) d =
      runFrom 0 code (swapIf c.user d) := by
  have test := tested cs
  cases user : c.user <;>
    simp only [List.cons_append, List.nil_append, runFrom, Instr.step, test, user, swapIf,
      zero_setZero, Bool.not_true, Bool.not_false, if_true, Bool.false_eq_true, if_false]
  rfl

/-- The state in which `KiDispatchTrap` is called. -/
def atDispatch (c : Cpu) (stack vector errorCode : Word) : Cpu :=
  isrSave.foldl Instr.step (swapIf c.user (entered c stack vector errorCode))

variable {vector errorCode : Word}

/-- Behind the stub and `swapgs`. -/
structure Enters (c : Cpu) (stack vector errorCode : Word) (d : Cpu) : Prop where
  rsp : d.regs .rsp = trapStack stack - 56#64
  regs : ∀ r, r ≠ .rsp → d.regs r = c.regs r
  holds : Holds d.mem ((trapStack stack).toNat - 56)
    [vector, errorCode, c.rip, c.cs, c.rflags, c.regs .rsp, c.ss]
  elsewhere : ∀ a, a < (trapStack stack).toNat - 56 ∨ (trapStack stack).toNat ≤ a →
    d.mem a = c.mem a
  cs : d.cs = 0x08
  interrupts : d.rflags.getLsbD 9 = false
  gs : d.gs = if c.user then c.kernelGs else c.gs
  kernelGs : d.kernelGs = if c.user then c.gs else c.kernelGs

theorem enteredWords_fit (room : sizeofKTrapFrame ≤ (trapStack stack).toNat) :
    8 * [c.ss, c.regs .rsp, c.rflags, c.cs, c.rip, errorCode, vector].length ≤
      (trapStack stack).toNat :=
  Nat.le_trans (Nat.le_of_ble_eq_true rfl) room

theorem swapIf_enters (room : sizeofKTrapFrame ≤ (trapStack stack).toNat) :
    Enters c stack vector errorCode (swapIf c.user (entered c stack vector errorCode)) := by
  have mem : (swapIf c.user (entered c stack vector errorCode)).mem =
      pushAll c.mem (trapStack stack).toNat
        [c.ss, c.regs .rsp, c.rflags, c.cs, c.rip, errorCode, vector] := by
    cases c.user <;> rfl
  have regs : (swapIf c.user (entered c stack vector errorCode)).regs =
      Function.update c.regs .rsp (trapStack stack - 56#64) := by
    cases c.user <;> rfl
  constructor
  case rsp => rw [regs, Function.update_self]
  case regs =>
    intro r other
    rw [regs, Function.update_of_ne other]
  case holds =>
    rw [mem]
    exact holds_pushAll (enteredWords_fit room)
  case elsewhere =>
    intro a apart
    rw [mem]
    exact pushAll_outside (enteredWords_fit room) apart
  case cs => cases c.user <;> rfl
  case interrupts =>
    cases user : c.user <;> simp [swapIf, Cpu.setZero, entered]
  case gs => cases c.user <;> rfl
  case kernelGs => cases c.user <;> rfl

theorem entered_cs (room : sizeofKTrapFrame ≤ (trapStack stack).toNat) :
    word (entered c stack vector errorCode).mem
      ((entered c stack vector errorCode).place .rsp 24) = c.cs := by
  have top := (trapStack stack).isLt
  have low : 176 ≤ (trapStack stack).toNat := room
  have sp : ((entered c stack vector errorCode).regs .rsp).toNat = (trapStack stack).toNat - 56 :=
    sub_toNat (Nat.le_trans (by decide) room)
  rw [place_eq (by rw [sp]; omega), sp]
  exact (holds_pushAll (enteredWords_fit room)).word (i := 3) rfl

theorem run_isr {vector : Nat} (hardware : error.isSome = hasErrorCode vector)
    (room : sizeofKTrapFrame ≤ (trapStack stack).toNat) (kiDispatchTrap : Cpu → Cpu) :
    run (isr vector kiDispatchTrap) (c.deliver stack error) = runFrom 0 isrLeave
      (kiDispatchTrap (atDispatch c stack (BitVec.ofNat 64 vector) (error.getD 0))) := by
  have stub : (isrStub vector).all Instr.straight = true := by
    rw [isrStub]
    cases hasErrorCode vector <;> rfl
  rw [run, isr, runFrom_straight _ stub, stub_enters hardware room, isrCommon,
    run_swap (entered_cs room), runFrom_straight isrSave rfl]
  rfl

/-- The address of the frame. -/
def framePlace (stack : Word) : Word := trapStack stack - 176#64

theorem framePlace_toNat (room : sizeofKTrapFrame ≤ (trapStack stack).toNat) :
    (framePlace stack).toNat = (trapStack stack).toNat - 176 :=
  sub_toNat room

/-- The registers are on the stack, and the function that is called is given the frame. -/
structure Saves (d e : Cpu) : Prop where
  mem : e.mem = pushAll d.mem d.sp (isrPushes.map d.regs)
  rdi : e.regs .rdi = d.regs .rsp - 120#64
  rbp : e.regs .rbp = d.regs .rsp - 120#64
  rsp : e.regs .rsp = (d.regs .rsp - 120#64) &&& -16#64
  cs : e.cs = d.cs
  rflags : e.rflags = d.rflags
  gs : e.gs = d.gs
  kernelGs : e.kernelGs = d.kernelGs

theorem isrSave_saves (room : 120 ≤ d.sp) : Saves d (isrSave.foldl Instr.step d) := by
  have count : 8 * (isrPushes.map d.regs).length = 120 := rfl
  rw [isrSave, List.foldl_append, foldl_pushes (by decide), foldl_push (count ▸ room), count]
  simp only [List.foldl_cons, List.foldl_nil, Instr.step, Cpu.set, Function.update_self]
  exact ⟨by simp only, by simp, by simp, by simp, rfl, rfl, rfl, rfl⟩

theorem Enters.words (enters : Enters c stack vector errorCode d) :
    (c.frame vector errorCode).words = (isrPushes.map d.regs).reverse ++
      [vector, errorCode, c.rip, c.cs, c.rflags, c.regs .rsp, c.ss] := by
  have same : isrPushes.map d.regs = isrPushes.map c.regs :=
    List.map_congr_left fun r member =>
      enters.regs r (by rintro rfl; exact absurd member (by decide))
  rw [same]
  rfl

theorem Enters.sp (enters : Enters c stack vector errorCode d)
    (room : sizeofKTrapFrame ≤ (trapStack stack).toNat) :
    d.sp = (trapStack stack).toNat - 56 := by
  rw [Cpu.sp, enters.rsp]
  exact sub_toNat (Nat.le_trans (by decide) room)

/-- The frame is where both registers say. -/
theorem Enters.place (enters : Enters c stack vector errorCode d)
    (room : sizeofKTrapFrame ≤ (trapStack stack).toNat) :
    (isrSave.foldl Instr.step d).regs .rdi = framePlace stack ∧
      (isrSave.foldl Instr.step d).regs .rbp = framePlace stack := by
  have low : 176 ≤ (trapStack stack).toNat := room
  have sp := enters.sp room
  have saves := isrSave_saves (d := d) (by omega)
  have frame : d.regs .rsp - 120#64 = framePlace stack := by
    rw [enters.rsp, sub_sub_ofNat, framePlace]
  exact ⟨saves.rdi.trans frame, saves.rbp.trans frame⟩

theorem Enters.presents (enters : Enters c stack vector errorCode d)
    (room : sizeofKTrapFrame ≤ (trapStack stack).toNat) :
    Presents c vector errorCode (isrSave.foldl Instr.step d) := by
  have low : 176 ≤ (trapStack stack).toNat := room
  have place := framePlace_toNat room
  have sp := enters.sp room
  have count : 8 * (isrPushes.map d.regs).length = 120 := rfl
  have enough : 8 * (isrPushes.map d.regs).length ≤ (trapStack stack).toNat - 56 := by omega
  have bottom : (trapStack stack).toNat - 56 - 8 * (isrPushes.map d.regs).length =
      (trapStack stack).toNat - 176 := by omega
  have saves := isrSave_saves (d := d) (by omega)
  have mem := saves.mem
  rw [sp] at mem
  have rdi : ((isrSave.foldl Instr.step d).regs .rdi).toNat = (trapStack stack).toNat - 176 := by
    rw [(enters.place room).1, place]
  constructor
  case frame =>
    have behind : (trapStack stack).toNat - 176 + 8 * (isrPushes.map d.regs).reverse.length =
        (trapStack stack).toNat - 56 := by
      rw [List.length_reverse]
      omega
    rw [rdi, mem, enters.words, holds_append, behind]
    refine ⟨?_, enters.holds.congr fun a inside _ => pushAll_outside enough (.inr inside)⟩
    rw [← bottom]
    exact holds_pushAll enough
  case elsewhere =>
    intro a apart
    rw [rdi, sizeofKTrapFrame] at apart
    rw [mem, pushAll_outside enough (by omega)]
    exact enters.elsewhere a (by omega)
  case below =>
    rw [Cpu.sp, saves.rdi, saves.rsp, BitVec.toNat_and]
    exact Nat.and_le_left
  case aligned =>
    rw [saves.rsp, BitVec.and_assoc]
    exact BitVec.and_zero
  case cs => exact saves.cs.trans enters.cs
  case interrupts => exact saves.rflags ▸ enters.interrupts
  case gs => exact saves.gs.trans enters.gs
  case kernelGs => exact saves.kernelGs.trans enters.kernelGs

/-- The registers have their values again, and the stack pointer is at `rip`. -/
structure Restores (c d e : Cpu) (f : Word) : Prop where
  rsp : e.regs .rsp = f + 136#64
  regs : ∀ r, r ≠ .rsp → e.regs r = c.regs r
  mem : e.mem = d.mem
  gs : e.gs = d.gs
  kernelGs : e.kernelGs = d.kernelGs

/-- The code up to the test. -/
def isrRestore : List Instr := .mov .rsp .rbp :: isrPops.map .pop ++ [.addImm .rsp 16#64]

theorem isrRestore_restores {f : Word} (rbp : d.regs .rbp = f)
    (room : f.toNat + sizeofKTrapFrame < 2 ^ 64)
    (frame : Holds d.mem f.toNat (c.frame vector errorCode).words) :
    Restores c d (isrRestore.foldl Instr.step d) f := by
  rw [sizeofKTrapFrame] at room
  have split : (c.frame vector errorCode).words = isrPops.map c.regs ++
      [vector, errorCode, c.rip, c.cs, c.rflags, c.regs .rsp, c.ss] := rfl
  rw [split, holds_append] at frame
  have top : (d.set .rsp f).sp = f.toNat := by simp [Cpu.sp]
  have moved : Instr.step d (.mov .rsp .rbp) = d.set .rsp f := by rw [Instr.step, rbp]
  have count : 8 * isrPops.length = 120 := rfl
  have apart : .rsp ∉ isrPops := by decide
  have popped := foldl_pops (c := d.set .rsp f) (g := c.regs) apart (by rw [top, count]; omega)
    (by rw [top]; exact frame.1)
  rw [isrRestore, List.cons_append, List.foldl_cons, moved, List.foldl_append, popped, count]
  constructor
  case rsp =>
    simp only [List.foldl_cons, List.foldl_nil, Instr.step, Cpu.set, Function.update_self, if_true]
    rw [add_add_ofNat]
  case regs =>
    intro r other
    have member : r ∈ isrPops := by
      cases r <;> first | decide | exact absurd rfl other
    simp [Instr.step, Cpu.set, other, member]
  case mem => rfl
  case gs => rfl
  case kernelGs => rfl

theorem isrLeave_resumes {f : Word} (rbp : d.regs .rbp = f)
    (room : f.toNat + sizeofKTrapFrame < 2 ^ 64)
    (frame : Holds d.mem f.toNat (c.frame vector errorCode).words)
    (gs : d.gs = if c.user then c.kernelGs else c.gs)
    (kernelGs : d.kernelGs = if c.user then c.gs else c.kernelGs) :
    Resumes c (runFrom 0 isrLeave d) ∧ (runFrom 0 isrLeave d).mem = d.mem := by
  have restores := isrRestore_restores rbp room frame
  rw [sizeofKTrapFrame] at room
  have code : isrLeave = isrRestore ++ ([.testByte .rsp 8 3, .jz 1, .swapgs] ++ [.iretq]) := rfl
  rw [code, runFrom_straight isrRestore rfl]
  generalize isrRestore.foldl Instr.step d = e at *
  have sp : e.sp = f.toNat + 136 := by
    rw [Cpu.sp, restores.rsp]
    exact add_toNat (by omega)
  have place : e.place .rsp 8 = f.toNat + 144 := by
    rw [place_eq (by rw [← Cpu.sp]; omega), ← Cpu.sp, sp]
  have cs : word e.mem (e.place .rsp 8) = c.cs := by
    rw [place, restores.mem]
    exact frame.word (i := 18) rfl
  have regs : (swapIf c.user e).regs = e.regs := by cases c.user <;> rfl
  have mem : (swapIf c.user e).mem = d.mem := by cases c.user <;> exact restores.mem
  have bases := swapIf_back (restores.gs.trans gs) (restores.kernelGs.trans kernelGs)
  have slot {i : Nat} {w : Word} (there : (c.frame vector errorCode).words[17 + i]? = some w) :
      word (swapIf c.user e).mem ((swapIf c.user e).sp + 8 * i) = w := by
    have here : (swapIf c.user e).sp + 8 * i = f.toNat + 8 * (17 + i) := by
      rw [Cpu.sp, regs, ← Cpu.sp, sp]
      omega
    rw [here, mem]
    exact frame.word there
  rw [run_swap cs]
  refine ⟨?_, mem⟩
  constructor
  case regs =>
    change Function.update (swapIf c.user e).regs .rsp _ = c.regs
    rw [slot (i := 3) rfl, regs]
    funext r
    by_cases here : r = .rsp
    · rw [here, Function.update_self]
      rfl
    · rw [Function.update_of_ne here, restores.regs r here]
  case rip => exact slot (i := 0) rfl
  case cs => exact slot (i := 1) rfl
  case rflags => exact slot (i := 2) rfl
  case ss => exact slot (i := 4) rfl
  case gs => exact bases.1
  case kernelGs => exact bases.2

/-- From the interrupted code to `KiDispatchTrap` and back. -/
structure TrapLaw (c : Cpu) (vector errorCode : Word) (kiDispatchTrap : Cpu → Cpu)
    (d final : Cpu) : Prop where
  presents : Presents c vector errorCode d
  returns : KeepsFrame d (kiDispatchTrap d) →
    Resumes c final ∧ final.mem = (kiDispatchTrap d).mem

theorem traps_are_transparent (c : Cpu) {vector : Nat} {error : Option Word} {stack : Word}
    (hardware : error.isSome = hasErrorCode vector)
    (room : sizeofKTrapFrame ≤ (trapStack stack).toNat) (kiDispatchTrap : Cpu → Cpu) :
    ∃ d, TrapLaw c (BitVec.ofNat 64 vector) (error.getD 0) kiDispatchTrap d
      (run (isr vector kiDispatchTrap) (c.deliver stack error)) := by
  have low : 176 ≤ (trapStack stack).toNat := room
  have top := (trapStack stack).isLt
  have enters : Enters c stack (BitVec.ofNat 64 vector) (error.getD 0) _ := swapIf_enters room
  have presents := enters.presents room
  obtain ⟨rdi, rbp⟩ := enters.place room
  refine ⟨atDispatch c stack (BitVec.ofNat 64 vector) (error.getD 0), presents, fun keeps => ?_⟩
  have frame := presents.frame.congr keeps.frame
  rw [atDispatch, rdi] at frame
  rw [run_isr hardware room]
  exact isrLeave_resumes (keeps.rbp.trans rbp)
    (by rw [framePlace_toNat room, sizeofKTrapFrame]; omega) frame
    (keeps.gs.trans presents.gs) (keeps.kernelGs.trans presents.kernelGs)

/-- User code, with the bases as they are outside of the kernel. -/
def userCpu : Cpu := ⟨fun _ => 7, fun _ => 0, 0x401000, 0x23, 0x202, 0x1B, 0x5000, 0x1000⟩

theorem traps_are_transparent_clock :
    ∃ d, TrapLaw userCpu (BitVec.ofNat 64 32) 0 id d
      (run (isr 32 id) (userCpu.deliver 0x9000 none)) :=
  traps_are_transparent userCpu (by decide : (none : Option Word).isSome = hasErrorCode 32)
    (by decide) id

end Arch
