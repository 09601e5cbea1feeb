import Mathlib.Logic.Function.Basic
import Svindows.Lib.WordStack

/-!
# The processor

What the assembly of `arch/x86_64` needs of the processor: the registers, the memory, the pair
of bases that `swapgs` exchanges, and the instructions of its routines. A routine is a list of
instructions whose jumps only go forward. Of the flags an instruction leaves, only the zero flag
of `test` and `cmp` is there: the routines look at no other one. Inside of a routine `rip` is
not followed.
-/

namespace Arch

open ByteMemory WordStack

inductive Reg
  | rax | rbx | rcx | rdx | rsi | rdi | rbp | rsp | r8 | r9 | r10 | r11 | r12 | r13 | r14 | r15
  deriving DecidableEq, Repr

/-- The registers that a function in C leaves as they were. -/
def calleeSaved : List Reg := [.rbx, .rbp, .r12, .r13, .r14, .r15]

structure Cpu where
  regs : Reg → Word
  mem : Memory
  rip : Word
  cs : Word
  rflags : Word
  ss : Word
  /-- The base of `gs`. -/
  gs : Word
  /-- `KERNEL_GS_BASE`, the base that `swapgs` puts in its place. -/
  kernelGs : Word

inductive Instr
  | push (r : Reg)
  | pushImm (w : Word)
  | pushGs (offset : Nat)
  | pop (r : Reg)
  | mov (dst src : Reg)
  | load (dst base : Reg) (offset : Nat)
  | store (base : Reg) (offset : Nat) (src : Reg)
  | loadGs (dst : Reg) (offset : Nat)
  | storeGs (offset : Nat) (src : Reg)
  | andImm (r : Reg) (w : Word)
  | addImm (r : Reg) (w : Word)
  | subImm (r : Reg) (w : Word)
  | testByte (base : Reg) (offset : Nat) (v : UInt8)
  | cmpByte (base : Reg) (offset : Nat) (v : UInt8)
  | storeByte (base : Reg) (offset : Nat) (v : UInt8)
  | swapgs
  /-- A call of a function in C, from the call to behind its return. -/
  | call (f : Cpu → Cpu)
  | jz (skip : Nat)
  | jne (skip : Nat)
  | iretq
  | sysret
  | ret

namespace Cpu

def sp (c : Cpu) : Nat := (c.regs .rsp).toNat

def set (c : Cpu) (r : Reg) (w : Word) : Cpu := { c with regs := Function.update c.regs r w }

/-- The address `[r + offset]`. -/
def place (c : Cpu) (r : Reg) (offset : Nat) : Nat := (c.regs r + BitVec.ofNat 64 offset).toNat

/-- The address `[gs:offset]`. -/
def gsPlace (c : Cpu) (offset : Nat) : Nat := (c.gs + BitVec.ofNat 64 offset).toNat

def push (c : Cpu) (w : Word) : Cpu :=
  { c.set .rsp (c.regs .rsp - 8#64) with mem := setWord c.mem (c.regs .rsp - 8#64).toNat w }

def pop (c : Cpu) (r : Reg) : Cpu := (c.set .rsp (c.regs .rsp + 8#64)).set r (word c.mem c.sp)

def zero (c : Cpu) : Bool := c.rflags.getLsbD 6

def setZero (c : Cpu) (b : Bool) : Cpu :=
  { c with rflags := if b then c.rflags ||| 0x40 else c.rflags &&& ~~~0x40 }

/-- A privilege level other than 0 is in the low bits of the selector. -/
def user (c : Cpu) : Bool := c.cs &&& 3 != 0

def iretq (c : Cpu) : Cpu :=
  { c.set .rsp (word c.mem (c.sp + 24)) with
    rip := word c.mem c.sp
    cs := word c.mem (c.sp + 8)
    rflags := word c.mem (c.sp + 16)
    ss := word c.mem (c.sp + 32) }

/-- What `SYSRET` makes of the flags in `r11`. -/
def sysretFlags (w : Word) : Word := w &&& 0x3C7FD7 ||| 2

def sysret (c : Cpu) : Cpu :=
  { c with rip := c.regs .rcx, rflags := sysretFlags (c.regs .r11), cs := 0x23, ss := 0x1B }

def ret (c : Cpu) : Cpu := { c.set .rsp (c.regs .rsp + 8#64) with rip := word c.mem c.sp }

/-- The processor takes an interrupt or an exception on the stack given, which it aligns. Of
the flags the gates clear that of the interrupts, and those of single steps and nested tasks. -/
def deliver (c : Cpu) (stack : Word) (error : Option Word) : Cpu :=
  let pushed := ([c.ss, c.regs .rsp, c.rflags, c.cs, c.rip] ++ error.toList).foldl push
    (c.set .rsp (stack &&& -16#64))
  { pushed with
    cs := 0x08
    ss := if c.user then 0 else c.ss
    rflags := c.rflags &&& ~~~0x14300 }

/-- `SYSCALL`, with the mask that the kernel has set. -/
def syscall (c : Cpu) : Cpu :=
  { (c.set .rcx c.rip).set .r11 c.rflags with
    rflags := c.rflags &&& ~~~0x700, cs := 0x08, ss := 0x10 }

end Cpu

namespace Instr

/-- An instruction with another one behind it. -/
def step (c : Cpu) : Instr → Cpu
  | push r => c.push (c.regs r)
  | pushImm w => c.push w
  | pushGs offset => c.push (word c.mem (c.gsPlace offset))
  | pop r => c.pop r
  | mov dst src => c.set dst (c.regs src)
  | load dst base offset => c.set dst (word c.mem (c.place base offset))
  | store base offset src => { c with mem := setWord c.mem (c.place base offset) (c.regs src) }
  | loadGs dst offset => c.set dst (word c.mem (c.gsPlace offset))
  | storeGs offset src => { c with mem := setWord c.mem (c.gsPlace offset) (c.regs src) }
  | andImm r w => c.set r (c.regs r &&& w)
  | addImm r w => c.set r (c.regs r + w)
  | subImm r w => c.set r (c.regs r - w)
  | testByte base offset v => c.setZero (c.mem (c.place base offset) &&& v == 0)
  | cmpByte base offset v => c.setZero (c.mem (c.place base offset) == v)
  | storeByte base offset v => { c with mem := Function.update c.mem (c.place base offset) v }
  | swapgs => { c with gs := c.kernelGs, kernelGs := c.gs }
  | call f => f c
  | _ => c

end Instr

/-- A routine, with so many instructions to jump over first. -/
def runFrom : Nat → List Instr → Cpu → Cpu
  | _, [], c => c
  | skip + 1, _ :: code, c => runFrom skip code c
  | 0, i :: code, c =>
    match i with
    | .jz n => runFrom (if c.zero then n else 0) code c
    | .jne n => runFrom (if c.zero then 0 else n) code c
    | .iretq => c.iretq
    | .sysret => c.sysret
    | .ret => c.ret
    | i => runFrom 0 code (i.step c)

def run (code : List Instr) (c : Cpu) : Cpu := runFrom 0 code c

variable {c : Cpu} {r : Reg} {rs : List Reg} {ws : List Word} {w : Word} {code : List Instr}

@[simp] theorem set_regs (c : Cpu) (r : Reg) (w : Word) :
    (c.set r w).regs = Function.update c.regs r w := rfl

@[simp] theorem zero_setZero (c : Cpu) (b : Bool) : (c.setZero b).zero = b := by
  cases b <;> simp [Cpu.setZero, Cpu.zero]

theorem sub_toNat {n : Nat} (room : n ≤ w.toNat) : (w - BitVec.ofNat 64 n).toNat = w.toNat - n := by
  have small := w.isLt
  have fits : (BitVec.ofNat 64 n).toNat = n := by
    rw [BitVec.toNat_ofNat, Nat.mod_eq_of_lt (Nat.lt_of_le_of_lt room small)]
  rw [BitVec.toNat_sub_of_le (by rw [BitVec.le_def, fits]; exact room), fits]

theorem add_toNat {n : Nat} (room : w.toNat + n < 2 ^ 64) :
    (w + BitVec.ofNat 64 n).toNat = w.toNat + n := by
  have small : n < 2 ^ 64 := by omega
  rw [BitVec.toNat_add, BitVec.toNat_ofNat, Nat.mod_eq_of_lt small, Nat.mod_eq_of_lt room]

theorem place_eq {n : Nat} (room : (c.regs r).toNat + n < 2 ^ 64) :
    c.place r n = (c.regs r).toNat + n :=
  add_toNat room

theorem gsPlace_eq {n : Nat} (room : c.gs.toNat + n < 2 ^ 64) : c.gsPlace n = c.gs.toNat + n :=
  add_toNat room

theorem sub_sub_ofNat (w : Word) (a b : Nat) :
    w - BitVec.ofNat 64 a - BitVec.ofNat 64 b = w - BitVec.ofNat 64 (a + b) := by
  rw [BitVec.ofNat_add, BitVec.sub_eq_add_neg, BitVec.sub_eq_add_neg, BitVec.sub_eq_add_neg,
    BitVec.neg_add, BitVec.add_assoc, BitVec.sub_eq_add_neg]

theorem sub_add_ofNat (w : Word) (a b : Nat) :
    w - BitVec.ofNat 64 (a + b) + BitVec.ofNat 64 b = w - BitVec.ofNat 64 a := by
  rw [← sub_sub_ofNat, BitVec.sub_add_cancel]

theorem add_add_ofNat (w : Word) (a b : Nat) :
    w + BitVec.ofNat 64 a + BitVec.ofNat 64 b = w + BitVec.ofNat 64 (a + b) := by
  rw [BitVec.ofNat_add, BitVec.add_assoc]

theorem foldl_push (room : 8 * ws.length ≤ c.sp) : ws.foldl Cpu.push c =
    { c.set .rsp (c.regs .rsp - BitVec.ofNat 64 (8 * ws.length)) with
      mem := pushAll c.mem c.sp ws } := by
  induction ws generalizing c with
  | nil => simp [Cpu.set, pushAll]
  | cons w ws ih =>
    rw [List.length_cons] at room
    have here : (c.regs .rsp - 8#64).toNat = c.sp - 8 := sub_toNat (by rw [← Cpu.sp]; omega)
    have sp : (c.push w).sp = c.sp - 8 := here
    have later : 8 * (ws.length + 1) = 8 + 8 * ws.length := by omega
    rw [List.foldl_cons, ih (by omega), sp, List.length_cons, later, ← sub_sub_ofNat, pushAll,
      ← here]
    simp only [Cpu.push, Cpu.set, Function.update_self, Function.update_idem]

/-- The registers in `rs` are pushed as they are, since none of them is the stack pointer. -/
theorem foldl_pushes (apart : .rsp ∉ rs) :
    (rs.map Instr.push).foldl Instr.step c = (rs.map c.regs).foldl Cpu.push c := by
  induction rs generalizing c with
  | nil => rfl
  | cons r rs ih =>
    have same : rs.map (c.push (c.regs r)).regs = rs.map c.regs :=
      List.map_congr_left fun q member => by
        have here : q ≠ .rsp := fun here => apart (here ▸ List.mem_cons_of_mem r member)
        exact Function.update_of_ne here _ _
    rw [List.map_cons, List.foldl_cons, Instr.step, ih fun member => apart (.tail r member), same]
    rfl

/-- What lies on the stack for the registers in `rs` is what they are given. -/
theorem foldl_pops {g : Reg → Word} (apart : .rsp ∉ rs) (room : c.sp + 8 * rs.length < 2 ^ 64)
    (holds : Holds c.mem c.sp (rs.map g)) : (rs.map Instr.pop).foldl Instr.step c =
      { c with regs := fun r =>
          if r = .rsp then c.regs .rsp + BitVec.ofNat 64 (8 * rs.length)
          else if r ∈ rs then g r else c.regs r } := by
  induction rs generalizing c with
  | nil =>
    have same : (fun r => if r = .rsp then c.regs .rsp else c.regs r) = c.regs := by
      funext r
      split_ifs with here
      · rw [here]
      · rfl
    simp [same]
  | cons r rs ih =>
    rw [List.length_cons] at room
    have here : r ≠ .rsp := fun same => apart (same ▸ List.mem_cons_self)
    obtain ⟨first, later⟩ := holds
    have sp : (c.pop r).sp = c.sp + 8 := by
      have moved : (c.regs .rsp + 8#64).toNat = c.sp + 8 := add_toNat (by rw [← Cpu.sp]; omega)
      rw [← moved]
      simp [Cpu.pop, Cpu.sp, here.symm]
    have rest := ih (c := c.pop r) (fun member => apart (.tail r member)) (by omega)
      (by rw [sp]; exact later)
    have count : 8 * (rs.length + 1) = 8 + 8 * rs.length := by omega
    rw [List.map_cons, List.foldl_cons, Instr.step, rest, List.length_cons, count, ← add_add_ofNat]
    simp only [Cpu.pop, Cpu.set, first, Cpu.mk.injEq, and_true]
    funext q
    by_cases stack : q = .rsp
    · simp [stack, here.symm]
    · by_cases same : q = r
      · simp [same, here]
      · simp [stack, same]

variable {b : Word} {base dst src : Reg} {n : Nat}

theorem step_store (here : c.regs base = b) (room : b.toNat + n < 2 ^ 64) :
    Instr.step c (.store base n src) =
      { c with mem := setWord c.mem (b.toNat + n) (c.regs src) } := by
  subst here
  rw [Instr.step, place_eq room]

theorem step_load (here : c.regs base = b) (room : b.toNat + n < 2 ^ 64) :
    Instr.step c (.load dst base n) = c.set dst (word c.mem (b.toNat + n)) := by
  subst here
  rw [Instr.step, place_eq room]

theorem step_loadGs (here : c.gs = b) (room : b.toNat + n < 2 ^ 64) :
    Instr.step c (.loadGs dst n) = c.set dst (word c.mem (b.toNat + n)) := by
  subst here
  rw [Instr.step, gsPlace_eq room]

/-- The next instruction comes next. -/
def Instr.straight : Instr → Bool
  | .jz _ => false
  | .jne _ => false
  | .iretq => false
  | .sysret => false
  | .ret => false
  | _ => true

theorem runFrom_straight (straight : List Instr) (plain : straight.all Instr.straight = true)
    (code : List Instr) (c : Cpu) :
    runFrom 0 (straight ++ code) c = runFrom 0 code (straight.foldl Instr.step c) := by
  induction straight generalizing c with
  | nil => rfl
  | cons i straight ih =>
    rw [List.all_cons, Bool.and_eq_true] at plain
    rw [List.cons_append, List.foldl_cons, ← ih plain.2]
    cases i <;> first | rfl | cases plain.1

theorem runFrom_skip (skipped code : List Instr) (c : Cpu) :
    runFrom skipped.length (skipped ++ code) c = runFrom 0 code c := by
  induction skipped with
  | nil => rfl
  | cons i skipped ih => exact ih

/-- The low bits of an address that goes down by a multiple of 16. -/
theorem aligned_sub {n : Nat} (aligned : w &&& 15#64 = 0) (room : 16 * n ≤ w.toNat) :
    (w - BitVec.ofNat 64 (16 * n)) &&& 15#64 = 0 := by
  have low (x : Word) : (x &&& 15#64).toNat = x.toNat % 16 := by
    rw [BitVec.toNat_and]
    exact Nat.and_two_pow_sub_one_eq_mod x.toNat 4
  have here := low w
  rw [aligned] at here
  apply BitVec.eq_of_toNat_eq
  rw [low, sub_toNat room]
  change (w.toNat - 16 * n) % 16 = 0
  have zero : (0 : Word).toNat = 0 := rfl
  omega

end Arch
