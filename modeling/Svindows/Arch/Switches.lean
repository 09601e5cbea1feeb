import Mathlib.Logic.Relation
import Svindows.Arch.Cpu

/-!
# Context switches

`KiSwitchContext` of `switch.asm`, with what `KiSchedule` does around it and the stack that
`KepAllocThread` makes up for a new thread. A thread that is switched away from waits on its own
stack. Whatever the other threads do, as long as they leave that part of its stack alone, it
goes on as it was when it is switched to again.
-/

namespace Arch

open ByteMemory WordStack

def kiSwitchContext : List Instr :=
  calleeSaved.map .push ++ [.store .rdi 0 .rsp, .mov .rsp .rsi] ++ calleeSaved.reverse.map .pop ++
    [.ret]

def threadStackSize : Nat := 0x4000

/-- Where each thread, one in `T`, has its stack and the field `KernelStackPointer` of its
`KTHREAD`. -/
structure Layout (T : Type) where
  slot : T → Word
  low : T → Nat
  high : T → Nat
  stackFits : ∀ t, high t < 2 ^ 64
  slotFits : ∀ t, (slot t).toNat + 8 ≤ 2 ^ 64
  stackStack : ∀ t u, t ≠ u → high t ≤ low u ∨ high u ≤ low t
  slotSlot : ∀ t u, t ≠ u →
    (slot t).toNat + 8 ≤ (slot u).toNat ∨ (slot u).toNat + 8 ≤ (slot t).toNat
  slotStack : ∀ t u, (slot t).toNat + 8 ≤ low u ∨ high u ≤ (slot t).toNat

/-- The fields of a `KTHREAD` that a switch reads, with an image of the floating point unit in
`F`. -/
structure SwitchThread (F : Type) where
  kernelStackBase : Word
  kernelStackSize : Word
  userGsBase : Word
  fpuState : F

structure Kernel (T F : Type) where
  cpu : Cpu
  fpu : F
  current : T
  threads : T → SwitchThread F
  made : T → Bool
  /-- The stack for system calls, in the `KPCR`. -/
  kernelRsp : Word
  /-- The stack for interrupts of user code, in the `TSS`. -/
  tssRsp0 : Word

/-- The addresses of the `KPCR`, of what is behind the call in `KiSchedule`, and of
`KiThreadStartup`. -/
structure Links where
  kpcr : Word
  behindCall : Word
  kiThreadStartup : Word

variable {T F : Type} [DecidableEq T] (layout : Layout T) (links : Links)

namespace Kernel

/-- `KepAllocThread` with the stack that it was given. -/
def kepAllocThread (s : Kernel T F) (t : T) (stack : Word) : Kernel T F :=
  let top := stack + BitVec.ofNat 64 threadStackSize
  let pushed := pushAll s.cpu.mem top.toNat [links.kiThreadStartup, 0, 0, 0, 0, 0, 0]
  { s with
    cpu := { s.cpu with mem := setWord pushed (layout.slot t).toNat (top - 56#64) }
    threads := Function.update s.threads t ⟨stack, BitVec.ofNat 64 threadStackSize, 0, s.fpu⟩
    made := Function.update s.made t true }

/-- `KeCreateUserThread`; without a block for `gs`, `KeCreateThread`. -/
def keCreateUserThread (s : Kernel T F) (t : T) (stack userGsBase : Word) : Kernel T F :=
  let s := s.kepAllocThread layout links t stack
  { s with
    threads := Function.update s.threads t { s.threads t with userGsBase := userGsBase } }

/-- `KeSetKernelStack`. -/
def keSetKernelStack (s : Kernel T F) (rsp : Word) : Kernel T F :=
  { s with kernelRsp := rsp, tssRsp0 := rsp }

/-- `KeSetUserGsBase`. -/
def keSetUserGsBase (s : Kernel T F) (teb : Word) : Kernel T F :=
  { s with cpu := { s.cpu with kernelGs := if teb ≠ 0 then teb else links.kpcr } }

/-- The end of `KiSchedule`, where it has another thread to run. -/
def switchTo (s : Kernel T F) (next : T) : Kernel T F :=
  let prev := s.current
  let s := { s with current := next }
  let s := if (s.threads next).kernelStackBase ≠ 0 then
      s.keSetKernelStack ((s.threads next).kernelStackBase + (s.threads next).kernelStackSize)
    else s
  let s := s.keSetUserGsBase links (s.threads next).userGsBase
  let s := { s with
    threads := Function.update s.threads prev { s.threads prev with fpuState := s.fpu } }
  let s := { s with fpu := (s.threads next).fpuState }
  let called := ((s.cpu.set .rdi (layout.slot prev)).set .rsi
    (word s.cpu.mem (layout.slot next).toNat)).push links.behindCall
  { s with cpu := run kiSwitchContext called }

end Kernel

variable {c : Cpu} {g : Reg → Word} {rip : Word}

/-- The memory that a switch leaves: the registers on the stack, and in the field of the thread
where they are. -/
def leftMem (c : Cpu) : Memory :=
  setWord (pushAll c.mem c.sp (calleeSaved.map c.regs)) (c.regs .rdi).toNat
    (c.regs .rsp - 48#64)

/-- The words that a thread waits with: its registers as the pops want them, and where it goes
on. -/
def savedWords (g : Reg → Word) (rip : Word) : List Word := calleeSaved.reverse.map g ++ [rip]

theorem left_eq (room : 48 ≤ c.sp) :
    (calleeSaved.map Instr.push ++ [Instr.store .rdi 0 .rsp, .mov .rsp .rsi]).foldl Instr.step c =
      { c.set .rsp (c.regs .rsi) with mem := leftMem c } := by
  have pushed : (calleeSaved.map Instr.push).foldl Instr.step c =
      { c.set .rsp (c.regs .rsp - 48#64) with
        mem := pushAll c.mem c.sp (calleeSaved.map c.regs) } := by
    rw [foldl_pushes (by decide), foldl_push (by simpa [calleeSaved] using room)]
    rfl
  rw [List.foldl_append, pushed]
  simp [Instr.step, Cpu.set, Cpu.place, leftMem]

theorem foldl_pops_mem (c : Cpu) (rs : List Reg) :
    ((rs.map Instr.pop).foldl Instr.step c).mem = c.mem := by
  induction rs generalizing c with
  | nil => rfl
  | cons r rs ih => exact ih (c.pop r)

/-- Whatever it comes to, it writes nothing else. -/
theorem run_kiSwitchContext_mem (room : 48 ≤ c.sp) : (run kiSwitchContext c).mem = leftMem c := by
  have last (d : Cpu) : (runFrom 0 [.ret] d).mem = d.mem := rfl
  rw [run, kiSwitchContext, runFrom_straight _ rfl, List.foldl_append, left_eq room, last,
    foldl_pops_mem]

theorem run_kiSwitchContext (room : 48 ≤ c.sp) (fits : (c.regs .rsi).toNat + 56 < 2 ^ 64)
    (holds : Holds (leftMem c) (c.regs .rsi).toNat (savedWords g rip)) :
    run kiSwitchContext c = { c with
      regs := fun r => if r = .rsp then c.regs .rsi + 56#64 else
        if r ∈ calleeSaved then g r else c.regs r
      mem := leftMem c
      rip := rip } := by
  obtain ⟨saved, back⟩ := holds_append.mp holds
  have popped := foldl_pops (c := { c.set .rsp (c.regs .rsi) with mem := leftMem c })
    (g := g) (by decide : Reg.rsp ∉ calleeSaved.reverse) (by simp [Cpu.sp, calleeSaved]; omega)
    (by simpa [Cpu.sp] using saved)
  have sp : (c.regs .rsi + 48#64).toNat = (c.regs .rsi).toNat + 48 := add_toNat (by omega)
  have top : c.regs .rsi + 48#64 + 8#64 = c.regs .rsi + 56#64 := add_add_ofNat _ 48 8
  have slot : word (leftMem c) (c.regs .rsi + 48#64).toNat = rip := by
    rw [sp]
    exact back.1
  rw [run, kiSwitchContext, runFrom_straight _ rfl, List.foldl_append, left_eq room, popped]
  simp only [runFrom, Cpu.ret, Cpu.sp, Cpu.set, Function.update_self, List.mem_reverse]
  generalize leftMem c = m at *
  have count : BitVec.ofNat 64 (8 * calleeSaved.reverse.length) = 48#64 := rfl
  simp only [if_true, count, top, slot, Cpu.mk.injEq, and_true]
  funext r
  by_cases stack : r = .rsp
  · simp [stack]
  · simp [stack]

/-- What a thread was about: where it goes on, what a function in C counts on there, and its
`KTHREAD`. Of the memory only its stack from `rsp` up is meant. -/
structure Context (F : Type) where
  regs : Reg → Word
  rsp : Word
  rip : Word
  mem : Memory
  entry : SwitchThread F

/-- The context of the thread that runs, when it calls `KiSchedule`. -/
def Kernel.context (s : Kernel T F) : Context F :=
  ⟨s.cpu.regs, s.cpu.regs .rsp, links.behindCall, s.cpu.mem,
    { s.threads s.current with fpuState := s.fpu }⟩

/-- The context that a new thread is made up with. -/
def Kernel.newContext (s : Kernel T F) (stack userGsBase : Word) : Context F :=
  ⟨fun _ => 0, stack + BitVec.ofNat 64 threadStackSize, links.kiThreadStartup, s.cpu.mem,
    ⟨stack, BitVec.ofNat 64 threadStackSize, userGsBase, s.fpu⟩⟩

/-- The thread `t` does not run and goes on with `x`. -/
structure Parked (s : Kernel T F) (t : T) (x : Context F) : Prop where
  made : s.made t = true
  away : s.current ≠ t
  entry : s.threads t = x.entry
  room : layout.low t + 56 ≤ x.rsp.toNat
  inside : x.rsp.toNat ≤ layout.high t
  slot : word s.cpu.mem (layout.slot t).toNat = x.rsp - 56#64
  saved : Holds s.cpu.mem (x.rsp.toNat - 56) (savedWords x.regs x.rip)
  stack : ∀ a, x.rsp.toNat ≤ a → a < layout.high t → s.cpu.mem a = x.mem a

/-- The thread `t` goes on with `x`, on its own stack also where it enters the kernel again. -/
structure Resumed (s : Kernel T F) (t : T) (x : Context F) : Prop where
  current : s.current = t
  regs : ∀ r ∈ calleeSaved, s.cpu.regs r = x.regs r
  rsp : s.cpu.regs .rsp = x.rsp
  rip : s.cpu.rip = x.rip
  fpu : s.fpu = x.entry.fpuState
  entry : s.threads t = x.entry
  stack : ∀ a, x.rsp.toNat ≤ a → a < layout.high t → s.cpu.mem a = x.mem a
  kernelGs : s.cpu.kernelGs = if x.entry.userGsBase ≠ 0 then x.entry.userGsBase else links.kpcr
  kernelRsp : x.entry.kernelStackBase ≠ 0 →
    s.kernelRsp = x.entry.kernelStackBase + x.entry.kernelStackSize ∧ s.tssRsp0 = s.kernelRsp

/-- What the thread that runs does by itself. It leaves alone what the others wait with. -/
structure Work (s s' : Kernel T F) : Prop where
  current : s'.current = s.current
  threads : s'.threads = s.threads
  made : s'.made = s.made
  slots : ∀ t, s.made t = true → s.current ≠ t → ∀ a, (layout.slot t).toNat ≤ a →
    a < (layout.slot t).toNat + 8 → s'.cpu.mem a = s.cpu.mem a
  live : ∀ t, s.made t = true → s.current ≠ t →
    ∀ a, (word s.cpu.mem (layout.slot t).toNat).toNat ≤ a → a < layout.high t →
      s'.cpu.mem a = s.cpu.mem a

structure CanCreate (s : Kernel T F) (t : T) (stack : Word) : Prop where
  fresh : s.made t = false
  other : s.current ≠ t
  low : layout.low t = stack.toNat
  high : layout.high t = stack.toNat + threadStackSize

/-- The thread that runs has room on its stack for a switch to `next`. -/
structure CanSwitch (s : Kernel T F) (next : T) : Prop where
  mine : s.made s.current = true
  made : s.made next = true
  other : s.current ≠ next
  room : layout.low s.current + 56 ≤ s.cpu.sp
  inside : s.cpu.sp ≤ layout.high s.current

inductive Step : Kernel T F → Kernel T F → Prop
  | work {s s' : Kernel T F} (work : Work layout s s') : Step s s'
  | create {s : Kernel T F} {t : T} {stack : Word} (userGsBase : Word)
      (can : CanCreate layout s t stack) :
      Step s (s.keCreateUserThread layout links t stack userGsBase)
  | switch {s : Kernel T F} {next : T} (can : CanSwitch layout s next) :
      Step s (s.switchTo layout links next)

/-- A step behind which `t` does not run. -/
def Away (t : T) (s s' : Kernel T F) : Prop := Step layout links s s' ∧ s'.current ≠ t

/-- The thread `t` is left with `x`, or made with it. -/
inductive Leaves : T → Context F → Kernel T F → Kernel T F → Prop
  | switch {s : Kernel T F} {next : T} (can : CanSwitch layout s next) :
      Leaves s.current (s.context links) s (s.switchTo layout links next)
  | create {s : Kernel T F} {t : T} {stack : Word} (userGsBase : Word)
      (can : CanCreate layout s t stack) :
      Leaves t (s.newContext links stack userGsBase) s
        (s.keCreateUserThread layout links t stack userGsBase)

variable {layout links} {s s' : Kernel T F} {t next : T} {x : Context F}

/-- The call of `KiSwitchContext`. -/
def Kernel.called (s : Kernel T F) (layout : Layout T) (links : Links) (next : T) : Cpu :=
  (((s.keSetUserGsBase links (s.threads next).userGsBase).cpu.set .rdi
    (layout.slot s.current)).set .rsi (word s.cpu.mem (layout.slot next).toNat)).push
      links.behindCall

theorem switchTo_cpu :
    (s.switchTo layout links next).cpu = run kiSwitchContext (s.called layout links next) := by
  simp only [Kernel.switchTo]
  split_ifs <;> rfl

theorem switchTo_current : (s.switchTo layout links next).current = next := by
  simp only [Kernel.switchTo]
  split_ifs <;> rfl

theorem switchTo_made : (s.switchTo layout links next).made = s.made := by
  simp only [Kernel.switchTo]
  split_ifs <;> rfl

theorem switchTo_threads : (s.switchTo layout links next).threads =
    Function.update s.threads s.current { s.threads s.current with fpuState := s.fpu } := by
  simp only [Kernel.switchTo]
  split_ifs <;> rfl

theorem switchTo_fpu (other : s.current ≠ next) :
    (s.switchTo layout links next).fpu = (s.threads next).fpuState := by
  simp only [Kernel.switchTo]
  split_ifs <;> simp [Kernel.keSetUserGsBase, Kernel.keSetKernelStack, other.symm]

/-- The idle thread has no stack from the pool, and never enters the kernel from user code. -/
theorem switchTo_kernelRsp (owned : (s.threads next).kernelStackBase ≠ 0) :
    (s.switchTo layout links next).kernelRsp =
        (s.threads next).kernelStackBase + (s.threads next).kernelStackSize ∧
      (s.switchTo layout links next).tssRsp0 = (s.switchTo layout links next).kernelRsp := by
  simp only [Kernel.switchTo, if_pos owned]
  exact ⟨rfl, rfl⟩

/-- The memory behind a switch. -/
def Kernel.parkedMem (s : Kernel T F) (layout : Layout T) (links : Links) : Memory :=
  setWord (pushAll s.cpu.mem s.cpu.sp (links.behindCall :: calleeSaved.map s.cpu.regs))
    (layout.slot s.current).toNat (s.cpu.regs .rsp - 56#64)

omit [DecidableEq T] in
theorem called_sp (room : 56 ≤ s.cpu.sp) : (s.called layout links next).sp = s.cpu.sp - 8 := by
  have here : (s.cpu.regs .rsp - 8#64).toNat = s.cpu.sp - 8 := sub_toNat (by rw [← Cpu.sp]; omega)
  rw [← here]
  simp [Kernel.called, Cpu.sp, Cpu.push, Cpu.set, Kernel.keSetUserGsBase]

omit [DecidableEq T] in
theorem called_leftMem (room : 56 ≤ s.cpu.sp) :
    leftMem (s.called layout links next) = s.parkedMem layout links := by
  have here : (s.cpu.regs .rsp - 8#64).toNat = s.cpu.sp - 8 := sub_toNat (by rw [← Cpu.sp]; omega)
  have twice : s.cpu.regs .rsp - 8#64 - 48#64 = s.cpu.regs .rsp - 56#64 := sub_sub_ofNat _ 8 48
  rw [leftMem, called_sp room, Kernel.parkedMem, pushAll, ← here]
  simp [Kernel.called, Cpu.push, Cpu.set, Kernel.keSetUserGsBase, calleeSaved, twice]

theorem switchTo_mem (room : 56 ≤ s.cpu.sp) :
    (s.switchTo layout links next).cpu.mem = s.parkedMem layout links := by
  rw [switchTo_cpu, run_kiSwitchContext_mem (by rw [called_sp room]; omega), called_leftMem room]

omit [DecidableEq T] in
theorem parkedMem_outside {a : Nat} (room : 56 ≤ s.cpu.sp)
    (stack : a < s.cpu.sp - 56 ∨ s.cpu.sp ≤ a)
    (slot : a < (layout.slot s.current).toNat ∨ (layout.slot s.current).toNat + 8 ≤ a) :
    s.parkedMem layout links a = s.cpu.mem a := by
  rw [Kernel.parkedMem, setWord_outside slot]
  exact pushAll_outside (by simpa [calleeSaved] using room) (by simpa [calleeSaved] using stack)

omit [DecidableEq T] in
theorem CanSwitch.fits (can : CanSwitch layout s next) : 56 ≤ s.cpu.sp :=
  Nat.le_trans (Nat.le_add_left ..) can.room

omit [DecidableEq T] in
/-- The stack of another thread is not touched. -/
theorem CanSwitch.parkedMem_stack {a : Nat} (can : CanSwitch layout s next)
    (other : s.current ≠ t) (low : layout.low t ≤ a) (high : a < layout.high t) :
    s.parkedMem layout links a = s.cpu.mem a := by
  have room := can.room
  have inside := can.inside
  have stackStack := layout.stackStack s.current t other
  have slotStack := layout.slotStack s.current t
  exact parkedMem_outside can.fits (by omega) (by omega)

theorem savedWords_length (g : Reg → Word) (rip : Word) : (savedWords g rip).length = 7 := rfl

theorem pushed_holds {m : Memory} {sp : Nat} (room : 56 ≤ sp) :
    Holds (pushAll m sp (rip :: calleeSaved.map g)) (sp - 56) (savedWords g rip) := by
  have pushed : Holds (pushAll m sp (rip :: calleeSaved.map g))
      (sp - 8 * (rip :: calleeSaved.map g).length) (rip :: calleeSaved.map g).reverse :=
    holds_pushAll (by simpa [calleeSaved] using room)
  simpa [savedWords, calleeSaved] using pushed

theorem CanSwitch.parks (can : CanSwitch layout s next) :
    Parked layout (s.switchTo layout links next) s.current (s.context links) := by
  have room := can.fits
  have low := can.room
  have high := can.inside
  have apart := layout.slotStack s.current s.current
  have mem : (s.switchTo layout links next).cpu.mem = s.parkedMem layout links :=
    switchTo_mem room
  constructor
  case made => exact (congrFun switchTo_made _).trans can.mine
  case away =>
    rw [switchTo_current]
    exact can.other.symm
  case entry =>
    rw [switchTo_threads, Function.update_self]
    rfl
  case room => exact low
  case inside => exact high
  case slot =>
    rw [mem]
    exact word_setWord ..
  case saved =>
    rw [mem]
    exact (pushed_holds (m := s.cpu.mem) room).congr fun a low below => setWord_outside (by
      rw [savedWords_length] at below
      omega)
  case stack =>
    intro a above below
    have above : s.cpu.sp ≤ a := above
    rw [mem]
    exact parkedMem_outside room (.inr above) (by omega)

omit [DecidableEq T] in
theorem CanCreate.top {stack : Word} (can : CanCreate layout s t stack) :
    (stack + BitVec.ofNat 64 threadStackSize).toNat = layout.high t := by
  have high := can.high
  have fits := layout.stackFits t
  rw [add_toNat (by omega), high]

theorem created_outside {stack gs : Word} {a : Nat} (can : CanCreate layout s t stack)
    (apart : a < layout.low t ∨ layout.high t ≤ a)
    (slot : a < (layout.slot t).toNat ∨ (layout.slot t).toNat + 8 ≤ a) :
    (s.keCreateUserThread layout links t stack gs).cpu.mem a = s.cpu.mem a := by
  have low := can.low
  have high := can.high
  rw [threadStackSize] at high
  have length : ([links.kiThreadStartup, 0, 0, 0, 0, 0, 0] : List Word).length = 7 := rfl
  have pushed : pushAll s.cpu.mem (layout.high t) [links.kiThreadStartup, 0, 0, 0, 0, 0, 0] a =
      s.cpu.mem a :=
    pushAll_outside (by rw [length]; omega) (by rw [length]; omega)
  rw [← pushed, ← can.top]
  exact setWord_outside slot

theorem CanCreate.parks {stack gs : Word} (can : CanCreate layout s t stack) :
    Parked layout (s.keCreateUserThread layout links t stack gs) t
      (s.newContext links stack gs) := by
  have low := can.low
  have high := can.high
  have apart := layout.slotStack t t
  have top := can.top
  rw [threadStackSize] at high
  constructor
  case made => simp [Kernel.keCreateUserThread, Kernel.kepAllocThread]
  case away => exact can.other
  case entry => simp [Kernel.keCreateUserThread, Kernel.kepAllocThread, Kernel.newContext]
  case room =>
    rw [Kernel.newContext, top]
    omega
  case inside =>
    rw [Kernel.newContext, top]
  case slot => exact word_setWord ..
  case saved =>
    rw [Kernel.newContext, top]
    have pushed : Holds
        (pushAll s.cpu.mem (layout.high t)
          (links.kiThreadStartup :: calleeSaved.map fun _ => (0 : Word)))
        (layout.high t - 56) (savedWords (fun _ => 0) links.kiThreadStartup) :=
      pushed_holds (by omega)
    rw [← top] at pushed ⊢
    exact pushed.congr fun a low below => setWord_outside (by
      rw [savedWords_length] at below
      omega)
  case stack =>
    intro a above below
    rw [Kernel.newContext, top] at above
    omega

omit [DecidableEq T] in
/-- A waiting thread goes on waiting if the memory that it waits with stays as it is. -/
theorem Parked.keep (parked : Parked layout s t x) (made : s'.made t = true)
    (away : s'.current ≠ t) (entry : s'.threads t = s.threads t)
    (slot : ∀ a, (layout.slot t).toNat ≤ a → a < (layout.slot t).toNat + 8 →
      s'.cpu.mem a = s.cpu.mem a)
    (live : ∀ a, x.rsp.toNat - 56 ≤ a → a < layout.high t → s'.cpu.mem a = s.cpu.mem a) :
    Parked layout s' t x where
  made := made
  away := away
  entry := entry.trans parked.entry
  room := parked.room
  inside := parked.inside
  slot := (word_congr slot).trans parked.slot
  saved := parked.saved.congr fun a low high => live a low (by
    have room := parked.room
    have inside := parked.inside
    rw [savedWords_length] at high
    omega)
  stack a low high := (live a (by omega) high).trans (parked.stack a low high)

theorem Parked.step (parked : Parked layout s t x) (step : Step layout links s s')
    (away : s'.current ≠ t) : Parked layout s' t x := by
  have room := parked.room
  have inside := parked.inside
  have saved : (x.rsp - 56#64).toNat = x.rsp.toNat - 56 := sub_toNat (by omega)
  cases step with
  | work work =>
    have live := work.live t parked.made parked.away
    rw [parked.slot, saved] at live
    exact parked.keep (work.made ▸ parked.made) away (congrFun work.threads t)
      (work.slots t parked.made parked.away) live
  | @create u stack gs can =>
    have other : t ≠ u := fun same => by
      have made := parked.made
      rw [same, can.fresh] at made
      cases made
    have stackStack := layout.stackStack t u other
    have slotSlot := layout.slotSlot t u other
    have slotStack := layout.slotStack t u
    have stackSlot := layout.slotStack u t
    have made : (s.keCreateUserThread layout links u stack gs).made t = s.made t :=
      Function.update_of_ne other ..
    have entry : (s.keCreateUserThread layout links u stack gs).threads t = s.threads t := by
      simp [Kernel.keCreateUserThread, Kernel.kepAllocThread, other]
    exact parked.keep (made.trans parked.made) away entry
      (fun a low high => created_outside can (by omega) (by omega))
      (fun a low high => created_outside can (by omega) (by omega))
  | @switch next can =>
    have other := parked.away
    have entry : (s.switchTo layout links next).threads t = s.threads t := by
      rw [switchTo_threads, Function.update_of_ne other.symm]
    have made : (s.switchTo layout links next).made t = s.made t := congrFun switchTo_made t
    refine parked.keep (made.trans parked.made) away entry ?slots ?live
    case slots =>
      have prevRoom := can.room
      have prevInside := can.inside
      have slotSlot := layout.slotSlot s.current t other
      have stackSlot := layout.slotStack t s.current
      intro a low high
      rw [switchTo_mem can.fits]
      exact parkedMem_outside can.fits (by omega) (by omega)
    case live =>
      intro a low high
      rw [switchTo_mem can.fits]
      exact can.parkedMem_stack other (by omega) high

theorem Parked.resumes (parked : Parked layout s t x) (can : CanSwitch layout s t) :
    Resumed layout links (s.switchTo layout links t) t x := by
  have room := parked.room
  have inside := parked.inside
  have fits := layout.stackFits t
  have other := parked.away
  have prevRoom := can.fits
  have saved : (x.rsp - 56#64).toNat = x.rsp.toNat - 56 := sub_toNat (by omega)
  have load : (s.called layout links t).regs .rsi = x.rsp - 56#64 := by
    simp [Kernel.called, Cpu.push, Cpu.set, Kernel.keSetUserGsBase, parked.slot]
  have live : ∀ a, x.rsp.toNat - 56 ≤ a → a < layout.high t →
      s.parkedMem layout links a = s.cpu.mem a :=
    fun a low high => can.parkedMem_stack other (by omega) high
  have holds : Holds (leftMem (s.called layout links t))
      ((s.called layout links t).regs .rsi).toNat (savedWords x.regs x.rip) := by
    rw [called_leftMem prevRoom, load, saved]
    exact parked.saved.congr fun a low high => live a low (by
      rw [savedWords_length] at high
      omega)
  have ran := run_kiSwitchContext (by rw [called_sp prevRoom]; omega)
    (by rw [load, saved]; omega) holds
  rw [load, called_leftMem prevRoom, ← switchTo_cpu] at ran
  have entry : (s.switchTo layout links t).threads t = x.entry := by
    rw [switchTo_threads, Function.update_of_ne other.symm, parked.entry]
  constructor
  case current => exact switchTo_current
  case regs =>
    intro r member
    have here : r ≠ .rsp := by
      revert r
      decide
    rw [ran]
    simp [here, member]
  case rsp =>
    rw [ran]
    exact BitVec.sub_add_cancel _ _
  case rip => rw [ran]
  case fpu => rw [switchTo_fpu other, parked.entry]
  case entry => exact entry
  case stack =>
    intro a low high
    rw [switchTo_mem prevRoom, live a (by omega) high]
    exact parked.stack a low high
  case kernelGs =>
    rw [ran, ← parked.entry]
    rfl
  case kernelRsp =>
    rw [← parked.entry]
    exact switchTo_kernelRsp

theorem Leaves.parks (leaves : Leaves layout links t x s s') : Parked layout s' t x := by
  cases leaves with
  | switch can => exact can.parks
  | create gs can => exact can.parks

theorem Parked.path (parked : Parked layout s t x)
    (path : Relation.ReflTransGen (Away layout links t) s s') : Parked layout s' t x := by
  induction path with
  | refl => exact parked
  | tail _ step ih => exact ih.step step.1 step.2

/-- However long the others run in between, a thread goes on as it was left. -/
theorem contexts_survive {back : Kernel T F} (leaves : Leaves layout links t x s s')
    (path : Relation.ReflTransGen (Away layout links t) s' back) (can : CanSwitch layout back t) :
    Resumed layout links (back.switchTo layout links t) t x :=
  (leaves.parks.path path).resumes can

/-- Two threads, the first of them at work. -/
def pairLayout : Layout Bool where
  slot t := if t then 0x2000 else 0x1000
  low t := if t then 0x20000 else 0x10000
  high t := if t then 0x24000 else 0x14000
  stackFits := by decide
  slotFits := by decide
  stackStack := by decide
  slotSlot := by decide
  slotStack := by decide

def pairLinks : Links := ⟨0x3000, 0x401000, 0x402000⟩

def pairStart : Kernel Bool Nat where
  cpu := ⟨Function.update (fun _ => 7) .rsp 0x13000, fun _ => 0, 0x400000, 8, 0x2, 0, 0x3000,
    0x5000⟩
  fpu := 1
  current := false
  threads t := ⟨if t then 0x20000 else 0, 0x4000, if t then 0x6000 else 0, 2⟩
  made _ := true
  kernelRsp := 0
  tssRsp0 := 0

/-- The second one has run, and used every register. -/
def pairBack : Kernel Bool Nat :=
  let s := pairStart.switchTo pairLayout pairLinks true
  { s with cpu := { s.cpu with regs := fun _ => 0x23000 }, fpu := 9 }

theorem contexts_survive_pair :
    Resumed pairLayout pairLinks (pairBack.switchTo pairLayout pairLinks false) false
      (pairStart.context pairLinks) := by
  have away : Kernel.current (pairStart.switchTo pairLayout pairLinks true) = true :=
    switchTo_current
  have made : Kernel.made (pairStart.switchTo pairLayout pairLinks true) = fun _ => true :=
    switchTo_made
  have out : CanSwitch pairLayout pairStart true :=
    ⟨rfl, rfl, by decide, by decide, by decide⟩
  have work : Work pairLayout (pairStart.switchTo pairLayout pairLinks true) pairBack :=
    ⟨rfl, rfl, rfl, fun _ _ _ _ _ _ => rfl, fun _ _ _ _ _ _ => rfl⟩
  have now : pairBack.current = true := away
  have back : CanSwitch pairLayout pairBack false := by
    refine ⟨?_, ?_, ?_, ?_, ?_⟩
    · exact congrFun made pairBack.current
    · exact congrFun made false
    · rw [now]
      decide
    · rw [now]
      decide
    · rw [now]
      decide
  have step : Away pairLayout pairLinks false (pairStart.switchTo pairLayout pairLinks true)
      pairBack := ⟨.work work, by rw [now]; decide⟩
  exact contexts_survive (.switch out) (.single step) back

end Arch
