import Svindows.Arch.Cpu

/-!
# System calls

`KiSystemCallEntry` of `syscall_entry.asm`. `SYSCALL` leaves the stack of the user, so that the
entry finds the kernel stack of the thread by the block behind `gs`, keeps what it needs for the
way back on that stack alone, and mirrors it in the thread for a callback that redirects the way
back.
-/

namespace Arch

open ByteMemory WordStack

def kthUserRip : Nat := 0xAC0
def kthUserRsp : Nat := 0xAC8
def kthUserRflags : Nat := 0xAD0
def kthCbRip : Nat := 0xAD8
def kthCbRsp : Nat := 0xAE0
def kthCbFlags : Nat := 0xAE8
def kthRedirect : Nat := 0xB29

/-- From `SYSCALL` to the kernel stack. -/
def callEnter : List Instr := [.swapgs, .storeGs 0 .rsp, .loadGs .rsp 8]

/-- What the way back needs. -/
def callSave : List Instr := [.pushGs 0, .push .rcx, .push .r11, .push .rdi, .push .rsi]

/-- The mirror in the `KTHREAD`. -/
def callMirror : List Instr :=
  [.loadGs .r11 16, .store .r11 kthUserRip .rcx, .load .rdi .rsp 0x10,
    .store .r11 kthUserRflags .rdi, .load .rdi .rsp 0x20, .store .r11 kthUserRsp .rdi]

/-- The arguments in registers. -/
def callArgs : List Instr :=
  [.subImm .rsp 32#64, .store .rsp 0 .r10, .store .rsp 8 .rdx, .store .rsp 0x10 .r8,
    .store .rsp 0x18 .r9, .mov .rdi .rax, .mov .rsi .rsp, .loadGs .rdx 0, .subImm .rsp 8#64]

def callReturn : List Instr :=
  [.addImm .rsp 8#64, .addImm .rsp 32#64, .pop .rsi, .pop .rdi, .loadGs .r11 16,
    .cmpByte .r11 kthRedirect 1]

/-- The way to the callback. -/
def callRedirect : List Instr :=
  [.storeByte .r11 kthRedirect 0, .addImm .rsp 24#64, .load .rcx .r11 kthCbRip,
    .load .rdx .r11 kthCbRsp, .load .r11 .r11 kthCbFlags, .mov .rsp .rdx, .swapgs, .sysret]

def callBack : List Instr := [.pop .r11, .pop .rcx, .pop .rsp, .swapgs, .sysret]

def kiSystemCallEntry (kiSystemServiceDispatch : Cpu → Cpu) : List Instr :=
  (callEnter ++ callSave ++ callMirror ++ callArgs ++ [.call kiSystemServiceDispatch] ++
    callReturn) ++ (.jne 8 :: callRedirect ++ callBack)

/-- Two places of so many bytes do not overlap. -/
def Apart (a n b k : Nat) : Prop := a + n ≤ b ∨ b + k ≤ a

/-- The block of the processor, the part of the kernel stack that the entry uses and the fields
of the thread lie apart. -/
structure CallRoom (kpcr top thread : Nat) : Prop where
  block : kpcr + 24 ≤ 2 ^ 64
  stack : 80 ≤ top
  fields : thread + 0xB2A ≤ 2 ^ 64
  blockStack : Apart kpcr 24 (top - 80) 80
  blockFields : Apart kpcr 24 (thread + kthUserRip) 0x6A
  stackFields : Apart (top - 80) 80 (thread + kthUserRip) 0x6A

/-- What the entry finds in the memory. -/
structure CallState (c : Cpu) (kpcr top thread : Word) : Prop where
  base : c.kernelGs = kpcr
  stack : word c.mem (kpcr.toNat + 8) = top
  current : word c.mem (kpcr.toNat + 16) = thread
  room : CallRoom kpcr.toNat top.toNat thread.toNat
  aligned : top &&& 15#64 = 0

/-- The words that the way back needs, the last one pushed first. -/
def callFrame (c : Cpu) : List Word :=
  [c.regs .rsp, c.rip, c.rflags, c.regs .rdi, c.regs .rsi]

def callArguments (c : Cpu) : List Word :=
  [c.regs .r10, c.regs .rdx, c.regs .r8, c.regs .r9]

/-- The thread has the registers of the user that a callback needs. -/
def Mirrors (c : Cpu) (thread : Word) (m : Memory) : Prop :=
  word m (thread.toNat + kthUserRip) = c.rip ∧
    word m (thread.toNat + kthUserRsp) = c.regs .rsp ∧
    word m (thread.toNat + kthUserRflags) = c.rflags

/-- What `KiSystemServiceDispatch` finds when user code, `c`, has called. -/
structure CallPresents (c : Cpu) (kpcr top thread : Word) (d : Cpu) : Prop where
  number : d.regs .rdi = c.regs .rax
  args : Holds d.mem (d.regs .rsi).toNat (callArguments c)
  user : d.regs .rdx = c.regs .rsp
  rsp : d.regs .rsp = top - 80#64
  aligned : d.regs .rsp &&& 15#64 = 0
  kept : ∀ r ∈ calleeSaved, d.regs r = c.regs r
  frame : Holds d.mem (top.toNat - 40) (callFrame c).reverse
  mirror : Mirrors c thread d.mem
  cs : d.cs = 0x08
  interrupts : d.rflags.getLsbD 9 = false
  gs : d.gs = kpcr
  kernelGs : d.kernelGs = c.gs

/-- A function in C that comes back on the same thread. -/
structure KeepsCall (kpcr top thread : Word) (d d' : Cpu) : Prop where
  rsp : d'.regs .rsp = d.regs .rsp
  kept : ∀ r ∈ calleeSaved, d'.regs r = d.regs r
  gs : d'.gs = d.gs
  kernelGs : d'.kernelGs = d.kernelGs
  stack : ∀ a, top.toNat - 40 ≤ a → a < top.toNat → d'.mem a = d.mem a
  current : word d'.mem (kpcr.toNat + 16) = thread

/-- The user code, `c`, goes on at `rip` with the result that `d` has in `rax`. -/
structure GoesOn (c d : Cpu) (rip rsp flags : Word) (final : Cpu) : Prop where
  rip : final.rip = rip
  rsp : final.regs .rsp = rsp
  rflags : final.rflags = Cpu.sysretFlags flags
  rax : final.regs .rax = d.regs .rax
  rdi : final.regs .rdi = c.regs .rdi
  rsi : final.regs .rsi = c.regs .rsi
  kept : ∀ r ∈ calleeSaved, final.regs r = c.regs r
  cs : final.cs = 0x23
  ss : final.ss = 0x1B
  gs : final.gs = c.gs
  kernelGs : final.kernelGs = c.kernelGs

variable {c : Cpu} {kpcr top thread : Word}

/-- On the kernel stack, which is still empty. -/
def onKernelStack (c : Cpu) (kpcr top : Word) : Cpu :=
  { c.syscall.set .rsp top with
    mem := setWord c.mem kpcr.toNat (c.regs .rsp)
    gs := kpcr
    kernelGs := c.gs }

theorem syscall_mem (c : Cpu) : c.syscall.mem = c.mem := rfl

/-- `SYSCALL` leaves all registers but two. -/
theorem syscall_regs {r : Reg} (other : r ≠ .rcx ∧ r ≠ .r11) :
    c.syscall.regs r = c.regs r := by
  simp [Cpu.syscall, Cpu.set, other]

theorem callEnter_eq (state : CallState c kpcr top thread) :
    callEnter.foldl Instr.step c.syscall = onKernelStack c kpcr top := by
  have block := state.room.block
  have base := state.base
  have scratch (m : Memory) :
      ({ c.syscall with mem := m, gs := kpcr, kernelGs := c.gs } : Cpu).gsPlace 0 = kpcr.toNat :=
    add_toNat (w := kpcr) (by omega)
  have slot (m : Memory) :
      ({ c.syscall with mem := m, gs := kpcr, kernelGs := c.gs } : Cpu).gsPlace 8 =
        kpcr.toNat + 8 :=
    add_toNat (w := kpcr) (by omega)
  have loaded (w : Word) : word (setWord c.mem kpcr.toNat w) (kpcr.toNat + 8) = top := by
    rw [word_setWord_apart (by omega), state.stack]
  have swapped : Instr.step c.syscall .swapgs =
      { c.syscall with gs := kpcr, kernelGs := c.gs } := by
    rw [← base]
    rfl
  rw [callEnter, List.foldl_cons, swapped]
  simp only [List.foldl_cons, List.foldl_nil, Instr.step, scratch, slot, syscall_mem,
    syscall_regs (by decide : Reg.rsp ≠ .rcx ∧ Reg.rsp ≠ .r11), loaded]
  rfl

theorem callSave_eq (state : CallState c kpcr top thread) :
    callSave.foldl Instr.step (onKernelStack c kpcr top) =
      { (onKernelStack c kpcr top).set .rsp (top - 40#64) with
        mem := pushAll (setWord c.mem kpcr.toNat (c.regs .rsp)) top.toNat (callFrame c) } := by
  have block := state.room.block
  have stack := state.room.stack
  have place : (onKernelStack c kpcr top).gsPlace 0 = kpcr.toNat :=
    add_toNat (w := kpcr) (by omega)
  have scratch : word (onKernelStack c kpcr top).mem ((onKernelStack c kpcr top).gsPlace 0) =
      c.regs .rsp := by
    rw [place]
    exact word_setWord ..
  have pushes : callSave.foldl Instr.step (onKernelStack c kpcr top) =
      (callFrame c).foldl Cpu.push (onKernelStack c kpcr top) := by
    simp only [callSave, List.foldl_cons, List.foldl_nil, Instr.step, scratch, callFrame]
    rfl
  have sp : (onKernelStack c kpcr top).sp = top.toNat := by simp [onKernelStack, Cpu.sp]
  have enough : 8 * (callFrame c).length ≤ (onKernelStack c kpcr top).sp := by
    rw [sp, callFrame]
    simp only [List.length_cons, List.length_nil]
    omega
  rw [pushes, foldl_push enough, sp]
  simp [onKernelStack, Cpu.set, callFrame]

/-- Behind the pushes. -/
structure Saved (c : Cpu) (kpcr top : Word) (e : Cpu) : Prop where
  rsp : e.regs .rsp = top - 40#64
  rcx : e.regs .rcx = c.rip
  r11 : e.regs .r11 = c.rflags
  regs : ∀ r, r ≠ .rsp → r ≠ .rcx → r ≠ .r11 → e.regs r = c.regs r
  frame : Holds e.mem (top.toNat - 40) (callFrame c).reverse
  scratch : word e.mem kpcr.toNat = c.regs .rsp
  elsewhere : ∀ a, (a < kpcr.toNat ∨ kpcr.toNat + 8 ≤ a) →
    (a < top.toNat - 40 ∨ top.toNat ≤ a) → e.mem a = c.mem a
  cs : e.cs = 0x08
  interrupts : e.rflags.getLsbD 9 = false
  gs : e.gs = kpcr
  kernelGs : e.kernelGs = c.gs

theorem callSave_saved (state : CallState c kpcr top thread) :
    Saved c kpcr top ((callEnter ++ callSave).foldl Instr.step c.syscall) := by
  have block := state.room.block
  have stack := state.room.stack
  have apart := state.room.blockStack
  rw [Apart] at apart
  have enough : 8 * (callFrame c).length ≤ top.toNat := by
    simp only [callFrame, List.length_cons, List.length_nil]
    omega
  have frame := holds_pushAll (m := setWord c.mem kpcr.toNat (c.regs .rsp)) enough
  have outside : ∀ a, (a < top.toNat - 40 ∨ top.toNat ≤ a) →
      pushAll (setWord c.mem kpcr.toNat (c.regs .rsp)) top.toNat (callFrame c) a =
        setWord c.mem kpcr.toNat (c.regs .rsp) a :=
    fun a away => pushAll_outside enough away
  rw [List.foldl_append, callEnter_eq state, callSave_eq state]
  generalize pushAll (setWord c.mem kpcr.toNat (c.regs .rsp)) top.toNat (callFrame c) = m at *
  constructor
  case rsp => rfl
  case rcx => rfl
  case r11 => rfl
  case regs =>
    intro r rsp rcx r11
    simp [onKernelStack, Cpu.set, Cpu.syscall, rsp, rcx, r11]
  case frame => exact frame
  case scratch =>
    rw [← word_setWord c.mem kpcr.toNat (c.regs .rsp)]
    exact word_congr fun a low high => outside a (by omega)
  case elsewhere =>
    intro a block' stack'
    exact (outside a stack').trans (setWord_outside block')
  case cs => rfl
  case interrupts => simp [onKernelStack, Cpu.set, Cpu.syscall]
  case gs => rfl
  case kernelGs => rfl

/-- The memory with the mirror in the thread. -/
def mirrored (c : Cpu) (thread : Nat) (m : Memory) : Memory :=
  setWord (setWord (setWord m (thread + kthUserRip) c.rip) (thread + kthUserRflags) c.rflags)
    (thread + kthUserRsp) (c.regs .rsp)

theorem mirrored_outside {t a : Nat} {m : Memory}
    (apart : a < t + kthUserRip ∨ t + kthUserRip + 0x6A ≤ a) : mirrored c t m a = m a := by
  rw [kthUserRip] at apart
  rw [mirrored, setWord_outside (by rw [kthUserRsp]; omega),
    setWord_outside (by rw [kthUserRflags]; omega), setWord_outside (by rw [kthUserRip]; omega)]

theorem mirrored_mirrors (c : Cpu) (thread : Word) (m : Memory) :
    Mirrors c thread (mirrored c thread.toNat m) := by
  simp only [Mirrors, mirrored, kthUserRip, kthUserRsp, kthUserRflags]
  refine ⟨?_, word_setWord .., ?_⟩
  · rw [word_setWord_apart (by omega), word_setWord_apart (by omega), word_setWord]
  · rw [word_setWord_apart (by omega), word_setWord]

theorem Mirrors.congr {m m' : Memory} (mirrors : Mirrors c thread m)
    (same : ∀ a, thread.toNat + kthUserRip ≤ a → a < thread.toNat + kthUserRip + 24 →
      m' a = m a) : Mirrors c thread m' := by
  obtain ⟨rip, rsp, rflags⟩ := mirrors
  simp only [Mirrors, kthUserRip, kthUserRsp, kthUserRflags] at *
  refine ⟨?_, ?_, ?_⟩
  · exact (word_congr fun a low high => same a low (by omega)).trans rip
  · exact (word_congr fun a low high => same a (by omega) (by omega)).trans rsp
  · exact (word_congr fun a low high => same a (by omega) (by omega)).trans rflags

variable {e d g : Cpu}

theorem callMirror_eq (state : CallState c kpcr top thread)
    (saved : Saved c kpcr top e) : callMirror.foldl Instr.step e =
      { ((e.set .r11 thread).set .rdi c.rflags).set .rdi (c.regs .rsp) with
        mem := mirrored c thread.toNat e.mem } := by
  obtain ⟨block, stack, fields, blockStack, blockFields, stackFields⟩ := state.room
  rw [Apart] at blockStack blockFields stackFields
  rw [kthUserRip] at blockFields stackFields
  have rsp : (top - 40#64).toNat = top.toNat - 40 := sub_toNat (by omega)
  have whole := top.isLt
  have current : word e.mem (kpcr.toNat + 16) = thread := by
    rw [← state.current]
    exact word_congr fun a low high => saved.elsewhere a (by omega) (by omega)
  have flags (w : Word) : word (setWord e.mem (thread.toNat + kthUserRip) w)
      (top.toNat - 40 + 0x10) = c.rflags := by
    rw [word_setWord_apart (by rw [kthUserRip]; omega)]
    exact saved.frame.word (i := 2) rfl
  have user (v w : Word) : word (setWord (setWord e.mem (thread.toNat + kthUserRip) w)
      (thread.toNat + kthUserRflags) v) (top.toNat - 40 + 0x20) = c.regs .rsp := by
    rw [word_setWord_apart (by rw [kthUserRflags]; omega),
      word_setWord_apart (by rw [kthUserRip]; omega)]
    exact saved.frame.word (i := 4) rfl
  have first : Instr.step e (.loadGs .r11 16) = e.set .r11 thread := by
    rw [step_loadGs saved.gs (by omega), current]
  have second : Instr.step (e.set .r11 thread) (.store .r11 kthUserRip .rcx) =
      { e.set .r11 thread with mem := setWord e.mem (thread.toNat + kthUserRip) c.rip } := by
    rw [step_store (b := thread) (by simp) (by rw [kthUserRip]; omega)]
    simp [Cpu.set, saved.rcx]
  have third (m : Memory) : Instr.step { e.set .r11 thread with mem := m } (.load .rdi .rsp 0x10) =
      { (e.set .r11 thread).set .rdi (word m (top.toNat - 40 + 0x10)) with mem := m } := by
    rw [step_load (b := top - 40#64) (by simp [saved.rsp]) (by rw [rsp]; omega), rsp]
    rfl
  have fourth (m : Memory) (w : Word) :
      Instr.step { (e.set .r11 thread).set .rdi w with mem := m } (.store .r11 kthUserRflags .rdi) =
        { (e.set .r11 thread).set .rdi w with
          mem := setWord m (thread.toNat + kthUserRflags) w } := by
    rw [step_store (b := thread) (by simp) (by rw [kthUserRflags]; omega)]
    simp [Cpu.set]
  have fifth (m : Memory) (w : Word) :
      Instr.step { (e.set .r11 thread).set .rdi w with mem := m } (.load .rdi .rsp 0x20) =
        { ((e.set .r11 thread).set .rdi w).set .rdi (word m (top.toNat - 40 + 0x20)) with
          mem := m } := by
    rw [step_load (b := top - 40#64) (by simp [saved.rsp]) (by rw [rsp]; omega), rsp]
    rfl
  have sixth (m : Memory) (v w : Word) :
      Instr.step { ((e.set .r11 thread).set .rdi v).set .rdi w with mem := m }
          (.store .r11 kthUserRsp .rdi) =
        { ((e.set .r11 thread).set .rdi v).set .rdi w with
          mem := setWord m (thread.toNat + kthUserRsp) w } := by
    rw [step_store (b := thread) (by simp) (by rw [kthUserRsp]; omega)]
    simp [Cpu.set]
  rw [callMirror]
  simp only [List.foldl_cons, List.foldl_nil]
  rw [first, second, third, flags, fourth, fifth, user, sixth]
  rfl

/-- At the call, but for the arguments. -/
structure Mirrored (c : Cpu) (kpcr top thread : Word) (e : Cpu) : Prop where
  rsp : e.regs .rsp = top - 40#64
  regs : ∀ r, r ≠ .rsp → r ≠ .rcx → r ≠ .r11 → r ≠ .rdi → e.regs r = c.regs r
  frame : Holds e.mem (top.toNat - 40) (callFrame c).reverse
  scratch : word e.mem kpcr.toNat = c.regs .rsp
  mirror : Mirrors c thread e.mem
  cs : e.cs = 0x08
  interrupts : e.rflags.getLsbD 9 = false
  gs : e.gs = kpcr
  kernelGs : e.kernelGs = c.gs

theorem Saved.mirror (state : CallState c kpcr top thread)
    (saved : Saved c kpcr top e) : Mirrored c kpcr top thread (callMirror.foldl Instr.step e) := by
  obtain ⟨block, stack, fields, blockStack, blockFields, stackFields⟩ := state.room
  rw [Apart] at blockStack blockFields stackFields
  have words := mirrored_mirrors c thread e.mem
  have frame : Holds (mirrored c thread.toNat e.mem) (top.toNat - 40) (callFrame c).reverse :=
    saved.frame.congr fun a low high => mirrored_outside (by
      simp only [callFrame, List.length_reverse, List.length_cons, List.length_nil] at high
      omega)
  have scratch : word (mirrored c thread.toNat e.mem) kpcr.toNat = c.regs .rsp :=
    (word_congr fun a low high => mirrored_outside (by omega)).trans saved.scratch
  rw [callMirror_eq state saved]
  generalize mirrored c thread.toNat e.mem = m at *
  constructor
  case rsp => exact saved.rsp
  case regs =>
    intro r rsp rcx r11 rdi
    simpa [Cpu.set, rdi, r11] using saved.regs r rsp rcx r11
  case frame => exact frame
  case scratch => exact scratch
  case mirror => exact words
  case cs => exact saved.cs
  case interrupts => exact saved.interrupts
  case gs => exact saved.gs
  case kernelGs => exact saved.kernelGs

/-- The memory with the array of the arguments at `a`. -/
def argued (c : Cpu) (a : Nat) (m : Memory) : Memory :=
  setWord (setWord (setWord (setWord m a (c.regs .r10)) (a + 8) (c.regs .rdx)) (a + 0x10)
    (c.regs .r8)) (a + 0x18) (c.regs .r9)

theorem argued_outside {a b : Nat} {m : Memory} (apart : b < a ∨ a + 32 ≤ b) :
    argued c a m b = m b := by
  rw [argued, setWord_outside (by omega), setWord_outside (by omega), setWord_outside (by omega),
    setWord_outside (by omega)]

theorem argued_holds (c : Cpu) (a : Nat) (m : Memory) :
    Holds (argued c a m) a (callArguments c) := by
  refine ⟨?_, ?_, ?_, ?_, trivial⟩
  · rw [argued, word_setWord_apart (by omega), word_setWord_apart (by omega),
      word_setWord_apart (by omega), word_setWord]
  · rw [argued, word_setWord_apart (by omega), word_setWord_apart (by omega), word_setWord]
  · rw [argued, word_setWord_apart (by omega), word_setWord]
  · exact word_setWord ..

theorem callArgs_eq (state : CallState c kpcr top thread)
    (mirrored : Mirrored c kpcr top thread e) : callArgs.foldl Instr.step e =
      { ((((e.set .rsp (top - 72#64)).set .rdi (c.regs .rax)).set .rsi (top - 72#64)).set .rdx
          (c.regs .rsp)).set .rsp (top - 80#64) with
        mem := argued c (top.toNat - 72) e.mem } := by
  obtain ⟨block, stack, -, blockStack, -, -⟩ := state.room
  rw [Apart] at blockStack
  have kept := mirrored.regs
  have array : (top - 72#64).toNat = top.toNat - 72 := sub_toNat (by omega)
  have whole := top.isLt
  have lower : Instr.step e (.subImm .rsp 32#64) =
      { e.set .rsp (top - 72#64) with mem := e.mem } := by
    rw [Instr.step, mirrored.rsp, sub_sub_ofNat]
    rfl
  have store (m : Memory) (n : Nat) (r : Reg) (inside : n ≤ 0x18)
      (other : r ≠ .rsp ∧ r ≠ .rcx ∧ r ≠ .r11 ∧ r ≠ .rdi) :
      Instr.step { e.set .rsp (top - 72#64) with mem := m } (.store .rsp n r) =
        { e.set .rsp (top - 72#64) with mem := setWord m (top.toNat - 72 + n) (c.regs r) } := by
    rw [step_store (b := top - 72#64) (by simp) (by rw [array]; omega), array]
    simp [Cpu.set, other, kept r]
  have number (m : Memory) :
      Instr.step { e.set .rsp (top - 72#64) with mem := m } (.mov .rdi .rax) =
        { (e.set .rsp (top - 72#64)).set .rdi (c.regs .rax) with mem := m } := by
    simp [Instr.step, Cpu.set, kept]
  have pointer (m : Memory) (v : Word) :
      Instr.step { (e.set .rsp (top - 72#64)).set .rdi v with mem := m } (.mov .rsi .rsp) =
        { ((e.set .rsp (top - 72#64)).set .rdi v).set .rsi (top - 72#64) with mem := m } := by
    simp [Instr.step, Cpu.set]
  have user (m : Memory) (v w : Word) :
      Instr.step { ((e.set .rsp (top - 72#64)).set .rdi v).set .rsi w with mem := m }
          (.loadGs .rdx 0) =
        { (((e.set .rsp (top - 72#64)).set .rdi v).set .rsi w).set .rdx (word m kpcr.toNat) with
          mem := m } := by
    rw [step_loadGs (b := kpcr) (n := 0) (by exact mirrored.gs) (by omega)]
    rfl
  have align (m : Memory) (u v w : Word) :
      Instr.step { (((e.set .rsp (top - 72#64)).set .rdi u).set .rsi v).set .rdx w with mem := m }
          (.subImm .rsp 8#64) =
        { ((((e.set .rsp (top - 72#64)).set .rdi u).set .rsi v).set .rdx w).set .rsp
            (top - 80#64) with mem := m } := by
    have here : ((((e.set .rsp (top - 72#64)).set .rdi u).set .rsi v).set .rdx w).regs .rsp =
        top - 72#64 := by simp
    simp only [Instr.step, here, sub_sub_ofNat]
    rfl
  have scratch : word (argued c (top.toNat - 72) e.mem) kpcr.toNat = c.regs .rsp :=
    (word_congr fun a low high => argued_outside (by omega)).trans mirrored.scratch
  rw [callArgs]
  simp only [List.foldl_cons, List.foldl_nil]
  rw [lower, store _ 0 _ (by decide) (by decide), store _ 8 _ (by decide) (by decide),
    store _ 0x10 _ (by decide) (by decide), store _ 0x18 _ (by decide) (by decide), number, pointer,
    user, align]
  rw [argued] at scratch ⊢
  rw [Nat.add_zero, scratch]

theorem Mirrored.presents (state : CallState c kpcr top thread)
    (mirrored : Mirrored c kpcr top thread e) :
    CallPresents c kpcr top thread (callArgs.foldl Instr.step e) := by
  obtain ⟨block, stack, fields, blockStack, blockFields, stackFields⟩ := state.room
  rw [Apart] at blockStack blockFields stackFields
  have array : (top - 72#64).toNat = top.toNat - 72 := sub_toNat (by omega)
  have args := argued_holds c (top.toNat - 72) e.mem
  have frame : Holds (argued c (top.toNat - 72) e.mem) (top.toNat - 40) (callFrame c).reverse :=
    mirrored.frame.congr fun a low _ => argued_outside (by omega)
  have mirror : Mirrors c thread (argued c (top.toNat - 72) e.mem) :=
    mirrored.mirror.congr fun a low high => argued_outside (by omega)
  rw [callArgs_eq state mirrored]
  generalize argued c (top.toNat - 72) e.mem = m at *
  constructor
  case number => simp [Cpu.set]
  case args => simpa [Cpu.set, array] using args
  case user => simp [Cpu.set]
  case rsp => simp [Cpu.set]
  case aligned =>
    have lower : (top - 80#64) &&& 15#64 = 0 := aligned_sub (n := 5) state.aligned stack
    simpa [Cpu.set] using lower
  case kept =>
    intro r member
    have other : r ≠ .rsp ∧ r ≠ .rcx ∧ r ≠ .r11 ∧ r ≠ .rdi ∧ r ≠ .rsi ∧ r ≠ .rdx := by
      revert r
      decide
    simpa [Cpu.set, other] using mirrored.regs r other.1 other.2.1 other.2.2.1 other.2.2.2.1
  case frame => exact frame
  case mirror => exact mirror
  case cs => exact mirrored.cs
  case interrupts => exact mirrored.interrupts
  case gs => exact mirrored.gs
  case kernelGs => exact mirrored.kernelGs

/-- What the function in C has left, as far as the way back needs it. -/
structure Served (c : Cpu) (kpcr top thread : Word) (d : Cpu) : Prop where
  rsp : d.regs .rsp = top - 80#64
  frame : Holds d.mem (top.toNat - 40) (callFrame c).reverse
  current : word d.mem (kpcr.toNat + 16) = thread
  kept : ∀ r ∈ calleeSaved, d.regs r = c.regs r
  gs : d.gs = kpcr
  kernelGs : d.kernelGs = c.gs

theorem KeepsCall.served {d' : Cpu} (presents : CallPresents c kpcr top thread d)
    (keeps : KeepsCall kpcr top thread d d') (room : 40 ≤ top.toNat) :
    Served c kpcr top thread d' where
  rsp := keeps.rsp.trans presents.rsp
  frame := presents.frame.congr fun a low high => keeps.stack a low (by
    simp only [callFrame, List.length_reverse, List.length_cons, List.length_nil] at high
    omega)
  current := keeps.current
  kept r member := (keeps.kept r member).trans (presents.kept r member)
  gs := keeps.gs.trans presents.gs
  kernelGs := keeps.kernelGs.trans presents.kernelGs

/-- Behind the test for a callback. -/
structure Returned (c : Cpu) (kpcr top thread : Word) (d g : Cpu) : Prop where
  rsp : g.regs .rsp = top - 24#64
  rsi : g.regs .rsi = c.regs .rsi
  rdi : g.regs .rdi = c.regs .rdi
  r11 : g.regs .r11 = thread
  regs : ∀ r, r ≠ .rsp → r ≠ .rsi → r ≠ .rdi → r ≠ .r11 → g.regs r = d.regs r
  mem : g.mem = d.mem
  zero : g.zero = (d.mem (thread.toNat + kthRedirect) == 1)
  gs : g.gs = kpcr
  kernelGs : g.kernelGs = c.gs

theorem Served.returned (room : CallRoom kpcr.toNat top.toNat thread.toNat)
    (served : Served c kpcr top thread d) :
    Returned c kpcr top thread d (callReturn.foldl Instr.step d) := by
  obtain ⟨block, stack, fields, -, -, -⟩ := room
  have whole := top.isLt
  have raised : [Instr.addImm .rsp 8#64, .addImm .rsp 32#64].foldl Instr.step d =
      d.set .rsp (top - 40#64) := by
    have once : top - 80#64 + 8#64 = top - 72#64 := sub_add_ofNat top 72 8
    have twice : top - 72#64 + 32#64 = top - 40#64 := sub_add_ofNat top 40 32
    simp only [List.foldl_cons, List.foldl_nil, Instr.step, served.rsp, once, Cpu.set,
      Function.update_self, twice, Function.update_idem]
  have sp : (d.set .rsp (top - 40#64)).sp = top.toNat - 40 := by
    have here : (top - 40#64).toNat = top.toNat - 40 := sub_toNat (by omega)
    simpa [Cpu.sp] using here
  have popped := foldl_pops (c := d.set .rsp (top - 40#64)) (g := c.regs)
    (by decide : Reg.rsp ∉ [Reg.rsi, .rdi])
    (by rw [sp, List.length_cons, List.length_singleton]; omega)
    (by rw [sp]; exact ⟨served.frame.1, served.frame.2.1, trivial⟩)
  have code : callReturn = [.addImm .rsp 8#64, .addImm .rsp 32#64] ++ [Reg.rsi, .rdi].map .pop ++
      [.loadGs .r11 16, .cmpByte .r11 kthRedirect 1] := rfl
  have rsp : top - 40#64 + 16#64 = top - 24#64 := sub_add_ofNat top 24 16
  have current := served.current
  have gs := served.gs
  have kernelGs := served.kernelGs
  rw [code, List.foldl_append, List.foldl_append, raised, popped]
  simp only [List.foldl_cons, List.foldl_nil]
  have loaded : word (d.set .rsp (top - 40#64)).mem (kpcr.toNat + 16) = thread := current
  rw [step_loadGs (b := kpcr) (by exact gs) (by omega), loaded, Instr.step,
    place_eq (by simp [kthRedirect]; omega)]
  constructor
  case rsp => simpa [Cpu.set, Cpu.setZero] using rsp
  case rsi => simp [Cpu.set, Cpu.setZero]
  case rdi => simp [Cpu.set, Cpu.setZero]
  case r11 => simp [Cpu.set, Cpu.setZero]
  case regs =>
    intro r rsp rsi rdi r11
    simp [Cpu.set, Cpu.setZero, rsp, rsi, rdi, r11]
  case mem => rfl
  case zero => simp [Cpu.set]
  case gs => exact gs
  case kernelGs => exact kernelGs

/-- The registers that neither way back writes. -/
theorem kept_apart : ∀ r ∈ Reg.rax :: calleeSaved,
    r ≠ .rsp ∧ r ≠ .rsi ∧ r ≠ .rdi ∧ r ≠ .r11 ∧ r ≠ .rcx ∧ r ≠ .rdx := by
  decide

theorem Returned.kept (returned : Returned c kpcr top thread d g) {r : Reg}
    (member : r ∈ Reg.rax :: calleeSaved) : g.regs r = d.regs r := by
  obtain ⟨rsp, rsi, rdi, r11, -, -⟩ := kept_apart r member
  exact returned.regs r rsp rsi rdi r11

/-- What the two ways back have in common. -/
theorem Returned.goesOn {final : Cpu} {rip rsp flags : Word} (base : c.kernelGs = kpcr)
    (served : Served c kpcr top thread d) (returned : Returned c kpcr top thread d g)
    (goes : final.rip = rip ∧ final.regs .rsp = rsp ∧ final.rflags = Cpu.sysretFlags flags)
    (regs : ∀ r, r ≠ .rsp → r ≠ .r11 → r ≠ .rcx → r ≠ .rdx → final.regs r = g.regs r)
    (user : final.cs = 0x23 ∧ final.ss = 0x1B)
    (bases : final.gs = g.kernelGs ∧ final.kernelGs = g.gs) : GoesOn c d rip rsp flags final where
  rip := goes.1
  rsp := goes.2.1
  rflags := goes.2.2
  rax := (regs .rax (by decide) (by decide) (by decide) (by decide)).trans
    (returned.kept List.mem_cons_self)
  rdi := (regs .rdi (by decide) (by decide) (by decide) (by decide)).trans returned.rdi
  rsi := (regs .rsi (by decide) (by decide) (by decide) (by decide)).trans returned.rsi
  kept r member := by
    obtain ⟨rsp, -, -, r11, rcx, rdx⟩ := kept_apart r (.tail _ member)
    exact (regs r rsp r11 rcx rdx).trans
      ((returned.kept (.tail _ member)).trans (served.kept r member))
  cs := user.1
  ss := user.2
  gs := bases.1.trans returned.kernelGs
  kernelGs := bases.2.trans (returned.gs.trans base.symm)

theorem Returned.goesBack (room : CallRoom kpcr.toNat top.toNat thread.toNat)
    (base : c.kernelGs = kpcr) (served : Served c kpcr top thread d)
    (returned : Returned c kpcr top thread d g) :
    GoesOn c d c.rip (c.regs .rsp) c.rflags (runFrom 0 callBack g) ∧
      (runFrom 0 callBack g).mem = d.mem := by
  have stack := room.stack
  have whole := top.isLt
  have sp : g.sp = top.toNat - 24 := by
    rw [Cpu.sp, returned.rsp]
    exact sub_toNat (by omega)
  obtain ⟨-, -, rflags, rip, rsp, -⟩ := served.frame
  have words : Holds g.mem g.sp
      ([Reg.r11, .rcx].map fun r => if r = .r11 then c.rflags else c.rip) := by
    have first : top.toNat - 24 = top.toNat - 40 + 8 + 8 := by omega
    rw [returned.mem, sp, first]
    exact ⟨rflags, rip, trivial⟩
  have popped := foldl_pops (by decide : Reg.rsp ∉ [Reg.r11, .rcx])
    (by rw [sp, List.length_cons, List.length_singleton]; omega) words
  have code : callBack = [Reg.r11, .rcx].map .pop ++ [.pop .rsp, .swapgs, .sysret] := rfl
  have last : top - 24#64 + 16#64 = top - 8#64 := sub_add_ofNat top 8 16
  have slot : word g.mem (top - 8#64).toNat = c.regs .rsp := by
    have place : (top - 8#64).toNat = top.toNat - 40 + 8 + 8 + 8 + 8 := by
      rw [sub_toNat (by omega)]
      omega
    rw [place, returned.mem]
    exact rsp
  rw [code, runFrom_straight _ rfl, popped]
  simp only [runFrom, Instr.step, Cpu.pop, Cpu.sysret, Cpu.set, Cpu.sp, List.length_cons,
    List.length_nil, if_true, returned.rsp, last, slot]
  refine ⟨returned.goesOn base served ⟨by simp, by simp, by simp⟩ ?_ ⟨rfl, rfl⟩ ⟨rfl, rfl⟩,
    returned.mem⟩
  intro r rsp r11 rcx _
  simp [rsp, r11, rcx]

theorem Returned.redirects (room : CallRoom kpcr.toNat top.toNat thread.toNat)
    (base : c.kernelGs = kpcr) (served : Served c kpcr top thread d)
    (returned : Returned c kpcr top thread d g) :
    GoesOn c d (word d.mem (thread.toNat + kthCbRip)) (word d.mem (thread.toNat + kthCbRsp))
        (word d.mem (thread.toNat + kthCbFlags)) (runFrom 0 (callRedirect ++ callBack) g) ∧
      (runFrom 0 (callRedirect ++ callBack) g).mem =
        Function.update d.mem (thread.toNat + kthRedirect) 0 := by
  have fields := room.fields
  have place {n : Nat} (inside : n ≤ kthRedirect) :
      (thread + BitVec.ofNat 64 n).toNat = thread.toNat + n := by
    rw [kthRedirect] at inside
    exact add_toNat (by omega)
  have kept {n : Nat} (before : n + 8 ≤ kthRedirect) :
      word (Function.update d.mem (thread.toNat + kthRedirect) 0) (thread.toNat + n) =
        word d.mem (thread.toNat + n) :=
    word_congr fun a low high => Function.update_of_ne (by omega) _ _
  have rip := kept (n := kthCbRip) (by decide)
  have rsp := kept (n := kthCbRsp) (by decide)
  have flags := kept (n := kthCbFlags) (by decide)
  have redirect := place (Nat.le_refl kthRedirect)
  have cbRip := place (n := kthCbRip) (by decide)
  have cbRsp := place (n := kthCbRsp) (by decide)
  have cbFlags := place (n := kthCbFlags) (by decide)
  have code : runFrom 0 (callRedirect ++ callBack) g =
      ([Instr.storeByte .r11 kthRedirect 0, .addImm .rsp 24#64, .load .rcx .r11 kthCbRip,
        .load .rdx .r11 kthCbRsp, .load .r11 .r11 kthCbFlags, .mov .rsp .rdx, .swapgs].foldl
          Instr.step g).sysret := rfl
  rw [code]
  simp only [List.foldl_cons, List.foldl_nil, Instr.step, Cpu.place, Cpu.set, Cpu.sysret,
    Function.update_self, ne_eq, reduceCtorEq, not_false_eq_true, Function.update_of_ne,
    returned.r11, returned.mem, redirect, cbRip, cbRsp, cbFlags, rip, rsp, flags,
    and_true]
  refine returned.goesOn base served ⟨by simp, by simp, by simp⟩ ?_ ⟨rfl, rfl⟩ ⟨rfl, rfl⟩
  intro r rsp r11 rcx rdx
  simp [rsp, r11, rcx, rdx]

/-- The jump over the way to the callback. -/
theorem runFrom_test (g : Cpu) : runFrom 0 (.jne 8 :: callRedirect ++ callBack) g =
    if g.zero then runFrom 0 (callRedirect ++ callBack) g else runFrom 0 callBack g := by
  rw [List.cons_append, runFrom]
  cases g.zero with
  | false => exact runFrom_skip callRedirect callBack g
  | true => rfl

/-- From the user code to `KiSystemServiceDispatch` and back, or on to a callback. -/
structure CallLaw (c : Cpu) (kpcr top thread : Word) (kiSystemServiceDispatch : Cpu → Cpu)
    (d final : Cpu) : Prop where
  presents : CallPresents c kpcr top thread d
  returns : KeepsCall kpcr top thread d (kiSystemServiceDispatch d) →
    (kiSystemServiceDispatch d).mem (thread.toNat + kthRedirect) ≠ 1 →
      GoesOn c (kiSystemServiceDispatch d) c.rip (c.regs .rsp) c.rflags final ∧
        final.mem = (kiSystemServiceDispatch d).mem
  redirects : KeepsCall kpcr top thread d (kiSystemServiceDispatch d) →
    (kiSystemServiceDispatch d).mem (thread.toNat + kthRedirect) = 1 →
      GoesOn c (kiSystemServiceDispatch d)
          (word (kiSystemServiceDispatch d).mem (thread.toNat + kthCbRip))
          (word (kiSystemServiceDispatch d).mem (thread.toNat + kthCbRsp))
          (word (kiSystemServiceDispatch d).mem (thread.toNat + kthCbFlags)) final ∧
        final.mem =
          Function.update (kiSystemServiceDispatch d).mem (thread.toNat + kthRedirect) 0

theorem system_calls_come_back (state : CallState c kpcr top thread)
    (kiSystemServiceDispatch : Cpu → Cpu) :
    ∃ d, CallLaw c kpcr top thread kiSystemServiceDispatch d
      (run (kiSystemCallEntry kiSystemServiceDispatch) c.syscall) := by
  have room := state.room
  have stack := room.stack
  have presents := ((callSave_saved state).mirror state).presents state
  have code : run (kiSystemCallEntry kiSystemServiceDispatch) c.syscall =
      runFrom 0 (.jne 8 :: callRedirect ++ callBack) (callReturn.foldl Instr.step
        (kiSystemServiceDispatch (callArgs.foldl Instr.step (callMirror.foldl Instr.step
          ((callEnter ++ callSave).foldl Instr.step c.syscall))))) := by
    rw [run, kiSystemCallEntry, runFrom_straight _ rfl]
    simp only [List.foldl_append, List.foldl_cons, List.foldl_nil, Instr.step]
  rw [code]
  generalize callArgs.foldl Instr.step _ = d at *
  refine ⟨d, presents, fun keeps normal => ?_, fun keeps armed => ?_⟩
  · have served := keeps.served presents (by omega)
    have returned := served.returned room
    have zero : (callReturn.foldl Instr.step (kiSystemServiceDispatch d)).zero = false := by
      rw [returned.zero]
      exact beq_false_of_ne normal
    rw [runFrom_test, zero, if_neg Bool.false_ne_true]
    exact returned.goesBack room state.base served
  · have served := keeps.served presents (by omega)
    have returned := served.returned room
    have zero : (callReturn.foldl Instr.step (kiSystemServiceDispatch d)).zero = true := by
      rw [returned.zero, armed]
      rfl
    rw [runFrom_test, zero, if_pos rfl]
    exact returned.redirects room state.base served

/-- A user thread with its kernel stack below `0x8000` and its `KTHREAD` at `0x2000`. -/
def callerCpu : Cpu :=
  ⟨fun _ => 7, setWord (setWord (fun _ => 0) 0x1008 0x8000) 0x1010 0x2000, 0x401000, 0x23, 0x202,
    0x1B, 0x5000, 0x1000⟩

theorem callerCpu_state : CallState callerCpu 0x1000 0x8000 0x2000 where
  base := rfl
  stack := (word_setWord_apart (by decide)).trans (word_setWord ..)
  current := word_setWord ..
  room := ⟨by decide, by decide, by decide, .inl (by decide), .inl (by decide), .inr (by decide)⟩
  aligned := by decide

theorem system_calls_come_back_caller :
    ∃ d, CallLaw callerCpu 0x1000 0x8000 0x2000 id d
      (run (kiSystemCallEntry id) callerCpu.syscall) :=
  system_calls_come_back callerCpu_state id

end Arch
