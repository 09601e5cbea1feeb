import Mathlib.Logic.Function.Basic
import Svindows.Nt.Defs

/-!
# Callbacks into window procedures

A service that has to run a window procedure arms a redirect: the return from
the system call goes to a thunk, and the thunk comes back by `NtCallbackReturn`.
The thunks come from the loader's stub arena and the stacks from an arena of
16 slots; neither is given back. User memory is the one at the time of the call.
-/

namespace User

open Nt

/-- The fields of `KTHREAD` for callbacks; its two flags hold 0 or 1. -/
structure CallbackFields where
  userRip : Nat
  userRsp : Nat
  userRflags : Nat
  callbackRip : Nat
  callbackRsp : Nat
  callbackFlags : Nat
  callbackContinue : Nat
  callbackWindow : Nat
  callbackMsg : Nat
  callbackLParam : Nat
  origRip : Nat
  origRsp : Nat
  origRflags : Nat
  callbackActive : Bool
  redirectPending : Bool
  savedReturnAddress : Nat
  deriving DecidableEq, Repr

def CallbackFields.zero : CallbackFields :=
  ⟨0, 0, 0, 0, 0, 0, 0, 0, 0, 0, 0, 0, 0, false, false, 0⟩

/-- The two arenas callbacks draw from. -/
structure CallbackKernel where
  /-- `g_callback_stack_next`. -/
  stackNext : Nat
  stubArena : Nat
  stubNext : Nat
  stubEnd : Nat
  deriving DecidableEq, Repr

/-- Words of user memory, and which of them pass the probes. -/
structure UserMemory where
  word : Nat → Nat
  readable : Nat → Bool
  writable : Nat → Bool

def cbContCreateNcCreate : Nat := 1
def cbContCreateWmCreate : Nat := 2
def cbContSimple : Nat := 3

def wmNcCreate : Nat := 0x0081
def wmCreate : Nat := 0x0001

def callbackStackArenaVa : Nat := 0x1400000
def callbackStackSlots : Nat := 16
def callbackStackSlotSize : Nat := 0x20000

def ldrStubArenaVa : Nat := 0x69000
def ldrStubArenaPages : Nat := 32
def ldrStubSlotSize : Nat := 16
def ldrCfgTraceVa : Nat := ldrStubArenaVa + ldrStubArenaPages * pageSize - 8

def processUserObjectArenaVa : Nat := 0x1300000
def wndWndProcOff : Nat := 0x148

/-- `LdrpEnsureStubArena`; `pages` says whether `MmAllocatePage` delivers. -/
def ldrpEnsureStubArena (pages : Bool) (k : CallbackKernel) : Bool × CallbackKernel :=
  if k.stubArena ≠ 0 then (true, k)
  else if !pages then (false, k)
  else (true, { k with
    stubArena := ldrStubArenaVa
    stubNext := ldrStubArenaVa + 2 * ldrStubSlotSize
    stubEnd := ldrCfgTraceVa })

/-- Take `need` bytes of the stub arena; 0 when they are not there. -/
def takeStub (pages : Bool) (need : Nat) (k : CallbackKernel) : Nat × CallbackKernel :=
  let (mapped, k) := ldrpEnsureStubArena pages k
  if !mapped then (0, k)
  else if k.stubNext + need > k.stubEnd then (0, k)
  else (k.stubNext, { k with stubNext := k.stubNext + need })

/-- `LdrpBuildCallbackThunk`: the address of the thunk. -/
def ldrpBuildCallbackThunk (pages : Bool) (k : CallbackKernel) : Nat × CallbackKernel :=
  takeStub pages (5 * 16) k

/-- `KiBuildCreateStruct`: the address of the `CREATESTRUCTW`. -/
def kiBuildCreateStruct (pages : Bool) (k : CallbackKernel) : Nat × CallbackKernel :=
  takeStub pages 0x60 k

/-- `KiClaimCallbackStack`: the top of a stack. A slot is gone even when a page
for it is missing. -/
def kiClaimCallbackStack (pages : Bool) (k : CallbackKernel) : Nat × CallbackKernel :=
  if k.stackNext ≥ callbackStackSlots then (0, k)
  else
    let base := callbackStackArenaVa + k.stackNext * callbackStackSlotSize
    (if pages then base + callbackStackSlotSize else 0, { k with stackNext := k.stackNext + 1 })

/-- What the procedure is called for. -/
structure CallbackCall where
  continuation : Nat
  window : Nat
  msg : Nat
  lParam : Nat

/-- `RSP` for a thunk: 8 above a multiple of 16. -/
def thunkRsp (x : Nat) : Nat := x / 16 * 16 + 8

/-- The thunk and, when there is one, the stack for a callback. -/
def claimCallback (pages : Bool) (k : CallbackKernel) : Nat × Nat × CallbackKernel :=
  let (thunk, k) := ldrpBuildCallbackThunk pages k
  if thunk = 0 then (0, 0, k)
  else
    let (stack, k) := kiClaimCallbackStack pages k
    (thunk, stack, k)

def kiStartUserCallback (pages : Bool) (mem : UserMemory) (call : CallbackCall)
    (k : CallbackKernel) (t : CallbackFields) : Bool × CallbackKernel × CallbackFields :=
  if t.callbackActive || t.redirectPending then (false, k, t)
  else
    let (thunk, stack, k) := claimCallback pages k
    if thunk = 0 ∨ stack = 0 then (false, k, t)
    else (true, k, { t with
      origRip := t.userRip
      origRsp := t.userRsp
      origRflags := t.userRflags
      savedReturnAddress := if mem.readable t.userRsp then mem.word t.userRsp else 0
      callbackActive := true
      callbackRip := thunk
      callbackRsp := thunkRsp (stack - 0x100)
      callbackFlags := 0x202
      callbackContinue := call.continuation
      callbackWindow := call.window
      callbackMsg := call.msg
      callbackLParam := call.lParam
      redirectPending := true })

def kiChainUserCallback (pages : Bool) (call : CallbackCall) (k : CallbackKernel)
    (t : CallbackFields) : Bool × CallbackKernel × CallbackFields :=
  if !t.callbackActive || t.redirectPending then (false, k, t)
  else
    let (thunk, k) := ldrpBuildCallbackThunk pages k
    if thunk = 0 then (false, k, t)
    else (true, k, { t with
      callbackRip := thunk
      callbackRsp := thunkRsp t.callbackRsp
      callbackContinue := call.continuation
      callbackWindow := call.window
      callbackMsg := call.msg
      callbackLParam := call.lParam
      redirectPending := true })

def kiFinishCallbackToCaller (mem : UserMemory) (t : CallbackFields) :
    UserMemory × CallbackFields :=
  (if t.savedReturnAddress ≠ 0 ∧ mem.writable t.origRsp then
      { mem with word := Function.update mem.word t.origRsp t.savedReturnAddress }
    else mem,
   { t with
    callbackRip := t.origRip
    callbackRsp := t.origRsp
    callbackFlags := t.origRflags
    callbackContinue := 0
    callbackActive := false
    redirectPending := true })

/-- `KiWindowProcOf`. -/
def kiWindowProcOf (mem : UserMemory) (hwnd : Nat) : Nat :=
  let slot := hwnd % 0x10000
  if slot = 0 ∨ slot ≥ 128 then 0
  else
    let at_ := processUserObjectArenaVa + slot * 0x200 + wndWndProcOff
    if mem.readable at_ then mem.word at_ else 0

/-- What a service reads and changes, and what it returns in `RAX`. -/
structure CallbackState where
  kernel : CallbackKernel
  fields : CallbackFields
  memory : UserMemory
  windowOwner : Nat → Nat

/-- `KiSendToWindowProc`, for `NtUserMessageCall` and `NtUserDispatchMessage`. -/
def kiSendToWindowProc (pages : Bool) (hwnd message lParam : Nat) (s : CallbackState) :
    Bool × CallbackState :=
  if kiWindowProcOf s.memory hwnd = 0 then (false, s)
  else
    let r := kiStartUserCallback pages s.memory ⟨cbContSimple, hwnd, message, lParam⟩ s.kernel
      s.fields
    (r.1, { s with kernel := r.2.1, fields := r.2.2 })

/-- `NtUserMessageCall` returns 0 either way. -/
def ntUserMessageCall (pages : Bool) (hwnd message lParam : Nat) (s : CallbackState) :
    Nat × CallbackState :=
  (0, (kiSendToWindowProc pages hwnd (wrap32 message) lParam s).2)

/-- `NtUserDispatchMessage` with the message at its argument, `none` when that
is null or cannot be read. -/
def ntUserDispatchMessage (pages : Bool) (msg : Option (Nat × Nat × Nat)) (s : CallbackState) :
    Nat × CallbackState :=
  match msg with
  | none => (0, s)
  | some (hwnd, message, lParam) =>
    if hwnd = 0 then (0, s) else (0, (kiSendToWindowProc pages hwnd message lParam s).2)

/-- The end of `NtUserCreateWindowEx`, with the procedure of the window's class. -/
def createWindowCallback (pages : Bool) (hwnd wndProc : Nat) (s : CallbackState) :
    Nat × CallbackState :=
  if wndProc = 0 then (hwnd, s)
  else
    let (cs, k) := kiBuildCreateStruct pages s.kernel
    let r := kiStartUserCallback pages s.memory ⟨cbContCreateNcCreate, hwnd, wmNcCreate, cs⟩ k
      s.fields
    (if r.1 then 0 else hwnd, { s with kernel := r.2.1, fields := r.2.2 })

def finishCallback (s : CallbackState) : CallbackState :=
  let r := kiFinishCallbackToCaller s.memory s.fields
  { s with memory := r.1, fields := r.2 }

/-- A window whose creation its procedure refused loses its owner. -/
def disown (hwnd : Nat) (s : CallbackState) : CallbackState :=
  let slot := hwnd % 0x10000
  if slot ≠ 0 ∧ slot < 128 then
    { s with windowOwner := Function.update s.windowOwner slot 0 }
  else s

/-- The window's procedure as `NtCallbackReturn` reads it. -/
def createdProc (mem : UserMemory) (hwnd : Nat) : Nat :=
  let at_ := processUserObjectArenaVa + hwnd % 0x10000 * 0x200 + wndWndProcOff
  if mem.readable at_ then mem.word at_ else 0

def ntCallbackReturn (pages : Bool) (result : Nat) (s : CallbackState) : Nat × CallbackState :=
  let t := s.fields
  if !t.callbackActive then (0, s)
  else if t.callbackContinue = cbContCreateNcCreate then
    if result = 0 then (0, finishCallback (disown t.callbackWindow s))
    else
      let r := if createdProc s.memory t.callbackWindow ≠ 0 then
          kiChainUserCallback pages ⟨cbContCreateWmCreate, t.callbackWindow, wmCreate,
            t.callbackLParam⟩ s.kernel t
        else (false, s.kernel, t)
      let s := { s with kernel := r.2.1, fields := r.2.2 }
      if r.1 then (0, s) else (t.callbackWindow, finishCallback s)
  else if t.callbackContinue = cbContCreateWmCreate then
    if result = 2 ^ 64 - 1 then (0, finishCallback (disown t.callbackWindow s))
    else (t.callbackWindow, finishCallback s)
  else (result, finishCallback s)

/-- Where `sysret` goes. -/
structure UserFrame where
  rip : Nat
  rsp : Nat
  rflags : Nat
  deriving DecidableEq, Repr

inductive CallbackService where
  | messageCall (hwnd message lParam : Nat)
  | dispatchMessage (msg : Option (Nat × Nat × Nat))
  | createWindow (hwnd wndProc : Nat)
  | callbackReturn (result : Nat)
  /-- Any other service; the loader's import stubs come from the same arena. -/
  | other (rax : Nat) (kernel : CallbackKernel)

def CallbackService.run (pages : Bool) (s : CallbackState) : CallbackService → Nat × CallbackState
  | .messageCall hwnd message lParam => ntUserMessageCall pages hwnd message lParam s
  | .dispatchMessage msg => ntUserDispatchMessage pages msg s
  | .createWindow hwnd wndProc => createWindowCallback pages hwnd wndProc s
  | .callbackReturn result => ntCallbackReturn pages result s
  | .other rax kernel => (rax, { s with kernel := kernel })

/-- The entry mirrors the trap frame into the thread. -/
def mirror (frame : UserFrame) (s : CallbackState) : CallbackState :=
  { s with fields := { s.fields with
    userRip := frame.rip
    userRsp := frame.rsp
    userRflags := frame.rflags } }

/-- The exit goes where a pending redirect says, and clears it. -/
def leave (frame : UserFrame) (s : CallbackState) : UserFrame × CallbackState :=
  if s.fields.redirectPending then
    (⟨s.fields.callbackRip, s.fields.callbackRsp, s.fields.callbackFlags⟩,
      { s with fields := { s.fields with redirectPending := false } })
  else (frame, s)

/-- `KiSystemCallEntry`: where the call returns to, what with, and the state. -/
def kiSystemCallEntry (pages : Bool) (frame : UserFrame) (service : CallbackService)
    (s : CallbackState) : UserFrame × Nat × CallbackState :=
  let r := service.run pages (mirror frame s)
  let l := leave frame r.2
  (l.1, r.1, l.2)

end User
