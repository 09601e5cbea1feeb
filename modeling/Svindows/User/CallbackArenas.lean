import Svindows.User.CallbackRuns

/-!
# Callbacks use up their stacks and thunks

All threads draw from the same two arenas, and a chain that has finished gives
nothing back: no run starts more than 16 chains.
-/

namespace User

open Nt

/-- Once the stub arena is mapped its cursor is an address in it. -/
def StubSound (k : CallbackKernel) : Prop := k.stubArena ≠ 0 → k.stubNext ≠ 0

/-- There are 80 bytes for a thunk, at the latest once the arena is mapped. -/
def ThunkRoom (k : CallbackKernel) : Prop :=
  k.stubArena = 0 ∨ k.stubNext + 80 ≤ k.stubEnd

theorem ldrpEnsureStubArena_keeps (pages : Bool) (k : CallbackKernel) :
    (ldrpEnsureStubArena pages k).2.stackNext = k.stackNext ∧
      (StubSound k → StubSound (ldrpEnsureStubArena pages k).2) := by
  unfold ldrpEnsureStubArena
  split
  · exact ⟨rfl, id⟩
  · split
    · exact ⟨rfl, id⟩
    · exact ⟨rfl, fun _ _ => by show ldrStubArenaVa + 2 * ldrStubSlotSize ≠ 0; decide⟩

theorem takeStub_keeps (pages : Bool) (need : Nat) (k : CallbackKernel) :
    (takeStub pages need k).2.stackNext = k.stackNext ∧
      (StubSound k → StubSound (takeStub pages need k).2) := by
  have kept := ldrpEnsureStubArena_keeps pages k
  unfold takeStub
  generalize ldrpEnsureStubArena pages k = r at kept
  obtain ⟨mapped, k₁⟩ := r
  dsimp only at kept ⊢
  split
  · exact kept
  · split
    · exact kept
    · refine ⟨kept.1, ?_⟩
      intro sound there
      have cursor := kept.2 sound there
      show k₁.stubNext + need ≠ 0
      omega

/-- With memory to map the arena, a thunk is built exactly when there is room. -/
theorem thunk_iff {k : CallbackKernel} (sound : StubSound k) :
    (ldrpBuildCallbackThunk true k).1 ≠ 0 ↔ ThunkRoom k := by
  unfold ldrpBuildCallbackThunk takeStub ldrpEnsureStubArena ThunkRoom
  by_cases mapped : k.stubArena = 0
  · have room : ¬ (ldrStubArenaVa + 2 * ldrStubSlotSize + 5 * 16 > ldrCfgTraceVa) := by decide
    have arena : ldrStubArenaVa ≠ 0 := by decide
    simp [mapped, room, arena]
  · have cursor := sound mapped
    simp only [ne_eq, mapped, not_false_eq_true, if_true, Bool.not_true, Bool.false_eq_true,
      if_false, false_or]
    split
    · rename_i full
      simp only [not_true_eq_false, false_iff]
      omega
    · rename_i room
      simp only [cursor, not_false_eq_true, true_iff]
      omega

theorem stack_iff (k : CallbackKernel) :
    (kiClaimCallbackStack true k).1 ≠ 0 ↔ k.stackNext < 16 := by
  unfold kiClaimCallbackStack callbackStackSlots
  split
  · rename_i none
    simp only [ne_eq, not_true_eq_false, false_iff]
    omega
  · rename_i some_
    have below : k.stackNext < 16 := by omega
    simp only [if_true, ne_eq, below, iff_true]
    unfold callbackStackArenaVa
    omega

/-- A claim takes at most one stack, and one when it delivers. -/
theorem claimCallback_stackNext (pages : Bool) (k : CallbackKernel) :
    k.stackNext ≤ (claimCallback pages k).2.2.stackNext ∧
      (k.stackNext ≤ 16 → (claimCallback pages k).2.2.stackNext ≤ 16) ∧
      ((claimCallback pages k).2.1 ≠ 0 →
        (claimCallback pages k).2.2.stackNext = k.stackNext + 1) := by
  have same := (takeStub_keeps pages (5 * 16) k).1
  unfold claimCallback ldrpBuildCallbackThunk
  generalize takeStub pages (5 * 16) k = r at same
  obtain ⟨thunk, k₁⟩ := r
  have same : k₁.stackNext = k.stackNext := same
  dsimp only
  split
  · exact ⟨by dsimp only; omega, by dsimp only; omega, fun wrong => absurd rfl wrong⟩
  · unfold kiClaimCallbackStack callbackStackSlots
    split
    · exact ⟨by dsimp only; omega, by dsimp only; omega, fun wrong => absurd rfl wrong⟩
    · dsimp only
      exact ⟨by omega, by omega, fun _ => by omega⟩

theorem StubSound.claimCallback {k : CallbackKernel} (sound : StubSound k) (pages : Bool) :
    StubSound (claimCallback pages k).2.2 := by
  have kept := (takeStub_keeps pages (5 * 16) k).2 sound
  unfold User.claimCallback ldrpBuildCallbackThunk
  generalize takeStub pages (5 * 16) k = r at kept
  obtain ⟨thunk, k₁⟩ := r
  dsimp only
  split
  · exact kept
  · unfold kiClaimCallbackStack
    split
    · exact kept
    · exact kept

/-- What a service may do to the arenas: it gives nothing back, and the start of
a callback takes a stack. -/
structure Draws (s u : CallbackState) : Prop where
  monotone : s.kernel.stackNext ≤ u.kernel.stackNext
  bounded : s.kernel.stackNext ≤ 16 → u.kernel.stackNext ≤ 16
  sound : StubSound s.kernel → StubSound u.kernel
  starts : s.fields.callbackActive = false → u.fields.callbackActive = true →
    s.kernel.stackNext < u.kernel.stackNext

theorem Draws.refl (s : CallbackState) : Draws s s :=
  ⟨Nat.le_refl _, id, id, fun idle active => absurd (idle.symm.trans active) (by simp)⟩

theorem Draws.start {s : CallbackState} {k : CallbackKernel} (pages : Bool) (call : CallbackCall)
    (same : k.stackNext = s.kernel.stackNext) (sound : StubSound s.kernel → StubSound k) :
    Draws s { s with
      kernel := (kiStartUserCallback pages s.memory call k s.fields).2.1
      fields := (kiStartUserCallback pages s.memory call k s.fields).2.2 } := by
  obtain ⟨more, bounded, one⟩ := claimCallback_stackNext pages k
  have claimed := fun kept : StubSound s.kernel => (sound kept).claimCallback pages
  unfold kiStartUserCallback
  split
  · exact ⟨Nat.le_of_eq same.symm, fun h => by dsimp only; omega, sound,
      fun idle active => absurd (idle.symm.trans active) (by simp)⟩
  · generalize User.claimCallback pages k = claim at more bounded one claimed
    obtain ⟨thunk, stack, k₁⟩ := claim
    dsimp only at more bounded one claimed ⊢
    split
    · exact ⟨by dsimp only; omega, fun h => by dsimp only; omega, claimed,
        fun idle active => absurd (idle.symm.trans active) (by simp)⟩
    · rename_i both
      have given : stack ≠ 0 := fun zero => both (.inr zero)
      have taken := one given
      exact ⟨by dsimp only; omega, fun h => by dsimp only; omega, claimed,
        fun _ _ => by dsimp only; omega⟩

theorem Draws.send (pages : Bool) (hwnd message lParam : Nat) (s : CallbackState) :
    Draws s (kiSendToWindowProc pages hwnd message lParam s).2 := by
  unfold kiSendToWindowProc
  split
  · exact Draws.refl s
  · exact Draws.start pages _ rfl id

theorem Draws.finish {s u : CallbackState} (active : s.fields.callbackActive = true)
    (kernel : u.kernel.stackNext = s.kernel.stackNext)
    (sound : StubSound s.kernel → StubSound u.kernel) : Draws s (finishCallback u) :=
  ⟨Nat.le_of_eq kernel.symm, fun h => by show u.kernel.stackNext ≤ 16; omega, sound,
    fun idle _ => absurd (idle.symm.trans active) (by simp)⟩

theorem disown_kernel (hwnd : Nat) (s : CallbackState) : (disown hwnd s).kernel = s.kernel := by
  unfold disown
  dsimp only
  split
  · rfl
  · rfl

theorem Draws.disowned {s : CallbackState} (active : s.fields.callbackActive = true) (hwnd : Nat) :
    Draws s (finishCallback (disown hwnd s)) :=
  Draws.finish active (by rw [disown_kernel]) (by rw [disown_kernel]; exact id)

theorem Draws.callbackReturn (pages : Bool) (result : Nat) (s : CallbackState) :
    Draws s (ntCallbackReturn pages result s).2 := by
  unfold ntCallbackReturn
  dsimp only
  split
  · exact Draws.refl s
  · rename_i busy
    have active : s.fields.callbackActive = true := by
      cases active : s.fields.callbackActive with
      | true => rfl
      | false => exact absurd (by simp [active]) busy
    split
    · split
      · exact Draws.disowned active _
      · split
        · unfold kiChainUserCallback
          split
          · exact Draws.finish active rfl id
          · obtain ⟨same, kept⟩ := takeStub_keeps pages (5 * 16) s.kernel
            unfold ldrpBuildCallbackThunk
            dsimp only
            split
            · exact Draws.finish active same kept
            · refine ⟨Nat.le_of_eq same.symm, ?_, kept,
                fun idle _ => absurd (idle.symm.trans active) (by simp)⟩
              intro few
              rw [if_pos rfl, same]
              exact few
        · exact Draws.finish active rfl id
    · split
      · split
        · exact Draws.disowned active _
        · exact Draws.finish active rfl id
      · exact Draws.finish active rfl id

/-- The four services that deal with callbacks. -/
def CallbackService.Window : CallbackService → Prop
  | .other _ _ => False
  | _ => True

theorem Draws.run (pages : Bool) (s : CallbackState) {service : CallbackService}
    (window : service.Window) : Draws s (service.run pages s).2 := by
  cases service with
  | messageCall hwnd message lParam => exact Draws.send _ _ _ _ _
  | dispatchMessage msg =>
    simp only [CallbackService.run, ntUserDispatchMessage]
    split
    · exact Draws.refl s
    · split
      · exact Draws.refl s
      · exact Draws.send _ _ _ _ _
  | createWindow hwnd wndProc =>
    simp only [CallbackService.run, createWindowCallback]
    split
    · exact Draws.refl s
    · obtain ⟨same, kept⟩ := takeStub_keeps pages 0x60 s.kernel
      exact Draws.start pages _ same kept
  | callbackReturn result => exact Draws.callbackReturn pages result s
  | other _ _ => exact absurd window id

/-- The arenas, the threads, and the number of chains started. -/
structure Pump where
  kernel : CallbackKernel
  threads : Nat → CallbackFields
  started : Nat

/-- A system call of thread `tid`. -/
structure PumpCall where
  tid : Nat
  frame : UserFrame
  service : CallbackService
  pages : Bool
  memory : UserMemory
  windowOwner : Nat → Nat

def Pump.enter (w : Pump) (c : PumpCall) : CallbackState :=
  ⟨w.kernel, w.threads c.tid, c.memory, c.windowOwner⟩

def Pump.after (w : Pump) (c : PumpCall) : Pump :=
  let u := (kiSystemCallEntry c.pages c.frame c.service (w.enter c)).2.2
  { kernel := u.kernel
    threads := Function.update w.threads c.tid u.fields
    started := if !(w.threads c.tid).callbackActive && u.fields.callbackActive then w.started + 1
      else w.started }

def PumpStart (w : Pump) : Prop :=
  w.kernel = noCallbacks ∧ (∀ tid, w.threads tid = .zero) ∧ w.started = 0

def PumpStep (w : Pump) (c : PumpCall) (v : Pump) : Prop := c.service.Window ∧ v = w.after c

/-- Every chain started has taken a stack, and there were 16. -/
structure Drawn (w : Pump) : Prop where
  settled : ∀ tid, (w.threads tid).redirectPending = false
  sound : StubSound w.kernel
  few : w.kernel.stackNext ≤ 16
  started : w.started ≤ w.kernel.stackNext

theorem leave_kernel (frame : UserFrame) (s : CallbackState) :
    (leave frame s).2.kernel = s.kernel := by
  unfold leave
  split
  · rfl
  · rfl

theorem Drawn.step {w : Pump} (drawn : Drawn w) {c : PumpCall} (window : c.service.Window) :
    Drawn (w.after c) ∧ w.kernel.stackNext ≤ (w.after c).kernel.stackNext := by
  have draws := Draws.run c.pages (mirror c.frame (w.enter c)) window
  have fields := (leave_fields c.frame
    (c.service.run c.pages (mirror c.frame (w.enter c))).2).1
  have kernel := leave_kernel c.frame (c.service.run c.pages (mirror c.frame (w.enter c))).2
  simp only [Pump.after, kiSystemCallEntry, fields, kernel]
  generalize (c.service.run c.pages (mirror c.frame (w.enter c))).2 = u at draws
  have more : w.kernel.stackNext ≤ u.kernel.stackNext := draws.monotone
  refine ⟨⟨?_, draws.sound drawn.sound, draws.bounded drawn.few, ?_⟩, more⟩
  · intro tid
    by_cases here : tid = c.tid
    · simp [here]
    · simp only [Function.update_of_ne here]
      exact drawn.settled tid
  · have before := drawn.started
    dsimp only
    split
    · rename_i starts
      simp only [Bool.and_eq_true, Bool.not_eq_true'] at starts
      have taken : w.kernel.stackNext < u.kernel.stackNext := draws.starts starts.1 starts.2
      omega
    · omega

/-- With memory available, an idle thread's callback starts exactly when a stack
and a thunk are left. -/
theorem Drawn.send_iff {w : Pump} (drawn : Drawn w) {tid : Nat}
    (idle : (w.threads tid).callbackActive = false) {mem : UserMemory} {hwnd : Nat}
    (proc : kiWindowProcOf mem hwnd ≠ 0) (message lParam : Nat) (owner : Nat → Nat) :
    (kiSendToWindowProc true hwnd message lParam ⟨w.kernel, w.threads tid, mem, owner⟩).1 = true ↔
      w.kernel.stackNext < 16 ∧ ThunkRoom w.kernel := by
  have settled := drawn.settled tid
  have thunk := thunk_iff drawn.sound
  have same := (takeStub_keeps true (5 * 16) w.kernel).1
  have stack := stack_iff (ldrpBuildCallbackThunk true w.kernel).2
  have same : (ldrpBuildCallbackThunk true w.kernel).2.stackNext = w.kernel.stackNext := same
  rw [same] at stack
  unfold kiSendToWindowProc
  rw [if_neg proc]
  simp only [kiStartUserCallback, idle, settled, Bool.or_false, Bool.false_eq_true, if_false,
    claimCallback]
  by_cases room : ThunkRoom w.kernel
  · have given := thunk.mpr room
    rw [if_neg given]
    by_cases left : w.kernel.stackNext < 16
    · have top := stack.mpr left
      simp [given, top, left, room]
    · have top : (kiClaimCallbackStack true (ldrpBuildCallbackThunk true w.kernel).2).1 = 0 := by
        by_contra some_
        exact left (stack.mp some_)
      simp [top, left]
  · have none : (ldrpBuildCallbackThunk true w.kernel).1 = 0 := by
      by_contra some_
      exact room (thunk.mp some_)
    simp [none, room]

/-- Stacks and thunks are not given back: a callback starts as long as both last,
and at most 16 chains start in a run. -/
theorem callbacks_use_up_arenas {w : Pump} (run : Runs.Reachable PumpStart PumpStep w) :
    (∀ tid mem hwnd message lParam owner, (w.threads tid).callbackActive = false →
      kiWindowProcOf mem hwnd ≠ 0 →
      ((kiSendToWindowProc true hwnd message lParam
        ⟨w.kernel, w.threads tid, mem, owner⟩).1 = true ↔
          w.kernel.stackNext < 16 ∧ ThunkRoom w.kernel)) ∧
    w.started ≤ w.kernel.stackNext ∧ w.kernel.stackNext ≤ 16 ∧
    ∀ c, c.service.Window → w.kernel.stackNext ≤ (w.after c).kernel.stackNext := by
  have drawn : Drawn w := by
    refine run.invariant ?_ ?_
    · rintro v ⟨kernel, threads, started⟩
      refine ⟨fun tid => by rw [threads]; rfl, ?_, ?_, ?_⟩
      · rw [kernel]
        exact fun mapped => absurd rfl mapped
      · rw [kernel]
        decide
      · rw [started]
        exact Nat.zero_le _
    · rintro v c _ drawn ⟨window, rfl⟩
      exact (drawn.step window).1
  refine ⟨?_, drawn.started, drawn.few, fun c window => (drawn.step window).2⟩
  intro tid mem hwnd message lParam owner idle proc
  exact drawn.send_iff idle proc message lParam owner

/-- Thread 1 sends to the window, and its procedure returns. -/
def sendCall : PumpCall :=
  ⟨1, ⟨0x4000, 0x8000, 0x246⟩, .messageCall 1 0x10 0, true, oneWindow, fun _ => 1⟩

def returnCall : PumpCall :=
  ⟨1, ⟨0x6000, 0x7000, 0x246⟩, .callbackReturn 5, true, oneWindow, fun _ => 1⟩

def bootPump : Pump := ⟨noCallbacks, fun _ => .zero, 0⟩

def afterSends : Nat → Pump
  | 0 => bootPump
  | n + 1 => ((afterSends n).after sendCall).after returnCall

theorem afterSends_reachable (n : Nat) : Runs.Reachable PumpStart PumpStep (afterSends n) := by
  induction n with
  | zero => exact .of_initial ⟨rfl, fun _ => rfl, rfl⟩
  | succ n ih => exact (ih.next (l := sendCall) ⟨trivial, rfl⟩).next (l := returnCall) ⟨trivial, rfl⟩

theorem afterSends_others (n : Nat) {tid : Nat} (other : tid ≠ 1) :
    (afterSends n).threads tid = .zero := by
  induction n with
  | zero => rfl
  | succ n ih =>
    simp only [afterSends, Pump.after, sendCall, returnCall, Function.update_of_ne other]
    exact ih

theorem callbacks_use_up_arenas_at_boot :
    (kiSendToWindowProc true 1 0x10 0 ⟨bootPump.kernel, bootPump.threads 1, oneWindow,
      fun _ => 1⟩).1 = true := by
  refine ((callbacks_use_up_arenas (afterSends_reachable 0)).1 1 oneWindow 1 0x10 0 (fun _ => 1)
    rfl (by decide)).mpr ⟨by decide, ?_⟩
  exact .inl rfl

/-- After 16 sends that have all finished, with no chain in flight and memory
available, the next one is refused. -/
theorem seventeenth_send_refused :
    ∃ w, Runs.Reachable PumpStart PumpStep w ∧ (∀ tid, (w.threads tid).callbackActive = false) ∧
      kiWindowProcOf oneWindow 1 ≠ 0 ∧
      (kiSendToWindowProc true 1 0x10 0 ⟨w.kernel, w.threads 1, oneWindow, fun _ => 1⟩).1 =
        false := by
  refine ⟨afterSends 16, afterSends_reachable 16, ?_, by decide, by decide +kernel⟩
  intro tid
  by_cases one : tid = 1
  · rw [one]
    decide +kernel
  · rw [afterSends_others 16 one]
    rfl

end User
