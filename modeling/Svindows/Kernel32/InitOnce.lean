import Mathlib.Logic.Function.Basic
import Mathlib.Tactic.SplitIfs
import Svindows.Lib.Runs

/-!
# One-time initialization

`InitOnceExecuteOnce` of `kernel32.c` on one `INIT_ONCE`, where every read, compare-and-swap
and exchange of its word is a step of its own. The calls are numbered, so that a thread can
make any number of them; a callback is a pause, after which the call goes on with any answer.
-/

namespace Kernel32

open Runs Relation

/-- Where a call is. -/
inductive OncePc where
  | out
  /-- `InitOnceBeginInitialize`: before the word is read, before the compare-and-swap, and in
  `Sleep(0)`. -/
  | read
  | swap
  | sleep
  | callback
  /-- `InitOnceComplete`: before 0 is stored, and before it looks at the context. -/
  | fail
  | complete (result : UInt64)
  /-- What the call returned, and what it stored through the pointer for the context. -/
  | returned (ok : Bool) (context : Option UInt64)
  deriving DecidableEq

/-- The arguments say whether a callback and a pointer for the context were passed. -/
structure OnceCall where
  pc : OncePc
  callback : Bool
  context : Bool

structure OnceState where
  word : UInt64
  calls : Nat → OnceCall

/-- A zeroed `INIT_ONCE`. -/
def onceInit : OnceState := ⟨0, fun _ => ⟨.out, false, false⟩⟩

inductive OnceAction where
  | call (callback context : Bool)
  /-- The next access of the call to the word, or the end of `Sleep`. -/
  | go
  /-- The callback returns; `result` is what its context pointer then points to. -/
  | answer (success : Bool) (result : UInt64)

def OnceState.at (s : OnceState) (c : Nat) (call : OnceCall) : OnceState :=
  { s with calls := Function.update s.calls c call }

def OnceState.move (s : OnceState) (c : Nat) (pc : OncePc) : OnceState :=
  s.at c { s.calls c with pc := pc }

/-- The call returns TRUE with context `v`. -/
def OnceCall.finish (call : OnceCall) (v : UInt64) : OncePc :=
  .returned true (if call.context then some v else none)

/-- The context that a completed word stands for. -/
def contextOf (word : UInt64) : UInt64 := if word = 2 then 0 else word

/-- The word for a context. -/
def completedWord (context : UInt64) : UInt64 := if context ≠ 0 then context else 2

/-- The next step of call `c` itself. -/
def OnceState.go (s : OnceState) (c : Nat) : Option OnceState :=
  match (s.calls c).pc with
  | .out | .callback | .returned .. => none
  | .read =>
    if s.word = 0 then some (s.move c .swap)
    else if s.word = 1 then some (s.move c .sleep)
    else some (s.move c ((s.calls c).finish (contextOf s.word)))
  | .swap =>
    if s.word = 0 then some { s.move c .callback with word := 1 }
    else some (s.move c .read)
  | .sleep => some (s.move c .read)
  | .fail => some { s.move c (.returned false none) with word := 0 }
  | .complete v =>
    if v &&& 3 ≠ 0 then some (s.move c (.returned false none))
    else some { s.move c ((s.calls c).finish v) with word := completedWord v }

def OnceState.step (s : OnceState) (c : Nat) : OnceAction → Option OnceState
  | .call callback context =>
    if (s.calls c).pc = .out then
      some (s.at c ⟨if callback then .read else .returned false none, callback, context⟩)
    else none
  | .go => s.go c
  | .answer success result =>
    if (s.calls c).pc = .callback then
      some (s.move c (if success then .complete result else .fail))
    else none

def OnceStart (s : OnceState) : Prop := s = onceInit

def OnceStep (s : OnceState) (l : Nat × OnceAction) (t : OnceState) : Prop :=
  s.step l.1 l.2 = some t

/-- The context has its low two bits clear, as `InitOnceComplete` wants it, or the callback
has failed. -/
def OnceAction.Aligned : OnceAction → Prop
  | .answer true result => result &&& 3 = 0
  | _ => True

def AlignedStep (s : OnceState) (l : Nat × OnceAction) (t : OnceState) : Prop :=
  l.2.Aligned ∧ OnceStep s l t

def OnceState.After (s t : OnceState) : Prop := ReflTransGen (fun a b => ∃ l, OnceStep a l b) s t

/-- No call is running. -/
def OnceState.Idle (s : OnceState) : Prop :=
  ∀ c, (s.calls c).pc = .out ∨ ∃ ok context, (s.calls c).pc = .returned ok context

/-- At most one callback runs. -/
def OnceState.Exclusive (s : OnceState) : Prop :=
  ∀ c d, (s.calls c).pc = .callback → (s.calls d).pc = .callback → c = d

/-- Once a call has returned TRUE, no callback runs any more, and every later call with a
callback returns TRUE with the same context. -/
def OnceState.Settled (s : OnceState) : Prop :=
  ∀ c context, (s.calls c).pc = .returned true context →
    ∃ v, (s.calls c).finish v = .returned true context ∧ ∀ t, s.After t →
      (∀ d, (t.calls d).pc ≠ .callback) ∧
      ∀ d ok context', (s.calls d).pc = .out → (t.calls d).callback = true →
        (t.calls d).pc = .returned ok context' → (t.calls d).pc = (t.calls d).finish v

/-- The call that has put 1 into the word. -/
def OncePc.owns : OncePc → Bool
  | .callback | .fail | .complete _ => true
  | _ => false

/-- From a call and the word to the call and the word behind the action. -/
inductive OnceEffect (call : OnceCall) (word : UInt64) : OnceAction → OnceCall → UInt64 → Prop where
  | enter (callback context : Bool) : call.pc = .out →
      OnceEffect call word (.call callback context)
        ⟨if callback then .read else .returned false none, callback, context⟩ word
  /-- A move in the loop of `InitOnceBeginInitialize`. -/
  | turn (pc : OncePc) : call.pc = .read ∨ call.pc = .swap ∨ call.pc = .sleep →
      pc = .read ∨ pc = .swap ∧ word = 0 ∨ pc = .sleep →
      OnceEffect call word .go { call with pc := pc } word
  | found : call.pc = .read → word ≠ 0 → word ≠ 1 →
      OnceEffect call word .go { call with pc := call.finish (contextOf word) } word
  | claim : call.pc = .swap → word = 0 →
      OnceEffect call word .go { call with pc := .callback } 1
  | answer (success : Bool) (result : UInt64) : call.pc = .callback →
      OnceEffect call word (.answer success result)
        { call with pc := if success then .complete result else .fail } word
  | reset : call.pc = .fail →
      OnceEffect call word .go { call with pc := .returned false none } 0
  | refuse (v : UInt64) : call.pc = .complete v → v &&& 3 ≠ 0 →
      OnceEffect call word .go { call with pc := .returned false none } word
  | complete (v : UInt64) : call.pc = .complete v → v &&& 3 = 0 →
      OnceEffect call word .go { call with pc := call.finish v } (completedWord v)

section Steps

variable {s t : OnceState} {c : Nat} {a : OnceAction}

theorem move_self (s : OnceState) (c : Nat) (pc : OncePc) : ((s.move c pc).calls c).pc = pc := by
  rw [OnceState.move, OnceState.at]
  simp only [Function.update_self]

theorem move_other (s : OnceState) {c d : Nat} (pc : OncePc) (other : d ≠ c) :
    (s.move c pc).calls d = s.calls d :=
  Function.update_of_ne other _ _

theorem go_effect (made : s.go c = some t) :
    ∃ call, t.calls = Function.update s.calls c call ∧
      OnceEffect (s.calls c) s.word .go call t.word := by
  rw [OnceState.go] at made
  cases pc : (s.calls c).pc with
  | out | callback => simp [pc] at made
  | returned ok context => simp [pc] at made
  | read =>
    simp only [pc] at made
    split_ifs at made with zero one
    · cases made
      exact ⟨_, rfl, .turn .swap (.inl pc) (.inr (.inl ⟨rfl, zero⟩))⟩
    · cases made
      exact ⟨_, rfl, .turn .sleep (.inl pc) (.inr (.inr rfl))⟩
    · cases made
      exact ⟨_, rfl, .found pc zero one⟩
  | swap =>
    simp only [pc] at made
    split_ifs at made with zero
    · cases made
      exact ⟨_, rfl, .claim pc zero⟩
    · cases made
      exact ⟨_, rfl, .turn .read (.inr (.inl pc)) (.inl rfl)⟩
  | sleep =>
    simp only [pc] at made
    cases made
    exact ⟨_, rfl, .turn .read (.inr (.inr pc)) (.inl rfl)⟩
  | fail =>
    simp only [pc] at made
    cases made
    exact ⟨_, rfl, .reset pc⟩
  | complete v =>
    simp only [pc] at made
    split_ifs at made with refused
    · cases made
      exact ⟨_, rfl, .refuse v pc refused⟩
    · cases made
      exact ⟨_, rfl, .complete v pc (not_not.mp refused)⟩

theorem step_effect (made : s.step c a = some t) :
    ∃ call, t.calls = Function.update s.calls c call ∧
      OnceEffect (s.calls c) s.word a call t.word := by
  cases a with
  | call callback context =>
    obtain ⟨out, made⟩ := Option.ite_none_right_eq_some.mp made
    cases made
    exact ⟨_, rfl, .enter callback context out⟩
  | go => exact go_effect made
  | answer success result =>
    obtain ⟨running, made⟩ := Option.ite_none_right_eq_some.mp made
    cases made
    exact ⟨_, rfl, .answer success result running⟩

end Steps

/-- Only the call that has put 1 into the word is at work on it, and the calls that returned
TRUE did so with the context of a completed word. -/
structure OnceInv (s : OnceState) : Prop where
  owner : ∀ c, (s.calls c).pc.owns = true → s.word = 1
  alone : ∀ c d, (s.calls c).pc.owns = true → (s.calls d).pc.owns = true → c = d
  done : ∀ c context, (s.calls c).pc = .returned true context →
    s.word ≠ 0 ∧ s.word ≠ 1 ∧ (s.calls c).finish (contextOf s.word) = .returned true context

/-- A completed word is neither 0 nor 1, and stands for the context it was made from. -/
theorem completedWord_spec {v : UInt64} (aligned : v &&& 3 = 0) :
    completedWord v ≠ 0 ∧ completedWord v ≠ 1 ∧ contextOf (completedWord v) = v := by
  have other : v ≠ 1 ∧ v ≠ 2 := by
    constructor
    · rintro rfl
      exact absurd aligned (by decide)
    · rintro rfl
      exact absurd aligned (by decide)
  by_cases zero : v = 0
  · subst zero
    decide
  · rw [completedWord, if_pos zero, contextOf, if_neg other.2]
    exact ⟨zero, other.1, rfl⟩

section Runs

variable {s t : OnceState} {c : Nat}

theorem onceInit_inv : OnceInv onceInit where
  owner c owns := by cases owns
  alone c d owns := by cases owns
  done c context returned := by cases returned

/-- A step that leaves the word and gives its call nothing to work on. -/
theorem OnceInv.aside (inv : OnceInv s) {call : OnceCall}
    (calls : t.calls = Function.update s.calls c call) (word : t.word = s.word)
    (idle : call.pc.owns = false)
    (returned : ∀ context, call.pc = .returned true context →
      s.word ≠ 0 ∧ s.word ≠ 1 ∧ call.finish (contextOf s.word) = .returned true context) :
    OnceInv t := by
  have kept : ∀ d, (t.calls d).pc.owns = true → t.calls d = s.calls d := by
    intro d owns
    rw [calls] at owns ⊢
    refine Function.update_of_ne ?_ _ _
    rintro rfl
    rw [Function.update_self, idle] at owns
    cases owns
  refine ⟨fun d owns => ?_, fun d e owns owns' => ?_, fun d context back => ?_⟩
  · rw [word]
    exact inv.owner d (kept d owns ▸ owns)
  · exact inv.alone d e (kept d owns ▸ owns) (kept e owns' ▸ owns')
  · rw [word]
    by_cases same : d = c
    · subst same
      rw [calls, Function.update_self] at back ⊢
      exact returned context back
    · rw [calls, Function.update_of_ne same] at back ⊢
      exact inv.done d context back

/-- While no call works on the word and none has returned TRUE, a call may take it. -/
theorem OnceInv.own (others : ∀ d, d ≠ c → (s.calls d).pc.owns = false)
    (unset : ∀ d context, d ≠ c → (s.calls d).pc ≠ .returned true context) {call : OnceCall}
    (calls : t.calls = Function.update s.calls c call) (word : t.word = 1)
    (owns : call.pc.owns = true) : OnceInv t := by
  have only : ∀ d, (t.calls d).pc.owns = true → d = c := by
    intro d works
    by_contra other
    rw [calls, Function.update_of_ne other, others d other] at works
    cases works
  refine ⟨fun _ _ => word, fun d e works works' => ?_, fun d context back => ?_⟩
  · rw [only d works, only e works']
  · by_cases same : d = c
    · subst same
      rw [calls, Function.update_self] at back
      rw [back] at owns
      cases owns
    · rw [calls, Function.update_of_ne same] at back
      exact absurd back (unset d context same)

/-- The call at work lets go of the word. -/
theorem OnceInv.release (others : ∀ d, d ≠ c → (s.calls d).pc.owns = false)
    (unset : ∀ d context, d ≠ c → (s.calls d).pc ≠ .returned true context) {call : OnceCall}
    (calls : t.calls = Function.update s.calls c call) (idle : call.pc.owns = false)
    (returned : ∀ context, call.pc = .returned true context →
      t.word ≠ 0 ∧ t.word ≠ 1 ∧ call.finish (contextOf t.word) = .returned true context) :
    OnceInv t := by
  have none_ : ∀ d, (t.calls d).pc.owns = false := by
    intro d
    by_cases same : d = c
    · rw [same, calls, Function.update_self]
      exact idle
    · rw [calls, Function.update_of_ne same]
      exact others d same
  refine ⟨fun d owns => ?_, fun d e owns => ?_, fun d context back => ?_⟩
  · rw [none_] at owns
    cases owns
  · rw [none_] at owns
    cases owns
  · by_cases same : d = c
    · subst same
      rw [calls, Function.update_self] at back ⊢
      exact returned context back
    · rw [calls, Function.update_of_ne same] at back
      exact absurd back (unset d context same)

/-- While a call works on the word, it is the only one, and none has returned TRUE. -/
theorem OnceInv.others (inv : OnceInv s) (owns : (s.calls c).pc.owns = true) :
    (∀ d, d ≠ c → (s.calls d).pc.owns = false) ∧
      ∀ d context, d ≠ c → (s.calls d).pc ≠ .returned true context := by
  refine ⟨fun d other => ?_, fun d context other back => ?_⟩
  · by_contra works
    exact other (inv.alone d c (by simpa using works) owns)
  · exact (inv.done d context back).2.1 (inv.owner c owns)

theorem OnceInv.step (inv : OnceInv s) {a : OnceAction} (made : s.step c a = some t) :
    OnceInv t := by
  obtain ⟨call, calls, effect⟩ := step_effect made
  generalize there : s.calls c = before at effect
  generalize new : t.word = word at effect
  cases effect with
  | enter callback context out =>
    cases callback
    · exact inv.aside calls new rfl nofun
    · exact inv.aside calls new rfl nofun
  | turn pc was becomes =>
    rcases becomes with rfl | ⟨rfl, -⟩ | rfl <;> exact inv.aside calls new rfl nofun
  | found was nonzero nonone =>
    exact inv.aside calls new rfl fun context back => ⟨nonzero, nonone, back⟩
  | claim was zero =>
    refine OnceInv.own (fun d _ => ?_) (fun d context _ back => ?_) calls new rfl
    · by_contra works
      have one := inv.owner d (by simpa using works)
      rw [zero] at one
      cases one
    · exact (inv.done d context back).1 zero
  | answer success result was =>
    have owns : (s.calls c).pc.owns = true := by rw [there, was]; rfl
    obtain ⟨others, unset⟩ := inv.others owns
    refine OnceInv.own others unset calls (new.trans (inv.owner c owns)) ?_
    cases success <;> rfl
  | reset was =>
    have owns : (s.calls c).pc.owns = true := by rw [there, was]; rfl
    obtain ⟨others, unset⟩ := inv.others owns
    exact OnceInv.release others unset calls rfl nofun
  | refuse v was bad =>
    exact inv.aside calls new rfl nofun
  | complete v was aligned =>
    have owns : (s.calls c).pc.owns = true := by rw [there, was]; rfl
    obtain ⟨others, unset⟩ := inv.others owns
    obtain ⟨nonzero, nonone, same⟩ := completedWord_spec aligned
    refine OnceInv.release others unset calls rfl fun context back => ?_
    rw [new]
    refine ⟨nonzero, nonone, ?_⟩
    rw [same]
    exact back

theorem OnceInv.of_reachable (run : Reachable OnceStart OnceStep s) : OnceInv s :=
  run.invariant (by rintro s rfl; exact onceInit_inv) fun _ _ _ inv edge => inv.step edge

theorem OnceInv.exclusive (inv : OnceInv s) : s.Exclusive := by
  intro c d running running'
  refine inv.alone c d ?_ ?_
  · rw [running]
    rfl
  · rw [running']
    rfl

/-- The word stays completed, no call works on it, and the calls that began behind `s` return
TRUE with its context. -/
structure OnceFinal (s t : OnceState) : Prop where
  word : t.word = s.word
  idle : ∀ d, (t.calls d).pc.owns = false
  later : ∀ d, (s.calls d).pc = .out → (t.calls d).callback = true →
    (t.calls d).pc = .out ∨ (t.calls d).pc = .read ∨ (t.calls d).pc = .sleep ∨
      (t.calls d).pc = (t.calls d).finish (contextOf s.word)

/-- Another step: only its call changes. -/
theorem OnceFinal.next {u : OnceState} (final : OnceFinal s t) {call : OnceCall}
    (calls : u.calls = Function.update t.calls c call) (word : u.word = t.word)
    (idle : call.pc.owns = false)
    (later : (s.calls c).pc = .out → call.callback = true →
      call.pc = .out ∨ call.pc = .read ∨ call.pc = .sleep ∨
        call.pc = call.finish (contextOf s.word)) : OnceFinal s u := by
  refine ⟨word.trans final.word, fun d => ?_, fun d => ?_⟩
  · rw [calls]
    by_cases same : d = c
    · rw [same, Function.update_self]
      exact idle
    · rw [Function.update_of_ne same]
      exact final.idle d
  · rw [calls]
    by_cases same : d = c
    · rw [same, Function.update_self]
      exact later
    · rw [Function.update_of_ne same]
      exact final.later d

theorem OnceFinal.step {u : OnceState} (final : OnceFinal s t) (nonzero : s.word ≠ 0)
    {a : OnceAction} (made : t.step c a = some u) : OnceFinal s u := by
  obtain ⟨call, calls, effect⟩ := step_effect made
  have unowned := final.idle c
  have known := final.later c
  generalize t.calls c = before at effect unowned known
  generalize new : u.word = word at effect
  have completed := final.word ▸ nonzero
  cases effect with
  | enter callback context out =>
    cases callback
    · exact final.next calls new rfl nofun
    · exact final.next calls new rfl fun _ _ => .inr (.inl rfl)
  | turn pc was becomes =>
    rcases becomes with rfl | ⟨rfl, zero⟩ | rfl
    · exact final.next calls new rfl fun _ _ => .inr (.inl rfl)
    · exact absurd zero completed
    · exact final.next calls new rfl fun _ _ => .inr (.inr (.inl rfl))
  | found was _ _ =>
    refine final.next calls new rfl fun _ _ => .inr (.inr (.inr ?_))
    rw [final.word]
    rfl
  | claim was zero => exact absurd zero completed
  | answer success result was | reset was =>
    rw [was] at unowned
    cases unowned
  | refuse v was bad =>
    rw [was] at unowned
    cases unowned
  | complete v was aligned =>
    rw [was] at unowned
    cases unowned

theorem OnceInv.settled (inv : OnceInv s) : s.Settled := by
  intro c context back
  obtain ⟨nonzero, nonone, same⟩ := inv.done c context back
  refine ⟨contextOf s.word, same, fun t path => ?_⟩
  have first : OnceFinal s s := by
    refine ⟨rfl, fun d => ?_, fun d out _ => .inl out⟩
    by_contra owns
    exact nonone (inv.owner d (by simpa using owns))
  have final : OnceFinal s t := by
    induction path with
    | refl => exact first
    | tail _ edge final =>
      obtain ⟨l, edge⟩ := edge
      exact final.step nonzero edge
  refine ⟨fun d running => ?_, fun d ok context' out callback returned => ?_⟩
  · have idle := final.idle d
    rw [running] at idle
    cases idle
  · rcases final.later d out callback with pc | pc | pc | pc
    · rw [returned] at pc
      cases pc
    · rw [returned] at pc
      cases pc
    · rw [returned] at pc
      cases pc
    · exact pc

/-- While the word is in progress a call is at work on it, which can complete it. -/
structure OnceAligned (s : OnceState) : Prop where
  answers : ∀ c v, (s.calls c).pc = .complete v → v &&& 3 = 0
  working : s.word = 1 → ∃ c, (s.calls c).pc.owns = true

theorem onceInit_aligned : OnceAligned onceInit where
  answers c v complete := by cases complete
  working one := by cases one

/-- A step of a call that does not work on the word. -/
theorem OnceAligned.aside (good : OnceAligned s) {call : OnceCall}
    (calls : t.calls = Function.update s.calls c call) (word : t.word = s.word)
    (idle : (s.calls c).pc.owns = false) (still : call.pc.owns = false) : OnceAligned t := by
  refine ⟨fun d v complete => ?_, fun one => ?_⟩
  · rw [calls] at complete
    by_cases same : d = c
    · rw [same, Function.update_self] at complete
      rw [complete] at still
      cases still
    · rw [Function.update_of_ne same] at complete
      exact good.answers d v complete
  · obtain ⟨d, owns⟩ := good.working (word ▸ one)
    refine ⟨d, ?_⟩
    rw [calls, Function.update_of_ne]
    · exact owns
    · rintro rfl
      rw [idle] at owns
      cases owns

/-- A step after which the call of the step works on the word, or the word is not in
progress. -/
theorem OnceAligned.own (good : OnceAligned s) {call : OnceCall}
    (calls : t.calls = Function.update s.calls c call)
    (aligned : ∀ v, call.pc = .complete v → v &&& 3 = 0)
    (working : t.word = 1 → call.pc.owns = true) : OnceAligned t := by
  refine ⟨fun d v complete => ?_, fun one => ⟨c, ?_⟩⟩
  · rw [calls] at complete
    by_cases same : d = c
    · rw [same, Function.update_self] at complete
      exact aligned v complete
    · rw [Function.update_of_ne same] at complete
      exact good.answers d v complete
  · rw [calls, Function.update_self]
    exact working one

theorem OnceAligned.step (good : OnceAligned s) {a : OnceAction} (aligned : a.Aligned)
    (made : s.step c a = some t) : OnceAligned t := by
  obtain ⟨call, calls, effect⟩ := step_effect made
  generalize there : s.calls c = before at effect
  generalize new : t.word = word at effect
  cases effect with
  | enter callback context out =>
    refine good.aside calls new ?_ (by cases callback <;> rfl)
    rw [there, out]
    rfl
  | turn pc was becomes =>
    refine good.aside calls new ?_ (by rcases becomes with rfl | ⟨rfl, -⟩ | rfl <;> rfl)
    rw [there]
    rcases was with was | was | was <;> rw [was] <;> rfl
  | found was nonzero nonone =>
    refine good.aside calls new ?_ rfl
    rw [there, was]
    rfl
  | claim was zero => exact good.own calls nofun fun _ => rfl
  | answer success result was =>
    refine good.own calls ?_ fun _ => by cases success <;> rfl
    cases success with
    | false => exact nofun
    | true =>
      rintro v ⟨⟩
      exact aligned
  | reset was =>
    refine good.own calls nofun fun one => ?_
    rw [new] at one
    cases one
  | refuse v was bad => exact absurd (good.answers c v (there ▸ was)) bad
  | complete v was fits =>
    refine good.own calls nofun fun one => ?_
    exact absurd (new ▸ one) (completedWord_spec fits).2.1

theorem OnceAligned.idle (good : OnceAligned s) (idle : s.Idle) : s.word ≠ 1 := by
  intro one
  obtain ⟨c, owns⟩ := good.working one
  rcases idle c with pc | ⟨ok, context, pc⟩
  · rw [pc] at owns
    cases owns
  · rw [pc] at owns
    cases owns

/-- The word is in progress, and a call at work on it can only refuse its context. -/
structure OnceStuck (s : OnceState) : Prop where
  word : s.word = 1
  refuses : ∀ c, (s.calls c).pc.owns = true → ∃ v, (s.calls c).pc = .complete v ∧ v &&& 3 ≠ 0

theorem OnceStuck.step (stuck : OnceStuck s) {a : OnceAction} (made : s.step c a = some t) :
    OnceStuck t := by
  obtain ⟨call, calls, effect⟩ := step_effect made
  have owned := stuck.refuses c
  have one := stuck.word
  generalize s.calls c = before at effect owned
  generalize new : t.word = word at effect
  -- the word stays, and the call of the step has nothing to do with it
  suffices word = s.word ∧ call.pc.owns = false by
    refine ⟨new.trans (this.1.trans one), fun d owns => ?_⟩
    rw [calls] at owns ⊢
    by_cases same : d = c
    · rw [same, Function.update_self, this.2] at owns
      cases owns
    · rw [Function.update_of_ne same] at owns ⊢
      exact stuck.refuses d owns
  cases effect with
  | enter callback context out => exact ⟨rfl, by cases callback <;> rfl⟩
  | turn pc was becomes => exact ⟨rfl, by rcases becomes with rfl | ⟨rfl, -⟩ | rfl <;> rfl⟩
  | found was nonzero nonone => exact absurd one nonone
  | claim was zero =>
    rw [zero] at one
    cases one
  | answer success result was =>
    rw [was] at owned
    obtain ⟨v, pc, -⟩ := owned rfl
    cases pc
  | reset was =>
    rw [was] at owned
    obtain ⟨v, pc, -⟩ := owned rfl
    cases pc
  | refuse v was bad => exact ⟨rfl, rfl⟩
  | complete v was aligned =>
    rw [was] at owned
    obtain ⟨w, pc, bad⟩ := owned rfl
    cases pc
    exact absurd aligned bad

/-- A callback that succeeds with a context whose low two bits are not clear. -/
theorem OnceInv.stuck (inv : OnceInv s) {v : UInt64} (bad : v &&& 3 ≠ 0)
    (made : s.step c (.answer true v) = some t) : OnceStuck t := by
  obtain ⟨running, made⟩ := Option.ite_none_right_eq_some.mp made
  cases made
  have owns : (s.calls c).pc.owns = true := by
    rw [running]
    rfl
  refine ⟨inv.owner c owns, fun d works => ?_⟩
  by_cases same : d = c
  · subst same
    exact ⟨v, move_self .., bad⟩
  · rw [move_other s _ same] at works
    exact absurd (inv.alone d c works owns) same

theorem OnceStuck.after (stuck : OnceStuck s) (path : s.After t) : OnceStuck t := by
  induction path with
  | refl => exact stuck
  | tail _ edge ih =>
    obtain ⟨l, edge⟩ := edge
    exact ih.step edge

end Runs

/-- At most one callback runs, and a successful return settles the context. The word does not
stick while every callback that succeeds leaves a context with its low two bits clear; after
one that does not, it is in progress for good. -/
theorem initOnce_law {s : OnceState} (run : Reachable OnceStart OnceStep s) :
    s.Exclusive ∧ s.Settled ∧ (Reachable OnceStart AlignedStep s → s.Idle → s.word ≠ 1) ∧
    ∀ c v t u, v &&& 3 ≠ 0 → s.step c (.answer true v) = some t → t.After u → u.word = 1 := by
  have inv := OnceInv.of_reachable run
  refine ⟨inv.exclusive, inv.settled, fun aligned => ?_, fun c v t u bad made path => ?_⟩
  · have good : OnceAligned s :=
      aligned.invariant (by rintro s rfl; exact onceInit_aligned)
        fun _ _ _ good edge => good.step edge.1 edge.2
    exact good.idle
  · exact ((inv.stuck bad made).after path).word

/-- The only call is in its callback. -/
def claimedOnce : OnceState :=
  { ((onceInit.at 0 ⟨.read, true, true⟩).move 0 .swap).move 0 .callback with word := 1 }

theorem claimedOnce_reachable : Reachable OnceStart OnceStep claimedOnce := by
  let called := onceInit.at 0 ⟨.read, true, true⟩
  have call : OnceStep onceInit (0, .call true true) called := rfl
  have read : OnceStep called (0, .go) (called.move 0 .swap) := rfl
  have swap : OnceStep (called.move 0 .swap) (0, .go) claimedOnce := rfl
  have start : Reachable OnceStart OnceStep onceInit := .of_initial rfl
  exact ((start.next call).next read).next swap

theorem initOnce_law_claimed : claimedOnce.Exclusive ∧ claimedOnce.Settled ∧
    ∀ u, (claimedOnce.move 0 (.complete 1)).After u → u.word = 1 := by
  have law := initOnce_law claimedOnce_reachable
  exact ⟨law.1, law.2.1, fun u path => law.2.2.2 0 1 _ u (by decide) rfl path⟩

/-- The only call has returned FALSE, its callback having succeeded with context 1. -/
theorem refused_context : ∃ s, Reachable OnceStart OnceStep s ∧ s.Idle ∧
    (s.calls 0).pc = .returned false none ∧ s.word = 1 := by
  have answer : OnceStep claimedOnce (0, .answer true 1) (claimedOnce.move 0 (.complete 1)) := rfl
  have refuse : OnceStep (claimedOnce.move 0 (.complete 1)) (0, .go)
      ((claimedOnce.move 0 (.complete 1)).move 0 (.returned false none)) := rfl
  refine ⟨_, (claimedOnce_reachable.next answer).next refuse, fun c => ?_, rfl, rfl⟩
  by_cases same : c = 0
  · subst same
    exact .inr ⟨_, _, rfl⟩
  · refine .inl ?_
    rw [move_other _ _ same, move_other _ _ same]
    show ((((onceInit.at 0 ⟨.read, true, true⟩).move 0 .swap).move 0 .callback).calls c).pc = .out
    rw [move_other _ _ same, move_other _ _ same]
    show (Function.update onceInit.calls 0 _ c).pc = .out
    rw [Function.update_of_ne same]
    rfl

end Kernel32
