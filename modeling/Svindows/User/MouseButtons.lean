import Mathlib.Data.List.Chain
import Svindows.User.QueueRuns

/-!
# Mouse buttons

`KiUserQueueMouse` posts a message for each button that has changed since its last
call. Whether a message was posted is not looked at, and the new state is remembered
in any case: a change that meets a full queue is never reported. As long as there is
room for every change, downs and ups alternate, and the last one is the state.
-/

namespace User

open Nt Ob

inductive MouseButton where
  | left
  | right
  deriving DecidableEq, Repr

namespace MouseButton

def bit : MouseButton → Nat
  | left => 0
  | right => 1

def down : MouseButton → Nat
  | left => wmLButtonDown
  | right => wmRButtonDown

def up : MouseButton → Nat
  | left => wmLButtonUp
  | right => wmRButtonUp

end MouseButton

/-- The states of the button that a message reports: down, up, or none. -/
def press (b : MouseButton) (msg : UserMsg) : Option Bool :=
  if msg.message = b.down then some true
  else if msg.message = b.up then some false
  else none

def presses (b : MouseButton) (msgs : List UserMsg) : List Bool := msgs.filterMap (press b)

/-- A call with these buttons finds the state of `b` changed. -/
def changes (s : UserState) (buttons : Nat) (b : MouseButton) : Bool :=
  buttons.testBit b.bit ≠ s.mouseButtons.testBit b.bit

/-- How many messages a call has posted once it has posted that of `b`: the move, that of
the left button if it comes before, and its own. -/
def postsUpTo (s : UserState) (buttons : Nat) : MouseButton → Nat
  | .left => 2
  | .right => if changes s buttons .left then 3 else 2

/-- If the button changes, the owner of the active window has a queue with room for the
message that says so. -/
def ChangeFits (s : UserState) (buttons : Nat) (b : MouseButton) : Prop :=
  changes s buttons b = true →
    HasQueue (kiUserWindowOwner s s.activeHwnd) ∧
      (pending s (kiUserWindowOwner s s.activeHwnd)).length + postsUpTo s buttons b ≤ 63

/-- The window, its owner and the remembered buttons are the same. -/
structure SameInput (s u : UserState) : Prop where
  active : u.activeHwnd = s.activeHwnd
  owner : u.windowOwner = s.windowOwner
  buttons : u.mouseButtons = s.mouseButtons

theorem SameInput.refl (s : UserState) : SameInput s s := ⟨rfl, rfl, rfl⟩

theorem SameInput.trans {s t u : UserState} (first : SameInput s t) (second : SameInput t u) :
    SameInput s u :=
  ⟨second.active.trans first.active, second.owner.trans first.owner,
    second.buttons.trans first.buttons⟩

theorem SameInput.sync (s : UserState) (i : Nat) : SameInput s (kiUserSyncInputEvent s i) := by
  unfold kiUserSyncInputEvent
  split
  · exact .refl s
  · exact ⟨rfl, rfl, rfl⟩

theorem SameInput.enqueueMessage (s : UserState) (current hwnd message wParam lParam : Nat)
    (x y : Int) :
    SameInput s (kiUserEnqueueMessage s current hwnd message wParam lParam x y).2 := by
  unfold kiUserEnqueueMessage User.enqueue
  split
  · exact .refl s
  · dsimp only
    split
    · exact .refl s
    · exact .trans (t := s.setQueue _ _) ⟨rfl, rfl, rfl⟩ (.sync _ _)

theorem SameInput.takeMessage (s : UserState) (t : Nat) (remove : Bool) :
    SameInput s (kiUserTakeMessage s t remove).2 := by
  unfold kiUserTakeMessage
  split
  · exact .refl s
  · dsimp only
    split
    · unfold takePaint
      dsimp only
      split
      · exact .refl s
      · split
        · exact ⟨(SameInput.sync _ _).active, (SameInput.sync _ _).owner,
            (SameInput.sync _ _).buttons⟩
        · exact ⟨rfl, rfl, rfl⟩
    · split
      · exact .trans (t := s.setQueue _ _) ⟨rfl, rfl, rfl⟩ (.sync _ _)
      · exact .refl s

/-- A message for thread `t` has been posted, or there was no room for it. -/
structure Posted (w v : Mail) (t : Nat) (msg : UserMsg) : Prop where
  input : SameInput w.user v.user
  delivered : Delivered v
  removed : v.removed = w.removed
  few : (pending v.user t).length ≤ (pending w.user t).length + 1
  accepted : v.accepted t = w.accepted t ++ [stamped w.user msg] ∨
    (v.accepted t = w.accepted t ∧ ¬ (HasQueue t ∧ (pending w.user t).length < 63))

theorem postMessage_posted {w : Mail} (kept : Delivered w) {poster hwnd t : Nat}
    (to_ : recipient w.user poster hwnd = t) (message wParam lParam : Nat) (x y : Int) :
    Posted w (w.postMessage poster hwnd message wParam lParam x y) t
      (windowMessage hwnd message wParam lParam x y) := by
  subst to_
  have delivered := kept.postMessage poster hwnd message wParam lParam x y
  have input := SameInput.enqueueMessage w.user poster hwnd message wParam lParam x y
  by_cases has : HasQueue (recipient w.user poster hwnd)
  · obtain ⟨posts, -⟩ := kiUserEnqueueMessage_posts kept.ringed has message wParam lParam x y
    cases result : (kiUserEnqueueMessage w.user poster hwnd message wParam lParam x y).1 with
    | false =>
      have same := posts.refused result
      have full := posts.refused_iff.mp result
      refine ⟨input, delivered, rfl, ?_, .inr ⟨?_, by omega⟩⟩
      · simp only [Mail.postMessage, Mail.note, same]
        exact Nat.le_succ _
      · simp [Mail.postMessage, Mail.note, result]
    | true =>
      have more := posts.accepted result
      refine ⟨input, delivered, rfl, ?_, .inl ?_⟩
      · simp [Mail.postMessage, Mail.note, more]
      · simp [Mail.postMessage, Mail.note, result]
  · have refused := kiUserEnqueueMessage_none has message wParam lParam x y
    refine ⟨input, delivered, rfl, ?_, .inr ⟨?_, fun room => has room.1⟩⟩
    · simp [Mail.postMessage, Mail.note, refused]
    · simp [Mail.postMessage, Mail.note, refused]

theorem presses_append (b : MouseButton) (l m : List UserMsg) :
    presses b (l ++ m) = presses b l ++ presses b m := List.filterMap_append

section

variable {w v : Mail} {t : Nat} {msg : UserMsg} {b : MouseButton}

theorem Posted.presses_none (posted : Posted w v t msg) (none : press b msg = none) :
    presses b (v.accepted t) = presses b (w.accepted t) := by
  have stamp : presses b [stamped w.user msg] = [] := by
    have here : press b (stamped w.user msg) = Option.none := none
    simp [presses, here]
  rcases posted.accepted with more | ⟨same, -⟩
  · rw [more, presses_append, stamp, List.append_nil]
  · rw [same]

theorem Posted.presses_some (posted : Posted w v t msg) {state : Bool}
    (reports : press b msg = some state) (has : HasQueue t)
    (room : (pending w.user t).length < 63) :
    presses b (v.accepted t) = presses b (w.accepted t) ++ [state] := by
  have stamp : presses b [stamped w.user msg] = [state] := by
    have here : press b (stamped w.user msg) = some state := reports
    simp [presses, here]
  rcases posted.accepted with more | ⟨-, full⟩
  · rw [more, presses_append, stamp]
  · exact absurd ⟨has, room⟩ full

end

theorem press_move (b : MouseButton) (hwnd wParam lParam : Nat) (x y : Int) :
    press b (windowMessage hwnd wmMouseMove wParam lParam x y) = none := by
  cases b <;> rfl

theorem press_own (b : MouseButton) (buttons hwnd wParam lParam : Nat) (x y : Int) :
    press b (windowMessage hwnd (buttonMessage buttons b.bit b.down b.up) wParam lParam x y) =
      some (buttons.testBit b.bit) := by
  unfold buttonMessage
  cases buttons.testBit b.bit with
  | true => cases b <;> rfl
  | false => cases b <;> rfl

theorem press_other {b other : MouseButton} (apart : b ≠ other) (buttons hwnd wParam lParam : Nat)
    (x y : Int) :
    press b (windowMessage hwnd (buttonMessage buttons other.bit other.down other.up) wParam lParam
      x y) = none := by
  unfold buttonMessage
  cases buttons.testBit other.bit with
  | true => cases b <;> cases other <;> first | rfl | exact absurd rfl apart
  | false => cases b <;> cases other <;> first | rfl | exact absurd rfl apart

theorem changes_congr {s u : UserState} (same : SameInput s u) (buttons : Nat) (b : MouseButton) :
    changes u buttons b = changes s buttons b := by
  unfold changes
  rw [same.buttons]

theorem SameInput.ownerOf {s u : UserState} (same : SameInput s u) {t : Nat}
    (owner : kiUserWindowOwner s s.activeHwnd = t) : kiUserWindowOwner u u.activeHwnd = t := by
  rw [← owner, same.active]
  simp only [kiUserWindowOwner, same.owner]

/-- What the part of a call for button `c` does. -/
structure ButtonDone (w v : Mail) (t buttons : Nat) (c : MouseButton) : Prop where
  input : SameInput w.user v.user
  delivered : Delivered v
  removed : v.removed = w.removed
  few : (pending v.user t).length ≤
    (pending w.user t).length + if changes w.user buttons c then 1 else 0
  others : ∀ b, b ≠ c → presses b (v.accepted t) = presses b (w.accepted t)
  own : (changes w.user buttons c = true → HasQueue t ∧ (pending w.user t).length < 63) →
    presses c (v.accepted t) = presses c (w.accepted t) ++
      if changes w.user buttons c then [buttons.testBit c.bit] else []

theorem queueButton_done {w : Mail} (kept : Delivered w) {t : Nat}
    (owner : kiUserWindowOwner w.user w.user.activeHwnd = t) (owned : t ≠ 0)
    (current buttons wParam lParam : Nat) (x y : Int) (c : MouseButton) :
    ButtonDone w (w.queueButton current buttons c.bit c.down c.up wParam lParam x y) t buttons
      c := by
  unfold Mail.queueButton
  split
  · rename_i changed
    have changed : changes w.user buttons c = true := decide_eq_true changed
    have to_ : recipient w.user current w.user.activeHwnd = t := by
      rw [recipient, owner, if_pos owned]
    have posted := postMessage_posted kept to_ (buttonMessage buttons c.bit c.down c.up) wParam
      lParam x y
    refine ⟨posted.input, posted.delivered, posted.removed, ?_, ?_, ?_⟩
    · rw [if_pos changed]
      exact posted.few
    · intro b apart
      exact posted.presses_none (press_other apart ..)
    · intro fits
      obtain ⟨has, room⟩ := fits changed
      rw [if_pos changed]
      exact posted.presses_some (press_own ..) has room
  · rename_i same
    have same : changes w.user buttons c = false := decide_eq_false same
    refine ⟨.refl _, kept, rfl, Nat.le_add_right _ _, fun _ _ => rfl, fun _ => ?_⟩
    rw [same]
    simp

/-- A call of `KiUserQueueMouse` reports the change of a button for which there is room. -/
structure Reported (w v : Mail) (t buttons : Nat) (b : MouseButton) : Prop where
  delivered : Delivered v
  removed : v.removed = w.removed
  active : v.user.activeHwnd = w.user.activeHwnd
  owner : v.user.windowOwner = w.user.windowOwner
  state : v.user.mouseButtons = buttons
  presses : presses b (v.accepted t) = presses b (w.accepted t) ++
    if changes w.user buttons b then [buttons.testBit b.bit] else []

theorem queueMouse_eq {w : Mail} (active : w.user.activeHwnd ≠ 0) (current : Nat) (x y : Int)
    (buttons : Nat) : ∃ wParam lParam, w.queueMouse current x y buttons =
      (((w.postMessage current w.user.activeHwnd wmMouseMove wParam lParam x y).queueButton
        current buttons MouseButton.left.bit MouseButton.left.down MouseButton.left.up wParam
          lParam x y).queueButton current buttons MouseButton.right.bit MouseButton.right.down
            MouseButton.right.up wParam lParam x y).setMouseButtons buttons := by
  unfold Mail.queueMouse
  rw [if_neg active]
  exact ⟨_, _, rfl⟩

theorem queueMouse_reported {w : Mail} (kept : Delivered w) {t : Nat}
    (owner : kiUserWindowOwner w.user w.user.activeHwnd = t) (owned : t ≠ 0) {current : Nat}
    {x y : Int} {buttons : Nat} {b : MouseButton} (fits : ChangeFits w.user buttons b) :
    Reported w (w.queueMouse current x y buttons) t buttons b := by
  have active : w.user.activeHwnd ≠ 0 := by
    intro none
    rw [none] at owner
    exact owned owner.symm
  have to_ : recipient w.user current w.user.activeHwnd = t := by
    rw [recipient, owner, if_pos owned]
  obtain ⟨wParam, lParam, parts⟩ := queueMouse_eq active current x y buttons
  rw [parts]
  have move := postMessage_posted kept to_ wmMouseMove wParam lParam x y
  generalize w.postMessage current w.user.activeHwnd wmMouseMove wParam lParam x y = w₁ at move ⊢
  have left := queueButton_done move.delivered (move.input.ownerOf owner) owned current buttons
    wParam lParam x y .left
  generalize w₁.queueButton current buttons MouseButton.left.bit MouseButton.left.down
    MouseButton.left.up wParam lParam x y = w₂ at left ⊢
  have right := queueButton_done left.delivered (left.input.ownerOf (move.input.ownerOf owner))
    owned current buttons wParam lParam x y .right
  generalize w₂.queueButton current buttons MouseButton.right.bit MouseButton.right.down
    MouseButton.right.up wParam lParam x y = w₃ at right ⊢
  have input := (move.input.trans left.input).trans right.input
  have moved := move.presses_none (press_move b _ _ _ _ _)
  refine ⟨right.delivered.congr rfl, ?_, input.active, input.owner, rfl, ?_⟩
  · exact (right.removed.trans left.removed).trans move.removed
  change presses b (w₃.accepted t) = _
  unfold ChangeFits at fits
  rw [owner] at fits
  have few := move.few
  have fewer := left.few
  have same₁ := changes_congr move.input buttons
  have same₂ := changes_congr (move.input.trans left.input) buttons
  cases b with
  | left =>
    rw [right.others .left (by decide), left.own, moved, same₁]
    rw [same₁]
    intro changed
    obtain ⟨has, room⟩ := fits changed
    exact ⟨has, by simp only [postsUpTo] at room; omega⟩
  | right =>
    rw [right.own, left.others .right (by decide), moved, same₂]
    rw [same₂]
    intro changed
    obtain ⟨has, room⟩ := fits changed
    refine ⟨has, ?_⟩
    rw [same₁] at fewer
    simp only [postsUpTo] at room
    cases first : changes w.user buttons .left with
    | false =>
      simp only [first, Bool.false_eq_true, if_false] at room fewer
      omega
    | true =>
      simp only [first, if_true] at room fewer
      omega

/-- The calls of `KiUserQueueMouse`, and messages being taken. -/
def IsInput : MailOp → Prop
  | .mouse .. | .take .. => True
  | _ => False

def InputStep (w : Mail) (op : MailOp) (v : Mail) : Prop := IsInput op ∧ v = w.after op

/-- There is room for the change of `b` that the operation reports. -/
def OpFits (b : MouseButton) (w : Mail) : MailOp → Prop
  | .mouse _ _ _ buttons => ChangeFits w.user buttons b
  | _ => True

/-- The active window is `hwnd` of thread `t`, which has no message of a button yet. -/
structure InputStart (w : Mail) (hwnd t : Nat) : Prop where
  delivered : Delivered w
  active : w.user.activeHwnd = hwnd
  owner : kiUserWindowOwner w.user hwnd = t
  owned : t ≠ 0
  quiet : ∀ b, presses b (w.accepted t) = [] ∧ presses b (w.removed t) = []

/-- What has been accepted for `t` alternates from `first` on and ends with the state. -/
structure Tracks (b : MouseButton) (first : Bool) (hwnd t : Nat) (w : Mail) : Prop where
  delivered : Delivered w
  active : w.user.activeHwnd = hwnd
  owner : kiUserWindowOwner w.user hwnd = t
  alternate : List.IsChain (· ≠ ·) (first :: presses b (w.accepted t))
  last : (presses b (w.accepted t)).getLastD first = w.user.mouseButtons.testBit b.bit
  silent : ¬ HasQueue t → presses b (w.accepted t) = [] ∧ presses b (w.removed t) = []

/-- A chain goes on with an element related to its last one. -/
theorem isChain_snoc {α : Type} {R : α → α → Prop} {a : α} {l : List α} {x : α}
    (chain : List.IsChain R (a :: l)) (next : R (l.getLastD a) x) :
    List.IsChain R (a :: (l ++ [x])) := by
  rw [← List.cons_append]
  refine chain.append (List.isChain_singleton x) ?_
  intro y last z head
  obtain rfl : x = z := by simpa using head
  rw [List.getLast?_cons, Option.mem_some_iff] at last
  rw [← last]
  simpa using next

theorem Tracks.mouse {b : MouseButton} {first : Bool} {hwnd t : Nat} {w : Mail}
    (tracks : Tracks b first hwnd t w) (owned : t ≠ 0) {current : Nat} {x y : Int} {buttons : Nat}
    (fits : ChangeFits w.user buttons b) :
    Tracks b first hwnd t (w.queueMouse current x y buttons) := by
  have owner : kiUserWindowOwner w.user w.user.activeHwnd = t := by
    rw [tracks.active, tracks.owner]
  have reported : Reported w (w.queueMouse current x y buttons) t buttons b :=
    queueMouse_reported tracks.delivered owner owned fits
  generalize w.queueMouse current x y buttons = v at reported ⊢
  have still : kiUserWindowOwner v.user hwnd = t := by
    rw [← tracks.owner]
    simp only [kiUserWindowOwner, reported.owner]
  cases changed : changes w.user buttons b with
  | false =>
    have same : buttons.testBit b.bit = w.user.mouseButtons.testBit b.bit := by
      simpa [changes] using changed
    have presses := reported.presses
    rw [changed, if_neg (by decide), List.append_nil] at presses
    refine ⟨reported.delivered, reported.active.trans tracks.active, still, ?_, ?_, ?_⟩
    · rw [presses]
      exact tracks.alternate
    · rw [presses, reported.state, same]
      exact tracks.last
    · rw [presses, reported.removed]
      exact tracks.silent
  | true =>
    have other : buttons.testBit b.bit ≠ w.user.mouseButtons.testBit b.bit := by
      simpa [changes] using changed
    have presses := reported.presses
    rw [changed, if_pos rfl] at presses
    refine ⟨reported.delivered, reported.active.trans tracks.active, still, ?_, ?_, ?_⟩
    · rw [presses]
      refine isChain_snoc tracks.alternate ?_
      rw [tracks.last]
      exact other.symm
    · rw [presses, reported.state, List.getLastD_concat]
    · intro none
      rw [← owner] at none
      exact absurd (fits changed).1 none

theorem Tracks.take {b : MouseButton} {first : Bool} {hwnd t : Nat} {w : Mail}
    (tracks : Tracks b first hwnd t w) (t' : Nat) (remove : Bool) :
    Tracks b first hwnd t (w.take t' remove) := by
  have input := SameInput.takeMessage w.user t' remove
  refine ⟨tracks.delivered.take t' remove, input.active.trans tracks.active, ?_, tracks.alternate,
    ?_, ?_⟩
  · rw [← tracks.owner]
    simp only [kiUserWindowOwner, Mail.take, input.owner]
  · simp only [Mail.take, input.buttons]
    exact tracks.last
  · intro none
    obtain ⟨accepted, removed⟩ := tracks.silent none
    refine ⟨accepted, ?_⟩
    by_cases here : t = t'
    · subst here
      simp only [Mail.take, kiUserTakeMessage_none none, Option.toList_none, List.append_nil,
        Function.update_eq_self, ite_self]
      exact removed
    · rw [Mail.take_removed_ne w t' remove here]
      exact removed

theorem InputStart.tracks {w : Mail} {hwnd t : Nat} (start : InputStart w hwnd t)
    (b : MouseButton) : Tracks b (w.user.mouseButtons.testBit b.bit) hwnd t w := by
  obtain ⟨accepted, removed⟩ := start.quiet b
  refine ⟨start.delivered, start.active, start.owner, ?_, ?_, fun _ => ⟨accepted, removed⟩⟩
  · rw [accepted]
    exact List.isChain_singleton _
  · rw [accepted]
    rfl

/-- What thread `t` has received of a button: downs and ups in turn, from `first` on, and
the last of them is the state once nothing is pending. -/
structure Alternates (b : MouseButton) (first : Bool) (w : Mail) (t : Nat) : Prop where
  inTurn : List.IsChain (· ≠ ·) (first :: presses b (w.removed t))
  last : pending w.user t = [] →
    (presses b (w.removed t)).getLastD first = w.user.mouseButtons.testBit b.bit

theorem Tracks.alternates {b : MouseButton} {first : Bool} {hwnd t : Nat} {w : Mail}
    (tracks : Tracks b first hwnd t w) : Alternates b first w t := by
  have alternate := tracks.alternate
  have last := tracks.last
  by_cases has : HasQueue t
  · have fifo := tracks.delivered.fifo t has
    rw [fifo, presses_append] at alternate last
    refine ⟨?_, fun drained => ?_⟩
    · rw [← List.cons_append] at alternate
      exact alternate.left_of_append
    · rw [drained] at last
      simpa [presses] using last
  · obtain ⟨accepted, removed⟩ := tracks.silent has
    rw [accepted] at last
    refine ⟨?_, fun _ => ?_⟩
    · rw [removed]
      exact List.isChain_singleton _
    · rw [removed]
      exact last

/-- While every change of a button fits in its owner's queue, its messages alternate and
end with its state. -/
theorem button_messages_alternate {b : MouseButton} {w₀ w : Mail} {hwnd t : Nat}
    (start : InputStart w₀ hwnd t)
    (run : Relation.ReflTransGen (fun v u => ∃ op, InputStep v op u ∧ OpFits b v op) w₀ w) :
    Alternates b (w₀.user.mouseButtons.testBit b.bit) w t := by
  have tracks : Tracks b (w₀.user.mouseButtons.testBit b.bit) hwnd t w := by
    induction run with
    | refl => exact start.tracks b
    | tail _ edge ih =>
      obtain ⟨op, ⟨input, rfl⟩, fits⟩ := edge
      cases op with
      | mouse current x y buttons => exact ih.mouse start.owned fits
      | take t' remove => exact ih.take t' remove
      | _ => exact input.elim
  exact tracks.alternates

/-- Window 1 of thread 1 is active, and `n` mouse moves wait in its queue. -/
def movesWaiting (n : Nat) : Mail where
  user :=
    { bootMail.user with
      queues := fun _ => ⟨fun _ => windowMessage 0x10001 wmMouseMove 0 0 0 0, n, 0, none, 0⟩
      windowOwner := fun _ => 1
      activeHwnd := 0x10001 }
  accepted := fun _ => List.replicate n (windowMessage 0x10001 wmMouseMove 0 0 0 0)
  removed := fun _ => []

theorem movesWaiting_start {n : Nat} (few : n < 64) : InputStart (movesWaiting n) 0x10001 1 := by
  have size : Ring.size userMessageQueueCapacity n 0 = n := by simp [Ring.size]
  refine ⟨⟨fun _ => ⟨few, Nat.zero_lt_succ 63⟩, fun t _ => ?_⟩, rfl, rfl, by decide, fun b => ⟨?_, rfl⟩⟩
  · simp [movesWaiting, pending, Ring.contents, size, List.map_const']
  · have none : press b (windowMessage 0x10001 wmMouseMove 0 0 0 0) = none := press_move b ..
    rw [presses, List.filterMap_eq_nil_iff]
    intro msg member
    obtain rfl := (List.mem_replicate.mp member).2
    exact none

theorem button_messages_alternate_press :
    Alternates .left false ((movesWaiting 0).after (.mouse 1 5 7 1)) 1 := by
  refine button_messages_alternate (b := .left) (movesWaiting_start (n := 0) (by decide))
    (.single ?_)
  refine ⟨.mouse 1 5 7 1, ⟨trivial, rfl⟩, fun _ => ⟨⟨?_, ?_⟩, ?_⟩⟩
  · decide
  · decide
  · decide

/-- A thread can take all its messages. -/
theorem drains {t : Nat} (has : HasQueue t) (n : Nat) : ∀ w : Mail, Delivered w →
    (pending w.user t).length = n → ∃ v, Relation.ReflTransGen (fun a b => ∃ op, InputStep a op b)
      w v ∧ pending v.user t = [] ∧ v.removed t = w.accepted t ∧
        v.user.mouseButtons = w.user.mouseButtons := by
  induction n with
  | zero =>
    intro w kept none
    have none := List.eq_nil_of_length_eq_zero none
    refine ⟨w, .refl, none, ?_, rfl⟩
    rw [kept.fifo t has, none, List.append_nil]
  | succ n ih =>
    intro w kept some_
    obtain ⟨msg, rest, waiting⟩ := List.exists_cons_of_length_eq_add_one some_
    have takes := (kiUserTakeMessage_takes kept.ringed has true).1
    have left : (pending (w.take t true).user t).length = n := by
      have rest_ := takes.removes msg rest waiting rfl
      rw [waiting] at some_
      simp only [Mail.take, rest_]
      exact Nat.succ.inj some_
    obtain ⟨v, run, none, all, state⟩ := ih (w.take t true) (kept.take t true) left
    refine ⟨v, .head ⟨.take t true, trivial, rfl⟩ run, none, all, ?_⟩
    rw [state]
    exact (SameInput.takeMessage w.user t true).buttons

/-- The left button is pressed while the queue is full, and nobody is told. -/
theorem press_lost_in_full_queue :
    ¬ ∀ (b : MouseButton) (w₀ w : Mail) (hwnd t : Nat), InputStart w₀ hwnd t →
      Relation.ReflTransGen (fun v u => ∃ op, InputStep v op u) w₀ w →
        Alternates b (w₀.user.mouseButtons.testBit b.bit) w t := by
  intro claim
  have start := movesWaiting_start (n := 63) (by decide)
  have has : HasQueue 1 := ⟨by decide, by decide⟩
  obtain ⟨v, run, none, all, state⟩ := drains has _ _
    (start.delivered.after (.mouse 1 5 7 1)) rfl
  have alternates := claim .left _ _ _ _ start (.head ⟨.mouse 1 5 7 1, trivial, rfl⟩ run)
  have last := alternates.last none
  rw [all, state] at last
  exact absurd last (by decide)

end User
