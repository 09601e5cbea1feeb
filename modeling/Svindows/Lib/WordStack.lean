import Svindows.Lib.ByteMemory

/-!
# A stack of words in memory

A stack of 64-bit words that grows down in a memory of bytes. A push writes the word below the
top and touches nothing else. What was pushed lies above the new top, the last word first, until
one of its bytes is written.
-/

namespace WordStack

open ByteMemory

abbrev Word := BitVec 64

def word (m : Memory) (a : Nat) : Word := BitVec.ofNat 64 (load m a 8)

def setWord (m : Memory) (a : Nat) (w : Word) : Memory := store m a 8 w.toNat

/-- These words from `a` on. -/
def Holds (m : Memory) : Nat → List Word → Prop
  | _, [] => True
  | a, w :: ws => word m a = w ∧ Holds m (a + 8) ws

/-- The words pushed one after another on the stack with its top at `sp`. -/
def pushAll (m : Memory) : Nat → List Word → Memory
  | _, [] => m
  | sp, w :: ws => pushAll (setWord m (sp - 8) w) (sp - 8) ws

variable {m m' : Memory} {a b sp : Nat} {w : Word} {ws vs : List Word}

@[simp] theorem word_setWord (m : Memory) (a : Nat) (w : Word) : word (setWord m a w) a = w := by
  rw [word, setWord, load_store_same w.isLt, BitVec.ofNat_toNat, BitVec.setWidth_eq]

theorem setWord_outside (apart : b < a ∨ a + 8 ≤ b) : setWord m a w b = m b :=
  store_outside apart

theorem word_congr (same : ∀ b, a ≤ b → b < a + 8 → m' b = m b) : word m' a = word m a := by
  rw [word, word, load_congr same]

/-- The first byte of a word is its lowest one. -/
theorem byte_toNat (m : Memory) (a : Nat) : (m a).toNat = (word m a).toNat % 256 := by
  have whole : (word m a).toNat = load m a 8 := by
    have fits : load m a 8 < 2 ^ 64 := load_lt m a 8
    rw [word, BitVec.toNat_ofNat, Nat.mod_eq_of_lt fits]
  have small := (m a).toNat_lt
  rw [whole, load]
  omega

theorem word_setWord_apart (apart : b + 8 ≤ a ∨ a + 8 ≤ b) : word (setWord m a w) b = word m b :=
  word_congr fun _ low high => setWord_outside (by omega)

theorem Holds.congr (holds : Holds m a ws)
    (same : ∀ b, a ≤ b → b < a + 8 * ws.length → m' b = m b) : Holds m' a ws := by
  induction ws generalizing a with
  | nil => trivial
  | cons w ws ih =>
    rw [List.length_cons] at same
    have first : word m' a = word m a := word_congr fun b low high => same b low (by omega)
    exact ⟨first.trans holds.1, ih holds.2 fun b low high => same b (by omega) (by omega)⟩

theorem holds_append :
    Holds m a (ws ++ vs) ↔ Holds m a ws ∧ Holds m (a + 8 * ws.length) vs := by
  induction ws generalizing a with
  | nil => simp [Holds]
  | cons w ws ih =>
    have place : a + 8 + 8 * ws.length = a + 8 * (ws.length + 1) := by omega
    rw [List.cons_append, Holds, Holds, ih, List.length_cons, place, and_assoc]

theorem Holds.word (holds : Holds m a ws) {i : Nat} (there : ws[i]? = some w) :
    word m (a + 8 * i) = w := by
  induction ws generalizing a i with
  | nil => cases there
  | cons v ws ih =>
    cases i with
    | zero =>
      cases there
      exact holds.1
    | succ i =>
      have place : a + 8 * (i + 1) = a + 8 + 8 * i := by omega
      rw [place]
      exact ih holds.2 there

theorem pushAll_outside (room : 8 * ws.length ≤ sp) (apart : b < sp - 8 * ws.length ∨ sp ≤ b) :
    pushAll m sp ws b = m b := by
  induction ws generalizing m sp with
  | nil => rfl
  | cons w ws ih =>
    rw [List.length_cons] at room apart
    rw [pushAll, ih (by omega) (by omega), setWord_outside (by omega)]

theorem holds_pushAll (room : 8 * ws.length ≤ sp) :
    Holds (pushAll m sp ws) (sp - 8 * ws.length) ws.reverse := by
  induction ws generalizing m sp with
  | nil => trivial
  | cons w ws ih =>
    rw [List.length_cons] at room
    have place : sp - 8 * (ws.length + 1) = sp - 8 - 8 * ws.length := by omega
    have top : sp - 8 - 8 * ws.length + 8 * ws.reverse.length = sp - 8 := by
      rw [List.length_reverse]
      omega
    have kept : word (pushAll (setWord m (sp - 8) w) (sp - 8) ws) (sp - 8) = w := by
      rw [word_congr fun b low _ => pushAll_outside (by omega) (.inr low), word_setWord]
    rw [pushAll, List.reverse_cons, List.length_cons, place, holds_append, top]
    exact ⟨ih (by omega), kept, trivial⟩

end WordStack
