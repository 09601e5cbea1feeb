import Mathlib.Tactic.Ring
import Mathlib.Tactic.Linarith

/-!
# Byte-addressed memory with little-endian words

A memory maps every address to a byte. Words of any width are read and
written least significant byte first. The lemmas say when a write can be seen
by a later read: a word written and read back, and a read that stays clear of
the written bytes.
-/

namespace ByteMemory

abbrev Memory := Nat → UInt8

/-- The unsigned value of the `width` bytes at `a`. -/
def load (m : Memory) (a : Nat) : Nat → Nat
  | 0 => 0
  | width + 1 => (m a).toNat + 256 * load m (a + 1) width

/-- Write the low `width` bytes of `v` at `a`. -/
def store (m : Memory) (a width v : Nat) : Memory := fun b =>
  if a ≤ b ∧ b < a + width then UInt8.ofNat (v / 256 ^ (b - a)) else m b

/-- Write the same byte `n` times from `a` on. -/
def fill (m : Memory) (a n : Nat) (v : UInt8) : Memory := fun b =>
  if a ≤ b ∧ b < a + n then v else m b

/-- Replace the `n` bytes from `a` on by the bytes another memory holds there. -/
def overlay (m contents : Memory) (a n : Nat) : Memory := fun b =>
  if a ≤ b ∧ b < a + n then contents b else m b

variable {a b width : Nat} {m : Memory}

theorem store_outside {v : Nat} (h : b < a ∨ a + width ≤ b) : store m a width v b = m b := by
  simp only [store]
  rw [if_neg (by omega)]

theorem fill_outside {n : Nat} {v : UInt8} (h : b < a ∨ a + n ≤ b) : fill m a n v b = m b := by
  simp only [fill]
  rw [if_neg (by omega)]

theorem fill_inside {n : Nat} {v : UInt8} (lo : a ≤ b) (hi : b < a + n) : fill m a n v b = v := by
  simp only [fill]
  rw [if_pos ⟨lo, hi⟩]

theorem overlay_outside {contents : Memory} {n : Nat} (h : b < a ∨ a + n ≤ b) :
    overlay m contents a n b = m b := by
  simp only [overlay]
  rw [if_neg (by omega)]

/-- A read depends only on the bytes it covers. -/
theorem load_congr {m' : Memory} (same : ∀ b, a ≤ b → b < a + width → m' b = m b) :
    load m' a width = load m a width := by
  induction width generalizing a with
  | zero => rfl
  | succ width ih =>
    simp only [load]
    rw [same a (by omega) (by omega), ih (fun b lo hi => same b (by omega) (by omega))]

theorem load_lt (m : Memory) (a width : Nat) : load m a width < 256 ^ width := by
  induction width generalizing a with
  | zero => simp [load]
  | succ width ih =>
    have head := (m a).toNat_lt
    have tail := ih (a + 1)
    have power : 256 ^ (width + 1) = 256 * 256 ^ width := by ring
    simp only [load]
    omega

theorem load_store_outside {v w : Nat} (h : b + w ≤ a ∨ a + width ≤ b) :
    load (store m a width v) b w = load m b w :=
  load_congr (fun c lo hi => store_outside (by omega))

/-- Reading back a suffix of a stored word; the whole word is the case `k = 0`. -/
theorem load_store_suffix (m : Memory) (a v k width : Nat) :
    load (store m a (k + width) v) (a + k) width = v / 256 ^ k % 256 ^ width := by
  induction width generalizing k with
  | zero => simp [load, Nat.mod_one]
  | succ width ih =>
    have tail := ih (k + 1)
    have shift : k + 1 + width = k + (width + 1) := by omega
    have place : a + k - a = k := by omega
    rw [shift] at tail
    simp only [load]
    have next : a + k + 1 = a + (k + 1) := by omega
    rw [next, tail]
    have head : store m a (k + (width + 1)) v (a + k) = UInt8.ofNat (v / 256 ^ k) := by
      simp only [store]
      rw [if_pos ⟨by omega, by omega⟩, place]
    rw [head, UInt8.toNat_ofNat']
    have drop : v / 256 ^ (k + 1) = v / 256 ^ k / 256 := by
      rw [Nat.pow_succ, Nat.div_div_eq_div_mul]
    have split : 256 ^ (width + 1) = 256 * 256 ^ width := by ring
    rw [drop, split, Nat.mod_mul]

theorem load_store_same {v : Nat} (fits : v < 256 ^ width) :
    load (store m a width v) a width = v := by
  have h := load_store_suffix m a v 0 width
  simp only [Nat.zero_add, Nat.add_zero, Nat.pow_zero, Nat.div_one] at h
  rw [h, Nat.mod_eq_of_lt fits]

/-- A word determines its bytes. -/
theorem byte_eq_of_load_eq {m' : Memory}
    (same : load m' a width = load m a width) (low : a ≤ b) (high : b < a + width) :
    m' b = m b := by
  induction width generalizing a with
  | zero => omega
  | succ width ih =>
    simp only [load] at same
    have byte := (m a).toNat_lt
    have byte' := (m' a).toNat_lt
    rcases Nat.eq_or_lt_of_le low with rfl | later
    · exact UInt8.toNat_inj.mp (by omega)
    · exact ih (a := a + 1) (by omega) later (by omega)

end ByteMemory
