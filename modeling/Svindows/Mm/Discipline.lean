import Mathlib.Data.Finset.Card
import Mathlib.Order.Interval.Finset.Nat
import Svindows.Mm.UserPort

/-!
# Pointer discipline

A service is disciplined when every byte it reads or writes through a pointer of
the caller lies in a range that passed a probe earlier in the same call. The log
of a port is a record of one call, so discipline is a property of the log, and a
piece of code is careful when it can only lengthen a disciplined log.
-/

namespace Mm

open Nt ByteMemory

/-- A byte of a range that passed a probe. -/
def Covered (log : List Touch) (b : Nat) : Prop :=
  ∃ va len, .probed va len ∈ log ∧ va ≤ b ∧ b < va + len

/-- A byte that was read or written. -/
def Touched (log : List Touch) (b : Nat) : Prop :=
  ∃ va len, (.read va len ∈ log ∨ .wrote va len ∈ log) ∧ va ≤ b ∧ b < va + len

/-- All bytes of a range have passed a probe. -/
def RangeCovered (log : List Touch) (va len : Nat) : Prop :=
  ∀ b, va ≤ b → b < va + len → Covered log b

/-- The log is latest first: what follows a touch came before it. -/
def Disciplined : List Touch → Prop
  | [] => True
  | .probed _ _ :: log => Disciplined log
  | .read va len :: log => RangeCovered log va len ∧ Disciplined log
  | .wrote va len :: log => RangeCovered log va len ∧ Disciplined log

/-- The probes of a log are those that the pages allow. -/
def Accepted (present : Nat → Bool) (log : List Touch) : Prop :=
  ∀ va len, .probed va len ∈ log →
    va < 2 ^ 64 ∧ len < 2 ^ 64 ∧ mmProbeForRead present va len = true

variable {b len va a n : Nat}

variable {log : List Touch}

theorem Covered.mono {log' : List Touch} (covered : Covered log b)
    (longer : log <:+ log') : Covered log' b := by
  obtain ⟨va, len, mem, lo, hi⟩ := covered
  exact ⟨va, len, longer.subset mem, lo, hi⟩

theorem covered_probed :
    Covered (.probed va len :: log) b ↔ (va ≤ b ∧ b < va + len) ∨ Covered log b := by
  constructor
  · rintro ⟨a, n, mem, lo, hi⟩
    rcases List.mem_cons.mp mem with same | older
    · obtain ⟨rfl, rfl⟩ := Touch.probed.inj same
      exact .inl ⟨lo, hi⟩
    · exact .inr ⟨a, n, older, lo, hi⟩
  · rintro (⟨lo, hi⟩ | older)
    · exact ⟨va, len, List.mem_cons_self, lo, hi⟩
    · exact older.mono (List.suffix_cons ..)

@[simp] theorem covered_read : Covered (.read va len :: log) b ↔ Covered log b := by
  simp [Covered]

@[simp] theorem covered_wrote : Covered (.wrote va len :: log) b ↔ Covered log b := by
  simp [Covered]

@[simp] theorem not_covered_nil (b : Nat) : ¬ Covered [] b := by
  simp [Covered]

@[simp] theorem rangeCovered_read :
    RangeCovered (.read a n :: log) va len ↔ RangeCovered log va len := by
  simp [RangeCovered]

theorem rangeCovered_self (log : List Touch) (va len : Nat) :
    RangeCovered (.probed va len :: log) va len :=
  fun _ lo hi => covered_probed.mpr (.inl ⟨lo, hi⟩)

theorem rangeCovered_of_mem (held : .probed va len ∈ log)
    (lo : va ≤ a) (hi : a + n ≤ va + len) : RangeCovered log a n :=
  fun _ above below => ⟨va, len, held, by omega, by omega⟩

theorem Disciplined.of_suffix {log' : List Touch} (disciplined : Disciplined log')
    (longer : log <:+ log') : Disciplined log := by
  induction log' with
  | nil =>
    rw [List.suffix_nil.mp longer]
    exact disciplined
  | cons t log' ih =>
    rcases List.suffix_cons_iff.mp longer with rfl | older
    · exact disciplined
    · cases t with
      | probed va len => exact ih disciplined older
      | read va len => exact ih disciplined.2 older
      | wrote va len => exact ih disciplined.2 older

/-- What a disciplined call touches lies in the ranges it probed. -/
theorem Disciplined.covered (disciplined : Disciplined log) {b : Nat}
    (touched : Touched log b) : Covered log b := by
  obtain ⟨va, len, mem, lo, hi⟩ := touched
  induction log with
  | nil => simp at mem
  | cons t log ih =>
    cases t with
    | probed a n =>
      simp only [List.mem_cons, reduceCtorEq, false_or] at mem
      exact (ih disciplined mem).mono (List.suffix_cons ..)
    | read a n =>
      simp only [List.mem_cons, Touch.read.injEq, reduceCtorEq, false_or] at mem
      rcases mem with (⟨rfl, rfl⟩ | older) | older
      · exact (disciplined.1 b lo hi).mono (List.suffix_cons ..)
      · exact (ih disciplined.2 (.inl older)).mono (List.suffix_cons ..)
      · exact (ih disciplined.2 (.inr older)).mono (List.suffix_cons ..)
    | wrote a n =>
      simp only [List.mem_cons, Touch.wrote.injEq, reduceCtorEq, false_or] at mem
      rcases mem with older | ⟨rfl, rfl⟩ | older
      · exact (ih disciplined.2 (.inl older)).mono (List.suffix_cons ..)
      · exact (disciplined.1 b lo hi).mono (List.suffix_cons ..)
      · exact (ih disciplined.2 (.inr older)).mono (List.suffix_cons ..)

/-- A probed byte is a byte of the user half, on a page that is present. -/
theorem Accepted.user {present : Nat → Bool} (accepted : Accepted present log)
    {b : Nat} (covered : Covered log b) :
    b < mmUserMax ∧ present (b / 4096 * 4096) = true := by
  obtain ⟨va, len, mem, lo, hi⟩ := covered
  obtain ⟨hv, hl, passed⟩ := accepted va len mem
  obtain ⟨below, pages⟩ := (mmProbeForRead_iff hv hl (by omega)).mp passed
  exact ⟨by omega, pages b lo hi⟩

/-- The lengths of the probed ranges together. -/
def probedBytes : List Touch → Nat
  | [] => 0
  | .probed _ len :: log => len + probedBytes log
  | .read _ _ :: log => probedBytes log
  | .wrote _ _ :: log => probedBytes log

theorem exists_covering (log : List Touch) :
    ∃ bytes : Finset Nat, bytes.card ≤ probedBytes log ∧ ∀ b, Covered log b → b ∈ bytes := by
  induction log with
  | nil => exact ⟨∅, by simp, fun b covered => absurd covered (not_covered_nil b)⟩
  | cons t log ih =>
    obtain ⟨bytes, few, all⟩ := ih
    cases t with
    | probed va len =>
      refine ⟨Finset.Ico va (va + len) ∪ bytes, ?_, ?_⟩
      · have both := Finset.card_union_le (Finset.Ico va (va + len)) bytes
        rw [Nat.card_Ico] at both
        simp only [probedBytes]
        omega
      · intro b covered
        rcases covered_probed.mp covered with new | older
        · exact Finset.mem_union_left _ (Finset.mem_Ico.mpr new)
        · exact Finset.mem_union_right _ (all b older)
    | read va len => exact ⟨bytes, few, fun b covered => all b (covered_read.mp covered)⟩
    | wrote va len => exact ⟨bytes, few, fun b covered => all b (covered_wrote.mp covered)⟩

/-- A range cannot be covered by less than its length. -/
theorem RangeCovered.le_probedBytes
    (covered : RangeCovered log va len) : len ≤ probedBytes log := by
  obtain ⟨bytes, few, all⟩ := exists_covering log
  have inside : Finset.Ico va (va + len) ⊆ bytes := by
    intro b mem
    obtain ⟨lo, hi⟩ := Finset.mem_Ico.mp mem
    exact all b (covered b lo hi)
  have count := Finset.card_le_card inside
  rw [Nat.card_Ico] at count
  omega

/-- From `u` to `v` the code touches only what it has probed. -/
structure Careful (u v : UserPort) : Prop where
  present : v.present = u.present
  longer : u.log <:+ v.log
  disciplined : Disciplined u.log → Disciplined v.log
  accepted : Accepted u.present u.log → Accepted v.present v.log

namespace Careful

theorem refl (u : UserPort) : Careful u u := ⟨rfl, List.suffix_refl _, id, id⟩

theorem trans {u v w : UserPort} (first : Careful u v) (second : Careful v w) : Careful u w :=
  ⟨second.present.trans first.present, first.longer.trans second.longer,
    fun h => second.disciplined (first.disciplined h),
    fun h => second.accepted (first.accepted h)⟩

theorem probed {u : UserPort} (hv : va < 2 ^ 64) (hl : len < 2 ^ 64)
    (passed : u.accepts va len = true) : Careful u (u.probed va len) := by
  refine ⟨rfl, List.suffix_cons .., id, ?_⟩
  intro accepted a n mem
  rcases List.mem_cons.mp mem with same | older
  · obtain ⟨rfl, rfl⟩ := Touch.probed.inj same
    exact ⟨hv, hl, passed⟩
  · exact accepted a n older

/-- A touch of bytes that are all covered. -/
theorem touch {u v : UserPort} {t : Touch} (covered : RangeCovered u.log a n)
    (kind : t = .read a n ∨ t = .wrote a n) (present : v.present = u.present)
    (log : v.log = t :: u.log) : Careful u v := by
  refine ⟨present, by rw [log]; exact List.suffix_cons .., ?_, ?_⟩
  · intro disciplined
    rw [log]
    rcases kind with rfl | rfl
    · exact ⟨covered, disciplined⟩
    · exact ⟨covered, disciplined⟩
  · intro accepted x k mem
    rw [present]
    rw [log] at mem
    rcases List.mem_cons.mp mem with same | older
    · rcases kind with rfl | rfl
      · exact absurd same (by simp)
      · exact absurd same (by simp)
    · exact accepted x k older

theorem read {u : UserPort} (held : .probed va len ∈ u.log) (lo : va ≤ a)
    (hi : a + n ≤ va + len) : Careful u (u.read a n) :=
  touch (rangeCovered_of_mem held lo hi) (.inl rfl) rfl rfl

theorem write {u : UserPort} (v : Nat) (held : .probed va len ∈ u.log)
    (lo : va ≤ a) (hi : a + n ≤ va + len) : Careful u (u.write a n v) :=
  touch (rangeCovered_of_mem held lo hi) (.inr rfl) rfl rfl

theorem copyOut {u : UserPort} (data : List UInt8)
    (held : .probed va len ∈ u.log) (lo : va ≤ a) (hi : a + n ≤ va + len) :
    Careful u (u.copyOut a n data) :=
  touch (rangeCovered_of_mem held lo hi) (.inr rfl) rfl rfl

/-- A probe and a read of the whole range. -/
theorem probed_read {u : UserPort} (hv : va < 2 ^ 64) (hl : len < 2 ^ 64)
    (passed : u.accepts va len = true) : Careful u ((u.probed va len).read va len) :=
  (probed hv hl passed).trans (read List.mem_cons_self le_rfl le_rfl)

/-- A probe and a write of the whole range. -/
theorem probed_write {u : UserPort} (v : Nat) (hv : va < 2 ^ 64)
    (hl : len < 2 ^ 64) (passed : u.accepts va len = true) :
    Careful u ((u.probed va len).write va len v) :=
  (probed hv hl passed).trans (write v List.mem_cons_self le_rfl le_rfl)

/-- Careful code from an empty log. -/
theorem from_start {u v : UserPort} (careful : Careful u v) (start : u.log = []) :
    Disciplined v.log ∧ ∀ b, Touched v.log b → b < mmUserMax ∧
      u.present (b / 4096 * 4096) = true := by
  have disciplined : Disciplined v.log := careful.disciplined (by rw [start]; trivial)
  have accepted : Accepted u.present v.log := by
    rw [← careful.present]
    exact careful.accepted (by rw [start]; intro va len mem; simp at mem)
  exact ⟨disciplined, fun b touched => accepted.user (disciplined.covered touched)⟩

end Careful

theorem not_accepts {u : UserPort} (h : ¬ u.accepts va len = false) : u.accepts va len = true := by
  rwa [Bool.not_eq_false] at h

theorem capturedChars_le (m : Memory) (va size : Nat) :
    capturedChars m va size ≤ size - 1 ∧ capturedChars m va size < 2 ^ 15 := by
  have word := load_lt m va 2
  simp only [capturedChars]
  split
  · omega
  · omega

/-- Capturing a name probes the header, reads it, probes the buffer and reads it. -/
theorem mmCaptureUnicodeName_careful (u : UserPort) {va : Nat} (hv : va < 2 ^ 64) (size : Nat) :
    Careful u (mmCaptureUnicodeName u va size).2 ∧
      probedBytes (mmCaptureUnicodeName u va size).2.log ≤
        probedBytes u.log + 16 + 2 * (size - 1) := by
  simp only [mmCaptureUnicodeName]
  split
  · exact ⟨.refl u, by dsimp only; omega⟩
  rename_i sized
  split
  · exact ⟨.refl u, by dsimp only; omega⟩
  rename_i passed
  have held : .probed va 16 ∈ (u.probed va 16).log := List.mem_cons_self
  have length : Careful (u.probed va 16) ((u.probed va 16).read va 2) :=
    .read held le_rfl (by omega)
  have buffer : Careful ((u.probed va 16).read va 2) (((u.probed va 16).read va 2).read (va + 8) 8) :=
    .read (List.mem_cons_of_mem _ held) (by omega) (by omega)
  have header := ((Careful.probed hv (by decide) (not_accepts passed)).trans length).trans buffer
  obtain ⟨few, short⟩ := capturedChars_le u.bytes va size
  split
  · exact ⟨header, by simp only [UserPort.read, UserPort.probed, probedBytes]; omega⟩
  rename_i readable
  split
  · exact ⟨header, by simp only [UserPort.read, UserPort.probed, probedBytes]; omega⟩
  rename_i some
  refine ⟨header.trans (Careful.probed_read (load_lt ..) (by omega) ?_), ?_⟩
  · exact not_accepts fun no => readable ⟨some, no⟩
  · simp only [UserPort.read, UserPort.probed, probedBytes]
    omega

end Mm
