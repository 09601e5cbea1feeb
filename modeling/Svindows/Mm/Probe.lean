import Svindows.Lib.Loop
import Svindows.Mm.Mappings
import Svindows.Mm.UserPort

/-!
# The probe of a user range

`MmProbeForRead` over the page tables, with the loop over the pages of the range
as it is written, in 64-bit arithmetic. The loop ends for every range, and the
probe accepts exactly the ranges of the user half whose pages translate.
-/

namespace Mm

open Nt TableTree

/-- `MmIsUserAddress`. -/
def isUserAddress (va : Word) : Bool := va < BitVec.ofNat 64 mmUserMax

/-- A turn of the page loop of `MmProbeForRead`. -/
def VmState.probeTurn (s : VmState) (stop p : Word) : Bool ⊕ Word :=
  if p < stop then
    if mmGetPhysicalAddress s p = invalidPhys then .inl false else .inr (p + 0x1000#64)
  else .inl true

/-- `MmProbeForRead`; no result when `fuel` turns are not enough. -/
def VmState.mmProbeForRead (s : VmState) (fuel : Nat) (va len : Word) : Option Bool :=
  if len = 0 then some true
  else if va + len < va then some false
  else if !isUserAddress va || !isUserAddress (va + len - 1#64) then some false
  else Loop.run (s.probeTurn (va + len)) fuel (rangeFirst va)

/-- A walk from the root comes to a 2 MiB leaf or to a 4 KiB leaf. -/
def Translates (s : VmState) (virt : Word) : Prop :=
  s.largeAt [pdptIndex virt, pml4Index virt] (pdIndex virt) ≠ none ∨
    s.leafAt [pdIndex virt, pdptIndex virt, pml4Index virt] (ptIndex virt) ≠ none

theorem largeTranslation_ne (e : Word) {p : Word} (aligned : p.toNat % 4096 = 0) :
    (e &&& ~~~largePageMask) ||| (p &&& largePageMask) ≠ invalidPhys := by
  intro same
  have bit := congrArg (fun x => x.getLsbD 0) same
  have mask : largePageMask.getLsbD 0 = true := by decide
  have invalid : invalidPhys.getLsbD 0 = true := by decide
  have first : p.getLsbD 0 = false := by
    simp only [BitVec.getLsbD, Nat.testBit_zero, decide_eq_false_iff_not]
    omega
  simp only [BitVec.getLsbD_or, BitVec.getLsbD_and, BitVec.getLsbD_not, mask, first, invalid,
    Bool.not_true, Bool.and_false, Bool.false_and, Bool.or_false] at bit
  exact absurd bit (by decide)

theorem mapped_iff_translates {s : VmState} {p : Word} (aligned : p.toNat % 4096 = 0) :
    mmGetPhysicalAddress s p ≠ invalidPhys ↔ Translates s p := by
  rw [mmGetPhysicalAddress_eq, found, Translates]
  cases s.largeAt [pdptIndex p, pml4Index p] (pdIndex p) with
  | some e => simp [largeTranslation_ne e aligned]
  | none =>
    cases s.leafAt [pdIndex p, pdptIndex p, pml4Index p] (ptIndex p) with
    | some e => simp [pageTranslation_ne e p]
    | none => simp

/-- The pages of 4 KiB from `p` up to `stop`. -/
def PagesTranslate (s : VmState) (p stop : Nat) : Prop :=
  ∀ q : Word, q.toNat % 4096 = 0 → p ≤ q.toNat → q.toNat < stop → Translates s q

/-- The loop takes at most one turn a page and one to leave. -/
theorem probeTurn_run {s : VmState} {stop : Word} (user : stop.toNat ≤ mmUserMax) (n : Nat) :
    ∀ p : Word, p.toNat % 4096 = 0 → stop.toNat ≤ p.toNat + n * 4096 →
      ∃ r, Loop.run (s.probeTurn stop) (n + 1) p = some r ∧
        (r = true ↔ PagesTranslate s p.toNat stop.toNat) := by
  have limit : mmUserMax = 0x800000000000 := rfl
  have exits : ∀ (fuel : Nat) (p : Word), stop.toNat ≤ p.toNat →
      ∃ r, Loop.run (s.probeTurn stop) (fuel + 1) p = some r ∧
        (r = true ↔ PagesTranslate s p.toNat stop.toNat) := by
    intro fuel p past
    have leaves : s.probeTurn stop p = .inl true := by
      rw [VmState.probeTurn, if_neg (by simpa [BitVec.lt_def] using past)]
    refine ⟨true, Loop.run_inl leaves fuel, fun _ q _ low high => ?_, fun _ => rfl⟩
    omega
  induction n with
  | zero => exact fun p _ past => exits 0 p (by omega)
  | succ n ih =>
    intro p aligned reach
    by_cases past : stop.toNat ≤ p.toNat
    · exact exits (n + 1) p past
    have inside : p < stop := by
      rw [BitVec.lt_def]
      omega
    by_cases present : mmGetPhysicalAddress s p = invalidPhys
    · have leaves : s.probeTurn stop p = .inl false := by
        rw [VmState.probeTurn, if_pos inside, if_pos present]
      refine ⟨false, Loop.run_inl leaves (n + 1), fun wrong => absurd wrong (by decide), ?_⟩
      intro all
      exact absurd present ((mapped_iff_translates aligned).mpr (all p aligned le_rfl (by omega)))
    · have goes : s.probeTurn stop p = .inr (p + 0x1000#64) := by
        rw [VmState.probeTurn, if_pos inside, if_neg present]
      have next : (p + 0x1000#64).toNat = p.toNat + 4096 := by
        rw [BitVec.toNat_add]
        simp only [BitVec.toNat_ofNat]
        omega
      obtain ⟨r, run, exact_⟩ := ih (p + 0x1000#64) (by omega) (by omega)
      refine ⟨r, by rw [Loop.run_inr goes, run], exact_.trans ?_⟩
      rw [next]
      constructor
      · intro later q here low high
        by_cases same : q = p
        · rw [same]
          exact (mapped_iff_translates aligned).mp present
        · have other : q.toNat ≠ p.toNat := fun h => same (BitVec.eq_of_toNat_eq h)
          exact later q here (by omega) high
      · exact fun all q here low high => all q here (by omega) high

theorem rangeFirst_toNat (va : Word) : (rangeFirst va).toNat = va.toNat / 4096 * 4096 := by
  have mask : ~~~pageMask = BitVec.allOnes 64 <<< 12 := by decide
  have shifts : rangeFirst va = (va >>> 12) <<< 12 := by
    rw [rangeFirst, mask]
    refine BitVec.eq_of_getLsbD_eq fun i hi => ?_
    simp only [BitVec.getLsbD_and, BitVec.getLsbD_shiftLeft, BitVec.getLsbD_ushiftRight,
      BitVec.getLsbD_allOnes]
    by_cases low : i < 12
    · simp [low]
    · simp [low, hi, show 12 + (i - 12) = i by omega, show i - 12 < 64 by omega]
  have small := va.isLt
  rw [shifts, BitVec.toNat_shiftLeft, BitVec.toNat_ushiftRight, Nat.shiftRight_eq_div_pow,
    Nat.shiftLeft_eq, Nat.mod_eq_of_lt (by omega)]

/-- The ranges a probe is to accept: empty ones, and those of the user half that
do not wrap around and whose pages all translate. -/
def ReadableRange (s : VmState) (va len : Nat) : Prop :=
  len = 0 ∨ (va + len < 2 ^ 64 ∧ va + len ≤ mmUserMax ∧
    ∀ q : Word, q.toNat % 4096 = 0 → va < q.toNat + 4096 → q.toNat < va + len → Translates s q)

theorem isUserAddress_iff (va : Word) : isUserAddress va = true ↔ va.toNat < mmUserMax := by
  have limit : mmUserMax % 2 ^ 64 = mmUserMax := by decide
  rw [isUserAddress, decide_eq_true_iff, BitVec.lt_def, BitVec.toNat_ofNat, limit]

theorem mmProbeForRead_cases (s : VmState) (va len : Word) :
    (len = 0 ∧ ∀ fuel, s.mmProbeForRead fuel va len = some true) ∨
    (len ≠ 0 ∧ mmUserMax < va.toNat + len.toNat ∧
      ∀ fuel, s.mmProbeForRead fuel va len = some false) ∨
    (len ≠ 0 ∧ va.toNat + len.toNat ≤ mmUserMax ∧ (va + len).toNat = va.toNat + len.toNat ∧
      ∀ fuel, s.mmProbeForRead fuel va len =
        Loop.run (s.probeTurn (va + len)) fuel (rangeFirst va)) := by
  have limit : mmUserMax = 0x800000000000 := rfl
  have small := va.isLt
  have short := len.isLt
  have sum : (va + len).toNat = (va.toNat + len.toNat) % 2 ^ 64 := BitVec.toNat_add va len
  by_cases empty : len = 0
  · exact Or.inl ⟨empty, fun _ => if_pos empty⟩
  have positive : 0 < len.toNat := by
    rw [Nat.pos_iff_ne_zero]
    exact fun zero => empty (BitVec.eq_of_toNat_eq zero)
  have last : (va + len - 1#64).toNat = ((va + len).toNat + (2 ^ 64 - 1)) % 2 ^ 64 := by
    rw [BitVec.toNat_sub, Nat.add_comm]
    rfl
  by_cases wraps : va + len < va
  · refine Or.inr (Or.inl ⟨empty, ?_, fun fuel => ?_⟩)
    · rw [BitVec.lt_def] at wraps
      omega
    · rw [VmState.mmProbeForRead, if_neg empty, if_pos wraps]
  have straight := wraps
  rw [BitVec.lt_def] at straight
  by_cases user : va.toNat + len.toNat ≤ mmUserMax
  · refine Or.inr (Or.inr ⟨empty, user, by omega, fun fuel => ?_⟩)
    have first : isUserAddress va = true := (isUserAddress_iff va).mpr (by omega)
    have lastUser : isUserAddress (va + len - 1#64) = true := (isUserAddress_iff _).mpr (by omega)
    rw [VmState.mmProbeForRead, if_neg empty, if_neg wraps, first, lastUser]
    exact if_neg (by decide)
  · refine Or.inr (Or.inl ⟨empty, by omega, fun fuel => ?_⟩)
    have above : isUserAddress (va + len - 1#64) = false := by
      rw [← Bool.not_eq_true, isUserAddress_iff]
      omega
    rw [VmState.mmProbeForRead, if_neg empty, if_neg wraps, above, Bool.not_false, Bool.or_true]
    exact if_pos rfl

/-- The pages the loop looks at are those that meet the range. -/
theorem pagesTranslate_iff (s : VmState) (va len : Nat) :
    PagesTranslate s (va / 4096 * 4096) (va + len) ↔
      ∀ q : Word, q.toNat % 4096 = 0 → va < q.toNat + 4096 → q.toNat < va + len →
        Translates s q := by
  refine forall₂_congr fun q aligned => ?_
  have same : va / 4096 * 4096 ≤ q.toNat ↔ va < q.toNat + 4096 := by omega
  rw [same]

/-- The probe returns for every range, and it accepts exactly the readable ones. -/
theorem probe_exact (s : VmState) (va len : Word) :
    (∃ fuel r, s.mmProbeForRead fuel va len = some r) ∧
      ∀ fuel r, s.mmProbeForRead fuel va len = some r →
        (r = true ↔ ReadableRange s va.toNat len.toNat) := by
  have limit : mmUserMax < 2 ^ 64 := by decide
  have nonzero : len ≠ 0 → len.toNat ≠ 0 :=
    fun some zero => some (BitVec.eq_of_toNat_eq zero)
  rcases mmProbeForRead_cases s va len with ⟨rfl, accepts⟩ | ⟨some, above, refuses⟩ |
    ⟨some, user, sum, loop⟩
  · refine ⟨⟨0, true, accepts 0⟩, fun fuel r result => ?_⟩
    obtain rfl := Option.some.inj ((accepts fuel).symm.trans result)
    exact ⟨fun _ => Or.inl rfl, fun _ => rfl⟩
  · refine ⟨⟨0, false, refuses 0⟩, fun fuel r result => ?_⟩
    obtain rfl := Option.some.inj ((refuses fuel).symm.trans result)
    constructor
    · exact fun wrong => absurd wrong (by decide)
    · rintro (empty | ⟨_, user, _⟩)
      · exact absurd empty (nonzero some)
      · omega
  · have first := rangeFirst_toNat va
    have below : (va + len).toNat ≤ mmUserMax := by omega
    obtain ⟨r, run, accepts⟩ := probeTurn_run (s := s) below
      (va.toNat + len.toNat) (rangeFirst va) (by omega) (by omega)
    rw [first, sum, pagesTranslate_iff] at accepts
    refine ⟨⟨_, r, (loop _).trans run⟩, fun fuel r' result => ?_⟩
    rw [loop] at result
    rw [Loop.run_unique result run, accepts]
    constructor
    · exact fun pages => Or.inr ⟨by omega, user, pages⟩
    · rintro (empty | ⟨_, _, pages⟩)
      · exact absurd empty (nonzero some)
      · exact pages

/-- The services' ports answer as the page tables do. -/
theorem probe_port (s : VmState) {fuel : Nat} {va len : Word} {r : Bool}
    (result : s.mmProbeForRead fuel va len = some r) :
    Mm.mmProbeForRead (fun p => mmGetPhysicalAddress s (BitVec.ofNat 64 p) != invalidPhys)
      va.toNat len.toNat = r := by
  have limit : mmUserMax < 2 ^ 64 := by decide
  have exact_ := (probe_exact s va len).2 fuel r result
  rw [Bool.eq_iff_iff, exact_]
  by_cases empty : len.toNat = 0
  · exact ⟨fun _ => Or.inl empty, fun _ => if_pos empty⟩
  rw [mmProbeForRead_iff va.isLt len.isLt (Nat.pos_of_ne_zero empty)]
  simp only [bne_iff_ne]
  constructor
  · rintro ⟨user, pages⟩
    refine Or.inr ⟨by omega, user, fun q aligned low high => ?_⟩
    have page := pages (max va.toNat q.toNat) (Nat.le_max_left ..) (by omega)
    have start : max va.toNat q.toNat / 4096 * 4096 = q.toNat := by omega
    rw [start, BitVec.ofNat_toNat, BitVec.setWidth_eq] at page
    exact (mapped_iff_translates aligned).mp page
  · rintro (wrong | ⟨_, user, pages⟩)
    · exact absurd wrong empty
    · refine ⟨user, fun b low high => ?_⟩
      have start : (BitVec.ofNat 64 (b / 4096 * 4096)).toNat = b / 4096 * 4096 := by
        rw [BitVec.toNat_ofNat, Nat.mod_eq_of_lt (by omega)]
      have aligned : (BitVec.ofNat 64 (b / 4096 * 4096)).toNat % 4096 = 0 := by omega
      exact (mapped_iff_translates aligned).mpr (pages _ aligned (by omega) (by omega))

end Mm
