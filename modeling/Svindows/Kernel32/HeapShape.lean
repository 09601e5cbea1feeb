import Mathlib.Data.List.Basic
import Mathlib.Data.List.Pairwise
import Mathlib.Tactic.Linarith
import Svindows.Kernel32.Heap

/-!
# The shape of a heap

The blocks of a heap are linked from its head to a null pointer, their ranges do
not overlap, and each lies in memory that was granted to the heap. Splitting a
block, merging it with its adjacent successor and appending a new segment keep
that shape.
-/

namespace Kernel32

open ByteMemory

/-- From `b` the `next` pointers run through the addresses and then reach `e`. -/
def Links (blocks : Nat → Header) : Nat → List Nat → Nat → Prop
  | b, [], e => b = e
  | b, a :: as, e => b = a ∧ a ≠ 0 ∧ Links blocks (blocks a).next as e

/-- Address `x` is in the header or the payload of block `a`. -/
def InBlock (blocks : Nat → Header) (a x : Nat) : Prop :=
  a ≤ x ∧ x < a + sizeofBlock + (blocks a).size

/-- Address `x` is in memory that was granted to heap `h`. -/
def Owned (grants : List Grant) (h x : Nat) : Prop :=
  ∃ g ∈ grants, g.owner = h ∧ g.base ≤ x ∧ x < g.base + g.len

/-- Block ranges that do not overlap. -/
def Apart (blocks : Nat → Header) (as : List Nat) : Prop :=
  as.Pairwise fun a b => ∀ x, InBlock blocks a x → ¬ InBlock blocks b x

structure Shape (s : Process) (h : Nat) (as : List Nat) : Prop where
  links : Links s.blocks (s.first h) as 0
  nonempty : as ≠ []
  apart : Apart s.blocks as
  inside : ∀ a ∈ as, ∀ x, InBlock s.blocks a x → Owned s.grants h x
  head : ∀ x, h ≤ x → x < h + sizeofHeap → Owned s.grants h x
  offHead : ∀ a ∈ as, ∀ x, InBlock s.blocks a x → x < h ∨ h + sizeofHeap ≤ x
  bounded : as.length ≤ s.headers

/-- A used block: its payload and the size of it. -/
def Used (blocks : Nat → Header) (as : List Nat) (p n : Nat) : Prop :=
  ∃ a ∈ as, (blocks a).free = false ∧ p = a + sizeofBlock ∧ n = (blocks a).size

variable {b : Nat} {as : List Nat} {blocks' : Nat → Header}

theorem setBlock_other {s : Process} {a : Nat} (other : b ≠ a) (header : Header) :
    (s.setBlock a header).blocks b = s.blocks b :=
  Function.update_of_ne other _ _

theorem setBlock_here (s : Process) (a : Nat) (header : Header) :
    (s.setBlock a header).blocks a = header :=
  Function.update_self ..

theorem inBlock_self (blocks : Nat → Header) (a : Nat) : InBlock blocks a a := by
  have size : sizeofBlock = 24 := rfl
  exact ⟨le_rfl, by omega⟩

theorem links_append {blocks : Nat → Header} {bs : List Nat} {e : Nat} :
    Links blocks b (as ++ bs) e ↔ ∃ m, Links blocks b as m ∧ Links blocks m bs e := by
  induction as generalizing b with
  | nil => simp [Links]
  | cons a as ih =>
    simp only [List.cons_append, Links, ih]
    constructor
    · rintro ⟨rfl, nz, m, left, right⟩
      exact ⟨m, ⟨rfl, nz, left⟩, right⟩
    · rintro ⟨m, ⟨rfl, nz, left⟩, right⟩
      exact ⟨rfl, nz, m, left, right⟩

theorem links_congr {blocks : Nat → Header} {e : Nat}
    (same : ∀ a ∈ as, blocks' a = blocks a) : Links blocks' b as e ↔ Links blocks b as e := by
  induction as generalizing b with
  | nil => rfl
  | cons a as ih =>
    simp only [Links]
    rw [same a (List.mem_cons_self ..),
      ih (fun x hx => same x (List.mem_cons_of_mem a hx))]

theorem Apart.nodup {blocks : Nat → Header} (apart : Apart blocks as) : as.Nodup := by
  refine List.Pairwise.imp ?_ apart
  rintro a b separate rfl
  exact separate a (inBlock_self blocks a) (inBlock_self blocks a)

theorem Apart.of_mem {blocks : Nat → Header} (apart : Apart blocks as) {a b x : Nat}
    (ha : a ∈ as) (hb : b ∈ as) (ne : a ≠ b) (inA : InBlock blocks a x) : ¬ InBlock blocks b x := by
  have symm : Std.Symm fun a b => ∀ x, InBlock blocks a x → ¬ InBlock blocks b x :=
    ⟨fun _ _ separate x inB inA => separate x inA inB⟩
  exact List.Pairwise.forall apart ha hb ne x inA

theorem inBlock_congr {blocks : Nat → Header} {a x : Nat}
    (same : (blocks' a).size = (blocks a).size) : InBlock blocks' a x ↔ InBlock blocks a x := by
  simp only [InBlock, same]

/-- Replace some blocks of a list by blocks of the same memory. -/
theorem Apart.replace {blocks : Nat → Header} {pre old new post : List Nat}
    (apart : Apart blocks (pre ++ old ++ post)) (fresh : Apart blocks' new)
    (kept : ∀ a ∈ pre ++ post, (blocks' a).size = (blocks a).size)
    (covered : ∀ a ∈ new, ∀ x, InBlock blocks' a x → ∃ b ∈ old, InBlock blocks b x) :
    Apart blocks' (pre ++ new ++ post) := by
  simp only [Apart, List.pairwise_append, List.mem_append] at apart fresh kept ⊢
  obtain ⟨⟨inPre, -, preOld⟩, inPost, across⟩ := apart
  have preSame := fun a ha x => inBlock_congr (x := x) (kept a (.inl ha))
  have postSame := fun a ha x => inBlock_congr (x := x) (kept a (.inr ha))
  refine ⟨⟨?_, fresh, ?_⟩, ?_, ?_⟩
  · refine List.Pairwise.imp_of_mem ?_ inPre
    intro a b ha hb separate x inA inB
    exact separate x ((preSame a ha x).mp inA) ((preSame b hb x).mp inB)
  · intro a ha b hb x inA inB
    obtain ⟨c, hc, inC⟩ := covered b hb x inB
    exact preOld a ha c hc x ((preSame a ha x).mp inA) inC
  · refine List.Pairwise.imp_of_mem ?_ inPost
    intro a b ha hb separate x inA inB
    exact separate x ((postSame a ha x).mp inA) ((postSame b hb x).mp inB)
  · rintro a (ha | ha) b hb x inA inB
    · exact across a (.inl ha) b hb x ((preSame a ha x).mp inA) ((postSame b hb x).mp inB)
    · obtain ⟨c, hc, inC⟩ := covered a ha x inA
      exact across c (.inr hc) b hb x inC ((postSame b hb x).mp inB)

theorem covered_append {blocks : Nat → Header} {pre old new post : List Nat}
    (kept : ∀ b ∈ pre ++ post, blocks' b = blocks b)
    (covered : ∀ b ∈ new, ∀ x, InBlock blocks' b x → ∃ c ∈ old, InBlock blocks c x) :
    ∀ b ∈ pre ++ new ++ post, ∀ x, InBlock blocks' b x →
      ∃ c ∈ pre ++ old ++ post, InBlock blocks c x := by
  intro b hb x inB
  simp only [List.mem_append] at hb
  rcases hb with (hb | hb) | hb
  · rw [inBlock_congr (by rw [kept b (by simp [hb])])] at inB
    exact ⟨b, by simp [hb], inB⟩
  · obtain ⟨c, hc, inC⟩ := covered b hb x inB
    exact ⟨c, by simp [hc], inC⟩
  · rw [inBlock_congr (by rw [kept b (by simp [hb])])] at inB
    exact ⟨b, by simp [hb], inB⟩

/-- The same for the whole shape. The blocks before and after keep their headers. -/
theorem Shape.replace {s s' : Process} {h : Nat} {pre old new post : List Nat}
    (shape : Shape s h (pre ++ old ++ post)) (first : s'.first = s.first)
    (grants : s'.grants = s.grants) (kept : ∀ b ∈ pre ++ post, s'.blocks b = s.blocks b)
    (relinked : ∀ b e, Links s.blocks b old e → Links s'.blocks b new e) (some : new ≠ [])
    (fresh : Apart s'.blocks new)
    (covered : ∀ b ∈ new, ∀ x, InBlock s'.blocks b x → ∃ c ∈ old, InBlock s.blocks c x)
    (bounded : (pre ++ new ++ post).length ≤ s'.headers) :
    Shape s' h (pre ++ new ++ post) where
  links := by
    obtain ⟨m, left, right⟩ := links_append.mp shape.links
    obtain ⟨b, front, middle⟩ := links_append.mp left
    rw [first]
    refine links_append.mpr ⟨m, links_append.mpr ⟨b, ?_, relinked b m middle⟩, ?_⟩
    · exact (links_congr (fun x hx => kept x (List.mem_append_left _ hx))).mpr front
    · exact (links_congr (fun x hx => kept x (List.mem_append_right _ hx))).mpr right
  nonempty := by
    intro none
    simp only [List.append_eq_nil_iff] at none
    exact some none.1.2
  apart := shape.apart.replace fresh (fun b hb => by rw [kept b hb]) covered
  inside := by
    intro b hb x inB
    obtain ⟨c, hc, inC⟩ := covered_append kept covered b hb x inB
    rw [grants]
    exact shape.inside c hc x inC
  head := by
    rw [grants]
    exact shape.head
  offHead := by
    intro b hb x inB
    obtain ⟨c, hc, inC⟩ := covered_append kept covered b hb x inB
    exact shape.offHead c hc x inC
  bounded := bounded

section OneBlock

variable {s : Process} {h a : Nat} {pre post : List Nat}

/-- Addresses outside block `a` of a list are no other block's. -/
theorem Shape.not_mem (shape : Shape s h (pre ++ [a] ++ post)) {x : Nat}
    (inside : InBlock s.blocks a x) (other : x ≠ a) : x ∉ pre ++ [a] ++ post := by
  intro mem
  exact shape.apart.of_mem (by simp) mem other.symm inside (inBlock_self s.blocks x)

theorem Shape.ne_of_mem (shape : Shape s h (pre ++ [a] ++ post)) {b : Nat} (hb : b ∈ pre ++ post) :
    b ≠ a := by
  rintro rfl
  have nodup := shape.apart.nodup
  simp only [List.nodup_append, List.mem_append, List.mem_singleton] at nodup hb
  rcases hb with hb | hb
  · exact nodup.1.2.2 b hb b rfl rfl
  · exact nodup.2.2 b (.inr rfl) b hb rfl

/-- Changing the flag of a block. -/
theorem Shape.setFree (shape : Shape s h (pre ++ [a] ++ post)) (free : Bool) :
    Shape (s.setBlock a { s.blocks a with free := free }) h (pre ++ [a] ++ post) := by
  refine shape.replace rfl rfl ?_ ?_ (List.cons_ne_nil _ _) (List.pairwise_singleton _ _) ?_
    shape.bounded
  · intro b hb
    exact Function.update_of_ne (shape.ne_of_mem hb) _ _
  · intro b e
    simp [Links, Process.setBlock]
  · intro b hb x inB
    rw [List.mem_singleton.mp hb] at inB
    exact ⟨a, List.mem_singleton_self a, by simpa [InBlock, Process.setBlock] using inB⟩

/-- Splitting a block leaves it and a free block behind it. -/
theorem Shape.split (shape : Shape s h (pre ++ [a] ++ post)) {size : Nat}
    (room : size + sizeofBlock + 16 ≤ (s.blocks a).size) :
    Shape (splitBlock s a size) h (pre ++ [a, a + sizeofBlock + size] ++ post) := by
  have block : sizeofBlock = 24 := rfl
  have tail : a + sizeofBlock + size ∉ pre ++ [a] ++ post := by
    refine shape.not_mem ?_ (by omega)
    exact ⟨by omega, by omega⟩
  have headA : (splitBlock s a size).blocks a =
      ⟨size, a + sizeofBlock + size, (s.blocks a).free⟩ := by
    simp [splitBlock, room, Process.setBlock]
  have headTail : (splitBlock s a size).blocks (a + sizeofBlock + size) =
      ⟨(s.blocks a).size - size - sizeofBlock, (s.blocks a).next, true⟩ := by
    have other : a + sizeofBlock + size ≠ a := by omega
    simp [splitBlock, room, Process.setBlock, other]
  have others : ∀ b, b ≠ a → b ≠ a + sizeofBlock + size →
      (splitBlock s a size).blocks b = s.blocks b := by
    intro b ha ht
    simp [splitBlock, room, Process.setBlock, ha, ht]
  refine shape.replace ?_ ?_ ?_ ?_ (List.cons_ne_nil _ _) ?_ ?_ ?_
  · simp [splitBlock, room, Process.setBlock]
  · simp [splitBlock, room, Process.setBlock]
  · intro b hb
    refine others b (shape.ne_of_mem hb) ?_
    rintro rfl
    exact tail (by simp only [List.mem_append] at hb ⊢; tauto)
  · rintro b e ⟨rfl, nz, rfl⟩
    refine ⟨rfl, nz, ?_⟩
    rw [headA]
    refine ⟨rfl, by omega, ?_⟩
    rw [headTail]
    rfl
  · simp only [Apart, List.pairwise_cons, List.mem_singleton, forall_eq, List.not_mem_nil,
      false_imp_iff, implies_true, List.Pairwise.nil, and_true]
    intro x inA inTail
    simp only [InBlock, headA, headTail] at inA inTail
    omega
  · intro b hb x inB
    refine ⟨a, List.mem_singleton_self a, ?_⟩
    simp only [List.mem_cons, List.not_mem_nil, or_false] at hb
    rcases hb with rfl | rfl
    · simp only [InBlock, headA] at inB
      exact ⟨inB.1, by omega⟩
    · simp only [InBlock, headTail] at inB
      exact ⟨by omega, by omega⟩
  · have bounded := shape.bounded
    have more : (splitBlock s a size).headers = s.headers + 1 := by
      simp [splitBlock, room, Process.setBlock]
    rw [more]
    simp only [List.length_append, List.length_cons, List.length_nil] at bounded ⊢
    omega

/-- A block takes over its adjacent successor. -/
theorem Shape.merge (shape : Shape s h (pre ++ [a, b] ++ post))
    (adjacent : a + sizeofBlock + (s.blocks a).size = b) :
    Shape (s.setBlock a ⟨(s.blocks a).size + (sizeofBlock + (s.blocks b).size), (s.blocks b).next,
      (s.blocks a).free⟩) h (pre ++ [a] ++ post) := by
  have nodup := shape.apart.nodup
  have others : ∀ c ∈ pre ++ post, c ≠ a := by
    rintro c hc rfl
    simp only [List.nodup_append, List.mem_append, List.mem_cons, List.not_mem_nil, or_false] at nodup hc
    rcases hc with hc | hc
    · exact nodup.1.2.2 c hc c (.inl rfl) rfl
    · exact nodup.2.2 c (.inr (.inl rfl)) c hc rfl
  refine shape.replace rfl rfl ?_ ?_ (List.cons_ne_nil _ _) (List.pairwise_singleton _ _) ?_ ?_
  · intro c hc
    exact Function.update_of_ne (others c hc) _ _
  · rintro c e ⟨rfl, nz, -, -, rfl⟩
    refine ⟨rfl, nz, ?_⟩
    simp [Links, Process.setBlock]
  · intro c hc x inC
    rw [List.mem_singleton.mp hc] at inC
    simp only [InBlock, Process.setBlock, Function.update_self] at inC
    by_cases left : x < b
    · exact ⟨a, by simp, inC.1, by omega⟩
    · exact ⟨b, by simp, by omega, by omega⟩
  · have bounded := shape.bounded
    simp only [List.length_append, List.length_cons, List.length_nil] at bounded ⊢
    exact le_trans (by omega) bounded

end OneBlock

section Walks

variable {blocks : Nat → Header}

theorem lastBlock_eq {fuel last : Nat} {pre : List Nat}
    (links : Links blocks b (pre ++ [last]) 0) (enough : (pre ++ [last]).length ≤ fuel) :
    lastBlock blocks fuel b = last := by
  induction fuel generalizing b pre with
  | zero => simp at enough
  | succ fuel ih =>
    cases pre with
    | nil =>
      obtain ⟨rfl, -, ended⟩ := links
      have stop : (blocks b).next = 0 := ended
      rw [lastBlock, if_pos stop]
    | cons a pre =>
      obtain ⟨rfl, -, rest⟩ := links
      have more : (blocks b).next ≠ 0 := by
        cases pre with
        | nil | cons c pre =>
          rw [rest.1]
          exact rest.2.1
      rw [lastBlock, if_neg more]
      exact ih rest (by simpa using enough)

theorem firstFit_some {size fuel c : Nat} (links : Links blocks b as 0)
    (found : firstFit blocks size fuel b = some c) :
    c ∈ as ∧ (blocks c).free = true ∧ size ≤ (blocks c).size := by
  induction fuel generalizing b as with
  | zero => exact absurd found (by simp [firstFit])
  | succ fuel ih =>
    cases as with
    | nil =>
      cases links
      exact absurd found (by simp [firstFit])
    | cons a as =>
      obtain ⟨rfl, nz, rest⟩ := links
      rw [firstFit, if_neg nz] at found
      split at found
      · obtain ⟨mem, free, fits⟩ := ih rest found
        exact ⟨List.mem_cons_of_mem b mem, free, fits⟩
      · rename_i fit
        cases found
        simp only [not_or, Bool.not_eq_false, not_lt] at fit
        exact ⟨List.mem_cons_self .., fit.1, fit.2⟩

/-- Every block of the list is found by its payload. -/
theorem heapFindBlock_mem {fuel c : Nat} (links : Links blocks b as 0)
    (enough : as.length ≤ fuel) (mem : c ∈ as) :
    heapFindBlock blocks (c + sizeofBlock) fuel b = some c := by
  induction fuel generalizing b as with
  | zero =>
    rw [List.eq_nil_of_length_eq_zero (Nat.le_zero.mp enough)] at mem
    exact absurd mem List.not_mem_nil
  | succ fuel ih =>
    cases as with
    | nil => exact absurd mem List.not_mem_nil
    | cons a as =>
      obtain ⟨rfl, nz, rest⟩ := links
      rw [heapFindBlock, if_neg nz]
      by_cases here : b = c
      · rw [if_pos (by rw [here]), here]
      · rw [if_neg (by omega)]
        have later : c ∈ as := (List.mem_cons.mp mem).resolve_left fun h => here h.symm
        exact ih rest (by simpa using enough) later

end Walks

end Kernel32
