import Mathlib.Data.List.Nodup
import Svindows.Kernel32.HeapResizes
import Svindows.Lib.Runs

/-!
# Runs of the process heap

Any number of heaps in one process, with unrelated allocations landing anywhere
between their segments. As long as no `HeapReAlloc` lets a block take over a
successor that is not adjacent to it, every live payload stays in memory of its
heap and meets no other. A run in which one does ends with a payload that covers
memory of an unrelated allocation.
-/

namespace Kernel32

open ByteMemory

/-- The bytes `HeapCreate` asks for. -/
def createRegion (initial : Nat) : Nat :=
  (if initial ≠ 0 then alignUp8 initial else 0x10000) + (sizeofHeap + sizeofBlock)

/-- Note the pointer that an allocation returned; a resized pointer is live no more. -/
def settle (result : Nat × Process) (h ptr bytes : Nat) : Process :=
  if result.1 ≠ 0 then (result.2.request h ptr none).request h result.1 (some bytes)
  else if bytes = 0 then result.2.request h ptr none
  else result.2

/-- One call. Pointers are live ones of their heap, sizes are below `2 ^ 48`, and
callers write only the bytes they asked for. -/
def HeapStep (s : Process) (op : HeapOp) (s' : Process) : Prop :=
  match op with
  | .create initial base =>
    initial < 2 ^ 48 ∧ (∀ b, base = some b → Fresh s b (createRegion initial)) ∧
      s' = (heapCreate s initial base).2
  | .alloc h zero bytes base =>
    h ∈ s.heaps ∧ bytes < 2 ^ 48 ∧
      (∀ b, base = some b → Fresh s b (sizeofBlock + growPayload (allocSize bytes))) ∧
      s' = settle (heapAlloc s h zero bytes base) h 0 bytes
  | .free h ptr =>
    h ∈ s.heaps ∧ (s.requested h ptr).isSome ∧ s' = (heapFree s h ptr).request h ptr none
  | .reAlloc h zero ptr bytes base =>
    h ∈ s.heaps ∧ bytes < 2 ^ 48 ∧ (s.requested h ptr).isSome ∧
      (∀ b, base = some b → Fresh s b (sizeofBlock + growPayload (allocSize bytes))) ∧
      s' = settle (heapReAlloc s h zero ptr bytes base) h ptr bytes
  | .other base len => Fresh s base len ∧ s' = { s with grants := ⟨0, base, len⟩ :: s.grants }
  | .write h ptr i v =>
    (∃ n, s.requested h ptr = some n ∧ i < n) ∧
      s' = { s with bytes := Function.update s.bytes (ptr + i) v }

/-- Granted ranges that do not overlap. -/
def Separate (grants : List Grant) : Prop :=
  grants.Pairwise fun g g' => g.base + g.len ≤ g'.base ∨ g'.base + g'.len ≤ g.base

/-- A process without heaps; its images and stacks are other memory. -/
def HeapStart (s : Process) : Prop :=
  s.heaps = [] ∧ Separate s.grants ∧ (∀ g ∈ s.grants, g.owner = 0) ∧
    ∀ h p, s.requested h p = none

/-- A call in which no block takes over a successor that is not adjacent to it. -/
def AdjacentStep (s : Process) (op : HeapOp) (s' : Process) : Prop :=
  HeapStep s op s' ∧
    ∀ h zero ptr bytes base, op = .reAlloc h zero ptr bytes base → GrowsAdjacent s ptr bytes

/-- Every live pointer is the payload of a used block that is large enough. -/
def Backed (requested : Nat → Option Nat) (blocks : Nat → Header) (as : List Nat) : Prop :=
  ∀ p n, requested p = some n → ∃ m, n ≤ m ∧ Used blocks as p m

structure HeapSound (s : Process) : Prop where
  separate : Separate s.grants
  positive : ∀ h ∈ s.heaps, h ≠ 0
  unknown : ∀ h, h ∉ s.heaps → ∀ p, s.requested h p = none
  heaps : ∀ h ∈ s.heaps, ∃ as, Shape s h as ∧ Backed (s.requested h) s.blocks as

theorem Separate.cons {s : Process} (separate : Separate s.grants) {h base len : Nat}
    (fresh : Fresh s base len) : Separate (⟨h, base, len⟩ :: s.grants) :=
  List.pairwise_cons.mpr ⟨fun g hg => fresh.2.2 g hg, separate⟩

/-- Memory belongs to one heap only. -/
theorem Separate.owner {grants : List Grant} (separate : Separate grants) {h h' x : Nat}
    (one : Owned grants h x) (two : Owned grants h' x) : h = h' := by
  obtain ⟨g, hg, rfl, lo, hi⟩ := one
  obtain ⟨g', hg', rfl, lo', hi'⟩ := two
  by_contra ne
  have symm : Std.Symm fun g g' : Grant => g.base + g.len ≤ g'.base ∨ g'.base + g'.len ≤ g.base :=
    ⟨fun _ _ apart => apart.symm⟩
  have apart := List.Pairwise.forall separate hg hg' (fun same => ne (by rw [same]))
  omega

variable {s s' : Process} {blocks : Nat → Header} {h : Nat} {as as' : List Nat} {base : Option Nat}
  {n bytes ptr : Nat}

/-- A heap whose headers are untouched keeps its shape. -/
theorem Shape.frame (shape : Shape s h as)
    (first : s'.first h = s.first h) (grants : s.grants ⊆ s'.grants)
    (blocks : ∀ a ∈ as, s'.blocks a = s.blocks a) (headers : s.headers ≤ s'.headers) :
    Shape s' h as where
  links := by
    rw [first]
    exact (links_congr blocks).mpr shape.links
  nonempty := shape.nonempty
  apart := by
    refine List.Pairwise.imp_of_mem ?_ shape.apart
    intro a b ha hb separate x inA inB
    exact separate x ((inBlock_congr (by rw [blocks a ha])).mp inA)
      ((inBlock_congr (by rw [blocks b hb])).mp inB)
  inside a ha x inA :=
    (shape.inside a ha x ((inBlock_congr (by rw [blocks a ha])).mp inA)).mono grants
  head x lo hi := (shape.head x lo hi).mono grants
  offHead a ha x inA := shape.offHead a ha x ((inBlock_congr (by rw [blocks a ha])).mp inA)
  bounded := shape.bounded.trans headers

theorem Backed.frame {requested : Nat → Option Nat} {blocks' : Nat → Header}
    (backed : Backed requested blocks as) (same : ∀ a ∈ as, blocks' a = blocks a) :
    Backed requested blocks' as := by
  intro p n live
  obtain ⟨m, fits, used⟩ := backed p n live
  exact ⟨m, fits, (used_congr same).mpr used⟩

/-- A call on heap `h` keeps the invariant if it keeps that of `h`: the other heaps
have no memory in common with it. -/
theorem HeapSound.call (sound : HeapSound s)
    (mem : h ∈ s.heaps) (change : Change s s' h) (separate : Separate s'.grants)
    (shape : Shape s' h as') {requested : Nat → Option Nat}
    (backed : Backed requested s'.blocks as') :
    HeapSound { s' with requested := Function.update s'.requested h requested } where
  separate := separate
  positive k hk := by
    rw [show _ = s.heaps from change.heaps] at hk
    exact sound.positive k hk
  unknown k hk p := by
    rw [show _ = s.heaps from change.heaps] at hk
    have other : k ≠ h := by
      rintro rfl
      exact hk mem
    simp only [Function.update_of_ne other]
    rw [change.requested]
    exact sound.unknown k hk p
  heaps k hk := by
    rw [show _ = s.heaps from change.heaps] at hk
    by_cases here : k = h
    · subst here
      exact ⟨as', shape.frame rfl (List.Subset.refl _) (fun _ _ => rfl) le_rfl, by
        simpa using backed⟩
    · obtain ⟨as, shapeK, backedK⟩ := sound.heaps k hk
      have untouched : ∀ a ∈ as, s'.blocks a = s.blocks a := by
        intro a ha
        refine change.blocks a fun owned => here ?_
        exact separate.owner ((shapeK.owned ha).mono change.grants) owned
      refine ⟨as, shapeK.frame (by rw [change.first]) change.grants untouched change.headers, ?_⟩
      simp only [Function.update_of_ne here]
      rw [change.requested]
      exact backedK.frame untouched

@[simp] theorem splitBlock_grants (s : Process) (b size : Nat) :
    (splitBlock s b size).grants = s.grants := by
  simp only [splitBlock]
  split <;> rfl

@[simp] theorem takeBlock_grants (s : Process) (b size : Nat) (zero : Bool) :
    (takeBlock s b size zero).2.grants = s.grants := by
  cases zero <;> simp [takeBlock, Process.setBlock]

@[simp] theorem heapFree_grants (s : Process) (h ptr : Nat) :
    (heapFree s h ptr).grants = s.grants := by
  simp only [heapFree]
  split <;> rfl

theorem heapAlloc_grants (s : Process) (h : Nat) (zero : Bool) (bytes : Nat) (base : Option Nat) :
    (heapAlloc s h zero bytes base).2.grants = s.grants ∨
      ∃ b, base = some b ∧ (heapAlloc s h zero bytes base).2.grants =
        ⟨h, b, sizeofBlock + growPayload (allocSize bytes)⟩ :: s.grants := by
  simp only [heapAlloc]
  split
  · exact .inl rfl
  · cases firstFit s.blocks (alignUp8 (if bytes ≠ 0 then bytes else 1)) s.headers (s.first h) with
    | some b => exact .inl (takeBlock_grants ..)
    | none =>
      cases base with
      | none => exact .inl rfl
      | some b => exact .inr ⟨b, rfl, takeBlock_grants ..⟩

theorem heapReAlloc_grants (s : Process) (h : Nat) (zero : Bool) (ptr bytes : Nat)
    (base : Option Nat) :
    (heapReAlloc s h zero ptr bytes base).2.grants = s.grants ∨
      ∃ b, base = some b ∧ (heapReAlloc s h zero ptr bytes base).2.grants =
        ⟨h, b, sizeofBlock + growPayload (allocSize bytes)⟩ :: s.grants := by
  have moved := heapAlloc_grants s h zero bytes base
  simp only [heapReAlloc]
  split
  · exact moved
  · split
    · exact .inl (heapFree_grants ..)
    · split
      · exact .inl rfl
      · split
        · exact .inl rfl
        · split
          · exact .inl (splitBlock_grants ..)
          · split
            · cases zero <;> exact .inl rfl
            · split
              · exact moved
              · rw [heapFree_grants]
                exact moved

theorem Separate.granted {len : Nat}
    (separate : Separate s.grants) (fresh : ∀ b, base = some b → Fresh s b len)
    (granted : s'.grants = s.grants ∨ ∃ b, base = some b ∧ s'.grants = ⟨h, b, len⟩ :: s.grants) :
    Separate s'.grants := by
  rcases granted with same | ⟨b, here, more⟩
  · rwa [same]
  · rw [more]
    exact separate.cons (fresh b here)

/-- What a call on heap `h` does to the process: an outcome for the heap, live
pointers that are backed by it, and bytes written to live payloads only. -/
structure CallOn (s s' t : Process) (h : Nat) (as' : List Nat) (requested : Nat → Option Nat) :
    Prop where
  result : s' = { t with requested := Function.update t.requested h requested }
  outcome : Outcome s t h as'
  separate : Separate t.grants
  backed : Backed requested t.blocks as'
  bytes : ∀ x, t.bytes x ≠ s.bytes x → ∃ p m, (requested p).isSome ∧ Used t.blocks as' p m ∧
    p ≤ x ∧ x < p + m

theorem CallOn.sound {t : Process} {requested : Nat → Option Nat}
    (on : CallOn s s' t h as' requested) (sound : HeapSound s) (mem : h ∈ s.heaps) : HeapSound s' := by
  rw [on.result]
  exact sound.call mem on.outcome.change on.separate on.outcome.shape on.backed

theorem Outcome.refl (shape : Shape s h as) :
    Outcome s s h as :=
  ⟨shape, Change.refl s h, fun _ changed => absurd rfl changed⟩

theorem Backed.forget {requested : Nat → Option Nat}
    (backed : Backed requested blocks as) (ptr : Nat) :
    Backed (Function.update requested ptr none) blocks as := by
  intro p n live
  by_cases here : p = ptr
  · rw [here, Function.update_self] at live
    exact absurd live (by simp)
  · rw [Function.update_of_ne here] at live
    exact backed p n live

theorem request_request (s : Process) (h p q : Nat) (a b : Option Nat) :
    (s.request h p a).request h q b = { s with
      requested := Function.update s.requested h
        (Function.update (Function.update (s.requested h) p a) q b) } := by
  simp [Process.request]

theorem Used.ne_zero {p : Nat} (used : Used blocks as p n) : p ≠ 0 := by
  obtain ⟨a, -, -, rfl, -⟩ := used
  exact Nat.succ_ne_zero _

/-- A call that returns NULL and changes nothing. -/
theorem CallOn.failed (sound : HeapSound s) (shape : Shape s h as)
    (backed : Backed (s.requested h) s.blocks as) : CallOn s s s h as (s.requested h) where
  result := by rw [Function.update_eq_self]
  outcome := .refl shape
  separate := sound.separate
  backed := backed
  bytes x changed := absurd rfl changed

/-- A call that returns the block at `r` and takes `ptr` back. -/
theorem CallOn.of_block {t : Process} {r m : Nat} (outcome : Outcome s t h as')
    (separate : Separate t.grants) (backed : Backed (s.requested h) s.blocks as) (fits : bytes ≤ m)
    (after : ∀ p n, Used s.blocks as p n ∧ p ≠ ptr ∨ p = r ∧ n = m → Used t.blocks as' p n)
    (unwritten : ∀ x, x < r ∨ r + m ≤ x → t.bytes x = s.bytes x) :
    CallOn s ((t.request h ptr none).request h r (some bytes)) t h as'
      (Function.update (Function.update (t.requested h) ptr none) r (some bytes)) := by
  refine ⟨request_request .., outcome, separate, ?_, ?_⟩
  · intro p n live
    by_cases here : p = r
    · rw [here, Function.update_self] at live
      obtain rfl := Option.some.inj live
      exact ⟨m, fits, after p m (.inr ⟨here, rfl⟩)⟩
    · rw [Function.update_of_ne here, outcome.change.requested] at live
      have other : p ≠ ptr := by
        rintro rfl
        rw [Function.update_self] at live
        exact absurd live (by simp)
      obtain ⟨k, enough, used⟩ := backed.forget ptr p n live
      exact ⟨k, enough, after p k (.inl ⟨used, other⟩)⟩
  · intro x changed
    refine ⟨r, m, by simp, after r m (.inr ⟨rfl, rfl⟩), ?_⟩
    by_contra out
    exact changed (unwritten x (by omega))

/-- `HeapFree` of a live pointer. -/
theorem free_callOn {m : Nat} (sound : HeapSound s) (mem : h ∈ s.heaps) (shape : Shape s h as)
    (backed : Backed (s.requested h) s.blocks as) (used : Used s.blocks as ptr m) :
    ∃ as', CallOn s ((heapFree s h ptr).request h ptr none) (heapFree s h ptr) h as'
      (Function.update ((heapFree s h ptr).requested h) ptr none) := by
  obtain ⟨as', outcome, after, unwritten, -⟩ := heapFree_spec shape (sound.positive h mem) used
  refine ⟨as', rfl, outcome, ?_, ?_, ?_⟩
  · rw [heapFree_grants]
    exact sound.separate
  · intro p n live
    rw [outcome.change.requested] at live
    obtain ⟨k, enough, before⟩ := backed.forget ptr p n live
    refine ⟨k, enough, (after p k).mpr ⟨before, ?_⟩⟩
    rintro rfl
    rw [Function.update_self] at live
    exact absurd live (by simp)
  · intro x changed
    exact absurd (congrFun unwritten x) changed

theorem alloc_callOn (sound : HeapSound s)
    (shape : Shape s h as) (backed : Backed (s.requested h) s.blocks as) (zero : Bool)
    (fresh : ∀ b, base = some b → Fresh s b (sizeofBlock + growPayload (allocSize bytes))) :
    ∃ t as' requested,
      CallOn s (settle (heapAlloc s h zero bytes base) h 0 bytes) t h as' requested := by
  have separate := sound.separate.granted fresh (heapAlloc_grants s h zero bytes base)
  rcases heapAlloc_spec shape zero bytes fresh with failed | ⟨b, as', result, taken⟩
  · rw [failed]
    by_cases empty : bytes = 0
    · refine ⟨s, as, Function.update (s.requested h) 0 none, ?_, .refl shape, sound.separate,
        backed.forget 0, fun x changed => absurd rfl changed⟩
      simp [settle, empty, Process.request]
    · refine ⟨s, as, s.requested h, ?_⟩
      have same : settle (0, s) h 0 bytes = s := by simp [settle, empty]
      rw [same]
      exact CallOn.failed sound shape backed
  · have nonzero : (heapAlloc s h zero bytes base).1 ≠ 0 := by
      rw [result]
      exact Nat.succ_ne_zero _
    rw [← result] at taken
    rw [settle, if_pos nonzero]
    obtain ⟨m, fits, after⟩ := taken.used
    exact ⟨_, as', _, .of_block taken.outcome separate backed ((allocSize_le bytes).trans fits)
      (fun p n used => (after p n).mpr (used.imp_left And.left))
      fun x out => taken.bytes x (by omega)⟩

/-- `HeapReAlloc` of a live pointer, unless it grows over a gap. -/
theorem reAlloc_callOn {m : Nat} (sound : HeapSound s)
    (mem : h ∈ s.heaps) (shape : Shape s h as) (backed : Backed (s.requested h) s.blocks as)
    (used : Used s.blocks as ptr m) (zero : Bool)
    (fresh : ∀ b, base = some b → Fresh s b (sizeofBlock + growPayload (allocSize bytes)))
    (adjacent : GrowsAdjacent s ptr bytes) :
    ∃ t as' requested,
      CallOn s (settle (heapReAlloc s h zero ptr bytes base) h ptr bytes) t h as' requested := by
  have separate := sound.separate.granted fresh (heapReAlloc_grants s h zero ptr bytes base)
  by_cases empty : bytes = 0
  · have freed : settle (heapReAlloc s h zero ptr bytes base) h ptr bytes =
        (heapFree s h ptr).request h ptr none := by
      have call : heapReAlloc s h zero ptr bytes base = (0, heapFree s h ptr) := by
        rw [heapReAlloc, if_neg used.ne_zero, if_pos empty]
      rw [call, settle, if_neg (by simp), if_pos empty]
    rw [freed]
    obtain ⟨as', on⟩ := free_callOn sound mem shape backed used
    exact ⟨_, as', _, on⟩
  · rcases heapReAlloc_spec shape (sound.positive h mem) used zero empty fresh adjacent with
      failed | ⟨r, as', nonzero, result, moved⟩
    · have same : settle (0, s) h ptr bytes = s := by simp [settle, empty]
      rw [failed, same]
      exact ⟨s, as, s.requested h, CallOn.failed sound shape backed⟩
    · rw [← result] at nonzero moved
      rw [settle, if_pos nonzero]
      obtain ⟨m, fits, after, unwritten⟩ := moved.used
      exact ⟨_, as', _, .of_block moved.outcome separate backed fits
        (fun p n => (after p n).mpr) unwritten⟩

theorem create_shape (s : Process) (h initial : Nat) :
    Shape (heapCreate s initial (some h)).2 h [h + sizeofHeap] := by
  have block : sizeofBlock = 24 := rfl
  have head : sizeofHeap = 8 := rfl
  have header : (heapCreate s initial (some h)).2.blocks (h + sizeofHeap) =
      ⟨createRegion initial - sizeofHeap - sizeofBlock, 0, true⟩ := Function.update_self ..
  have first : (heapCreate s initial (some h)).2.first h = h + sizeofHeap :=
    Function.update_self ..
  have granted : (heapCreate s initial (some h)).2.grants =
      ⟨h, h, createRegion initial⟩ :: s.grants := rfl
  have size : sizeofHeap + sizeofBlock ≤ createRegion initial := Nat.le_add_left ..
  refine ⟨?_, List.cons_ne_nil _ _, List.pairwise_singleton _ _, ?_, ?_, ?_, Nat.le_add_left ..⟩
  · rw [first]
    refine ⟨rfl, by omega, ?_⟩
    rw [header]
    rfl
  · intro a ha x inA
    rw [List.mem_singleton.mp ha] at inA
    simp only [InBlock, header] at inA
    rw [granted]
    exact ⟨_, List.mem_cons_self .., rfl, by simp only; omega, by simp only; omega⟩
  · intro x lo hi
    rw [granted]
    exact ⟨_, List.mem_cons_self .., rfl, by simp only; omega, by simp only; omega⟩
  · intro a ha x inA
    rw [List.mem_singleton.mp ha] at inA
    exact .inr inA.1

theorem create_sound {initial : Nat} (sound : HeapSound s)
    (fresh : ∀ b, base = some b → Fresh s b (createRegion initial)) :
    HeapSound (heapCreate s initial base).2 := by
  cases base with
  | none => exact sound
  | some h =>
    have fresh := fresh h rfl
    have size : sizeofHeap + sizeofBlock ≤ createRegion initial := Nat.le_add_left ..
    have block : sizeofBlock = 24 := rfl
    have new : h ∉ s.heaps := by
      intro mem
      obtain ⟨as, shape, -⟩ := sound.heaps h mem
      exact fresh.not_owned le_rfl (by omega) (shape.head h le_rfl (Nat.lt_add_of_pos_right (by decide)))
    refine ⟨sound.separate.cons fresh, ?_, ?_, ?_⟩
    · intro k hk
      rcases List.mem_cons.mp hk with rfl | hk
      · exact Nat.pos_iff_ne_zero.mp fresh.1
      · exact sound.positive k hk
    · intro k hk p
      exact sound.unknown k (fun mem => hk (List.mem_cons_of_mem _ mem)) p
    · intro k hk
      rcases List.mem_cons.mp hk with rfl | hk
      · refine ⟨_, create_shape s k initial, ?_⟩
        intro p n live
        have none : s.requested k p = none := sound.unknown k new p
        exact absurd (live.symm.trans none) (by simp)
      · obtain ⟨as, shape, backed⟩ := sound.heaps k hk
        have other : k ≠ h := by
          rintro rfl
          exact new hk
        have untouched : ∀ a ∈ as, (heapCreate s initial (some h)).2.blocks a = s.blocks a := by
          intro a ha
          refine Function.update_of_ne ?_ _ _
          rintro rfl
          exact fresh.not_owned (Nat.le_add_right ..) (by omega) (shape.owned ha)
        refine ⟨as, shape.frame ?_ (List.subset_cons_self _ _) untouched (Nat.le_succ _),
          backed.frame untouched⟩
        exact Function.update_of_ne other _ _

/-- A step is a call on some heap, a new heap, another allocation or a write. -/
theorem HeapSound.step_cases {op : HeapOp} (sound : HeapSound s) (edge : AdjacentStep s op s') :
    (∃ h t as' requested, h ∈ s.heaps ∧ CallOn s s' t h as' requested) ∨
    (∃ initial base, (∀ b, base = some b → Fresh s b (createRegion initial)) ∧
      s' = (heapCreate s initial base).2) ∨
    (∃ base len, Fresh s base len ∧ s' = { s with grants := ⟨0, base, len⟩ :: s.grants }) ∨
    ∃ h ptr i n v, s.requested h ptr = some n ∧ i < n ∧
      s' = { s with bytes := Function.update s.bytes (ptr + i) v } := by
  obtain ⟨step, adjacent⟩ := edge
  cases op with
  | create initial base =>
    obtain ⟨-, fresh, result⟩ := step
    exact .inr (.inl ⟨initial, base, fresh, result⟩)
  | alloc h zero bytes base =>
    obtain ⟨mem, -, fresh, rfl⟩ := step
    obtain ⟨as, shape, backed⟩ := sound.heaps h mem
    obtain ⟨t, as', requested, on⟩ := alloc_callOn sound shape backed zero fresh
    exact .inl ⟨h, t, as', requested, mem, on⟩
  | free h ptr =>
    obtain ⟨mem, live, rfl⟩ := step
    obtain ⟨as, shape, backed⟩ := sound.heaps h mem
    obtain ⟨n, live⟩ := Option.isSome_iff_exists.mp live
    obtain ⟨m, -, used⟩ := backed ptr n live
    obtain ⟨as', on⟩ := free_callOn sound mem shape backed used
    exact .inl ⟨h, _, as', _, mem, on⟩
  | reAlloc h zero ptr bytes base =>
    obtain ⟨mem, -, live, fresh, rfl⟩ := step
    obtain ⟨as, shape, backed⟩ := sound.heaps h mem
    obtain ⟨n, live⟩ := Option.isSome_iff_exists.mp live
    obtain ⟨m, -, used⟩ := backed ptr n live
    obtain ⟨t, as', requested, on⟩ := reAlloc_callOn sound mem shape backed used zero fresh
      (adjacent h zero ptr bytes base rfl)
    exact .inl ⟨h, t, as', requested, mem, on⟩
  | other base len =>
    obtain ⟨fresh, result⟩ := step
    exact .inr (.inr (.inl ⟨base, len, fresh, result⟩))
  | write h ptr i v =>
    obtain ⟨⟨n, live, small⟩, result⟩ := step
    exact .inr (.inr (.inr ⟨h, ptr, i, n, v, live, small, result⟩))

/-- Every step keeps the invariant, unless a block grows over a gap. -/
theorem HeapSound.step {op : HeapOp} (sound : HeapSound s)
    (edge : AdjacentStep s op s') : HeapSound s' := by
  rcases sound.step_cases edge with ⟨h, t, as', requested, mem, on⟩ | ⟨initial, base, fresh, rfl⟩ |
    ⟨base, len, fresh, rfl⟩ | ⟨h, ptr, i, n, v, -, -, rfl⟩
  · exact on.sound sound mem
  · exact create_sound sound fresh
  · refine ⟨sound.separate.cons fresh, sound.positive, sound.unknown, ?_⟩
    intro h mem
    obtain ⟨as, shape, backed⟩ := sound.heaps h mem
    exact ⟨as, shape.frame rfl (List.subset_cons_self _ _) (fun _ _ => rfl) le_rfl, backed⟩
  · refine ⟨sound.separate, sound.positive, sound.unknown, ?_⟩
    intro k mem
    obtain ⟨as, shape, backed⟩ := sound.heaps k mem
    exact ⟨as, shape.setBytes _, backed⟩

theorem heap_sound (run : Runs.Reachable HeapStart AdjacentStep s) : HeapSound s := by
  refine run.invariant ?_ (fun _ _ _ sound edge => sound.step edge)
  rintro s ⟨none, separate, -, idle⟩
  refine ⟨separate, ?_, fun h _ p => idle h p, ?_⟩
  · intro h mem
    rw [none] at mem
    exact absurd mem List.not_mem_nil
  · intro h mem
    rw [none] at mem
    exact absurd mem List.not_mem_nil

/-- Address `x` is in the payload of the block behind pointer `p`. -/
def InPayload (s : Process) (p x : Nat) : Prop :=
  p ≤ x ∧ x < p + (s.blocks (p - sizeofBlock)).size

/-- What the callers of the heap rely on. -/
structure PayloadsSound (s : Process) : Prop where
  apart : ∀ h p n h' p' n', s.requested h p = some n → s.requested h' p' = some n' →
    (h, p) ≠ (h', p') → ∀ x, InPayload s p x → ¬ InPayload s p' x
  inside : ∀ h p n, s.requested h p = some n → ∀ x, InPayload s p x → Owned s.grants h x
  enough : ∀ h p n, s.requested h p = some n → n ≤ (s.blocks (p - sizeofBlock)).size
  known : ∀ h p n, s.requested h p = some n → h ∈ s.heaps
  listed : ∀ h ∈ s.heaps, ∃ as, Links s.blocks (s.first h) as 0 ∧ as.Nodup ∧
    ∀ p n, s.requested h p = some n → ∃ a, a + sizeofBlock = p ∧ as.count a = 1

theorem HeapSound.known (sound : HeapSound s) {p n : Nat}
    (live : s.requested h p = some n) : h ∈ s.heaps := by
  by_contra out
  rw [sound.unknown h out p] at live
  exact absurd live (by simp)

/-- The block behind a live pointer. -/
theorem HeapSound.live (sound : HeapSound s) {p n : Nat} (live : s.requested h p = some n) :
    ∃ as, Shape s h as ∧ Used s.blocks as p (s.blocks (p - sizeofBlock)).size ∧
      n ≤ (s.blocks (p - sizeofBlock)).size := by
  obtain ⟨as, shape, backed⟩ := sound.heaps h (sound.known live)
  obtain ⟨m, fits, a, mem, busy, rfl, rfl⟩ := backed p n live
  rw [Nat.add_sub_cancel]
  exact ⟨as, shape, ⟨a, mem, busy, rfl, rfl⟩, fits⟩

theorem links_unique {b : Nat}
    (one : Links blocks b as 0) (two : Links blocks b as' 0) : as = as' := by
  induction as generalizing b as' with
  | nil =>
    cases as' with
    | nil => rfl
    | cons a' as' => exact absurd (two.1.symm.trans one) two.2.1
  | cons a as ih =>
    cases as' with
    | nil => exact absurd (one.1.symm.trans two) one.2.1
    | cons a' as' =>
      obtain ⟨rfl, -, rest⟩ := one
      obtain ⟨rfl, -, rest'⟩ := two
      rw [ih rest rest']

theorem Used.inside {p : Nat} (shape : Shape s h as)
    (used : Used s.blocks as p n) {x : Nat} (lo : p ≤ x) (hi : x < p + n) : Owned s.grants h x := by
  obtain ⟨a, mem, -, rfl, rfl⟩ := used
  exact shape.inside a mem x ⟨by omega, hi⟩

theorem HeapSound.payloads (sound : HeapSound s) : PayloadsSound s where
  apart h p n h' p' n' live live' ne x inP inP' := by
    obtain ⟨as, shape, used, -⟩ := sound.live live
    obtain ⟨as', shape', used', -⟩ := sound.live live'
    have same : h = h' := sound.separate.owner (used.inside shape inP.1 inP.2)
      (used'.inside shape' inP'.1 inP'.2)
    subst same
    obtain rfl := links_unique shape.links shape'.links
    have other : p ≠ p' := by
      rintro rfl
      exact ne rfl
    have clear := shape.used_apart used used' other inP.1 inP.2
    have := inP'.1
    have := inP'.2
    omega
  inside h p n live x inP := by
    obtain ⟨as, shape, used, -⟩ := sound.live live
    exact used.inside shape inP.1 inP.2
  enough h p n live := by
    obtain ⟨as, shape, -, fits⟩ := sound.live live
    exact fits
  known h p n live := sound.known live
  listed h mem := by
    obtain ⟨as, shape, backed⟩ := sound.heaps h mem
    refine ⟨as, shape.links, shape.apart.nodup, ?_⟩
    intro p n live
    obtain ⟨m, -, a, here, -, rfl, -⟩ := backed p n live
    exact ⟨a, rfl, List.count_eq_one_of_mem shape.apart.nodup here⟩

/-- Headers written by a step are off all live payloads, and payload bytes are
written in live payloads only. So neither can change what the other holds. -/
def HeadersApart (s s' : Process) : Prop :=
  (∀ x, s'.blocks x ≠ s.blocks x → ∀ h p n, s'.requested h p = some n →
    ∀ y, x ≤ y → y < x + sizeofBlock → ¬ InPayload s' p y) ∧
  ∀ y, s'.bytes y ≠ s.bytes y → ∃ h p n, s'.requested h p = some n ∧ InPayload s' p y

theorem HeaderAt.inBlock {x y : Nat}
    (at' : HeaderAt blocks as x) (lo : x ≤ y) (hi : y < x + sizeofBlock) :
    ∃ a ∈ as, InBlock blocks a y ∧ ((blocks a).free = true ∨ y < a + sizeofBlock) := by
  obtain ⟨a, mem, rfl | ⟨free, low, high⟩⟩ := at'
  · exact ⟨x, mem, ⟨lo, by omega⟩, .inr hi⟩
  · exact ⟨a, mem, ⟨by omega, by omega⟩, .inl free⟩

theorem HeaderAt.off_payload {x k p y : Nat} (sound : HeapSound s)
    (shape : Shape s h as) (at' : HeaderAt s.blocks as x) (live : s.requested k p = some n)
    (lo : x ≤ y) (hi : y < x + sizeofBlock) : ¬ InPayload s p y := by
  intro inP
  obtain ⟨a, mem, inA, kind⟩ := at'.inBlock lo hi
  obtain ⟨bs, shape', used, -⟩ := sound.live live
  have same : k = h := sound.separate.owner (used.inside shape' inP.1 inP.2)
    (shape.inside a mem y inA)
  subst same
  obtain rfl := links_unique shape.links shape'.links
  obtain ⟨b, mem', busy, start, size⟩ := used
  have low := inP.1
  have high : y < p + (s.blocks b).size := lt_of_lt_of_eq inP.2 (congrArg (p + ·) size)
  have inB : InBlock s.blocks b y := ⟨by omega, by omega⟩
  by_cases here : a = b
  · subst here
    rcases kind with free | below
    · exact absurd (free.symm.trans busy) (by simp)
    · omega
  · exact shape.apart.of_mem mem mem' here inA inB

theorem headers_apart {op : HeapOp} (sound : HeapSound s)
    (edge : AdjacentStep s op s') : HeadersApart s s' := by
  have sound' := sound.step edge
  rcases sound.step_cases edge with ⟨h, t, as', requested, mem, on⟩ | ⟨initial, base, fresh, rfl⟩ |
    ⟨base, len, fresh, rfl⟩ | ⟨h, ptr, i, n, v, live, small, rfl⟩
  · obtain ⟨rfl, outcome, -, -, written⟩ := on
    constructor
    · intro x changed k p n live y lo hi
      exact HeaderAt.off_payload sound' (outcome.shape.frame rfl (List.Subset.refl _)
        (fun _ _ => rfl) le_rfl) (outcome.clear x changed) live lo hi
    · intro y changed
      obtain ⟨p, m, live, ⟨a, -, -, rfl, rfl⟩, lo, hi⟩ := written y changed
      obtain ⟨n, live⟩ := Option.isSome_iff_exists.mp live
      refine ⟨h, a + sizeofBlock, n, by simpa using live, lo, ?_⟩
      rwa [Nat.add_sub_cancel]
  · cases base with
    | none => exact ⟨fun x changed => absurd rfl changed, fun y changed => absurd rfl changed⟩
    | some h =>
      refine ⟨?_, fun y changed => absurd rfl changed⟩
      intro x changed k p n live y lo hi
      have here : x = h + sizeofHeap := by
        by_contra other
        exact changed (Function.update_of_ne other _ _)
      exact HeaderAt.off_payload sound' (create_shape s h initial)
        ⟨x, List.mem_singleton.mpr here, .inl rfl⟩ live lo hi
  · exact ⟨fun x changed => absurd rfl changed, fun y changed => absurd rfl changed⟩
  · refine ⟨fun x changed => absurd rfl changed, fun y changed => ?_⟩
    have here : y = ptr + i := by
      by_contra other
      exact changed (Function.update_of_ne other _ _)
    obtain ⟨as, -, -, fits⟩ := sound.live live
    exact ⟨h, ptr, n, live, by omega, by simp only; omega⟩

theorem reAlloc_keeps {zero : Bool}
    (sound : HeapSound s) (edge : AdjacentStep s (.reAlloc h zero ptr bytes base) s')
    (live : s.requested h ptr = some n) :
    ((heapReAlloc s h zero ptr bytes base).1 ≠ 0 → ∀ i, i < min n bytes →
      s'.bytes ((heapReAlloc s h zero ptr bytes base).1 + i) = s.bytes (ptr + i)) ∧
    (bytes ≠ 0 → (heapReAlloc s h zero ptr bytes base).1 = 0 → s' = s) := by
  obtain ⟨⟨mem, -, -, fresh, rfl⟩, adjacent⟩ := edge
  have adjacent := adjacent h zero ptr bytes base rfl
  obtain ⟨as, shape, used, fits⟩ := sound.live live
  by_cases empty : bytes = 0
  · refine ⟨fun _ i small => ?_, fun any => absurd empty any⟩
    omega
  · rcases heapReAlloc_spec shape (sound.positive h mem) used zero empty fresh adjacent with
      failed | ⟨r, as', nonzero, result, moved⟩
    · rw [failed]
      refine ⟨fun any => absurd rfl any, fun _ _ => ?_⟩
      simp [settle, empty]
    · rw [result]
      refine ⟨fun _ i small => ?_, fun _ none => absurd none nonzero⟩
      rw [settle, if_pos (by rwa [result])]
      exact moved.contents i (by omega) (by omega)

/-- In every run in which no block takes over a successor behind a gap, the heaps keep
their payloads apart, in their own memory and in their lists, and `HeapReAlloc` keeps
contents, or the whole block when it fails. -/
theorem live_payloads_kept {s : Process} (run : Runs.Reachable HeapStart AdjacentStep s) :
    PayloadsSound s ∧
    (∀ h zero ptr bytes base s' n, AdjacentStep s (.reAlloc h zero ptr bytes base) s' →
      s.requested h ptr = some n →
      ((heapReAlloc s h zero ptr bytes base).1 ≠ 0 → ∀ i, i < min n bytes →
        s'.bytes ((heapReAlloc s h zero ptr bytes base).1 + i) = s.bytes (ptr + i)) ∧
      (bytes ≠ 0 → (heapReAlloc s h zero ptr bytes base).1 = 0 → s' = s)) ∧
    ∀ op s', AdjacentStep s op s' → HeadersApart s s' := by
  have sound := heap_sound run
  refine ⟨sound.payloads, ?_, ?_⟩
  · intro h zero ptr bytes base s' n edge live
    exact reAlloc_keeps sound edge live
  · intro op s' edge
    exact headers_apart sound edge

/-- Nothing is allocated yet. -/
def emptyProcess : Process where
  first := fun _ => 0
  blocks := fun _ => ⟨0, 0, false⟩
  bytes := fun _ => 0
  heaps := []
  grants := []
  requested := fun _ _ => none
  headers := 0

theorem emptyProcess_start : HeapStart emptyProcess :=
  ⟨rfl, List.Pairwise.nil, fun _ hg => absurd hg List.not_mem_nil, fun _ _ => rfl⟩

/-- A heap of eight bytes, all of them allocated. -/
def fullHeap : Process :=
  settle (heapAlloc (heapCreate emptyProcess 1 (some 0x20000000)).2 0x20000000 false 8 none)
    0x20000000 0 8

theorem fullHeap_steps :
    ∃ s, HeapStep emptyProcess (.create 1 (some 0x20000000)) s ∧
      HeapStep s (.alloc 0x20000000 false 8 none) fullHeap := by
  refine ⟨_, ⟨by decide, ?_, rfl⟩, by decide, by decide, ?_, rfl⟩
  · rintro b ⟨⟩
    exact ⟨by decide, by decide, fun _ hg => absurd hg List.not_mem_nil⟩
  · rintro b ⟨⟩

theorem fullHeap_reachable : Runs.Reachable HeapStart AdjacentStep fullHeap := by
  obtain ⟨s, one, two⟩ := fullHeap_steps
  exact ((Runs.Reachable.of_initial emptyProcess_start).next
    ⟨one, fun _ _ _ _ _ other => by cases other⟩).next
    ⟨two, fun _ _ _ _ _ other => by cases other⟩

/-- The full heap after an unrelated allocation. -/
def besideHeap : Process :=
  { fullHeap with grants := ⟨0, 0x20001000, 0x1000⟩ :: fullHeap.grants }

/-- A second segment holds the next block. -/
def twoSegments : Process :=
  settle (heapAlloc besideHeap 0x20000000 false 8 (some 0x20002000)) 0x20000000 0 8

/-- That block is freed again. -/
def gapHeap : Process :=
  (heapFree twoSegments 0x20000000 0x20002018).request 0x20000000 0x20002018 none

theorem gapHeap_reachable : Runs.Reachable HeapStart AdjacentStep gapHeap := by
  have other : HeapStep fullHeap (.other 0x20001000 0x1000) besideHeap :=
    ⟨⟨by decide, by decide, by decide⟩, rfl⟩
  have grown : HeapStep besideHeap (.alloc 0x20000000 false 8 (some 0x20002000)) twoSegments := by
    refine ⟨by decide, by decide, ?_, rfl⟩
    rintro b ⟨⟩
    exact ⟨by decide, by decide, by decide⟩
  have freed : HeapStep twoSegments (.free 0x20000000 0x20002018) gapHeap :=
    ⟨by decide, by decide, rfl⟩
  exact ((fullHeap_reachable.next ⟨other, nofun⟩).next ⟨grown, nofun⟩).next ⟨freed, nofun⟩

/-- The freed block is taken again. -/
def reusedHeap : Process :=
  settle (heapAlloc gapHeap 0x20000000 false 8 none) 0x20000000 0 8

/-- The first block is cut to 4 bytes. -/
def cutHeap : Process :=
  settle (heapReAlloc reusedHeap 0x20000000 false 0x20000020 4 none) 0x20000000 0x20000020 4

theorem cutHeap_reachable : Runs.Reachable HeapStart AdjacentStep cutHeap := by
  have reused : HeapStep gapHeap (.alloc 0x20000000 false 8 none) reusedHeap :=
    ⟨by decide, by decide, nofun, rfl⟩
  have cut : HeapStep reusedHeap (.reAlloc 0x20000000 false 0x20000020 4 none) cutHeap :=
    ⟨by decide, by decide, by decide, nofun, rfl⟩
  refine (gapHeap_reachable.next ⟨reused, nofun⟩).next ⟨cut, ?_⟩
  rintro _ _ _ _ _ ⟨⟩
  exact fun larger => absurd larger (by decide)

theorem live_payloads_kept_cut : cutHeap.requested 0x20000000 0x20000020 = some 4 ∧
    cutHeap.requested 0x20000000 0x20002018 = some 8 ∧
    ∀ x, InPayload cutHeap 0x20000020 x → ¬ InPayload cutHeap 0x20002018 x := by
  have first : cutHeap.requested 0x20000000 0x20000020 = some 4 := by decide
  have second : cutHeap.requested 0x20000000 0x20002018 = some 8 := by decide
  exact ⟨first, second,
    (live_payloads_kept cutHeap_reachable).1.apart _ _ _ _ _ _ first second (by decide)⟩

/-- The first block is resized. -/
def coveringHeap : Process :=
  settle (heapReAlloc gapHeap 0x20000000 false 0x20000020 0x2000 none) 0x20000000 0x20000020 0x2000

theorem coveringHeap_reachable : Runs.Reachable HeapStart HeapStep coveringHeap := by
  have resized : HeapStep gapHeap (.reAlloc 0x20000000 false 0x20000020 0x2000 none)
      coveringHeap := by
    refine ⟨by decide, by decide, by decide, ?_, rfl⟩
    rintro b ⟨⟩
  exact (gapHeap_reachable.mono fun _ _ _ edge => edge.1).next resized

/-- Resizing the first block takes over the second segment, and with it everything
between the two. -/
theorem growth_covers_other_memory :
    ¬ ∀ s, Runs.Reachable HeapStart HeapStep s → PayloadsSound s := by
  intro sound
  obtain ⟨g, hg, owner, lo, hi⟩ := (sound _ coveringHeap_reachable).inside 0x20000000 0x20000020
    0x2000 (by decide) 0x20001000 ⟨by decide, by decide⟩
  revert g
  decide

end Kernel32
