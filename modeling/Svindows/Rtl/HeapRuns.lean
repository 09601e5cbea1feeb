import Svindows.Lib.Runs
import Svindows.Rtl.HeapCalls

/-!
# Runs of the ntdll heap

Any sequence of allocations, frees and reallocations, with other allocations of the
process and writes to live blocks in between. Live blocks stay apart and large
enough, and the free list stays a list of blocks that nobody uses.
-/

namespace Rtl

open Nt ByteMemory

/-- Note the pointer that a call returned; a resized pointer is live no more. -/
def RtlHeap.settle (s : RtlHeap) (ptr r size : Nat) : RtlHeap :=
  if r = 0 then s else (s.request ptr none).request r (some size)

/-- One call. Pointers are live ones, sizes are below `2 ^ 31`, and callers write only the
bytes they asked for. -/
def RtlHeapStep (s : RtlHeap) (op : RtlHeapOp) (t : RtlHeap) : Prop :=
  match op with
  | .create => t = rtlCreateHeap s
  | .allocate zero size answer => size < 2 ^ 31 ∧ s.Answers answer ∧
      ∃ r u, rtlAllocateHeap s zero size answer = some (r, u) ∧ t = u.settle 0 r size
  | .free ptr => (s.requested ptr).isSome ∧ t = (rtlFreeHeap s ptr).request ptr none
  | .reAllocate zero ptr size answer => size < 2 ^ 31 ∧ s.Answers answer ∧
      (s.requested ptr).isSome ∧
      ∃ r u, rtlReAllocateHeap s zero ptr size answer = some (r, u) ∧ t = u.settle ptr r size
  | .other g => s.Fresh g ∧ t = { s with others := g :: s.others }
  | .write ptr i v => (∃ n, s.requested ptr = some n ∧ i < n) ∧
      t = { s with mem := Function.update s.mem (ptr + i) v }

/-- No heap yet, and other memory of the process. -/
def RtlHeapStart (s : RtlHeap) : Prop :=
  s.magic = 0 ∧ s.freeHead = 0 ∧ s.cursor = 0 ∧ s.segmentEnd = 0 ∧ s.segments = [] ∧
    SegmentsApart s.others ∧ (∀ g ∈ s.others, 0 < g.base ∧ g.base + g.len ≤ mmUserMax) ∧
    ∀ p, s.requested p = none

/-- The live pointers are the payloads of the used blocks, which are large enough. -/
structure Backed (s : RtlHeap) (used : List Nat) : Prop where
  live : ∀ p n, s.requested p = some n →
    ∃ a ∈ used, p = a + sizeofRtlBlock ∧ n ≤ blockSize s.mem a
  used : ∀ a ∈ used, (s.requested (a + sizeofRtlBlock)).isSome

def RtlHeapSound (s : RtlHeap) : Prop := ∃ free used, Laid s free used ∧ Backed s used

section Steps

variable {s : RtlHeap} {free used : List Nat}

/-- A new live pointer. -/
theorem Backed.add {u : RtlHeap} {b size : Nat} {free' : List Nat} (laid : Laid u free' (b :: used))
    (backed : Backed u used) (fits : size ≤ blockSize u.mem b) :
    Backed (u.request (b + sizeofRtlBlock) (some size)) (b :: used) := by
  constructor
  · intro p n live
    by_cases here : p = b + sizeofRtlBlock
    · subst here
      rw [request_here] at live
      obtain rfl := Option.some.inj live
      exact ⟨b, List.mem_cons_self, rfl, fits⟩
    · rw [request_other _ here] at live
      obtain ⟨a, mem, rest⟩ := backed.live p n live
      exact ⟨a, List.mem_cons_of_mem b mem, rest⟩
  · intro a mem
    have header : sizeofRtlBlock = 16 := rfl
    by_cases here : a = b
    · subst here
      rw [request_here]
      rfl
    · have other : a + sizeofRtlBlock ≠ b + sizeofRtlBlock := by omega
      rw [request_other _ other]
      exact backed.used a ((List.mem_cons.mp mem).resolve_left here)

/-- A pointer that is live no more. -/
theorem Backed.remove (laid : Laid s free used) (backed : Backed s used) (b : Nat) :
    Backed (s.request (b + sizeofRtlBlock) none) (used.erase b) := by
  have header : sizeofRtlBlock = 16 := rfl
  have nodup := laid.nodup.of_append_right
  constructor
  · intro p n live
    by_cases here : p = b + sizeofRtlBlock
    · subst here
      rw [request_here] at live
      cases live
    · rw [request_other _ here] at live
      obtain ⟨a, mem, rfl, fits⟩ := backed.live p n live
      refine ⟨a, (List.Nodup.mem_erase_iff nodup).mpr ⟨?_, mem⟩, rfl, fits⟩
      rintro rfl
      exact here rfl
  · intro a mem
    obtain ⟨ne, mem⟩ := (List.Nodup.mem_erase_iff nodup).mp mem
    have other : a + sizeofRtlBlock ≠ b + sizeofRtlBlock := by omega
    rw [request_other _ other]
    exact backed.used a mem

/-- Other bytes, as long as the sizes stay. -/
theorem Backed.frame {t : RtlHeap} (backed : Backed s used) (requested : t.requested = s.requested)
    (sizes : ∀ a ∈ used, blockSize t.mem a = blockSize s.mem a) : Backed t used := by
  constructor
  · intro p n live
    rw [requested] at live
    obtain ⟨a, mem, same, fits⟩ := backed.live p n live
    exact ⟨a, mem, same, by rwa [sizes a mem]⟩
  · intro a mem
    rw [requested]
    exact backed.used a mem

theorem Backed.forget_null (backed : Backed s used) : s.request 0 none = s := by
  have dead : s.requested 0 = none := by
    cases live : s.requested 0 with
    | none => rfl
    | some n =>
      obtain ⟨a, -, same, -⟩ := backed.live 0 n live
      exact absurd same (Nat.succ_ne_zero _).symm
  rw [RtlHeap.request, ← dead, Function.update_eq_self]

theorem allocate_sound (laid : Laid s free used) (backed : Backed s used) {zero : Bool} {size : Nat}
    {answer : Nat → Option Segment} (small : size < 2 ^ 31) (answers : s.Answers answer) {r : Nat}
    {u : RtlHeap} (call : rtlAllocateHeap s zero size answer = some (r, u)) :
    RtlHeapSound (u.settle 0 r size) := by
  have limit : maxSize = 2 ^ 32 - 32 := rfl
  have fits : size ≤ maxSize := by omega
  obtain ⟨r', u', call', outcome⟩ := rtlAllocateHeap_spec laid answers zero fits
  obtain ⟨rfl, rfl⟩ := Prod.mk.inj (Option.some.inj (call.symm.trans call'))
  rcases outcome with ⟨rfl, rfl⟩ | ⟨b, rfl, taken, -⟩
  · refine ⟨free, used, laid.create, backed.frame ?_ ?_⟩
    · rw [RtlHeap.settle, if_pos rfl, rtlCreateHeap_eq laid]
    · rw [RtlHeap.settle, if_pos rfl, rtlCreateHeap_eq laid]
      exact fun _ _ => rfl
  · obtain ⟨free', laid'⟩ := taken.laid
    have nonzero : b + sizeofRtlBlock ≠ 0 := Nat.succ_ne_zero _
    rw [RtlHeap.settle, if_neg nonzero]
    have kept : Backed u used :=
      backed.frame taken.records.requested fun a mem => taken.kept.size mem
    rw [kept.forget_null]
    exact ⟨free', _, laid'.request .., kept.add laid' ((roundSize_le fits).1.trans taken.fits)⟩

theorem free_sound (laid : Laid s free used) (backed : Backed s used) {b : Nat} (mem : b ∈ used) :
    RtlHeapSound ((rtlFreeHeap s (b + sizeofRtlBlock)).request (b + sizeofRtlBlock) none) := by
  obtain ⟨freed, kept, records⟩ := rtlFreeHeap_spec laid mem
  have removed := backed.remove laid b
  refine ⟨_, _, freed.request .., removed.frame ?_ fun a ha => ?_⟩
  · show Function.update _ _ _ = Function.update _ _ _
    rw [records.requested]
  · have nodup := laid.nodup.of_append_right
    obtain ⟨ne, ha⟩ := (List.Nodup.mem_erase_iff nodup).mp ha
    have apart := laid.clear (List.mem_append_right _ ha) (List.mem_append_right _ mem) ne
    exact blockSize_congr fun x low high => kept x (by rcases apart with h | h <;> omega)

theorem reAllocate_sound (laid : Laid s free used) (backed : Backed s used) {zero : Bool}
    {size old : Nat} (mem : old ∈ used) {answer : Nat → Option Segment} (small : size < 2 ^ 31)
    (answers : s.Answers answer) {r : Nat} {u : RtlHeap}
    (call : rtlReAllocateHeap s zero (old + sizeofRtlBlock) size answer = some (r, u)) :
    RtlHeapSound (u.settle (old + sizeofRtlBlock) r size) := by
  have limit : maxSize = 2 ^ 32 - 32 := rfl
  have fits : size ≤ maxSize := by omega
  obtain ⟨r', u', call', outcome⟩ := rtlReAllocateHeap_spec laid mem answers zero fits
  obtain ⟨rfl, rfl⟩ := Prod.mk.inj (Option.some.inj (call.symm.trans call'))
  rcases outcome with ⟨rfl, rfl⟩ | ⟨b, rfl, moved⟩
  · refine ⟨free, used, laid.create, backed.frame ?_ ?_⟩
    · rw [RtlHeap.settle, if_pos rfl, rtlCreateHeap_eq laid]
    · rw [RtlHeap.settle, if_pos rfl, rtlCreateHeap_eq laid]
      exact fun _ _ => rfl
  · obtain ⟨free', laid'⟩ := moved.laid
    have nonzero : b + sizeofRtlBlock ≠ 0 := Nat.succ_ne_zero _
    rw [RtlHeap.settle, if_neg nonzero]
    have removed := backed.remove laid old
    have kept : Backed (u.request (old + sizeofRtlBlock) none) (used.erase old) := by
      refine removed.frame ?_ fun a ha => moved.kept.size ha
      show Function.update _ _ _ = Function.update _ _ _
      rw [moved.records.requested]
    exact ⟨free', _, (laid'.request ..).request .., kept.add (laid'.request ..) moved.fits⟩

theorem write_sound (laid : Laid s free used) (backed : Backed s used) {ptr i n : Nat} {v : UInt8}
    (live : s.requested ptr = some n) (small : i < n) :
    RtlHeapSound { s with mem := Function.update s.mem (ptr + i) v } := by
  obtain ⟨b, mem, rfl, fits⟩ := backed.live ptr n live
  obtain ⟨laid', outside⟩ := laid.payload mem
    (m := Function.update s.mem (b + sizeofRtlBlock + i) v)
    fun x out => Function.update_of_ne (by omega) ..
  refine ⟨free, used, laid', backed.frame rfl fun a ha => ?_⟩
  exact blockSize_congr fun x low high =>
    outside a (List.mem_append_right _ ha) x low (.inl high)

end Steps

theorem RtlHeapSound.step {s t : RtlHeap} {op : RtlHeapOp} (sound : RtlHeapSound s)
    (edge : RtlHeapStep s op t) : RtlHeapSound t := by
  obtain ⟨free, used, laid, backed⟩ := sound
  cases op with
  | create =>
    obtain rfl := edge
    refine ⟨free, used, laid.create, backed.frame ?_ ?_⟩
    · rw [rtlCreateHeap_eq laid]
    · rw [rtlCreateHeap_eq laid]
      exact fun _ _ => rfl
  | allocate zero size answer =>
    obtain ⟨small, answers, r, u, call, rfl⟩ := edge
    exact allocate_sound laid backed small answers call
  | free ptr =>
    obtain ⟨live, rfl⟩ := edge
    obtain ⟨n, live⟩ := Option.isSome_iff_exists.mp live
    obtain ⟨b, mem, rfl, -⟩ := backed.live ptr n live
    exact free_sound laid backed mem
  | reAllocate zero ptr size answer =>
    obtain ⟨small, answers, live, r, u, call, rfl⟩ := edge
    obtain ⟨n, live⟩ := Option.isSome_iff_exists.mp live
    obtain ⟨b, mem, rfl, -⟩ := backed.live ptr n live
    exact reAllocate_sound laid backed mem small answers call
  | other g =>
    obtain ⟨fresh, rfl⟩ := edge
    exact ⟨free, used, laid.other fresh, backed.frame rfl fun _ _ => rfl⟩
  | write ptr i v =>
    obtain ⟨⟨n, live, small⟩, rfl⟩ := edge
    exact write_sound laid backed live small

theorem rtlHeap_sound {s : RtlHeap} (run : Runs.Reachable RtlHeapStart RtlHeapStep s) :
    RtlHeapSound s := by
  refine run.invariant ?_ fun _ _ _ sound edge => sound.step edge
  rintro s ⟨magic, head, cursor, ended, none, apart, user, idle⟩
  refine ⟨[], [], .empty head cursor ended none apart user, ?_,
    fun a mem => absurd mem List.not_mem_nil⟩
  intro p n live
  rw [idle p] at live
  cases live

/-- Address `x` is in the block with its payload at `p`, header included. -/
def InBlock (s : RtlHeap) (p x : Nat) : Prop :=
  p - sizeofRtlBlock ≤ x ∧ x < p + rtlSizeHeap s p

structure HeapLaws (s : RtlHeap) : Prop where
  disjoint : ∀ p n q k, s.requested p = some n → s.requested q = some k → p ≠ q →
    ∀ x, InBlock s p x → ¬ InBlock s q x
  inside : ∀ p n, s.requested p = some n → ∃ g ∈ s.segments, ∀ x, InBlock s p x →
    g.base ≤ x ∧ x < g.base + g.len
  enough : ∀ p n, s.requested p = some n → n ≤ rtlSizeHeap s p
  freeList : ∃ free, Chain (blockNext s.mem) s.freeHead free ∧ free.Nodup ∧ ∀ a ∈ free,
    s.requested (a + sizeofRtlBlock) = none ∧ ∀ p n, s.requested p = some n →
      ∀ x, InBlock s (a + sizeofRtlBlock) x → ¬ InBlock s p x

theorem inBlock_payload {s : RtlHeap} {a x : Nat} :
    InBlock s (a + sizeofRtlBlock) x ↔ a ≤ x ∧ x < a + sizeofRtlBlock + blockSize s.mem a := by
  have nonzero : a + sizeofRtlBlock ≠ 0 := Nat.succ_ne_zero _
  rw [InBlock, rtlSizeHeap, if_pos nonzero, Nat.add_sub_cancel]

theorem Clear.not_both {s : RtlHeap} {a b : Nat} (clear : Clear s.mem a b) {x : Nat}
    (inA : InBlock s (a + sizeofRtlBlock) x) : ¬ InBlock s (b + sizeofRtlBlock) x := by
  rw [inBlock_payload] at inA ⊢
  rcases clear with before | behind <;> omega

theorem RtlHeapSound.laws {s : RtlHeap} (sound : RtlHeapSound s) : HeapLaws s := by
  obtain ⟨free, used, laid, backed⟩ := sound
  refine ⟨?_, ?_, ?_, free, laid.chain, laid.nodup.of_append_left, ?_⟩
  · intro p n q k live live' ne x inP
    obtain ⟨a, ha, rfl, -⟩ := backed.live p n live
    obtain ⟨b, hb, rfl, -⟩ := backed.live q k live'
    have other : a ≠ b := by
      rintro rfl
      exact ne rfl
    exact (laid.clear (List.mem_append_right _ ha) (List.mem_append_right _ hb) other).not_both inP
  · intro p n live
    obtain ⟨a, ha, rfl, -⟩ := backed.live p n live
    obtain ⟨g, mem, low, high⟩ := laid.inside a (List.mem_append_right _ ha)
    refine ⟨g, mem, fun x inP => ?_⟩
    rw [inBlock_payload] at inP
    omega
  · intro p n live
    obtain ⟨a, -, rfl, fits⟩ := backed.live p n live
    have nonzero : a + sizeofRtlBlock ≠ 0 := Nat.succ_ne_zero _
    rwa [rtlSizeHeap, if_pos nonzero, Nat.add_sub_cancel]
  · intro a ha
    have idle : a ∉ used := fun mem => List.disjoint_of_nodup_append laid.nodup ha mem
    have header : sizeofRtlBlock = 16 := rfl
    constructor
    · cases live : s.requested (a + sizeofRtlBlock) with
      | none => rfl
      | some n =>
        obtain ⟨b, mem, same, -⟩ := backed.live _ n live
        obtain rfl : a = b := by omega
        exact absurd mem idle
    · intro p n live x inA
      obtain ⟨b, hb, rfl, -⟩ := backed.live p n live
      have other : a ≠ b := by
        rintro rfl
        exact idle hb
      exact (laid.clear (List.mem_append_left _ ha) (List.mem_append_right _ hb) other).not_both inA

/-- A resize returns what an allocation of the new size returns. -/
theorem rtlReAllocateHeap_pointer {s t : RtlHeap} {zero : Bool} {ptr size r : Nat}
    {answer : Nat → Option Segment} (nonzero : ptr ≠ 0)
    (call : rtlAllocateHeap s zero size answer = some (r, t)) :
    ∃ u, rtlReAllocateHeap s zero ptr size answer = some (r, u) := by
  simp only [rtlReAllocateHeap, if_neg nonzero, call, Option.bind_eq_bind, Option.bind_some]
  by_cases null : r = 0
  · exact ⟨t, by rw [if_pos null, null]⟩
  · exact ⟨_, if_neg null⟩

/-- In every reachable state the blocks and the free list are as they should be, no call
faults, cleared blocks are zero, and a resize returns a block exactly when an allocation of
that size does; the resized block keeps what it held. -/
theorem rtlHeap_laws {s : RtlHeap} (run : Runs.Reachable RtlHeapStart RtlHeapStep s) :
    HeapLaws s ∧ ∀ zero size answer, size < 2 ^ 31 → s.Answers answer →
      ∃ r t, rtlAllocateHeap s zero size answer = some (r, t) ∧
        (r ≠ 0 → zero = true → ∀ i < size, t.mem (r + i) = 0) ∧
        ∀ ptr n, s.requested ptr = some n →
          ∃ u, rtlReAllocateHeap s zero ptr size answer = some (r, u) ∧
            (r ≠ 0 → ∀ i, i < min n size → u.mem (r + i) = s.mem (ptr + i)) := by
  have sound := rtlHeap_sound run
  refine ⟨sound.laws, fun zero size answer small answers => ?_⟩
  obtain ⟨free, used, laid, backed⟩ := sound
  have limit : maxSize = 2 ^ 32 - 32 := rfl
  have fits : size ≤ maxSize := by omega
  obtain ⟨r, t, call, outcome⟩ := rtlAllocateHeap_spec laid answers zero fits
  refine ⟨r, t, call, ?_, ?_⟩
  · intro nonzero zeroed i below
    rcases outcome with ⟨null, -⟩ | ⟨b, -, -, cleared⟩
    · exact absurd null nonzero
    · exact cleared zeroed i (Nat.lt_of_lt_of_le below (roundSize_le fits).1)
  · intro ptr n live
    obtain ⟨old, mem, rfl, large⟩ := backed.live ptr n live
    obtain ⟨r', u, resize, outcome'⟩ := rtlReAllocateHeap_spec laid mem answers zero fits
    obtain ⟨u', same⟩ := rtlReAllocateHeap_pointer (Nat.succ_ne_zero _) call
    obtain ⟨rfl, rfl⟩ := Prod.mk.inj (Option.some.inj (resize.symm.trans same))
    refine ⟨u, resize, fun nonzero i below => ?_⟩
    rcases outcome' with ⟨null, -⟩ | ⟨b, rfl, moved⟩
    · exact absurd null nonzero
    · exact moved.contents i (by omega) (by omega)

/-- Nothing is allocated yet. -/
def noHeap : RtlHeap where
  magic := 0
  freeHead := 0
  cursor := 0
  segmentEnd := 0
  mem := fun _ => 0
  segments := []
  others := []
  requested := fun _ => none
  headers := 0

/-- 64 KiB, if that is enough. -/
def firstSegment (size : Nat) : Option Segment :=
  if size ≤ 0x10000 then some ⟨0x20000000, 0x10000⟩ else none

theorem firstSegment_answers : noHeap.Answers firstSegment := by
  intro size g granted
  rw [firstSegment] at granted
  split_ifs at granted with small
  cases granted
  exact ⟨small, by decide, by decide, fun o mem => absurd mem List.not_mem_nil⟩

/-- One block of 24 bytes. -/
def oneBlock : RtlHeap :=
  (((rtlAllocateHeap noHeap false 24 firstSegment).getD (0, noHeap)).2).settle 0 0x20000010 24

theorem oneBlock_reachable : Runs.Reachable RtlHeapStart RtlHeapStep oneBlock := by
  have start : RtlHeapStart noHeap :=
    ⟨rfl, rfl, rfl, rfl, rfl, .nil, fun g mem => absurd mem List.not_mem_nil, fun _ => rfl⟩
  have taken : RtlHeapStep noHeap (.allocate false 24 firstSegment) oneBlock :=
    ⟨by decide, firstSegment_answers, _, _, rfl, rfl⟩
  exact (Runs.Reachable.of_initial start).next taken

/-- The block has moved to one of 100 bytes. -/
def movedBlock : RtlHeap :=
  ((rtlReAllocateHeap oneBlock false 0x20000010 100 fun _ => none).getD (0, noHeap)).2.settle
    0x20000010 0x20000040 100

/-- A new block of 8 bytes stands where the first one was. -/
def reusedBlock : RtlHeap :=
  let (r, t) := (rtlAllocateHeap movedBlock true 8 fun _ => none).getD (0, noHeap)
  t.settle 0 r 8

theorem reusedBlock_reachable : Runs.Reachable RtlHeapStart RtlHeapStep reusedBlock := by
  have moved : RtlHeapStep oneBlock (.reAllocate false 0x20000010 100 fun _ => none) movedBlock :=
    ⟨by decide, fun _ _ => nofun, by decide, _, _, rfl, rfl⟩
  have returns : (rtlAllocateHeap movedBlock true 8 fun _ => none).isSome := by decide +kernel
  obtain ⟨⟨r, t⟩, call⟩ := Option.isSome_iff_exists.mp returns
  have taken : RtlHeapStep movedBlock (.allocate true 8 fun _ => none) reusedBlock :=
    ⟨by decide, fun _ _ => nofun, r, t, call, by rw [reusedBlock, call]; rfl⟩
  exact (oneBlock_reachable.next moved).next taken

theorem rtlHeap_laws_reused : 100 ≤ rtlSizeHeap reusedBlock 0x20000040 ∧
    ∀ x, InBlock reusedBlock 0x20000040 x → ¬ InBlock reusedBlock 0x20000010 x := by
  have laws := (rtlHeap_laws reusedBlock_reachable).1
  exact ⟨laws.enough _ 100 (by decide +kernel),
    laws.disjoint _ 100 _ 8 (by decide +kernel) (by decide +kernel) (by decide)⟩

end Rtl
