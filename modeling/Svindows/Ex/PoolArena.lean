import Svindows.Ex.PoolSteps

/-!
# The arena invariant

`Arena s bs` adds to the linked block list what the allocator promises about
it: requests fit their blocks, free blocks are never neighbours, the byte
counter is the sum of the used sizes, and no corruption has been reported.
Searching and validating are walks over the list; allocating, growing and
freeing keep the invariant and change the set of payloads by exactly one.
-/

namespace Pool

open ByteMemory Nt

/-- Payload bytes of the used blocks. -/
def usedBytes : List Block → Nat
  | [] => 0
  | b :: bs => (if b.free then 0 else b.size) + usedBytes bs

/-- Address and requested size of each used block's payload. -/
def payloads : Nat → List Block → List (Nat × Nat)
  | _, [] => []
  | a, b :: bs =>
    (if b.free then [] else [(a + poolHdr, b.requested)]) ++
      payloads (a + poolHdr + b.size) bs

/-- At most one of two neighbours is free. -/
def Apart (b c : Block) : Prop := b.free = true → c.free = false

structure Arena (s : PoolState) (bs : List Block) : Prop extends Linked s bs where
  requests : ∀ b ∈ bs, b.free = false → b.requested ≤ b.size
  separated : bs.IsChain Apart
  inUse : s.gBytesInUse = usedBytes bs
  intact : s.gPoolBroken = false
  silent : s.reports = []

theorem usedBytes_append (xs ys : List Block) :
    usedBytes (xs ++ ys) = usedBytes xs + usedBytes ys := by
  induction xs with
  | nil => simp [usedBytes]
  | cons b bs ih =>
    simp only [List.cons_append, usedBytes, ih]
    omega

theorem usedBytes_le_span (bs : List Block) : usedBytes bs ≤ span bs := by
  induction bs with
  | nil => simp [usedBytes]
  | cons b bs ih =>
    simp only [usedBytes, span_cons]
    split <;> omega

theorem payloads_append (a : Nat) (xs ys : List Block) :
    payloads a (xs ++ ys) = payloads a xs ++ payloads (a + span xs) ys := by
  induction xs generalizing a with
  | nil => simp [payloads]
  | cons b bs ih =>
    have shift : a + span (b :: bs) = a + poolHdr + b.size + span bs := by
      simp only [span_cons]; omega
    simp only [List.cons_append, payloads, ih, shift, List.append_assoc]

theorem length_le_span (bs : List Block) : bs.length ≤ span bs := by
  induction bs with
  | nil => simp
  | cons b bs ih =>
    have hdr : poolHdr = 48 := rfl
    simp only [span_cons, List.length_cons]
    omega

variable {a p r need prev size tag q : Nat} {bs post pre : List Block} {b : Block} {s : PoolState}
  {e : GrowEnv}

/-- A payload lies behind the header of some used block of the run. -/
theorem mem_payloads :
    (p, r) ∈ payloads a bs ↔ ∃ pre b post, bs = pre ++ b :: post ∧ b.free = false ∧
      p = a + span pre + poolHdr ∧ r = b.requested := by
  induction bs generalizing a with
  | nil => simp [payloads]
  | cons b bs ih =>
    simp only [payloads, List.mem_append, ih]
    constructor
    · rintro (h | ⟨pre, c, post, rfl, used, rfl, rfl⟩)
      · by_cases hb : b.free = true
        · simp [hb] at h
        · simp only [hb, Bool.false_eq_true, if_false, List.mem_singleton, Prod.mk.injEq] at h
          exact ⟨[], b, bs, rfl, by simpa using hb, by simpa using h.1, h.2⟩
      · refine ⟨b :: pre, c, post, rfl, used, ?_, rfl⟩
        simp only [span_cons]
        omega
    · rintro ⟨pre, c, post, split, used, rfl, rfl⟩
      cases pre with
      | nil =>
        simp only [List.nil_append, List.cons.injEq] at split
        obtain ⟨rfl, rfl⟩ := split
        simp [used]
      | cons d pre =>
        simp only [List.cons_append, List.cons.injEq] at split
        obtain ⟨rfl, rfl⟩ := split
        refine Or.inr ⟨pre, c, post, rfl, used, ?_, rfl⟩
        simp only [span_cons]
        omega

theorem payloads_bounds (h : (p, r) ∈ payloads a bs) : a + poolHdr ≤ p ∧ p ≤ a + span bs := by
  obtain ⟨pre, b, post, rfl, _, rfl, _⟩ := mem_payloads.mp h
  simp only [span_append, span_cons]
  omega

/-- Where a walk enters a run. -/
def enter (a : Nat) (bs : List Block) : Nat := if bs = [] then 0 else a

/-- First fit finds a free block that is large enough, or there is none. -/
theorem findFit_layout {m : Memory} {fuel : Nat}
    (layout : Layout m prev a bs 0) (start : a ≠ 0) (steps : bs.length < fuel) :
    (∃ pre b post, bs = pre ++ b :: post ∧ b.free = true ∧ need ≤ b.size ∧
      findFit m need fuel (enter a bs) = some (a + span pre)) ∨
    ((∀ b ∈ bs, b.free = true → b.size < need) ∧
      findFit m need fuel (enter a bs) = some 0) := by
  induction bs generalizing fuel prev a with
  | nil =>
    cases fuel with
    | zero => simp at steps
    | succ fuel => exact Or.inr ⟨by simp, by simp [findFit, enter]⟩
  | cons b bs ih =>
    cases fuel with
    | zero => simp at steps
    | succ fuel =>
      obtain ⟨node, rest⟩ := layout
      simp only [List.length_cons] at steps
      have unfoldWalk : findFit m need (fuel + 1) (enter a (b :: bs)) =
          if b.free = true ∧ need ≤ b.size then some a
          else findFit m need fuel (enter (a + poolHdr + b.size) bs) := by
        simp only [findFit, enter, List.cons_ne_nil, if_false, start, node.free_eq, node.size_eq,
          node.next_eq]
        cases b.free <;> simp
      rw [unfoldWalk]
      by_cases fit : b.free = true ∧ need ≤ b.size
      · refine Or.inl ⟨[], b, bs, rfl, fit.1, fit.2, ?_⟩
        rw [if_pos fit]
        rfl
      · rw [if_neg fit]
        rcases ih rest (by omega) (show bs.length < fuel by omega) with
          ⟨pre, c, post, rfl, isFree, room, found⟩ | ⟨no, missed⟩
        · refine Or.inl ⟨b :: pre, c, post, rfl, isFree, room, ?_⟩
          rw [found]
          simp only [span_cons, Option.some.injEq]
          omega
        · refine Or.inr ⟨?_, missed⟩
          intro c hc isFree
          rcases List.mem_cons.mp hc with rfl | hc
          · by_contra h
            exact fit ⟨isFree, by omega⟩
          · exact no c hc isFree

/-- A used block of the arena has its guard bytes armed. -/
theorem NodeAt.guardIntact {m : Memory} {next : Nat}
    (node : NodeAt m a prev next b) (used : b.free = false) :
    poolGuardIntact m a = true := by
  simp only [poolGuardIntact, node.size_eq, node.requested_eq, List.all_eq_true, List.mem_range,
    beq_iff_eq]
  intro i hi
  exact node.guard used _ (by omega) (by omega)

theorem NodeAt.noFault {next : Nat} (node : NodeAt s.mem a prev next b) (sized : 16 ≤ b.size)
    (inside : a + poolHdr + b.size ≤ s.gHeapEnd) (word : s.gHeapEnd < 2 ^ 64)
    (request : b.free = false → b.requested ≤ b.size) : blockFault s prev a a = none := by
  have hend : wrap64 (a + poolHdr + b.size) = a + poolHdr + b.size :=
    Nat.mod_eq_of_lt (by omega)
  simp only [blockFault, node.magic_eq, node.prev_eq, node.size_eq, node.free_eq,
    node.requested_eq, hend]
  rw [if_neg (by simp), if_neg (by simp), if_neg (by simp), if_neg (by omega)]
  cases hb : b.free with
  | true => simp
  | false =>
    have fits := request hb
    rw [if_neg (by simpa using fits), if_neg (by simp [node.guardIntact hb])]

theorem validateWalk_layout {fuel : Nat}
    (layout : Layout s.mem prev a bs 0) (start : a ≠ 0) (steps : bs.length < fuel)
    (extent : a + span bs = s.gHeapEnd) (word : s.gHeapEnd < 2 ^ 64)
    (sized : ∀ b ∈ bs, 16 ≤ b.size)
    (requests : ∀ b ∈ bs, b.free = false → b.requested ≤ b.size) :
    validateWalk s fuel prev a (enter a bs) = some none := by
  induction bs generalizing fuel prev a with
  | nil =>
    cases fuel with
    | zero => simp at steps
    | succ fuel => simpa [validateWalk, enter] using extent
  | cons b bs ih =>
    cases fuel with
    | zero => simp at steps
    | succ fuel =>
      obtain ⟨node, rest⟩ := layout
      simp only [List.length_cons] at steps
      simp only [span_cons] at extent
      have hend : wrap64 (a + poolHdr + b.size) = a + poolHdr + b.size :=
        Nat.mod_eq_of_lt (by omega)
      have clean := node.noFault (sized b (by simp)) (by omega) word (requests b (by simp))
      have link : (if bs = [] then 0 else a + poolHdr + b.size) =
          enter (a + poolHdr + b.size) bs := rfl
      simp only [validateWalk, enter, List.cons_ne_nil, if_false, start, clean, node.size_eq, hend,
        node.next_eq]
      rw [link]
      exact ih rest (by omega) (by omega) (by omega)
        (fun c hc => sized c (by simp [hc])) (fun c hc => requests c (by simp [hc]))

theorem Linked.enter_eq (linked : Linked s bs) : s.gHead = enter mmKernelHeapBase bs := by
  rw [linked.head, enter, if_neg linked.nonempty]

theorem Linked.walkFuel_gt (linked : Linked s bs) : bs.length < walkFuel s := by
  have length := length_le_span bs
  have window := linked.window
  simp only [walkFuel]
  omega

/-- The validator has nothing to report about a well-kept arena. -/
theorem Arena.validate (arena : Arena s bs) : poolValidate s = some s := by
  have walk := validateWalk_layout arena.layout (by decide) arena.walkFuel_gt arena.heapEnd.symm
    (by rw [arena.heapEnd]; exact arena.window) (fun b hb => (arena.sized b hb).1) arena.requests
  simp only [poolValidate, arena.intact, Bool.false_eq_true, if_false, arena.enter_eq, walk]

theorem isChain_used (pre : List Block) {post : List Block} {u : Block} (used : u.free = false)
    (before : pre.IsChain Apart) (behind : post.IsChain Apart) :
    (pre ++ u :: post).IsChain Apart := by
  rw [List.isChain_append, List.isChain_cons]
  refine ⟨before, ⟨?_, behind⟩, ?_⟩
  · intro c _ isFree
    rw [used] at isFree
    exact absurd isFree (by simp)
  · intro c _ y hy _
    simp only [List.head?_cons, Option.mem_some_iff] at hy
    rw [← hy]
    exact used

/-- Only the free flag of a block matters to its neighbours. -/
theorem isChain_replace (pre post : List Block) {b c : Block} (same : b.free = c.free)
    (chain : (pre ++ b :: post).IsChain Apart) : (pre ++ c :: post).IsChain Apart := by
  rw [List.isChain_append, List.isChain_cons] at chain ⊢
  obtain ⟨before, ⟨next, behind⟩, last⟩ := chain
  refine ⟨before, ⟨?_, behind⟩, ?_⟩
  · intro y hy isFree
    exact next y hy (same.trans isFree)
  · intro x hx y hy isFree
    simp only [List.head?_cons, Option.mem_some_iff] at hy
    rw [← hy, ← same]
    exact last x hx b (by simp) isFree

theorem isChain_before (chain : (pre ++ b :: post).IsChain Apart) : pre.IsChain Apart :=
  (List.isChain_append.mp chain).1

theorem isChain_behind (chain : (pre ++ b :: post).IsChain Apart) : post.IsChain Apart :=
  (List.isChain_cons.mp (List.isChain_append.mp chain).2.1).2

/-- What an allocation makes of the free block it takes. -/
def takenBlocks (b : Block) (size need : Nat) : List Block :=
  if need + poolHdr + poolMinPayload ≤ b.size then
    [⟨need, size, false⟩, ⟨b.size - need - poolHdr, 0, true⟩]
  else [⟨b.size, size, false⟩]

/-- The size of the block handed out. -/
def takenSize (b : Block) (need : Nat) : Nat :=
  if need + poolHdr + poolMinPayload ≤ b.size then need else b.size

theorem Linked.counted (linked : Linked s bs) (n : Nat) :
    Linked { s with gBytesInUse := n } bs := { linked with }

theorem takeNode_linked (tag : Nat) (linked : Linked s (pre ++ b :: post)) (isFree : b.free = true)
    (fits : need ≤ b.size) (enough : 16 ≤ need) (aligned : need % 16 = 0) (request : size ≤ need) :
    Linked (takeNode s (nodeAddr pre) size need tag)
        (pre ++ (takenBlocks b size need ++ post)) ∧
      get (takeNode s (nodeAddr pre) size need tag).mem (nodeAddr pre) .size =
        takenSize b need := by
  have hdr : poolHdr = 48 := rfl
  have least : poolMinPayload = 16 := rfl
  have bounds := linked.bounds
  by_cases room : need + poolHdr + poolMinPayload ≤ b.size
  · have halves := poolSplit_linked linked isFree room enough aligned
    simp only [takenBlocks, takenSize, if_pos room, takeNode, List.cons_append, List.nil_append]
    generalize poolSplit s (nodeAddr pre) need = t at halves ⊢
    have used := halves.use size tag (by omega) request
    have handed := used.node.size_eq
    have kept := used.counted (wrap64 (t.gBytesInUse + need))
    dsimp only at handed kept
    rw [handed]
    exact ⟨kept, rfl⟩
  · have whole : poolSplit s (nodeAddr pre) need = s := by
      simp only [poolSplit, linked.node.size_eq]
      rw [if_pos]
      have base : mmKernelHeapBase ≤ nodeAddr pre := Nat.le_add_right _ _
      simp only [wrap64, mmKernelHeapBase] at base ⊢
      omega
    have used := linked.use size tag (by omega) (by omega)
    simp only [takenBlocks, takenSize, if_neg room, takeNode, whole, List.cons_append,
      List.nil_append]
    have handed := used.node.size_eq
    have kept := used.counted (wrap64 (s.gBytesInUse + b.size))
    dsimp only at handed kept
    rw [handed]
    exact ⟨kept, rfl⟩

theorem poolSplit_frame (s : PoolState) (n need : Nat) :
    (poolSplit s n need).gBytesInUse = s.gBytesInUse ∧
      (poolSplit s n need).gPoolBroken = s.gPoolBroken ∧
      (poolSplit s n need).reports = s.reports := by
  simp only [poolSplit]
  split <;> exact ⟨rfl, rfl, rfl⟩

theorem Arena.take
    (arena : Arena s (pre ++ b :: post)) (isFree : b.free = true) (fits : need ≤ b.size)
    (enough : 16 ≤ need) (aligned : need % 16 = 0) (request : size ≤ need) :
    Arena (takeNode s (nodeAddr pre) size need tag)
      (pre ++ (takenBlocks b size need ++ post)) := by
  obtain ⟨linked, handed⟩ := takeNode_linked tag arena.toLinked isFree fits enough
    aligned request
  obtain ⟨counted, broken, reports⟩ := poolSplit_frame s (nodeAddr pre) need
  have total : usedBytes (pre ++ (takenBlocks b size need ++ post)) =
      usedBytes (pre ++ b :: post) + takenSize b need := by
    simp only [takenBlocks, takenSize]
    split <;> simp [usedBytes_append, usedBytes, isFree] <;> omega
  have window := linked.window
  have small := usedBytes_le_span (pre ++ (takenBlocks b size need ++ post))
  refine { linked with
    requests := ?_, separated := ?_, inUse := ?_, intact := ?_, silent := ?_ }
  · intro x hx used
    simp only [takenBlocks, List.mem_append] at hx
    rcases hx with hx | hx | hx
    · exact arena.requests x (by simp [hx]) used
    · split at hx
      · simp only [List.mem_cons, List.not_mem_nil, or_false] at hx
        rcases hx with rfl | rfl
        · exact request
        · simp at used
      · simp only [List.mem_singleton] at hx
        subst hx
        exact request.trans fits
    · exact arena.requests x (by simp [hx]) used
  · have before := isChain_before arena.separated
    have behind := isChain_behind arena.separated
    simp only [takenBlocks]
    split
    · refine isChain_used pre rfl before ?_
      exact isChain_replace [] post (b := b) isFree
        (List.isChain_append.mp arena.separated).2.1
    · exact isChain_used pre rfl before behind
  · have sum : (takeNode s (nodeAddr pre) size need tag).gBytesInUse =
        wrap64 (s.gBytesInUse +
          get (takeNode s (nodeAddr pre) size need tag).mem (nodeAddr pre) .size) := by
      simp only [takeNode, counted]
    rw [sum, handed, total, arena.inUse]
    exact Nat.mod_eq_of_lt (by omega)
  · simp only [takeNode, broken, arena.intact]
  · simp only [takeNode, reports, arena.silent]

/-- The payloads of the arena seen from one block. -/
theorem payloads_at : (q, r) ∈ payloads mmKernelHeapBase (pre ++ b :: post) ↔
      (q, r) ∈ payloads mmKernelHeapBase pre ∨
        (b.free = false ∧ q = nodeAddr pre + poolHdr ∧ r = b.requested) ∨
        (q, r) ∈ payloads (nodeAddr pre + poolHdr + b.size) post := by
  rw [payloads_append, List.mem_append]
  have tail : payloads (mmKernelHeapBase + span pre) (b :: post) =
      (if b.free then [] else [(nodeAddr pre + poolHdr, b.requested)]) ++
        payloads (nodeAddr pre + poolHdr + b.size) post := rfl
  rw [tail, List.mem_append]
  cases b.free <;> simp

theorem payloads_before
    (h : (q, r) ∈ payloads mmKernelHeapBase pre) : q < nodeAddr pre + poolHdr := by
  have bounds := payloads_bounds h
  have hdr : poolHdr = 48 := rfl
  simp only [nodeAddr]
  omega

theorem payloads_behind (h : (q, r) ∈ payloads a post) : a < q := by
  have bounds := payloads_bounds h
  have hdr : poolHdr = 48 := rfl
  omega

/-- Taking a block adds its payload and no other. -/
theorem take_payloads (isFree : b.free = true) (fits : need ≤ b.size) :
    (q, r) ∈ payloads mmKernelHeapBase (pre ++ (takenBlocks b size need ++ post)) ↔
      (q = nodeAddr pre + poolHdr ∧ r = size) ∨
        (q ≠ nodeAddr pre + poolHdr ∧ (q, r) ∈ payloads mmKernelHeapBase (pre ++ b :: post)) := by
  have mid : (q, r) ∈ payloads mmKernelHeapBase (pre ++ (takenBlocks b size need ++ post)) ↔
      (q, r) ∈ payloads mmKernelHeapBase pre ∨ (q = nodeAddr pre + poolHdr ∧ r = size) ∨
        (q, r) ∈ payloads (nodeAddr pre + poolHdr + b.size) post := by
    simp only [takenBlocks]
    split
    · rename_i room
      have extent : nodeAddr pre + poolHdr + need + poolHdr + (b.size - need - poolHdr) =
          nodeAddr pre + poolHdr + b.size := by omega
      rw [List.cons_append, payloads_at]
      simp [payloads, extent]
    · rw [List.cons_append, payloads_at]
      simp
  rw [mid, payloads_at]
  simp only [isFree, Bool.true_eq_false, false_and, false_or]
  constructor
  · rintro (h | h | h)
    · have := payloads_before h
      exact Or.inr ⟨by omega, Or.inl h⟩
    · exact Or.inl h
    · have := payloads_behind h
      exact Or.inr ⟨by omega, Or.inr h⟩
  · rintro (h | ⟨_, h | h⟩)
    · exact Or.inr (Or.inl h)
    · exact Or.inl h
    · exact Or.inr (Or.inr h)

theorem growCommitted_frame (s : PoolState) (want : Nat) (m : Memory) :
    (growCommitted s want m).gBytesInUse = s.gBytesInUse ∧
      (growCommitted s want m).gPoolBroken = s.gPoolBroken ∧
      (growCommitted s want m).reports = s.reports := by
  simp only [growCommitted]
  split
  · exact ⟨rfl, rfl, rfl⟩
  · split <;> exact ⟨rfl, rfl, rfl⟩

theorem Arena.growFails (arena : Arena s bs) (inside : GrowthInside s need e)
    (failed : (poolGrow s need e).1 = false) : Arena (poolGrow s need e).2 bs := by
  obtain ⟨m, kept, same⟩ := poolGrow_fails inside failed
  rw [kept]
  exact { arena.toLinked.keepMem same with
    requests := arena.requests, separated := arena.separated, inUse := arena.inUse
    intact := arena.intact, silent := arena.silent }

/-- A successful growth ends the arena with a free block of the wanted size and
moves no payload. -/
theorem Arena.grows
    (arena : Arena s bs) (inside : GrowthInside s need e) (below : GrowthBelowTop s need e)
    (possible : GrowableNeed need) (enough : 16 ≤ need) (grew : (poolGrow s need e).1 = true) :
    ∃ bs', Arena (poolGrow s need e).2 bs' ∧ (∃ b ∈ bs', b.free = true ∧ need ≤ b.size) ∧
      payloads mmKernelHeapBase bs' = payloads mmKernelHeapBase bs := by
  obtain ⟨pre, b, rfl⟩ := (List.eq_nil_or_concat' bs).resolve_left arena.nonempty
  have linked := poolGrow_extends arena.toLinked inside below possible enough grew
  obtain ⟨least, _, _, _⟩ := growWant_bounds possible
  obtain ⟨counted, broken, reports⟩ := growCommitted_frame s (growWant need)
    (commitPages e s.gHeapEnd 0 (growWant need / pageSize) s.mem).2
  rw [← poolGrow_snd s need e grew] at counted broken reports
  generalize (poolGrow s need e).2 = t at linked counted broken reports ⊢
  cases isFree : b.free with
  | true =>
    simp only [growBlocks, isFree, if_true] at linked
    refine ⟨_, { linked with
      requests := ?_, separated := ?_, inUse := ?_
      intact := broken.trans arena.intact, silent := reports.trans arena.silent }, ?_, ?_⟩
    · intro x hx used
      rcases List.mem_append.mp hx with hx | hx
      · exact arena.requests x (by simp [hx]) used
      · rw [List.mem_singleton] at hx
        subst hx
        simp at used
    · exact isChain_replace pre [] isFree arena.separated
    · rw [counted, arena.inUse]
      simp [usedBytes_append, usedBytes, isFree]
    · refine ⟨_, List.mem_append_right _ (List.mem_singleton_self _), rfl, ?_⟩
      dsimp only
      omega
    · simp [payloads_append, payloads, isFree]
  | false =>
    simp only [growBlocks, isFree, Bool.false_eq_true, if_false] at linked
    refine ⟨_, { linked with
      requests := ?_, separated := ?_, inUse := ?_
      intact := broken.trans arena.intact, silent := reports.trans arena.silent }, ?_, ?_⟩
    · intro x hx used
      simp only [List.mem_append, List.mem_cons, List.not_mem_nil, or_false] at hx
      rcases hx with hx | rfl | rfl
      · exact arena.requests x (by simp [hx]) used
      · exact arena.requests x (by simp) used
      · simp [grownBlock] at used
    · exact isChain_used pre isFree (isChain_before arena.separated) (List.isChain_singleton _)
    · rw [counted, arena.inUse]
      simp [usedBytes_append, usedBytes, grownBlock]
    · refine ⟨grownBlock (growWant need), by simp, rfl, ?_⟩
      simp only [grownBlock]
      omega
    · simp [payloads_append, payloads, grownBlock]

/-- The largest request whose rounded size and growth do not wrap. -/
def maxRequest : Nat := 2 ^ 64 - 0x10040

theorem poolNeed_bounds (range : size ≤ maxRequest) :
    16 ≤ poolNeed size ∧ poolNeed size % 16 = 0 ∧ size ≤ poolNeed size ∧
      GrowableNeed (poolNeed size) := by
  have align : poolAlign = 16 := rfl
  have guard : poolGuard = 16 := rfl
  have hdr : poolHdr = 48 := rfl
  have chunk : poolGrowChunk = 65536 := rfl
  simp only [maxRequest] at range
  have word : size % 2 ^ 64 = size := Nat.mod_eq_of_lt (by omega)
  simp only [GrowableNeed, poolNeed, alignUpBy, alignDownBy, wrap64, align, guard, hdr, chunk, word]
  omega

theorem allocateAttempts_hit {n : Nat}
    {rest : List GrowEnv} (found : findFit s.mem need (walkFuel s) s.gHead = some n)
    (real : n ≠ 0) :
    allocateAttempts size need tag (e :: rest) s =
      some (wrap64 (n + poolHdr), takeNode s n size need tag) := by
  simp only [allocateAttempts, found, Option.bind_some]
  rw [if_pos real]

theorem allocateAttempts_miss
    {rest : List GrowEnv} (missed : findFit s.mem need (walkFuel s) s.gHead = some 0) :
    allocateAttempts size need tag (e :: rest) s =
      if (poolGrow s need e).1 then allocateAttempts size need tag rest (poolGrow s need e).2
      else some (0, (poolGrow s need e).2) := by
  rw [allocateAttempts, missed, Option.bind_some, if_neg (not_not.mpr rfl)]

/-- What an attempt that returns has done: handed out what the search found, grown
and tried again, or given up over a failed growth. -/
theorem allocateAttempts_cases {t : PoolState}
    {rest : List GrowEnv} (run : allocateAttempts size need tag (e :: rest) s = some (p, t)) :
    (∃ n, n ≠ 0 ∧ findFit s.mem need (walkFuel s) s.gHead = some n ∧
        p = wrap64 (n + poolHdr) ∧ t = takeNode s n size need tag) ∨
      (findFit s.mem need (walkFuel s) s.gHead = some 0 ∧ (poolGrow s need e).1 = true ∧
        allocateAttempts size need tag rest (poolGrow s need e).2 = some (p, t)) ∨
      (findFit s.mem need (walkFuel s) s.gHead = some 0 ∧ (poolGrow s need e).1 = false ∧
        p = 0 ∧ t = (poolGrow s need e).2) := by
  cases found : findFit s.mem need (walkFuel s) s.gHead with
  | none =>
    rw [allocateAttempts, found, Option.bind_none] at run
    cases run
  | some n =>
    by_cases missed : n = 0
    · subst missed
      rw [allocateAttempts_miss found] at run
      cases grew : (poolGrow s need e).1 with
      | true =>
        rw [if_pos grew] at run
        exact Or.inr (Or.inl ⟨rfl, rfl, run⟩)
      | false =>
        rw [if_neg (by simp [grew]), Option.some.injEq, Prod.mk.injEq] at run
        exact Or.inr (Or.inr ⟨rfl, rfl, run.1.symm, run.2.symm⟩)
    · rw [allocateAttempts_hit found missed, Option.some.injEq, Prod.mk.injEq] at run
      exact Or.inl ⟨n, missed, rfl, run.1.symm, run.2.symm⟩

theorem Linked.search (linked : Linked s bs) (need : Nat) :
    (∃ pre b post, bs = pre ++ b :: post ∧ b.free = true ∧ need ≤ b.size ∧
      findFit s.mem need (walkFuel s) s.gHead = some (nodeAddr pre)) ∨
    ((∀ b ∈ bs, b.free = true → b.size < need) ∧
      findFit s.mem need (walkFuel s) s.gHead = some 0) := by
  rw [linked.enter_eq]
  exact findFit_layout linked.layout (by decide) linked.walkFuel_gt

/-- An attempt on an arena with a fitting block hands that block out. -/
theorem Arena.attempt
    (arena : Arena s (pre ++ b :: post)) (tag : Nat) (e : GrowEnv) (rest : List GrowEnv)
    (range : size ≤ maxRequest) (isFree : b.free = true) (fits : poolNeed size ≤ b.size)
    (found : findFit s.mem (poolNeed size) (walkFuel s) s.gHead = some (nodeAddr pre)) :
    ∃ p t bs', allocateAttempts size (poolNeed size) tag (e :: rest) s = some (p, t) ∧
      Arena t bs' ∧ p ≠ 0 ∧ ∀ q r, (q, r) ∈ payloads mmKernelHeapBase bs' ↔
        (q = p ∧ r = size) ∨
          (q ≠ p ∧ (q, r) ∈ payloads mmKernelHeapBase (pre ++ b :: post)) := by
  obtain ⟨enough, aligned, request, _⟩ := poolNeed_bounds range
  have bounds := arena.bounds
  have payload : wrap64 (nodeAddr pre + poolHdr) = nodeAddr pre + poolHdr :=
    Nat.mod_eq_of_lt (by omega)
  have positive := nodeAddr_ne_zero pre
  refine ⟨_, _, _, allocateAttempts_hit found positive,
    arena.take isFree fits enough aligned request, ?_, ?_⟩
  · rw [payload]
    omega
  · intro q r
    rw [payload]
    exact take_payloads isFree fits

theorem Arena.allocate {e₁ : GrowEnv}
    (arena : Arena s bs) (tag : Nat) (e₂ : GrowEnv) (range : size ≤ maxRequest)
    (growth : findFit s.mem (poolNeed size) (walkFuel s) s.gHead = some 0 →
      GrowthInside s (poolNeed size) e₁ ∧ GrowthBelowTop s (poolNeed size) e₁) :
    ∃ p t bs', allocateAttempts size (poolNeed size) tag [e₁, e₂] s = some (p, t) ∧
      Arena t bs' ∧
      ((p = 0 ∧ (poolGrow s (poolNeed size) e₁).1 = false ∧
          payloads mmKernelHeapBase bs' = payloads mmKernelHeapBase bs) ∨
        (p ≠ 0 ∧ ∀ q r, (q, r) ∈ payloads mmKernelHeapBase bs' ↔
          (q = p ∧ r = size) ∨ (q ≠ p ∧ (q, r) ∈ payloads mmKernelHeapBase bs))) := by
  obtain ⟨enough, _, _, possible⟩ := poolNeed_bounds range
  rcases arena.search (poolNeed size) with ⟨pre, b, post, rfl, isFree, fits, found⟩ | ⟨_, missed⟩
  · obtain ⟨p, t, bs', result, arena', real, change⟩ :=
      arena.attempt tag e₁ [e₂] range isFree fits found
    exact ⟨p, t, bs', result, arena', Or.inr ⟨real, change⟩⟩
  · obtain ⟨inside, below⟩ := growth missed
    rw [allocateAttempts_miss missed]
    cases grew : (poolGrow s (poolNeed size) e₁).1 with
    | false =>
      exact ⟨0, _, bs, by simp, arena.growFails inside grew, Or.inl ⟨rfl, rfl, rfl⟩⟩
    | true =>
      -- the grown arena ends in a block that fits, so the second search cannot miss
      obtain ⟨bs', arena', ⟨c, hc, cFree, cFits⟩, same⟩ :=
        arena.grows inside below possible enough grew
      rcases arena'.search (poolNeed size) with
        ⟨pre, b, post, rfl, isFree, fits, found⟩ | ⟨none, _⟩
      · obtain ⟨p, t, bs'', result, arena'', real, change⟩ :=
          arena'.attempt tag e₂ [] range isFree fits found
        refine ⟨p, t, bs'', by simpa using result, arena'', Or.inr ⟨real, ?_⟩⟩
        rw [← same]
        exact change
      · exact absurd (none c hc cFree) (by omega)

theorem mergeNodes_frame (s : PoolState) (lower upper : Nat) :
    (mergeNodes s lower upper).gBytesInUse = s.gBytesInUse ∧
      (mergeNodes s lower upper).gPoolBroken = s.gPoolBroken ∧
      (mergeNodes s lower upper).reports = s.reports := by
  simp only [mergeNodes]
  split <;> exact ⟨rfl, rfl, rfl⟩

/-- A free block whose neighbours are not yet merged into it: the state between
the flag write of `ExFreePool` and the end of its coalescing. -/
structure Loose (s : PoolState) (pre : List Block) (f : Block) (post : List Block) : Prop
    extends Linked s (pre ++ f :: post) where
  isFree : f.free = true
  requests : ∀ b ∈ pre ++ f :: post, b.free = false → b.requested ≤ b.size
  before : pre.IsChain Apart
  behind : post.IsChain Apart
  inUse : s.gBytesInUse = usedBytes (pre ++ f :: post)
  intact : s.gPoolBroken = false
  silent : s.reports = []

theorem Loose.coalesceNext {f : Block} (loose : Loose s pre f post) :
    ∃ f' post', Loose (coalesceNext s (nodeAddr pre)) pre f' post' ∧
      (f' :: post').IsChain Apart ∧ payloads mmKernelHeapBase (pre ++ f' :: post') =
        payloads mmKernelHeapBase (pre ++ f :: post) := by
  have node := loose.toLinked.node
  have isFree := loose.isFree
  cases post with
  | nil =>
    have same : Pool.coalesceNext s (nodeAddr pre) = s := by
      simp [Pool.coalesceNext, node.next_eq]
    rw [same]
    exact ⟨f, [], loose, List.isChain_singleton _, rfl⟩
  | cons c post =>
    have next := node.next_eq
    simp only [List.cons_ne_nil, if_false] at next
    have upper : NodeAt s.mem (nodeAddr pre + poolHdr + f.size) (nodeAddr pre)
        (if post = [] then 0 else nodeAddr pre + poolHdr + f.size + poolHdr + c.size) c :=
      (layout_at.mp loose.layout).2.2.1
    have real : nodeAddr pre + poolHdr + f.size ≠ 0 := by
      have := nodeAddr_ne_zero pre
      omega
    cases hc : c.free with
    | false =>
      have same : Pool.coalesceNext s (nodeAddr pre) = s := by
        simp [Pool.coalesceNext, next, upper.free_eq, hc]
      rw [same]
      exact ⟨f, c :: post, loose, isChain_used [f] hc (List.isChain_singleton _)
        (List.isChain_cons.mp loose.behind).2, rfl⟩
    | true =>
      have merged : Pool.coalesceNext s (nodeAddr pre) =
          mergeNodes s (nodeAddr pre) (nodeAddr pre + poolHdr + f.size) := by
        simp only [Pool.coalesceNext, next, upper.free_eq, hc, if_true]
        rw [if_pos ⟨real, by simp⟩]
      obtain ⟨counted, broken, reports⟩ := mergeNodes_frame s (nodeAddr pre)
        (nodeAddr pre + poolHdr + f.size)
      have linked := mergeNodes_linked loose.toLinked isFree
      rw [merged]
      refine ⟨{ f with size := f.size + poolHdr + c.size }, post, { linked with
        isFree := isFree, requests := ?_, before := loose.before
        behind := (List.isChain_cons.mp loose.behind).2, inUse := ?_
        intact := broken.trans loose.intact, silent := reports.trans loose.silent }, ?_, ?_⟩
      · intro x hx used
        simp only [List.mem_append, List.mem_cons] at hx
        rcases hx with hx | rfl | hx
        · exact loose.requests x (by simp [hx]) used
        · exact absurd used (by simp [isFree])
        · exact loose.requests x (by simp [hx]) used
      · rw [counted, loose.inUse]
        simp [usedBytes_append, usedBytes, isFree, hc]
      · exact isChain_replace [] post (hc.trans isFree.symm) loose.behind
      · have shift : mmKernelHeapBase + span pre + poolHdr + (f.size + poolHdr + c.size) =
            mmKernelHeapBase + span pre + poolHdr + f.size + poolHdr + c.size := by omega
        simp [payloads_append, payloads, isFree, hc, shift]

theorem Loose.coalescePrev {f : Block}
    (loose : Loose s pre f post) (settled : (f :: post).IsChain Apart) :
    ∃ bs, Arena (coalescePrev s (nodeAddr pre)) bs ∧ payloads mmKernelHeapBase bs =
        payloads mmKernelHeapBase (pre ++ f :: post) := by
  have node := loose.toLinked.node
  have isFree := loose.isFree
  rcases List.eq_nil_or_concat' pre with rfl | ⟨pre, a, rfl⟩
  · have same : Pool.coalescePrev s (nodeAddr []) = s := by
      simp [Pool.coalescePrev, node.prev_eq, lastNode]
    rw [same]
    exact ⟨f :: post, { loose.toLinked with
      requests := loose.requests, separated := settled, inUse := loose.inUse
      intact := loose.intact, silent := loose.silent }, rfl⟩
  · have prev := node.prev_eq
    rw [lastNode_concat] at prev
    have regroup : pre ++ [a] ++ f :: post = pre ++ a :: f :: post := by simp
    have linked := loose.toLinked
    rw [regroup] at linked
    have lower := linked.node
    have real := nodeAddr_ne_zero pre
    have lowerFree : get s.mem (nodeAddr pre) .free = if a.free then 1 else 0 := lower.free_eq
    cases ha : a.free with
    | false =>
      have same : Pool.coalescePrev s (nodeAddr (pre ++ [a])) = s := by
        simp only [Pool.coalescePrev, prev]
        rw [if_neg]
        intro h
        have := h.2
        rw [← nodeAddr, lowerFree] at this
        simp [ha] at this
      rw [same]
      refine ⟨pre ++ a :: f :: post, { linked with
        requests := regroup ▸ loose.requests, separated := ?_, inUse := regroup ▸ loose.inUse
        intact := loose.intact, silent := loose.silent }, by rw [regroup]⟩
      exact isChain_used pre ha (List.isChain_append.mp loose.before).1 settled
    | true =>
      have merged : Pool.coalescePrev s (nodeAddr (pre ++ [a])) =
          mergeNodes s (nodeAddr pre) (nodeAddr pre + poolHdr + a.size) := by
        simp only [Pool.coalescePrev, prev]
        rw [← nodeAddr, lowerFree, if_pos ⟨real, by simp [ha]⟩, nodeAddr_concat]
      obtain ⟨counted, broken, reports⟩ := mergeNodes_frame s (nodeAddr pre)
        (nodeAddr pre + poolHdr + a.size)
      have joined := mergeNodes_linked linked ha
      rw [merged]
      refine ⟨pre ++ { a with size := a.size + poolHdr + f.size } :: post, { joined with
        requests := ?_, separated := ?_, inUse := ?_
        intact := broken.trans loose.intact, silent := reports.trans loose.silent }, ?_⟩
      · intro x hx used
        simp only [List.mem_append, List.mem_cons] at hx
        rcases hx with hx | rfl | hx
        · exact loose.requests x (by simp [hx]) used
        · exact absurd used (by simp [ha])
        · exact loose.requests x (by simp [hx]) used
      · have front := isChain_replace pre [] (b := a)
          (c := { a with size := a.size + poolHdr + f.size }) rfl loose.before
        have back := isChain_replace [] post
          (c := { a with size := a.size + poolHdr + f.size }) (isFree.trans ha.symm) settled
        exact List.isChain_split.mpr ⟨front, back⟩
      · rw [counted, loose.inUse]
        simp [usedBytes_append, usedBytes, isFree, ha]
      · simp [payloads_append, payloads, isFree, ha, Nat.add_assoc]

theorem Arena.loosen (arena : Arena s (pre ++ b :: post)) (used : b.free = false) : Loose { s with
        mem := releaseNode s.mem (nodeAddr pre)
        gBytesInUse := wrap64 (s.gBytesInUse +
          (2 ^ 64 - get (releaseNode s.mem (nodeAddr pre)) (nodeAddr pre) .size)) }
      pre ⟨b.size, 0, true⟩ post := by
  have linked := arena.toLinked.release
  have size := linked.node.size_eq
  dsimp only at size
  have bounds := arena.bounds
  have total : usedBytes (pre ++ b :: post) =
      usedBytes (pre ++ ⟨b.size, 0, true⟩ :: post) + b.size := by
    simp only [usedBytes_append, usedBytes, used]
    simp only [Bool.false_eq_true, if_false, if_true]
    omega
  have counted := linked.counted (wrap64 (s.gBytesInUse + (2 ^ 64 - b.size)))
  dsimp only at counted
  rw [size]
  refine { counted with
    isFree := rfl, requests := ?_, before := isChain_before arena.separated
    behind := isChain_behind arena.separated, inUse := ?_
    intact := arena.intact, silent := arena.silent }
  · intro x hx usedX
    simp only [List.mem_append, List.mem_cons] at hx
    rcases hx with hx | rfl | hx
    · exact arena.requests x (by simp [hx]) usedX
    · simp at usedX
    · exact arena.requests x (by simp [hx]) usedX
  · have window := arena.window
    have small := usedBytes_le_span (pre ++ b :: post)
    dsimp only
    rw [arena.inUse, total]
    simp only [wrap64]
    omega

/-- Freeing a payload removes it and no other. -/
theorem release_payloads (size : 16 ≤ b.size) :
    (q, r) ∈ payloads mmKernelHeapBase (pre ++ ⟨b.size, 0, true⟩ :: post) ↔
      q ≠ nodeAddr pre + poolHdr ∧ (q, r) ∈ payloads mmKernelHeapBase (pre ++ b :: post) := by
  rw [payloads_at, payloads_at]
  simp only [Bool.true_eq_false, false_and, false_or]
  constructor
  · rintro (h | h)
    · have := payloads_before h
      exact ⟨by omega, Or.inl h⟩
    · have := payloads_behind h
      exact ⟨by omega, Or.inr (Or.inr h)⟩
  · rintro ⟨other, h | h | h⟩
    · exact Or.inl h
    · exact absurd h.2.1 other
    · exact Or.inr h

theorem Arena.free (arena : Arena s bs) (live : (p, r) ∈ payloads mmKernelHeapBase bs) :
    ∃ t bs', exFreePool s p = some t ∧ Arena t bs' ∧ ∀ q r,
      (q, r) ∈ payloads mmKernelHeapBase bs' ↔
        q ≠ p ∧ (q, r) ∈ payloads mmKernelHeapBase bs := by
  obtain ⟨pre, b, post, rfl, used, rfl, -⟩ := mem_payloads.mp live
  have bounds := arena.bounds
  have hdr : poolHdr = 48 := rfl
  have node := arena.node
  have back : payloadToNode (nodeAddr pre + poolHdr) = nodeAddr pre := by
    simp only [payloadToNode, wrap64]
    omega
  have flag : get s.mem (nodeAddr pre) .free = 0 := by
    rw [node.free_eq, used]
    rfl
  have loose := arena.loosen used
  have run : exFreePool s (nodeAddr pre + poolHdr) = some (Pool.coalescePrev (Pool.coalesceNext
      { s with
        mem := releaseNode s.mem (nodeAddr pre)
        gBytesInUse := wrap64 (s.gBytesInUse +
          (2 ^ 64 - get (releaseNode s.mem (nodeAddr pre)) (nodeAddr pre) .size)) }
      (nodeAddr pre)) (nodeAddr pre)) := by
    simp only [exFreePool, back, node.magic_eq, flag, node.guardIntact used, ne_eq, not_true,
      false_and, if_false, Bool.true_eq_false, and_false]
    rw [if_neg (by omega)]
  obtain ⟨f', post', loose', settled, same⟩ := loose.coalesceNext
  obtain ⟨bs', arena', same'⟩ := loose'.coalescePrev settled
  refine ⟨_, bs', run, arena', ?_⟩
  intro q r
  rw [same', same]
  exact release_payloads (arena.sized b (by simp)).1

end Pool
