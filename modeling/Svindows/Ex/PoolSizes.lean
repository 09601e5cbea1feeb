import Svindows.Ex.PoolWindow

/-!
# The sizes of the pool

What a caller may rely on about the block it is handed: the payload holds the
request, the guard bytes start inside it, and a request whose rounded size is
not a 64-bit number is refused. The search hands out only what passes its own
test, so all of this rests on the rounded size being no smaller than the
request.
-/

namespace Pool

open ByteMemory Nt

/-- The request rounded up to the alignment, with the guard bytes behind it, as
a number that does not wrap. -/
def roundedRequest (size : Nat) : Nat := (size + 15) / 16 * 16 + poolGuard

structure SizesKept (s : PoolState) (size tag : Nat) (e₁ e₂ : GrowEnv) : Prop where
  large : ∀ p t, exAllocatePoolWithTag s size tag e₁ e₂ = some (p, t) → p ≠ 0 →
    size ≤ get t.mem (payloadToNode p) .size
  guarded : ∀ p t, exAllocatePoolWithTag s size tag e₁ e₂ = some (p, t) → p ≠ 0 →
    get t.mem (payloadToNode p) .requested = size ∧
      get t.mem (payloadToNode p) .requested ≤ get t.mem (payloadToNode p) .size
  refused : 2 ^ 64 ≤ roundedRequest size →
    ∃ t, exAllocatePoolWithTag s size tag e₁ e₂ = some (0, t)

variable {size need : Nat} {s : PoolState} {bs : List Block}

theorem poolNeed_eq (word : size < 2 ^ 64) : poolNeed size = roundedRequest size % 2 ^ 64 := by
  have align : poolAlign = 16 := rfl
  have guard : poolGuard = 16 := rfl
  have same : size % 2 ^ 64 = size := Nat.mod_eq_of_lt word
  simp only [poolNeed, roundedRequest, alignUpBy, alignDownBy, wrap64, align, guard, same]
  omega

theorem roundedRequest_lt : roundedRequest size < 2 ^ 64 ↔ size ≤ 2 ^ 64 - 32 := by
  have guard : poolGuard = 16 := rfl
  simp only [roundedRequest, guard]
  omega

theorem le_poolNeed (small : size ≤ 2 ^ 64 - 32) : size ≤ poolNeed size := by
  have fits := roundedRequest_lt.mpr small
  rw [poolNeed_eq (by omega), Nat.mod_eq_of_lt fits]
  simp only [roundedRequest]
  omega

/-- A request too large to round looks like a request for the guard bytes. -/
theorem poolNeed_wraps (word : size < 2 ^ 64) (large : 2 ^ 64 - 32 < size) :
    poolNeed size ≤ 16 := by
  have guard : poolGuard = 16 := rfl
  rw [poolNeed_eq word]
  simp only [roundedRequest, guard]
  omega

theorem growWant_tiny (tiny : need ≤ 16) : growWant need = 65536 := by
  have hdr : poolHdr = 48 := rfl
  have chunk : poolGrowChunk = 65536 := rfl
  have same : (need + 48) % 2 ^ 64 = need + 48 := Nat.mod_eq_of_lt (by omega)
  simp only [growWant, alignUpBy, alignDownBy, wrap64, hdr, chunk, same]
  omega

theorem get_next_lt (m : Memory) (n : Nat) : get m n .next < 2 ^ 64 :=
  (load_lt m _ _).trans_eq (by decide)

theorem findFit_found {m : Memory} {fuel n r : Nat} (found : findFit m need fuel n = some r)
    (real : r ≠ 0) (word : n < 2 ^ 64) : need ≤ get m r .size ∧ r < 2 ^ 64 := by
  induction fuel generalizing n with
  | zero => simp [findFit] at found
  | succ fuel ih =>
    simp only [findFit] at found
    split at found
    · exact absurd (Option.some.inj found).symm real
    · split at found
      · rename_i fit
        obtain rfl := Option.some.inj found
        exact ⟨fit.2, word⟩
      · exact ih found (get_next_lt m n)

/-- The size the header holds after the split. -/
theorem poolSplit_size (s : PoolState) (n : Nat) {need : Nat} (word : need < 2 ^ 64) :
    get (poolSplit s n need).mem n .size =
      if get s.mem n .size < wrap64 (need + poolHdr + poolMinPayload) then get s.mem n .size
      else need := by
  simp only [poolSplit]
  split
  · rfl
  · exact get_put_same word

theorem takeNode_size (s : PoolState) (n : Nat) {size need : Nat} (tag : Nat) :
    get (takeNode s n size need tag).mem n .size = get (poolSplit s n need).mem n .size := by
  simp only [takeNode]
  rw [useNode_get, get_put_field (by decide), get_put_field (by decide), get_put_field (by decide)]

theorem takeNode_requested (s : PoolState) (n : Nat) {size need : Nat} (tag : Nat)
    (word : size < 2 ^ 64) : get (takeNode s n size need tag).mem n .requested = size := by
  simp only [takeNode]
  rw [useNode_get]
  exact get_put_same word

/-- The allocator's own pointers are 64-bit values. -/
structure Words (s : PoolState) : Prop where
  head : s.gHead < 2 ^ 64
  heapEnd : s.gHeapEnd < 2 ^ 64

theorem Words.growCommitted (words : Words s) (want : Nat) (m : Memory) :
    Words (growCommitted s want m) := by
  refine ⟨?_, ?_⟩
  · simp only [Pool.growCommitted]
    split
    · exact words.head
    · split
      · exact words.head
      · exact words.heapEnd
  · rw [growCommitted_heapEnd]
    exact Nat.mod_lt _ (by decide)

theorem Words.poolGrow (words : Words s) (need : Nat) (e : GrowEnv) :
    Words (poolGrow s need e).2 := by
  cases grew : (Pool.poolGrow s need e).1 with
  | true =>
    rw [poolGrow_snd s need e grew]
    exact words.growCommitted _ _
  | false =>
    rw [poolGrow_refused s need e grew]
    exact ⟨words.head, words.heapEnd⟩

/-- Whatever is handed out passed the search's test in some state. -/
theorem allocateAttempts_handed {tag p : Nat} {es : List GrowEnv} {t : PoolState}
    (words : Words s) (run : allocateAttempts size need tag es s = some (p, t)) (real : p ≠ 0) :
    ∃ u n, n < 2 ^ 64 ∧ need ≤ get u.mem n .size ∧ p = wrap64 (n + poolHdr) ∧
      t = takeNode u n size need tag := by
  induction es generalizing s with
  | nil =>
    simp only [allocateAttempts, Option.some.injEq, Prod.mk.injEq] at run
    exact absurd run.1.symm real
  | cons e rest ih =>
    rcases allocateAttempts_cases run with ⟨n, here, found, rfl, rfl⟩ | ⟨_, _, again⟩ | ⟨_, _, null, _⟩
    · obtain ⟨fits, word⟩ := findFit_found found here words.head
      exact ⟨s, n, word, fits, rfl, rfl⟩
    · exact ih (words.poolGrow need e) again
    · exact absurd null real

theorem payloadToNode_wrap {n : Nat} (word : n < 2 ^ 64) :
    payloadToNode (wrap64 (n + poolHdr)) = n := by
  have hdr : poolHdr = 48 := rfl
  simp only [payloadToNode, wrap64, hdr]
  omega

theorem validateWalk_returns {fuel prev a : Nat}
    (back addr : Nat) (layout : Layout s.mem prev a bs 0) (start : a ≠ 0)
    (steps : bs.length < fuel) :
    ∃ verdict, validateWalk s fuel back addr (enter a bs) = some verdict := by
  induction bs generalizing fuel prev back a addr with
  | nil =>
    cases fuel with
    | zero => simp at steps
    | succ fuel => exact ⟨_, by simp only [validateWalk, enter, if_true]; rfl⟩
  | cons b bs ih =>
    cases fuel with
    | zero => simp at steps
    | succ fuel =>
      obtain ⟨node, rest⟩ := layout
      simp only [List.length_cons] at steps
      have link : (if bs = [] then 0 else a + poolHdr + b.size) =
          enter (a + poolHdr + b.size) bs := rfl
      simp only [validateWalk, enter, List.cons_ne_nil, if_false, start, node.next_eq]
      cases blockFault s back addr a with
      | some bad => exact ⟨_, rfl⟩
      | none =>
        rw [link]
        exact ih _ _ rest (by omega) (by omega)

theorem poolValidate_linked (linked : Linked s bs) :
    ∃ t, poolValidate s = some t ∧ Linked t bs ∧ t.gHeapEnd = s.gHeapEnd := by
  obtain ⟨verdict, walk⟩ := validateWalk_returns 0 mmKernelHeapBase linked.layout (by decide)
    linked.walkFuel_gt
  rw [← linked.enter_eq] at walk
  simp only [poolValidate, walk]
  split
  · exact ⟨s, rfl, linked, rfl⟩
  · cases verdict with
    | none => exact ⟨s, rfl, linked, rfl⟩
    | some bad => exact ⟨report s bad, rfl, { linked with }, rfl⟩

/-- Counting the call may report corruption; it moves no block. -/
theorem countCall_linked (linked : Linked s bs) :
    ∃ t, countCall s = some t ∧ Linked t bs ∧ t.gHeapEnd = s.gHeapEnd := by
  have counted : Linked { s with calls := wrap32 (s.calls + 1) } bs := { linked with }
  simp only [countCall]
  split
  · exact poolValidate_linked counted
  · exact ⟨_, rfl, counted, rfl⟩

theorem Linked.words (linked : Linked s bs) : Words s where
  head := by
    rw [linked.head]
    decide
  heapEnd := by
    rw [linked.heapEnd]
    exact linked.window

/-- A request that does not wrap gets what it asked for, if it gets anything. -/
theorem sizesKept_of_small (linked : Linked s bs)
    (tag : Nat) (e₁ e₂ : GrowEnv) (small : size ≤ 2 ^ 64 - 32) :
    SizesKept s size tag e₁ e₂ := by
  have word : size < 2 ^ 64 := by omega
  have needWord : poolNeed size < 2 ^ 64 := Nat.mod_lt _ (by decide)
  have handed : ∀ p t, exAllocatePoolWithTag s size tag e₁ e₂ = some (p, t) → p ≠ 0 →
      size ≤ get t.mem (payloadToNode p) .size ∧
        get t.mem (payloadToNode p) .requested = size := by
    intro p t run real
    by_cases zero : size = 0
    · rw [exAllocatePoolWithTag, if_pos zero, Option.some.injEq, Prod.mk.injEq] at run
      exact absurd run.1.symm real
    · obtain ⟨u, count, counted, _⟩ := countCall_linked linked
      rw [exAllocate_counted zero count] at run
      obtain ⟨v, n, here, fits, rfl, rfl⟩ := allocateAttempts_handed counted.words run real
      rw [payloadToNode_wrap here, takeNode_size, poolSplit_size v n needWord,
        takeNode_requested v n tag word]
      have enough := le_poolNeed small
      refine ⟨?_, rfl⟩
      split <;> omega
  refine ⟨fun p t run real => (handed p t run real).1, ?_, ?_⟩
  · intro p t run real
    obtain ⟨large, requested⟩ := handed p t run real
    rw [requested]
    exact ⟨rfl, large⟩
  · intro wide
    exact absurd (roundedRequest_lt.mpr small) (by omega)

/-- A search on behalf of a wrapped request takes any free block. -/
theorem findFit_tiny {m : Memory} {fuel : Nat}
    (layout : Layout m 0 mmKernelHeapBase bs 0) (steps : bs.length < fuel) (tiny : need ≤ 16)
    (sized : ∀ b ∈ bs, 16 ≤ b.size ∧ b.size % 16 = 0) {c : Block} (mem : c ∈ bs)
    (isFree : c.free = true) :
    ∃ pre b post, bs = pre ++ b :: post ∧
      findFit m need fuel (enter mmKernelHeapBase bs) = some (nodeAddr pre) := by
  rcases findFit_layout layout (by decide) steps with
    ⟨pre, b, post, split, _, _, found⟩ | ⟨none, _⟩
  · exact ⟨pre, b, post, split, found⟩
  · have small := none c mem isFree
    have large := (sized c mem).1
    omega

/-- The payload address of a block that ends no later than the address space is
not null. -/
theorem payload_ne_zero {pre post : List Block} {b : Block} (sized : 16 ≤ b.size)
    (top : mmKernelHeapBase + span (pre ++ b :: post) ≤ 2 ^ 64) :
    wrap64 (nodeAddr pre + poolHdr) ≠ 0 := by
  rw [span_at] at top
  have whole : wrap64 (nodeAddr pre + poolHdr) = nodeAddr pre + poolHdr :=
    Nat.mod_eq_of_lt (by omega)
  have positive := nodeAddr_ne_zero pre
  omega

/-- An attempt for a wrapped request succeeds as soon as the list has a free block. -/
theorem attempt_tiny (tag : Nat) (e : GrowEnv)
    (rest : List GrowEnv) (head : s.gHead = enter mmKernelHeapBase bs)
    (layout : Layout s.mem 0 mmKernelHeapBase bs 0)
    (top : mmKernelHeapBase + span bs ≤ 2 ^ 64)
    (sized : ∀ b ∈ bs, 16 ≤ b.size ∧ b.size % 16 = 0) (tiny : need ≤ 16) {c : Block}
    (mem : c ∈ bs) (isFree : c.free = true) :
    ∃ p t, allocateAttempts size need tag (e :: rest) s = some (p, t) ∧ p ≠ 0 := by
  have length := length_le_span bs
  have base : 0 < mmKernelHeapBase := by decide
  have steps : bs.length < walkFuel s := by
    simp only [walkFuel]
    omega
  obtain ⟨pre, b, post, rfl, found⟩ := findFit_tiny layout steps tiny sized mem isFree
  rw [← head] at found
  exact ⟨_, _, allocateAttempts_hit found (nodeAddr_ne_zero pre),
    payload_ne_zero (sized b (by simp)).1 top⟩

theorem growth_tiny_inside {e : GrowEnv}
    (window : s.gHeapEnd + 65536 ≤ 2 ^ 64) (tiny : need ≤ 16) : GrowthInside s need e := by
  have page : pageSize = 4096 := rfl
  intro k hk _
  rw [growWant_tiny tiny, page] at hk
  rw [page]
  omega

theorem growBlocks_free (pre : List Block) (b : Block) (want : Nat) :
    ∃ c ∈ growBlocks pre b want, c.free = true := by
  simp only [growBlocks]
  split
  · rename_i isFree
    exact ⟨_, List.mem_append_right _ (List.mem_singleton_self _), isFree⟩
  · exact ⟨grownBlock want, by simp, rfl⟩

/-- A 64 KiB growth leaves a free block behind, so the wrapped request is served
by it, also when the growth uses up the window. -/
theorem attempt_tiny_grown {tag : Nat} {e e' : GrowEnv}
    (linked : Linked s bs) (window : s.gHeapEnd + 65536 ≤ 2 ^ 64) (tiny : need ≤ 16)
    (missed : findFit s.mem need (walkFuel s) s.gHead = some 0)
    (pages : ∀ k, k < 16 → e.commit k = true) :
    ∃ p t, allocateAttempts size need tag [e, e'] s = some (p, t) ∧ p ≠ 0 := by
  obtain ⟨pre, b, rfl⟩ := (List.eq_nil_or_concat' bs).resolve_left linked.nonempty
  have inside : GrowthInside s need e := growth_tiny_inside window tiny
  have grew : (poolGrow s need e).1 = true := by
    rw [poolGrow_true, growWant_tiny tiny]
    exact pages
  have grown := linked.keepMem (fun c h => grow_below inside h)
  rw [allocateAttempts_miss missed, if_pos grew, poolGrow_snd s need e grew, growWant_tiny tiny]
  rw [growWant_tiny tiny] at grown
  generalize (commitPages e s.gHeapEnd 0 (65536 / pageSize) s.mem).2 = m at grown ⊢
  obtain ⟨head, _, layout⟩ := growCommitted_layout grown window (by decide)
  obtain ⟨c, mem, isFree⟩ := growBlocks_free pre b 65536
  have bottom := linked.heapEnd
  rw [span_at, span_nil, Nat.add_zero] at bottom
  refine attempt_tiny tag e' [] ?_ layout ?_
    (growBlocks_sized linked.sized (by decide) (by decide)) tiny mem isFree
  · rw [head, enter, if_neg (List.ne_nil_of_mem mem)]
  · rw [growBlocks_extent pre b (by decide), ← bottom]
    exact window

theorem missed_of_used (linked : Linked s bs) (need : Nat)
    (used : ∀ b ∈ bs, b.free = false) : findFit s.mem need (walkFuel s) s.gHead = some 0 := by
  rcases linked.search need with ⟨pre, b, post, rfl, isFree, _, _⟩ | ⟨_, missed⟩
  · have := used b (by simp)
    rw [isFree] at this
    exact absurd this (by simp)
  · exact missed

/-- The allocator meets its size contract exactly for the requests that still
fit 64 bits when rounded, and, for the others, when it has nothing to hand out:
no free block, and a page of the 64 KiB growth that cannot be had. -/
theorem sizes_kept_iff {s : PoolState} {bs : List Block} {size tag : Nat} {e₁ e₂ : GrowEnv}
    (linked : Linked s bs) (chunked : s.gHeapEnd % poolGrowChunk = 0) (word : size < 2 ^ 64) :
    SizesKept s size tag e₁ e₂ ↔
      size ≤ 2 ^ 64 - 32 ∨
        ((∀ b ∈ bs, b.free = false) ∧ ∃ k, k < 16 ∧ e₁.commit k = false) := by
  have chunk : poolGrowChunk = 65536 := rfl
  rw [chunk] at chunked
  by_cases small : size ≤ 2 ^ 64 - 32
  · exact ⟨fun _ => Or.inl small, fun _ => sizesKept_of_small linked tag e₁ e₂ small⟩
  obtain ⟨u, count, counted, stop⟩ := countCall_linked linked
  have zero : size ≠ 0 := by omega
  have tiny := poolNeed_wraps word (by omega)
  have window : u.gHeapEnd + 65536 ≤ 2 ^ 64 := by
    have := linked.words.heapEnd
    omega
  have wide : 2 ^ 64 ≤ roundedRequest size := by
    have wraps : ¬ roundedRequest size < 2 ^ 64 := fun h => small (roundedRequest_lt.mp h)
    omega
  have run : exAllocatePoolWithTag s size tag e₁ e₂ =
      allocateAttempts size (poolNeed size) tag [e₁, e₂] u := exAllocate_counted zero count
  constructor
  · intro kept
    obtain ⟨t, null⟩ := kept.refused wide
    rw [run] at null
    have served : ¬ ∃ p t, allocateAttempts size (poolNeed size) tag [e₁, e₂] u = some (p, t) ∧
        p ≠ 0 := by
      rintro ⟨p, t', other, real⟩
      rw [null, Option.some.injEq, Prod.mk.injEq] at other
      exact real other.1.symm
    have used : ∀ b ∈ bs, b.free = false := by
      intro b mem
      by_contra notUsed
      exact served (attempt_tiny tag e₁ [e₂] counted.enter_eq counted.layout
        (Nat.le_of_lt counted.window) counted.sized tiny mem (by simpa using notUsed))
    refine Or.inr ⟨used, ?_⟩
    by_contra all
    push Not at all
    exact served (attempt_tiny_grown counted window tiny (missed_of_used counted _ used)
      (fun k hk => by simpa using all k hk))
  · rintro (fits | ⟨used, k, hk, refused⟩)
    · exact absurd fits small
    · have failed : (poolGrow u (poolNeed size) e₁).1 = false := by
        by_contra grew
        have grew := poolGrow_true.mp (by simpa using grew)
        rw [growWant_tiny tiny] at grew
        have granted := grew k hk
        rw [refused] at granted
        exact absurd granted (by simp)
      have null : exAllocatePoolWithTag s size tag e₁ e₂ =
          some (0, (poolGrow u (poolNeed size) e₁).2) := by
        rw [run, allocateAttempts_miss (missed_of_used counted _ used), failed]
        rfl
      refine ⟨?_, ?_, fun _ => ⟨_, null⟩⟩
      · intro p t other real
        rw [null, Option.some.injEq, Prod.mk.injEq] at other
        exact absurd other.1.symm real
      · intro p t other real
        rw [null, Option.some.injEq, Prod.mk.injEq] at other
        exact absurd other.1.symm real

/-- The fresh arena at boot meets the contract for a request of 24 bytes. -/
theorem sizes_kept_boot : ∃ s, exInitializePool bootPool fullCommit = some s ∧
    SizesKept s 24 0 fullCommit fullCommit := by
  obtain ⟨h, started, boot⟩ := boot_starts
  have arena := (started_search started 40 (by decide)).1
  have chunked : h.pool.gHeapEnd % poolGrowChunk = 0 := by
    rw [arena.heapEnd]
    decide
  exact ⟨h.pool, boot, (sizes_kept_iff arena.toLinked chunked (by decide)).mpr (Or.inl (by decide))⟩

/-- Asked for the largest size there is, the fresh arena hands out sixteen bytes. -/
theorem largest_size_served : ∃ s p t, exInitializePool bootPool fullCommit = some s ∧
    exAllocatePoolWithTag s (2 ^ 64 - 1) 0 fullCommit fullCommit = some (p, t) ∧ p ≠ 0 ∧
      get t.mem (payloadToNode p) .size = 16 ∧
      ¬ SizesKept s (2 ^ 64 - 1) 0 fullCommit fullCommit := by
  obtain ⟨h, started, boot⟩ := boot_starts
  have arena := (started_search started 16 (by decide)).1
  have need : poolNeed (2 ^ 64 - 1) = 16 := by decide
  obtain ⟨u, count, counted, _⟩ := countCall_linked arena.toLinked
  obtain ⟨pre, b, post, split, found⟩ := findFit_tiny counted.layout counted.walkFuel_gt
    (Nat.le_refl 16) counted.sized (List.mem_singleton_self _) rfl
  rw [← counted.enter_eq] at found
  have only : b = grownBlock 65536 := by
    have mem : b ∈ [grownBlock 65536] := by
      rw [split]
      simp
    exact List.mem_singleton.mp mem
  rw [split] at counted
  have size : get u.mem (nodeAddr pre) .size = 65488 := by
    rw [counted.node.size_eq, only]
    rfl
  have bounds := counted.bounds
  have real := payload_ne_zero (counted.sized b (by simp)).1 (Nat.le_of_lt counted.window)
  have handed : get (takeNode u (nodeAddr pre) (2 ^ 64 - 1) 16 0).mem (nodeAddr pre) .size = 16 := by
    rw [takeNode_size, poolSplit_size u _ (by decide), size]
    rfl
  have run : exAllocatePoolWithTag h.pool (2 ^ 64 - 1) 0 fullCommit fullCommit =
      some (wrap64 (nodeAddr pre + poolHdr), takeNode u (nodeAddr pre) (2 ^ 64 - 1) 16 0) := by
    rw [exAllocate_counted (by decide) count, need]
    exact allocateAttempts_hit found (nodeAddr_ne_zero pre)
  have node := payloadToNode_wrap (show nodeAddr pre < 2 ^ 64 by omega)
  refine ⟨h.pool, _, _, boot, run, real, ?_, ?_⟩
  · rw [node, handed]
  · intro kept
    have large := kept.large _ _ run real
    rw [node, handed] at large
    exact absurd large (by decide)

end Pool
