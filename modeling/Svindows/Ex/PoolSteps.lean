import Svindows.Ex.PoolLayout

/-!
# What each pool operation does to the block list

`Linked s bs` ties the allocator's globals to a block list laid out over the
whole arena. Each primitive is an edit of that list at one place: growth acts
on its last block, a split and a merge act on one block or two neighbours.
-/

namespace Pool

open ByteMemory Nt

structure Linked (s : PoolState) (bs : List Block) : Prop where
  nonempty : bs ≠ []
  head : s.gHead = mmKernelHeapBase
  tail : s.gTail = lastNode 0 mmKernelHeapBase bs
  heapEnd : s.gHeapEnd = mmKernelHeapBase + span bs
  window : mmKernelHeapBase + span bs < 2 ^ 64
  layout : Layout s.mem 0 mmKernelHeapBase bs 0
  sized : ∀ b ∈ bs, 16 ≤ b.size ∧ b.size % 16 = 0

/-- Address of the block that follows the run `bs`. -/
def nodeAddr (bs : List Block) : Nat := mmKernelHeapBase + span bs

theorem nodeAddr_ne_zero (bs : List Block) : nodeAddr bs ≠ 0 := by
  simp only [nodeAddr, mmKernelHeapBase]
  omega

variable {b : Block} {m : Memory} {post pre : List Block} {next prev n need : Nat} {s : PoolState}
  {e : GrowEnv}

/-- The layout read at one block: everything below it, its header, everything above. -/
theorem layout_at : Layout m 0 mmKernelHeapBase (pre ++ b :: post) 0 ↔
      Layout m 0 mmKernelHeapBase pre (nodeAddr pre) ∧
        NodeAt m (nodeAddr pre) (lastNode 0 mmKernelHeapBase pre)
          (if post = [] then 0 else nodeAddr pre + poolHdr + b.size) b ∧
        Layout m (nodeAddr pre) (nodeAddr pre + poolHdr + b.size) post 0 := by
  rw [layout_append]
  simp only [List.cons_ne_nil, if_false, Layout, nodeAddr]

theorem span_at (pre post : List Block) (b : Block) :
    mmKernelHeapBase + span (pre ++ b :: post) =
      nodeAddr pre + poolHdr + b.size + span post := by
  simp only [span_append, span_cons, nodeAddr]
  omega

theorem nodeAddr_concat (pre : List Block) (b : Block) :
    nodeAddr (pre ++ [b]) = nodeAddr pre + poolHdr + b.size := by
  simp only [nodeAddr, span_append, span_cons, span_nil]
  omega

/-- Redirect the backward link of a run that may be empty. -/
theorem Layout.relink {a q : Nat} {bs : List Block}
    (layout : Layout m prev a bs next) (word : q < 2 ^ 64) :
    Layout (if bs = [] then m else put m a .prev q) q a bs next := by
  cases bs with
  | nil => trivial
  | cons b bs =>
    simp only [List.cons_ne_nil, if_false]
    exact layout.setPrev word

theorem lastNode_cons_ne {a : Nat} {bs : List Block} (h : bs ≠ []) (p : Nat) :
    lastNode prev a (b :: bs) = lastNode p (a + poolHdr + b.size) bs := by
  cases bs with
  | nil => exact absurd rfl h
  | cons c cs => rfl

/-- The tail address seen from a block in the middle. -/
theorem lastNode_at (pre post : List Block) (b : Block) (p : Nat) :
    lastNode 0 mmKernelHeapBase (pre ++ b :: post) =
      if post = [] then nodeAddr pre else lastNode p (nodeAddr pre + poolHdr + b.size) post := by
  rw [lastNode_append]
  by_cases h : post = []
  · subst h
    simp [lastNode, nodeAddr]
  · rw [if_neg h]
    exact lastNode_cons_ne h p

/-- The writes of `pool_grow` and `pool_split` leave a complete free header. -/
theorem writeFreeNode_nodeAt (m : Memory) (n size prev next : Nat)
    (hs : size < 2 ^ 64) (hp : prev < 2 ^ 64) (hn : next < 2 ^ 64) :
    NodeAt (put (writeFreeNode m n size prev) n .next next) n prev next ⟨size, 0, true⟩ where
  prev_eq := by
    rw [get_put_field (by decide)]
    exact get_put_same hp
  next_eq := get_put_same hn
  size_eq := by
    simp only [writeFreeNode]
    rw [get_put_field (by decide), get_put_field (by decide), get_put_field (by decide),
      get_put_field (by decide), get_put_field (by decide), get_put_field (by decide),
      get_put_field (by decide)]
    exact get_put_same hs
  requested_eq := by
    simp only [writeFreeNode]
    rw [get_put_field (by decide), get_put_field (by decide), get_put_field (by decide),
      get_put_field (by decide), get_put_field (by decide), get_put_field (by decide)]
    exact get_put_same (by decide)
  free_eq := by
    simp only [writeFreeNode]
    rw [get_put_field (by decide), get_put_field (by decide), get_put_field (by decide),
      get_put_field (by decide), get_put_field (by decide)]
    exact get_put_same (by decide)
  magic_eq := by
    simp only [writeFreeNode]
    rw [get_put_field (by decide), get_put_field (by decide), get_put_field (by decide)]
    exact get_put_same (by decide)
  guard := fun used => by simp at used

theorem useNode_get {size tag : Nat} {f : NodeField} : get (useNode m n size tag) n f =
      get (put (put (put m n .free 0) n .tag tag) n .requested size) n f := by
  simp only [useNode, poolArmGuard]
  exact get_fill (by omega)

theorem useNode_outside {size tag c : Nat}
    (node : NodeAt m n prev next b) (hr : size < 2 ^ 64) (fits : size ≤ b.size)
    (h : c < n ∨ n + poolHdr + b.size ≤ c) : useNode m n size tag c = m c := by
  have hsize : get (put (put (put m n .free 0) n .tag tag) n .requested size) n .size = b.size := by
    rw [get_put_field (by decide), get_put_field (by decide), get_put_field (by decide)]
    exact node.size_eq
  have hreq : get (put (put (put m n .free 0) n .tag tag) n .requested size) n .requested = size :=
    get_put_same hr
  simp only [useNode, poolArmGuard, hsize, hreq]
  rw [fill_outside (by omega), put_outside (by omega), put_outside (by omega),
    put_outside (by omega)]

theorem NodeAt.use {size tag : Nat} (node : NodeAt m n prev next b) (hr : size < 2 ^ 64) :
    NodeAt (useNode m n size tag) n prev next ⟨b.size, size, false⟩ where
  prev_eq := by
    rw [useNode_get, get_put_field (by decide), get_put_field (by decide),
      get_put_field (by decide)]
    exact node.prev_eq
  next_eq := by
    rw [useNode_get, get_put_field (by decide), get_put_field (by decide),
      get_put_field (by decide)]
    exact node.next_eq
  size_eq := by
    rw [useNode_get, get_put_field (by decide), get_put_field (by decide),
      get_put_field (by decide)]
    exact node.size_eq
  requested_eq := by
    rw [useNode_get]
    exact get_put_same hr
  free_eq := by
    rw [useNode_get, get_put_field (by decide), get_put_field (by decide)]
    exact get_put_same (by decide)
  magic_eq := by
    rw [useNode_get, get_put_field (by decide), get_put_field (by decide),
      get_put_field (by decide)]
    exact node.magic_eq
  guard := by
    intro _ c lo hi
    have hsize :
        get (put (put (put m n .free 0) n .tag tag) n .requested size) n .size = b.size := by
      rw [get_put_field (by decide), get_put_field (by decide), get_put_field (by decide)]
      exact node.size_eq
    have hreq :
        get (put (put (put m n .free 0) n .tag tag) n .requested size) n .requested = size :=
      get_put_same hr
    simp only at lo hi
    simp only [useNode, poolArmGuard, hsize, hreq]
    exact fill_inside lo (by omega)

theorem NodeAt.release (node : NodeAt m n prev next b) :
    NodeAt (releaseNode m n) n prev next ⟨b.size, 0, true⟩ where
  prev_eq := by
    simp only [releaseNode]
    rw [get_put_field (by decide), get_put_field (by decide), get_put_field (by decide)]
    exact node.prev_eq
  next_eq := by
    simp only [releaseNode]
    rw [get_put_field (by decide), get_put_field (by decide), get_put_field (by decide)]
    exact node.next_eq
  size_eq := by
    simp only [releaseNode]
    rw [get_put_field (by decide), get_put_field (by decide), get_put_field (by decide)]
    exact node.size_eq
  requested_eq := get_put_same (by decide)
  free_eq := by
    simp only [releaseNode]
    rw [get_put_field (by decide), get_put_field (by decide)]
    exact get_put_same (by decide)
  magic_eq := by
    simp only [releaseNode]
    rw [get_put_field (by decide), get_put_field (by decide), get_put_field (by decide)]
    exact node.magic_eq
  guard := fun used => by simp at used

theorem releaseNode_outside {c : Nat} (h : c < n ∨ n + poolHdr ≤ c) : releaseNode m n c = m c := by
  simp only [releaseNode, put_outside h]

/-- Replacing one block in place, with the same size and unchanged links. -/
theorem Linked.replace {b' : Block} (linked : Linked s (pre ++ b :: post)) (same : b'.size = b.size)
    (node : NodeAt m (nodeAddr pre) (lastNode 0 mmKernelHeapBase pre)
      (if post = [] then 0 else nodeAddr pre + poolHdr + b.size) b')
    (outside : ∀ c, c < nodeAddr pre ∨ nodeAddr pre + poolHdr + b.size ≤ c → m c = s.mem c) :
    Linked { s with mem := m } (pre ++ b' :: post) := by
  have extent := span_at pre post b
  have extent' := span_at pre post b'
  obtain ⟨front, _, back⟩ := layout_at.mp linked.layout
  refine ⟨by simp, linked.head, ?_, ?_, ?_, layout_at.mpr ⟨?_, ?_, ?_⟩, ?_⟩
  · rw [linked.tail, lastNode_at pre post b 0, lastNode_at pre post b' 0, same]
  · rw [linked.heapEnd, extent, extent', same]
  · have := linked.window
    rw [extent', same]
    omega
  · refine front.frame ?_
    intro c lo hi
    exact outside c (Or.inl hi)
  · rw [same]
    exact node
  · rw [same]
    refine back.frame ?_
    intro c lo hi
    exact outside c (Or.inr lo)
  · intro x hx
    rcases List.mem_append.mp hx with hx | hx
    · exact linked.sized x (List.mem_append_left _ hx)
    · rcases List.mem_cons.mp hx with rfl | hx
      · rw [same]
        exact linked.sized b (by simp)
      · exact linked.sized x (by simp [hx])

theorem Linked.node (linked : Linked s (pre ++ b :: post)) :
    NodeAt s.mem (nodeAddr pre) (lastNode 0 mmKernelHeapBase pre)
      (if post = [] then 0 else nodeAddr pre + poolHdr + b.size) b :=
  (layout_at.mp linked.layout).2.1

theorem Linked.use
    (linked : Linked s (pre ++ b :: post)) (size tag : Nat) (hr : size < 2 ^ 64) (fits : size ≤ b.size) :
    Linked { s with mem := useNode s.mem (nodeAddr pre) size tag }
      (pre ++ ⟨b.size, size, false⟩ :: post) :=
  linked.replace rfl (linked.node.use hr)
    (fun _ h => useNode_outside linked.node hr fits h)

theorem Linked.release (linked : Linked s (pre ++ b :: post)) :
    Linked { s with mem := releaseNode s.mem (nodeAddr pre) }
      (pre ++ ⟨b.size, 0, true⟩ :: post) :=
  linked.replace rfl linked.node.release (fun _ h => releaseNode_outside (by omega))

/-- The link fields of a node address some place of the window or are null. -/
theorem Linked.bounds (linked : Linked s (pre ++ b :: post)) :
    nodeAddr pre + poolHdr + b.size + span post < 2 ^ 64 := by
  have := linked.window
  rw [span_at] at this
  exact this

/-- The test `if (after)` is the question whether a block follows. -/
theorem redirect_eq (m : Memory) (post : List Block) (a q : Nat) (h : a ≠ 0) :
    (if (if post = [] then 0 else a) ≠ 0 then
      put m (if post = [] then 0 else a) .prev q else m) =
      if post = [] then m else put m a .prev q := by
  by_cases hp : post = [] <;> simp [hp, h]

theorem tail_eq (post : List Block) (a t q : Nat) (h : a ≠ 0) :
    (if (if post = [] then 0 else a) ≠ 0 then t else q) = if post = [] then q else t := by
  by_cases hp : post = [] <;> simp [hp, h]

/-- A split writes a free node behind what it keeps of the block and links it in. -/
theorem poolSplit_layout (linked : Linked s (pre ++ b :: post)) (isFree : b.free = true)
    (room : need + poolHdr + poolMinPayload ≤ b.size) :
    ∃ m, poolSplit s (nodeAddr pre) need =
        { s with
          mem := m
          gTail := if post = [] then nodeAddr pre + poolHdr + need else s.gTail } ∧
      Layout m 0 mmKernelHeapBase
        (pre ++ { b with size := need } :: ⟨b.size - need - poolHdr, 0, true⟩ :: post) 0 := by
  have bounds := linked.bounds
  obtain ⟨front, node, back⟩ := layout_at.mp linked.layout
  have positive := nodeAddr_ne_zero pre
  have hdr : poolHdr = 48 := rfl
  have least : poolMinPayload = 16 := rfl
  have hrest : wrap64 (nodeAddr pre + poolHdr + need) = nodeAddr pre + poolHdr + need :=
    Nat.mod_eq_of_lt (by omega)
  have hleft : wrap64 (get s.mem (nodeAddr pre) .size + (2 ^ 64 - need) + (2 ^ 64 - poolHdr)) =
      b.size - need - poolHdr := by
    rw [node.size_eq]
    simp only [wrap64]
    omega
  have hguard : ¬ get s.mem (nodeAddr pre) .size < wrap64 (need + poolHdr + poolMinPayload) := by
    rw [node.size_eq]
    simp only [wrap64]
    omega
  simp only [poolSplit]
  rw [if_neg hguard, hrest, hleft]
  -- the new header sits inside the payload of the old free block
  have hnext : get (writeFreeNode s.mem (nodeAddr pre + poolHdr + need)
      (b.size - need - poolHdr) (nodeAddr pre)) (nodeAddr pre) .next =
      (if post = [] then 0 else nodeAddr pre + poolHdr + b.size) := by
    rw [get_congr .next (fun c lo hi => writeFreeNode_outside (by omega)), node.next_eq]
  rw [hnext]
  have nextWord : (if post = [] then 0 else nodeAddr pre + poolHdr + b.size) < 2 ^ 64 := by
    split
    · decide
    · omega
  have fresh := writeFreeNode_nodeAt s.mem (nodeAddr pre + poolHdr + need)
    (b.size - need - poolHdr) (nodeAddr pre)
    (if post = [] then 0 else nodeAddr pre + poolHdr + b.size)
    (by omega) (by omega) nextWord
  rw [fresh.next_eq]
  have outside : ∀ c, c < nodeAddr pre + poolHdr + need ∨ nodeAddr pre + poolHdr + b.size ≤ c →
      put (writeFreeNode s.mem (nodeAddr pre + poolHdr + need) (b.size - need - poolHdr)
        (nodeAddr pre)) (nodeAddr pre + poolHdr + need) .next
        (if post = [] then 0 else nodeAddr pre + poolHdr + b.size) c = s.mem c := by
    intro c h
    have clear : c < nodeAddr pre + poolHdr + need ∨ nodeAddr pre + poolHdr + need + poolHdr ≤ c := by
      omega
    rw [put_outside clear, writeFreeNode_outside clear]
  generalize hm : put (writeFreeNode s.mem (nodeAddr pre + poolHdr + need)
    (b.size - need - poolHdr) (nodeAddr pre)) (nodeAddr pre + poolHdr + need) .next
    (if post = [] then 0 else nodeAddr pre + poolHdr + b.size) = m at fresh outside
  rw [redirect_eq m post (nodeAddr pre + poolHdr + b.size) _ (by omega),
    tail_eq post (nodeAddr pre + poolHdr + b.size) _ _ (by omega)]
  -- then the block above is linked back to it, and the old header forward
  have back' := (back.frame (k := m) (fun c lo hi => outside c (Or.inr lo))).relink
    (q := nodeAddr pre + poolHdr + need) (by omega)
  have redirected : ∀ c, c < nodeAddr pre + poolHdr + b.size →
      (if post = [] then m else
        put m (nodeAddr pre + poolHdr + b.size) .prev (nodeAddr pre + poolHdr + need)) c = m c := by
    intro c h
    split
    · rfl
    · exact put_outside (Or.inl h)
  generalize (if post = [] then m else
    put m (nodeAddr pre + poolHdr + b.size) .prev (nodeAddr pre + poolHdr + need)) = m'
    at back' redirected
  have old : NodeAt m' (nodeAddr pre) (lastNode 0 mmKernelHeapBase pre)
      (if post = [] then 0 else nodeAddr pre + poolHdr + b.size) b := by
    refine node.frame ?_ (fun used => by simp [isFree] at used)
    intro c lo hi
    rw [redirected c (by omega)]
    exact outside c (Or.inl (by omega))
  have shrunk := (old.setNext (q := nodeAddr pre + poolHdr + need) (by omega)).setSize isFree
    (q := need) (by omega)
  have clear : ∀ c, c < nodeAddr pre ∨ nodeAddr pre + poolHdr ≤ c →
      put (put m' (nodeAddr pre) .next (nodeAddr pre + poolHdr + need)) (nodeAddr pre) .size need c
        = m' c := by
    intro c h
    rw [put_outside h, put_outside h]
  have extent : nodeAddr pre + poolHdr + need + poolHdr + (b.size - need - poolHdr) =
      nodeAddr pre + poolHdr + b.size := by
    omega
  refine ⟨_, rfl, layout_at.mpr ⟨?_, ?_, ?_, ?_⟩⟩
  · refine front.frame ?_
    intro c lo hi
    have below : c < nodeAddr pre := hi
    exact ((clear c (Or.inl below)).trans (redirected c (by omega))).trans
      (outside c (Or.inl (by omega)))
  · simpa using shrunk
  · dsimp only
    rw [extent]
    refine fresh.frame ?_ (fun used => by simp at used)
    intro c lo hi
    exact (clear c (Or.inr (by omega))).trans (redirected c (by omega))
  · rw [extent]
    refine back'.frame ?_
    intro c lo hi
    exact clear c (Or.inr (by omega))

theorem poolSplit_linked (linked : Linked s (pre ++ b :: post)) (isFree : b.free = true)
    (room : need + poolHdr + poolMinPayload ≤ b.size) (enough : 16 ≤ need)
    (aligned : need % 16 = 0) :
    Linked (poolSplit s (nodeAddr pre) need)
      (pre ++ { b with size := need } :: ⟨b.size - need - poolHdr, 0, true⟩ :: post) := by
  have bounds := linked.bounds
  have hsize := linked.sized b (by simp)
  have hdr : poolHdr = 48 := rfl
  have least : poolMinPayload = 16 := rfl
  have extent : nodeAddr pre + poolHdr + need + poolHdr + (b.size - need - poolHdr) =
      nodeAddr pre + poolHdr + b.size := by
    omega
  obtain ⟨m, split, layout⟩ := poolSplit_layout linked isFree room
  rw [split]
  refine ⟨by simp, linked.head, ?_, ?_, ?_, layout, ?_⟩
  · rw [lastNode_at _ _ _ 0, if_neg (List.cons_ne_nil _ _), linked.tail, lastNode_at pre post b
      (nodeAddr pre + poolHdr + need)]
    by_cases h : post = []
    · simp [h, lastNode]
    · simp only [h, if_false, lastNode, extent]
  · rw [linked.heapEnd, span_at, span_at, span_cons]
    dsimp only
    omega
  · rw [span_at, span_cons]
    dsimp only
    omega
  · intro x hx
    simp only [List.mem_append, List.mem_cons] at hx
    rcases hx with hx | rfl | rfl | hx
    · exact linked.sized x (by simp [hx])
    · exact ⟨enough, aligned⟩
    · dsimp only
      omega
    · exact linked.sized x (by simp [hx])

/-- Two neighbours become one block; the lower one must be free. -/
theorem mergeNodes_linked {c : Block}
    (linked : Linked s (pre ++ b :: c :: post)) (isFree : b.free = true) :
    Linked (mergeNodes s (nodeAddr pre) (nodeAddr pre + poolHdr + b.size))
      (pre ++ { b with size := b.size + poolHdr + c.size } :: post) := by
  have hdr : poolHdr = 48 := rfl
  have bounds := linked.bounds
  simp only [span_cons] at bounds
  have positive := nodeAddr_ne_zero pre
  have hb := linked.sized b (by simp)
  have hc := linked.sized c (by simp)
  obtain ⟨front, node, upper, back⟩ := layout_at.mp linked.layout
  simp only [List.cons_ne_nil, if_false] at node
  have hsum : wrap64 (get s.mem (nodeAddr pre) .size + poolHdr +
      get s.mem (nodeAddr pre + poolHdr + b.size) .size) = b.size + poolHdr + c.size := by
    rw [node.size_eq, upper.size_eq]
    exact Nat.mod_eq_of_lt (by omega)
  have hafter : get (put s.mem (nodeAddr pre) .size (b.size + poolHdr + c.size))
      (nodeAddr pre + poolHdr + b.size) .next =
      if post = [] then 0 else nodeAddr pre + poolHdr + b.size + poolHdr + c.size := by
    rw [get_put_node (by omega), upper.next_eq]
  have whole : nodeAddr pre + poolHdr + b.size + poolHdr + c.size =
      nodeAddr pre + poolHdr + (b.size + poolHdr + c.size) := by omega
  have grown := (node.setSize isFree (q := b.size + poolHdr + c.size) (by omega)).setNext
    (q := if post = [] then 0 else nodeAddr pre + poolHdr + b.size + poolHdr + c.size)
    (by split <;> omega)
  have clear : ∀ x, x < nodeAddr pre ∨ nodeAddr pre + poolHdr ≤ x →
      put (put s.mem (nodeAddr pre) .size (b.size + poolHdr + c.size)) (nodeAddr pre) .next
        (if post = [] then 0 else nodeAddr pre + poolHdr + b.size + poolHdr + c.size) x
        = s.mem x := by
    intro x h
    rw [put_outside h, put_outside h]
  simp only [mergeNodes]
  rw [hsum, hafter]
  generalize put (put s.mem (nodeAddr pre) .size (b.size + poolHdr + c.size)) (nodeAddr pre) .next
    (if post = [] then 0 else nodeAddr pre + poolHdr + b.size + poolHdr + c.size) = m
    at grown clear ⊢
  have back' := (back.frame (k := m) (fun x lo hi => clear x (Or.inr (by omega)))).relink
    (q := nodeAddr pre) (by omega)
  have redirected : ∀ x, x < nodeAddr pre + poolHdr + b.size + poolHdr + c.size →
      (if post = [] then m else
        put m (nodeAddr pre + poolHdr + b.size + poolHdr + c.size) .prev (nodeAddr pre)) x
        = m x := by
    intro x h
    split
    · rfl
    · exact put_outside (Or.inl h)
  -- both outcomes of the test on `after` are one state
  have state : (if (if post = [] then 0 else
        nodeAddr pre + poolHdr + b.size + poolHdr + c.size) ≠ 0 then
      { s with mem := put m (if post = [] then 0 else
        nodeAddr pre + poolHdr + b.size + poolHdr + c.size) .prev (nodeAddr pre) }
      else { s with mem := m, gTail := nodeAddr pre }) =
      { s with
        mem := if post = [] then m else
          put m (nodeAddr pre + poolHdr + b.size + poolHdr + c.size) .prev (nodeAddr pre)
        gTail := if post = [] then nodeAddr pre else s.gTail } := by
    by_cases h : post = []
    · simp [h]
    · have : nodeAddr pre + poolHdr + b.size + poolHdr + c.size ≠ 0 := by omega
      simp only [h, if_false]
      rw [if_pos this]
  rw [state]
  refine ⟨by simp, linked.head, ?_, ?_, ?_, layout_at.mpr ⟨?_, ?_, ?_⟩, ?_⟩
  · rw [lastNode_at pre post _ (nodeAddr pre), linked.tail, lastNode_at pre _ b 0,
      if_neg (List.cons_ne_nil _ _)]
    by_cases h : post = []
    · simp [h]
    · simp only [h, if_false]
      rw [lastNode_cons_ne h (nodeAddr pre), whole]
  · rw [linked.heapEnd, span_at, span_at, span_cons]
    dsimp only
    omega
  · rw [span_at]
    dsimp only
    omega
  · refine front.frame ?_
    intro x lo hi
    have below : x < nodeAddr pre := hi
    exact (redirected x (by omega)).trans (clear x (Or.inl below))
  · refine NodeAt.frame (m := m) ?_ ?_ (fun used => by simp [isFree] at used)
    · dsimp only
      rw [← whole]
      exact grown
    · intro x lo hi
      exact redirected x (by omega)
  · dsimp only
    rw [← whole]
    exact back'
  · intro x hx
    simp only [List.mem_append, List.mem_cons] at hx
    rcases hx with hx | rfl | hx
    · exact linked.sized x (by simp [hx])
    · dsimp only
      omega
    · exact linked.sized x (by simp [hx])

/-- The commit loop touches only the pages it walks over. -/
theorem commitPages_outside (e : GrowEnv) (start : Nat) {i left : Nat} {m : Memory} {c : Nat}
    (inside : ∀ k, i ≤ k → k < i + left → (∀ j, i ≤ j → j ≤ k → e.commit j = true) →
      start + (k + 1) * pageSize ≤ 2 ^ 64)
    (h : c < start) : (commitPages e start i left m).2 c = m c := by
  induction left generalizing i m with
  | zero => rfl
  | succ left ih =>
    simp only [commitPages]
    by_cases hc : e.commit i = true
    · rw [if_pos hc]
      have page := inside i (le_refl i) (by omega) (fun j lo hi => by
        have : j = i := by omega
        rw [this]
        exact hc)
      have here : wrap64 (start + i * pageSize) = start + i * pageSize := by
        refine Nat.mod_eq_of_lt ?_
        simp only [pageSize] at page ⊢
        omega
      rw [ih, here, overlay_outside (by omega)]
      intro k lo hi run
      refine inside k (by omega) (by omega) (fun j hj hjk => ?_)
      by_cases hji : j = i
      · rw [hji]
        exact hc
      · exact run j (by omega) hjk
    · rw [if_neg hc]

theorem commitPages_fst (e : GrowEnv) (start i left : Nat) (m : Memory) :
    (commitPages e start i left m).1 = true ↔ ∀ k, i ≤ k → k < i + left → e.commit k = true := by
  induction left generalizing i m with
  | zero =>
    simp only [commitPages, true_iff]
    intro k lo hi
    omega
  | succ left ih =>
    simp only [commitPages]
    by_cases hc : e.commit i = true
    · rw [if_pos hc, ih]
      constructor
      · intro h k lo hi
        by_cases hk : k = i
        · rw [hk]
          exact hc
        · exact h k (by omega) (by omega)
      · intro h k lo hi
        exact h k (by omega) (by omega)
    · rw [if_neg hc]
      constructor
      · intro h
        exact absurd h (by simp)
      · intro h
        exact absurd (h i (le_refl i) (by omega)) hc

/-- No page a growth commits lies past the end of the window. -/
def GrowthInside (s : PoolState) (need : Nat) (e : GrowEnv) : Prop :=
  ∀ k, k < growWant need / pageSize → (∀ j, j ≤ k → e.commit j = true) →
    s.gHeapEnd + (k + 1) * pageSize ≤ 2 ^ 64

/-- A growth that commits every page leaves the window's last byte unused, so
that the arena's end is still an address. -/
def GrowthBelowTop (s : PoolState) (need : Nat) (e : GrowEnv) : Prop :=
  (∀ k, k < growWant need / pageSize → e.commit k = true) →
    s.gHeapEnd + growWant need ≠ 2 ^ 64

/-- The payload sizes a growth can be asked for without wrapping. -/
def GrowableNeed (need : Nat) : Prop := need + poolHdr + poolGrowChunk ≤ 2 ^ 64

theorem growWant_bounds (h : GrowableNeed need) :
    need + poolHdr ≤ growWant need ∧ growWant need < 2 ^ 64 ∧ growWant need % 65536 = 0 ∧
      growWant need / pageSize * pageSize = growWant need := by
  have hdr : poolHdr = 48 := rfl
  have chunk : poolGrowChunk = 65536 := rfl
  have page : pageSize = 4096 := rfl
  simp only [GrowableNeed] at h
  have first : (need + poolHdr) % 2 ^ 64 = need + poolHdr := Nat.mod_eq_of_lt (by omega)
  simp only [growWant, alignUpBy, alignDownBy, wrap64, first, chunk, page]
  omega

/-- What a growth leaves of the memory below the old end. -/
theorem grow_below (inside : GrowthInside s need e) {c : Nat} (h : c < s.gHeapEnd) :
    (commitPages e s.gHeapEnd 0 (growWant need / pageSize) s.mem).2 c = s.mem c := by
  refine commitPages_outside e s.gHeapEnd ?_ h
  intro k _ hk run
  exact inside k (by omega) (fun j hj => run j (Nat.zero_le j) hj)

theorem grow_end (inside : GrowthInside s need e)
    (below : GrowthBelowTop s need e) (possible : GrowableNeed need)
    (all : ∀ k, k < growWant need / pageSize → e.commit k = true) :
    s.gHeapEnd + growWant need < 2 ^ 64 := by
  obtain ⟨least, _, _, pages⟩ := growWant_bounds possible
  have hdr : poolHdr = 48 := rfl
  have page : pageSize = 4096 := rfl
  have some : 0 < growWant need / pageSize := by
    rw [page] at pages ⊢
    omega
  have last := inside (growWant need / pageSize - 1) (by omega)
    (fun j hj => all j (by omega))
  have top := below all
  have step : growWant need / pageSize - 1 + 1 = growWant need / pageSize := by omega
  rw [step, pages] at last
  omega

theorem poolGrow_fst (s : PoolState) (need : Nat) (e : GrowEnv) :
    (poolGrow s need e).1 =
      (commitPages e s.gHeapEnd 0 (growWant need / pageSize) s.mem).1 := by
  simp only [poolGrow]
  split
  · rename_i h
    exact h.symm
  · rename_i h
    exact (by simpa using h : _ = false).symm

theorem poolGrow_snd (s : PoolState) (need : Nat) (e : GrowEnv) (ok : (poolGrow s need e).1 = true) :
    (poolGrow s need e).2 = growCommitted s (growWant need)
      (commitPages e s.gHeapEnd 0 (growWant need / pageSize) s.mem).2 := by
  rw [poolGrow_fst] at ok
  simp only [poolGrow]
  rw [if_pos ok]

theorem poolGrow_refused (s : PoolState) (need : Nat) (e : GrowEnv)
    (failed : (poolGrow s need e).1 = false) :
    (poolGrow s need e).2 = { s with
      mem := (commitPages e s.gHeapEnd 0 (growWant need / pageSize) s.mem).2 } := by
  rw [poolGrow_fst] at failed
  simp only [poolGrow]
  rw [if_neg (by simp [failed])]

theorem poolGrow_true :
    (poolGrow s need e).1 = true ↔ ∀ k, k < growWant need / pageSize → e.commit k = true := by
  rw [poolGrow_fst, commitPages_fst]
  simp only [Nat.zero_le, Nat.zero_add, true_implies]

/-- A failed growth leaves every byte of the arena as it is. -/
theorem poolGrow_fails (inside : GrowthInside s need e) (failed : (poolGrow s need e).1 = false) :
    ∃ m, (poolGrow s need e).2 = { s with mem := m } ∧ ∀ c, c < s.gHeapEnd → m c = s.mem c := by
  have below : ∀ c, c < s.gHeapEnd →
      (commitPages e s.gHeapEnd 0 (growWant need / pageSize) s.mem).2 c = s.mem c :=
    fun c h => grow_below inside h
  exact ⟨_, poolGrow_refused s need e failed, below⟩

/-- The block a growth by `want` bytes adds when it cannot extend the tail. -/
def grownBlock (want : Nat) : Block := ⟨want - poolHdr, 0, true⟩

/-- The block list after a successful growth of `pre ++ [b]`. -/
def growBlocks (pre : List Block) (b : Block) (want : Nat) : List Block :=
  if b.free then pre ++ [{ b with size := b.size + want }] else pre ++ [b, grownBlock want]

theorem Linked.keepMem {bs : List Block} (linked : Linked s bs)
    (same : ∀ c, c < s.gHeapEnd → m c = s.mem c) : Linked { s with mem := m } bs := by
  refine { linked with layout := linked.layout.frame ?_ }
  intro c _ hi
  exact same c (by rw [linked.heapEnd]; exact hi)

theorem growBlocks_extent (pre : List Block) (b : Block) {want : Nat} (least : poolHdr ≤ want) :
    mmKernelHeapBase + span (growBlocks pre b want) = nodeAddr pre + poolHdr + b.size + want := by
  simp only [growBlocks]
  split
  · rw [span_at, span_nil]
    dsimp only
    omega
  · rw [span_at]
    simp only [span_cons, span_nil, grownBlock]
    omega

theorem growBlocks_sized {want : Nat}
    (sized : ∀ x ∈ pre ++ [b], 16 ≤ x.size ∧ x.size % 16 = 0) (least : 64 ≤ want)
    (aligned : want % 16 = 0) : ∀ x ∈ growBlocks pre b want, 16 ≤ x.size ∧ x.size % 16 = 0 := by
  have hdr : poolHdr = 48 := rfl
  have hb := sized b (by simp)
  intro x hx
  simp only [growBlocks] at hx
  split at hx
  · rcases List.mem_append.mp hx with hx | hx
    · exact sized x (by simp [hx])
    · rw [List.mem_singleton] at hx
      subst hx
      dsimp only
      omega
  · simp only [List.mem_append, List.mem_cons, List.not_mem_nil, or_false] at hx
    rcases hx with hx | rfl | rfl
    · exact sized x (by simp [hx])
    · exact hb
    · simp only [grownBlock]
      omega

theorem growCommitted_heapEnd (s : PoolState) (want : Nat) (m : Memory) :
    (growCommitted s want m).gHeapEnd = wrap64 (s.gHeapEnd + want) := by
  simp only [growCommitted]
  split
  · rfl
  · split <;> rfl

/-- The list after a growth that may end exactly at the top of the address space. -/
theorem growCommitted_layout {want : Nat} (linked : Linked { s with mem := m } (pre ++ [b]))
    (top : s.gHeapEnd + want ≤ 2 ^ 64) (least : 64 ≤ want) :
    (growCommitted s want m).gHead = mmKernelHeapBase ∧
      (growCommitted s want m).gTail = lastNode 0 mmKernelHeapBase (growBlocks pre b want) ∧
      Layout (growCommitted s want m).mem 0 mmKernelHeapBase (growBlocks pre b want) 0 := by
  have hdr : poolHdr = 48 := rfl
  have bottom : s.gHeapEnd = nodeAddr pre + poolHdr + b.size := by
    have := linked.heapEnd
    rw [span_at, span_nil, Nat.add_zero] at this
    exact this
  have tail : s.gTail = nodeAddr pre := by
    have := linked.tail
    rw [lastNode_concat] at this
    exact this
  have positive := nodeAddr_ne_zero pre
  have node := linked.node
  obtain ⟨front, _, _⟩ := layout_at.mp linked.layout
  dsimp only at node front
  simp only [growCommitted]
  rw [tail, node.free_eq, node.size_eq]
  by_cases isFree : b.free = true
  · -- the free tail is extended in place
    have larger : wrap64 (b.size + want) = b.size + want := Nat.mod_eq_of_lt (by omega)
    rw [if_pos ⟨positive, by simp [isFree]⟩, larger]
    simp only [growBlocks, isFree, if_true]
    refine ⟨linked.head, ?_, layout_at.mpr ⟨?_, ?_, trivial⟩⟩
    · rw [lastNode_concat, nodeAddr]
    · refine front.frame ?_
      intro c lo hi
      exact put_outside (Or.inl hi)
    · have larger := node.setSize isFree (q := b.size + want) (by omega)
      rw [isFree] at larger
      exact larger
  · -- a used tail gets a free neighbour
    have used : b.free = false := by simpa using isFree
    have rest : wrap64 (want + (2 ^ 64 - poolHdr)) = want - poolHdr := by
      simp only [wrap64]
      omega
    rw [if_neg (by simp [used]), if_pos positive, rest]
    have fresh := writeFreeNode_nodeAt m s.gHeapEnd (want - poolHdr) (nodeAddr pre) 0 (by omega)
      (by omega) (by decide)
    have clear : ∀ c, c < s.gHeapEnd →
        put (writeFreeNode m s.gHeapEnd (want - poolHdr) (nodeAddr pre)) s.gHeapEnd
          .next 0 c = m c := by
      intro c h
      rw [put_outside (Or.inl h), writeFreeNode_outside (Or.inl h)]
    generalize put (writeFreeNode m s.gHeapEnd (want - poolHdr) (nodeAddr pre))
      s.gHeapEnd .next 0 = m' at fresh clear ⊢
    have blocks : growBlocks pre b want = pre ++ [b, grownBlock want] := by
      simp [growBlocks, used]
    rw [blocks]
    refine ⟨linked.head, ?_, layout_at.mpr ⟨?_, ?_, ?_, trivial⟩⟩
    · rw [lastNode_at pre _ b 0, if_neg (List.cons_ne_nil _ _), ← bottom]
      rfl
    · refine front.frame ?_
      intro c lo hi
      have low : c < nodeAddr pre := hi
      exact (put_outside (Or.inl low)).trans (clear c (by omega))
    · have old := (node.frame (k := m') (fun c lo hi => clear c (by omega))
        (fun _ c lo hi => clear c (by omega))).setNext (q := s.gHeapEnd) (by omega)
      rw [if_neg (List.cons_ne_nil _ _), ← bottom]
      exact old
    · rw [← bottom]
      refine fresh.frame ?_ (fun used => by simp at used)
      intro c lo hi
      exact put_outside (by omega)

theorem growCommitted_linked {want : Nat} (linked : Linked { s with mem := m } (pre ++ [b]))
    (top : s.gHeapEnd + want < 2 ^ 64) (least : 64 ≤ want) (aligned : want % 16 = 0) :
    Linked (growCommitted s want m) (growBlocks pre b want) := by
  have hdr : poolHdr = 48 := rfl
  have bottom : s.gHeapEnd = mmKernelHeapBase + span (pre ++ [b]) := linked.heapEnd
  rw [span_at, span_nil, Nat.add_zero] at bottom
  have extent := growBlocks_extent pre b (show poolHdr ≤ want by omega)
  obtain ⟨head, tail, layout⟩ := growCommitted_layout linked (Nat.le_of_lt top) least
  refine ⟨?_, head, tail, ?_, ?_, layout, growBlocks_sized linked.sized least aligned⟩
  · simp only [growBlocks]
    split <;> simp
  · rw [growCommitted_heapEnd, extent, bottom]
    exact Nat.mod_eq_of_lt (by omega)
  · omega

theorem poolGrow_extends (linked : Linked s (pre ++ [b])) (inside : GrowthInside s need e)
    (below : GrowthBelowTop s need e) (possible : GrowableNeed need) (enough : 16 ≤ need)
    (grew : (poolGrow s need e).1 = true) :
    Linked (poolGrow s need e).2 (growBlocks pre b (growWant need)) := by
  have hdr : poolHdr = 48 := rfl
  obtain ⟨least, _, chunk, _⟩ := growWant_bounds possible
  have top := grow_end inside below possible (poolGrow_true.mp grew)
  rw [poolGrow_snd s need e grew]
  exact growCommitted_linked (linked.keepMem (fun c h => grow_below inside h)) top
    (by omega) (by omega)

/-- The first growth lays out one free block. -/
theorem growCommitted_first (want : Nat) (m : Memory)
    (noTail : s.gTail = 0) (base : s.gHeapEnd = mmKernelHeapBase)
    (top : mmKernelHeapBase + want < 2 ^ 64) (least : 64 ≤ want) (aligned : want % 16 = 0) :
    Linked (growCommitted s want m) [grownBlock want] := by
  have hdr : poolHdr = 48 := rfl
  have rest : wrap64 (want + (2 ^ 64 - poolHdr)) = want - poolHdr := by
    simp only [wrap64]
    omega
  have hend : wrap64 (mmKernelHeapBase + want) = mmKernelHeapBase + want := Nat.mod_eq_of_lt top
  simp only [growCommitted, noTail, base, rest, hend, ne_eq, not_true, false_and, if_false]
  have extent : span [grownBlock want] = want := by
    simp only [span_cons, span_nil, grownBlock]
    omega
  refine ⟨by simp, rfl, rfl, ?_, ?_, ⟨?_, trivial⟩, ?_⟩
  · rw [extent]
  · rw [extent]
    exact top
  · exact writeFreeNode_nodeAt _ _ _ _ _ (by omega) (by decide) (by decide)
  · intro x hx
    rw [List.mem_singleton] at hx
    subst hx
    simp only [grownBlock]
    omega

end Pool
