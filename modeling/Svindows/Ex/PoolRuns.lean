import Svindows.Lib.Runs
import Svindows.Ex.PoolArena

/-!
# Runs of the pool

A heap is the allocator's state with the payloads its callers hold. Callers
allocate, free what they hold and write inside what they asked for; page
commits fail at will. `WellKept` states what must hold after every step in
terms of the header fields alone.
-/

namespace Pool

open ByteMemory Nt

/-- The allocator together with the outstanding payloads and their requested sizes. -/
structure Heap where
  pool : PoolState
  live : Nat → Option Nat

inductive Op where
  | start (e : GrowEnv)
  | allocate (size tag : Nat) (e₁ e₂ : GrowEnv)
  | free (p : Nat)
  | write (p i : Nat) (v : UInt8)

/-- One operation, as far as its caller keeps to the rules. -/
def Heap.Step (h : Heap) : Op → Heap → Prop
  | .start e, t => exInitializePool h.pool e = some t.pool ∧ t.live = fun _ => none
  | .allocate size tag e₁ e₂, t =>
    ∃ p, exAllocatePoolWithTag h.pool size tag e₁ e₂ = some (p, t.pool) ∧
      t.live = if p = 0 then h.live else Function.update h.live p (some size)
  | .free p, t =>
    (p = 0 ∨ ∃ r, h.live p = some r) ∧ exFreePool h.pool p = some t.pool ∧
      t.live = Function.update h.live p none
  | .write p i v, t =>
    (∃ r, h.live p = some r ∧ i < r) ∧
      t = { h with pool := { h.pool with mem := fill h.pool.mem (p + i) 1 v } }

/-- The growth an allocation triggers stays inside the window. -/
def Op.WithinWindow (h : Heap) : Op → Prop
  | .allocate size _ e₁ _ =>
    findFit h.pool.mem (poolNeed size) (walkFuel h.pool) h.pool.gHead = some 0 →
      GrowthInside h.pool (poolNeed size) e₁
  | _ => True

/-- The request does not wrap when it is rounded up, and the growth it triggers
does not end on the last byte of the address space. -/
def Op.InRange (h : Heap) : Op → Prop
  | .allocate size _ e₁ _ => size ≤ maxRequest ∧
    (findFit h.pool.mem (poolNeed size) (walkFuel h.pool) h.pool.gHead = some 0 →
      GrowthBelowTop h.pool (poolNeed size) e₁)
  | _ => True

/-- A pool that has just been initialized, over whatever memory held before. -/
def Started (h : Heap) : Prop :=
  ∃ s e, s.gPoolBroken = false ∧ s.reports = [] ∧ exInitializePool s e = some h.pool ∧
    h.live = fun _ => none

/-- The nodes met by following `next` from `n` until it is null. -/
def NextChain (m : Memory) : Nat → List Nat → Prop
  | n, [] => n = 0
  | n, a :: ns => n = a ∧ a ≠ 0 ∧ NextChain m (get m a .next) ns

/-- Each node starts where the one before it ends, from `a` up to `stop`. -/
def Tiles (m : Memory) : Nat → List Nat → Nat → Prop
  | a, [], stop => a = stop
  | a, n :: ns, stop => n = a ∧ Tiles m (a + poolHdr + get m n .size) ns stop

def BackLinked (m : Memory) : Nat → List Nat → Prop
  | _, [] => True
  | prev, n :: ns => get m n .prev = prev ∧ BackLinked m n ns

def IsFree (m : Memory) (n : Nat) : Prop := get m n .free ≠ 0

instance (m : Memory) (n : Nat) : Decidable (IsFree m n) := inferInstanceAs (Decidable (_ ≠ _))

structure WellKept (h : Heap) (ns : List Nat) : Prop where
  reached : NextChain h.pool.mem h.pool.gHead ns
  tiles : Tiles h.pool.mem mmKernelHeapBase ns h.pool.gHeapEnd
  backLinked : BackLinked h.pool.mem 0 ns
  tail : ns.getLast? = some h.pool.gTail
  apart : ns.IsChain fun a b => ¬ (IsFree h.pool.mem a ∧ IsFree h.pool.mem b)
  inUse : h.pool.gBytesInUse =
    (ns.map fun n => if IsFree h.pool.mem n then 0 else get h.pool.mem n .size).sum
  placed : ∀ p r, h.live p = some r → p % 16 = 0 ∧ payloadToNode p ∈ ns ∧
    ¬ IsFree h.pool.mem (payloadToNode p) ∧ r ≤ get h.pool.mem (payloadToNode p) .size
  disjoint : ∀ p q r r', h.live p = some r → h.live q = some r' → p ≠ q →
    p + get h.pool.mem (payloadToNode p) .size ≤ q ∨
      q + get h.pool.mem (payloadToNode q) .size ≤ p
  silent : h.pool.reports = []
  validates : poolValidate h.pool = some h.pool

def nodeList : Nat → List Block → List Nat
  | _, [] => []
  | a, b :: bs => a :: nodeList (a + poolHdr + b.size) bs

variable {a prev next : Nat} {bs : List Block} {m : Memory} {s : PoolState} {h t : Heap}

theorem layout_reached (layout : Layout m prev a bs 0) (start : a ≠ 0) :
    NextChain m (enter a bs) (nodeList a bs) := by
  induction bs generalizing prev a with
  | nil => rfl
  | cons b bs ih =>
    obtain ⟨node, rest⟩ := layout
    refine ⟨rfl, start, ?_⟩
    rw [node.next_eq]
    exact ih rest (by omega)

theorem layout_tiles
    (layout : Layout m prev a bs next) : Tiles m a (nodeList a bs) (a + span bs) := by
  induction bs generalizing prev a with
  | nil => rfl
  | cons b bs ih =>
    obtain ⟨node, rest⟩ := layout
    refine ⟨rfl, ?_⟩
    have shift : a + span (b :: bs) = a + poolHdr + b.size + span bs := by
      simp only [span_cons]; omega
    rw [node.size_eq, shift]
    exact ih rest

theorem layout_backLinked
    (layout : Layout m prev a bs next) : BackLinked m prev (nodeList a bs) := by
  induction bs generalizing prev a with
  | nil => trivial
  | cons b bs ih => exact ⟨layout.1.prev_eq, ih layout.2⟩

theorem nodeList_getLast (h : bs ≠ []) : (nodeList a bs).getLast? = some (lastNode prev a bs) := by
  induction bs generalizing prev a with
  | nil => exact absurd rfl h
  | cons b bs ih =>
    cases bs with
    | nil => rfl
    | cons c cs =>
      have rest : (nodeList (a + poolHdr + b.size) (c :: cs)).getLast? =
          some (lastNode a (a + poolHdr + b.size) (c :: cs)) := ih (List.cons_ne_nil _ _)
      simp only [nodeList, lastNode, List.getLast?_cons_cons] at rest ⊢
      exact rest

theorem NodeAt.isFree_iff {b : Block}
    (node : NodeAt m a prev next b) : IsFree m a ↔ b.free = true := by
  simp only [IsFree, node.free_eq]
  cases b.free <;> simp

theorem layout_flags (layout : Layout m prev a bs next) :
    (nodeList a bs).map (fun n => decide (IsFree m n)) = bs.map Block.free := by
  induction bs generalizing prev a with
  | nil => rfl
  | cons b bs ih =>
    simp only [nodeList, List.map_cons, ih layout.2, layout.1.isFree_iff, Bool.decide_eq_true]

theorem layout_apart (layout : Layout m prev a bs next) (separated : bs.IsChain Apart) :
    (nodeList a bs).IsChain fun x y => ¬ (IsFree m x ∧ IsFree m y) := by
  have flags : (bs.map Block.free).IsChain fun x y => x = true → y = false := by
    rw [List.isChain_map]
    exact separated
  rw [← layout_flags layout, List.isChain_map] at flags
  refine flags.imp ?_
  intro x y h both
  have := h (by simpa using both.1)
  simp [both.2] at this

theorem layout_usedBytes (layout : Layout m prev a bs next) :
    ((nodeList a bs).map fun n => if IsFree m n then 0 else get m n .size).sum = usedBytes bs := by
  induction bs generalizing prev a with
  | nil => rfl
  | cons b bs ih =>
    simp only [nodeList, List.map_cons, List.sum_cons, usedBytes, ih layout.2,
      layout.1.isFree_iff, layout.1.size_eq]

theorem nodeList_append (a : Nat) (xs ys : List Block) :
    nodeList a (xs ++ ys) = nodeList a xs ++ nodeList (a + span xs) ys := by
  induction xs generalizing a with
  | nil => simp [nodeList]
  | cons b bs ih =>
    have shift : a + span (b :: bs) = a + poolHdr + b.size + span bs := by
      simp only [span_cons]; omega
    simp only [List.cons_append, nodeList, ih, shift]

/-- The heap's outstanding payloads are the used blocks of the arena. -/
def Holds (h : Heap) (bs : List Block) : Prop :=
  ∀ p r, h.live p = some r ↔ (p, r) ∈ payloads mmKernelHeapBase bs

/-- What is known about the payload of one used block. -/
theorem Arena.payload_node {pre post : List Block} {b : Block}
    (arena : Arena s (pre ++ b :: post)) :
    payloadToNode (nodeAddr pre + poolHdr) = nodeAddr pre ∧
      get s.mem (nodeAddr pre) .size = b.size := by
  have bounds := arena.bounds
  have hdr : poolHdr = 48 := rfl
  refine ⟨?_, arena.node.size_eq⟩
  simp only [payloadToNode, wrap64]
  omega

theorem span_aligned (bs : List Block) (sized : ∀ b ∈ bs, 16 ≤ b.size ∧ b.size % 16 = 0) :
    span bs % 16 = 0 := by
  induction bs with
  | nil => rfl
  | cons b bs ih =>
    have rest := ih (fun c hc => sized c (by simp [hc]))
    have here := (sized b (by simp)).2
    have hdr : poolHdr = 48 := rfl
    simp only [span_cons]
    omega

theorem Arena.payloads_apart {p q r r' : Nat}
    (arena : Arena s bs) (hp : (p, r) ∈ payloads mmKernelHeapBase bs)
    (hq : (q, r') ∈ payloads mmKernelHeapBase bs) (below : p < q) :
    p + get s.mem (payloadToNode p) .size ≤ q := by
  obtain ⟨pre, b, post, rfl, _, rfl, rfl⟩ := mem_payloads.mp hp
  obtain ⟨node, size⟩ := arena.payload_node
  have place : mmKernelHeapBase + span pre + poolHdr = nodeAddr pre + poolHdr := rfl
  rw [place, node, size]
  rw [place] at below
  rcases payloads_at.mp hq with h | ⟨_, h, _⟩ | h
  · have := payloads_before h
    omega
  · omega
  · have := payloads_behind h
    omega

theorem Arena.wellKept (arena : Arena h.pool bs)
    (holds : Holds h bs) : WellKept h (nodeList mmKernelHeapBase bs) where
  reached := by
    rw [arena.enter_eq]
    exact layout_reached arena.layout (by decide)
  tiles := by
    rw [arena.heapEnd]
    exact layout_tiles arena.layout
  backLinked := layout_backLinked arena.layout
  tail := by
    rw [arena.tail]
    exact nodeList_getLast arena.nonempty
  apart := layout_apart arena.layout arena.separated
  inUse := by
    rw [layout_usedBytes arena.layout]
    exact arena.inUse
  placed := by
    intro p r live
    obtain ⟨pre, b, post, rfl, used, rfl, rfl⟩ := mem_payloads.mp ((holds p r).mp live)
    obtain ⟨node, size⟩ := arena.payload_node
    have place : mmKernelHeapBase + span pre + poolHdr = nodeAddr pre + poolHdr := rfl
    rw [place, node, size]
    refine ⟨?_, ?_, ?_, arena.requests b (by simp) used⟩
    · have := span_aligned pre (fun c hc => arena.sized c (by simp [hc]))
      simp only [nodeAddr, mmKernelHeapBase, poolHdr]
      omega
    · rw [nodeList_append]
      exact List.mem_append_right _ (by simp [nodeList, nodeAddr])
    · rw [arena.node.isFree_iff, used]
      simp
  disjoint := by
    intro p q r r' hp hq other
    have hp := (holds p r).mp hp
    have hq := (holds q r').mp hq
    rcases Nat.lt_or_gt_of_ne other with below | above
    · exact Or.inl (arena.payloads_apart hp hq below)
    · exact Or.inr (arena.payloads_apart hq hp above)
  silent := arena.silent
  validates := arena.validate

/-- The invariant that carries the induction over runs. -/
def Kept (h : Heap) : Prop := ∃ bs, Arena h.pool bs ∧ Holds h bs

theorem growWant_first : growWant (poolGrowChunk - poolHdr) = 65536 := by
  decide

theorem started_arena {t : PoolState} {e : GrowEnv} (intact : s.gPoolBroken = false)
    (silent : s.reports = []) (run : exInitializePool s e = some t) :
    Arena t [grownBlock 65536] := by
  simp only [exInitializePool] at run
  generalize hs : ({ s with
    gHead := 0, gTail := 0, gHeapEnd := mmKernelHeapBase, gBytesInUse := 0 } : PoolState) = s₀
    at run
  have tail : s₀.gTail = 0 := by rw [← hs]
  have base : s₀.gHeapEnd = mmKernelHeapBase := by rw [← hs]
  have zero : s₀.gBytesInUse = 0 := by rw [← hs]
  have broken : s₀.gPoolBroken = false := by rw [← hs]; exact intact
  have quiet : s₀.reports = [] := by rw [← hs]; exact silent
  have ok : (poolGrow s₀ (poolGrowChunk - poolHdr) e).1 = true := by
    by_contra no
    rcases hg : poolGrow s₀ (poolGrowChunk - poolHdr) e with ⟨ok, t'⟩
    cases ok with
    | true => simp [hg] at no
    | false => simp [hg] at run
  have result : t = (poolGrow s₀ (poolGrowChunk - poolHdr) e).2 := by
    rcases hg : poolGrow s₀ (poolGrowChunk - poolHdr) e with ⟨ok', t'⟩
    rw [hg] at run ok
    dsimp only at ok
    subst ok
    exact (Option.some.inj run).symm
  rw [poolGrow_snd _ _ _ ok, growWant_first] at result
  generalize (commitPages e s₀.gHeapEnd 0 (65536 / pageSize) s₀.mem).2 = m at result
  have linked := growCommitted_first 65536 m tail base (by decide) (by decide)
    (by decide)
  obtain ⟨counted, kept, reports⟩ := growCommitted_frame s₀ 65536 m
  rw [result]
  refine { linked with
    requests := ?_, separated := List.isChain_singleton _, inUse := counted.trans zero
    intact := kept.trans broken, silent := reports.trans quiet }
  intro b hb used
  rw [List.mem_singleton] at hb
  subst hb
  simp [grownBlock] at used

theorem Kept.start {e : GrowEnv} (kept : Kept h) (step : h.Step (.start e) t) : Kept t := by
  obtain ⟨bs, arena, _⟩ := kept
  obtain ⟨run, live⟩ := step
  refine ⟨_, started_arena arena.intact arena.silent run, ?_⟩
  intro p r
  rw [live]
  simp [payloads, grownBlock]

theorem countCall_eq (arena : Arena s bs) :
    countCall s = some { s with calls := wrap32 (s.calls + 1) } := by
  have counted : Arena { s with calls := wrap32 (s.calls + 1) } bs := { arena with }
  simp only [countCall]
  split
  · exact counted.validate
  · rfl

theorem exAllocate_counted {t : PoolState} {size tag : Nat} {e₁ e₂ : GrowEnv}
    (some : size ≠ 0) (count : countCall s = Option.some t) :
    exAllocatePoolWithTag s size tag e₁ e₂ =
      allocateAttempts size (poolNeed size) tag [e₁, e₂] t := by
  rw [exAllocatePoolWithTag, if_neg some, count, Option.bind_some]

/-- The search and the growth do not see the call counter. -/
theorem growth_counted {t : PoolState} {need : Nat} {e : GrowEnv}
    (counted : t = { s with calls := wrap32 (s.calls + 1) })
    (window : findFit s.mem need (walkFuel s) s.gHead = some 0 →
      GrowthInside s need e ∧ GrowthBelowTop s need e)
    (missed : findFit t.mem need (walkFuel t) t.gHead = some 0) :
    GrowthInside t need e ∧ GrowthBelowTop t need e := by
  have mem : t.mem = s.mem := by rw [counted]
  have head : t.gHead = s.gHead := by rw [counted]
  have stop : t.gHeapEnd = s.gHeapEnd := by rw [counted]
  simp only [walkFuel, GrowthInside, GrowthBelowTop, mem, head, stop] at window missed ⊢
  exact window missed

/-- An allocation in range returns, and returns null only for a failed growth. -/
theorem Kept.allocates {size tag : Nat} {e₁ e₂ : GrowEnv} (kept : Kept h)
    (window : Op.WithinWindow h (.allocate size tag e₁ e₂))
    (range : Op.InRange h (.allocate size tag e₁ e₂)) :
    ∃ p t bs, exAllocatePoolWithTag h.pool size tag e₁ e₂ = some (p, t) ∧ Arena t bs ∧
      (p = 0 → size = 0 ∨ (poolGrow h.pool (poolNeed size) e₁).1 = false) ∧
      Holds ⟨t, if p = 0 then h.live else Function.update h.live p (some size)⟩ bs := by
  obtain ⟨bs, arena, holds⟩ := kept
  by_cases zero : size = 0
  · refine ⟨0, h.pool, bs, by simp [exAllocatePoolWithTag, zero], arena, ?_, ?_⟩
    · exact fun _ => Or.inl zero
    · simpa using holds
  · have count := countCall_eq arena
    have counted : Arena { h.pool with calls := wrap32 (h.pool.calls + 1) } bs := { arena with }
    generalize hs : ({ h.pool with calls := wrap32 (h.pool.calls + 1) } : PoolState) = s
      at count counted
    obtain ⟨p, t, bs', run, arena', outcome⟩ := counted.allocate tag e₂ range.1
      (growth_counted hs.symm (fun missed => ⟨window missed, range.2 missed⟩))
    refine ⟨p, t, bs', ?_, arena', ?_, ?_⟩
    · rw [exAllocate_counted zero count]
      exact run
    · intro null
      rcases outcome with ⟨_, failed, _⟩ | ⟨real, _⟩
      · have no : ¬ (poolGrow h.pool (poolNeed size) e₁).1 = true := by
          rw [poolGrow_true, ← poolGrow_true (s := s), failed]
          simp
        exact Or.inr (by simpa using no)
      · exact absurd null real
    · intro q r
      rcases outcome with ⟨rfl, _, same⟩ | ⟨real, change⟩
      · rw [same]
        simpa using holds q r
      · rw [change, if_neg real]
        by_cases hq : q = p
        · subst hq
          simp [eq_comm]
        · simpa [hq] using holds q r

theorem Kept.free {p : Nat} (kept : Kept h) (step : h.Step (.free p) t) : Kept t := by
  obtain ⟨bs, arena, holds⟩ := kept
  obtain ⟨allowed, run, live⟩ := step
  by_cases null : p = 0
  · subst null
    simp only [exFreePool, if_true, Option.some.injEq] at run
    refine ⟨bs, run ▸ arena, ?_⟩
    intro q r
    rw [live]
    by_cases hq : q = 0
    · subst hq
      have absent : ¬ (0, r) ∈ payloads mmKernelHeapBase bs := by
        intro h
        have := payloads_bounds h
        simp only [poolHdr] at this
        omega
      simp [absent]
    · simpa [hq] using holds q r
  · obtain ⟨r, hr⟩ := allowed.resolve_left null
    obtain ⟨t', bs', run', arena', change⟩ := arena.free ((holds p r).mp hr)
    rw [run', Option.some.injEq] at run
    refine ⟨bs', run ▸ arena', ?_⟩
    intro q r'
    rw [live, change, ← holds]
    by_cases hq : q = p
    · simp [hq]
    · simp [hq]

/-- A write inside a requested payload touches neither headers nor guard bytes. -/
theorem Kept.write {p i : Nat} {v : UInt8} (kept : Kept h)
    (step : h.Step (.write p i v) t) : Kept t := by
  obtain ⟨bs, arena, holds⟩ := kept
  obtain ⟨⟨r, hr, inside⟩, rfl⟩ := step
  obtain ⟨pre, b, post, rfl, used, rfl, rfl⟩ := mem_payloads.mp ((holds p r).mp hr)
  have place : mmKernelHeapBase + span pre + poolHdr = nodeAddr pre + poolHdr := rfl
  rw [place]
  have fits := arena.requests b (by simp) used
  have linked : Linked { h.pool with mem := fill h.pool.mem (nodeAddr pre + poolHdr + i) 1 v }
      (pre ++ b :: post) := by
    refine arena.toLinked.replace rfl (arena.node.frame ?_ ?_) ?_
    · intro c lo hi
      exact fill_outside (by omega)
    · intro _ c lo hi
      exact fill_outside (by omega)
    · intro c outside
      exact fill_outside (by omega)
  refine ⟨_, { linked with
    requests := arena.requests, separated := arena.separated, inUse := arena.inUse
    intact := arena.intact, silent := arena.silent }, holds⟩

/-- A run whose operations keep inside the window and in range. -/
def RangedStep (h : Heap) (op : Op) (t : Heap) : Prop :=
  op.WithinWindow h ∧ op.InRange h ∧ h.Step op t

theorem Kept.step {op : Op} (kept : Kept h) (step : RangedStep h op t) : Kept t := by
  obtain ⟨window, range, step⟩ := step
  cases op with
  | start e => exact kept.start step
  | allocate size tag e₁ e₂ =>
    obtain ⟨p, run, live⟩ := step
    obtain ⟨p', t', bs, run', arena, _, holds⟩ := kept.allocates window range
    rw [run', Option.some.injEq, Prod.mk.injEq] at run
    obtain ⟨rfl, rfl⟩ := run
    exact ⟨bs, arena, by rw [← live] at holds; exact holds⟩
  | free p => exact kept.free step
  | write p i v => exact kept.write step

theorem kept_of_started (started : Started h) : Kept h := by
  obtain ⟨s, e, intact, silent, run, live⟩ := started
  refine ⟨_, started_arena intact silent run, ?_⟩
  intro p r
  rw [live]
  simp [payloads, grownBlock]

/-- In every run whose requests are in range, the arena is well kept after each
step, and the next allocation returns, with null only for an empty request or a
failed growth. -/
theorem pool_well_kept {h : Heap} (run : Runs.Reachable Started RangedStep h) :
    (∃ ns, WellKept h ns) ∧ ∀ size tag e₁ e₂,
      Op.WithinWindow h (.allocate size tag e₁ e₂) → Op.InRange h (.allocate size tag e₁ e₂) →
      ∃ p t, exAllocatePoolWithTag h.pool size tag e₁ e₂ = some (p, t) ∧
        (p = 0 → size = 0 ∨ (poolGrow h.pool (poolNeed size) e₁).1 = false) := by
  have kept : Kept h := 
    run.invariant (fun _ started => kept_of_started started) (fun _ _ _ kept step => kept.step step)
  constructor
  · obtain ⟨bs, arena, holds⟩ := kept
    exact ⟨_, arena.wellKept holds⟩
  · intro size tag e₁ e₂ window range
    obtain ⟨p, t, _, result, _, null, _⟩ := kept.allocates window range
    exact ⟨p, t, result, null⟩

/-- The allocator's statics at boot. -/
def bootPool : PoolState := ⟨fun _ => 0, 0, 0, 0, 0, false, 0, []⟩

/-- Every page is granted, and granted zeroed. -/
def fullCommit : GrowEnv := ⟨fun _ => true, fun _ => 0⟩

theorem boot_starts : ∃ h, Started h ∧ exInitializePool bootPool fullCommit = some h.pool := by
  have ok : (poolGrow { bootPool with
      gHead := 0, gTail := 0, gHeapEnd := mmKernelHeapBase, gBytesInUse := 0 }
      (poolGrowChunk - poolHdr) fullCommit).1 = true :=
    poolGrow_true.mpr (fun _ _ => rfl)
  have run : ∃ t, exInitializePool bootPool fullCommit = some t := by
    simp only [exInitializePool]
    generalize poolGrow { bootPool with
      gHead := 0, gTail := 0, gHeapEnd := mmKernelHeapBase, gBytesInUse := 0 }
      (poolGrowChunk - poolHdr) fullCommit = grown at ok ⊢
    obtain ⟨grew, t⟩ := grown
    subst ok
    exact ⟨t, rfl⟩
  obtain ⟨t, run⟩ := run
  exact ⟨⟨t, fun _ => none⟩, ⟨bootPool, fullCommit, rfl, rfl, run, rfl⟩, run⟩

/-- A fresh arena serves any request that fits its one block. -/
theorem started_search (started : Started h) (need : Nat) (fits : need ≤ 65488) :
    Arena h.pool [grownBlock 65536] ∧
      findFit h.pool.mem need (walkFuel h.pool) h.pool.gHead = some (nodeAddr []) := by
  obtain ⟨s, e, intact, silent, run, live⟩ := started
  have arena := started_arena intact silent run
  refine ⟨arena, ?_⟩
  rcases arena.search need with ⟨pre, b, post, split, _, _, found⟩ | ⟨none, _⟩
  · have empty : pre = [] := by
      have length := congrArg List.length split
      simp only [List.length_append, List.length_cons, List.length_nil] at length
      exact List.length_eq_zero_iff.mp (by omega)
    rw [found, empty]
  · have := none (grownBlock 65536) (by simp) rfl
    simp only [grownBlock, poolHdr] at this
    omega

/-- After boot a request for 24 bytes is served, and the arena is well kept. -/
theorem pool_well_kept_boot : ∃ h p t,
    Runs.Reachable Started RangedStep h ∧ exInitializePool bootPool fullCommit = some h.pool ∧
      exAllocatePoolWithTag h.pool 24 0 fullCommit fullCommit = some (p, t) ∧ p ≠ 0 ∧
      ∃ ns, WellKept ⟨t, Function.update h.live p (some 24)⟩ ns := by
  obtain ⟨h, started, boot⟩ := boot_starts
  have reach : Runs.Reachable Started RangedStep h := .of_initial started
  have found := (started_search started (poolNeed 24) (by decide)).2
  have window : Op.WithinWindow h (.allocate 24 0 fullCommit fullCommit) := by
    intro missed
    rw [found, Option.some.injEq] at missed
    exact absurd missed (nodeAddr_ne_zero [])
  have range : Op.InRange h (.allocate 24 0 fullCommit fullCommit) := by
    refine ⟨by decide, fun missed => ?_⟩
    rw [found, Option.some.injEq] at missed
    exact absurd missed (nodeAddr_ne_zero [])
  obtain ⟨p, t, run, null⟩ := (pool_well_kept reach).2 24 0 fullCommit fullCommit window range
  have real : p ≠ 0 := by
    intro zero
    rcases null zero with h | h
    · exact absurd h (by decide)
    · rw [poolGrow_true.mpr (fun _ _ => rfl)] at h
      exact absurd h (by simp)
  have next : RangedStep h (.allocate 24 0 fullCommit fullCommit)
      ⟨t, Function.update h.live p (some 24)⟩ :=
    ⟨window, range, p, run, by rw [if_neg real]⟩
  exact ⟨h, p, t, reach, boot, run, real, (pool_well_kept (reach.next next)).1⟩

/-- The largest request wraps to a block of sixteen bytes. -/
theorem largest_request_gets_sixteen_bytes : ∃ h t,
    Started h ∧ exInitializePool bootPool fullCommit = some h.pool ∧
      Op.WithinWindow h (.allocate (2 ^ 64 - 1) 0 fullCommit fullCommit) ∧
      h.Step (.allocate (2 ^ 64 - 1) 0 fullCommit fullCommit) t ∧ ¬ ∃ ns, WellKept t ns := by
  obtain ⟨h, started, boot⟩ := boot_starts
  have need : poolNeed (2 ^ 64 - 1) = 16 := by decide
  have search := started_search started (poolNeed (2 ^ 64 - 1)) (by decide)
  have count := countCall_eq search.1
  have counted : Arena { h.pool with calls := wrap32 (h.pool.calls + 1) } [grownBlock 65536] :=
    { search.1 with }
  have found : findFit ({ h.pool with calls := wrap32 (h.pool.calls + 1) } : PoolState).mem
      (poolNeed (2 ^ 64 - 1))
      (walkFuel { h.pool with calls := wrap32 (h.pool.calls + 1) })
      ({ h.pool with calls := wrap32 (h.pool.calls + 1) } : PoolState).gHead =
      some (nodeAddr []) := search.2
  generalize ({ h.pool with calls := wrap32 (h.pool.calls + 1) } : PoolState) = s
    at count counted found
  have place : wrap64 (nodeAddr [] + poolHdr) = nodeAddr [] + poolHdr := by decide
  have run : exAllocatePoolWithTag h.pool (2 ^ 64 - 1) 0 fullCommit fullCommit =
      some (nodeAddr [] + poolHdr, takeNode s (nodeAddr []) (2 ^ 64 - 1) 16 0) := by
    rw [exAllocate_counted (by decide) count, allocateAttempts_hit found (nodeAddr_ne_zero []),
      place, need]
  have whole : Linked s ([] ++ grownBlock 65536 :: []) := counted.toLinked
  have halves : Linked (poolSplit s (nodeAddr []) 16) _ :=
    poolSplit_linked whole rfl (by decide) (by decide) (by decide)
  have size : get (takeNode s (nodeAddr []) (2 ^ 64 - 1) 16 0).mem (nodeAddr []) .size = 16 := by
    simp only [takeNode]
    rw [useNode_get, get_put_field (by decide), get_put_field (by decide),
      get_put_field (by decide), halves.node.size_eq]
  refine ⟨h, ⟨takeNode s (nodeAddr []) (2 ^ 64 - 1) 16 0,
    Function.update h.live (nodeAddr [] + poolHdr) (some (2 ^ 64 - 1))⟩, started, boot, ?_,
    ⟨nodeAddr [] + poolHdr, run, ?_⟩, ?_⟩
  · intro missed
    rw [search.2, Option.some.injEq] at missed
    exact absurd missed (nodeAddr_ne_zero [])
  · rw [if_neg (by decide)]
  · rintro ⟨ns, kept⟩
    have large := (kept.placed (nodeAddr [] + poolHdr) (2 ^ 64 - 1) (by simp)).2.2.2
    have node : payloadToNode (nodeAddr [] + poolHdr) = nodeAddr [] := by decide
    rw [node, size] at large
    omega

end Pool
