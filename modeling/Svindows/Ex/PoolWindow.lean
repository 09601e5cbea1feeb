import Svindows.Ex.PoolRuns

/-!
# The window of the pool arena

The arena starts one GiB below the top of the address space and grows by whole
chunks; nothing in `pool_grow` looks at the room that is left. Every call of
`pool_grow` is kept with the pages it maps, so that a run can be asked whether
one of them ever lay outside the window.
-/

namespace Pool

open ByteMemory Nt

/-- The addresses the commit loop maps: it stops at the first page it cannot get. -/
def mappedPages (e : GrowEnv) (start : Nat) : Nat → Nat → List Nat
  | _, 0 => []
  | i, left + 1 =>
    if e.commit i then wrap64 (start + i * pageSize) :: mappedPages e start (i + 1) left else []

/-- One call of `pool_grow`: the state it is made in, the payload size it is asked
for and the page commits it meets. -/
structure GrowCall where
  pool : PoolState
  need : Nat
  env : GrowEnv

namespace GrowCall

def want (c : GrowCall) : Nat := growWant c.need

def pages (c : GrowCall) : List Nat :=
  mappedPages c.env c.pool.gHeapEnd 0 (c.want / pageSize)

def outcome (c : GrowCall) : Bool × PoolState := poolGrow c.pool c.need c.env

/-- Every page mapped lies in the window, and a call the window has no room for
is refused. -/
structure Kept (c : GrowCall) : Prop where
  inside : ∀ a ∈ c.pages, mmKernelHeapBase ≤ a ∧ a + pageSize ≤ 2 ^ 64
  refused : 2 ^ 64 ≤ c.pool.gHeapEnd + c.want → c.outcome.1 = false

/-- The window has room for what is wanted, with its last byte to spare, or the
pages run out before the window does. -/
def Fits (c : GrowCall) : Prop :=
  c.pool.gHeapEnd + c.want < 2 ^ 64 ∨
    ∃ k, k < c.want / pageSize ∧ c.env.commit k = false ∧
      c.pool.gHeapEnd + k * pageSize ≤ 2 ^ 64

end GrowCall

/-- The calls of `pool_grow` among the attempts of one allocation. -/
def growCalls (need : Nat) : List GrowEnv → PoolState → List GrowCall
  | [], _ => []
  | e :: rest, s =>
    if findFit s.mem need (walkFuel s) s.gHead = some 0 then
      ⟨s, need, e⟩ ::
        (if (poolGrow s need e).1 then growCalls need rest (poolGrow s need e).2 else [])
    else []

/-- The allocator as `ExInitializePool` sets it up before its first growth. -/
def emptied (s : PoolState) : PoolState :=
  { s with gHead := 0, gTail := 0, gHeapEnd := mmKernelHeapBase, gBytesInUse := 0 }

def firstCall (s : PoolState) (e : GrowEnv) : GrowCall :=
  ⟨emptied s, poolGrowChunk - poolHdr, e⟩

def Op.growCalls (h : Heap) : Op → List GrowCall
  | .start e => [firstCall h.pool e]
  | .allocate size _ e₁ e₂ =>
    if size = 0 then []
    else ((countCall h.pool).map (Pool.growCalls (poolNeed size) [e₁, e₂])).getD []
  | .free _ => []
  | .write _ _ _ => []

/-- A heap with every growth it has gone through. -/
structure GrownHeap where
  heap : Heap
  calls : List GrowCall

def GrownHeap.Step (h : GrownHeap) (op : Op) (t : GrownHeap) : Prop :=
  h.heap.Step op t.heap ∧ t.calls = h.calls ++ op.growCalls h.heap

/-- The pool right after boot, whatever held before. -/
def Booted (h : GrownHeap) : Prop :=
  ∃ s e, exInitializePool s e = some h.heap.pool ∧ h.heap.live = (fun _ => none) ∧
    h.calls = [firstCall s e]

structure WindowKept (h : GrownHeap) : Prop where
  heapEnd : mmKernelHeapBase ≤ h.heap.pool.gHeapEnd ∧ h.heap.pool.gHeapEnd < 2 ^ 64
  calls : ∀ c ∈ h.calls, c.Kept

theorem mem_mappedPages {e : GrowEnv} {start i left a : Nat} :
    a ∈ mappedPages e start i left ↔ ∃ k, i ≤ k ∧ k < i + left ∧
      (∀ j, i ≤ j → j ≤ k → e.commit j = true) ∧ a = wrap64 (start + k * pageSize) := by
  induction left generalizing i with
  | zero =>
    simp only [mappedPages, List.not_mem_nil, false_iff]
    rintro ⟨k, lo, hi, _⟩
    omega
  | succ left ih =>
    simp only [mappedPages]
    by_cases hc : e.commit i = true
    · rw [if_pos hc, List.mem_cons, ih]
      constructor
      · rintro (rfl | ⟨k, lo, hi, run, rfl⟩)
        · refine ⟨i, le_refl i, by omega, ?_, rfl⟩
          intro j lo hi
          rw [Nat.le_antisymm hi lo]
          exact hc
        · refine ⟨k, by omega, by omega, ?_, rfl⟩
          intro j lo hi
          by_cases first : j = i
          · rw [first]
            exact hc
          · exact run j (by omega) hi
      · rintro ⟨k, lo, hi, run, rfl⟩
        by_cases first : k = i
        · rw [first]
          exact Or.inl rfl
        · exact Or.inr ⟨k, by omega, by omega, fun j hj hk => run j (by omega) hk, rfl⟩
    · rw [if_neg hc]
      simp only [List.not_mem_nil, false_iff]
      rintro ⟨k, lo, _, run, _⟩
      exact hc (run i (le_refl i) lo)

theorem growWant_chunks (need : Nat) : growWant need % poolGrowChunk = 0 := by
  simp only [growWant, alignUpBy, alignDownBy, Nat.mul_mod_left]

theorem growWant_pages (need : Nat) : growWant need / pageSize * pageSize = growWant need := by
  have page : pageSize = 4096 := rfl
  have chunks := growWant_chunks need
  have chunk : poolGrowChunk = 65536 := rfl
  rw [chunk] at chunks
  rw [page]
  omega

namespace GrowCall

theorem mem_pages {c : GrowCall} {a : Nat} :
    a ∈ c.pages ↔ ∃ k, k < c.want / pageSize ∧ (∀ j, j ≤ k → c.env.commit j = true) ∧
      a = wrap64 (c.pool.gHeapEnd + k * pageSize) := by
  simp only [pages, mem_mappedPages, Nat.zero_le, true_implies, Nat.zero_add, true_and]

theorem outcome_mk (s : PoolState) (need : Nat) (e : GrowEnv) :
    outcome ⟨s, need, e⟩ = poolGrow s need e := rfl

theorem granted_iff (c : GrowCall) :
    c.outcome.1 = true ↔ ∀ k, k < c.want / pageSize → c.env.commit k = true := by
  rw [outcome, want]
  exact poolGrow_true

theorem refused_of {c : GrowCall} {k : Nat} (wanted : k < c.want / pageSize)
    (missing : c.env.commit k = false) : c.outcome.1 = false := by
  by_contra granted
  have all := c.granted_iff.mp (by simpa using granted)
  rw [all k wanted] at missing
  exact absurd missing (by simp)

theorem heapEnd_after (c : GrowCall) :
    c.outcome.2.gHeapEnd =
      if c.outcome.1 then wrap64 (c.pool.gHeapEnd + c.want) else c.pool.gHeapEnd := by
  rw [outcome, want]
  cases grew : (poolGrow c.pool c.need c.env).1 with
  | true =>
    rw [poolGrow_snd _ _ _ grew, growCommitted_heapEnd, if_pos rfl]
  | false =>
    rw [poolGrow_refused _ _ _ grew, if_neg Bool.false_ne_true]

/-- Of the pages past the top of the address space, the first is page zero. -/
theorem zero_mem_pages {c : GrowCall} {k : Nat} (aligned : c.pool.gHeapEnd % pageSize = 0)
    (low : c.pool.gHeapEnd < 2 ^ 64) (wanted : k < c.want / pageSize)
    (past : 2 ^ 64 ≤ c.pool.gHeapEnd + k * pageSize)
    (run : ∀ j, j ≤ k → c.env.commit j = true) : 0 ∈ c.pages := by
  have page : pageSize = 4096 := rfl
  rw [page] at aligned past
  refine mem_pages.mpr ⟨(2 ^ 64 - c.pool.gHeapEnd) / 4096, by omega, ?_, ?_⟩
  · intro j hj
    exact run j (by omega)
  · rw [page, wrap64]
    omega

/-- A growth leaves the window alone exactly when it fits. -/
theorem kept_iff_fits {c : GrowCall} (aligned : c.pool.gHeapEnd % pageSize = 0)
    (bottom : mmKernelHeapBase ≤ c.pool.gHeapEnd) (low : c.pool.gHeapEnd < 2 ^ 64) :
    c.Kept ↔ c.Fits := by
  have page : pageSize = 4096 := rfl
  constructor
  · intro kept
    by_cases room : c.pool.gHeapEnd + c.want < 2 ^ 64
    · exact Or.inl room
    · -- the first page that cannot be had comes no later than the window's end
      have refused := kept.refused (by omega)
      have missing : ∃ k, k < c.want / pageSize ∧ c.env.commit k = false := by
        by_contra none
        push Not at none
        have granted := c.granted_iff.mpr (fun k hk => by simpa using none k hk)
        rw [refused] at granted
        exact absurd granted (by simp)
      classical
      obtain ⟨wanted, absent⟩ := Nat.find_spec missing
      have earlier := fun j => Nat.find_min missing (m := j)
      generalize Nat.find missing = k at wanted absent earlier
      refine Or.inr ⟨k, wanted, absent, ?_⟩
      by_contra past
      have run : ∀ j, j ≤ k - 1 → c.env.commit j = true := by
        intro j hj
        have present := earlier j (by rw [page] at past; omega)
        simpa using fun h => present ⟨by omega, h⟩
      rw [page] at aligned past
      have zero : 0 ∈ c.pages := zero_mem_pages (by rw [page]; exact aligned) low
        (show k - 1 < c.want / pageSize by omega) (by rw [page]; omega) run
      have inside := (kept.inside 0 zero).1
      exact absurd inside (by decide)
  · rintro (room | ⟨k, wanted, missing, room⟩)
    · have pages := growWant_pages c.need
      refine ⟨?_, fun full => absurd room (by omega)⟩
      intro a mem
      obtain ⟨k, hk, _, rfl⟩ := mem_pages.mp mem
      simp only [want] at room hk
      rw [page] at pages hk ⊢
      have whole : wrap64 (c.pool.gHeapEnd + k * 4096) = c.pool.gHeapEnd + k * 4096 :=
        Nat.mod_eq_of_lt (by omega)
      rw [whole]
      omega
    · refine ⟨?_, fun _ => refused_of wanted missing⟩
      intro a mem
      obtain ⟨j, _, run, rfl⟩ := mem_pages.mp mem
      have before : j < k := by
        by_contra behind
        have present := run k (by omega)
        rw [missing] at present
        exact absurd present (by simp)
      rw [page] at room ⊢
      have whole : wrap64 (c.pool.gHeapEnd + j * 4096) = c.pool.gHeapEnd + j * 4096 :=
        Nat.mod_eq_of_lt (by omega)
      rw [whole]
      omega

end GrowCall

/-- An end of the arena: inside the window and a whole number of chunks. -/
structure WindowEnd (stop : Nat) : Prop where
  bottom : mmKernelHeapBase ≤ stop
  top : stop < 2 ^ 64
  chunked : stop % poolGrowChunk = 0

theorem windowEnd_base : WindowEnd mmKernelHeapBase := ⟨by decide, by decide, by decide⟩

theorem WindowEnd.paged {stop : Nat} (window : WindowEnd stop) : stop % pageSize = 0 := by
  have chunked := window.chunked
  have chunk : poolGrowChunk = 65536 := rfl
  have page : pageSize = 4096 := rfl
  rw [chunk] at chunked
  rw [page]
  omega

theorem WindowEnd.kept_iff {c : GrowCall} (window : WindowEnd c.pool.gHeapEnd) :
    c.Kept ↔ c.Fits :=
  GrowCall.kept_iff_fits window.paged window.bottom window.top

theorem chunked_after (c : GrowCall) (chunked : c.pool.gHeapEnd % poolGrowChunk = 0) :
    c.outcome.2.gHeapEnd % poolGrowChunk = 0 := by
  have chunk : poolGrowChunk = 65536 := rfl
  have wanted := growWant_chunks c.need
  rw [chunk] at wanted chunked ⊢
  rw [c.heapEnd_after]
  split
  · simp only [GrowCall.want, wrap64]
    omega
  · exact chunked

theorem WindowEnd.grow {c : GrowCall} (window : WindowEnd c.pool.gHeapEnd) (kept : c.Kept) :
    WindowEnd c.outcome.2.gHeapEnd := by
  have chunked := chunked_after c window.chunked
  have bottom := window.bottom
  cases granted : c.outcome.1 with
  | false =>
    have same : c.outcome.2.gHeapEnd = c.pool.gHeapEnd := by
      rw [c.heapEnd_after, granted]
      rfl
    rw [same]
    exact window
  | true =>
    have room : c.pool.gHeapEnd + c.want < 2 ^ 64 := by
      by_contra full
      have refused := kept.refused (by omega)
      rw [granted] at refused
      exact absurd refused (by simp)
    have moved : c.outcome.2.gHeapEnd = c.pool.gHeapEnd + c.want := by
      rw [c.heapEnd_after, if_pos granted]
      exact Nat.mod_eq_of_lt room
    exact ⟨by omega, by omega, chunked⟩

variable {s t : PoolState} {size : Nat}

/-- What every growth of an allocation keeps of the arena's end holds before each
of them and after the allocation. -/
theorem allocateAttempts_heapEnd {P : Nat → Prop} {need tag p : Nat} {es : List GrowEnv}
    (initially : P s.gHeapEnd)
    (grows : ∀ c ∈ growCalls need es s, P c.pool.gHeapEnd → P c.outcome.2.gHeapEnd)
    (run : allocateAttempts size need tag es s = some (p, t)) :
    P t.gHeapEnd ∧ ∀ c ∈ growCalls need es s, P c.pool.gHeapEnd := by
  induction es generalizing s with
  | nil =>
    simp only [allocateAttempts, Option.some.injEq, Prod.mk.injEq] at run
    rw [← run.2]
    exact ⟨initially, by simp [growCalls]⟩
  | cons e rest ih =>
    rcases allocateAttempts_cases run with
      ⟨n, here, found, _, rfl⟩ | ⟨missed, grew, again⟩ | ⟨missed, failed, _, rfl⟩
    · have none : growCalls need (e :: rest) s = [] := by
        rw [growCalls, if_neg (by simpa [found] using here)]
      rw [none]
      refine ⟨?_, by simp⟩
      simp only [takeNode, poolSplit]
      split <;> exact initially
    · have calls : growCalls need (e :: rest) s =
          ⟨s, need, e⟩ :: growCalls need rest (poolGrow s need e).2 := by
        rw [growCalls, if_pos missed, if_pos grew]
      rw [calls] at grows ⊢
      have next := grows ⟨s, need, e⟩ List.mem_cons_self initially
      rw [GrowCall.outcome_mk] at next
      obtain ⟨last, behind⟩ := ih next (fun c mem => grows c (List.mem_cons_of_mem _ mem)) again
      refine ⟨last, ?_⟩
      intro c mem
      rcases List.mem_cons.mp mem with rfl | mem
      · exact initially
      · exact behind c mem
    · have calls : growCalls need (e :: rest) s = [⟨s, need, e⟩] := by
        rw [growCalls, if_pos missed, if_neg (by simp [failed])]
      rw [calls] at grows ⊢
      have next := grows ⟨s, need, e⟩ List.mem_cons_self initially
      rw [GrowCall.outcome_mk] at next
      refine ⟨next, ?_⟩
      intro c mem
      rw [List.mem_singleton.mp mem]
      exact initially

theorem poolValidate_heapEnd (run : poolValidate s = some t) : t.gHeapEnd = s.gHeapEnd := by
  simp only [poolValidate] at run
  split at run
  · rw [← Option.some.inj run]
  · split at run
    · cases run
    · rw [← Option.some.inj run]
    · rw [← Option.some.inj run]
      rfl

theorem countCall_heapEnd (run : countCall s = some t) : t.gHeapEnd = s.gHeapEnd := by
  simp only [countCall] at run
  split at run
  · have same := poolValidate_heapEnd run
    exact same
  · rw [← Option.some.inj run]

theorem mergeNodes_heapEnd (s : PoolState) (lower upper : Nat) :
    (mergeNodes s lower upper).gHeapEnd = s.gHeapEnd := by
  simp only [mergeNodes]
  split <;> rfl

theorem coalesceNext_heapEnd (s : PoolState) (node : Nat) :
    (coalesceNext s node).gHeapEnd = s.gHeapEnd := by
  simp only [coalesceNext]
  split
  · exact mergeNodes_heapEnd s _ _
  · rfl

theorem coalescePrev_heapEnd (s : PoolState) (node : Nat) :
    (coalescePrev s node).gHeapEnd = s.gHeapEnd := by
  simp only [coalescePrev]
  split
  · exact mergeNodes_heapEnd s _ _
  · rfl

theorem report_heapEnd (s : PoolState) (bad : Corruption) (c : Prop) [Decidable c] :
    (if c then report s bad else s).gHeapEnd = s.gHeapEnd := by
  split <;> rfl

theorem exFreePool_heapEnd {p : Nat} (run : exFreePool s p = some t) : t.gHeapEnd = s.gHeapEnd := by
  simp only [exFreePool] at run
  by_cases null : p = 0
  · rw [if_pos null] at run
    rw [← Option.some.inj run]
  · rw [if_neg null] at run
    by_cases twice : get (if get s.mem (payloadToNode p) .magic ≠ poolMagic ∧
        s.gPoolBroken = false then report s .freeMagicDestroyed else s).mem
        (payloadToNode p) .free ≠ 0
    · rw [if_pos twice] at run
      cases run
    · rw [if_neg twice] at run
      rw [← Option.some.inj run, coalescePrev_heapEnd, coalesceNext_heapEnd]
      dsimp only
      rw [report_heapEnd, report_heapEnd]

theorem exInitializePool_eq {e : GrowEnv}
    (run : exInitializePool s e = some t) : t = (firstCall s e).outcome.2 := by
  rcases grown : poolGrow (emptied s) (poolGrowChunk - poolHdr) e with ⟨granted, u⟩
  have after : (firstCall s e).outcome.2 = u := by
    rw [firstCall, GrowCall.outcome_mk, grown]
  rw [emptied] at grown
  simp only [exInitializePool, grown] at run
  cases granted with
  | true =>
    rw [after]
    exact (Option.some.inj run).symm
  | false => cases run

/-- What each growth of an operation keeps of the arena's end, the operation keeps. -/
theorem Heap.Step.heapEnd {P : Nat → Prop} {h t : Heap} {op : Op} (step : h.Step op t)
    (initially : P h.pool.gHeapEnd) (base : P mmKernelHeapBase)
    (grows : ∀ c ∈ op.growCalls h, P c.pool.gHeapEnd → P c.outcome.2.gHeapEnd) :
    P t.pool.gHeapEnd ∧ ∀ c ∈ op.growCalls h, P c.pool.gHeapEnd := by
  cases op with
  | start e =>
    have first := exInitializePool_eq step.1
    refine ⟨?_, ?_⟩
    · rw [first]
      exact grows _ (List.mem_singleton_self _) base
    · intro c mem
      rw [List.mem_singleton.mp mem]
      exact base
  | allocate size tag e₁ e₂ =>
    obtain ⟨p, run, _⟩ := step
    simp only [exAllocatePoolWithTag] at run
    simp only [Op.growCalls] at grows ⊢
    by_cases empty : size = 0
    · simp only [empty, if_true, Option.some.injEq, Prod.mk.injEq] at run
      simp only [empty, if_true, List.not_mem_nil, false_implies, implies_true, and_true]
      rw [← run.2]
      exact initially
    · simp only [empty, if_false] at run grows ⊢
      obtain ⟨s, count, run⟩ := Option.bind_eq_some_iff.mp run
      rw [count] at grows ⊢
      rw [← countCall_heapEnd count] at initially
      exact allocateAttempts_heapEnd initially grows run
  | free p =>
    obtain ⟨_, run, _⟩ := step
    rw [exFreePool_heapEnd run]
    exact ⟨initially, by simp [Op.growCalls]⟩
  | write p i v =>
    obtain ⟨_, rfl⟩ := step
    exact ⟨initially, by simp [Op.growCalls]⟩

/-- The end of the arena is a whole number of chunks whatever is asked for. -/
theorem Heap.Step.chunked {h t : Heap} {op : Op} (step : h.Step op t)
    (chunked : h.pool.gHeapEnd % poolGrowChunk = 0) : t.pool.gHeapEnd % poolGrowChunk = 0 := by
  have kept := step.heapEnd (P := fun stop => stop % poolGrowChunk = 0) chunked (by decide)
    (fun c _ here => chunked_after c here)
  exact kept.1

/-- As long as no growth leaves a window it starts in, the arena's end stays in
the window and every growth starts there. -/
def EndsInside (h : GrownHeap) : Prop :=
  (∀ c ∈ h.calls, WindowEnd c.pool.gHeapEnd → c.Kept) →
    WindowEnd h.heap.pool.gHeapEnd ∧ ∀ c ∈ h.calls, WindowEnd c.pool.gHeapEnd

theorem EndsInside.of_booted {h : GrownHeap} (booted : Booted h) : EndsInside h := by
  obtain ⟨s, e, boot, _, calls⟩ := booted
  intro sound
  rw [calls] at sound ⊢
  have window : WindowEnd (firstCall s e).pool.gHeapEnd := windowEnd_base
  refine ⟨?_, ?_⟩
  · rw [exInitializePool_eq boot]
    exact window.grow (sound _ (List.mem_singleton_self _) window)
  · intro c mem
    rw [List.mem_singleton.mp mem]
    exact window

theorem EndsInside.step {h t : GrownHeap} {op : Op} (inside : EndsInside h) (step : h.Step op t) :
    EndsInside t := by
  obtain ⟨step, calls⟩ := step
  intro sound
  rw [calls] at sound ⊢
  obtain ⟨window, before⟩ := inside (fun c mem => sound c (List.mem_append_left _ mem))
  obtain ⟨window', here⟩ := step.heapEnd window windowEnd_base
    (fun c mem start => start.grow (sound c (List.mem_append_right _ mem) start))
  refine ⟨window', ?_⟩
  intro c mem
  rcases List.mem_append.mp mem with mem | mem
  · exact before c mem
  · exact here c mem

/-- In every run, the window has been kept exactly when every growth so far
fitted it. -/
theorem window_kept_iff {h : GrownHeap} (run : Runs.Reachable Booted GrownHeap.Step h) :
    WindowKept h ↔ ∀ c ∈ h.calls, c.Fits := by
  have inside : EndsInside h :=
    run.invariant (fun _ booted => .of_booted booted) (fun _ _ _ inside step => inside.step step)
  constructor
  · intro kept c mem
    obtain ⟨_, starts⟩ := inside (fun c mem _ => kept.calls c mem)
    exact (starts c mem).kept_iff.mp (kept.calls c mem)
  · intro fits
    obtain ⟨window, starts⟩ := inside (fun c mem start => start.kept_iff.mpr (fits c mem))
    exact ⟨⟨window.bottom, window.top⟩, fun c mem => (starts c mem).kept_iff.mpr (fits c mem)⟩

theorem boot_grown : ∃ h, Booted h ∧ Started h.heap ∧ h.calls = [firstCall bootPool fullCommit] := by
  obtain ⟨h, started, boot⟩ := boot_starts
  have live : h.live = fun _ => none := by
    obtain ⟨_, _, _, _, _, live⟩ := started
    exact live
  exact ⟨⟨h, [firstCall bootPool fullCommit]⟩, ⟨bootPool, fullCommit, boot, live, rfl⟩, started, rfl⟩

theorem first_chunk_missed {need : Nat} (arena : Arena s [grownBlock 65536])
    (large : 65488 < need) : findFit s.mem need (walkFuel s) s.gHead = some 0 := by
  rcases arena.search need with ⟨pre, b, post, split, _, fits, _⟩ | ⟨_, missed⟩
  · have mem : b ∈ [grownBlock 65536] := by
      rw [split]
      simp
    rw [List.mem_singleton.mp mem] at fits
    simp only [grownBlock, poolHdr] at fits
    omega
  · exact missed

/-- An allocation that returns null takes nothing from the caller's payloads. -/
theorem null_step {h : GrownHeap} {tag : Nat} {e₁ e₂ : GrowEnv}
    (run : exAllocatePoolWithTag h.heap.pool size tag e₁ e₂ = some (0, s)) :
    h.Step (.allocate size tag e₁ e₂)
      ⟨⟨s, h.heap.live⟩, h.calls ++ Op.growCalls h.heap (.allocate size tag e₁ e₂)⟩ := by
  refine ⟨⟨0, run, ?_⟩, rfl⟩
  rw [if_pos rfl]

/-- An allocation whose growth fails is a step that adds this one call. -/
theorem refused_step {h : GrownHeap} {tag : Nat} {e₁ e₂ : GrowEnv}
    (some : size ≠ 0) (count : countCall h.heap.pool = Option.some s)
    (missed : findFit s.mem (poolNeed size) (walkFuel s) s.gHead = Option.some 0)
    (failed : (poolGrow s (poolNeed size) e₁).1 = false) :
    ∃ t, h.Step (.allocate size tag e₁ e₂) t ∧ t.calls = h.calls ++ [⟨s, poolNeed size, e₁⟩] := by
  have run : exAllocatePoolWithTag h.heap.pool size tag e₁ e₂ =
      Option.some (0, (poolGrow s (poolNeed size) e₁).2) := by
    rw [exAllocate_counted some count, allocateAttempts_miss missed, failed,
      if_neg Bool.false_ne_true]
  have calls : Op.growCalls h.heap (.allocate size tag e₁ e₂) = [⟨s, poolNeed size, e₁⟩] := by
    rw [Op.growCalls, if_neg some, count, Option.map_some, Option.getD_some, growCalls,
      if_pos missed, failed, if_neg Bool.false_ne_true]
  have step := null_step run
  rw [calls] at step
  exact ⟨_, step, rfl⟩

/-- After the first chunk an allocation whose growth runs out of frames. -/
theorem second_growth (size k : Nat) (e : GrowEnv) (large : 65488 < poolNeed size)
    (some : size ≠ 0) (short : k < growWant (poolNeed size) / pageSize)
    (out : e.commit k = false) : ∃ h t s, Booted h ∧ h.Step (.allocate size 0 e e) t ∧
      t.calls = [firstCall bootPool fullCommit, ⟨s, poolNeed size, e⟩] ∧
      s.gHeapEnd = mmKernelHeapBase + 65536 := by
  obtain ⟨h, booted, started, first⟩ := boot_grown
  have arena := (started_search started 16 (by decide)).1
  have count := countCall_eq arena
  have counted : Arena { h.heap.pool with calls := wrap32 (h.heap.pool.calls + 1) }
    [grownBlock 65536] := { arena with }
  generalize ({ h.heap.pool with calls := wrap32 (h.heap.pool.calls + 1) } : PoolState) = s
    at count counted
  have failed : (GrowCall.mk s (poolNeed size) e).outcome.1 = false :=
    GrowCall.refused_of short out
  rw [GrowCall.outcome_mk] at failed
  obtain ⟨t, step, calls⟩ := refused_step some count (first_chunk_missed counted large) failed
  exact ⟨h, t, s, booted, step, by rw [calls, first]; rfl, counted.heapEnd⟩

/-- The first chunk is committed inside the window, and so are the two pages of a growth that
then fails. -/
theorem window_kept_two : ∃ h t, Booted h ∧
    h.Step (.allocate 70000 0 ⟨fun k => decide (k < 2), fun _ => 0⟩
      ⟨fun k => decide (k < 2), fun _ => 0⟩) t ∧ t.calls.length = 2 ∧ WindowKept t := by
  obtain ⟨h, t, s, booted, step, calls, stop⟩ := second_growth 70000 2
    ⟨fun k => decide (k < 2), fun _ => 0⟩ (by decide) (by decide) (by decide) (by decide)
  have run : Runs.Reachable Booted GrownHeap.Step t := (Runs.Reachable.of_initial booted).next step
  refine ⟨h, t, booted, step, by rw [calls]; rfl, (window_kept_iff run).mpr ?_⟩
  rw [calls]
  intro c mem
  rcases List.mem_pair.mp mem with rfl | rfl
  · exact Or.inl (show mmKernelHeapBase + growWant (poolGrowChunk - poolHdr) < 2 ^ 64 by decide)
  · refine Or.inl ?_
    show s.gHeapEnd + growWant (poolNeed 70000) < 2 ^ 64
    rw [stop]
    decide

/-- One GiB of page frames and no more. -/
def gibibyteCommit : GrowEnv := ⟨fun k => decide (k < 262144), fun _ => 0⟩

/-- Asked for one GiB, the pool fails, but not before it has mapped page zero. -/
theorem gibibyte_request_leaves_window : ∃ h t, Booted h ∧
    h.Step (.allocate (2 ^ 30) 0 gibibyteCommit gibibyteCommit) t ∧ ¬ WindowKept t := by
  have want : growWant (poolNeed (2 ^ 30)) / pageSize = 262160 := by decide
  obtain ⟨h, t, s, booted, step, calls, stop⟩ := second_growth (2 ^ 30) 262144
    gibibyteCommit (by decide) (by decide) (by rw [want]; decide) (by decide)
  generalize hc : GrowCall.mk s (poolNeed (2 ^ 30)) gibibyteCommit = c
  have wanted : c.want / pageSize = 262160 := by
    rw [← hc]
    exact want
  have commits : c.env.commit = fun k => decide (k < 262144) := by
    rw [← hc]
    rfl
  have start : c.pool.gHeapEnd = mmKernelHeapBase + 65536 := by
    rw [← hc]
    exact stop
  rw [hc] at calls
  refine ⟨h, t, booted, step, ?_⟩
  intro kept
  have zero : 0 ∈ c.pages := by
    refine GrowCall.mem_pages.mpr ⟨262128, ?_, ?_, ?_⟩
    · rw [wanted]
      decide
    · intro j hj
      rw [commits]
      simp only [decide_eq_true_eq]
      omega
    · rw [start]
      decide
  have inside := (kept.calls c (by rw [calls]; simp)).inside 0 zero
  exact absurd inside.1 (by decide)

end Pool
