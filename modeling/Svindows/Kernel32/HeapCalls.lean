import Svindows.Kernel32.HeapShape

/-!
# The calls on a heap

What `HeapAlloc`, `HeapFree` and `HeapReAlloc` do to a heap of good shape: which
blocks are used afterwards, that other memory keeps its headers, and which bytes
are written.
-/

namespace Kernel32

open ByteMemory

/-- What a call on heap `h` may change: headers in the heap's own memory, and the
memory it has been granted. -/
structure Change (s s' : Process) (h : Nat) : Prop where
  first : s'.first = s.first
  heaps : s'.heaps = s.heaps
  requested : s'.requested = s.requested
  grants : s.grants ⊆ s'.grants
  blocks : ∀ x, ¬ Owned s'.grants h x → s'.blocks x = s.blocks x
  headers : s.headers ≤ s'.headers

theorem Change.refl (s : Process) (h : Nat) : Change s s h :=
  ⟨rfl, rfl, rfl, List.Subset.refl _, fun _ _ => rfl, le_rfl⟩

theorem Owned.mono {grants grants' : List Grant} (more : grants ⊆ grants') {h x : Nat}
    (owned : Owned grants h x) : Owned grants' h x := by
  obtain ⟨g, hg, range⟩ := owned
  exact ⟨g, more hg, range⟩

variable {h a size : Nat} {s : Process} {as : List Nat} {blocks : Nat → Header}

theorem Change.trans {s' s'' : Process} (one : Change s s' h)
    (two : Change s' s'' h) : Change s s'' h where
  first := two.first.trans one.first
  heaps := two.heaps.trans one.heaps
  requested := two.requested.trans one.requested
  grants := List.Subset.trans one.grants two.grants
  blocks x out := by
    rw [two.blocks x out, one.blocks x (fun owned => out (owned.mono two.grants))]
  headers := one.headers.trans two.headers

theorem Change.setBlock (owned : Owned s.grants h a) (header : Header) :
    Change s (s.setBlock a header) h where
  first := rfl
  heaps := rfl
  requested := rfl
  grants := List.Subset.refl _
  blocks x out := by
    refine Function.update_of_ne ?_ _ _
    rintro rfl
    exact out owned
  headers := le_rfl

theorem Shape.owned (shape : Shape s h as) (mem : a ∈ as) : Owned s.grants h a :=
  shape.inside a mem a (inBlock_self s.blocks a)

/-- The shape and the headers do not depend on the payload bytes. -/
theorem Shape.setBytes (shape : Shape s h as) (m : Memory) : Shape { s with bytes := m } h as :=
  ⟨shape.links, shape.nonempty, shape.apart, shape.inside, shape.head, shape.offHead, shape.bounded⟩

theorem Change.setBytes {s' : Process} (change : Change s s' h) (m : Memory) :
    Change s { s' with bytes := m } h :=
  ⟨change.first, change.heaps, change.requested, change.grants, change.blocks, change.headers⟩

theorem Change.split {pre post : List Nat}
    (shape : Shape s h (pre ++ [a] ++ post)) : Change s (splitBlock s a size) h := by
  have block : sizeofBlock = 24 := rfl
  simp only [splitBlock]
  split
  · rename_i room
    have one : Change s (s.setBlock (a + sizeofBlock + size)
        ⟨(s.blocks a).size - size - sizeofBlock, (s.blocks a).next, true⟩) h := by
      refine Change.setBlock (shape.inside a (by simp) _ ?_) _
      exact ⟨by omega, by omega⟩
    have owned : Owned (s.setBlock (a + sizeofBlock + size)
        ⟨(s.blocks a).size - size - sizeofBlock, (s.blocks a).next, true⟩).grants h a :=
      shape.owned (by simp)
    have two := one.trans (Change.setBlock owned
      ⟨size, a + sizeofBlock + size, (s.blocks a).free⟩)
    exact ⟨two.first, two.heaps, two.requested, two.grants, two.blocks, Nat.le_succ _⟩
  · exact Change.refl s h

/-- What a successful `HeapAlloc` does: one free block, or a new one, becomes the
used block at `p`, and only its bytes are written. -/
structure Taken (s s' : Process) (h : Nat) (as as' : List Nat) (p size : Nat) : Prop where
  shape : Shape s' h as'
  change : Change s s' h
  used : ∃ m, size ≤ m ∧ ∀ q n, Used s'.blocks as' q n ↔ Used s.blocks as q n ∨ (q = p ∧ n = m)
  new : ∀ n, ¬ Used s.blocks as p n
  kept : as ⊆ as'
  headers : ∀ x, s'.blocks x ≠ s.blocks x → x ∈ as'
  bytes : ∀ x, x < p ∨ p + size ≤ x → s'.bytes x = s.bytes x

theorem used_append {bs : List Nat} {p n : Nat} :
    Used blocks (as ++ bs) p n ↔ Used blocks as p n ∨ Used blocks bs p n := by
  simp only [Used, List.mem_append]
  constructor
  · rintro ⟨a, ha | ha, rest⟩
    · exact .inl ⟨a, ha, rest⟩
    · exact .inr ⟨a, ha, rest⟩
  · rintro (⟨a, ha, rest⟩ | ⟨a, ha, rest⟩)
    · exact ⟨a, .inl ha, rest⟩
    · exact ⟨a, .inr ha, rest⟩

theorem used_congr {blocks' : Nat → Header} (same : ∀ a ∈ as, blocks' a = blocks a) {p n : Nat} :
    Used blocks' as p n ↔ Used blocks as p n := by
  constructor
  · rintro ⟨a, ha, rest⟩
    exact ⟨a, ha, by rwa [← same a ha]⟩
  · rintro ⟨a, ha, rest⟩
    exact ⟨a, ha, by rwa [same a ha]⟩

theorem used_singleton {p n : Nat} : Used blocks [a] p n ↔
      (blocks a).free = false ∧ p = a + sizeofBlock ∧ n = (blocks a).size := by
  simp [Used]

theorem splitBlock_keeps
    (tight : ¬ size + sizeofBlock + 16 ≤ (s.blocks a).size) : splitBlock s a size = s := by
  rw [splitBlock, if_neg tight]

theorem split_spec {pre post : List Nat}
    (shape : Shape s h (pre ++ [a] ++ post)) (fits : size ≤ (s.blocks a).size) :
    ∃ tail, Shape (splitBlock s a size) h (pre ++ [a] ++ (tail ++ post)) ∧
      (∀ b ∈ tail, ((splitBlock s a size).blocks b).free = true) ∧
      (∀ b ∈ pre ++ post, (splitBlock s a size).blocks b = s.blocks b) ∧
      ((splitBlock s a size).blocks a).free = (s.blocks a).free ∧
      size ≤ ((splitBlock s a size).blocks a).size ∧
      (∀ x, (splitBlock s a size).blocks x ≠ s.blocks x → x = a ∨ x ∈ tail) ∧
      (splitBlock s a size).bytes = s.bytes := by
  have block : sizeofBlock = 24 := rfl
  by_cases room : size + sizeofBlock + 16 ≤ (s.blocks a).size
  · have split := shape.split room
    have tail : a + sizeofBlock + size ∉ pre ++ [a] ++ post :=
      shape.not_mem ⟨by omega, by omega⟩ (by omega)
    have other : a + sizeofBlock + size ≠ a := by omega
    refine ⟨[a + sizeofBlock + size], by simpa using split, ?_, ?_, ?_, ?_, ?_, ?_⟩
    · intro b hb
      rw [List.mem_singleton.mp hb]
      simp [splitBlock, room, Process.setBlock, other]
    · intro b hb
      have ne : b ≠ a := shape.ne_of_mem hb
      have ne' : b ≠ a + sizeofBlock + size := by
        rintro rfl
        exact tail (by simp only [List.mem_append] at hb ⊢; tauto)
      simp [splitBlock, room, Process.setBlock, ne, ne']
    · simp [splitBlock, room, Process.setBlock]
    · simp [splitBlock, room, Process.setBlock]
    · intro x changed
      by_contra neither
      simp only [List.mem_singleton, not_or] at neither
      exact changed (by simp [splitBlock, room, Process.setBlock, neither.1, neither.2])
    · simp [splitBlock, room, Process.setBlock]
  · rw [splitBlock_keeps room]
    exact ⟨[], by simpa using shape, fun b hb => absurd hb List.not_mem_nil, fun _ _ => rfl, rfl,
      fits, fun x changed => absurd rfl changed, rfl⟩

theorem not_used_of_free
    (free : ∀ a ∈ as, (blocks a).free = true) (p n : Nat) : ¬ Used blocks as p n := by
  rintro ⟨a, ha, used, -⟩
  rw [free a ha] at used
  exact absurd used.symm Bool.false_ne_true

theorem takeBlock_spec {b : Nat} {pre post : List Nat} (zero : Bool)
    (shape : Shape s h (pre ++ [b] ++ post)) (free : (s.blocks b).free = true)
    (fits : size ≤ (s.blocks b).size) :
    ∃ as', Taken s (takeBlock s b size zero).2 h (pre ++ [b] ++ post) as' (b + sizeofBlock) size := by
  obtain ⟨tail, split, tailFree, kept, -, large, written, bytes⟩ := split_spec shape fits
  have change : Change s (splitBlock s b size) h := Change.split shape
  simp only [takeBlock]
  generalize splitBlock s b size = t at *
  have others : ∀ a ∈ pre ++ (tail ++ post), a ≠ b := fun a ha => split.ne_of_mem ha
  have marked := split.setFree false
  have changed := change.trans (Change.setBlock (split.owned (by simp : b ∈ _))
    { t.blocks b with free := false })
  have head : (t.setBlock b { t.blocks b with free := false }).blocks b =
      { t.blocks b with free := false } := by simp [Process.setBlock]
  have rest : ∀ a ∈ pre ++ (tail ++ post),
      (t.setBlock b { t.blocks b with free := false }).blocks a = t.blocks a :=
    fun a ha => Function.update_of_ne (others a ha) _ _
  have unwritten : (t.setBlock b { t.blocks b with free := false }).bytes = s.bytes := bytes
  have headers : ∀ x, (t.setBlock b { t.blocks b with free := false }).blocks x ≠ s.blocks x →
      x ∈ pre ++ [b] ++ (tail ++ post) := by
    intro x changed
    by_cases here : x = b
    · simp [here]
    · rcases written x (by rwa [setBlock_other here] at changed) with
        rfl | mem
      · simp
      · simp [mem]
  generalize t.setBlock b { t.blocks b with free := false } = t' at *
  have taken : Taken s t' h (pre ++ [b] ++ post) (pre ++ [b] ++ (tail ++ post))
      (b + sizeofBlock) size := by
    refine ⟨marked, changed, ⟨(t.blocks b).size, large, ?_⟩, ?_, ?_, headers,
      fun x _ => by rw [unwritten]⟩
    · intro q n
      have front : Used t'.blocks pre q n ↔ Used s.blocks pre q n := by
        refine used_congr fun a ha => ?_
        rw [rest a (by simp [ha]), kept a (by simp [ha])]
      have back : Used t'.blocks post q n ↔ Used s.blocks post q n := by
        refine used_congr fun a ha => ?_
        rw [rest a (by simp [ha]), kept a (by simp [ha])]
      have middle : ¬ Used t'.blocks tail q n := by
        refine not_used_of_free (fun a ha => ?_) q n
        rw [rest a (by simp [ha]), tailFree a ha]
      have old : ¬ Used s.blocks [b] q n := by
        rw [used_singleton, free]
        simp
      have new : Used t'.blocks [b] q n ↔ q = b + sizeofBlock ∧ n = (t.blocks b).size := by
        rw [used_singleton, head]
        simp
      simp only [used_append, front, back, middle, old, new, false_or, or_false]
      exact or_right_comm
    · rintro n ⟨a, ha, used, same, -⟩
      have here : a = b := by omega
      rw [here, free] at used
      exact absurd used.symm Bool.false_ne_true
    · intro a
      simp only [List.mem_append]
      tauto
  cases zero with
  | false => exact ⟨_, taken⟩
  | true =>
    refine ⟨_, taken.shape.setBytes _, taken.change.setBytes _, taken.used, taken.new, taken.kept,
      taken.headers, ?_⟩
    intro x out
    rw [← unwritten]
    exact fill_outside out

theorem alignUp8_le (n : Nat) : n ≤ alignUp8 n := by
  simp only [alignUp8]
  omega

theorem growPayload_le (wanted : Nat) : wanted ≤ growPayload wanted := by
  have := alignUp8_le wanted
  simp only [growPayload]
  split <;> omega

/-- A fresh range is not the heap's. -/
theorem Fresh.not_owned {base len x : Nat} (fresh : Fresh s base len)
    (lo : base ≤ x) (hi : x < base + len) : ¬ Owned s.grants h x := by
  rintro ⟨g, hg, -, above, below⟩
  have := fresh.2.2 g hg
  omega

theorem Fresh.outside {base len : Nat} (fresh : Fresh s base len) (some : 0 < len)
    (shape : Shape s h as) : base ∉ as :=
  fun mem => fresh.not_owned le_rfl (by omega) (shape.owned mem)

/-- `u` is `s` with a free block of `n` bytes at `base` that `last` links to. -/
structure Appended (s u : Process) (h last base n : Nat) : Prop where
  change : Change s u h
  link : u.blocks last = { s.blocks last with next := base }
  block : u.blocks base = ⟨n, 0, true⟩
  others : ∀ a, a ≠ last → a ≠ base → u.blocks a = s.blocks a
  grants : u.grants = ⟨h, base, sizeofBlock + n⟩ :: s.grants
  headers : u.headers = s.headers + 1
  bytes : u.bytes = s.bytes

section Grow

variable {pre : List Nat} {last base n wanted : Nat} {u : Process}

theorem heapGrow_appends (shape : Shape s h (pre ++ [last]))
    (fresh : Fresh s base (sizeofBlock + growPayload wanted)) :
    ∃ u, heapGrow s h wanted (some base) = (some base, u) ∧
      Appended s u h last base (growPayload wanted) := by
  have block : sizeofBlock = 24 := rfl
  have outside := fresh.outside (by omega) shape
  have other : last ≠ base := by
    rintro rfl
    exact outside (by simp)
  -- The process once the new block has its header, before it is linked.
  let t : Process := ({ s with
      grants := ⟨h, base, sizeofBlock + growPayload wanted⟩ :: s.grants
      headers := s.headers + 1 } : Process).setBlock base ⟨growPayload wanted, 0, true⟩
  have kept : ∀ a ∈ pre ++ [last], t.blocks a = s.blocks a := by
    intro a ha
    refine Function.update_of_ne ?_ _ _
    rintro rfl
    exact outside ha
  have walked : lastBlock t.blocks t.headers (t.first h) = last := by
    refine lastBlock_eq ((links_congr kept).mpr shape.links) ?_
    exact shape.bounded.trans (Nat.le_succ _)
  have found : heapGrow s h wanted (some base) =
      (some base, t.setBlock last { t.blocks last with next := base }) := by
    simp only [heapGrow]
    rw [← walked]
  refine ⟨_, found, ⟨rfl, rfl, rfl, List.subset_cons_self _ _, ?_, Nat.le_succ _⟩, ?_, ?_, ?_, rfl,
    rfl, rfl⟩
  · intro x out
    have notLast : x ≠ last := by
      rintro rfl
      exact out ((shape.owned (by simp)).mono (List.subset_cons_self _ _))
    have notBase : x ≠ base := by
      rintro rfl
      exact out ⟨_, List.mem_cons_self .., rfl, le_rfl, by simp only; omega⟩
    simp [Process.setBlock, notLast, notBase, t]
  · rw [← kept last (by simp)]
    exact Function.update_self ..
  · simp [Process.setBlock, other.symm, t]
  · intro a notLast notBase
    simp [Process.setBlock, notLast, notBase, t]

theorem Appended.sizes (app : Appended s u h last base n) {a : Nat} (other : a ≠ base) :
    (u.blocks a).size = (s.blocks a).size ∧ (u.blocks a).free = (s.blocks a).free := by
  by_cases here : a = last
  · rw [here, app.link]
    exact ⟨rfl, rfl⟩
  · rw [app.others a here other]
    exact ⟨rfl, rfl⟩

theorem Appended.shape (app : Appended s u h last base n) (shape : Shape s h (pre ++ [last]))
    (fresh : Fresh s base (sizeofBlock + n)) : Shape u h (pre ++ [last] ++ [base]) := by
  have block : sizeofBlock = 24 := rfl
  have outside := fresh.outside (by omega) shape
  have old {a : Nat} (ha : a ∈ pre ++ [last]) {x : Nat} (inA : InBlock u.blocks a x) :
      InBlock s.blocks a x :=
    (inBlock_congr (app.sizes (by rintro rfl; exact outside ha)).1).mp inA
  have new {a x : Nat} (ha : a ∈ [base]) (inA : InBlock u.blocks a x) :
      base ≤ x ∧ x < base + (sizeofBlock + n) := by
    rw [List.mem_singleton.mp ha] at inA
    simp only [InBlock, app.block] at inA
    omega
  refine ⟨?_, by simp, ?_, ?_, ?_, ?_, ?_⟩
  · obtain ⟨m, left, rfl, nz, -⟩ := links_append.mp shape.links
    have front : ∀ a ∈ pre, u.blocks a = s.blocks a := by
      intro a ha
      refine app.others a ?_ (by rintro rfl; exact outside (by simp [ha]))
      rintro rfl
      exact (List.nodup_append.mp shape.apart.nodup).2.2 a ha a (by simp) rfl
    rw [app.change.first]
    refine links_append.mpr ⟨base, links_append.mpr ⟨m, (links_congr front).mpr left, rfl, nz, ?_⟩,
      rfl, Nat.pos_iff_ne_zero.mp fresh.1, ?_⟩
    · rw [app.link]
      rfl
    · rw [app.block]
      rfl
  · refine List.pairwise_append.mpr ⟨?_, List.pairwise_singleton _ _, ?_⟩
    · refine List.Pairwise.imp_of_mem ?_ shape.apart
      intro a b ha hb separate x inA inB
      exact separate x (old ha inA) (old hb inB)
    · intro a ha b hb x inA inB
      obtain ⟨low, high⟩ := new hb inB
      exact fresh.not_owned low high (shape.inside a ha x (old ha inA))
  · intro a ha x inA
    rw [app.grants]
    rcases List.mem_append.mp ha with ha | ha
    · exact (shape.inside a ha x (old ha inA)).mono (List.subset_cons_self _ _)
    · obtain ⟨low, high⟩ := new ha inA
      exact ⟨_, List.mem_cons_self .., rfl, low, high⟩
  · intro x lo hi
    rw [app.grants]
    exact (shape.head x lo hi).mono (List.subset_cons_self _ _)
  · intro a ha x inA
    rcases List.mem_append.mp ha with ha | ha
    · exact shape.offHead a ha x (old ha inA)
    · obtain ⟨low, high⟩ := new ha inA
      by_contra inHead
      exact fresh.not_owned low high (shape.head x (by omega) (by omega))
  · have bounded := shape.bounded
    rw [app.headers]
    simp only [List.length_append, List.length_cons, List.length_nil] at bounded ⊢
    omega

theorem Appended.used (app : Appended s u h last base n) (outside : base ∉ as) (q m : Nat) :
    Used u.blocks (as ++ [base]) q m ↔ Used s.blocks as q m := by
  have new : ¬ Used u.blocks [base] q m := by
    rw [used_singleton, app.block]
    simp
  have sizes (a : Nat) (ha : a ∈ as) := app.sizes (a := a) (by rintro rfl; exact outside ha)
  rw [used_append, or_iff_left new]
  constructor
  · rintro ⟨a, ha, free, rfl, rfl⟩
    exact ⟨a, ha, by rw [← (sizes a ha).2, free], rfl, (sizes a ha).1⟩
  · rintro ⟨a, ha, free, rfl, rfl⟩
    exact ⟨a, ha, by rw [(sizes a ha).2, free], rfl, (sizes a ha).1.symm⟩

/-- A new segment becomes the last, free block of the heap. -/
theorem heapGrow_spec (shape : Shape s h as)
    (fresh : Fresh s base (sizeofBlock + growPayload wanted)) :
    ∃ s', heapGrow s h wanted (some base) = (some base, s') ∧ Shape s' h (as ++ [base]) ∧
      Change s s' h ∧ s'.blocks base = ⟨growPayload wanted, 0, true⟩ ∧ s'.bytes = s.bytes ∧
      (∀ x, s'.blocks x ≠ s.blocks x → x ∈ as ++ [base]) ∧
      ∀ q n, Used s'.blocks (as ++ [base]) q n ↔ Used s.blocks as q n := by
  obtain ⟨pre, last, rfl⟩ : ∃ pre last, as = pre ++ [last] :=
    ⟨_, _, (List.dropLast_append_getLast shape.nonempty).symm⟩
  obtain ⟨u, found, app⟩ := heapGrow_appends shape fresh
  have block : sizeofBlock = 24 := rfl
  refine ⟨u, found, app.shape shape fresh, app.change, app.block, app.bytes, ?_,
    app.used (fresh.outside (by omega) shape)⟩
  intro x changed
  by_contra neither
  simp only [List.mem_append, List.mem_singleton, not_or] at neither
  exact changed (app.others x neither.1.2 neither.2)

end Grow

/-- The bytes that `HeapAlloc` looks for. -/
def allocSize (bytes : Nat) : Nat := alignUp8 (if bytes ≠ 0 then bytes else 1)

theorem allocSize_le (bytes : Nat) : bytes ≤ allocSize bytes := by
  simp only [allocSize]
  split
  · exact alignUp8_le bytes
  · omega

theorem Taken.of_grown {t s' : Process} {p : Nat} {bs as' : List Nat}
    (taken : Taken t s' h bs as' p size) (change : Change s t h)
    (used : ∀ q n, Used t.blocks bs q n ↔ Used s.blocks as q n) (kept : as ⊆ bs)
    (headers : ∀ x, t.blocks x ≠ s.blocks x → x ∈ bs) (bytes : t.bytes = s.bytes) :
    Taken s s' h as as' p size where
  shape := taken.shape
  change := change.trans taken.change
  used := by
    obtain ⟨m, fits, after⟩ := taken.used
    refine ⟨m, fits, fun q n => ?_⟩
    rw [after, used]
  new n := by
    rw [← used]
    exact taken.new n
  kept := List.Subset.trans kept taken.kept
  headers x changed := by
    by_cases same : s'.blocks x = t.blocks x
    · exact taken.kept (headers x (by rwa [same] at changed))
    · exact taken.headers x same
  bytes x out := by
    rw [taken.bytes x out, bytes]

/-- `HeapAlloc` fails and changes nothing, or takes a block. -/
theorem heapAlloc_spec (shape : Shape s h as) (zero : Bool) (bytes : Nat) {base : Option Nat}
    (fresh : ∀ b, base = some b → Fresh s b (sizeofBlock + growPayload (allocSize bytes))) :
    heapAlloc s h zero bytes base = (0, s) ∨
      ∃ b as', (heapAlloc s h zero bytes base).1 = b + sizeofBlock ∧
        Taken s (heapAlloc s h zero bytes base).2 h as as' (b + sizeofBlock) (allocSize bytes) := by
  simp only [heapAlloc]
  split
  · exact .inl rfl
  · rw [show alignUp8 (if bytes ≠ 0 then bytes else 1) = allocSize bytes from rfl]
    cases found : firstFit s.blocks (allocSize bytes) s.headers (s.first h) with
    | some b =>
      obtain ⟨mem, free, fits⟩ := firstFit_some shape.links found
      obtain ⟨pre, post, rfl⟩ := List.append_of_mem mem
      have split : pre ++ b :: post = pre ++ [b] ++ post := by simp
      rw [split] at shape ⊢
      obtain ⟨as', taken⟩ := takeBlock_spec zero shape free fits
      exact .inr ⟨b, as', rfl, taken⟩
    | none =>
      cases base with
      | none => exact .inl rfl
      | some base =>
        obtain ⟨t, grown, shape', change, header, unwritten, written, used⟩ :=
          heapGrow_spec shape (fresh base rfl)
        have whole : as ++ [base] = as ++ [base] ++ [] := by simp
        have fits : allocSize bytes ≤ (t.blocks base).size := by
          rw [header]
          exact growPayload_le _
        rw [whole] at shape' used written
        obtain ⟨as', taken⟩ := takeBlock_spec zero shape' (by rw [header]) fits
        simp only [grown]
        refine .inr ⟨base, as', rfl, taken.of_grown change used ?_ written unwritten⟩
        simp

end Kernel32
