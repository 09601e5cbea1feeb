import Svindows.Kernel32.HeapCalls

/-!
# Freeing and resizing

`HeapFree` marks a block and merges free neighbours in one pass over the list.
`HeapReAlloc` shrinks a block, lets it take over its successor, or moves it. Taking
over the successor keeps the shape only where the two blocks are adjacent.
-/

namespace Kernel32

open ByteMemory

/-- A header at `x` is that of a block, or lies unused in the payload of a free one. -/
def HeaderAt (blocks : Nat → Header) (as : List Nat) (x : Nat) : Prop :=
  ∃ a ∈ as, x = a ∨ ((blocks a).free = true ∧ a + sizeofBlock ≤ x ∧ x ≤ a + (blocks a).size)

/-- What merging free blocks does to the list. -/
structure Swept (blocks blocks' : Nat → Header) (as as' : List Nat) : Prop where
  used : ∀ q n, Used blocks' as' q n ↔ Used blocks as q n
  headers : ∀ x, HeaderAt blocks as x → HeaderAt blocks' as' x
  changed : ∀ x, blocks' x ≠ blocks x → x ∈ as
  subset : as' ⊆ as

theorem Swept.refl (blocks : Nat → Header) (as : List Nat) : Swept blocks blocks as as :=
  ⟨fun _ _ => Iff.rfl, fun _ at' => at', fun _ changed => absurd rfl changed, List.Subset.refl _⟩

variable {as post pre : List Nat} {b h bytes : Nat} {s : Process}

theorem Swept.trans {blocks blocks' blocks'' : Nat → Header} {as' as'' : List Nat}
    (one : Swept blocks blocks' as as') (two : Swept blocks' blocks'' as' as'') :
    Swept blocks blocks'' as as'' where
  used q n := (two.used q n).trans (one.used q n)
  headers x at' := two.headers x (one.headers x at')
  changed x changed := by
    by_cases same : blocks'' x = blocks' x
    · exact one.changed x (by rwa [same] at changed)
    · exact one.subset (two.changed x same)
  subset := List.Subset.trans two.subset one.subset

/-- One merge of the forward pass. -/
theorem Swept.merge {a : Nat}
    (shape : Shape s h (pre ++ [a, b] ++ post)) (freeA : (s.blocks a).free = true)
    (freeB : (s.blocks b).free = true) (adjacent : a + sizeofBlock + (s.blocks a).size = b) :
    Swept s.blocks (s.setBlock a ⟨(s.blocks a).size + (sizeofBlock + (s.blocks b).size),
      (s.blocks b).next, (s.blocks a).free⟩).blocks (pre ++ [a, b] ++ post) (pre ++ [a] ++ post) := by
  have merged := shape.merge adjacent
  have others : ∀ c ∈ pre ++ post, c ≠ a := fun c hc => merged.ne_of_mem hc
  generalize same : s.setBlock a ⟨(s.blocks a).size + (sizeofBlock + (s.blocks b).size),
      (s.blocks b).next, (s.blocks a).free⟩ = t at *
  have head : t.blocks a = ⟨(s.blocks a).size + (sizeofBlock + (s.blocks b).size),
      (s.blocks b).next, true⟩ := by
    rw [← same, setBlock_here, freeA]
  have rest : ∀ c, c ≠ a → t.blocks c = s.blocks c := by
    intro c ne
    rw [← same, setBlock_other ne]
  refine ⟨?_, ?_, ?_, ?_⟩
  · intro q n
    have front : Used t.blocks pre q n ↔ Used s.blocks pre q n :=
      used_congr fun c hc => rest c (others c (List.mem_append_left _ hc))
    have back : Used t.blocks post q n ↔ Used s.blocks post q n :=
      used_congr fun c hc => rest c (others c (List.mem_append_right _ hc))
    have new : ¬ Used t.blocks [a] q n := by
      refine not_used_of_free (fun c hc => ?_) q n
      rw [List.mem_singleton.mp hc, head]
    have old : ¬ Used s.blocks [a, b] q n := by
      refine not_used_of_free (fun c hc => ?_) q n
      simp only [List.mem_cons, List.not_mem_nil, or_false] at hc
      rcases hc with rfl | rfl
      · exact freeA
      · exact freeB
    simp only [used_append, front, back, new, old]
  · rintro x ⟨c, hc, at'⟩
    -- What was in either block is now in block `a`.
    have here : c = a ∨ c = b → HeaderAt t.blocks (pre ++ [a] ++ post) x := by
      intro which
      refine ⟨a, by simp, ?_⟩
      rw [head]
      have block : sizeofBlock = 24 := rfl
      rcases which with rfl | rfl
      · rcases at' with rfl | ⟨-, lo, hi⟩
        · exact .inl rfl
        · exact .inr ⟨rfl, lo, by simp only; omega⟩
      · rcases at' with rfl | ⟨-, lo, hi⟩
        · exact .inr ⟨rfl, by omega, by simp only; omega⟩
        · exact .inr ⟨rfl, by omega, by simp only; omega⟩
    have elsewhere : c ∈ pre ++ post → HeaderAt t.blocks (pre ++ [a] ++ post) x := by
      intro mem
      refine ⟨c, by simp only [List.mem_append] at mem ⊢; tauto, ?_⟩
      rwa [rest c (others c mem)]
    simp only [List.mem_append, List.mem_cons, List.not_mem_nil, or_false] at hc elsewhere
    tauto
  · intro x changed
    by_cases here : x = a
    · simp [here]
    · exact absurd (rest x here) changed
  · intro c
    simp only [List.mem_append, List.mem_cons, List.not_mem_nil, or_false]
    tauto

theorem Shape.next {c : Nat} {rest : List Nat} (shape : Shape s h (pre ++ c :: rest)) :
    c ≠ 0 ∧ Links s.blocks (s.blocks c).next rest 0 := by
  obtain ⟨m, -, rfl, nz, links⟩ := links_append.mp shape.links
  exact ⟨nz, links⟩

/-- The forward pass of `HeapFree` from block `c` on, for any number of rounds. -/
theorem coalesce_spec (fuel : Nat) (pre : List Nat) {s : Process} {h c : Nat} {rest : List Nat}
    (shape : Shape s h (pre ++ c :: rest)) :
    ∃ as', Shape { s with blocks := coalesce s.blocks fuel c } h as' ∧
      Swept s.blocks (coalesce s.blocks fuel c) (pre ++ c :: rest) as' := by
  induction fuel generalizing s c pre rest with
  | zero => exact ⟨_, shape, Swept.refl _ _⟩
  | succ fuel ih =>
    obtain ⟨nz, links⟩ := shape.next
    cases rest with
    | nil =>
      have ended : (s.blocks c).next = 0 := links
      have stop : coalesce s.blocks (fuel + 1) c = s.blocks := by
        simp [coalesce, ended]
      rw [stop]
      exact ⟨_, shape, Swept.refl _ _⟩
    | cons n rest =>
      obtain ⟨next, nz', -⟩ := links
      have going : ¬ (c = 0 ∨ (s.blocks c).next = 0) := by
        rw [next]
        exact not_or.mpr ⟨nz, nz'⟩
      simp only [coalesce]
      rw [if_neg going, next]
      split
      · rename_i merges
        obtain ⟨freeC, freeN, adjacent⟩ := merges
        have pair : pre ++ c :: n :: rest = pre ++ [c, n] ++ rest := by simp
        rw [pair] at shape ⊢
        have merged := shape.merge adjacent
        have swept := Swept.merge shape freeC freeN adjacent
        have single : pre ++ [c] ++ rest = pre ++ c :: rest := by simp
        rw [single] at merged swept
        obtain ⟨as', shape', swept'⟩ := ih pre merged
        exact ⟨as', shape', swept.trans swept'⟩
      · have step : pre ++ c :: n :: rest = (pre ++ [c]) ++ n :: rest := by simp
        rw [step] at shape ⊢
        exact ih (pre ++ [c]) shape

/-- A call leaves heap `h` with the blocks `as'`, and every header that it wrote is
that of a block or lies in a free one. -/
structure Outcome (s s' : Process) (h : Nat) (as' : List Nat) : Prop where
  shape : Shape s' h as'
  change : Change s s' h
  clear : ∀ x, s'.blocks x ≠ s.blocks x → HeaderAt s'.blocks as' x

theorem Taken.outcome {s' : Process} {p size : Nat} {as' : List Nat}
    (taken : Taken s s' h as as' p size) : Outcome s s' h as' :=
  ⟨taken.shape, taken.change, fun x changed => ⟨x, taken.headers x changed, .inl rfl⟩⟩

theorem Shape.first_eq (shape : Shape s h as) : ∃ rest, as = s.first h :: rest := by
  have links := shape.links
  cases as with
  | nil => exact absurd rfl shape.nonempty
  | cons a rest => exact ⟨rest, by rw [links.1]⟩

theorem heapFree_spec {ptr m : Nat} (shape : Shape s h as)
    (hh : h ≠ 0) (used : Used s.blocks as ptr m) :
    ∃ as', Outcome s (heapFree s h ptr) h as' ∧
      (∀ q n, Used (heapFree s h ptr).blocks as' q n ↔ Used s.blocks as q n ∧ q ≠ ptr) ∧
      (heapFree s h ptr).bytes = s.bytes ∧
      ∀ x ∈ as, HeaderAt (heapFree s h ptr).blocks as' x := by
  have block : sizeofBlock = 24 := rfl
  obtain ⟨b, mem, busy, rfl, rfl⟩ := used
  obtain ⟨pre, post, rfl⟩ := List.append_of_mem mem
  have split : pre ++ b :: post = pre ++ [b] ++ post := by simp
  rw [split] at shape ⊢
  have marked := shape.setFree true
  have rest : ∀ c ∈ pre ++ post, c ≠ b := fun c hc => shape.ne_of_mem hc
  have unmarked : ∀ q n, Used (s.setBlock b { s.blocks b with free := true }).blocks
      (pre ++ [b] ++ post) q n ↔ Used s.blocks (pre ++ [b] ++ post) q n ∧ q ≠ b + sizeofBlock := by
    intro q n
    constructor
    · rintro ⟨c, hc, free, rfl, rfl⟩
      have ne : c ≠ b := by
        rintro rfl
        rw [setBlock_here] at free
        exact absurd free.symm Bool.false_ne_true
      rw [setBlock_other ne] at free
      exact ⟨⟨c, hc, free, rfl, by rw [setBlock_other ne]⟩, by omega⟩
    · rintro ⟨⟨c, hc, free, rfl, rfl⟩, ne⟩
      have ne' : c ≠ b := by
        rintro rfl
        exact ne rfl
      exact ⟨c, hc, by rw [setBlock_other ne', free], rfl, by rw [setBlock_other ne']⟩
  have change : Change s (s.setBlock b { s.blocks b with free := true }) h :=
    Change.setBlock (shape.owned (by simp)) _
  have result : heapFree s h (b + sizeofBlock) =
      { s.setBlock b { s.blocks b with free := true } with
        blocks := coalesce (s.setBlock b { s.blocks b with free := true }).blocks
          (s.setBlock b { s.blocks b with free := true }).headers
          ((s.setBlock b { s.blocks b with free := true }).first h) } := by
    have nonzero : ¬ (h = 0 ∨ b + sizeofBlock = 0) := by omega
    have back : b + sizeofBlock - sizeofBlock = b := by omega
    rw [heapFree, if_neg nonzero]
    simp only [back]
  have only : ∀ x, (s.setBlock b { s.blocks b with free := true }).blocks x ≠ s.blocks x →
      x ∈ pre ++ [b] ++ post := by
    intro x changed
    by_cases here : x = b
    · simp [here]
    · exact absurd (setBlock_other here _) changed
  have bytes : (s.setBlock b { s.blocks b with free := true }).bytes = s.bytes := rfl
  rw [result]
  generalize s.setBlock b { s.blocks b with free := true } = t at *
  obtain ⟨tail, front⟩ := marked.first_eq
  rw [front] at marked
  obtain ⟨as', shape', swept⟩ := coalesce_spec t.headers [] marked
  simp only [List.nil_append] at swept
  rw [← front] at swept
  have headers : ∀ x ∈ pre ++ [b] ++ post, HeaderAt _ as' x :=
    fun x hx => swept.headers x ⟨x, hx, .inl rfl⟩
  have written : ∀ x, coalesce t.blocks t.headers (t.first h) x ≠ s.blocks x →
      x ∈ pre ++ [b] ++ post := by
    intro x changed
    by_cases same : coalesce t.blocks t.headers (t.first h) x = t.blocks x
    · exact only x (by rwa [same] at changed)
    · exact swept.changed x same
  refine ⟨as', ⟨shape', ?_, fun x changed => headers x (written x changed)⟩, ?_, ?_, headers⟩
  · refine ⟨change.first, change.heaps, change.requested, change.grants, ?_, change.headers⟩
    intro x out
    by_contra changed
    exact out ((shape.owned (written x changed)).mono change.grants)
  · intro q n
    exact (swept.used q n).trans (unmarked q n)
  · exact bytes

/-- The payloads of two used blocks have no byte in common. -/
theorem Shape.used_apart {p n q m : Nat} (shape : Shape s h as)
    (one : Used s.blocks as p n) (two : Used s.blocks as q m) (ne : p ≠ q) {x : Nat} (lo : p ≤ x)
    (hi : x < p + n) : x < q ∨ q + m ≤ x := by
  obtain ⟨a, ha, -, rfl, rfl⟩ := one
  obtain ⟨b, hb, -, rfl, rfl⟩ := two
  have block : sizeofBlock = 24 := rfl
  by_contra overlap
  have inA : InBlock s.blocks a x := ⟨by omega, by omega⟩
  have inB : InBlock s.blocks b x := ⟨by omega, by omega⟩
  exact shape.apart.of_mem ha hb (by omega) inA inB

theorem Shape.used_others (shape : Shape s h (pre ++ [b] ++ post)) (q n : Nat) :
    Used s.blocks (pre ++ [b] ++ post) q n ∧ q ≠ b + sizeofBlock ↔
      Used s.blocks pre q n ∨ Used s.blocks post q n := by
  constructor
  · rintro ⟨⟨a, ha, busy, rfl, rfl⟩, ne⟩
    simp only [List.mem_append, List.mem_singleton] at ha
    rcases ha with (ha | rfl) | ha
    · exact .inl ⟨a, ha, busy, rfl, rfl⟩
    · exact absurd rfl ne
    · exact .inr ⟨a, ha, busy, rfl, rfl⟩
  · have other : ∀ a ∈ pre ++ post, a + sizeofBlock ≠ b + sizeofBlock := by
      intro a ha
      have := shape.ne_of_mem ha
      omega
    rintro (⟨a, ha, busy, rfl, rfl⟩ | ⟨a, ha, busy, rfl, rfl⟩)
    · exact ⟨⟨a, by simp [ha], busy, rfl, rfl⟩, other a (by simp [ha])⟩
    · exact ⟨⟨a, by simp [ha], busy, rfl, rfl⟩, other a (by simp [ha])⟩

/-- What a successful `HeapReAlloc` does: the block at `ptr` is used no more, the one
at `r` is, with at least the bytes asked for and the old contents as far as they go. -/
structure Moved (s s' : Process) (h : Nat) (as as' : List Nat) (ptr old bytes r : Nat) : Prop where
  outcome : Outcome s s' h as'
  used : ∃ m, bytes ≤ m ∧ (∀ q n, Used s'.blocks as' q n ↔
    (Used s.blocks as q n ∧ q ≠ ptr) ∨ (q = r ∧ n = m)) ∧
      ∀ x, x < r ∨ r + m ≤ x → s'.bytes x = s.bytes x
  new : r = ptr ∨ ∀ n, ¬ Used s.blocks as r n
  contents : ∀ i, i < old → i < bytes → s'.bytes (r + i) = s.bytes (ptr + i)

/-- If the block at `ptr` grows in place, then into a block that is adjacent to it. -/
def GrowsAdjacent (s : Process) (ptr bytes : Nat) : Prop :=
  let b := ptr - sizeofBlock
  (s.blocks b).size < alignUp8 bytes → growsInPlace s b (alignUp8 bytes) = true →
    b + sizeofBlock + (s.blocks b).size = (s.blocks b).next

theorem shrink_spec (shape : Shape s h (pre ++ [b] ++ post)) (busy : (s.blocks b).free = false)
    (fits : alignUp8 bytes ≤ (s.blocks b).size) :
    ∃ as', Moved s (splitBlock s b (alignUp8 bytes)) h (pre ++ [b] ++ post) as' (b + sizeofBlock)
      (s.blocks b).size bytes (b + sizeofBlock) := by
  obtain ⟨tail, split, tailFree, kept, same, large, written, unwritten⟩ := split_spec shape fits
  have change : Change s (splitBlock s b (alignUp8 bytes)) h := Change.split shape
  generalize splitBlock s b (alignUp8 bytes) = t at *
  refine ⟨_, ⟨split, change, ?_⟩, ⟨(t.blocks b).size, (alignUp8_le bytes).trans large, ?_, ?_⟩,
    .inl rfl, fun i _ _ => by rw [unwritten]⟩
  · intro x changed
    refine ⟨x, ?_, .inl rfl⟩
    rcases written x changed with rfl | mem
    · simp
    · simp [mem]
  · intro q n
    have front : Used t.blocks pre q n ↔ Used s.blocks pre q n :=
      used_congr fun a ha => kept a (by simp [ha])
    have back : Used t.blocks post q n ↔ Used s.blocks post q n :=
      used_congr fun a ha => kept a (by simp [ha])
    have middle : ¬ Used t.blocks tail q n := not_used_of_free tailFree q n
    have new : Used t.blocks [b] q n ↔ q = b + sizeofBlock ∧ n = (t.blocks b).size := by
      rw [used_singleton, same, busy]
      simp
    rw [shape.used_others q n]
    simp only [used_append, front, back, middle, new, false_or]
    exact or_right_comm
  · intro x _
    rw [unwritten]

/-- A used block takes over its adjacent free successor. -/
theorem growInPlace_spec {t : Process} {n : Nat} (zero : Bool)
    (shape : Shape s h (pre ++ [b, n] ++ post)) (busy : (s.blocks b).free = false)
    (free : (s.blocks n).free = true) (adjacent : b + sizeofBlock + (s.blocks b).size = n)
    (small : (s.blocks b).size < alignUp8 bytes)
    (fits : alignUp8 bytes ≤ (s.blocks b).size + sizeofBlock + (s.blocks n).size)
    (grown : t = s.setBlock b ⟨(s.blocks b).size + (sizeofBlock + (s.blocks n).size),
      (s.blocks n).next, (s.blocks b).free⟩) :
    Moved s
      (if zero then
        { t with
          bytes := fill t.bytes (b + sizeofBlock + (s.blocks b).size)
            (alignUp8 bytes - (s.blocks b).size) 0 }
      else t)
      h (pre ++ [b, n] ++ post) (pre ++ [b] ++ post) (b + sizeofBlock) (s.blocks b).size bytes
      (b + sizeofBlock) := by
  have merged : Shape t h (pre ++ [b] ++ post) := by
    rw [grown]
    exact shape.merge adjacent
  have others : ∀ c ∈ pre ++ post, c ≠ b := fun c hc => merged.ne_of_mem hc
  have change : Change s t h := by
    rw [grown]
    exact Change.setBlock (shape.owned (by simp)) _
  have head : t.blocks b = ⟨(s.blocks b).size + (sizeofBlock + (s.blocks n).size),
      (s.blocks n).next, (s.blocks b).free⟩ := by
    rw [grown, setBlock_here]
  have rest : ∀ c, c ≠ b → t.blocks c = s.blocks c := by
    intro c ne
    rw [grown, setBlock_other ne]
  have unwritten : t.bytes = s.bytes := by
    rw [grown]
    rfl
  have wanted := alignUp8_le bytes
  have clear : ∀ x, t.blocks x ≠ s.blocks x → HeaderAt t.blocks (pre ++ [b] ++ post) x := by
    intro x changed
    refine ⟨x, ?_, .inl rfl⟩
    by_contra out
    exact changed (rest x (by rintro rfl; exact out (by simp)))
  have used : ∀ q k, Used t.blocks (pre ++ [b] ++ post) q k ↔
      (Used s.blocks (pre ++ [b, n] ++ post) q k ∧ q ≠ b + sizeofBlock) ∨
        (q = b + sizeofBlock ∧ k = (s.blocks b).size + (sizeofBlock + (s.blocks n).size)) := by
    intro q k
    have front : Used t.blocks pre q k ↔ Used s.blocks pre q k :=
      used_congr fun c hc => rest c (others c (List.mem_append_left _ hc))
    have back : Used t.blocks post q k ↔ Used s.blocks post q k :=
      used_congr fun c hc => rest c (others c (List.mem_append_right _ hc))
    have new : Used t.blocks [b] q k ↔ q = b + sizeofBlock ∧
        k = (s.blocks b).size + (sizeofBlock + (s.blocks n).size) := by
      rw [used_singleton, head, busy]
      simp
    have gone : ¬ Used s.blocks [n] q k := by
      rw [used_singleton, free]
      simp
    have pair : pre ++ [b, n] ++ post = pre ++ [b] ++ ([n] ++ post) := by simp
    rw [pair] at shape ⊢
    rw [shape.used_others q k]
    simp only [used_append, front, back, new, gone, false_or]
    exact or_right_comm
  cases zero with
  | false =>
    refine ⟨⟨merged, change, clear⟩, ⟨_, by omega, used, ?_⟩, .inl rfl, ?_⟩
    · intro x _
      exact congrFun unwritten x
    · intro i _ _
      exact congrFun unwritten _
  | true =>
    refine ⟨⟨merged.setBytes _, change.setBytes _, clear⟩, ⟨_, by omega, used, ?_⟩, .inl rfl, ?_⟩
    · intro x out
      rw [← unwritten]
      exact fill_outside (by omega)
    · intro i inOld _
      rw [← unwritten]
      exact fill_outside (by omega)

theorem move_spec {t : Process} {ptr old r n : Nat} {bs : List Nat} (hh : h ≠ 0)
    (used : Used s.blocks as ptr old) (taken : Taken s t h as bs r (allocSize bytes))
    (copied : n = if old < bytes then old else bytes) :
    ∃ as', Moved s (heapFree { t with bytes := copyBytes t.bytes r ptr n } h ptr) h as as' ptr old
      bytes r := by
  obtain ⟨m, fits, after⟩ := taken.used
  have enough : n ≤ allocSize bytes := by
    have := allocSize_le bytes
    split at copied <;> omega
  have ne : ptr ≠ r := by
    rintro rfl
    exact taken.new old used
  have still : Used t.blocks bs ptr old := (after ptr old).mpr (.inl used)
  have placed : Used t.blocks bs r m := (after r m).mpr (.inr ⟨rfl, rfl⟩)
  obtain ⟨as', outcome, kept, unwritten, headers⟩ :=
    heapFree_spec (s := { t with bytes := copyBytes t.bytes r ptr n }) (taken.shape.setBytes _) hh still
  generalize heapFree { t with bytes := copyBytes t.bytes r ptr n } h ptr = u at *
  refine ⟨as', ⟨outcome.shape, ?_, ?_⟩, ⟨m, (allocSize_le bytes).trans fits, ?_, ?_⟩, .inr taken.new,
    ?_⟩
  · exact (taken.change.setBytes _).trans outcome.change
  · intro x changed
    by_cases same : u.blocks x = t.blocks x
    · exact headers x (taken.headers x (by rwa [same] at changed))
    · exact outcome.clear x same
  · intro q k
    rw [kept q k, after q k]
    constructor
    · rintro ⟨before | new, other⟩
      · exact .inl ⟨before, other⟩
      · exact .inr new
    · rintro (⟨before, other⟩ | new)
      · exact ⟨.inl before, other⟩
      · exact ⟨.inr new, by rw [new.1]; exact ne.symm⟩
  · intro x out
    have clear : ¬ (r ≤ x ∧ x < r + n) := by omega
    rw [unwritten]
    simp only [copyBytes]
    rw [if_neg clear, taken.bytes x (by omega)]
  · intro i inOld inNew
    have inside : r ≤ r + i ∧ r + i < r + n := by
      split at copied <;> omega
    rw [unwritten]
    simp only [copyBytes]
    rw [if_pos inside, Nat.add_sub_cancel_left]
    have apart := taken.shape.used_apart still placed ne (Nat.le_add_right ptr i) (by omega)
    exact taken.bytes _ (by omega)

/-- `HeapReAlloc` of a used block fails and changes nothing, or moves it. -/
theorem heapReAlloc_spec {ptr old : Nat} {base : Option Nat}
    (shape : Shape s h as) (hh : h ≠ 0) (used : Used s.blocks as ptr old) (zero : Bool)
    (any : bytes ≠ 0)
    (fresh : ∀ b, base = some b → Fresh s b (sizeofBlock + growPayload (allocSize bytes)))
    (adjacent : GrowsAdjacent s ptr bytes) :
    heapReAlloc s h zero ptr bytes base = (0, s) ∨
      ∃ r as', r ≠ 0 ∧ (heapReAlloc s h zero ptr bytes base).1 = r ∧
        Moved s (heapReAlloc s h zero ptr bytes base).2 h as as' ptr old bytes r := by
  have block : sizeofBlock = 24 := rfl
  have whole := used
  obtain ⟨b, mem, busy, rfl, rfl⟩ := used
  have found : heapFindBlock s.blocks (b + sizeofBlock) s.headers (s.first h) = some b :=
    heapFindBlock_mem shape.links shape.bounded mem
  have back : b + sizeofBlock - sizeofBlock = b := by omega
  have nonzero : b + sizeofBlock ≠ 0 := by omega
  simp only [GrowsAdjacent, back] at adjacent
  simp only [heapReAlloc]
  rw [if_neg nonzero, if_neg any, found]
  simp only [busy, Bool.false_eq_true, if_false]
  by_cases fits : alignUp8 bytes ≤ (s.blocks b).size
  · rw [if_pos fits]
    obtain ⟨pre, post, rfl⟩ := List.append_of_mem mem
    have split : pre ++ b :: post = pre ++ [b] ++ post := by simp
    rw [split] at shape ⊢
    obtain ⟨as', moved⟩ := shrink_spec shape busy fits
    exact .inr ⟨_, as', nonzero, rfl, moved⟩
  · rw [if_neg fits]
    by_cases inPlace : growsInPlace s b (alignUp8 bytes) = true
    · rw [if_pos inPlace]
      have next := adjacent (not_le.mp fits) inPlace
      obtain ⟨pre, post, rfl⟩ := List.append_of_mem mem
      obtain ⟨-, links⟩ := shape.next
      simp only [growsInPlace, Bool.and_eq_true, decide_eq_true_eq] at inPlace
      obtain ⟨⟨more, free⟩, room⟩ := inPlace
      cases post with
      | nil => exact absurd links more
      | cons n post =>
        obtain ⟨same, -, -⟩ := links
        rw [same] at next free room
        have split : pre ++ b :: n :: post = pre ++ [b, n] ++ post := by simp
        rw [split] at shape ⊢
        simp only [same]
        have moved := growInPlace_spec zero shape busy free next (not_le.mp fits) room rfl
        rw [busy] at moved
        exact .inr ⟨_, _, nonzero, rfl, moved⟩
    · rw [if_neg inPlace]
      rcases heapAlloc_spec shape zero bytes fresh with failed | ⟨c, bs, result, taken⟩
      · rw [failed]
        exact .inl rfl
      · have replaced : c + sizeofBlock ≠ 0 := by omega
        rw [← result] at taken replaced
        obtain ⟨as', moved⟩ := move_spec hh whole taken rfl
        rw [if_neg replaced]
        exact .inr ⟨_, as', replaced, rfl, moved⟩

end Kernel32
