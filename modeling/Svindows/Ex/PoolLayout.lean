import Mathlib.Data.List.Chain
import Svindows.Ex.Pool

/-!
# The arena as a list of blocks

`Layout` says that the bytes of an address range are a run of pool blocks,
linked in both directions. Header writes are local: a run is kept by any write
outside it, and its two end links can be redirected one at a time. Splitting,
appending and coalescing are then edits of the block list.
-/

namespace Pool

open ByteMemory Nt

theorem field_end (f : NodeField) : f.offset + f.width ≤ poolHdr := by
  cases f <;> decide

theorem fields_apart {f g : NodeField} (h : f ≠ g) :
    f.offset + f.width ≤ g.offset ∨ g.offset + g.width ≤ f.offset := by
  cases f <;> cases g <;> first | exact absurd rfl h | decide

variable {m : Memory} {n v a prev next q : Nat}

theorem get_congr {m' : Memory} (f : NodeField)
    (same : ∀ b, n ≤ b → b < n + poolHdr → m' b = m b) : get m' n f = get m n f := by
  have bound := field_end f
  exact load_congr (fun b lo hi => same b (by omega) (by omega))

theorem put_outside {b : Nat} {f : NodeField}
    (h : b < n ∨ n + poolHdr ≤ b) : put m n f v b = m b := by
  have bound := field_end f
  exact store_outside (by omega)

theorem get_put_same {f : NodeField} (fits : v < 256 ^ f.width) : get (put m n f v) n f = v :=
  load_store_same fits

theorem get_put_field {f g : NodeField} (h : f ≠ g) : get (put m n f v) n g = get m n g := by
  have apart := fields_apart h
  exact load_store_outside (by omega)

theorem get_put_node {f g : NodeField}
    (apart : n + poolHdr ≤ a ∨ a + poolHdr ≤ n) : get (put m n f v) a g = get m a g :=
  get_congr g (fun b lo hi => put_outside (by omega))

theorem get_fill {k : Nat} {v : UInt8} {f : NodeField}
    (apart : a + k ≤ n ∨ n + poolHdr ≤ a) : get (fill m a k v) n f = get m n f :=
  get_congr f (fun b lo hi => fill_outside (by omega))

theorem writeFreeNode_outside {size b : Nat}
    (h : b < n ∨ n + poolHdr ≤ b) : writeFreeNode m n size prev b = m b := by
  simp only [writeFreeNode, put_outside h]

structure Block where
  size : Nat
  requested : Nat
  free : Bool
  deriving DecidableEq, Repr

/-- Bytes a run of blocks occupies, headers included. -/
def span : List Block → Nat
  | [] => 0
  | b :: bs => poolHdr + b.size + span bs

/-- Address of the last block of a run that starts at `a`; `prev` if it is empty. -/
def lastNode (prev a : Nat) : List Block → Nat
  | [] => prev
  | b :: bs => lastNode a (a + poolHdr + b.size) bs

/-- The bytes at `a` are the header of `b`, with its guard bytes armed if it is used. -/
structure NodeAt (m : Memory) (a prev next : Nat) (b : Block) : Prop where
  prev_eq : get m a .prev = prev
  next_eq : get m a .next = next
  size_eq : get m a .size = b.size
  requested_eq : get m a .requested = b.requested
  free_eq : get m a .free = if b.free then 1 else 0
  magic_eq : get m a .magic = poolMagic
  guard : b.free = false → ∀ c, a + poolHdr + b.requested ≤ c →
    c < a + poolHdr + b.size → m c = poolGuardByte

/-- A run of linked blocks from `a`: `prev` lies below its first block, and
`next` is the forward link of its last one. -/
def Layout (m : Memory) : Nat → Nat → List Block → Nat → Prop
  | _, _, [], _ => True
  | prev, a, b :: bs, next =>
    NodeAt m a prev (if bs = [] then next else a + poolHdr + b.size) b ∧
      Layout m a (a + poolHdr + b.size) bs next

@[simp] theorem span_nil : span [] = 0 := rfl

@[simp] theorem span_cons (b : Block) (bs : List Block) :
    span (b :: bs) = poolHdr + b.size + span bs := rfl

theorem span_append (xs ys : List Block) : span (xs ++ ys) = span xs + span ys := by
  induction xs with
  | nil => simp
  | cons b bs ih => simp only [List.cons_append, span_cons, ih]; omega

theorem lastNode_append (prev a : Nat) (xs ys : List Block) :
    lastNode prev a (xs ++ ys) = lastNode (lastNode prev a xs) (a + span xs) ys := by
  induction xs generalizing prev a with
  | nil => rfl
  | cons b bs ih =>
    have shift : a + span (b :: bs) = a + poolHdr + b.size + span bs := by
      simp only [span_cons]; omega
    rw [shift]
    exact ih a (a + poolHdr + b.size)

variable {b : Block}

theorem NodeAt.frame {k : Memory} (node : NodeAt m a prev next b)
    (header : ∀ c, a ≤ c → c < a + poolHdr → k c = m c)
    (guard : b.free = false → ∀ c, a + poolHdr + b.requested ≤ c →
      c < a + poolHdr + b.size → k c = m c) : NodeAt k a prev next b where
  prev_eq := (get_congr _ header).trans node.prev_eq
  next_eq := (get_congr _ header).trans node.next_eq
  size_eq := (get_congr _ header).trans node.size_eq
  requested_eq := (get_congr _ header).trans node.requested_eq
  free_eq := (get_congr _ header).trans node.free_eq
  magic_eq := (get_congr _ header).trans node.magic_eq
  guard := fun used c lo hi => (guard used c lo hi).trans (node.guard used c lo hi)

/-- A run survives every change outside the bytes it occupies. -/
theorem Layout.frame {k : Memory} {bs : List Block} (layout : Layout m prev a bs next)
    (same : ∀ c, a ≤ c → c < a + span bs → k c = m c) : Layout k prev a bs next := by
  induction bs generalizing prev a with
  | nil => trivial
  | cons b bs ih =>
    obtain ⟨node, rest⟩ := layout
    simp only [span_cons] at same
    refine ⟨node.frame ?_ ?_, ih rest ?_⟩
    · intro c lo hi
      exact same c lo (by omega)
    · intro _ c lo hi
      exact same c (by omega) (by omega)
    · intro c lo hi
      exact same c (by omega) (by omega)

/-- Two runs back to back: the first ends in a link to the second. -/
theorem layout_append {xs ys : List Block} : Layout m prev a (xs ++ ys) next ↔
      Layout m prev a xs (if ys = [] then next else a + span xs) ∧
        Layout m (lastNode prev a xs) (a + span xs) ys next := by
  induction xs generalizing prev a with
  | nil => simp [Layout, lastNode]
  | cons b bs ih =>
    have shift : a + span (b :: bs) = a + poolHdr + b.size + span bs := by
      simp only [span_cons]; omega
    rw [shift]
    simp only [List.cons_append, Layout, lastNode]
    rw [ih]
    by_cases hb : bs = []
    · subst hb
      by_cases hy : ys = [] <;> simp [hy, Layout, lastNode]
    · simp [hb, and_assoc]

theorem NodeAt.setPrev (node : NodeAt m a prev next b) (word : q < 2 ^ 64) :
    NodeAt (put m a .prev q) a q next b where
  prev_eq := get_put_same word
  next_eq := (get_put_field (by decide)).trans node.next_eq
  size_eq := (get_put_field (by decide)).trans node.size_eq
  requested_eq := (get_put_field (by decide)).trans node.requested_eq
  free_eq := (get_put_field (by decide)).trans node.free_eq
  magic_eq := (get_put_field (by decide)).trans node.magic_eq
  guard := fun used c lo hi => (put_outside (by omega)).trans (node.guard used c lo hi)

theorem NodeAt.setNext (node : NodeAt m a prev next b) (word : q < 2 ^ 64) :
    NodeAt (put m a .next q) a prev q b where
  prev_eq := (get_put_field (by decide)).trans node.prev_eq
  next_eq := get_put_same word
  size_eq := (get_put_field (by decide)).trans node.size_eq
  requested_eq := (get_put_field (by decide)).trans node.requested_eq
  free_eq := (get_put_field (by decide)).trans node.free_eq
  magic_eq := (get_put_field (by decide)).trans node.magic_eq
  guard := fun used c lo hi => (put_outside (by omega)).trans (node.guard used c lo hi)

/-- The size of a free block can be rewritten: it has no guard bytes to keep. -/
theorem NodeAt.setSize
    (node : NodeAt m a prev next b) (isFree : b.free = true) (word : q < 2 ^ 64) :
    NodeAt (put m a .size q) a prev next { b with size := q } where
  prev_eq := (get_put_field (by decide)).trans node.prev_eq
  next_eq := (get_put_field (by decide)).trans node.next_eq
  size_eq := get_put_same word
  requested_eq := (get_put_field (by decide)).trans node.requested_eq
  free_eq := (get_put_field (by decide)).trans node.free_eq
  magic_eq := (get_put_field (by decide)).trans node.magic_eq
  guard := fun used => by simp [isFree] at used

/-- Redirect the backward link of the first block of a run. -/
theorem Layout.setPrev {bs : List Block}
    (layout : Layout m prev a (b :: bs) next) (word : q < 2 ^ 64) :
    Layout (put m a .prev q) q a (b :: bs) next := by
  obtain ⟨node, rest⟩ := layout
  refine ⟨node.setPrev word, rest.frame ?_⟩
  intro c lo hi
  exact put_outside (by omega)

theorem lastNode_concat (prev a : Nat) (xs : List Block) (b : Block) :
    lastNode prev a (xs ++ [b]) = a + span xs := by
  rw [lastNode_append]
  rfl

end Pool
