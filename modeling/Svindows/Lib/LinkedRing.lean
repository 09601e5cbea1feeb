import Mathlib.Data.List.Chain
import Mathlib.Data.List.Nodup
import Mathlib.Logic.Function.Basic
import Svindows.Lib.ByteMemory
import Svindows.Lib.Loop

/-!
# Doubly linked rings

Nodes with a pointer forward and one back. A ring goes from a head through its elements
and back to the head, and the pointers back undo the pointers forward. An operation on
some pointers is judged by what it leaves at the nodes of a ring, so the pointers may be
fields of records or words in memory.
-/

namespace LinkedRing

universe u v

variable {α : Type u}

/-- Where the pointers of every node lead. -/
structure Links (α : Type u) where
  next : α → α
  prev : α → α

variable {m m' : Links α} {head a b e : α} {xs ys : List α}

def Links.Joined (m : Links α) (a b : α) : Prop := m.next a = b ∧ m.prev b = a

/-- The ring through a head with these elements. -/
structure IsRing (m : Links α) (head : α) (xs : List α) : Prop where
  joined : (head :: (xs ++ [head])).IsChain m.Joined
  nodup : (head :: xs).Nodup

/-- The pointers at these nodes are the same. -/
def Same (m m' : Links α) (nodes : List α) : Prop :=
  ∀ a ∈ nodes, m'.next a = m.next a ∧ m'.prev a = m.prev a

theorem IsRing.congr (ring : IsRing m head xs) (same : Same m m' (head :: xs)) :
    IsRing m' head xs := by
  refine ⟨ring.joined.imp_of_mem_imp fun a b left right joined => ?_, ring.nodup⟩
  have node : ∀ c ∈ head :: (xs ++ [head]), c ∈ head :: xs := by
    intro c member
    simp only [List.mem_cons, List.mem_append, List.not_mem_nil, or_false] at member ⊢
    tauto
  exact ⟨(same a (node a left)).1.trans joined.1, (same b (node b right)).2.trans joined.2⟩

theorem IsRing.empty (next : m.next head = head) (prev : m.prev head = head) :
    IsRing m head [] :=
  ⟨.cons_cons ⟨next, prev⟩ (.singleton _), List.nodup_singleton _⟩

/-- The ring is cut behind its last element. -/
theorem IsRing.cut (ring : IsRing m head xs) : ∃ pre last, head :: xs = pre ++ [last] ∧
    (pre ++ [last]).IsChain m.Joined ∧ m.Joined last head := by
  have parts := List.dropLast_append_getLast (List.cons_ne_nil head xs)
  have joined := ring.joined
  rw [← List.cons_append, ← parts, List.append_assoc] at joined
  obtain ⟨path, closed, -⟩ := List.isChain_append_cons_cons.mp joined
  exact ⟨_, _, parts.symm, path, closed⟩

theorem IsRing.first (ring : IsRing m head xs) : ∃ first rest, xs ++ [head] = first :: rest ∧
    (first :: rest).IsChain m.Joined ∧ m.Joined head first := by
  have joined := ring.joined
  cases whole : xs ++ [head] with
  | nil => simp at whole
  | cons first rest =>
    rw [whole] at joined
    obtain ⟨here, path⟩ := List.isChain_cons_cons.mp joined
    exact ⟨first, rest, rfl, path, here⟩

theorem IsRing.empty_iff (ring : IsRing m head xs) : m.next head = head ↔ xs = [] := by
  obtain ⟨first, rest, whole, -, here⟩ := ring.first
  rw [here.1]
  cases xs with
  | nil =>
    cases whole
    exact iff_of_true rfl rfl
  | cons x xs =>
    cases whole
    refine iff_of_false ?_ (List.cons_ne_nil _ _)
    rintro rfl
    exact (List.nodup_cons.mp ring.nodup).1 List.mem_cons_self

/-- The pointer back from the head leads to a node of the ring. -/
theorem IsRing.prev_mem (ring : IsRing m head xs) : m.prev head ∈ head :: xs := by
  obtain ⟨pre, last, whole, -, closed⟩ := ring.cut
  rw [whole, closed.2]
  exact List.mem_append_right _ List.mem_cons_self

theorem IsRing.next_mem (ring : IsRing m head xs) : m.next head ∈ head :: xs := by
  obtain ⟨first, rest, whole, -, here⟩ := ring.first
  have node : first ∈ xs ++ [head] := whole ▸ List.mem_cons_self
  rw [here.1, List.mem_cons]
  rw [List.mem_append, List.mem_singleton] at node
  exact node.symm

/-- Any element may be taken for the head. -/
theorem IsRing.rotate (ring : IsRing m head (xs ++ e :: ys)) : IsRing m e (ys ++ head :: xs) := by
  have joined := ring.joined
  have nodup := ring.nodup
  have spelled : head :: (xs ++ e :: ys ++ [head]) = (head :: xs) ++ e :: (ys ++ [head]) := by simp
  have spelled' : e :: (ys ++ head :: xs ++ [e]) = (e :: ys) ++ head :: (xs ++ [e]) := by simp
  rw [spelled, List.isChain_split] at joined
  refine ⟨?_, ?_⟩
  · rw [spelled', List.isChain_split]
    exact joined.symm
  · rw [← List.cons_append, List.nodup_append_comm] at nodup
    exact nodup

/-- The pointers of a node lead to nodes. -/
theorem IsRing.neighbours (ring : IsRing m head xs) (node : e ∈ head :: xs) :
    m.prev e ∈ head :: xs ∧ m.next e ∈ head :: xs := by
  rcases List.mem_cons.mp node with rfl | member
  · exact ⟨ring.prev_mem, ring.next_mem⟩
  · obtain ⟨pre, post, rfl⟩ := List.append_of_mem member
    have back := ring.rotate.prev_mem
    have forth := ring.rotate.next_mem
    simp only [List.mem_cons, List.mem_append] at back forth ⊢
    tauto

theorem IsRing.next_head (ring : IsRing m head xs) : m.next head = xs.headD head := by
  cases xs with
  | nil => exact ring.empty_iff.mpr rfl
  | cons x xs => exact (List.isChain_cons_cons.mp ring.joined).1.1

/-- The pointer forward leads to the next element, or from the last one to the head. -/
theorem IsRing.next_eq (ring : IsRing m head (xs ++ e :: ys)) : m.next e = ys.headD head := by
  rw [ring.rotate.next_head]
  cases ys <;> rfl

theorem IsRing.next_ne (ring : IsRing m head xs) (member : e ∈ xs) : m.next e ≠ e := by
  obtain ⟨pre, post, rfl⟩ := List.append_of_mem member
  intro alone
  simpa using ring.rotate.empty_iff.mp alone

theorem reach_of_joined (path : (head :: xs).IsChain m.Joined) (node : a ∈ head :: xs) :
    ∃ k, m.next^[k] head = a := by
  induction xs generalizing head with
  | nil => exact ⟨0, (List.mem_singleton.mp node).symm⟩
  | cons x xs ih =>
    obtain ⟨here, path⟩ := List.isChain_cons_cons.mp path
    rcases List.mem_cons.mp node with rfl | node
    · exact ⟨0, rfl⟩
    · obtain ⟨k, reached⟩ := ih path node
      exact ⟨k + 1, by rw [Function.iterate_succ_apply, here.1, reached]⟩

/-- The nodes that the pointers forward lead to from the head. -/
theorem IsRing.reach_iff (ring : IsRing m head xs) :
    (∃ k, m.next^[k] head = a) ↔ a ∈ head :: xs := by
  constructor
  · rintro ⟨k, rfl⟩
    induction k with
    | zero => exact List.mem_cons_self
    | succ k ih =>
      rw [Function.iterate_succ_apply']
      exact (ring.neighbours ih).2
  · intro node
    have path := ring.joined
    rw [← List.cons_append] at path
    exact reach_of_joined path.left_of_append node

section Operations

variable [DecidableEq α]

def Links.setNext (m : Links α) (a b : α) : Links α := { m with next := Function.update m.next a b }

def Links.setPrev (m : Links α) (a b : α) : Links α := { m with prev := Function.update m.prev a b }

/-- The head alone. -/
def isolate (m : Links α) (head : α) : Links α := (m.setNext head head).setPrev head head

def insertTail (m : Links α) (head e : α) : Links α :=
  (((m.setNext e head).setPrev e (m.prev head)).setNext (m.prev head) e).setPrev head e

def remove (m : Links α) (e : α) : Links α :=
  (m.setNext (m.prev e) (m.next e)).setPrev (m.next e) (m.prev e)

theorem isolate_ring (m : Links α) (head : α) : IsRing (isolate m head) head [] :=
  .empty (Function.update_self ..) (Function.update_self ..)

/-- Nodes off the ring keep their pointers. -/
theorem same_isolate {nodes : List α} (off : head ∉ nodes) : Same m (isolate m head) nodes := by
  intro a node
  have apart : a ≠ head := fun same => off (same ▸ node)
  exact ⟨Function.update_of_ne apart .., Function.update_of_ne apart ..⟩

theorem same_insertTail {nodes : List α} (head_off : head ∉ nodes) (e_off : e ∉ nodes)
    (last_off : m.prev head ∉ nodes) : Same m (insertTail m head e) nodes := by
  intro a node
  have apart : a ≠ head ∧ a ≠ e ∧ a ≠ m.prev head :=
    ⟨fun same => head_off (same ▸ node), fun same => e_off (same ▸ node),
      fun same => last_off (same ▸ node)⟩
  simp [insertTail, Links.setNext, Links.setPrev, apart.1, apart.2.1, apart.2.2]

theorem IsRing.insertTail (ring : IsRing m head xs) (fresh : e ∉ head :: xs) :
    IsRing (insertTail m head e) head (xs ++ [e]) := by
  obtain ⟨pre, last, whole, path, closed⟩ := ring.cut
  have kept : (pre ++ [last]).IsChain (LinkedRing.insertTail m head e).Joined := by
    rw [← whole] at path ⊢
    refine path.imp_of_mem_tail_imp fun a b left right joined => ?_
    have inner : b ≠ head := fun same => (List.nodup_cons.mp ring.nodup).1 (same ▸ right)
    have old : ∀ c ∈ head :: xs, c ≠ e := fun c node same => fresh (same ▸ node)
    have first : a ≠ last := fun same => inner (joined.1.symm.trans (same ▸ closed.1))
    have place := old a left
    have place' := old b (List.mem_cons_of_mem _ right)
    simp only [LinkedRing.insertTail, Links.setNext, Links.setPrev, Links.Joined, closed.2]
    rw [Function.update_of_ne first, Function.update_of_ne place, Function.update_of_ne inner,
      Function.update_of_ne place']
    exact joined
  have node : last ∈ head :: xs := whole ▸ List.mem_append_right _ List.mem_cons_self
  have old : last ≠ e := fun same => fresh (same ▸ node)
  have notHead : e ≠ head := fun same => fresh (same ▸ List.mem_cons_self)
  have here : (LinkedRing.insertTail m head e).Joined last e := by
    simp [LinkedRing.insertTail, Links.setNext, Links.setPrev, Links.Joined, closed.2, notHead]
  have back : (LinkedRing.insertTail m head e).Joined e head := by
    simp [LinkedRing.insertTail, Links.setNext, Links.setPrev, Links.Joined, closed.2, old.symm]
  have spelled : head :: (xs ++ [e] ++ [head]) = pre ++ last :: e :: [head] := by
    rw [List.append_assoc, ← List.cons_append, whole, List.append_assoc]
    rfl
  refine ⟨?_, ?_⟩
  · rw [spelled]
    exact List.isChain_append_cons_cons.mpr ⟨kept, here, .cons_cons back (.singleton _)⟩
  · rw [← List.cons_append]
    refine List.nodup_append'.mpr ⟨ring.nodup, List.nodup_singleton e, ?_⟩
    rwa [List.disjoint_singleton]

/-- An element that is taken for the head is removed, and the next one is the head. -/
theorem IsRing.behead {y : α} (ring : IsRing m e (y :: ys)) :
    IsRing (LinkedRing.remove m e) y ys := by
  obtain ⟨pre, last, whole, path, closed⟩ := ring.cut
  obtain ⟨here, -⟩ := List.isChain_cons_cons.mp ring.joined
  obtain ⟨outside, nodup⟩ := List.nodup_cons.mp ring.nodup
  cases pre with
  | nil => simp at whole
  | cons first pre =>
    have rest : y :: ys = pre ++ [last] := (List.cons.inj whole).2
    have path : (y :: ys).IsChain m.Joined := by
      rw [rest]
      exact path.tail
    have kept : (y :: ys).IsChain (LinkedRing.remove m e).Joined := by
      refine path.imp_of_mem_tail_imp fun a b left right joined => ?_
      have notLast : a ≠ last := by
        rintro rfl
        exact outside (List.mem_cons_of_mem _ ((closed.1.symm.trans joined.1) ▸ right))
      have inner : b ≠ y := fun same => (List.nodup_cons.mp nodup).1 (same ▸ right)
      simp only [LinkedRing.remove, Links.setNext, Links.setPrev, Links.Joined, closed.2, here.1]
      rw [Function.update_of_ne notLast, Function.update_of_ne inner]
      exact joined
    have back : (LinkedRing.remove m e).Joined last y := by
      simp [LinkedRing.remove, Links.setNext, Links.setPrev, Links.Joined, closed.2, here.1]
    refine ⟨?_, nodup⟩
    rw [← List.cons_append, rest, List.append_assoc]
    rw [rest] at kept
    exact List.isChain_append_cons_cons.mpr ⟨kept, back, .singleton _⟩

theorem IsRing.remove (ring : IsRing m head (xs ++ e :: ys)) :
    IsRing (LinkedRing.remove m e) head (xs ++ ys) := by
  have turned := ring.rotate
  cases ys with
  | nil => simpa using turned.behead
  | cons y ys =>
    have shorter : IsRing (LinkedRing.remove m e) y (ys ++ head :: xs) := turned.behead
    exact shorter.rotate

theorem same_remove {nodes : List α} (prev_off : m.prev e ∉ nodes) (next_off : m.next e ∉ nodes) :
    Same m (LinkedRing.remove m e) nodes := by
  intro a node
  have apart : a ≠ m.prev e ∧ a ≠ m.next e :=
    ⟨fun same => prev_off (same ▸ node), fun same => next_off (same ▸ node)⟩
  simp [LinkedRing.remove, Links.setNext, Links.setPrev, apart.1, apart.2]

end Operations

/-- One turn of a walk along the pointers forward, until a test succeeds or the head is met. -/
def walkTurn {β : Type v} [DecidableEq α] (m : Links α) (head : α) (test : α → Option β) (p : α) :
    Option β ⊕ α :=
  if p = head then .inl none
  else match test p with
    | some r => .inl (some r)
    | none => .inr (m.next p)

/-- A walk finds the first element of the ring that passes the test. -/
theorem IsRing.walk {β : Type v} [DecidableEq α] (ring : IsRing m head xs) (test : α → Option β)
    {fuel : Nat} (enough : xs.length < fuel) :
    Loop.run (walkTurn m head test) fuel (m.next head) = some (xs.findSome? test) := by
  obtain ⟨first, rest, whole, path, here⟩ := ring.first
  have inner : head ∉ xs := (List.nodup_cons.mp ring.nodup).1
  rw [here.1]
  clear ring here
  induction xs generalizing first rest fuel with
  | nil =>
    cases whole
    obtain ⟨fuel, rfl⟩ := Nat.exists_eq_succ_of_ne_zero (Nat.ne_of_gt enough)
    exact Loop.run_inl (show walkTurn m head test head = .inl none from if_pos rfl) fuel
  | cons x xs ih =>
    cases whole
    change (x :: (xs ++ [head])).IsChain m.Joined at path
    obtain ⟨fuel, rfl⟩ := Nat.exists_eq_succ_of_ne_zero (Nat.ne_of_gt (Nat.zero_lt_of_lt enough))
    have apart : x ≠ head := fun same => inner (same ▸ List.mem_cons_self)
    rw [List.findSome?_cons]
    cases found : test x with
    | some r => exact Loop.run_inl (by rw [walkTurn, if_neg apart, found]) fuel
    | none =>
      rw [Loop.run_inr (t := m.next x) (by rw [walkTurn, if_neg apart, found])]
      cases whole : xs ++ [head] with
      | nil => simp at whole
      | cons second rest =>
        rw [whole] at path
        obtain ⟨joined, path⟩ := List.isChain_cons_cons.mp path
        rw [joined.1]
        exact ih (Nat.lt_of_succ_lt_succ enough) second rest whole path
          fun member => inner (List.mem_cons_of_mem _ member)

section Memory

open ByteMemory

/-- A node is two words: the pointer forward and the pointer back. -/
def linksAt (m : Memory) : Links Nat := ⟨fun a => load m a 8, fun a => load m (a + 8) 8⟩

/-- The same node, or two nodes that share no byte. -/
def Apart (a b : Nat) : Prop := a = b ∨ a + 16 ≤ b ∨ b + 16 ≤ a

/-- The head alone. -/
def initializeListHead (m : Memory) (head : Nat) : Memory :=
  store (store m (head + 8) 8 head) head 8 head

def insertTailList (m : Memory) (head entry : Nat) : Memory :=
  let last := load m (head + 8) 8
  let m := store m entry 8 head
  let m := store m (entry + 8) 8 last
  let m := store m last 8 entry
  store m (head + 8) 8 entry

variable {m m' : Memory} {links : Links Nat} {nodes : List Nat} {a b v head e : Nat} {xs ys : List Nat}

theorem load_store_word (apart : a = b ∨ a + 8 ≤ b ∨ b + 8 ≤ a) (word : v < 2 ^ 64) :
    load (store m a 8 v) b 8 = if b = a then v else load m b 8 := by
  split_ifs with same
  · rw [same]
    exact load_store_same word
  · exact load_store_outside (by omega)

theorem Same.store_next (same : Same links (linksAt m) nodes) (apart : ∀ n ∈ nodes, Apart a n)
    (word : v < 2 ^ 64) : Same (links.setNext a v) (linksAt (store m a 8 v)) nodes := by
  intro n node
  have disjoint := apart n node
  rw [Apart] at disjoint
  constructor
  · show load (store m a 8 v) n 8 = Function.update links.next a v n
    rw [load_store_word (by omega) word, Function.update_apply, ← (same n node).1]
    rfl
  · exact (load_store_outside (by omega)).trans (same n node).2

theorem Same.store_prev (same : Same links (linksAt m) nodes) (apart : ∀ n ∈ nodes, Apart a n)
    (word : v < 2 ^ 64) : Same (links.setPrev a v) (linksAt (store m (a + 8) 8 v)) nodes := by
  intro n node
  have disjoint := apart n node
  rw [Apart] at disjoint
  constructor
  · exact (load_store_outside (by omega)).trans (same n node).1
  · show load (store m (a + 8) 8 v) (n + 8) 8 = Function.update links.prev a v n
    rw [load_store_word (by omega) word, Function.update_apply, ← (same n node).2]
    have place : n + 8 = a + 8 ↔ n = a := by omega
    simp only [place]
    rfl

/-- Both memories hold the same node. -/
theorem same_of_bytes (bytes : ∀ n ∈ nodes, ∀ b, n ≤ b → b < n + 16 → m' b = m b) :
    Same (linksAt m) (linksAt m') nodes := fun n node =>
  ⟨load_congr fun b low high => bytes n node b low (by omega),
    load_congr fun b low high => bytes n node b (by omega) (by omega)⟩

theorem initializeListHead_ring (m : Memory) (word : head < 2 ^ 64) :
    IsRing (linksAt (initializeListHead m head)) head [] := by
  refine .empty (load_store_same word) ?_
  exact (load_store_outside (by omega)).trans (load_store_same word)

theorem initializeListHead_outside (off : b < head ∨ head + 16 ≤ b) :
    initializeListHead m head b = m b := by
  rw [initializeListHead, store_outside (by omega), store_outside (by omega)]

theorem insertTailList_outside (off_head : b < head ∨ head + 16 ≤ b) (off_e : b < e ∨ e + 16 ≤ b)
    (off_last : b < (linksAt m).prev head ∨ (linksAt m).prev head + 16 ≤ b) :
    insertTailList m head e b = m b := by
  have last : (linksAt m).prev head = load m (head + 8) 8 := rfl
  rw [last] at off_last
  rw [insertTailList, store_outside (by omega), store_outside (by omega), store_outside (by omega),
    store_outside (by omega)]

theorem same_insertTailList (head_word : head < 2 ^ 64) (e_word : e < 2 ^ 64)
    (apart_head : ∀ n ∈ nodes, Apart head n) (apart_e : ∀ n ∈ nodes, Apart e n)
    (apart_last : ∀ n ∈ nodes, Apart ((linksAt m).prev head) n) :
    Same (insertTail (linksAt m) head e) (linksAt (insertTailList m head e)) nodes := by
  have start : Same (linksAt m) (linksAt m) nodes := fun _ _ => ⟨rfl, rfl⟩
  have last_word : (linksAt m).prev head < 2 ^ 64 := load_lt m (head + 8) 8
  exact (((start.store_next apart_e head_word).store_prev apart_e last_word).store_next apart_last
    e_word).store_prev apart_head e_word

/-- An element is added to a ring whose nodes share no bytes with each other or with it. -/
theorem IsRing.insertTailList (ring : IsRing (linksAt m) head xs) (fresh : e ∉ head :: xs)
    (apart : ∀ a ∈ head :: (xs ++ [e]), ∀ b ∈ head :: (xs ++ [e]), Apart a b)
    (words : ∀ a ∈ head :: (xs ++ [e]), a < 2 ^ 64) :
    IsRing (linksAt (insertTailList m head e)) head (xs ++ [e]) := by
  have head_node : head ∈ head :: (xs ++ [e]) := List.mem_cons_self
  have e_node : e ∈ head :: (xs ++ [e]) := by simp
  have last_node : (linksAt m).prev head ∈ head :: (xs ++ [e]) := by
    rw [← List.cons_append]
    exact List.mem_append_left _ ring.prev_mem
  exact (ring.insertTail fresh).congr (same_insertTailList (words _ head_node) (words _ e_node)
    (apart _ head_node) (apart _ e_node) (apart _ last_node))

/-- A ring that shares no bytes with it stays as it is. -/
theorem IsRing.insertTailList_other {head' : Nat} (ring : IsRing (linksAt m) head xs)
    (other : IsRing (linksAt m) head' ys)
    (apart : ∀ a ∈ head :: (xs ++ [e]), ∀ b ∈ head' :: ys, a + 16 ≤ b ∨ b + 16 ≤ a) :
    IsRing (linksAt (LinkedRing.insertTailList m head e)) head' ys := by
  refine other.congr (same_of_bytes fun n node b low high => ?_)
  have off_head := apart head List.mem_cons_self n node
  have off_e := apart e (by simp) n node
  have off_last := apart _ (List.mem_append_left _ ring.prev_mem : _ ∈ (head :: xs) ++ [e]) n node
  exact insertTailList_outside (by omega) (by omega) (by omega)

end Memory

end LinkedRing
