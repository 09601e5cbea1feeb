import Mathlib.Logic.Relation
import Mathlib.Data.List.Basic

/-!
# Depth-first post-order

A depth-first walk over a graph that may have cycles. A vertex is opened when it
is first met, the vertices behind its edges are visited in turn, and then it is
done and listed. The walk ends if the vertices are finitely many, and a vertex
comes behind those its edges lead to, but for the ones that lead back to it.
-/

namespace PostOrder

universe u

inductive Mark where
  | fresh | open_ | done
  deriving DecidableEq, Repr

structure Walk (V : Type u) where
  mark : V → Mark
  /-- The vertices that are done, in the order in which they were. -/
  order : List V

variable {V : Type u} [DecidableEq V]

def Walk.set (w : Walk V) (v : V) (m : Mark) : Walk V :=
  { w with mark := Function.update w.mark v m }

def Walk.finish (w : Walk V) (v : V) : Walk V :=
  ⟨Function.update w.mark v .done, w.order ++ [v]⟩

/-- Visit `v` and what its edges lead to; `none` is out of fuel. -/
def visit (next : V → List V) : Nat → V → Walk V → Option (Walk V)
  | 0, _, _ => none
  | fuel + 1, v, w =>
    if w.mark v ≠ .fresh then some w
    else
      ((next v).foldlM (fun w u => visit next fuel u w) (w.set v .open_)).map (·.finish v)

variable {next : V → List V} {v : V} {w w' w'' : Walk V}

/-- `d` comes before `m` in the list. -/
def Before (order : List V) (d m : V) : Prop := [d, m].Sublist order

def Edge (next : V → List V) (m d : V) : Prop := d ∈ next m

/-- The list has the vertices that are done, once each, and behind their edges. -/
structure Ok (next : V → List V) (w : Walk V) : Prop where
  nodup : w.order.Nodup
  mem : ∀ u, u ∈ w.order ↔ w.mark u = .done
  placed : ∀ m d, m ∈ w.order → Edge next m d →
    Before w.order d m ∨ Relation.ReflTransGen (Edge next) d m

/-- A walk goes on: what was met stays as it was, and nothing is left open. -/
structure Extends (w w' : Walk V) : Prop where
  met : ∀ u, w.mark u ≠ .fresh → w'.mark u = w.mark u
  closed : ∀ u, w'.mark u = .open_ → w.mark u = .open_
  longer : w.order <+: w'.order

omit [DecidableEq V] in
theorem Extends.refl (w : Walk V) : Extends w w :=
  ⟨fun _ _ => rfl, fun _ h => h, List.prefix_rfl⟩

omit [DecidableEq V] in
theorem Extends.trans (first : Extends w w') (second : Extends w' w'') : Extends w w'' where
  met := by
    intro u met
    have same := first.met u met
    rw [← same] at met ⊢
    exact second.met u met
  closed u h := first.closed u (second.closed u h)
  longer := first.longer.trans second.longer

/-- Every open vertex leads to `v`. -/
def OpenReach (next : V → List V) (w : Walk V) (v : V) : Prop :=
  ∀ u, w.mark u = .open_ → Relation.ReflTransGen (Edge next) u v

omit [DecidableEq V] in
theorem OpenReach.step {d : V} (reach : OpenReach next w v) (edge : d ∈ next v) :
    OpenReach next w d :=
  fun u opened => (reach u opened).tail edge

omit [DecidableEq V] in
theorem OpenReach.later (reach : OpenReach next w v) (grown : Extends w w') :
    OpenReach next w' v :=
  fun u opened => reach u (grown.closed u opened)

theorem OpenReach.open_ (reach : OpenReach next w v) : OpenReach next (w.set v .open_) v := by
  intro u opened
  by_cases hv : u = v
  · rw [hv]
  · exact reach u (by simpa [Walk.set, hv] using opened)

/-- What a visit from `v` gives. -/
structure Visited (next : V → List V) (w : Walk V) (v : V) (w' : Walk V) : Prop where
  ok : Ok next w'
  grown : Extends w w'
  seen : w'.mark v ≠ .fresh

section Turns

variable {visitor : V → Walk V → Option (Walk V)} {vs : List V}

omit [DecidableEq V] in
/-- A loop over vertices whose visits do as they should. -/
theorem foldlM_visited
    (visits : ∀ v ∈ vs, ∀ w w', visitor v w = some w' → Ok next w → OpenReach next w v →
      Visited next w v w')
    (h : vs.foldlM (fun w v => visitor v w) w = some w') (ok : Ok next w)
    (reach : ∀ v ∈ vs, OpenReach next w v) :
    Ok next w' ∧ Extends w w' ∧ ∀ v ∈ vs, w'.mark v ≠ .fresh := by
  induction vs generalizing w with
  | nil =>
    cases h
    exact ⟨ok, .refl _, by simp⟩
  | cons v vs ih =>
    simp only [List.foldlM_cons, Option.bind_eq_bind, Option.bind_eq_some_iff] at h
    obtain ⟨x, first, rest⟩ := h
    have visited := visits v List.mem_cons_self w x first ok (reach v List.mem_cons_self)
    have reach' : ∀ u ∈ vs, OpenReach next x u := fun u hu =>
      (reach u (List.mem_cons_of_mem v hu)).later visited.grown
    obtain ⟨ok', grown, seen⟩ := ih (fun u hu => visits u (List.mem_cons_of_mem v hu)) rest
      visited.ok reach'
    refine ⟨ok', visited.grown.trans grown, ?_⟩
    intro u hu
    rcases List.mem_cons.mp hu with rfl | hu
    · rw [grown.met u visited.seen]
      exact visited.seen
    · exact seen u hu

end Turns

theorem Ok.open_ (ok : Ok next w) (fresh : w.mark v = .fresh) : Ok next (w.set v .open_) where
  nodup := ok.nodup
  mem := by
    intro u
    by_cases hu : u = v
    · subst hu
      simp [Walk.set, ok.mem, fresh]
    · simp [Walk.set, ok.mem, hu]
  placed := ok.placed

/-- A vertex is finished when all its edges lead to vertices met before. -/
theorem Ok.finish (ok : Ok next w) (opened : w.mark v = .open_)
    (seen : ∀ d ∈ next v, w.mark d ≠ .fresh) (reach : OpenReach next w v) :
    Ok next (w.finish v) where
  nodup := by
    have new : v ∉ w.order := by
      rw [ok.mem v, opened]
      decide
    exact List.nodup_append.mpr ⟨ok.nodup, by simp, by
      rintro a ha b hb rfl
      exact new (List.mem_singleton.mp hb ▸ ha)⟩
  mem := by
    intro u
    by_cases hu : u = v
    · simp [Walk.finish, hu]
    · simp [Walk.finish, hu, ok.mem]
  placed := by
    intro m d hm edge
    rcases List.mem_append.mp hm with old | new
    · rcases ok.placed m d old edge with before | back
      · exact Or.inl (before.trans (List.sublist_append_left _ _))
      · exact Or.inr back
    · obtain rfl := List.mem_singleton.mp new
      cases mark : w.mark d with
      | fresh => exact absurd mark (seen d edge)
      | open_ => exact Or.inr (reach d mark)
      | done =>
        have listed : [d].Sublist w.order := List.singleton_sublist.mpr ((ok.mem d).mpr mark)
        exact Or.inl (listed.append (.refl [m]))

theorem Extends.open_finish (fresh : w.mark v = .fresh)
    (grown : Extends (w.set v .open_) w') : Extends w (w'.finish v) where
  met := by
    intro u met
    have hu : u ≠ v := by
      rintro rfl
      exact met fresh
    have same := grown.met u (by simpa [Walk.set, hu] using met)
    simpa [Walk.finish, Walk.set, hu] using same
  closed := by
    intro u h
    by_cases hu : u = v
    · simp [Walk.finish, hu] at h
    · have closed := grown.closed u (by simpa [Walk.finish, hu] using h)
      simpa [Walk.set, hu] using closed
  longer := grown.longer.trans (List.prefix_append _ _)

theorem visit_visited {fuel : Nat} (h : visit next fuel v w = some w') (ok : Ok next w)
    (reach : OpenReach next w v) : Visited next w v w' := by
  induction fuel generalizing v w w' with
  | zero => cases h
  | succ fuel ih =>
    simp only [visit] at h
    split at h
    next met =>
      cases h
      exact ⟨ok, .refl w, met⟩
    next met =>
      have fresh : w.mark v = .fresh := not_not.mp met
      obtain ⟨x, turns, rfl⟩ := Option.map_eq_some_iff.mp h
      -- every vertex open below `v` leads to `v`, and so to what `v` leads to
      have reach' : ∀ d ∈ next v, OpenReach next (w.set v .open_) d := fun d edge =>
        reach.open_.step edge
      obtain ⟨ok', grown, seen⟩ := foldlM_visited
        (fun d _ y y' visited okY reachY => ih visited okY reachY) turns (ok.open_ fresh) reach'
      have opened : x.mark v = .open_ := by
        rw [grown.met v (by simp [Walk.set])]
        simp [Walk.set]
      exact ⟨ok'.finish opened seen (reach.open_.later grown), .open_finish fresh grown,
        by simp [Walk.finish]⟩

/-- How many of the vertices are still fresh. -/
def freshCount (vertices : List V) (w : Walk V) : Nat :=
  (vertices.filter fun v => w.mark v = .fresh).length

omit [DecidableEq V] in
theorem freshCount_mono (vertices : List V) (less : ∀ u, w'.mark u = .fresh → w.mark u = .fresh) :
    freshCount vertices w' ≤ freshCount vertices w := by
  refine List.Sublist.length_le (List.monotone_filter_right vertices ?_)
  intro u hu
  exact decide_eq_true (less u (of_decide_eq_true hu))

theorem freshCount_open (vertices : List V) (mem : v ∈ vertices) (fresh : w.mark v = .fresh) :
    freshCount vertices (w.set v .open_) < freshCount vertices w := by
  have smaller : (vertices.filter fun u => (w.set v .open_).mark u = .fresh) =
      (vertices.filter fun u => w.mark u = .fresh).filter fun u => u ≠ v := by
    rw [List.filter_filter]
    refine List.filter_congr fun u _ => ?_
    by_cases hu : u = v <;> simp [Walk.set, hu]
  rw [freshCount, freshCount, smaller]
  refine List.length_filter_lt_length_iff_exists.mpr ⟨v, ?_, by simp⟩
  exact List.mem_filter.mpr ⟨mem, decide_eq_true fresh⟩

/-- A walk that meets vertices of the list only. -/
structure Within (vertices : List V) (w w' : Walk V) : Prop where
  less : ∀ u, w'.mark u = .fresh → w.mark u = .fresh
  outside : ∀ u, u ∉ vertices → w'.mark u = w.mark u

omit [DecidableEq V] in
theorem Within.refl (vertices : List V) (w : Walk V) : Within vertices w w :=
  ⟨fun _ h => h, fun _ _ => rfl⟩

omit [DecidableEq V] in
theorem Within.trans {vertices : List V} (first : Within vertices w w')
    (second : Within vertices w' w'') : Within vertices w w'' where
  less u h := first.less u (second.less u h)
  outside u h := (second.outside u h).trans (first.outside u h)

theorem Within.open_finish {vertices : List V} (mem : v ∈ vertices)
    (inner : Within vertices (w.set v .open_) w') : Within vertices w (w'.finish v) where
  less := by
    intro u hu
    by_cases hv : u = v
    · simp [Walk.finish, hv] at hu
    · have fresh := inner.less u (by simpa [Walk.finish, hv] using hu)
      simpa [Walk.set, hv] using fresh
  outside := by
    intro u hu
    have hv : u ≠ v := by
      rintro rfl
      exact hu mem
    have same := inner.outside u hu
    simpa [Walk.finish, Walk.set, hv] using same

omit [DecidableEq V] in
theorem foldlM_isSome {vertices vs : List V} {visitor : V → Walk V → Option (Walk V)} {fuel : Nat}
    (visits : ∀ v ∈ vs, ∀ w, freshCount vertices w < fuel →
      ∃ w', visitor v w = some w' ∧ Within vertices w w')
    (few : freshCount vertices w < fuel) :
    ∃ w', vs.foldlM (fun w v => visitor v w) w = some w' ∧ Within vertices w w' := by
  induction vs generalizing w with
  | nil => exact ⟨w, rfl, .refl vertices w⟩
  | cons v vs ih =>
    obtain ⟨x, first, within⟩ := visits v List.mem_cons_self w few
    have fewer := freshCount_mono vertices within.less
    obtain ⟨y, rest, within'⟩ := ih (fun u hu => visits u (List.mem_cons_of_mem v hu))
      (Nat.lt_of_le_of_lt fewer few)
    refine ⟨y, ?_, within.trans within'⟩
    rw [List.foldlM_cons, first]
    exact rest

theorem visit_isSome {vertices : List V} (closed : ∀ v ∈ vertices, ∀ d ∈ next v, d ∈ vertices)
    {fuel : Nat} (mem : v ∈ vertices) (enough : freshCount vertices w < fuel) :
    ∃ w', visit next fuel v w = some w' ∧ Within vertices w w' := by
  induction fuel generalizing v w with
  | zero => exact absurd enough (Nat.not_lt_zero _)
  | succ fuel ih =>
    simp only [visit]
    split
    next => exact ⟨w, rfl, .refl vertices w⟩
    next met =>
      have fewer := freshCount_open vertices mem (not_not.mp met)
      obtain ⟨x, turns, within⟩ := foldlM_isSome (w := w.set v .open_)
        (fun d hd y few => ih (closed v mem d hd) few) (by omega)
      refine ⟨x.finish v, ?_, .open_finish mem within⟩
      rw [turns]
      rfl

omit [DecidableEq V] in
theorem foldlM_some_of_imp {visitor visitor' : V → Walk V → Option (Walk V)} {vs : List V}
    (more : ∀ v w w', visitor v w = some w' → visitor' v w = some w')
    (h : vs.foldlM (fun w v => visitor v w) w = some w') :
    vs.foldlM (fun w v => visitor' v w) w = some w' := by
  induction vs generalizing w with
  | nil => exact h
  | cons v vs ih =>
    simp only [List.foldlM_cons, Option.bind_eq_bind, Option.bind_eq_some_iff] at h ⊢
    obtain ⟨x, first, rest⟩ := h
    exact ⟨x, more v w x first, ih rest⟩

/-- More fuel changes nothing. -/
theorem visit_mono {fuel : Nat} (h : visit next fuel v w = some w') (more : Nat) :
    visit next (fuel + more) v w = some w' := by
  induction fuel generalizing v w w' with
  | zero => cases h
  | succ fuel ih =>
    rw [Nat.succ_add]
    simp only [visit] at h ⊢
    split at h
    next met =>
      rw [if_pos met]
      exact h
    next met =>
      rw [if_neg met]
      obtain ⟨x, turns, rfl⟩ := Option.map_eq_some_iff.mp h
      rw [foldlM_some_of_imp (fun _ _ _ => ih) turns]
      rfl

/-- A walk from each of the roots in turn. -/
def walk (next : V → List V) (fuel : Nat) (roots : List V) : Option (Walk V) :=
  roots.foldlM (fun w v => visit next fuel v w) ⟨fun _ => .fresh, []⟩

theorem walk_mono {fuel : Nat} {roots : List V} (h : walk next fuel roots = some w) (more : Nat) :
    walk next (fuel + more) roots = some w :=
  foldlM_some_of_imp (fun _ _ _ visited => visit_mono visited more) h

/-- A walk from all vertices ends, and its list has each of them once, behind those
its edges lead to unless they lead back to it. -/
theorem walk_spec {vertices : List V} (closed : ∀ v ∈ vertices, ∀ d ∈ next v, d ∈ vertices)
    {fuel : Nat} (enough : vertices.length < fuel) :
    ∃ w, walk next fuel vertices = some w ∧ w.order.Nodup ∧ (∀ v, v ∈ w.order ↔ v ∈ vertices) ∧
      ∀ m d, m ∈ w.order → Edge next m d →
        Before w.order d m ∨ Relation.ReflTransGen (Edge next) d m := by
  have few : freshCount vertices (⟨fun _ => .fresh, []⟩ : Walk V) < fuel :=
    Nat.lt_of_le_of_lt (List.length_filter_le _ _) enough
  obtain ⟨w, run, within⟩ := foldlM_isSome (fun v mem x => visit_isSome closed mem) few
  have start : Ok next (⟨fun _ => .fresh, []⟩ : Walk V) := by
    refine ⟨List.nodup_nil, ?_, ?_⟩ <;> simp
  obtain ⟨ok, grown, seen⟩ := foldlM_visited (fun v _ x x' => visit_visited) run start
    (fun v _ u opened => by cases opened)
  refine ⟨w, run, ok.nodup, ?_, ok.placed⟩
  intro v
  rw [ok.mem v]
  constructor
  · intro done
    by_contra outside
    have fresh := within.outside v outside
    rw [done] at fresh
    cases fresh
  · intro mem
    cases mark : w.mark v with
    | fresh => exact absurd mark (seen v mem)
    | open_ => cases grown.closed v mark
    | done => rfl

end PostOrder
