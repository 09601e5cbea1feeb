import Mathlib.Data.List.TakeWhile
import Svindows.Lib.LabelledPaths
import Svindows.Ob.LifetimeRuns

/-!
# The object namespace

A path names an object when its segments lead to it from the root, from entry to
entry, through directories. In every namespace built by making objects and
directories and by inserting each object at most once, entries of a directory
have different names, so the segment loop finds exactly these objects, and an
insertion adds one entry and disturbs no path.
-/

namespace Ob

open Nt LabelledPaths

/-- A name that can stand in a path. -/
def NameOk (name : Name) : Prop := name ≠ [] ∧ '\\' ∉ name

/-- `o` is the entry of the directory `d` with the name. -/
def Entry (s : ObState) (d : ObjectRef) (name : Name) (o : ObjectRef) : Prop :=
  o ∈ (s.headers d).entries ∧ (s.headers o).name = some name

def TypedDirectory (s : ObState) (o : ObjectRef) : Prop := (s.headers o).type = s.directoryType

/-- The segments of a path lead from `d` to `o`. -/
abbrev SegmentsLead (s : ObState) (d : ObjectRef) (segments : List Name) (o : ObjectRef) : Prop :=
  Leads (Entry s) (TypedDirectory s) d segments o

/-- The lookup of a path succeeds, with the object. -/
def Resolves (s : ObState) (path : Name) (o : ObjectRef) : Prop :=
  ntSuccess (obLookupObjectByName s (some path) 1).1 = true ∧
    (obLookupObjectByName s (some path) 1).2.1 = o

/-- The path of an entry of the directory at a path. -/
def pathBelow (path name : Name) : Name :=
  if path = ['\\'] then '\\' :: name else path ++ '\\' :: name

/-- The entries of a directory have names of their own. -/
structure Named (s : ObState) : Prop where
  names : ∀ d, s.live d = true → ∀ o ∈ (s.headers d).entries,
    ∃ name, (s.headers o).name = some name ∧ NameOk name
  distinct : ∀ d, s.live d = true → ∀ name o p, Entry s d name o → Entry s d name p → o = p
  live : ∀ d, s.live d = true → ∀ o ∈ (s.headers d).entries, s.live o = true

variable {s : ObState} {w : World} {d o : ObjectRef}

theorem find_iff (named : Named s) (live : s.live d = true)
    (name : Name) (o : ObjectRef) : obpFindInDirectory s d name = some o ↔ Entry s d name o := by
  constructor
  · intro found
    exact ⟨List.mem_of_find?_eq_some found, by simpa using List.find?_some found⟩
  · intro entry
    cases found : obpFindInDirectory s d name with
    | none =>
      have absent := List.find?_eq_none.mp found o entry.1
      exact absurd entry.2 (by simpa using absent)
    | some p =>
      have other : Entry s d name p :=
        ⟨List.mem_of_find?_eq_some found, by simpa using List.find?_some found⟩
      rw [named.distinct d live name o p entry other]

theorem Entry.ok (named : Named s) (live : s.live d = true)
    {name : Name} (entry : Entry s d name o) : NameOk name := by
  obtain ⟨n, same, ok⟩ := named.names d live o entry.1
  obtain rfl := Option.some.inj (same.symm.trans entry.2)
  exact ok

theorem Entry.alive (named : Named s) {name : Name}
    (live : s.live d = true) (entry : Entry s d name o) : s.live o = true :=
  named.live d live o entry.1

/-- The first segment of a path, and the segments after it. -/
theorem splitOn_takeWhile (path : Name) :
    (path.dropWhile (· ≠ '\\') = [] ∧ path.splitOn '\\' = [path.takeWhile (· ≠ '\\')]) ∨
      (path.dropWhile (· ≠ '\\') ≠ [] ∧
        (path.dropWhile (· ≠ '\\')).tail.length < path.length ∧
        path.splitOn '\\' =
          path.takeWhile (· ≠ '\\') :: (path.dropWhile (· ≠ '\\')).tail.splitOn '\\') := by
  have whole := List.takeWhile_append_dropWhile (p := (· ≠ '\\')) (l := path)
  have stop := List.head?_dropWhile_not (· ≠ '\\') path
  have clean : '\\' ∉ path.takeWhile (· ≠ '\\') := by
    intro mem
    have := List.mem_takeWhile_imp mem
    simp at this
  generalize path.takeWhile (· ≠ '\\') = seg at *
  generalize path.dropWhile (· ≠ '\\') = rest at *
  subst whole
  cases rest with
  | nil =>
    rw [List.append_nil]
    exact Or.inl ⟨rfl, List.splitOn_eq_singleton clean⟩
  | cons c rest =>
    obtain rfl : c = '\\' := by simpa using stop
    refine Or.inr ⟨List.cons_ne_nil _ _, ?_, List.splitOn_append_cons_self_of_not_mem clean rest⟩
    simp only [List.tail_cons, List.length_append, List.length_cons]
    omega

/-- The segment loop follows the segments. -/
theorem resolve_iff (named : Named s) (fuel : Nat) :
    ∀ (path : Name) (d o : ObjectRef), path.length < fuel → s.live d = true →
      ((ntSuccess (resolve s fuel d path).1 = true ∧ (resolve s fuel d path).2 = o) ↔
        SegmentsLead s d (path.splitOn '\\') o) := by
  have refused : ∀ status : NtStatus, ntSuccess status = false → ∀ o : ObjectRef,
      ¬ (ntSuccess status = true ∧ (0 : ObjectRef) = o) := by
    rintro status failed o ⟨success, -⟩
    exact absurd (failed.symm.trans success) (by decide)
  induction fuel with
  | zero => exact fun path d o short => absurd short (Nat.not_lt_zero _)
  | succ fuel ih =>
    intro path d o short live
    have found := find_iff named live (path.takeWhile (· ≠ '\\'))
    simp only [resolve]
    rcases splitOn_takeWhile path with ⟨last, split⟩ | ⟨more, shorter, split⟩
    · rw [split, last]
      generalize path.takeWhile (· ≠ '\\') = seg at *
      by_cases empty : seg = []
      · rw [if_pos empty]
        refine iff_of_false (refused _ (by decide) o) fun entry => ?_
        exact (Entry.ok named live entry).1 empty
      · rw [if_neg empty]
        change _ ↔ Entry s d seg o
        rw [← found]
        cases obpFindInDirectory s d seg with
        | none =>
          simp only [if_true]
          exact iff_of_false (refused _ (by decide) o) (by simp)
        | some p =>
          simp only [if_true, Option.some.injEq]
          exact and_iff_right (by decide)
    · rw [split]
      have some_ : (path.dropWhile (· ≠ '\\')).tail.splitOn '\\' ≠ [] := List.splitOn_ne_nil _ _
      generalize path.takeWhile (· ≠ '\\') = seg at *
      rw [SegmentsLead, leads_cons some_]
      by_cases empty : seg = []
      · rw [if_pos empty]
        refine iff_of_false (refused _ (by decide) o) ?_
        rintro ⟨c, entry, -⟩
        exact (Entry.ok named live entry).1 empty
      · rw [if_neg empty]
        cases next : obpFindInDirectory s d seg with
        | none =>
          simp only [if_neg more]
          refine iff_of_false (refused _ (by decide) o) ?_
          rintro ⟨c, entry, -⟩
          rw [← found, next] at entry
          exact absurd entry (by simp)
        | some c =>
          have entry := (found c).mp next
          simp only [if_neg more]
          have only : ∀ e, Entry s d seg e ↔ e = c := fun e => by
            rw [← found, next, Option.some.injEq, eq_comm]
          simp only [only, exists_eq_left]
          by_cases typed : (s.headers c).type ≠ s.directoryType
          · rw [if_pos typed]
            exact iff_of_false (refused _ (by decide) o) fun inner => typed inner.1
          · rw [if_neg typed, ih _ c o (by omega) (Entry.alive named live entry)]
            exact (and_iff_right (not_not.mp typed)).symm

theorem resolves_iff (named : Named s) (root : s.live s.rootDirectory = true)
    (path : Name) (o : ObjectRef) :
    Resolves s path o ↔ (path = ['\\'] ∧ s.rootDirectory = o) ∨
      ∃ rest, path = '\\' :: rest ∧ SegmentsLead s s.rootDirectory (rest.splitOn '\\') o := by
  unfold Resolves obLookupObjectByName
  split
  · rename_i rest start
    obtain rfl := Option.some.inj start
    rw [if_neg one_ne_zero]
    by_cases empty : rest = []
    · subst empty
      have nowhere : ¬ SegmentsLead s s.rootDirectory (List.splitOn '\\' []) o :=
        fun entry => (Entry.ok named root entry).1 rfl
      simp only [if_true, true_and]
      constructor
      · exact fun found => Or.inl found.2
      · rintro (found | ⟨rest, same, leads⟩)
        · exact ⟨by decide, found⟩
        · obtain rfl := (List.cons.inj same).2
          exact absurd leads nowhere
    · have other : ¬ '\\' :: rest = ['\\'] := fun same => empty (List.cons.inj same).2
      have loop := resolve_iff named (rest.length + 1) rest s.rootDirectory o (Nat.lt_succ_self _) root
      rw [if_neg empty]
      simp only [other, false_and, false_or, List.cons.injEq, true_and, exists_eq_left']
      rw [← loop]
      split
      · exact Iff.rfl
      · rename_i failed
        exact iff_of_false (fun found => failed found.1) (fun found => failed found.1)
  · rename_i other
    have invalid : ntSuccess statusObjectNameInvalid = false := by decide
    refine iff_of_false (fun found => absurd (invalid.symm.trans found.1) (by decide)) ?_
    rintro (⟨rfl, -⟩ | ⟨rest, rfl, -⟩)
    · exact other [] rfl
    · exact other rest rfl

theorem splitOn_pathBelow {path name : Name} (ok : NameOk name) {rest : Name}
    (start : path = '\\' :: rest) (below : rest ≠ []) :
    pathBelow path name = '\\' :: (rest ++ '\\' :: name) ∧
      (rest ++ '\\' :: name).splitOn '\\' = rest.splitOn '\\' ++ [name] := by
  have other : ¬ path = ['\\'] := by
    rw [start]
    exact fun same => below (List.cons.inj same).2
  constructor
  · rw [pathBelow, if_neg other, start]
    rfl
  · rw [List.splitOn_append_cons_self, List.splitOn_eq_singleton ok.2]

/-- Below a directory that a path resolves to, an entry is named by one more segment. -/
theorem Resolves.entry (named : Named s) (root : s.live s.rootDirectory = true)
    {path name : Name} (found : Resolves s path d) (typed : TypedDirectory s d)
    (entry : Entry s d name o) (ok : NameOk name) : Resolves s (pathBelow path name) o := by
  rw [resolves_iff named root] at found ⊢
  right
  rcases found with ⟨rfl, rfl⟩ | ⟨rest, start, leads⟩
  · refine ⟨name, if_pos rfl, ?_⟩
    rw [List.splitOn_eq_singleton ok.2]
    exact entry
  · have below : rest ≠ [] := by
      rintro rfl
      exact (Entry.ok named root leads).1 rfl
    obtain ⟨whole, split⟩ := splitOn_pathBelow ok start below
    refine ⟨rest ++ '\\' :: name, whole, ?_⟩
    rw [split]
    exact leads.snoc typed entry

/-- Objects, entries and the root stay. -/
structure Extends (s s' : ObState) : Prop where
  root : s'.rootDirectory = s.rootDirectory
  directoryType : s'.directoryType = s.directoryType
  live : ∀ o, s.live o = true → s'.live o = true
  types : ∀ o, s.live o = true → (s'.headers o).type = (s.headers o).type
  entries : ∀ d, s.live d = true → ∀ name o, Entry s d name o → Entry s' d name o

theorem Extends.refl (s : ObState) : Extends s s :=
  ⟨rfl, rfl, fun _ h => h, fun _ _ => rfl, fun _ _ _ _ h => h⟩

theorem Extends.trans {s' s'' : ObState} (first : Extends s s') (second : Extends s' s'') :
    Extends s s'' where
  root := second.root.trans first.root
  directoryType := second.directoryType.trans first.directoryType
  live o h := second.live o (first.live o h)
  types o h := (second.types o (first.live o h)).trans (first.types o h)
  entries d h name o entry := second.entries d (first.live d h) name o (first.entries d h name o entry)

/-- Every path that resolved still does, to the same object. -/
theorem Extends.resolves {s' : ObState} (extends_ : Extends s s') (named : Named s)
    (named' : Named s') (root : s.live s.rootDirectory = true) {path : Name}
    (found : Resolves s path o) : Resolves s' path o := by
  have root' : s'.live s'.rootDirectory = true := by
    rw [extends_.root]
    exact extends_.live _ root
  rw [resolves_iff named root] at found
  rw [resolves_iff named' root', extends_.root]
  rcases found with here | ⟨rest, start, leads⟩
  · exact Or.inl here
  · refine Or.inr ⟨rest, start, ?_⟩
    refine leads.mono (fun d name p live entry => Entry.alive named live entry)
      (fun d name p live entry => extends_.entries d live name p entry) (fun d live typed => ?_) root
    rw [TypedDirectory, extends_.types d live, extends_.directoryType]
    exact typed

/-- An object that was not there before, or is given up again, is in no directory. -/
theorem Named.apart {s' : ObState} (named : Named s) (fresh : s.live o = false)
    (others : ∀ p, p ≠ o → s'.headers p = s.headers p)
    (empty : s'.live o = true → (s'.headers o).entries = [])
    (live : ∀ p, p ≠ o → s'.live p = s.live p) (root : s'.rootDirectory = s.rootDirectory)
    (directoryType : s'.directoryType = s.directoryType) : Named s' ∧ Extends s s' := by
  have different : ∀ p, s.live p = true → p ≠ o := by
    rintro p alive rfl
    exact absurd (fresh.symm.trans alive) (by decide)
  have inside : ∀ d, s'.live d = true → ∀ p ∈ (s'.headers d).entries,
      s.live d = true ∧ p ∈ (s.headers d).entries ∧ s'.headers p = s.headers p := by
    intro d alive p mem
    by_cases here : d = o
    · subst here
      rw [empty alive] at mem
      exact absurd mem List.not_mem_nil
    · rw [others d here] at mem
      have old : s.live d = true := by rw [← live d here, alive]
      exact ⟨old, mem, others p (different p (named.live d old p mem))⟩
  constructor
  · constructor
    · intro d alive p mem
      obtain ⟨old, listed, same⟩ := inside d alive p mem
      rw [same]
      exact named.names d old p listed
    · rintro d alive name p q ⟨memP, nameP⟩ ⟨memQ, nameQ⟩
      obtain ⟨old, listedP, sameP⟩ := inside d alive p memP
      obtain ⟨-, listedQ, sameQ⟩ := inside d alive q memQ
      rw [sameP] at nameP
      rw [sameQ] at nameQ
      exact named.distinct d old name p q ⟨listedP, nameP⟩ ⟨listedQ, nameQ⟩
    · intro d alive p mem
      obtain ⟨old, listed, -⟩ := inside d alive p mem
      have kept := named.live d old p listed
      rw [live p (different p kept)]
      exact kept
  · refine ⟨root, directoryType, fun p alive => ?_, fun p alive => ?_, fun d alive name p entry => ?_⟩
    · rw [live p (different p alive)]
      exact alive
    · rw [others p (different p alive)]
    · have kept := named.live d alive p entry.1
      rw [Entry, others d (different d alive), others p (different p kept)]
      exact entry

/-- The insertion of an object that is in no directory, under a free name. -/
theorem Named.link (named : Named w.ob) {dir : ObjectRef} {name : Name} (live : w.ob.live o = true)
    (unlisted : ∀ d, w.ob.live d = true → o ∉ (w.ob.headers d).entries) (ok : NameOk name)
    (free : ∀ p, ¬ Entry w.ob dir name p) :
    Named (w.link dir name o).ob ∧ Extends w.ob (w.link dir name o).ob ∧
      Entry (w.link dir name o).ob dir name o := by
  have names : ∀ p, ((w.link dir name o).ob.headers p).name =
      if p = o then some name else (w.ob.headers p).name := fun p => by rw [link_headers]
  have contents : ∀ d, ((w.link dir name o).ob.headers d).entries =
      if d = dir then (w.ob.headers d).entries ++ [o] else (w.ob.headers d).entries :=
    fun d => by rw [link_headers]
  have here : Entry (w.link dir name o).ob dir name o := by
    refine ⟨?_, ?_⟩
    · rw [contents, if_pos rfl]
      exact List.mem_append_right _ (List.mem_singleton_self o)
    · rw [names, if_pos rfl]
  -- an entry is the new one, or it was there under the same name
  have cases_ : ∀ d, w.ob.live d = true → ∀ p ∈ ((w.link dir name o).ob.headers d).entries,
      (d = dir ∧ p = o) ∨ (p ≠ o ∧ p ∈ (w.ob.headers d).entries) := by
    intro d alive p mem
    have old : p ∈ (w.ob.headers d).entries → p ≠ o ∧ p ∈ (w.ob.headers d).entries := by
      intro listed
      refine ⟨?_, listed⟩
      rintro rfl
      exact unlisted d alive listed
    rw [contents] at mem
    by_cases into : d = dir
    · rw [if_pos into, List.mem_append, List.mem_singleton] at mem
      exact mem.symm.imp (fun same => ⟨into, same⟩) old
    · rw [if_neg into] at mem
      exact Or.inr (old mem)
  have entries : ∀ d, w.ob.live d = true → ∀ n p, Entry (w.link dir name o).ob d n p →
      (d = dir ∧ n = name ∧ p = o) ∨ (p ≠ o ∧ Entry w.ob d n p) := by
    rintro d alive n p ⟨mem, called⟩
    rw [names] at called
    rcases cases_ d alive p mem with ⟨into, rfl⟩ | ⟨other, listed⟩
    · rw [if_pos rfl] at called
      exact Or.inl ⟨into, (Option.some.inj called).symm, rfl⟩
    · rw [if_neg other] at called
      exact Or.inr ⟨other, listed, called⟩
  refine ⟨⟨?_, ?_, ?_⟩, ⟨rfl, rfl, fun _ h => h, fun p _ => by rw [link_headers], ?_⟩, here⟩
  · intro d alive p mem
    rw [names]
    rcases cases_ d alive p mem with ⟨-, same⟩ | ⟨other, listed⟩
    · rw [if_pos same]
      exact ⟨name, rfl, ok⟩
    · rw [if_neg other]
      exact named.names d alive p listed
  · intro d alive n p q entryP entryQ
    rcases entries d alive n p entryP with ⟨into, same, rfl⟩ | ⟨-, oldP⟩
    · rcases entries d alive n q entryQ with ⟨-, -, rfl⟩ | ⟨-, oldQ⟩
      · rfl
      · rw [into, same] at oldQ
        exact absurd oldQ (free q)
    · rcases entries d alive n q entryQ with ⟨into, same, -⟩ | ⟨-, oldQ⟩
      · rw [into, same] at oldP
        exact absurd oldP (free p)
      · exact named.distinct d alive n p q oldP oldQ
  · intro d alive p mem
    rcases cases_ d alive p mem with ⟨-, rfl⟩ | ⟨-, listed⟩
    · exact live
    · exact named.live d alive p listed
  · rintro d alive n p ⟨mem, called⟩
    have other : p ≠ o := by
      rintro rfl
      exact unlisted d alive mem
    refine ⟨?_, ?_⟩
    · rw [contents]
      split
      · exact List.mem_append_left _ mem
      · exact mem
    · rw [names, if_neg other]
      exact called

/-- The operations that build a namespace, with names that can stand in a path. -/
def Builds : LifeOp → Prop
  | .create .. => True
  | .createDirectory _ name _ | .insert _ name _ => ∀ n, name = some n → NameOk n
  | _ => False

def World.NamespaceStep (w : World) (op : LifeOp) (u : World) : Prop := w.Step op u ∧ Builds op

/-- What the namespace of a run is like. Nothing refers to an object but its creator
and the namespace. -/
structure Populated (w : World) : Prop where
  accounted : Accounted w
  few : ∀ o, w.refs o ≤ 1
  unhandled : ∀ i, w.ob.handles i = .empty
  named : Named w.ob

theorem Populated.root (pop : Populated w) : w.ob.live w.ob.rootDirectory = true :=
  pop.accounted.counted.held _ pop.accounted.counted.rootHeld

theorem Populated.count_small (pop : Populated w)
    (live : w.ob.live o = true) : (w.ob.headers o).pointerCount ≤ 2 ∧
      0 < (w.ob.headers o).pointerCount := by
  have unnamed : namedBy w.ob o = 0 := by
    refine namedBy_of_slot_ne fun i _ here => ?_
    rw [pop.unhandled] at here
    exact pop.accounted.placed.notNull live here.symm
  have count := pop.accounted.counted.pointers o live
  have positive := pop.accounted.counted.positive o live
  have few := pop.few o
  have linked : linkedIn w.ob o ≤ 1 := by
    rw [linkedIn]
    split <;> decide
  omega

theorem Populated.unlisted (pop : Populated w)
    (unlinked : (w.ob.headers o).parentDirectory = none) :
    ∀ d, w.ob.live d = true → o ∉ (w.ob.headers d).entries := by
  intro d live listed
  have parent := (pop.accounted.placed.entries d live o listed).2
  exact absurd (unlinked.symm.trans parent) (by simp)

theorem insert_cases (w : World) (dir : ObjectRef) (name : Option Name) (o : ObjectRef) :
    ((obInsertObjectByName w.ob dir name o).1 ≠ statusSuccess ∧
        (obInsertObjectByName w.ob dir name o).2 = w.ob) ∨
      ∃ n, name = some n ∧ dir ≠ 0 ∧ o ≠ 0 ∧ obpFindInDirectory w.ob dir n = none ∧
        obInsertObjectByName w.ob dir name o = (statusSuccess, (w.link dir n o).ob) := by
  have refused : statusInvalidParameter ≠ statusSuccess := by decide
  have collision : statusObjectNameCollision ≠ statusSuccess := by decide
  cases name with
  | none => exact Or.inl ⟨refused, rfl⟩
  | some n =>
    simp only [obInsertObjectByName]
    by_cases bad : dir = 0 ∨ o = 0
    · rw [if_pos bad]
      exact Or.inl ⟨refused, rfl⟩
    · rw [if_neg bad]
      obtain ⟨directory, object⟩ := not_or.mp bad
      cases found : obpFindInDirectory w.ob dir n with
      | some p => exact Or.inl ⟨collision, rfl⟩
      | none => exact Or.inr ⟨n, rfl, directory, object, found, rfl⟩

theorem Populated.linked (pop : Populated w) {dir : ObjectRef} {n : Name}
    (directory : w.ob.live dir = true) (live : w.ob.live o = true)
    (unlinked : (w.ob.headers o).parentDirectory = none) (ok : NameOk n)
    (free : obpFindInDirectory w.ob dir n = none) :
    Named (w.link dir n o).ob ∧ Extends w.ob (w.link dir n o).ob ∧
      Entry (w.link dir n o).ob dir n o := by
  refine pop.named.link live (pop.unlisted unlinked) ok fun p entry => ?_
  rw [(find_iff pop.named directory n p).mpr entry] at free
  exact absurd free (by simp)

theorem Populated.insert (pop : Populated w) {dir : ObjectRef} {name : Option Name}
    (directory : IsDirectory w.ob dir)
    (object : o = 0 ∨ (w.ob.live o = true ∧ (w.ob.headers o).parentDirectory = none))
    (ok : ∀ n, name = some n → NameOk n) :
    Populated { w with ob := (obInsertObjectByName w.ob dir name o).2 } ∧
      Extends w.ob (obInsertObjectByName w.ob dir name o).2 := by
  have acc := pop.accounted.insert name directory object fun live => by
    have small := (pop.count_small live).1
    omega
  rcases insert_cases w dir name o with ⟨-, same⟩ | ⟨n, named, given, some_, free, done⟩
  · rw [same]
    exact ⟨pop, .refl _⟩
  · obtain ⟨live, unlinked⟩ := object.resolve_left some_
    obtain ⟨good, grown, -⟩ := pop.linked (directory.resolve_left given).1 live unlinked
      (ok n named) free
    rw [done] at acc ⊢
    exact ⟨⟨acc, pop.few, pop.unhandled, good⟩, grown⟩

theorem Populated.create (pop : Populated w) {type : TypeRef}
    (typed : type ≠ 0) (fresh : w.ob.live o = false) (window : InWindow o) :
    Populated (w.create type o) ∧ Extends w.ob (w.create type o).ob := by
  have state := create_state w typed o
  have unheld : w.refs o = 0 := by
    by_contra some_
    have live := pop.accounted.counted.held o (Nat.pos_of_ne_zero some_)
    exact absurd (fresh.symm.trans live) (by decide)
  have here := create_header w typed o
  have others : ∀ p, p ≠ o → (w.create type o).ob.headers p = w.ob.headers p :=
    fun p other => create_others w typed other
  have lives : ∀ p, p ≠ o → (w.create type o).ob.live p = w.ob.live p := by
    intro p other
    rw [state]
    exact Function.update_of_ne other _ _
  obtain ⟨good, grown⟩ := pop.named.apart fresh others (fun _ => by rw [here]; rfl) lives
    (by rw [state]; rfl) (by rw [state]; rfl)
  refine ⟨⟨pop.accounted.create typed fresh window, fun p => ?_, fun i => ?_, good⟩, grown⟩
  · by_cases same : p = o
    · simp [World.create, same, unheld]
    · simp [World.create, same, pop.few p]
  · rw [state]
    exact pop.unhandled i

/-- A directory is made and linked, made outside the namespace, or given up again. -/
theorem Populated.createDirectory (pop : Populated w) {parent : ObjectRef}
    {name : Option Name} (directory : IsDirectory w.ob parent) (fresh : w.ob.live o = false)
    (window : InWindow o) (ok : ∀ n, name = some n → NameOk n) :
    Populated (w.after (.createDirectory parent name (some o))) ∧
      Extends w.ob (w.after (.createDirectory parent name (some o))).ob := by
  have typed := pop.accounted.placed.directoryType
  obtain ⟨made, grown⟩ := pop.create typed fresh window
  have acc : Accounted (w.after (.createDirectory parent name (some o))) :=
    pop.accounted.createDirectory directory fresh window
  have success : (obCreateObject w.ob w.ob.directoryType (some o) 1).1 = statusSuccess := by
    simp [obCreateObject, typed]
  have state : (obCreateObject w.ob w.ob.directoryType (some o) 1).2 =
    (w.create w.ob.directoryType o).ob := rfl
  have good : ntSuccess statusSuccess = true := rfl
  revert acc
  simp only [World.after, obCreateDirectory, success, state, good]
  by_cases outside : parent = 0
  · simp only [if_pos outside, good, if_true]
    exact fun _ => ⟨made, grown⟩
  simp only [if_neg outside]
  obtain ⟨liveParent, typedParent⟩ := directory.resolve_left outside
  have still : IsDirectory (w.create w.ob.directoryType o).ob parent := by
    refine Or.inr ⟨grown.live parent liveParent, ?_⟩
    rw [grown.types parent liveParent, grown.directoryType]
    exact typedParent
  have header := create_header w typed o
  have live : (w.create w.ob.directoryType o).ob.live o = true := by
    rw [create_state w typed o]
    exact Function.update_self _ _ _
  obtain ⟨inserted, grown'⟩ := made.insert still (Or.inr ⟨live, by rw [header]; rfl⟩) ok
  by_cases done : ntSuccess
      (obInsertObjectByName (w.create w.ob.directoryType o).ob parent name o).1 = true
  · simp only [if_pos done, good, if_true]
    exact fun _ => ⟨inserted, grown.trans grown'⟩
  · have unchanged := insert_fails done
    simp only [if_neg done, unchanged]
    intro acc
    obtain ⟨others, empty, -, lives, root, directoryType⟩ :=
      obDereferenceObject_apart (s := (w.create w.ob.directoryType o).ob) (o := o)
        (by rw [header]; rfl)
    obtain ⟨good', grown''⟩ := pop.named.apart fresh
      (fun p other => (others p other).trans (create_others w typed other))
      (fun _ => by rw [empty, header]; rfl)
      (fun p other => (lives p other).trans (by
        rw [create_state w typed o]
        exact Function.update_of_ne other _ _))
      (root.trans grown.root) (directoryType.trans grown.directoryType)
    refine ⟨⟨acc, pop.few, fun i => ?_, good'⟩, grown''⟩
    rw [obDereferenceObject_handles, create_state w typed o]
    exact pop.unhandled i

theorem Populated.step {u : World} {op : LifeOp} (pop : Populated w)
    (step : w.NamespaceStep op u) : Populated u ∧ Extends w.ob u.ob := by
  obtain ⟨⟨allowed, rfl⟩, builds⟩ := step
  cases op with
  | create type block out =>
    cases block with
    | none =>
      have same : w.after (.create type none out) = w := by
        simp only [World.after, obCreateObject]
        split <;> rfl
      rw [same]
      exact ⟨pop, .refl _⟩
    | some o =>
      obtain ⟨fresh, window⟩ := allowed o rfl
      by_cases bad : type = 0 ∨ out = 0
      · simp only [World.after, obCreateObject, if_pos bad]
        exact ⟨pop, .refl _⟩
      · have typed : type ≠ 0 := fun h => bad (Or.inl h)
        rw [w.after_create typed (fun stored => bad (Or.inr stored)) o]
        exact pop.create typed fresh window
  | insert dir name o => exact pop.insert allowed.1 allowed.2 builds
  | createDirectory parent name block =>
    cases block with
    | none =>
      have same : w.after (.createDirectory parent name none) = w := by
        simp [World.after, obCreateDirectory, obCreateObject, pop.accounted.placed.directoryType]
      rw [same]
      exact ⟨pop, .refl _⟩
    | some o =>
      obtain ⟨fresh, window⟩ := allowed.2 o rfl
      exact pop.createDirectory allowed.1 fresh window builds
  | reference _ => exact False.elim builds
  | dereference _ => exact False.elim builds
  | createHandle _ _ _ => exact False.elim builds
  | referenceByHandle _ _ _ _ => exact False.elim builds
  | closeHandle _ => exact False.elim builds
  | lookup _ _ => exact False.elim builds

theorem Booted.populated (boot : Booted w) : Populated w := by
  have empty : ∀ d, w.ob.live d = true → (w.ob.headers d).entries = [] := by
    intro d live
    rw [boot.live, decide_eq_true_eq] at live
    rw [live, boot.root]
    rfl
  refine ⟨boot.accounted, fun o => ?_, boot.handles, ⟨fun d live o mem => ?_,
    fun d live n o p entry => ?_, fun d live o mem => ?_⟩⟩
  · rw [boot.refs]
    split <;> decide
  · rw [empty d live] at mem
    exact absurd mem List.not_mem_nil
  · rw [Entry, empty d live] at entry
    exact absurd entry.1 List.not_mem_nil
  · rw [empty d live] at mem
    exact absurd mem List.not_mem_nil

theorem populated_of_run (run : Runs.Reachable Booted World.NamespaceStep w) : Populated w :=
  run.invariant (fun _ boot => boot.populated) fun _ _ _ pop step => (pop.step step).1

/-- A lookup takes one reference to the object it returns and does nothing else. -/
def OneReference (s s' : ObState) (o : ObjectRef) : Prop :=
  s' = s.setHeader o { s.headers o with pointerCount := (s.headers o).pointerCount + 1 }

theorem Resolves.reference (pop : Populated w) {path : Name} (found : Resolves w.ob path o) :
    OneReference w.ob (obLookupObjectByName w.ob (some path) 1).2.2 o := by
  obtain ⟨success, rfl⟩ := found
  rcases lookup_outcome pop.accounted (some path) 1 with ⟨-, live, state⟩ | ⟨failed, -⟩
  · obtain ⟨small, positive⟩ := pop.count_small live
    rw [OneReference, state, obReferenceObject, longInc_of_lt (by omega) (by omega)]
  · exact absurd (failed.symm.trans success) (by decide)

/-- Insertion and lookup are inverse in every namespace that is built by making
objects and directories and inserting each object at most once. -/
structure InsertsFound (w : World) : Prop where
  /-- An inserted object is found under its name below its directory. -/
  found : ∀ path dir name o, Resolves w.ob path dir → TypedDirectory w.ob dir →
    Allowed w (.insert dir (some name) o) → NameOk name →
    (obInsertObjectByName w.ob dir (some name) o).1 = statusSuccess →
    Resolves (obInsertObjectByName w.ob dir (some name) o).2 (pathBelow path name) o ∧
      OneReference (obInsertObjectByName w.ob dir (some name) o).2
        (obLookupObjectByName (obInsertObjectByName w.ob dir (some name) o).2
          (some (pathBelow path name)) 1).2.2 o
  /-- Paths keep their objects. -/
  kept : ∀ op u, w.NamespaceStep op u → ∀ path o, Resolves w.ob path o → Resolves u.ob path o
  /-- The root's path, and the paths whose segments lead from entry to entry. -/
  resolves : ∀ path o, Resolves w.ob path o ↔
    (path = ['\\'] ∧ w.ob.rootDirectory = o) ∨
      ∃ rest, path = '\\' :: rest ∧
        SegmentsLead w.ob w.ob.rootDirectory (rest.splitOn '\\') o
  /-- A collision changes nothing. -/
  collision : ∀ dir name o,
    (obInsertObjectByName w.ob dir name o).1 = statusObjectNameCollision →
    (obInsertObjectByName w.ob dir name o).2 = w.ob

theorem namespace_inserts_found {w : World} (run : Runs.Reachable Booted World.NamespaceStep w) :
    InsertsFound w := by
  have pop := populated_of_run run
  refine ⟨?_, ?_, resolves_iff pop.named pop.root, ?_⟩
  · intro path dir name o found typed allowed ok success
    obtain ⟨directory, object⟩ := allowed
    have builds : Builds (.insert dir (some name) o) := by
      rintro n same
      obtain rfl := Option.some.inj same
      exact ok
    obtain ⟨pop', grown⟩ := pop.insert directory object builds
    have entry : Entry (obInsertObjectByName w.ob dir (some name) o).2 dir name o := by
      rcases insert_cases w dir (some name) o with ⟨failed, -⟩ | ⟨n, same, given, some_, free, done⟩
      · exact absurd success failed
      · obtain rfl := Option.some.inj same
        obtain ⟨live, unlinked⟩ := object.resolve_left some_
        rw [done]
        exact (pop.linked (directory.resolve_left given).1 live unlinked ok free).2.2
    have live : w.ob.live dir = true := by
      rcases lookup_outcome pop.accounted (some path) 1 with ⟨-, live, -⟩ | ⟨failed, -⟩
      · rw [found.2] at live
        exact live
      · exact absurd (failed.symm.trans found.1) (by decide)
    have still := grown.resolves pop.named pop'.named pop.root found
    have typed' : TypedDirectory (obInsertObjectByName w.ob dir (some name) o).2 dir := by
      rw [TypedDirectory, grown.types dir live, grown.directoryType]
      exact typed
    have named := still.entry pop'.named pop'.root typed' entry ok
    exact ⟨named, named.reference pop'⟩
  · intro op u step path o found
    obtain ⟨pop', grown⟩ := pop.step step
    exact grown.resolves pop.named pop'.named pop.root found
  · intro dir name o collision
    refine insert_fails ?_
    rw [collision]
    decide

/-- The namespace with the directory `\Device` in it. -/
def deviceWorld : World :=
  bootWorld.after (.createDirectory mmKernelHeapBase (some "Device".toList)
    (some (mmKernelHeapBase + 4096)))

theorem namespace_inserts_found_device :
    Resolves deviceWorld.ob "\\Device".toList (mmKernelHeapBase + 4096) ∧
      InsertsFound deviceWorld := by
  refine ⟨⟨by decide, by decide⟩, namespace_inserts_found ?_⟩
  have boot : Runs.Reachable Booted World.NamespaceStep bootWorld := .of_initial bootWorld_booted
  refine boot.next (l := .createDirectory mmKernelHeapBase (some "Device".toList)
    (some (mmKernelHeapBase + 4096))) ⟨⟨⟨Or.inr ⟨by decide, by decide⟩, ?_⟩, rfl⟩, ?_⟩
  · intro o ho
    obtain rfl := Option.some.inj ho
    exact ⟨by decide, by decide, by decide⟩
  · intro n hn
    obtain rfl := Option.some.inj hn
    exact ⟨by decide, by decide⟩

end Ob
