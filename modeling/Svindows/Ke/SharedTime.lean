import Mathlib.Data.List.Chain
import Mathlib.Data.List.GetD
import Mathlib.Logic.Function.Basic
import Mathlib.Tactic.IntervalCases
import Svindows.Lib.Runs
import Svindows.Nt.Defs

/-!
# The times of the shared page

On every clock tick the kernel writes the tick count and the system time into
KUSER_SHARED_DATA, each as High1, Low, High2. A reader in user mode takes the
same three words in the same order, without a lock, and keeps a pair whose high
parts are equal. Each 32-bit store and each 32-bit load is one step.

Reader and writer go the same way, so a reader can pass a writer between two of
its stores. What it then keeps is a published value as long as consecutive
values agree in their high or in their low part.
-/

namespace Ke

open Nt

def kusdTickCountMultiplier : Nat := 0x004
def kusdSystemTime : Nat := 0x014
def kusdTickCount : Nat := 0x320

def msPerTick : Nat := 10
def hundredNsPerTick : Nat := msPerTick * 10000

def high (v : Nat) : Nat := wrap32 (v / 2 ^ 32)
def low (v : Nat) : Nat := wrap32 v

/-- The value of a `KSYSTEM_TIME` with equal high parts. -/
def join (high low : Nat) : Nat := high * 2 ^ 32 + low

/-- The two times in the page. -/
inductive TimeField where
  | tickCount | systemTime
  deriving DecidableEq

namespace TimeField

def offset : TimeField → Nat
  | tickCount => kusdTickCount
  | systemTime => kusdSystemTime

/-- What an update with this tick count publishes. -/
def value : TimeField → UInt64 → Nat
  | tickCount, ticks => ticks.toNat
  | systemTime, ticks => wrap64 (ticks.toNat * hundredNsPerTick)

end TimeField

/-- The words of a `KSYSTEM_TIME`, in the order in which they are written and read. -/
inductive TimeWord where
  | high1 | low | high2
  deriving DecidableEq

namespace TimeWord

def offset : TimeWord → Nat
  | high1 => 4
  | low => 0
  | high2 => 8

def part : TimeWord → Nat → Nat
  | high1 | high2 => high
  | low => Ke.low

def rank : TimeWord → Nat
  | high1 => 1
  | low => 2
  | high2 => 3

end TimeWord

/-- One `wr32`. -/
structure Store where
  offset : Nat
  value : Nat
  deriving DecidableEq

def timeStores (f : TimeField) (ticks : UInt64) : List Store :=
  [.high1, .low, .high2].map fun k : TimeWord => ⟨f.offset + k.offset, k.part (f.value ticks)⟩

/-- The stores of `KeUpdateSharedData`, in order. -/
def keUpdateSharedData (ticks : UInt64) : List Store :=
  timeStores .tickCount ticks ++ timeStores .systemTime ticks

/-- The words of the page by their offset. -/
abbrev Page := Nat → Nat

def wr32 (page : Page) (w : Store) : Page := Function.update page w.offset w.value

/-- `KeInitializeSharedData`: a page of zeroes, the multiplier and a first update. -/
def keInitializeSharedData (ticks : UInt64) : Page :=
  (⟨kusdTickCountMultiplier, wrap32 (msPerTick * 2 ^ 24)⟩ :: keUpdateSharedData ticks).foldl wr32
    fun _ => 0

/-- Where `read_ksystem_time` is: the load that comes next and what it has so far. -/
inductive ReadPc where
  | high1
  | low (high1 : Nat)
  | high2 (high1 low : Nat)

/-- `pending` are the stores that the running update still has to make. -/
structure TimeSystem where
  page : Page
  pending : List Store
  published : List UInt64
  reader : ReadPc

inductive TimeEvent where
  | update (ticks : UInt64)
  | store
  | load

/-- After the third load `read_ksystem_time` returns or starts over; a new call starts over too. -/
def TimeSystem.load (f : TimeField) (s : TimeSystem) : TimeSystem :=
  match s.reader with
  | .high1 => { s with reader := .low (s.page (f.offset + TimeWord.high1.offset)) }
  | .low high1 => { s with reader := .high2 high1 (s.page (f.offset + TimeWord.low.offset)) }
  | .high2 _ _ => { s with reader := .high1 }

/-- The value that the third load makes `read_ksystem_time` return. -/
def TimeSystem.returns (f : TimeField) (s : TimeSystem) : Option Nat :=
  match s.reader with
  | .high2 high1 low => if high1 = s.page (f.offset + TimeWord.high2.offset) then some (join high1 low) else none
  | _ => none

/-- An update starts when the one before has ended; stores and loads mix freely. -/
def TimeSystem.Step (f : TimeField) (s : TimeSystem) : TimeEvent → TimeSystem → Prop
  | .update ticks, t => s.pending = [] ∧
      t = { s with pending := keUpdateSharedData ticks, published := s.published ++ [ticks] }
  | .store, t => ∃ w rest, s.pending = w :: rest ∧
      t = { s with page := wr32 s.page w, pending := rest }
  | .load, t => t = s.load f

def TimeSystem.Start (s : TimeSystem) : Prop :=
  ∃ ticks, s = ⟨keInitializeSharedData ticks, [], [ticks], .high1⟩

/-- Whatever a reader returns while these updates are made was published before. -/
def Untorn (f : TimeField) (ticks : List UInt64) : Prop :=
  ∀ s, Runs.Reachable TimeSystem.Start (TimeSystem.Step f) s → s.published <+: ticks →
    ∀ v, s.returns f = some v → v ∈ s.published.map f.value

/-- Two times with the same high part or the same low part. -/
def Agree (f : TimeField) (ticks ticks' : UInt64) : Prop :=
  high (f.value ticks) = high (f.value ticks') ∨ low (f.value ticks) = low (f.value ticks')

theorem value_lt (f : TimeField) (ticks : UInt64) : f.value ticks < 2 ^ 64 := by
  cases f with
  | tickCount => exact ticks.toNat_lt
  | systemTime => exact Nat.mod_lt _ (by decide)

theorem join_high_low {v : Nat} (word : v < 2 ^ 64) : join (high v) (low v) = v := by
  simp only [join, high, low, wrap32]
  omega

theorem high_mono {v w : Nat} (word : w < 2 ^ 64) (le : v ≤ w) : high v ≤ high w := by
  simp only [high, wrap32]
  omega

/-- The time that update `i` published. -/
def TimeSystem.timeAt (s : TimeSystem) (f : TimeField) (i : Nat) : Nat :=
  f.value (s.published.getD i 0)

/-- How many of the field's words an update has written after `m` stores. -/
def TimeField.done : TimeField → Nat → Nat
  | tickCount, m => min m 3
  | systemTime, m => m - 3

/-- The update that a word of the field comes from. -/
def TimeSystem.source (s : TimeSystem) (f : TimeField) (m : Nat) (k : TimeWord) : Nat :=
  if k.rank ≤ f.done m then s.published.length - 1 else s.published.length - 2

/-- The updates behind the words a reader has loaded. -/
def TimeSystem.Holds (s : TimeSystem) (f : TimeField) (m : Nat) : ReadPc → Prop
  | .high1 => True
  | .low high1 => ∃ i ≤ s.source f m .high1, high1 = high (s.timeAt f i)
  | .high2 high1 low => ∃ i j, i ≤ j + 1 ∧ i ≤ s.source f m .high1 ∧ j ≤ s.source f m .low ∧
      high1 = high (s.timeAt f i) ∧ low = Ke.low (s.timeAt f j)

/-- `m` stores of the last update are made. -/
structure Tracks (f : TimeField) (s : TimeSystem) (m : Nat) : Prop where
  few : m ≤ 6
  pending : ∃ older ticks, s.published = older ++ [ticks] ∧
    s.pending = (keUpdateSharedData ticks).drop m
  later : m < 6 → 2 ≤ s.published.length
  words : ∀ k : TimeWord, s.page (f.offset + k.offset) = k.part (s.timeAt f (s.source f m k))
  reader : s.Holds f m s.reader

theorem timeAt_last {s : TimeSystem} {older : List UInt64} {ticks : UInt64}
    (h : s.published = older ++ [ticks]) (f : TimeField) :
    s.timeAt f (s.published.length - 1) = f.value ticks := by
  simp [TimeSystem.timeAt, h]

theorem wr32_word {m : Nat} {ticks : UInt64} {w : Store} {rest : List Store} (lt : m < 6)
    (next : (keUpdateSharedData ticks).drop m = w :: rest) (page : Page) (f : TimeField)
    (k : TimeWord) :
    wr32 page w (f.offset + k.offset) =
      if f.done m < k.rank ∧ k.rank ≤ f.done (m + 1) then k.part (f.value ticks)
      else page (f.offset + k.offset) := by
  interval_cases m <;> cases next <;> cases f <;> cases k <;> rfl


theorem done_succ (f : TimeField) (m : Nat) : f.done m ≤ f.done (m + 1) := by
  cases f <;> simp only [TimeField.done] <;> omega

theorem source_le (s : TimeSystem) (f : TimeField) (m : Nat) (k : TimeWord) :
    s.source f m k ≤ s.published.length - 1 := by
  simp only [TimeSystem.source]
  split <;> omega

theorem source_succ (s : TimeSystem) (f : TimeField) (m : Nat) (k : TimeWord) :
    s.source f m k ≤ s.source f (m + 1) k := by
  have grows := done_succ f m
  simp only [TimeSystem.source]
  split <;> split <;> omega

/-- A word that is written later is at most one update behind. -/
theorem source_apart (s : TimeSystem) (f : TimeField) (m : Nat) (k l : TimeWord) :
    s.source f m k ≤ s.source f m l + 1 := by
  simp only [TimeSystem.source]
  split <;> split <;> omega

/-- What a reader holds it still holds when the words have moved on. -/
theorem TimeSystem.Holds.mono {s t : TimeSystem} {f : TimeField} {m n : Nat} {pc : ReadPc}
    (holds : s.Holds f m pc) (later : ∀ k, s.source f m k ≤ t.source f n k)
    (same : ∀ i < s.published.length, t.timeAt f i = s.timeAt f i)
    (some_ : 0 < s.published.length) : t.Holds f n pc := by
  have known : ∀ {i k}, i ≤ s.source f m k → i < s.published.length := by
    intro i k le
    have bound := source_le s f m k
    omega
  cases pc with
  | high1 => trivial
  | low high1 =>
    obtain ⟨i, hi, rfl⟩ := holds
    exact ⟨i, hi.trans (later _), by rw [same i (known hi)]⟩
  | high2 high1 low =>
    obtain ⟨i, j, near, hi, hj, rfl, rfl⟩ := holds
    refine ⟨i, j, near, hi.trans (later _), hj.trans (later _), ?_, ?_⟩
    · rw [same i (known hi)]
    · rw [same j (known hj)]

variable {f : TimeField} {s : TimeSystem} {m : Nat}

theorem Tracks.some_published (tracks : Tracks f s m) :
    0 < s.published.length := by
  obtain ⟨older, ticks, published, -⟩ := tracks.pending
  rw [published, List.length_append]
  exact Nat.succ_pos _

theorem Tracks.store (tracks : Tracks f s m)
    {w : Store} {rest : List Store} (next : s.pending = w :: rest) :
    Tracks f { s with page := wr32 s.page w, pending := rest } (m + 1) := by
  obtain ⟨older, ticks, published, pending⟩ := tracks.pending
  have length : (keUpdateSharedData ticks).length = 6 := rfl
  have lt : m < 6 := by
    by_contra all
    rw [next, List.drop_eq_nil_of_le (by omega)] at pending
    cases pending
  rw [next] at pending
  refine ⟨lt, ⟨older, ticks, published, ?_⟩, fun _ => tracks.later lt, fun k => ?_, ?_⟩
  · rw [← List.tail_drop, ← pending, List.tail_cons]
  · have last := timeAt_last published f
    have moves := wr32_word lt pending.symm s.page f k
    have grows := done_succ f m
    dsimp only
    rw [moves]
    by_cases here : f.done m < k.rank ∧ k.rank ≤ f.done (m + 1)
    · rw [if_pos here, TimeSystem.source, if_pos here.2]
      exact congrArg k.part last.symm
    · rw [if_neg here, tracks.words k]
      have same : (k.rank ≤ f.done m) = (k.rank ≤ f.done (m + 1)) := by
        rw [eq_iff_iff]
        omega
      simp only [TimeSystem.source, same]
      rfl
  · exact tracks.reader.mono (source_succ s f m) (fun _ _ => rfl) tracks.some_published

theorem Tracks.update (tracks : Tracks f s m) (rest : s.pending = []) (ticks : UInt64) :
    Tracks f { s with
      pending := keUpdateSharedData ticks
      published := s.published ++ [ticks] } 0 := by
  obtain ⟨older, last, published, pending⟩ := tracks.pending
  have all : m = 6 := by
    have few := tracks.few
    have length : (keUpdateSharedData last).length = 6 := rfl
    rw [rest] at pending
    have short := congrArg List.length pending
    rw [List.length_drop, List.length_nil] at short
    omega
  subst all
  have positive := tracks.some_published
  have before : ∀ k : TimeWord, s.source f 6 k = s.published.length - 1 := by
    intro k
    cases f <;> cases k <;> rfl
  have after : ∀ k : TimeWord, TimeSystem.source { s with
      pending := keUpdateSharedData ticks
      published := s.published ++ [ticks] } f 0 k = s.published.length - 1 := by
    intro k
    have none : ¬ k.rank ≤ f.done 0 := by cases f <;> cases k <;> decide
    rw [TimeSystem.source, if_neg none, List.length_append, List.length_singleton]
    omega
  have same : ∀ i < s.published.length, TimeSystem.timeAt { s with
      pending := keUpdateSharedData ticks
      published := s.published ++ [ticks] } f i = s.timeAt f i := by
    intro i hi
    simp only [TimeSystem.timeAt]
    rw [List.getD_append _ _ _ _ hi]
  refine ⟨Nat.zero_le _, ⟨s.published, ticks, rfl, rfl⟩, fun _ => ?_, fun k => ?_, ?_⟩
  · rw [List.length_append, List.length_singleton]
    omega
  · rw [after k, same _ (by omega), ← before k]
    exact tracks.words k
  · exact tracks.reader.mono (fun k => by rw [before k, after k]) same positive

theorem Tracks.load (tracks : Tracks f s m) :
    Tracks f (s.load f) m := by
  have words := tracks.words
  cases pc : s.reader with
  | high1 =>
    simp only [TimeSystem.load, pc]
    exact ⟨tracks.few, tracks.pending, tracks.later, words, _, le_rfl, words .high1⟩
  | low high1 =>
    have holds := tracks.reader
    rw [pc] at holds
    obtain ⟨i, hi, rfl⟩ := holds
    simp only [TimeSystem.load, pc]
    exact ⟨tracks.few, tracks.pending, tracks.later, words, i, _,
      hi.trans (source_apart s f m .high1 .low), hi, le_rfl, rfl, words .low⟩
  | high2 high1 low =>
    simp only [TimeSystem.load, pc]
    exact ⟨tracks.few, tracks.pending, tracks.later, words, trivial⟩

/-- The first update writes every word of both fields, whatever the words are. -/
theorem initial_word (f : TimeField) (k : TimeWord) (ticks : UInt64) :
    keInitializeSharedData ticks (f.offset + k.offset) = k.part (f.value ticks) := by
  have stores : ∀ (part : TimeWord → Nat → Nat) (value : TimeField → Nat) (multiplier : Nat),
      ((⟨kusdTickCountMultiplier, multiplier⟩ : Store) ::
        ([TimeField.tickCount, .systemTime].flatMap fun g =>
          [TimeWord.high1, .low, .high2].map fun l =>
            ⟨g.offset + l.offset, part l (value g)⟩)).foldl wr32 (fun _ => 0)
        (f.offset + k.offset) = part k (value f) := by
    intro part value multiplier
    cases f <;> cases k <;> rfl
  exact stores TimeWord.part (fun g => g.value ticks) _

theorem tracks_start (f : TimeField) (ticks : UInt64) :
    Tracks f ⟨keInitializeSharedData ticks, [], [ticks], .high1⟩ 6 := by
  refine ⟨le_rfl, ⟨[], ticks, rfl, rfl⟩, fun lt => absurd lt (lt_irrefl 6), fun k => ?_, trivial⟩
  have last : TimeSystem.source ⟨keInitializeSharedData ticks, [], [ticks], .high1⟩ f 6 k = 0 := by
    cases f <;> cases k <;> rfl
  rw [last]
  exact initial_word f k ticks

theorem tracks_of_run
    (run : Runs.Reachable TimeSystem.Start (TimeSystem.Step f) s) : ∃ m, Tracks f s m := by
  have starts : ∀ s, TimeSystem.Start s → ∃ m, Tracks f s m := by
    rintro s ⟨ticks, rfl⟩
    exact ⟨6, tracks_start f ticks⟩
  have steps : ∀ s event t, (∃ m, Tracks f s m) → s.Step f event t → ∃ m, Tracks f t m := by
    rintro s event t ⟨m, tracks⟩ step
    cases event with
    | update ticks =>
      obtain ⟨rest, rfl⟩ := step
      exact ⟨0, tracks.update rest ticks⟩
    | store =>
      obtain ⟨w, rest, next, rfl⟩ := step
      exact ⟨m + 1, tracks.store next⟩
    | load =>
      obtain rfl := step
      exact ⟨m, tracks.load⟩
  exact run.invariant starts steps

theorem timeAt_mem {i : Nat} (hi : i < s.published.length) :
    s.timeAt f i ∈ s.published.map f.value := by
  rw [TimeSystem.timeAt, List.getD_eq_getElem _ _ hi]
  exact List.mem_map_of_mem (List.getElem_mem hi)

theorem timeAt_lt (s : TimeSystem) (f : TimeField) (i : Nat) : s.timeAt f i < 2 ^ 64 :=
  value_lt f _

/-- Increasing times with neighbours that agree: what three words of the updates `i`, `j` and `k`
give is published. -/
theorem joined_mem {i j k : Nat}
    (ordered : ∀ i j, i ≤ j → j < s.published.length → s.timeAt f i ≤ s.timeAt f j)
    (agree : ∀ i, i + 1 < s.published.length →
      high (s.timeAt f i) = high (s.timeAt f (i + 1)) ∨ low (s.timeAt f i) = low (s.timeAt f (i + 1)))
    (hi : i < s.published.length) (hj : j < s.published.length) (hk : k < s.published.length)
    (near : i ≤ j + 1) (behind : i ≤ k + 1) (behind' : j ≤ k + 1)
    (same : high (s.timeAt f i) = high (s.timeAt f k)) :
    join (high (s.timeAt f i)) (low (s.timeAt f j)) ∈ s.published.map f.value := by
  have whole : ∀ n < s.published.length,
      join (high (s.timeAt f n)) (low (s.timeAt f n)) ∈ s.published.map f.value := by
    intro n hn
    rw [join_high_low (timeAt_lt s f n)]
    exact timeAt_mem hn
  rcases Nat.lt_or_ge j i with before | after
  · -- the low part is still that of the update before
    obtain rfl : i = j + 1 := by omega
    rcases agree j hi with high | low
    · rw [← high]
      exact whole j hj
    · rw [low]
      exact whole (j + 1) hi
  · rcases Nat.lt_or_ge k j with ahead | settled
    · obtain rfl : j = k + 1 := by omega
      rcases Nat.lt_or_ge k i with first | later
      · obtain rfl : i = k + 1 := by omega
        exact whole (k + 1) hi
      · rcases agree k hj with high | low
        · rw [same, high]
          exact whole (k + 1) hj
        · rw [same, ← low]
          exact whole k hk
    · -- the high part has not changed in between
      have up := high_mono (timeAt_lt s f j) (ordered i j after hj)
      have down := high_mono (timeAt_lt s f k) (ordered j k settled hk)
      have stays : Ke.high (s.timeAt f i) = Ke.high (s.timeAt f j) := by omega
      rw [stays]
      exact whole j hj

/-- The values of the field increase from one update to the next. -/
def Increasing (f : TimeField) (ticks : List UInt64) : Prop :=
  ticks.IsChain fun t t' => f.value t < f.value t'

theorem Increasing.ordered (increasing : Increasing f s.published)
    (i j : Nat) (le : i ≤ j) (hj : j < s.published.length) : s.timeAt f i ≤ s.timeAt f j := by
  induction j, le using Nat.le_induction with
  | base => exact le_rfl
  | succ j _ ih =>
    have step := List.isChain_iff_getElem.mp increasing j hj
    have near : s.timeAt f j < s.timeAt f (j + 1) := by
      rwa [TimeSystem.timeAt, TimeSystem.timeAt, List.getD_eq_getElem _ _ (by omega),
        List.getD_eq_getElem _ _ hj]
    exact (ih (by omega)).trans near.le

theorem untorn_of_agree {ticks : List UInt64} (increasing : Increasing f ticks)
    (agree : ticks.IsChain (Agree f)) : Untorn f ticks := by
  rintro s run ⟨rest, rfl⟩ v returned
  obtain ⟨m, tracks⟩ := tracks_of_run run
  have positive := tracks.some_published
  have holds := tracks.reader
  simp only [TimeSystem.returns] at returned
  cases pc : s.reader with
  | high1 | low high1 =>
    rw [pc] at returned
    cases returned
  | high2 high1 low =>
    rw [pc] at returned holds
    obtain ⟨i, j, near, hi, hj, rfl, rfl⟩ := holds
    have kept : high (s.timeAt f i) = s.page (f.offset + TimeWord.high2.offset) ∧
        v = join (high (s.timeAt f i)) (Ke.low (s.timeAt f j)) := by
      dsimp only at returned
      split at returned
      · rename_i same
        exact ⟨same, (Option.some.inj returned).symm⟩
      · cases returned
    obtain ⟨same, rfl⟩ := kept
    rw [tracks.words .high2] at same
    have bound := source_le s f m
    have apart := source_apart s f m
    refine joined_mem (Increasing.ordered increasing.left_of_append) ?_
      (hi.trans_lt ?_) (hj.trans_lt ?_) ((bound .high2).trans_lt ?_) near
      (hi.trans (apart .high1 .high2)) (hj.trans (apart .low .high2)) same
    · intro n hn
      have pair := List.isChain_iff_getElem.mp agree.left_of_append n hn
      rwa [TimeSystem.timeAt, TimeSystem.timeAt, List.getD_eq_getElem _ _ (by omega),
        List.getD_eq_getElem _ _ hn]
    · exact (bound .high1).trans_lt (by omega)
    · exact (bound .low).trans_lt (by omega)
    · omega

theorem reach_update (run : Runs.Reachable TimeSystem.Start (TimeSystem.Step f) s)
    (rest : s.pending = []) (ticks : UInt64) :
    Runs.Reachable TimeSystem.Start (TimeSystem.Step f) { s with
      pending := keUpdateSharedData ticks
      published := s.published ++ [ticks] } :=
  run.next (show s.Step f (.update ticks) _ from ⟨rest, rfl⟩)

theorem reach_store (run : Runs.Reachable TimeSystem.Start (TimeSystem.Step f) s)
    {w : Store} {rest : List Store} (next : s.pending = w :: rest) :
    Runs.Reachable TimeSystem.Start (TimeSystem.Step f)
      { s with page := wr32 s.page w, pending := rest } :=
  run.next (show s.Step f .store _ from ⟨w, rest, next, rfl⟩)

theorem reach_load (run : Runs.Reachable TimeSystem.Start (TimeSystem.Step f) s) :
    Runs.Reachable TimeSystem.Start (TimeSystem.Step f) (s.load f) :=
  run.next (show s.Step f .load _ from rfl)

/-- The writer can go on while the reader waits. -/
theorem advance {n : Nat}
    (run : Runs.Reachable TimeSystem.Start (TimeSystem.Step f) s) (tracks : Tracks f s m)
    (few : m + n ≤ 6) :
    ∃ t, Runs.Reachable TimeSystem.Start (TimeSystem.Step f) t ∧ Tracks f t (m + n) ∧
      t.published = s.published ∧ t.reader = s.reader := by
  induction n with
  | zero => exact ⟨s, run, tracks, rfl, rfl⟩
  | succ n ih =>
    obtain ⟨t, run', tracks', published, reader⟩ := ih (by omega)
    obtain ⟨older, ticks, -, pending⟩ := tracks'.pending
    cases next : t.pending with
    | nil =>
      have length : (keUpdateSharedData ticks).length = 6 := rfl
      have none := congrArg List.length (pending.symm.trans next)
      rw [List.length_drop, List.length_nil] at none
      omega
    | cons w rest =>
      exact ⟨_, reach_store run' next, tracks'.store next, published, reader⟩

/-- Any updates can be made one after the other before a read begins. -/
theorem reach_rest (f : TimeField) (older : List UInt64) (ticks : UInt64) :
    ∃ s, Runs.Reachable TimeSystem.Start (TimeSystem.Step f) s ∧ Tracks f s 6 ∧
      s.published = older ++ [ticks] ∧ s.reader = .high1 := by
  induction older using List.reverseRecOn generalizing ticks with
  | nil => exact ⟨_, .of_initial ⟨ticks, rfl⟩, tracks_start f ticks, rfl, rfl⟩
  | append_singleton older last ih =>
    obtain ⟨s, run, tracks, published, reader⟩ := ih last
    obtain ⟨_, _, -, pending⟩ := tracks.pending
    have rest : s.pending = [] := pending
    obtain ⟨t, ran, tracks', published', reader'⟩ :=
      advance (n := 6) (reach_update run rest ticks) (tracks.update rest ticks) le_rfl
    exact ⟨t, ran, tracks', by rw [published', published], by rw [reader', reader]⟩

/-- How many stores an update makes before it comes to the field. -/
def TimeField.first : TimeField → Nat
  | tickCount => 0
  | systemTime => 3

/-- A reader that loads High1 and Low between the first two stores of an update, and High2 after the
third, keeps the new high part with the old low part. -/
theorem torn_read (f : TimeField) (older : List UInt64) (ticks ticks' : UInt64) :
    ∃ s, Runs.Reachable TimeSystem.Start (TimeSystem.Step f) s ∧
      s.published = older ++ [ticks, ticks'] ∧
      s.returns f = some (join (high (f.value ticks')) (low (f.value ticks))) := by
  obtain ⟨s, run, tracks, published, reader⟩ := reach_rest f older ticks
  obtain ⟨_, _, -, pending⟩ := tracks.pending
  have rest : s.pending = [] := pending
  obtain ⟨t, ran, tracks', pub, pc⟩ := advance (n := f.first + 1) (reach_update run rest ticks')
    (tracks.update rest ticks') (by cases f <;> decide)
  have all : t.published = (older ++ [ticks]) ++ [ticks'] := by rw [pub, published]
  have new := timeAt_last all f
  have old : t.timeAt f (t.published.length - 2) = f.value ticks := by
    simp [TimeSystem.timeAt, all]
  have high1 : t.page (f.offset + TimeWord.high1.offset) = high (f.value ticks') := by
    rw [tracks'.words .high1, ← new]
    cases f <;> rfl
  have lowWord : t.page (f.offset + TimeWord.low.offset) = low (f.value ticks) := by
    rw [tracks'.words .low, ← old]
    cases f <;> rfl
  have begins : t.reader = .high1 := by rw [pc, reader]
  have loaded : (t.load f).load f =
      { t with reader := .high2 (high (f.value ticks')) (low (f.value ticks)) } := by
    simp only [TimeSystem.load, begins, high1, lowWord]
  have tracks'' := tracks'.load.load
  have ran' := reach_load (reach_load ran)
  rw [loaded] at tracks'' ran'
  obtain ⟨u, ends, tracked, pub', pc'⟩ := advance (n := 2) ran' tracks'' (by cases f <;> decide)
  have all' : u.published = (older ++ [ticks]) ++ [ticks'] := by rw [pub', all]
  have high2 : u.page (f.offset + TimeWord.high2.offset) = high (f.value ticks') := by
    rw [tracked.words .high2, ← timeAt_last all' f]
    cases f <;> rfl
  refine ⟨u, ends, by rw [all', List.append_assoc]; rfl, ?_⟩
  simp only [TimeSystem.returns, pc', high2, if_true]

theorem high_join {h l : Nat} (word : h < 2 ^ 32) (word' : l < 2 ^ 32) : high (join h l) = h := by
  simp only [high, join, wrap32]
  omega

theorem low_join {h l : Nat} (word : l < 2 ^ 32) : low (join h l) = l := by
  simp only [low, join, wrap32]
  omega

theorem high_lt (v : Nat) : high v < 2 ^ 32 := Nat.mod_lt _ (by decide)
theorem low_lt (v : Nat) : low v < 2 ^ 32 := Nat.mod_lt _ (by decide)

theorem agree_of_untorn {ticks : List UInt64} (increasing : Increasing f ticks)
    (untorn : Untorn f ticks) : ticks.IsChain (Agree f) := by
  rw [List.isChain_iff_forall_rel_of_append_cons_cons]
  rintro a b older later rfl
  obtain ⟨s, run, published, returned⟩ := torn_read f older a b
  have before : s.published <+: older ++ a :: b :: later := ⟨later, by simp [published]⟩
  have member := untorn s run before _ returned
  obtain ⟨t, ht, value⟩ := List.mem_map.mp member
  have highs : high (f.value t) = high (f.value b) := by
    rw [value, high_join (high_lt _) (low_lt _)]
  have lows : low (f.value t) = low (f.value a) := by
    rw [value, low_join (low_lt _)]
  obtain ⟨first, step, -⟩ := List.isChain_append_cons_cons.mp increasing
  have sorted : ∀ t ∈ older ++ [a], f.value t ≤ f.value a := by
    intro t ht
    have chain : (List.map f.value (older ++ [a])).IsChain (· < ·) := (List.isChain_map _).mpr first
    rw [List.isChain_iff_pairwise, List.map_append, List.pairwise_append] at chain
    rcases List.mem_append.mp ht with old | last
    · exact (chain.2.2 _ (List.mem_map_of_mem old) _ (List.mem_singleton.mpr rfl)).le
    · rw [List.mem_singleton.mp last]
  rw [published, show older ++ [a, b] = older ++ [a] ++ [b] by simp] at ht
  rcases List.mem_append.mp ht with old | last
  · left
    have up := high_mono (value_lt f a) (sorted t old)
    have down := high_mono (value_lt f b) step.le
    omega
  · right
    rw [List.mem_singleton.mp last] at lows
    exact lows.symm

theorem untorn_iff {ticks : List UInt64} (increasing : Increasing f ticks) :
    Untorn f ticks ↔ ticks.IsChain (Agree f) :=
  ⟨agree_of_untorn increasing, untorn_of_agree increasing⟩

/-- No system time of these updates is too large for 64 bits. -/
def TimesFit (ticks : List UInt64) : Prop := ∀ t ∈ ticks, t.toNat * hundredNsPerTick < 2 ^ 64

/-- A lock-free reader returns published values only, exactly when consecutive values agree in their
high or in their low part. -/
theorem snapshots_untorn_iff {ticks : List UInt64} (increasing : ticks.IsChain (· < ·)) :
    (Untorn .tickCount ticks ↔ ticks.IsChain (Agree .tickCount)) ∧
      (TimesFit ticks → (Untorn .systemTime ticks ↔ ticks.IsChain (Agree .systemTime))) := by
  refine ⟨untorn_iff (increasing.imp fun a b lt => lt), fun fit => untorn_iff ?_⟩
  refine increasing.imp_of_mem_imp fun a b ha hb lt => ?_
  simp only [TimeField.value, wrap64]
  rw [Nat.mod_eq_of_lt (fit a ha), Nat.mod_eq_of_lt (fit b hb)]
  exact Nat.mul_lt_mul_of_pos_right lt (by decide)

theorem snapshots_untorn_first_ticks : Untorn .tickCount [5, 6] ∧ Untorn .systemTime [5, 6] := by
  have both := @snapshots_untorn_iff [5, 6] (by simp)
  refine ⟨both.1.mpr ?_, (both.2 ?_).mpr ?_⟩
  · exact List.isChain_pair.mpr (.inl (by decide))
  · intro t ht
    rcases List.mem_pair.mp ht with rfl | rfl <;> decide
  · exact List.isChain_pair.mpr (.inl (by decide))

/-- The system time carries into its high part 429.5 seconds after the start. -/
theorem system_time_torn_at_carry :
    [42949, 42950].IsChain (· < · : UInt64 → UInt64 → Prop) ∧
      ¬ Untorn .systemTime [42949, 42950] := by
  refine ⟨List.isChain_pair.mpr (by decide), fun untorn => ?_⟩
  obtain ⟨s, run, published, returned⟩ := torn_read .systemTime [] 42949 42950
  have member := untorn s run ⟨[], by rw [published]; rfl⟩ _ returned
  rw [published] at member
  exact absurd member (by decide)

end Ke
