import Mathlib.Data.UInt
import Svindows.Lib.Words
import Svindows.Rtl.CString

/-!
# The arguments of a program

`__getmainargs` cuts a copy of the command line into words, in place, and `__wgetmainargs` does
so with the command line of the process parameters. The strings that the vector points to are
the words of the line, and a line that was written from a list of arguments gives them back.
-/

namespace Msvcrt

open Words Rtl

variable {α : Type} [Zero α] [DecidableEq α]

/-- A loop over the units from an index on. -/
def scanWhile (test : α → Bool) : Nat → (Nat → α) → Nat → Nat
  | 0, _, p => p
  | fuel + 1, m, p => if test (m p) then scanWhile test fuel m (p + 1) else p

/-- The loop of `crt_split_args` and of `__wgetmainargs`, with room for so many arguments: the
vector and the line as it is then. -/
def splitArgs (g : Grammar α) (fuel : Nat) : Nat → (Nat → α) → Nat → List Nat × (Nat → α)
  | 0, m, _ => ([], m)
  | room + 1, m, p =>
    if m p = 0 then ([], m)
    else
      let p := scanWhile g.blank fuel m p
      if m p = 0 then ([], m)
      else
        let quoted := g.quote (m p)
        let p := if quoted then p + 1 else p
        let stops (c : α) := if quoted then g.quote c else g.blank c
        let stop := scanWhile (fun c => c != 0 && !stops c) fuel m p
        let (next, m) := if m stop = 0 then (stop, m) else (stop + 1, Function.update m stop 0)
        let (argv, m) := splitArgs g fuel room m next
        (p :: argv, m)

def crtGrammar : Grammar UInt8 := ⟨fun c => c == 32 || c == 9, fun c => c == 34⟩

def wideGrammar : Grammar UInt16 := ⟨fun c => c == 32 || c == 9, fun _ => false⟩

def crtMaxArgs : Nat := 64

def crtSplitArgs (fuel : Nat) (line : Nat → UInt8) (max : Nat) : List Nat × (Nat → UInt8) :=
  splitArgs crtGrammar fuel max line 0

/-- Some text with its NUL, in an array that held something else. -/
def copyText (text : List α) (array : Nat → α) : Nat → α := fun i =>
  if i ≤ text.length then text.getD i 0 else array i

/-- `__getmainargs`: `argc`, the vector and the private copy of `_acmdln` that it points into;
`none` where the heap has no room. -/
def getmainargs (acmdln : Option CString) (room : Bool) (array : Nat → UInt8) :
    Option (Nat × List Nat × (Nat → UInt8)) :=
  if room = false then none
  else
    let source := (acmdln.map (·.bytes)).getD []
    let split := crtSplitArgs (source.length + 1) (copyText source array) crtMaxArgs
    some (split.1.length, split.1, split.2)

def wideLine : Nat := 511
def wideMaxArgs : Nat := 31

/-- `__wgetmainargs`: `source` are the units behind the pointer of the process parameters, which
are as many as they say. -/
def wgetmainargs (source : Option (List UInt16)) (array : Nat → UInt16) :
    Nat × List Nat × (Nat → UInt16) :=
  let units := (source.getD []).take wideLine
  let split := splitArgs wideGrammar (units.length + 1) wideMaxArgs (copyText units array) 0
  (split.1.length, split.1, split.2)

/-- At `p` there is this text with its NUL. -/
structure StringAt (m : Nat → α) (p : Nat) (text : List α) : Prop where
  unit : ∀ j c, text[j]? = some c → m (p + j) = c
  stop : m (p + text.length) = 0
  noNul : 0 ∉ text

/-- The strings follow each other from `p` on, and none goes beyond `last`. -/
def Strings (m : Nat → α) (last : Nat) : Nat → List Nat → List (List α) → Prop
  | _, [], [] => True
  | p, a :: as, w :: ws => p ≤ a ∧ a + w.length ≤ last ∧ StringAt m a w ∧
    Strings m last (a + w.length + 1) as ws
  | _, _, _ => False

variable {m m' : Nat → α} {p last : Nat} {text w rest : List α} {test : α → Bool} {g : Grammar α}

omit [DecidableEq α] in
theorem StringAt.congr (here : StringAt m p text) (same : ∀ i, p ≤ i → i ≤ p + text.length → m' i = m i) :
    StringAt m' p text where
  unit j c unit := by
    have inside : j < text.length := (List.getElem?_eq_some_iff.mp unit).1
    rw [same _ (Nat.le_add_right p j) (by omega)]
    exact here.unit j c unit
  stop := by
    rw [same _ (Nat.le_add_right _ _) le_rfl]
    exact here.stop
  noNul := here.noNul

omit [DecidableEq α] in
theorem StringAt.append (here : StringAt m p (w ++ rest)) : StringAt m (p + w.length) rest where
  unit j c unit := by
    rw [Nat.add_assoc]
    refine here.unit _ c ?_
    rw [List.getElem?_append_right (Nat.le_add_right _ _), Nat.add_sub_cancel_left]
    exact unit
  stop := by
    rw [Nat.add_assoc, ← List.length_append]
    exact here.stop
  noNul member := here.noNul (List.mem_append_right w member)

omit [DecidableEq α] in
theorem StringAt.tail {c : α} (here : StringAt m p (c :: rest)) : StringAt m (p + 1) rest :=
  here.append (w := [c])

omit [DecidableEq α] in
theorem StringAt.head {c : α} (here : StringAt m p (c :: rest)) : m p = c ∧ c ≠ 0 :=
  ⟨here.unit 0 c rfl, fun same => here.noNul (same ▸ List.mem_cons_self)⟩

omit [DecidableEq α] in
/-- A scan that a NUL stops ends behind the units that pass. -/
theorem StringAt.scan (test : α → Bool) (here : StringAt m p text) (nul : test 0 = false) {fuel : Nat}
    (enough : text.length ≤ fuel) :
    scanWhile test fuel m p = p + (text.takeWhile test).length ∧
      StringAt m (p + (text.takeWhile test).length) (text.dropWhile test) := by
  refine ⟨?_, StringAt.append (by rwa [List.takeWhile_append_dropWhile])⟩
  induction text generalizing p fuel with
  | nil =>
    cases fuel with
    | zero => rfl
    | succ fuel =>
      have stop : m p = 0 := here.stop
      rw [scanWhile, stop, if_neg (by rw [nul]; decide)]
      rfl
  | cons c text ih =>
    obtain ⟨fuel, rfl⟩ := Nat.exists_eq_succ_of_ne_zero (Nat.ne_of_gt (Nat.lt_of_lt_of_le
      (Nat.succ_pos text.length) enough))
    rw [scanWhile, here.head.1, List.takeWhile_cons]
    split_ifs
    · rw [ih here.tail (Nat.le_of_succ_le_succ enough), List.length_cons]
      omega
    · rfl

omit [DecidableEq α] in
theorem takeWhile_notNul (noNul : 0 ∉ text) [DecidableEq α] (p : α → Bool) :
    text.takeWhile (fun c => c != 0 && p c) = text.takeWhile p ∧
      text.dropWhile (fun c => c != 0 && p c) = text.dropWhile p := by
  induction text with
  | nil => exact ⟨rfl, rfl⟩
  | cons c text ih =>
    have some_ : (c != 0) = true := by
      rw [bne_iff_ne]
      exact fun same => noNul (same ▸ List.mem_cons_self)
    obtain ⟨taken, dropped⟩ := ih fun member => noNul (List.mem_cons_of_mem c member)
    simp only [List.takeWhile_cons, List.dropWhile_cons, some_, Bool.true_and, taken, dropped,
      and_self]

/-- What one turn of the loop leaves: a string is cut off, and the rest of the line is behind it. -/
structure Cut (m m' : Nat → α) (p : Nat) (text : List α) (a : Nat) (w : List α) (next : Nat)
    (rest : List α) : Prop where
  low : p ≤ a
  high : a + w.length ≤ p + text.length
  word : StringAt m' a w
  left : StringAt m' next rest
  ends : next + rest.length = p + text.length
  behind : a + w.length ≤ next ∧ (next = a + w.length + 1 ∨ rest = [])
  outside : ∀ i, i < p ∨ p + text.length < i → m' i = m i

/-- The end of a word is made its NUL, unless the line ends there. -/
theorem StringAt.cut (stops : α → Bool) (here : StringAt m p text) (fuel : Nat)
    (enough : text.length ≤ fuel) : ∃ next m',
      (let stop := scanWhile (fun c => c != 0 && !stops c) fuel m p
       if m stop = 0 then (stop, m) else (stop + 1, Function.update m stop 0)) = (next, m') ∧
      Cut m m' p text p (text.takeWhile (!stops ·)) next (text.dropWhile (!stops ·)).tail := by
  obtain ⟨scan, left⟩ := here.scan (fun c => c != 0 && !stops c) (by simp) enough
  obtain ⟨taken, dropped⟩ := takeWhile_notNul here.noNul (!stops ·)
  rw [taken, dropped] at left
  rw [taken] at scan
  have parts := List.takeWhile_append_dropWhile (p := (!stops ·)) (l := text)
  generalize text.takeWhile (!stops ·) = w at *
  generalize text.dropWhile (!stops ·) = more at *
  subst parts
  have noNul : 0 ∉ w := fun member => here.noNul (List.mem_append_left more member)
  have word : ∀ m', (∀ i, i < p + w.length → m' i = m i) → m' (p + w.length) = 0 → StringAt m' p w := by
    intro m' same nul
    refine ⟨fun j c unit => ?_, nul, noNul⟩
    have inside : j < w.length := (List.getElem?_eq_some_iff.mp unit).1
    rw [same _ (Nat.add_lt_add_left inside p)]
    exact here.unit j c (by rw [List.getElem?_append_left inside, unit])
  simp only [scan]
  cases more with
  | nil =>
    have nul : m (p + w.length) = 0 := left.stop
    rw [if_pos nul]
    exact ⟨_, _, rfl, le_rfl, by simp, word m (fun _ _ => rfl) nul, left, by simp, ⟨le_rfl, .inr rfl⟩,
      fun _ _ => rfl⟩
  | cons c more =>
    obtain ⟨unit, some_⟩ := left.head
    rw [if_neg (by rw [unit]; exact some_)]
    refine ⟨_, _, rfl, le_rfl, by simp, ?_, ?_, by simp; omega, ⟨Nat.le_succ _, .inl rfl⟩,
      fun i outside => ?_⟩
    · exact word _ (fun i lt => Function.update_of_ne (Nat.ne_of_lt lt) ..) (Function.update_self ..)
    · exact left.tail.congr fun i low _ => Function.update_of_ne (by omega) ..
    · rw [List.length_append, List.length_cons] at outside
      exact Function.update_of_ne (by omega) ..

omit [DecidableEq α] in
theorem Cut.widen {m' : Nat → α} {q a next : Nat} {inner : List α} (cut : Cut m m' q inner a w next rest)
    (low : p ≤ q) (ends : q + inner.length = p + text.length) : Cut m m' p text a w next rest where
  low := low.trans cut.low
  high := ends ▸ cut.high
  word := cut.word
  left := cut.left
  ends := cut.ends.trans ends
  behind := cut.behind
  outside i outside := cut.outside i (by omega)

theorem splitArgs_none (nul : g.blank 0 = false) (here : StringAt m p text) {fuel : Nat}
    (enough : text.length ≤ fuel) (room : Nat) (next : nextWord g text = none) :
    splitArgs g fuel room m p = ([], m) := by
  cases room with
  | zero => rfl
  | succ room =>
    obtain ⟨scan, left⟩ := here.scan g.blank nul enough
    rw [nextWord] at next
    split at next
    · rename_i none_
      rw [none_] at left
      have stop : m (p + (text.takeWhile g.blank).length) = 0 := left.stop
      rw [splitArgs]
      split_ifs
      · rfl
      · simp only [scan]
        rw [if_pos stop]
    · split at next <;> cases next

theorem splitArgs_some (nul : g.blank 0 = false) (here : StringAt m p text) {fuel : Nat}
    (enough : text.length ≤ fuel) (room : Nat) (next : nextWord g text = some (w, rest)) :
    ∃ a q m', splitArgs g fuel (room + 1) m p =
        (a :: (splitArgs g fuel room m' q).1, (splitArgs g fuel room m' q).2) ∧
      Cut m m' p text a w q rest := by
  obtain ⟨scan, left⟩ := here.scan g.blank nul enough
  have parts := congrArg List.length (List.takeWhile_append_dropWhile (p := g.blank) (l := text))
  rw [List.length_append] at parts
  rw [nextWord] at next
  split at next
  · cases next
  · rename_i c more skipped
    rw [skipped] at left parts
    rw [List.length_cons] at parts
    obtain ⟨unit, some_⟩ := left.head
    have more_ : m p ≠ 0 := by
      cases text with
      | nil => cases skipped
      | cons d text => exact here.head.1.symm ▸ here.head.2
    rw [splitArgs, if_neg more_]
    simp only [scan, unit]
    rw [if_neg some_]
    split at next
    · rename_i quoted
      cases next
      obtain ⟨q, m', turn, cut⟩ := left.tail.cut g.quote fuel (by omega)
      refine ⟨_, q, m', ?_, cut.widen (by omega) (by omega)⟩
      simp only [quoted, if_true]
      rw [turn]
    · rename_i bare
      rw [Bool.not_eq_true] at bare
      cases next
      obtain ⟨q, m', turn, cut⟩ := left.cut g.blank fuel (by rw [List.length_cons]; omega)
      refine ⟨_, q, m', ?_, cut.widen (by omega) (by rw [List.length_cons]; omega)⟩
      simp only [bare, Bool.false_eq_true, if_false]
      rw [turn]

/-- The strings that are cut off are the words of the line, as many as there is room for, and
nothing outside of the line is written. -/
theorem splitArgs_words (nul : g.blank 0 = false) {fuel : Nat} (room : Nat) :
    ∀ {m p text}, StringAt m p text → text.length ≤ fuel →
      Strings (splitArgs g fuel room m p).2 (p + text.length) p (splitArgs g fuel room m p).1
          ((words g text).take room) ∧
        ∀ i, i < p ∨ p + text.length < i → (splitArgs g fuel room m p).2 i = m i := by
  induction room with
  | zero => exact fun _ _ => ⟨trivial, fun _ _ => rfl⟩
  | succ room ih =>
    intro m p text here enough
    cases next : nextWord g text with
    | none =>
      rw [splitArgs_none nul here enough _ next, words_none next]
      exact ⟨trivial, fun _ _ => rfl⟩
    | some found =>
      obtain ⟨w, rest⟩ := found
      obtain ⟨a, q, m', turn, cut⟩ := splitArgs_some nul here enough room next
      have ends := cut.ends
      have low := cut.low
      obtain ⟨after, other⟩ := cut.behind
      obtain ⟨strings, outside⟩ := ih cut.left (by omega)
      rw [turn, words_some next, List.take_succ_cons]
      rw [ends] at strings outside
      refine ⟨?_, fun i out => by rw [outside i (by omega), cut.outside i out]⟩
      rcases other with behind | none_
      · rw [behind] at strings outside ⊢
        exact ⟨low, cut.high, cut.word.congr fun i first last => outside i (by omega), strings⟩
      · -- the line ends with this word
        rw [none_, words_none rfl, List.take_nil]
        rw [none_] at cut
        rw [splitArgs_none nul cut.left (Nat.zero_le fuel) room rfl]
        exact ⟨low, cut.high, cut.word, trivial⟩

omit [DecidableEq α] in
theorem Strings.length {as : List Nat} {ws : List (List α)} (strings : Strings m last p as ws) :
    as.length = ws.length := by
  induction as generalizing p ws with
  | nil =>
    cases ws with
    | nil => rfl
    | cons w ws => exact strings.elim
  | cons a as ih =>
    cases ws with
    | nil => exact strings.elim
    | cons w ws => exact congrArg (· + 1) (ih strings.2.2.2)

/-- A copy ends at the first NUL of what is copied. -/
theorem copyText_string (text : List α) (array : Nat → α) :
    StringAt (copyText text array) 0 (text.takeWhile (· != 0)) := by
  have parts := List.takeWhile_append_dropWhile (p := (· != (0 : α))) (l := text)
  have noNul : 0 ∉ text.takeWhile (· != 0) := fun member => by
    simpa using List.mem_takeWhile_imp member
  have bound := congrArg List.length parts
  rw [List.length_append] at bound
  refine ⟨fun j c unit => ?_, ?_, noNul⟩
  · have inside : j < (text.takeWhile (· != 0)).length := (List.getElem?_eq_some_iff.mp unit).1
    have here : text[j]? = some c := by
      rw [← parts, List.getElem?_append_left inside, unit]
    rw [Nat.zero_add, copyText, if_pos (by omega), List.getD_eq_getElem?_getD, here, Option.getD_some]
  · rw [Nat.zero_add, copyText, if_pos (by omega), List.getD_eq_getElem?_getD]
    cases rest : text.dropWhile (· != 0) with
    | nil =>
      rw [rest, List.append_nil] at parts
      rw [parts, List.getElem?_eq_none le_rfl, Option.getD_none]
    | cons c more =>
      have stop : c = 0 := by simpa using head_dropWhile rest
      rw [rest] at parts
      nth_rewrite 1 [← parts]
      rw [List.getElem?_append_right le_rfl, Nat.sub_self, List.getElem?_cons_zero, Option.getD_some,
        stop]

/-- The words of the text up to its first NUL are cut off in its copy. -/
theorem splitArgs_copy (nul : g.blank 0 = false) (room : Nat) (text : List α) (array : Nat → α) :
    Strings (splitArgs g (text.length + 1) room (copyText text array) 0).2
      (text.takeWhile (· != 0)).length 0 (splitArgs g (text.length + 1) room (copyText text array) 0).1
      ((words g (text.takeWhile (· != 0))).take room) := by
  have shorter := (List.takeWhile_prefix (· != (0 : α)) (l := text)).length_le
  obtain ⟨strings, -⟩ := splitArgs_words nul room (copyText_string text array) (Nat.le_succ_of_le shorter)
  rwa [Nat.zero_add] at strings

/-- The arguments are the first words of the command line, each a string of its own in the copy. -/
theorem main_args_are_words (line : CString) (units : List UInt16) (array : Nat → UInt8)
    (array' : Nat → UInt16) :
    (∃ argv copy, getmainargs (some line) true array = some (argv.length, argv, copy) ∧
      Strings copy line.bytes.length 0 argv ((words crtGrammar line.bytes).take crtMaxArgs)) ∧
    ∃ argv copy, wgetmainargs (some units) array' = (argv.length, argv, copy) ∧
      Strings copy ((units.take wideLine).takeWhile (· != 0)).length 0 argv
        ((words wideGrammar ((units.take wideLine).takeWhile (· != 0))).take wideMaxArgs) := by
  constructor
  · have whole : line.bytes.takeWhile (· != 0) = line.bytes :=
      List.takeWhile_eq_self_iff.mpr fun c member => by
        rw [bne_iff_ne]
        exact fun nul => line.noNul (nul ▸ member)
    have strings := splitArgs_copy (g := crtGrammar) rfl crtMaxArgs line.bytes array
    rw [whole] at strings
    exact ⟨_, _, rfl, strings⟩
  · exact ⟨_, _, rfl, splitArgs_copy (g := wideGrammar) rfl wideMaxArgs (units.take wideLine) array'⟩

/-- The arguments on a line, those with blanks in quotes. -/
def commandLine (args : List CString) : CString where
  bytes := join crtGrammar 34 32 (args.map (·.bytes))
  noNul := by
    have written : ∀ w : List UInt8, 0 ∉ w → 0 ∉ written crtGrammar 34 w := by
      intro w noNul
      rw [Words.written]
      split_ifs <;> simp [noNul]
    induction args with
    | nil => exact List.not_mem_nil
    | cons a args ih =>
      cases args with
      | nil => exact written a.bytes a.noNul
      | cons b args =>
        intro member
        rcases List.mem_append.mp member with first | rest
        · exact written a.bytes a.noNul first
        · rcases List.mem_cons.mp rest with blank | later
          · cases blank
          · exact ih later

/-- Arguments without quotes arrive as they were written on the command line. -/
theorem command_line_round_trip (args : List CString) (few : args.length ≤ crtMaxArgs)
    (plain : ∀ a ∈ args, 34 ∉ a.bytes) (array : Nat → UInt8) :
    ∃ argv copy, getmainargs (some (commandLine args)) true array = some (args.length, argv, copy) ∧
      Strings copy (commandLine args).bytes.length 0 argv (args.map (·.bytes)) := by
  obtain ⟨⟨argv, copy, run, strings⟩, -⟩ := main_args_are_words (commandLine args) [] array fun _ => 0
  have back : words crtGrammar (commandLine args).bytes = args.map (·.bytes) := by
    refine words_join rfl rfl rfl fun w member c unit => ?_
    obtain ⟨a, there, rfl⟩ := List.mem_map.mp member
    exact beq_false_of_ne fun same => plain a there (same ▸ unit)
  rw [back, List.take_of_length_le (by rwa [List.length_map])] at strings
  have count := strings.length
  rw [List.length_map] at count
  exact ⟨argv, copy, by rw [run, count], strings⟩

theorem command_line_round_trip_three : ∃ argv copy,
    getmainargs (some (commandLine [.lit "open", .lit "a b", .lit ""])) true (fun _ => 0) =
        some (3, argv, copy) ∧
      Strings copy (commandLine [.lit "open", .lit "a b", .lit ""]).bytes.length 0 argv
        [[111, 112, 101, 110], [97, 32, 98], []] :=
  command_line_round_trip [.lit "open", .lit "a b", .lit ""] (by decide) (by decide) fun _ => 0

end Msvcrt
