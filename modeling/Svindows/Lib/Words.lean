import Mathlib.Data.List.Basic
import Mathlib.Logic.Function.Basic

/-!
# Words of a line

Blanks separate words, and a quote at the beginning of a word protects blanks up to the next
quote. A word is cut off by what ends it, so a line can be cut into its words in place. Words
without quotes can be written on a line so that they are read from it again.
-/

namespace Words

universe u

variable {α : Type u}

/-- What separates words, and what protects blanks. -/
structure Grammar (α : Type u) where
  blank : α → Bool
  quote : α → Bool

variable (g : Grammar α)

/-- The first word and what is behind the unit that ends it. -/
def nextWord (line : List α) : Option (List α × List α) :=
  match line.dropWhile g.blank with
  | [] => none
  | c :: rest =>
    if g.quote c then
      some (rest.takeWhile (!g.quote ·), (rest.dropWhile (!g.quote ·)).tail)
    else some ((c :: rest).takeWhile (!g.blank ·), ((c :: rest).dropWhile (!g.blank ·)).tail)

variable {g}

theorem length_dropWhile_le (p : α → Bool) (l : List α) : (l.dropWhile p).length ≤ l.length :=
  (List.dropWhile_suffix p).length_le

theorem head_dropWhile {p : α → Bool} {l rest : List α} {c : α} (left : l.dropWhile p = c :: rest) :
    p c = false := by
  have some_ : l.dropWhile p ≠ [] := by
    rw [left]
    exact List.cons_ne_nil c rest
  have head := List.head_dropWhile_not p some_
  simpa only [left, List.head_cons] using head

theorem nextWord_shorter {line w rest : List α} (next : nextWord g line = some (w, rest)) :
    rest.length < line.length := by
  have skipped := length_dropWhile_le g.blank line
  rw [nextWord] at next
  split at next
  · cases next
  · rename_i c more left
    rw [left, List.length_cons] at skipped
    split at next
    · cases next
      have inner := length_dropWhile_le (!g.quote ·) more
      rw [List.length_tail]
      omega
    · cases next
      have first : g.blank c = false := head_dropWhile left
      rw [List.dropWhile_cons, if_pos (by rw [first]; rfl)]
      have inner := length_dropWhile_le (!g.blank ·) more
      rw [List.length_tail]
      omega

variable (g) in
def words (line : List α) : List (List α) :=
  match _next : nextWord g line with
  | none => []
  | some (w, rest) => w :: words rest
termination_by line.length
decreasing_by exact nextWord_shorter _next

theorem words_none {line : List α} (next : nextWord g line = none) : words g line = [] := by
  rw [words]
  split
  · rfl
  · rename_i w rest other
    rw [next] at other
    cases other

theorem words_some {line w rest : List α} (next : nextWord g line = some (w, rest)) :
    words g line = w :: words g rest := by
  rw [words]
  split
  · rename_i other
    rw [next] at other
    cases other
  · rename_i w' rest' other
    rw [next] at other
    cases other
    rfl

/-- A blank in front changes nothing. -/
theorem words_blank {c : α} (blank : g.blank c = true) (line : List α) :
    words g (c :: line) = words g line := by
  have same : nextWord g (c :: line) = nextWord g line := by
    rw [nextWord, nextWord, List.dropWhile_cons, if_pos blank]
  cases next : nextWord g line with
  | none => rw [words_none next, words_none (same.trans next)]
  | some r =>
    obtain ⟨w, rest⟩ := r
    rw [words_some next, words_some (same.trans next)]

/-- A word that can stand without quotes. -/
def bare (g : Grammar α) : List α → Bool
  | [] => false
  | c :: w => !g.quote c && (c :: w).all (!g.blank ·)

/-- A word as it is written, in quotes where it needs them. -/
def written (g : Grammar α) (mark : α) (w : List α) : List α :=
  if bare g w then w else mark :: (w ++ [mark])

/-- The words of a line, with a blank between them. -/
def join (g : Grammar α) (mark sep : α) : List (List α) → List α
  | [] => []
  | [w] => written g mark w
  | w :: ws => written g mark w ++ sep :: join g mark sep ws

variable {mark sep : α}

theorem takeWhile_append {p : α → Bool} {w : List α} (all : ∀ c ∈ w, p c = true) (rest : List α) :
    (w ++ rest).takeWhile p = w ++ rest.takeWhile p ∧ (w ++ rest).dropWhile p = rest.dropWhile p := by
  induction w with
  | nil => exact ⟨rfl, rfl⟩
  | cons c w ih =>
    have here := all c List.mem_cons_self
    obtain ⟨taken, dropped⟩ := ih fun d member => all d (List.mem_cons_of_mem c member)
    rw [List.cons_append, List.takeWhile_cons, List.dropWhile_cons, if_pos here, if_pos here, taken,
      dropped]
    exact ⟨rfl, rfl⟩

/-- Up to the blank or the end behind it, a word is read as it is written. -/
theorem nextWord_written {rest : List α} (ends : ∀ c ∈ rest.head?, g.blank c = true)
    (quote : g.quote mark = true) (solid : g.blank mark = false) {w : List α}
    (plain : ∀ c ∈ w, g.quote c = false) :
    nextWord g (written g mark w ++ rest) = some (w, rest.tail) ∨
      nextWord g (written g mark w ++ rest) = some (w, rest) := by
  rw [written]
  split_ifs with alone
  · left
    cases w with
    | nil => cases alone
    | cons c w =>
      rw [bare, Bool.and_eq_true, List.all_eq_true] at alone
      obtain ⟨first, all⟩ := alone
      have visible : g.blank c = false := by simpa using all c List.mem_cons_self
      obtain ⟨taken, dropped⟩ := takeWhile_append all rest
      rw [List.cons_append] at taken dropped ⊢
      rw [nextWord, List.dropWhile_cons, if_neg (by rw [visible]; decide)]
      dsimp only
      rw [if_neg (by simpa using first), taken, dropped]
      cases rest with
      | nil => simp
      | cons sep rest => simp [ends sep rfl]
  · right
    have all : ∀ c ∈ w, (!g.quote c) = true := fun c member => by rw [plain c member]; rfl
    obtain ⟨taken, dropped⟩ := takeWhile_append all (mark :: rest)
    rw [List.cons_append, List.append_assoc, List.singleton_append, nextWord, List.dropWhile_cons,
      if_neg (by rw [solid]; decide)]
    dsimp only
    rw [if_pos quote, taken, dropped]
    simp [quote]

/-- Words without quotes are read from the line they are written on. -/
theorem words_join (blank : g.blank sep = true) (quote : g.quote mark = true)
    (solid : g.blank mark = false) {ws : List (List α)}
    (plain : ∀ w ∈ ws, ∀ c ∈ w, g.quote c = false) : words g (join g mark sep ws) = ws := by
  induction ws with
  | nil => exact words_none rfl
  | cons w ws ih =>
    have first := plain w List.mem_cons_self
    have rest := ih fun v member => plain v (List.mem_cons_of_mem w member)
    cases ws with
    | nil =>
      have ends : ∀ c ∈ ([] : List α).head?, g.blank c = true := by simp
      have next := nextWord_written ends quote solid first
      rw [List.append_nil, List.tail_nil, or_self] at next
      rw [join, words_some next, words_none rfl]
    | cons v ws =>
      rw [join]
      · have ends : ∀ c ∈ (sep :: join g mark sep (v :: ws)).head?, g.blank c = true := by
          rintro c ⟨rfl⟩
          exact blank
        rcases nextWord_written ends quote solid first with next | next
        · rw [words_some next, List.tail_cons, rest]
        · rw [words_some next, words_blank blank, rest]
      · exact List.cons_ne_nil v ws

end Words
