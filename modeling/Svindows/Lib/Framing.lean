import Mathlib.Data.List.Basic

/-!
# Packets in a stream

Packets of a fixed size come over a line one unit at a time. What may open a packet is told by
its first unit alone; a unit that opens nothing is dropped where no packet is under way. A
reader that begins between two packets reads every one of them. One that has lost its place
finds it again behind the first packet in which no later unit looks like an opening.
-/

namespace Framing

universe u

structure Frame (α : Type u) where
  opens : α → Bool
  size : Nat

variable {α : Type u} (f : Frame α)

/-- What is held behind a unit, and the packet that it completes. -/
def feed (held : List α) (b : α) : List α × Option (List α) :=
  if held.isEmpty && !f.opens b then (held, none)
  else if held.length + 1 < f.size then (held ++ [b], none)
  else ([], some (held ++ [b]))

def rest (held : List α) : List α → List α
  | [] => held
  | b :: bs => rest (feed f held b).1 bs

def packets (held : List α) : List α → List (List α)
  | [] => []
  | b :: bs => (feed f held b).2.toList ++ packets (feed f held b).1 bs

structure Frame.IsPacket (p : List α) : Prop where
  size : p.length = f.size
  opening : ∃ b bs, p = b :: bs ∧ f.opens b = true

/-- Whole packets, with units between them that open none. -/
inductive Frame.Sends : List α → List (List α) → Prop
  | nil : Frame.Sends [] []
  | noise {b : α} {xs : List α} {ps : List (List α)} (closed : f.opens b = false)
      (later : Frame.Sends xs ps) : Frame.Sends (b :: xs) ps
  | packet {p xs : List α} {ps : List (List α)} (whole : f.IsPacket p)
      (later : Frame.Sends xs ps) : Frame.Sends (p ++ xs) (p :: ps)

variable {f} {b : α} {held p xs : List α} {ps : List (List α)}

theorem rest_append (held xs ys : List α) :
    rest f held (xs ++ ys) = rest f (rest f held xs) ys := by
  induction xs generalizing held with
  | nil => rfl
  | cons b xs ih => exact ih _

theorem packets_append (held xs ys : List α) :
    packets f held (xs ++ ys) = packets f held xs ++ packets f (rest f held xs) ys := by
  induction xs generalizing held with
  | nil => rfl
  | cons b xs ih => rw [List.cons_append, packets, packets, ih, List.append_assoc, rest]

theorem feed_inside (inside : held ≠ []) (b : α) : feed f held b =
    if held.length + 1 < f.size then (held ++ [b], none) else ([], some (held ++ [b])) := by
  rw [feed, if_neg]
  simp [inside]

/-- A packet under way is read to its end. -/
theorem complete (inside : held ≠ []) (more : xs ≠ []) (whole : held.length + xs.length = f.size) :
    rest f held xs = [] ∧ packets f held xs = [held ++ xs] := by
  induction xs generalizing held with
  | nil => exact absurd rfl more
  | cons b xs ih =>
    rw [rest, packets, feed_inside inside]
    rw [List.length_cons] at whole
    cases xs with
    | nil =>
      rw [List.length_nil] at whole
      rw [if_neg (by omega)]
      exact ⟨rfl, rfl⟩
    | cons c xs =>
      rw [if_pos (by rw [List.length_cons] at whole; omega)]
      have later : rest f (held ++ [b]) (c :: xs) = [] ∧
          packets f (held ++ [b]) (c :: xs) = [held ++ [b] ++ c :: xs] :=
        ih (by simp) (by simp) (by rw [List.length_append, List.length_singleton]; omega)
      simpa using later

theorem whole_packet (whole : f.IsPacket p) : rest f [] p = [] ∧ packets f [] p = [p] := by
  obtain ⟨size, b, bs, rfl, opens⟩ := whole
  have first : feed f [] b = if 1 < f.size then ([b], none) else ([], some [b]) := by
    rw [feed, opens]
    rfl
  rw [rest, packets, first]
  rw [List.length_cons] at size
  cases bs with
  | nil =>
    rw [if_neg (by rw [List.length_nil] at size; omega)]
    exact ⟨rfl, rfl⟩
  | cons c bs =>
    rw [if_pos (by rw [List.length_cons] at size; omega)]
    exact complete (List.cons_ne_nil b []) (List.cons_ne_nil c bs)
      (by rw [List.length_singleton]; omega)

theorem feed_closed (closed : f.opens b = false) : feed f [] b = ([], none) :=
  if_pos (by rw [closed]; rfl)

/-- A reader that has its place reads what was sent. -/
theorem packets_sends (sends : f.Sends xs ps) : rest f [] xs = [] ∧ packets f [] xs = ps := by
  induction sends with
  | nil => exact ⟨rfl, rfl⟩
  | noise closed _ ih =>
    rw [rest, packets, feed_closed closed]
    exact ih
  | packet whole _ ih =>
    obtain ⟨taken, read⟩ := whole_packet whole
    rw [rest_append, packets_append, taken, read]
    exact ⟨ih.1, congrArg _ ih.2⟩

theorem rest_noise (closed : ∀ b ∈ xs, f.opens b = false) : rest f [] xs = [] := by
  induction xs with
  | nil => rfl
  | cons b xs ih =>
    rw [rest, feed_closed (closed b List.mem_cons_self)]
    exact ih fun c member => closed c (.tail b member)

/-- One packet without a false opening gives the place back, wherever the reader was. -/
theorem rest_quiet (short : held.length < f.size) (whole : f.IsPacket p)
    (quiet : ∀ b ∈ p.tail, f.opens b = false) : rest f held p = [] := by
  by_cases idle : held = []
  · exact idle ▸ (whole_packet whole).1
  · have size := whole.size
    have some_ : held.length ≠ 0 := fun none_ => idle (List.eq_nil_of_length_eq_zero none_)
    have taken : (p.take (f.size - held.length)).length = f.size - held.length := by
      rw [List.length_take]
      omega
    have more : p.take (f.size - held.length) ≠ [] := fun none_ => by
      rw [none_, List.length_nil] at taken
      omega
    have ends : rest f held (p.take (f.size - held.length)) = [] :=
      (complete idle more (by rw [taken]; omega)).1
    rw [← List.take_append_drop (f.size - held.length) p, rest_append, ends]
    refine rest_noise fun b member => quiet b ?_
    have later : f.size - held.length = f.size - held.length - 1 + 1 := by omega
    rw [later, ← List.drop_tail] at member
    exact List.mem_of_mem_drop member

end Framing
