import Mathlib.Data.UInt
import Mathlib.Logic.Function.Basic
import Mathlib.Tactic.Linarith
import Svindows.Lib.Framing
import Svindows.Nt.Defs

/-!
# The mouse

`hal/mouse.c` reads the three-byte packets of a PS/2 mouse, one byte for an interrupt, into a
cursor that stays on the screen, the buttons and a number that counts the changes. Beside it
stand the reports that the mouse sends and what each does to the cursor.
-/

namespace Hal

open Nt Framing

structure MouseState where
  x : Int
  y : Int
  buttons : UInt8
  seq : Nat

structure Mouse where
  state : MouseState
  maxX : Int
  maxY : Int
  pkt : Nat → UInt8
  pktIndex : Nat

def Mouse.boot : Mouse := ⟨⟨0, 0, 0, 0⟩, 1023, 767, fun _ => 0, 0⟩

/-- A sum or a difference as it is stored in an `INT32`. -/
def int32 (v : Int) : Int := Int.bmod v (2 ^ 32)

def halMouseSetBounds (s : Mouse) (width height : Int) : Mouse :=
  { s with
    maxX := int32 (width - 1)
    maxY := int32 (height - 1)
    state := { s.state with
      x := width.tdiv 2, y := height.tdiv 2, seq := wrap32 (s.state.seq + 1) } }

/-- The two comparisons with the edges of the screen. -/
def clamp (max v : Int) : Int :=
  let v := if v < 0 then 0 else v
  if v > max then max else v

/-- What the third byte of a packet does. -/
def Mouse.finish (s : Mouse) : MouseState :=
  let flags := s.pkt 0
  if flags &&& 0xC0 ≠ 0 then s.state
  else
    let dx : Int := (s.pkt 1).toNat - if flags &&& 0x10 ≠ 0 then 256 else 0
    let dy : Int := (s.pkt 2).toNat - if flags &&& 0x20 ≠ 0 then 256 else 0
    { x := clamp s.maxX (int32 (s.state.x + dx))
      y := clamp s.maxY (int32 (s.state.y - dy))
      buttons := flags &&& 0x07
      seq := wrap32 (s.state.seq + 1) }

def mouseIrq (s : Mouse) (byte : UInt8) : Mouse :=
  if s.pktIndex = 0 ∧ byte &&& 0x08 = 0 then s
  else
    let s := { s with pkt := Function.update s.pkt s.pktIndex byte, pktIndex := s.pktIndex + 1 }
    if s.pktIndex < 3 then s
    else { s with pktIndex := 0, state := s.finish }

inductive MouseEvent
  | byte (b : UInt8)
  | setBounds (width height : Int)

def Mouse.next (s : Mouse) : MouseEvent → Mouse
  | .byte b => mouseIrq s b
  | .setBounds width height => halMouseSetBounds s width height

def Mouse.after (s : Mouse) (events : List MouseEvent) : Mouse := events.foldl Mouse.next s

def Mouse.read (s : Mouse) (bytes : List UInt8) : Mouse := bytes.foldl mouseIrq s

/-- A report of the mouse. Up is positive in `dy`; the overflow bits say that the movement did
not fit. -/
structure Report where
  left : Bool
  right : Bool
  middle : Bool
  dx : Int
  dy : Int
  overflowX : Bool
  overflowY : Bool
  fitsX : -256 ≤ dx ∧ dx < 256
  fitsY : -256 ≤ dy ∧ dy < 256

def bit (b : Bool) (v : UInt8) : UInt8 := if b then v else 0

def buttonBits (left right middle : Bool) : UInt8 := bit left 1 ||| bit right 2 ||| bit middle 4

/-- The first byte, in which bit 3 is always set. -/
def flagBits (left right middle downX downY overflowX overflowY : Bool) : UInt8 :=
  buttonBits left right middle ||| 8 ||| bit downX 0x10 ||| bit downY 0x20 |||
    bit overflowX 0x40 ||| bit overflowY 0x80

/-- The low eight bits of a movement. -/
def lowByte (d : Int) : UInt8 := UInt8.ofNat (d % 256).toNat

namespace Report

def flags (r : Report) : UInt8 :=
  flagBits r.left r.right r.middle (decide (r.dx < 0)) (decide (r.dy < 0)) r.overflowX r.overflowY

def packet (r : Report) : List UInt8 := [r.flags, lowByte r.dx, lowByte r.dy]

/-- Neither byte of the movement looks like the first one of a packet. -/
def Quiet (r : Report) : Prop := lowByte r.dx &&& 8 = 0 ∧ lowByte r.dy &&& 8 = 0

/-- What a report does to the cursor: nothing if it has overflowed. -/
def move (maxX maxY : Int) (c : MouseState) (r : Report) : MouseState :=
  if r.overflowX || r.overflowY then c
  else
    { x := min maxX (max 0 (c.x + r.dx))
      y := min maxY (max 0 (c.y - r.dy))
      buttons := buttonBits r.left r.right r.middle
      seq := wrap32 (c.seq + 1) }

end Report

/-- The bytes of these reports, with bytes between them that open no packet. -/
inductive Sent : List UInt8 → List Report → Prop
  | nil : Sent [] []
  | noise {b : UInt8} {bytes : List UInt8} {reports : List Report} (closed : b &&& 8 = 0)
      (later : Sent bytes reports) : Sent (b :: bytes) reports
  | report {bytes : List UInt8} {reports : List Report} (r : Report)
      (later : Sent bytes reports) : Sent (r.packet ++ bytes) (r :: reports)

/-- The cursor is on the screen and the buttons are three bits. -/
structure CursorOnScreen (s : Mouse) : Prop where
  left : 0 ≤ s.state.x
  right : s.state.x ≤ s.maxX
  top : 0 ≤ s.state.y
  bottom : s.state.y ≤ s.maxY
  buttons : s.state.buttons < 8

def mouseFrame : Frame UInt8 := ⟨fun b => b &&& 8 != 0, 3⟩

/-- The bytes of the packet under way. -/
def Mouse.held (s : Mouse) : List UInt8 := (List.range s.pktIndex).map s.pkt

def readPacket (maxX maxY : Int) (c : MouseState) (p : List UInt8) : MouseState :=
  Mouse.finish ⟨c, maxX, maxY, (p.getD · 0), 0⟩

/-- What a byte does, by the packet that it completes. -/
structure Reads (s s' : Mouse) (held : List UInt8) (packets : List (List UInt8)) : Prop where
  maxX : s'.maxX = s.maxX
  maxY : s'.maxY = s.maxY
  short : s'.pktIndex < 3
  held : s'.held = held
  state : s'.state = packets.foldl (readPacket s.maxX s.maxY) s.state

theorem held_update (pkt : Nat → UInt8) (i : Nat) (b : UInt8) :
    (List.range (i + 1)).map (Function.update pkt i b) = (List.range i).map pkt ++ [b] := by
  have before : (List.range i).map (Function.update pkt i b) = (List.range i).map pkt :=
    List.map_congr_left fun j member => Function.update_of_ne (List.mem_range.mp member).ne _ _
  rw [List.range_succ, List.map_append, before, List.map_singleton, Function.update_self]

theorem mouseIrq_reads {s : Mouse} (short : s.pktIndex < 3) (b : UInt8) :
    Reads s (mouseIrq s b) (feed mouseFrame s.held b).1 (feed mouseFrame s.held b).2.toList := by
  have skips : (s.held.isEmpty && !mouseFrame.opens b) = true ↔
      s.pktIndex = 0 ∧ b &&& 0x08 = 0 := by
    simp [Mouse.held, mouseFrame, List.isEmpty_iff]
  have length : s.held.length = s.pktIndex := by rw [Mouse.held, List.length_map, List.length_range]
  have size : mouseFrame.size = 3 := rfl
  have stored := held_update s.pkt s.pktIndex b
  rw [feed, length, size, mouseIrq]
  by_cases dropped : s.pktIndex = 0 ∧ b &&& 0x08 = 0
  · rw [if_pos dropped, if_pos (skips.mpr dropped)]
    exact ⟨rfl, rfl, short, rfl, rfl⟩
  · rw [if_neg dropped, if_neg (mt skips.mp dropped)]
    by_cases more : s.pktIndex + 1 < 3
    · simp only [if_pos more]
      exact ⟨rfl, rfl, more, stored, rfl⟩
    · have third : s.pktIndex = 2 := by omega
      simp only [if_neg more]
      refine ⟨rfl, rfl, Nat.zero_lt_succ 2, rfl, ?_⟩
      simp only [Option.toList_some, List.foldl_cons, List.foldl_nil, readPacket, Mouse.finish]
      rw [Mouse.held, third]
      rfl

theorem read_reads {s : Mouse} (short : s.pktIndex < 3) (bytes : List UInt8) :
    Reads s (s.read bytes) (rest mouseFrame s.held bytes) (packets mouseFrame s.held bytes) := by
  induction bytes generalizing s with
  | nil => exact ⟨rfl, rfl, short, rfl, rfl⟩
  | cons b bytes ih =>
    have first := mouseIrq_reads short b
    have later := ih first.short
    rw [first.held] at later
    constructor
    case maxX => exact later.maxX.trans first.maxX
    case maxY => exact later.maxY.trans first.maxY
    case short => exact later.short
    case held => exact later.held
    case state =>
      have state := later.state
      rw [first.maxX, first.maxY, first.state] at state
      rw [packets, List.foldl_append]
      exact state

theorem flagBits_parts (left right middle downX downY overflowX overflowY : Bool) :
    let flags := flagBits left right middle downX downY overflowX overflowY
    flags &&& 8 ≠ 0 ∧ (flags &&& 0xC0 ≠ 0 ↔ (overflowX || overflowY) = true) ∧
      (flags &&& 0x10 ≠ 0 ↔ downX = true) ∧ (flags &&& 0x20 ≠ 0 ↔ downY = true) ∧
      flags &&& 7 = buttonBits left right middle := by
  revert left right middle downX downY overflowX overflowY
  decide

theorem lowByte_toNat (d : Int) : ((lowByte d).toNat : Int) = d % 256 := by
  have small : (d % 256).toNat < 256 := by omega
  rw [lowByte, UInt8.toNat_ofNat', Nat.mod_eq_of_lt small]
  omega

/-- The sign bit and the low byte are the movement. -/
theorem movement {d : Int} {p : Prop} [Decidable p] (fits : -256 ≤ d ∧ d < 256)
    (sign : p ↔ decide (d < 0) = true) :
    (lowByte d).toNat - (if p then (256 : Int) else 0) = d := by
  rw [lowByte_toNat]
  rw [decide_eq_true_eq] at sign
  split_ifs with neg
  · have := sign.mp neg
    omega
  · have := mt sign.mpr neg
    omega

theorem clamp_eq {max v : Int} (screen : 0 ≤ max) : clamp max v = min max (Max.max 0 v) := by
  rw [clamp]
  split_ifs <;> omega

theorem int32_eq {v : Int} (low : -2 ^ 31 ≤ v) (high : v < 2 ^ 31) : int32 v = v := by
  rw [int32, Int.bmod_eq_of_le] <;> omega

/-- A screen that leaves room for a movement behind its edge. -/
def IsScreen (maxX maxY : Int) : Prop :=
  (0 ≤ maxX ∧ maxX + 256 < 2 ^ 31) ∧ 0 ≤ maxY ∧ maxY + 256 < 2 ^ 31

def MouseState.Inside (maxX maxY : Int) (c : MouseState) : Prop :=
  (0 ≤ c.x ∧ c.x ≤ maxX) ∧ 0 ≤ c.y ∧ c.y ≤ maxY

theorem Report.isPacket (r : Report) : mouseFrame.IsPacket r.packet where
  size := rfl
  opening := ⟨r.flags, _, rfl, by
    simpa [mouseFrame, Report.flags] using (flagBits_parts _ _ _ _ _ _ _).1⟩

theorem readPacket_packet {maxX maxY : Int} (screen : IsScreen maxX maxY) {c : MouseState}
    (inside : c.Inside maxX maxY) (r : Report) :
    readPacket maxX maxY c r.packet = r.move maxX maxY c := by
  obtain ⟨-, overflow, signX, signY, buttons⟩ := flagBits_parts r.left r.right r.middle
    (decide (r.dx < 0)) (decide (r.dy < 0)) r.overflowX r.overflowY
  have moveX := movement r.fitsX signX
  have moveY := movement r.fitsY signY
  have first : r.packet.getD 0 0 = flagBits r.left r.right r.middle (decide (r.dx < 0))
    (decide (r.dy < 0)) r.overflowX r.overflowY := rfl
  have second : r.packet.getD 1 0 = lowByte r.dx := rfl
  have third : r.packet.getD 2 0 = lowByte r.dy := rfl
  obtain ⟨⟨wide, right⟩, high, bottom⟩ := screen
  obtain ⟨⟨x, maxX_⟩, y, maxY_⟩ := inside
  obtain ⟨left_, right_⟩ := r.fitsX
  obtain ⟨down, up⟩ := r.fitsY
  have sumX : int32 (c.x + r.dx) = c.x + r.dx := int32_eq (by omega) (by omega)
  have sumY : int32 (c.y - r.dy) = c.y - r.dy := int32_eq (by omega) (by omega)
  simp only [readPacket, Mouse.finish, first, second, third, moveX, moveY, buttons, sumX, sumY,
    clamp_eq wide, clamp_eq high, Report.move]
  exact if_congr overflow rfl rfl

theorem Report.move_inside {maxX maxY : Int} (screen : IsScreen maxX maxY) {c : MouseState}
    (inside : c.Inside maxX maxY) (r : Report) : (r.move maxX maxY c).Inside maxX maxY := by
  obtain ⟨⟨wide, -⟩, high, -⟩ := screen
  rw [Report.move]
  split
  · exact inside
  · simp only [MouseState.Inside]
    omega

theorem readPackets_moves {maxX maxY : Int} (screen : IsScreen maxX maxY) {reports : List Report}
    {c : MouseState} (inside : c.Inside maxX maxY) :
    (reports.map Report.packet).foldl (readPacket maxX maxY) c =
      reports.foldl (Report.move maxX maxY) c := by
  induction reports generalizing c with
  | nil => rfl
  | cons r reports ih =>
    rw [List.map_cons, List.foldl_cons, List.foldl_cons, readPacket_packet screen inside]
    exact ih (r.move_inside screen inside)

theorem Sent.sends {bytes : List UInt8} {reports : List Report} (sent : Sent bytes reports) :
    mouseFrame.Sends bytes (reports.map Report.packet) := by
  induction sent with
  | nil => exact .nil
  | noise closed _ ih => exact .noise (by simp [mouseFrame, closed]) ih
  | report r _ ih => exact .packet r.isPacket ih

theorem clamp_bounds {max : Int} (screen : 0 ≤ max) (v : Int) :
    0 ≤ clamp max v ∧ clamp max v ≤ max := by
  rw [clamp_eq screen]
  omega

theorem low_buttons (flags : UInt8) : flags &&& 7 < 8 := by
  have low : (flags &&& 7).toNat ≤ 7 := by
    rw [UInt8.toNat_and]
    exact Nat.and_le_right
  exact UInt8.lt_iff_toNat_lt.mpr (Nat.lt_succ_of_le low)

/-- Between two interrupts. -/
structure MouseInv (s : Mouse) : Prop where
  cursor : CursorOnScreen s
  screen : IsScreen s.maxX s.maxY
  short : s.pktIndex < 3

variable {s : Mouse}

theorem CursorOnScreen.bounds (cursor : CursorOnScreen s) : 0 ≤ s.maxX ∧ 0 ≤ s.maxY :=
  ⟨cursor.left.trans cursor.right, cursor.top.trans cursor.bottom⟩

theorem CursorOnScreen.mouseIrq (cursor : CursorOnScreen s) (b : UInt8) :
    CursorOnScreen (mouseIrq s b) := by
  obtain ⟨wide, high⟩ := cursor.bounds
  have same (t : Mouse) (state : t.state = s.state) (maxX : t.maxX = s.maxX)
      (maxY : t.maxY = s.maxY) : CursorOnScreen t := by
    refine ⟨?_, ?_, ?_, ?_, ?_⟩
    · exact state ▸ cursor.left
    · exact state ▸ maxX ▸ cursor.right
    · exact state ▸ cursor.top
    · exact state ▸ maxY ▸ cursor.bottom
    · exact state ▸ cursor.buttons
  simp only [Hal.mouseIrq]
  split_ifs
  · exact cursor
  · exact same _ rfl rfl rfl
  · rw [Mouse.finish]
    split
    · exact same _ rfl rfl rfl
    · exact ⟨(clamp_bounds wide _).1, (clamp_bounds wide _).2, (clamp_bounds high _).1,
        (clamp_bounds high _).2, low_buttons _⟩

/-- The middle of a screen is on it. -/
theorem middle_inside {width : Int} (fits : 0 < width ∧ width ≤ 2 ^ 31 - 256) :
    0 ≤ width.tdiv 2 ∧ width.tdiv 2 ≤ int32 (width - 1) ∧ int32 (width - 1) = width - 1 := by
  have edge : int32 (width - 1) = width - 1 := int32_eq (by omega) (by omega)
  rw [edge, Int.tdiv_eq_ediv_of_nonneg fits.1.le]
  omega

/-- A size that `HalMouseSetBounds` may be given. -/
def MouseEvent.Fits : MouseEvent → Prop
  | .byte _ => True
  | .setBounds width height =>
    (0 < width ∧ width ≤ 2 ^ 31 - 256) ∧ 0 < height ∧ height ≤ 2 ^ 31 - 256

theorem MouseInv.next {event : MouseEvent} (inv : MouseInv s) (fits : event.Fits) :
    MouseInv (s.next event) := by
  cases event with
  | byte b =>
    have reads := mouseIrq_reads inv.short b
    exact ⟨inv.cursor.mouseIrq b, reads.maxX ▸ reads.maxY ▸ inv.screen, reads.short⟩
  | setBounds width height =>
    obtain ⟨left, right, edgeX⟩ := middle_inside fits.1
    obtain ⟨top, bottom, edgeY⟩ := middle_inside fits.2
    refine ⟨⟨left, right, top, bottom, inv.cursor.buttons⟩, ?_, inv.short⟩
    obtain ⟨⟨wide, right⟩, high, bottom⟩ := fits
    simp only [Mouse.next, halMouseSetBounds, IsScreen, edgeX, edgeY]
    omega

theorem MouseInv.after {events : List MouseEvent} (inv : MouseInv s)
    (fits : ∀ event ∈ events, event.Fits) : MouseInv (s.after events) := by
  induction events generalizing s with
  | nil => exact inv
  | cons event events ih =>
    exact ih (inv.next (fits event List.mem_cons_self)) fun event' member =>
      fits event' (List.mem_cons_of_mem event member)

theorem mouseInv_boot : MouseInv .boot :=
  ⟨⟨by decide, by decide, by decide, by decide, by decide⟩, by unfold IsScreen; decide, by decide⟩

/-- Where no packet is under way the cursor goes where the reports say. -/
theorem MouseInv.follows {bytes : List UInt8} {reports : List Report} (inv : MouseInv s)
    (place : s.pktIndex = 0) (sent : Sent bytes reports) :
    (s.read bytes).pktIndex = 0 ∧
      (s.read bytes).state = reports.foldl (Report.move s.maxX s.maxY) s.state := by
  have idle : s.held = [] := by rw [Mouse.held, place, List.range_zero, List.map_nil]
  have reads := read_reads inv.short bytes
  obtain ⟨none_, whole⟩ := packets_sends sent.sends
  rw [idle, none_, whole] at reads
  refine ⟨by simpa [Mouse.held] using reads.held, ?_⟩
  have cursor := inv.cursor
  rw [reads.state]
  exact readPackets_moves inv.screen ⟨⟨cursor.left, cursor.right⟩, cursor.top, cursor.bottom⟩

/-- A quiet report gives the driver its place back. -/
theorem MouseInv.finds (inv : MouseInv s) {still : Report} (quiet : still.Quiet) :
    (s.read still.packet).pktIndex = 0 := by
  have reads := read_reads inv.short still.packet
  have short : s.held.length < mouseFrame.size := by
    rw [Mouse.held, List.length_map, List.length_range]
    exact inv.short
  have closed : ∀ b ∈ still.packet.tail, mouseFrame.opens b = false := by
    rintro b (_ | ⟨_, _ | ⟨_, ⟨⟩⟩⟩)
    · simp [mouseFrame, quiet.1]
    · simp [mouseFrame, quiet.2]
  have held := reads.held
  rw [rest_quiet short still.isPacket closed] at held
  simpa [Mouse.held] using held

theorem mouse_follows_reports {before : List MouseEvent} (fits : ∀ event ∈ before, event.Fits) :
    let s := Mouse.boot.after before
    CursorOnScreen s ∧ (∀ still : Report, still.Quiet → (s.read still.packet).pktIndex = 0) ∧
      (s.pktIndex = 0 → ∀ bytes reports, Sent bytes reports → (s.read bytes).pktIndex = 0 ∧
        (s.read bytes).state = reports.foldl (Report.move s.maxX s.maxY) s.state) := by
  have inv : MouseInv (Mouse.boot.after before) := mouseInv_boot.after fits
  exact ⟨inv.cursor, fun still quiet => inv.finds quiet,
    fun place bytes reports sent => inv.follows place sent⟩

/-- To the right and up over the edge, with the left button held. -/
def upReport : Report := ⟨true, false, false, 50, 255, false, false, by decide, by decide⟩

def downReport : Report := ⟨false, false, false, -20, -7, false, false, by decide, by decide⟩

/-- A screen of 800 by 400 pixels, the last byte of a packet whose first two were lost, and two
reports. -/
theorem mouse_follows_reports_two :
    let s := Mouse.boot.after [.setBounds 800 400, .byte 0x02]
    (s.read (upReport.packet ++ downReport.packet)).state = ⟨430, 7, 0, 3⟩ := by
  have fits : ∀ event ∈ [MouseEvent.setBounds 800 400, .byte 0x02], event.Fits := by
    simp [MouseEvent.Fits]
  have follows := (mouse_follows_reports fits).2.2 rfl _ _
    (.report upReport (.report downReport .nil))
  rw [List.append_nil] at follows
  exact follows.2.trans rfl

end Hal
