import Svindows.Msvcrt.WideFormat
import Svindows.Nt.Defs

/-!
# Environment strings

`RtlExpandEnvironmentStrings_U` of `ntdllrtl.c` over a table of variables. The text goes
through one counter that also runs when there is no room, so that its length can be
reported; a name is looked up through a buffer of 32 units.
-/

namespace Rtl

open Nt Msvcrt

/-- An entry of `g_env_vars`. -/
structure EnvVar where
  name : WideString
  value : WideString

def EnvVar.lit (name value : String) : EnvVar := ⟨.lit name, .lit value⟩

def gEnvVars : List EnvVar :=
  [.lit "SystemDrive" "C:",
   .lit "SystemRoot" "C:\\Windows",
   .lit "windir" "C:\\Windows",
   .lit "TEMP" "C:\\Temp",
   .lit "TMP" "C:\\Temp",
   .lit "USERPROFILE" "C:\\Users\\User",
   .lit "HOMEDRIVE" "C:",
   .lit "HOMEPATH" "\\Users\\User",
   .lit "APPDATA" "C:\\Users\\User\\AppData\\Roaming",
   .lit "LOCALAPPDATA" "C:\\Users\\User\\AppData\\Local",
   .lit "ProgramFiles" "C:\\Program Files",
   .lit "ProgramData" "C:\\ProgramData",
   .lit "COMPUTERNAME" "NTOS"]

def statusBufferOverflow : NtStatus := 0x80000005

/-- ASCII lower case. -/
def toLowerWide (c : UInt16) : UInt16 := if 65 ≤ c ∧ c ≤ 90 then c + 32 else c

inductive NameMatch
  | equal
  | longer
  | other

/-- The comparison in `env_lookup` of a variable's name with the name looked up. -/
def matchName : List UInt16 → List UInt16 → NameMatch
  | [], [] => .equal
  | _ :: _, [] => .longer
  | [], _ :: _ => .other
  | a :: as, b :: bs => if toLowerWide a = toLowerWide b then matchName as bs else .other

/-- `env_lookup`. A variable with a longer name ends the search. -/
def envLookup : List EnvVar → List UInt16 → Option (List UInt16)
  | [], _ => none
  | var :: vars, name =>
    match matchName var.name.units name with
    | .equal => some var.value.units
    | .longer => none
    | .other => envLookup vars name

/-- The C string in `name[32]`. -/
def nameBuffer (name : List UInt16) : List UInt16 := (name.take 31).takeWhile (· ≠ 0)

/-- What stands for a name between two `%`. -/
def valueOf (table : List EnvVar) (name : List UInt16) : List UInt16 :=
  (envLookup table (nameBuffer name)).getD []

/-- The text up to the next `%`, and what follows it. -/
def closing : List UInt16 → Option (List UInt16 × List UInt16)
  | [] => none
  | c :: rest =>
    if c = wch '%' then some ([], rest)
    else (closing rest).map fun (name, after) => (c :: name, after)

theorem closing_length {rest name after : List UInt16} (found : closing rest = some (name, after)) :
    after.length < rest.length := by
  induction rest generalizing name with
  | nil => cases found
  | cons c rest ih =>
    rw [closing] at found
    split at found
    · cases found
      exact Nat.lt_succ_self _
    · obtain ⟨⟨name', after'⟩, found', result⟩ := Option.map_eq_some_iff.mp found
      cases result
      exact Nat.lt_succ_of_lt (ih found')

/-- `out` with the buffer behind it, and the flag. -/
structure Expanding where
  sink : Sink UInt16
  overflow : Bool

def Expanding.put (e : Expanding) (c : UInt16) : Expanding :=
  ⟨e.sink.putMod (2 ^ 32) c, e.overflow || ¬ wrap32 (e.sink.count + 1) < e.sink.size⟩

/-- The branch of a `%` without a partner does not set the flag. -/
def Expanding.putPercent (e : Expanding) : Expanding :=
  ⟨e.sink.putMod (2 ^ 32) (wch '%'), e.overflow⟩

/-- The loop over the source. -/
def expandLoop (table : List EnvVar) (source : List UInt16) (e : Expanding) : Expanding :=
  match source with
  | [] => e
  | c :: rest =>
    if c ≠ wch '%' then expandLoop table rest (e.put c)
    else match _found : closing rest with
      | none => expandLoop table rest e.putPercent
      | some (name, after) => expandLoop table after ((valueOf table name).foldl .put e)
termination_by source.length
decreasing_by
  · exact Nat.lt_succ_self _
  · exact Nat.lt_succ_self _
  · exact Nat.lt_succ_of_lt (closing_length _found)

/-- A UNICODE_STRING to be written. -/
structure Destination where
  length : UInt16
  maximumLength : UInt16
  buffer : Nat → UInt16

/-- The state before the loop: nothing is out yet. -/
def Destination.start (d : Destination) : Expanding :=
  ⟨⟨d.buffer, d.maximumLength.toNat / 2, 0⟩, false⟩

/-- What a call returns, leaves in the destination and reports as the length. -/
structure Expansion where
  status : NtStatus
  destination : Destination
  reported : Nat

/-- `RtlExpandEnvironmentStrings_U` for a source and a destination that are not NULL. -/
def rtlExpandEnvironmentStrings (table : List EnvVar) (source : List UInt16) (d : Destination) :
    Expansion :=
  let e := expandLoop table source d.start
  let out := e.sink.count
  let reported := wrap32 (wrap32 (out + 1) * 2)
  if wrap32 (out + 1) < d.maximumLength.toNat / 2 ∧ e.overflow = false then
    ⟨statusSuccess, { d with
      buffer := Function.update e.sink.buf out 0
      length := UInt16.ofNat (out * 2) }, reported⟩
  else ⟨statusBufferOverflow, { d with buffer := e.sink.buf }, reported⟩

/-- The source with every `%name%` replaced; a `%` without a partner stays. -/
def expansion (value : List UInt16 → List UInt16) (source : List UInt16) : List UInt16 :=
  match source with
  | [] => []
  | c :: rest =>
    if c ≠ wch '%' then c :: expansion value rest
    else match _found : closing rest with
      | none => wch '%' :: expansion value rest
      | some (name, after) => value name ++ expansion value after
termination_by source.length
decreasing_by
  · exact Nat.lt_succ_self _
  · exact Nat.lt_succ_self _
  · exact Nat.lt_succ_of_lt (closing_length _found)

/-- The value of the variable with a name, or nothing. -/
def envValue (table : List EnvVar) (name : List UInt16) : List UInt16 :=
  ((table.find? fun var => var.name.units.map toLowerWide = name.map toLowerWide).map
    fun var => var.value.units).getD []

/-- The two-call protocol, with unit `i` in bytes `2 * i` and `2 * i + 1`. -/
structure TwoCall (table : List EnvVar) (source : List UInt16) : Prop where
  inBounds : ∀ d i, d.maximumLength.toNat < 2 * i + 2 →
    (rtlExpandEnvironmentStrings table source d).destination.buffer i = d.buffer i
  oneLength : ∀ d d', (rtlExpandEnvironmentStrings table source d').reported =
    (rtlExpandEnvironmentStrings table source d).reported
  again : ∀ d, ∃ maximumLength : UInt16,
    maximumLength.toNat = (rtlExpandEnvironmentStrings table source d).reported ∧
    (rtlExpandEnvironmentStrings table source { d with maximumLength }).status = statusSuccess
  text : ∀ d, (rtlExpandEnvironmentStrings table source d).status = statusSuccess →
    let d' := (rtlExpandEnvironmentStrings table source d).destination
    let text := expansion (envValue table) source
    (∀ i < text.length, some (d'.buffer i) = text[i]?) ∧ d'.buffer text.length = 0 ∧
      d'.length.toNat = 2 * text.length

section Text

variable {value : List UInt16 → List UInt16} {c : UInt16} {rest : List UInt16}

theorem expansion_bare (percent : ¬ c ≠ wch '%') (found : closing rest = none) :
    expansion value (c :: rest) = wch '%' :: expansion value rest := by
  rw [expansion, if_neg percent]
  split
  · rfl
  · next found' =>
    rw [found] at found'
    cases found'

theorem expansion_name {name after : List UInt16} (percent : ¬ c ≠ wch '%')
    (found : closing rest = some (name, after)) :
    expansion value (c :: rest) = value name ++ expansion value after := by
  rw [expansion, if_neg percent]
  split
  · next found' =>
    rw [found] at found'
    cases found'
  · next found' =>
    rw [found] at found'
    cases found'
    rfl

end Text

section Loop

variable {table : List EnvVar}

theorem put_all_sink (text : List UInt16) (e : Expanding) :
    (text.foldl .put e).sink = e.sink.putAllMod (2 ^ 32) text := by
  induction text generalizing e with
  | nil => rfl
  | cons c text ih => exact ih (e.put c)

/-- One text goes into the buffer, whatever its size. -/
theorem expandLoop_sink (source : List UInt16) (e : Expanding) :
    (expandLoop table source e).sink =
      e.sink.putAllMod (2 ^ 32) (expansion (valueOf table) source) := by
  fun_induction expandLoop table source e with
  | case1 e => simp [expansion, Sink.putAllMod]
  | case2 e c rest plain ih =>
    rw [ih, expansion, if_pos plain]
    rfl
  | case3 e c rest percent found ih =>
    rw [ih, expansion_bare percent found]
    rfl
  | case4 e c rest percent name after found ih =>
    rw [ih, put_all_sink, Sink.putAllMod_append, expansion_name percent found]

end Loop

section Call

variable (table : List EnvVar) (source : List UInt16) (d : Destination)

/-- The text as the call expands it. -/
def expandedText : List UInt16 := expansion (valueOf table) source

theorem expandLoop_count :
    (expandLoop table source d.start).sink.count = wrap32 (expandedText table source).length := by
  have fresh : d.start.sink.count < 2 ^ 32 := Nat.two_pow_pos 32
  rw [expandLoop_sink, Sink.putAllMod_count fresh, show d.start.sink.count = 0 from rfl,
    Nat.zero_add]
  rfl

theorem expand_reported : (rtlExpandEnvironmentStrings table source d).reported =
    wrap32 (wrap32 (wrap32 (expandedText table source).length + 1) * 2) := by
  simp only [rtlExpandEnvironmentStrings, expandLoop_count, apply_ite Expansion.reported, ite_self]

/-- There must be room for one unit more than the text and its zero. -/
theorem expand_room
    (success : (rtlExpandEnvironmentStrings table source d).status = statusSuccess) :
    wrap32 (wrap32 (expandedText table source).length + 1) < d.maximumLength.toNat / 2 := by
  simp only [rtlExpandEnvironmentStrings, expandLoop_count] at success
  split at success
  · next room => exact room.1
  · exact absurd (show statusBufferOverflow = statusSuccess from success) (by decide)

/-- A second call with the length that the first one reported is refused. -/
theorem expand_again {d' : Destination}
    (told : d'.maximumLength.toNat = (rtlExpandEnvironmentStrings table source d).reported) :
    (rtlExpandEnvironmentStrings table source d').status ≠ statusSuccess := by
  intro success
  have room := expand_room table source d' success
  rw [told, expand_reported] at room
  have cut := Nat.mod_le (wrap32 (wrap32 (expandedText table source).length + 1) * 2) (2 ^ 32)
  rw [← wrap32] at cut
  omega

/-- The two-call protocol fails for every source and every table. -/
theorem expand_not_twoCall : ¬ TwoCall table source := by
  intro law
  obtain ⟨maximumLength, told, success⟩ := law.again ⟨0, 0, fun _ => 0⟩
  exact expand_again table source ⟨0, 0, fun _ => 0⟩ told success

/-- `%TMP%` is reported with 16 bytes and refused with 16. -/
theorem expand_tmp_refused :
    (rtlExpandEnvironmentStrings gEnvVars (WideString.lit "%TMP%").units
      ⟨0, 0, fun _ => 0⟩).reported = 16 ∧
    (rtlExpandEnvironmentStrings gEnvVars (WideString.lit "%TMP%").units
      ⟨0, 16, fun _ => 0⟩).status ≠ statusSuccess ∧
    ¬ TwoCall gEnvVars (WideString.lit "%TMP%").units := by
  have parted : expansion (valueOf gEnvVars) (WideString.lit "%TMP%").units =
      valueOf gEnvVars (WideString.lit "TMP").units ++ expansion (valueOf gEnvVars) [] :=
    expansion_name (by decide) (by decide)
  have text : expandedText gEnvVars (WideString.lit "%TMP%").units =
      (WideString.lit "C:\\Temp").units := by
    rw [expandedText, parted, expansion]
    decide
  have reported : (rtlExpandEnvironmentStrings gEnvVars (WideString.lit "%TMP%").units
      ⟨0, 0, fun _ => 0⟩).reported = 16 := by
    rw [expand_reported, text]
    decide
  refine ⟨reported, expand_again _ _ ⟨0, 0, fun _ => 0⟩ reported.symm, fun law => ?_⟩
  obtain ⟨maximumLength, told, success⟩ := law.again ⟨0, 0, fun _ => 0⟩
  exact expand_again _ _ ⟨0, 0, fun _ => 0⟩ told success

end Call

end Rtl
