import Svindows.Lib.KeyedTree
import Svindows.Nt.Defs

/-!
# The registry

`cm/registry.c` up to the services: keys with a 63-byte name, their subkeys and
values in list order, the walk of a path and the two operations on values. A C
string is the list of its bytes before the terminator. Keys are never freed, so
a key is known by the order of its allocation; the anonymous root is key 0.

Logging is left out.
-/

namespace Cm

open Nt

abbrev Text := List UInt8

/-- The bytes of an ASCII literal. -/
def ascii (text : String) : Text := text.toList.map fun c => c.toNat.toUInt8

def fold (c : UInt8) : UInt8 := if 0x41 ≤ c ∧ c ≤ 0x5A then c + 32 else c

def ciEq : Text → Text → Bool
  | [], [] => true
  | a :: as, b :: bs => if fold a ≠ fold b then false else ciEq as bs
  | _, _ => false

/-- `Size` is the length of `data`, and `Data` is NULL for an empty one. -/
structure CmValue where
  name : Text
  type : UInt32
  data : Text
  deriving DecidableEq

structure CmKey where
  name : Text
  parent : Option Nat
  subkeys : List Nat
  values : List CmValue
  deriving DecidableEq

structure Registry where
  keys : Nat → CmKey
  next : Nat

/-- The longest name that `char Name[64]` and `char comp[64]` hold. -/
def nameMax : Nat := 63

def cmRoot : Nat := 0

def newKey (name : Text) (parent : Option Nat) : CmKey := ⟨name.take nameMax, parent, [], []⟩

/-- `cm_alloc_key` under a parent; `room` says whether the pool has room. -/
def cmAllocKey (r : Registry) (name : Text) (parent : Nat) (room : Bool) : Registry × Option Nat :=
  if room = false then (r, none)
  else
    let k := r.next
    let keys := Function.update r.keys k (newKey name (some parent))
    let keys := Function.update keys parent
      { keys parent with subkeys := (keys parent).subkeys ++ [k] }
    (⟨keys, k + 1⟩, some k)

def cmFindSubkey (r : Registry) (parent : Nat) (name : Text) : Option Nat :=
  (r.keys parent).subkeys.find? fun k => ciEq (r.keys k).name name

def isSeparator (c : UInt8) : Bool := c == 0x5C || c == 0x2F

/-- The outer loop of `cm_walk`. Every round reads a byte, so the length of the
path is fuel enough; `room k` says whether key `k` can be allocated. -/
def cmWalkLoop (create : Bool) (room : Nat → Bool) :
    Nat → Registry → Nat → Text → Registry × Option Nat
  | 0, r, cur, _ => (r, some cur)
  | fuel + 1, r, cur, path =>
    let p := path.dropWhile isSeparator
    if p = [] then (r, some cur)
    else
      let comp := (p.takeWhile fun c => !isSeparator c).take nameMax
      let rest := p.dropWhile fun c => !isSeparator c
      match cmFindSubkey r cur comp with
      | some child => cmWalkLoop create room fuel r child rest
      | none =>
        if create = false then (r, none)
        else
          match cmAllocKey r comp cur (room r.next) with
          | (r, none) => (r, none)
          | (r, some child) => cmWalkLoop create room fuel r child rest

def cmWalk (r : Registry) (start : Nat) (path : Text) (create : Bool) (room : Nat → Bool) :
    Registry × Option Nat :=
  cmWalkLoop create room path.length r start path

def cmFindValue (r : Registry) (k : Nat) (name : Text) : Option CmValue :=
  (r.keys k).values.find? fun v => ciEq v.name name

/-- `cm_set_value`; the two flags say whether the copy of the data and a new
value can be allocated. -/
def cmSetValue (r : Registry) (k : Nat) (name : Text) (type : UInt32) (data : Text)
    (copyRoom valueRoom : Bool) : NtStatus × Registry :=
  if data ≠ [] ∧ copyRoom = false then (statusNoMemory, r)
  else
    let key := r.keys k
    match cmFindValue r k name with
    | some _ =>
      let values := KeyedTree.updateFirst (fun v => ciEq v.name name)
        (fun v => { v with type := type, data := data }) key.values
      (statusSuccess, { r with keys := Function.update r.keys k { key with values := values } })
    | none =>
      if valueRoom = false then (statusNoMemory, r)
      else
        let values := key.values ++ [⟨name.take nameMax, type, data⟩]
        (statusSuccess, { r with keys := Function.update r.keys k { key with values := values } })

def regSz : UInt32 := 1
def regExpandSz : UInt32 := 2
def regDword : UInt32 := 4

/-- The root alone, as `cm_alloc_key("", NULL)` leaves it. -/
def emptyRegistry : Registry := ⟨fun _ => newKey [] none, 1⟩

/-- The bytes of a `UINT16` array that has a 0 after every character and two at the end. -/
def spaced (text : String) : Text := (ascii text).flatMap (fun c => [c, 0, 0, 0]) ++ [0, 0, 0, 0]

/-- A path that `CmInitialize` walks with create, and the values it sets there. -/
structure Seed where
  path : String
  values : List (String × UInt32 × Text)

def software : String := "\\Registry\\Machine\\Software"

/-- The walks from the root before the per-user keys. -/
def machineSeeds : List Seed :=
  [⟨software ++ "\\NTOS", [("Version", regSz, ascii "0.6.0" ++ [0]),
      ("BuildNumber", regDword, [0x58, 0x02, 0, 0])]⟩,
   ⟨"\\Registry\\User", []⟩,
   ⟨software ++ "\\Microsoft\\Windows NT\\CurrentVersion\\Winlogon\\AlternateShells" ++
      "\\AvailableShells", [("Shell", regSz, spaced "explorer.exe")]⟩,
   ⟨software ++ "\\Microsoft\\Windows\\CurrentVersion\\Explorer\\Accent",
      [("OOBEColorSet", regDword, [4, 0, 0, 0])]⟩,
   ⟨software ++ "\\Microsoft\\Windows NT\\CurrentVersion\\Winlogon", []⟩,
   ⟨software ++ "\\Microsoft\\Windows\\Dwm", []⟩,
   ⟨software ++ "\\Microsoft\\Direct2D", []⟩,
   ⟨software ++ "\\Microsoft\\OLE", []⟩,
   ⟨software ++ "\\Policies\\Microsoft\\Windows\\Personalization", []⟩,
   ⟨software ++ "\\Microsoft\\Windows\\CurrentVersion\\Policies\\Explorer", []⟩,
   ⟨software ++ "\\Microsoft\\Windows\\CurrentVersion\\Explorer\\FolderDescriptions", []⟩,
   ⟨software ++ "\\Microsoft\\Windows\\CurrentVersion\\Explorer\\Shell Folders", []⟩,
   ⟨"\\Registry\\Machine\\System\\Setup", []⟩,
   ⟨software ++ "\\Microsoft\\Windows\\CurrentVersion\\Explorer\\WCDEn", []⟩]

/-- The walks from the per-user `CurrentVersion` key. -/
def userSeeds : List Seed :=
  [⟨"Explorer", []⟩, ⟨"Search", []⟩, ⟨"Policies", []⟩,
   ⟨"Explorer\\User Shell Folders", []⟩, ⟨"Explorer\\Shell Folders", []⟩,
   ⟨"Explorer\\Desktop\\NameSpace", []⟩,
   ⟨"Explorer\\User Shell Folders",
      [("Desktop", regExpandSz, spaced "%USERPROFILE%\\Desktop"),
       ("Personal", regExpandSz, spaced "%USERPROFILE%\\Documents"),
       ("AppData", regExpandSz, spaced "%USERPROFILE%\\AppData\\Roaming"),
       ("Start Menu", regExpandSz,
         spaced "%USERPROFILE%\\AppData\\Roaming\\Microsoft\\Windows\\Start Menu")]⟩]

/-- Whether each allocation of `CmInitialize` succeeds: the keys by number, the
values and the copies of their data by name. -/
structure SeedRoom where
  key : Nat → Bool
  value : String → Bool
  copy : String → Bool

def seedValues (room : SeedRoom) (k : Nat) (r : Registry) (values : List (String × UInt32 × Text)) :
    Registry :=
  values.foldl (fun r v =>
    (cmSetValue r k (ascii v.1) v.2.1 v.2.2 (room.copy v.1) (room.value v.1)).2) r

/-- One walk with create and, when it reaches a key, the values set there. -/
def seedKey (room : SeedRoom) (start : Nat) (r : Registry) (seed : Seed) : Registry :=
  match cmWalk r start (ascii seed.path) true room.key with
  | (r, none) => r
  | (r, some k) => seedValues room k r seed.values

/-- `CmInitialize` from the root on. -/
def cmInitialize (room : SeedRoom) : Registry :=
  let r := machineSeeds.foldl (seedKey room cmRoot) emptyRegistry
  let r :=
    match cmWalk r cmRoot (ascii "\\Registry\\User\\Software\\Microsoft\\Windows\\CurrentVersion")
      true room.key with
    | (r, none) => r
    | (r, some user) => userSeeds.foldl (seedKey room user) r
  seedKey room cmRoot r
    ⟨software ++ "\\Microsoft\\Windows NT\\CurrentVersion\\ProfileList",
      [("ProfilesDirectory", regExpandSz, spaced "%SystemDrive%\\Users")]⟩

end Cm
