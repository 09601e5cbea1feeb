import Svindows.Ldr.Image
import Svindows.Rtl.CString

/-!
# The table of loaded modules

`g_loaded` of `ldr/pe.c` with the functions that read and write it. A module is
found again by its name without regard to case, and a name is kept up to its
31st character.
-/

namespace Ldr

open Nt Rtl

/-- The loop of `ci_strcmp`; the end of a list is its NUL. -/
def ciCompare : List UInt8 → List UInt8 → Int
  | [], [] => 0
  | [], b :: _ => -(toLower b).toNat
  | a :: _, [] => (toLower a).toNat
  | a :: as, b :: bs =>
    if toLower a ≠ toLower b then (toLower a).toNat - (toLower b).toNat else ciCompare as bs

def ciStrcmp (a b : CString) : Int := ciCompare a.bytes b.bytes

def maxLoadedModules : Nat := 64

structure LdrLoaded where
  name : CString
  base : Nat
  /-- Bit `i`: this module imports slot `i`. -/
  dependencies : BitVec 64
  valid : Bool

abbrev ModuleTable := Nat → LdrLoaded

def slots : List Nat := List.range maxLoadedModules

/-- `lookup_module`: the base of the first module of that name, or 0. -/
def lookupModule (table : ModuleTable) (name : CString) : Nat :=
  match slots.find? fun i => (table i).valid && ciStrcmp name (table i).name == 0 with
  | some i => (table i).base
  | none => 0

def moduleIndexByBase (table : ModuleTable) (base : Nat) : Option Nat :=
  slots.find? fun i => (table i).valid && (table i).base == base

def rememberDependency (table : ModuleTable) (importer dependency : Nat) : ModuleTable :=
  if importer = 0 ∨ dependency = 0 ∨ importer = dependency then table
  else
    match moduleIndexByBase table importer, moduleIndexByBase table dependency with
    | some i, some j =>
      Function.update table i
        { table i with dependencies := (table i).dependencies ||| 1#64 <<< j }
    | _, _ => table

/-- `remember_module`: the first free slot, if there is one. -/
def rememberModule (table : ModuleTable) (name : CString) (base : Nat) : ModuleTable :=
  match slots.find? fun i => !(table i).valid with
  | some i =>
    Function.update table i { table i with name := name.take 31, base := base, valid := true }
  | none => table

end Ldr
