import Mathlib.Data.List.Nodup
import Mathlib.Data.Nat.Bitwise
import Svindows.Lib.ByteMemory
import Svindows.User.Classes

/-!
# Resources of kernel32

`res_find_entry` and `res_walk` of `kernel32.c`. A section of resources is a tree of
directories by type, name and language, and a branch may end in a data entry above the
languages. All offsets count from the start of the section, but `res_find_entry` looks for the
names of a directory at offsets from that directory.
-/

namespace Kernel32

open ByteMemory
open User (WideString)

/-- A type or a name: a number in place of a pointer, or a string. -/
inductive ResName where
  | id (value : Nat)
  | text (units : WideString)
  deriving DecidableEq

def sizeofResDirectory : Nat := 16
def sizeofResEntry : Nat := 8

/-- Of a name as of an offset. -/
def resFlag : Nat := 0x80000000
def resMask : Nat := 0x7FFFFFFF

def nameOrId (m : Memory) (e : Nat) : Nat := load m e 4
/-- Compare a string with the `len` units at `p`. -/
def sameText (m : Memory) : Nat → Nat → WideString → Bool
  | 0, _, want => want.isEmpty
  | _ + 1, _, [] => false
  | len + 1, p, c :: want => if load m p 2 = c then sameText m len (p + 2) want else false

/-- The comparison of `res_find_entry` with the entry at `e` of the directory at `dir`. -/
def entryIs (m : Memory) (dir e : Nat) : ResName → Bool
  | .text want =>
    if nameOrId m e &&& resFlag ≠ 0 then
      let p := dir + (nameOrId m e &&& resMask)
      sameText m (load m p 2) (p + 2) want
    else false
  | .id value => nameOrId m e &&& resFlag == 0 && nameOrId m e % 2 ^ 16 == value % 2 ^ 16

/-- What a name stands for: a data entry, or a directory of languages; offsets count from the
start of the section. -/
inductive NameNode where
  | data (offset : Nat)
  | languages (offset : Nat) (entries : List (Nat × Nat))

inductive TypeNode where
  | data (offset : Nat)
  | names (offset : Nat) (entries : List (ResName × NameNode))

abbrev ResTree := List (ResName × TypeNode)

/-- Entries one behind the other from `e` on. -/
def Placed {α : Type} (at_ : Nat → α → Prop) : Nat → List α → Prop
  | _, [] => True
  | e, x :: xs => at_ e x ∧ Placed at_ (e + sizeofResEntry) xs

/-- A property of the keys of each directory; languages are ids. -/
structure ResTree.Keys (tree : ResTree) (good : List ResName → Prop) : Prop where
  types : good (tree.map Prod.fst)
  names : ∀ type offset es, (type, TypeNode.names offset es) ∈ tree → good (es.map Prod.fst)
  languages : ∀ type offset es, (type, TypeNode.names offset es) ∈ tree → ∀ name offset' ls,
    (name, NameNode.languages offset' ls) ∈ es → good (ls.map fun l => ResName.id l.1)

section Search

variable {κ α : Type} [DecidableEq κ]

/-- The first entry with a key. -/
def pick (key : κ) (es : List (κ × α)) : Option α := (es.find? fun x => x.1 = key).map Prod.snd

end Search

section Entries

variable {α : Type} {at_ : Nat → α → Prop}

/-- The first of the entries that is accepted at its address. -/
def firstWith (accepts : Nat → Bool) : Nat → List α → Option α
  | _, [] => none
  | e, x :: xs => if accepts e then some x else firstWith accepts (e + sizeofResEntry) xs

end Entries

section Compare

variable {m : Memory} {res dir e : Nat} {key : ResName}

end Compare

/-- The language, or the first one. -/
def choose (lang : Nat) (ls : List (Nat × Nat)) : Option Nat :=
  match pick lang ls with
  | some offset => some offset
  | none => ls.head?.map Prod.snd

/-- The data entry that a name leads to. -/
def leads (lang : Nat) : NameNode → Option Nat
  | .data offset => some offset
  | .languages _ ls => choose lang ls

/-- What the first entry stands for whose string, read relative to the directory, is `want`. -/
def misnamed (m : Memory) (dir : Nat) (es : List (ResName × NameNode)) (want : WideString) :
    Option NameNode :=
  (firstWith (fun e => entryIs m dir e (.text want)) (dir + sizeofResDirectory) es).map Prod.snd

/-- A query, which the caller has put into a pointer. -/
def ResName.Word (name : ResName) : Prop := ∀ v, name = .id v → v < 2 ^ 16

/-- What `res_find_entry` finds for a name: strings are looked for in the wrong place. -/
def seenName (m : Memory) (dir : Nat) (es : List (ResName × NameNode)) : ResName → Option NameNode
  | .id value => pick (ResName.id value) es
  | .text want => misnamed m dir es want

/-- What the walk finds. -/
def found (m : Memory) (res : Nat) (tree : ResTree) (type name : ResName) (lang : Nat) :
    Option Nat :=
  match pick type tree with
  | none => none
  | some (.data offset) => some offset
  | some (.names d es) => (seenName m (res + d) es name).bind (leads lang)

section Law

variable {tree : ResTree} {type name : ResName} {lang offset : Nat}

/-- The data entry whose path matches. -/
def ResTree.find (tree : ResTree) (type name : ResName) (lang : Nat) : Option Nat :=
  match pick type tree with
  | none => none
  | some (.data offset) => some offset
  | some (.names _ es) => (pick name es).bind (leads lang)

end Law

end Kernel32
