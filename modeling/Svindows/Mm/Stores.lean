import Svindows.Mm.FrameUse

/-!
# Stores that may hit a table

The tables lie in the direct map like all other memory. A store of the kernel through a pointer
that nobody has probed writes to whatever is behind it, and that may be an entry.
-/

namespace Mm

open TableTree

/-- An entry with one of its bytes replaced. -/
def setByte (entry : Word) (k : Nat) (b : Word) : Word :=
  (entry &&& ~~~(0xFF#64 <<< (8 * k))) ||| ((b &&& 0xFF#64) <<< (8 * k))

def frameOf (phys : Word) : Word := phys &&& pteAddrMask

/-- A byte stored at a physical address. -/
def storeByte (s : VmState) (phys b : Word) : VmState :=
  let i := (phys &&& pageMask).toNat / 8
  s.write (frameOf phys) i (setByte (s.mem (frameOf phys) i) (phys.toNat % 8) b)

/-- The same tables with the same entries. -/
structure SameTables (s u : VmState) : Prop where
  pml4 : u.pml4 = s.pml4
  frames : u.frames = s.frames
  entries : ∀ t, UsedAsTable s t → u.mem t = s.mem t

variable {s u v : VmState}

theorem SameTables.tableAt (same : SameTables s u) :
    ∀ q : List Nat, q.length ≤ 3 → u.tableAt q = s.tableAt q := by
  intro q
  induction q with
  | nil => exact fun _ => congrArg some same.pml4
  | cons i q ih =>
    intro short
    have above := ih (Nat.le_of_succ_le short)
    simp only [VmState.tableAt, TableTree.tableAt] at above ⊢
    rw [above]
    cases found : TableTree.tableAt child s.pml4 s.mem q with
    | none => rfl
    | some t =>
      have used : UsedAsTable s t := ⟨q, Nat.le_of_succ_le short, found⟩
      simp only [Option.bind_some, same.entries t used]

theorem SameTables.used (same : SameTables s u) (f : Word) : UsedAsTable u f ↔ UsedAsTable s f :=
  exists_congr fun q => and_congr_right fun short => by rw [same.tableAt q short]

theorem SameTables.refl (s : VmState) : SameTables s s := ⟨rfl, rfl, fun _ _ => rfl⟩

theorem SameTables.trans (first : SameTables s u) (second : SameTables u v) : SameTables s v where
  pml4 := second.pml4.trans first.pml4
  frames := second.frames.trans first.frames
  entries t used := (second.entries t ((first.used t).mpr used)).trans (first.entries t used)

theorem SameTables.entryAt (same : SameTables s u) {q : List Nat} (short : q.length ≤ 3) (i : Nat) :
    u.entryAt q i = s.entryAt q i := by
  have there := same.tableAt q short
  simp only [VmState.entryAt, TableTree.entryAt]
  simp only [VmState.tableAt] at there
  rw [there]
  cases found : TableTree.tableAt child s.pml4 s.mem q with
  | none => rfl
  | some t => simp only [Option.map_some, same.entries t ⟨q, short, found⟩]

theorem SameTables.extends (same : SameTables s u) (tree : Tree s) : Extends s u where
  tree := by
    refine ⟨?_, ?_, ?_, ?_⟩
    · intro p q t hp hq here there
      exact tree.unshared p q t hp hq ((same.tableAt p hp).symm.trans here)
        ((same.tableAt q hq).symm.trans there)
    · intro f free q short
      rw [same.tableAt q short]
      exact tree.outside f (same.frames ▸ free) q short
    · exact same.frames ▸ tree.distinct
    · exact same.frames ▸ tree.frame
  pml4 := same.pml4
  tables q t short here := (same.tableAt q short).trans here
  large q i two := by rw [VmState.largeAt, VmState.largeAt, same.entryAt (by omega)]
  leaf q i three := by rw [VmState.leafAt, VmState.leafAt, same.entryAt (by omega)]

/-- Neither a table nor a frame from which one may be made. -/
def OffTables (s : VmState) (f : Word) : Prop := ¬ UsedAsTable s f ∧ f ∉ s.frames

/-- No table lies at the address, nor will one. -/
def AddressOff (s : VmState) (virt : Word) : Prop :=
  Mapped s virt → OffTables s (frameOf (mmGetPhysicalAddress s virt))

/-- The same of all bytes of a word. -/
def WordOff (s : VmState) (virt : Word) : Prop :=
  ∀ k < 8, AddressOff s (virt + BitVec.ofNat 64 k)

theorem SameTables.off (same : SameTables s u) {f : Word} (off : OffTables s f) : OffTables u f :=
  ⟨fun used => off.1 ((same.used f).mp used), same.frames ▸ off.2⟩

theorem AddressOff.same {virt : Word} (off : AddressOff s virt) (tree : Tree s)
    (same : SameTables s u) : AddressOff u virt := by
  intro mapped
  have translation := (same.extends tree).translation virt
  rw [Mapped, translation] at mapped
  rw [translation]
  exact same.off (off mapped)

theorem TakesFrames.off (takes : TakesFrames s u) {f : Word} (off : OffTables s f) :
    OffTables u f := by
  refine ⟨fun used => ?_, fun free => off.2 (takes.frames.subset free)⟩
  rcases takes.tables f used with used | free
  · exact off.1 used
  · exact off.2 free

end Mm
