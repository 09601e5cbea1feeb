import Svindows.Ldr.LoadRuns

/-!
# Loads that fail

A file that is not there, or that `LdrpMapImage` does not map, leaves the table
alone and is refused again. A module that is mapped is in the table before
its imports are resolved, and stays there when its delay imports are refused.
-/

namespace Ldr

open Nt ByteMemory Rtl Partial

variable {volume : CString → Option PeFile} {rounds fuel b : Nat} {name : CString}
variable {s t : LinkState}

/-- `LdrpMapImage` returns an error and leaves `u`. -/
def MapFails (rounds : Nat) (file : PeFile) (s u : LdrState) : Prop :=
  ∃ r, ldrpMapImage rounds s file = some r ∧ r.Fails ∧ r.state = u

/-- The search for a base ends; where no range on its strides is free it does not. -/
def FindsBase (rounds : Nat) (s : LdrState) (f : PeFile) : Prop :=
  (f.IsResource ∧ (dynamicBase rounds s.vm s.dynamicImageNext f.imageSize).isSome = true) ∨
    ¬ f.IsResource ∧ (chooseImageBase rounds s.vm s.dynamicImageNext f).isSome = true

/-- What the kernel has set up before it loads a module: no large entry covers a page that is not
mapped, and images are moved to the user half. -/
structure LoaderSpace (s : LdrState) : Prop where
  tree : Mm.Tree s.vm
  large : ∀ virt, ¬ Mm.Mapped s.vm virt → Mm.NoLarge s.vm virt
  ahead : 0 < s.dynamicImageNext ∧ s.dynamicImageNext ≤ 2 ^ 47

section Refusals

variable {f : PeFile} {s u : LdrState}

theorem searchBase_mono {vm : Mm.VmState} {size rounds rounds' start : Nat} (le : rounds ≤ rounds')
    (found : (searchBase vm size rounds start).isSome = true) :
    (searchBase vm size rounds' start).isSome = true := by
  induction rounds generalizing rounds' start with
  | zero => cases found
  | succ rounds ih =>
    cases rounds' with
    | zero => cases le
    | succ more =>
      rw [searchBase] at found ⊢
      split_ifs at found ⊢
      · rfl
      · exact ih (Nat.le_of_succ_le_succ le) found

theorem dynamicBase_isSome {vm : Mm.VmState} {rounds next size : Nat} :
    (dynamicBase rounds vm next size).isSome = (searchBase vm size rounds (alignUpBy next 0x10000)).isSome := by
  rw [dynamicBase]
  cases searchBase vm size rounds (alignUpBy next 0x10000) <;> rfl

theorem FindsBase.mono {rounds rounds' : Nat} (finds : FindsBase rounds s f) (le : rounds ≤ rounds') :
    FindsBase rounds' s f := by
  rcases finds with ⟨resource, found⟩ | ⟨code, found⟩
  · rw [dynamicBase_isSome] at found
    exact .inl ⟨resource, dynamicBase_isSome ▸ searchBase_mono le found⟩
  · refine .inr ⟨code, ?_⟩
    rw [chooseImageBase] at found ⊢
    split_ifs at found ⊢
    · rfl
    · rfl
    · rw [dynamicBase_isSome] at found ⊢
      exact searchBase_mono le found

/-- The tests look at the file alone. -/
theorem ldrpMapImage_refuses (bad : ¬ f.Accepted) (rounds : Nat) (s : LdrState) :
    ∃ seen, ldrpMapImage rounds s f = some ⟨some statusInvalidImageFormat, 0, s, seen⟩ := by
  simp only [ldrpMapImage, ldrpMapResourceImage]
  split_ifs with short dos cut nt resource size foreign
  · exact ⟨_, rfl⟩
  · exact ⟨_, rfl⟩
  · exact ⟨_, rfl⟩
  · exact ⟨_, rfl⟩
  · exact ⟨_, rfl⟩
  · refine absurd ⟨⟨by omega, not_not.mp dos, by omega, not_not.mp nt⟩, fun _ => by omega, ?_⟩ bad
    exact fun code => absurd resource code
  · exact ⟨_, rfl⟩
  · refine absurd ⟨⟨by omega, not_not.mp dos, by omega, not_not.mp nt⟩, ?_, fun _ => by omega⟩ bad
    exact fun is => absurd is resource

theorem ldrpMapImage_resource (good : f.Accepted) (resource : f.IsResource) (rounds : Nat)
    (s : LdrState) : ldrpMapImage rounds s f = ldrpMapResourceImage rounds s f (kindReads f) := by
  have is : f.magic = imageNtOptionalHdr32Magic ∧ f.addressOfEntryPoint = 0 := resource
  simp only [ldrpMapImage]
  rw [if_neg (Nat.not_lt.mpr good.dos), if_neg (not_not.mpr good.magic),
    if_neg (Nat.not_lt.mpr good.nt), if_neg (not_not.mpr good.signature), if_pos is]

/-- An image without a base, or without frames for its pages. -/
theorem ldrpMapImage_stuck {rounds base next : Nat} (good : f.Accepted) (code : ¬ f.IsResource)
    (chosen : chooseImageBase rounds s.vm s.dynamicImageNext f = some (base, next))
    (stuck : base = 0 ∨
      mapPages { s with dynamicImageNext := next } f base = some (statusNoMemory, s.vm)) :
    MapFails rounds f s { s with dynamicImageNext := next } := by
  obtain ⟨machine, magic⟩ := good.code code
  have native : ¬ (f.machine ≠ imageFileMachineAmd64 ∨ f.magic ≠ imageNtOptionalHdr64Magic) :=
    not_or.mpr ⟨not_not.mpr machine, not_not.mpr magic⟩
  have isnt : ¬ (f.magic = imageNtOptionalHdr32Magic ∧ f.addressOfEntryPoint = 0) := code
  simp only [MapFails, ldrpMapImage]
  rw [if_neg (Nat.not_lt.mpr good.dos), if_neg (not_not.mpr good.magic),
    if_neg (Nat.not_lt.mpr good.nt), if_neg (not_not.mpr good.signature), if_neg isnt, if_neg native]
  simp only [chosen, Option.bind_eq_bind, Option.bind_some]
  by_cases zero : base = 0
  · rw [if_pos zero]
    exact ⟨_, rfl, .of_status rfl (by decide), rfl⟩
  · rw [if_neg zero, stuck.resolve_left zero]
    exact ⟨_, rfl, ⟨statusNoMemory, rfl, by decide⟩, rfl⟩

theorem mapPages_exhausted (frames : s.vm.frames = []) (pages : 0 < f.imageSize / pageSize)
    (base : Nat) : mapPages s f base = some (statusNoMemory, s.vm) := by
  obtain ⟨n, some_⟩ := Nat.exists_eq_succ_of_ne_zero pages.ne'
  rw [mapPages, some_]
  simp only [mapImagePages, frames]
  rfl

/-- Once the frames are used up no image is mapped. -/
theorem exhausted_again {rounds : Nat} (good : f.Accepted) (frames : s.vm.frames = [])
    (pages : 0 < f.imageSize / pageSize) (finds : FindsBase rounds s f) :
    ∃ v, MapFails rounds f s v := by
  rcases finds with ⟨resource, found⟩ | ⟨code, found⟩
  · obtain ⟨⟨base, next⟩, chosen⟩ := Option.isSome_iff_exists.mp found
    have size := good.resource resource
    have fits : ¬ (f.imageSize = 0 ∨ f.imageSize > 0x4000000) := by omega
    simp only [MapFails, ldrpMapImage_resource good resource, ldrpMapResourceImage, if_neg fits,
      chosen, mapPages_exhausted frames pages, Option.bind_eq_bind, Option.bind_some]
    exact ⟨_, _, rfl, .of_status rfl (by decide), rfl⟩
  · obtain ⟨⟨base, next⟩, chosen⟩ := Option.isSome_iff_exists.mp found
    exact ⟨_, ldrpMapImage_stuck good code chosen (.inr (mapPages_exhausted frames pages base))⟩

/-- The mapping of pages that are free only ends for want of a frame. -/
theorem mapImagePages_failed (n : Nat) : ∀ {vm vm' : Mm.VmState} {va : Nat} {status : NtStatus},
    Mm.Tree vm → (∀ i < n, Mm.NoLarge vm (BitVec.ofNat 64 (va + i * pageSize))) →
    mapImagePages n va vm = some (status, vm') → status ≠ statusSuccess →
      0 < n ∧ vm'.frames = [] := by
  induction n with
  | zero =>
    intro vm vm' va status _ _ step failed
    exact absurd (Prod.mk.inj (Option.some.inj step)).1.symm failed
  | succ n ih =>
    intro vm vm' va status tree small step failed
    obtain ⟨frames, -, rfl⟩ | ⟨pa, rest, done, vm₁, frames, first, step⟩ := mapImagePages_succ step
    · exact ⟨Nat.succ_pos n, frames⟩
    · have here : Mm.NoLarge { vm with frames := rest } (BitVec.ofNat 64 va) := by
        have first := small 0 (Nat.succ_pos n)
        rw [Nat.zero_mul, Nat.add_zero] at first
        exact first
      have step := (step.resolve_right fun refused =>
        Bool.noConfusion (refused.1.symm.trans (here.done (tree.take frames) first))).2
      refine ⟨Nat.succ_pos n, (ih (Mm.mmMapPage_mapped (tree.take frames) first).1 ?_ step failed).2⟩
      intro i lt
      have later := small (i + 1) (Nat.succ_lt_succ lt)
      rw [Nat.succ_mul, Nat.add_comm (i * pageSize), ← Nat.add_assoc] at later
      exact Mm.NoLarge.keep (s := { vm with frames := rest }) later
        (Mm.mmMapPage_large (tree.take frames) first)

theorem LoaderSpace.exhausted (space : LoaderSpace s) {rounds base next : Nat} {status : NtStatus}
    {vm : Mm.VmState} (chosen : ChosenBase rounds s f base next)
    (mapped : mapPages s f base = some (status, vm)) (failed : status ≠ statusSuccess) :
    0 < f.imageSize / pageSize ∧ vm.frames = [] := by
  have free := (imageRangeFree_iff _ _ _).mp chosen.free
  refine mapImagePages_failed _ space.tree (fun i lt => space.large _ ?_)
    (mapPages_pages mapped).1 failed
  rw [← isMapped_iff, free i lt]
  exact Bool.false_ne_true

/-- Where no base is found the choice does not depend on the search. -/
theorem LoaderSpace.unplaced (space : LoaderSpace s) {rounds next : Nat}
    (none_ : chooseImageBase rounds s.vm s.dynamicImageNext f = some (0, next)) :
    next = s.dynamicImageNext ∧
      ∀ rounds', chooseImageBase rounds' s.vm s.dynamicImageNext f = some (0, next) := by
  simp only [chooseImageBase] at none_ ⊢
  split_ifs at none_ ⊢
  · exact ⟨(Prod.mk.inj (Option.some.inj none_)).2.symm, fun _ => none_⟩
  · exact ⟨(Prod.mk.inj (Option.some.inj none_)).2.symm, fun _ => none_⟩
  · simp only [dynamicBase, Option.bind_eq_bind, Option.bind_eq_some_iff] at none_
    obtain ⟨base, found, same⟩ := none_
    obtain ⟨rfl, -⟩ := Prod.mk.inj (Option.some.inj same)
    obtain ⟨low, high⟩ := space.ahead
    have start : alignUpBy s.dynamicImageNext 0x10000 =
        (s.dynamicImageNext + 0xFFFF) / 2 ^ 16 * 2 ^ 16 := by
      simp only [alignUpBy, alignDownBy, wrap64]
      omega
    obtain ⟨k, place, -⟩ := searchBase_below (imageSize_le f) (by omega) found
    omega

/-- What `LdrpMapImage` has refused it refuses again: its tests and the lack of a base do not
depend on the first attempt, and one that ran out of frames left none. -/
theorem MapFails.again {rounds : Nat} (fails : MapFails rounds f s u) (space : LoaderSpace s)
    (ends : u.vm.frames = [] → f.Accepted → ∃ rounds', FindsBase rounds' u f) :
    ∃ enough, ∀ rounds' ≥ enough, ∃ v, MapFails rounds' f u v := by
  obtain ⟨r, map, fails, rfl⟩ := fails
  cases ldrpMapImage_attempts map with
  | refused bad _ _ same =>
    rw [same]
    refine ⟨0, fun rounds' _ => ?_⟩
    obtain ⟨seen, again⟩ := ldrpMapImage_refuses bad rounds' s
    exact ⟨s, _, again, .of_status rfl (by decide), rfl⟩
  | unplaced good code next none_ _ _ moved =>
    obtain ⟨rfl, always⟩ := space.unplaced none_
    rw [moved]
    exact ⟨0, fun rounds' _ => ⟨_, ldrpMapImage_stuck good code (always rounds') (.inl rfl)⟩⟩
  | placed good attempt fine _ =>
    have failed := fun success => (fine success).1 fails
    obtain ⟨pages, frames⟩ := space.exhausted attempt.chosen attempt.mapped failed
    obtain ⟨enough, finds⟩ := ends frames good
    exact ⟨enough, fun rounds' le => exhausted_again good frames pages (finds.mono le)⟩

end Refusals

end Ldr
