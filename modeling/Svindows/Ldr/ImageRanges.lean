import Svindows.Lib.Runs
import Svindows.Ldr.Image
import Svindows.Mm.Mappings

/-!
# Images do not overlap

An image is only mapped over pages that were not mapped, and what is mapped
stays so. The search for a base looks at the low 48 bits of an address: within
2³² strides of at most 4 GiB it has seen every base it can ever see, so it does
not run around the end of the address space, and `g_dynamic_image_next` grows.
-/

namespace Ldr

open Nt
open Mm (Tree Mapped)

theorem isMapped_iff (vm : Mm.VmState) (va : Nat) :
    isMapped vm va = true ↔ Mapped vm (BitVec.ofNat 64 va) := by
  simp [isMapped, Mapped]

theorem imageRangeFree_iff (vm : Mm.VmState) (base size : Nat) :
    imageRangeFree vm base size = true ↔
      ∀ i < size / pageSize, isMapped vm (base + i * pageSize) = false := by
  simp [imageRangeFree]

theorem isMapped_low (vm : Mm.VmState) {a b : Nat} (same : a % 2 ^ 48 = b % 2 ^ 48) :
    isMapped vm a = isMapped vm b := by
  have low : (BitVec.ofNat 64 a).toNat % 2 ^ 48 = (BitVec.ofNat 64 b).toNat % 2 ^ 48 := by
    simp only [BitVec.toNat_ofNat]
    omega
  simp only [isMapped, Mm.translation_low vm low]

theorem imageRangeFree_low (vm : Mm.VmState) {a b : Nat} (size : Nat)
    (same : a % 2 ^ 48 = b % 2 ^ 48) : imageRangeFree vm a size = imageRangeFree vm b size := by
  have pages : ∀ i, isMapped vm (a + i * pageSize) = isMapped vm (b + i * pageSize) :=
    fun i => isMapped_low vm (by omega)
  simp only [imageRangeFree, pages]

variable {base rounds next : Nat} {vm : Mm.VmState} {f : PeFile} {s : LdrState}

theorem searchBase_spec {size start : Nat} (word : start < 2 ^ 64)
    (found : searchBase vm size rounds start = some base) :
    ∃ k, base = wrap64 (start + k * granules size) ∧ imageRangeFree vm base size = true ∧
      ∀ j < k, imageRangeFree vm (wrap64 (start + j * granules size)) size = false := by
  induction rounds generalizing start with
  | zero => exact absurd found (by simp [searchBase])
  | succ rounds ih =>
    have here : wrap64 (start + 0 * granules size) = start := by
      rw [Nat.zero_mul, Nat.add_zero]
      exact Nat.mod_eq_of_lt word
    simp only [searchBase] at found
    split at found
    · rename_i free
      obtain rfl := Option.some.inj found
      exact ⟨0, here.symm, free, fun j hj => absurd hj (Nat.not_lt_zero j)⟩
    · rename_i taken
      have again : wrap64 (start + granules size) < 2 ^ 64 := Nat.mod_lt _ (by decide)
      obtain ⟨k, rfl, free, before⟩ := ih again found
      have shift : ∀ j, wrap64 (wrap64 (start + granules size) + j * granules size) =
          wrap64 (start + (j + 1) * granules size) := by
        intro j
        rw [Nat.succ_mul]
        simp only [wrap64]
        omega
      rw [shift k] at free ⊢
      refine ⟨k + 1, rfl, free, ?_⟩
      intro j hj
      cases j with
      | zero =>
        rw [here]
        exact Bool.eq_false_iff.mpr taken
      | succ j =>
        rw [← shift j]
        exact before j (by omega)

/-- Strides of `m` granules come back to the same low 48 bits after `period m` of them. -/
def period (m : Nat) : Nat := if m = 2 ^ 16 then 2 ^ 16 else 2 ^ 32

theorem period_returns (m : Nat) : period m * (m * 2 ^ 16) % 2 ^ 48 = 0 := by
  unfold period
  split
  · rename_i top
    rw [top]
    decide
  · have multiple : 2 ^ 32 * (m * 2 ^ 16) = 2 ^ 48 * m := by ring
    rw [multiple, Nat.mul_mod_right]

/-- All strides of a period, from a start in the user half, end below the
kernel half. -/
theorem period_below {m k start : Nat} (few : m ≤ 2 ^ 16) (early : k < period m)
    (user : start ≤ 2 ^ 47) : start + k * (m * 2 ^ 16) < 2 ^ 64 - 2 ^ 47 := by
  unfold period at early
  split at early
  · rename_i top
    rw [top]
    omega
  · rename_i small
    have rounds : k ≤ 2 ^ 32 - 1 := by omega
    have stride : m * 2 ^ 16 ≤ (2 ^ 16 - 1) * 2 ^ 16 := by omega
    have bound := Nat.mul_le_mul rounds stride
    omega

theorem granules_eq {size : Nat} (fits : size ≤ 2 ^ 32) :
    granules size = (size + 0xFFFF) / 2 ^ 16 * 2 ^ 16 := by
  simp only [granules, alignUpBy, alignDownBy, wrap64]
  omega

/-- A base found from the user half on lies before the kernel half, with no
stride around the end. -/
theorem searchBase_below {size start : Nat} (fits : size ≤ 2 ^ 32) (user : start ≤ 2 ^ 47)
    (found : searchBase vm size rounds start = some base) :
    ∃ k, base = start + k * granules size ∧ base < 2 ^ 64 - 2 ^ 47 ∧
      imageRangeFree vm base size = true := by
  obtain ⟨k, rfl, free, before⟩ := searchBase_spec (by omega) found
  have stride := granules_eq fits
  generalize steps : (size + 0xFFFF) / 2 ^ 16 = m at stride
  have few : m ≤ 2 ^ 16 := by omega
  have early : k < period m := by
    by_contra late
    have past : k - period m < k := by
      have positive : 0 < period m := by
        unfold period
        split <;> decide
      omega
    have taken := before _ past
    have whole : k * granules size = (k - period m) * granules size + period m * granules size := by
      rw [← Nat.add_mul, Nat.sub_add_cancel (Nat.le_of_not_lt late)]
    have same := period_returns m
    rw [← stride] at same
    have low : wrap64 (start + (k - period m) * granules size) % 2 ^ 48 =
        wrap64 (start + k * granules size) % 2 ^ 48 := by
      rw [whole]
      simp only [wrap64]
      omega
    rw [imageRangeFree_low vm size low, free] at taken
    exact absurd taken (by decide)
  have below := period_below few early user
  rw [← stride] at below
  have whole : wrap64 (start + k * granules size) = start + k * granules size :=
    Nat.mod_eq_of_lt (by omega)
  exact ⟨k, whole, by rw [whole]; exact below, free⟩

theorem isAccessible_canonical {size i : Nat} (page : base % pageSize = 0)
    (there : isAccessible vm base size = true) (inside : i * pageSize < size) :
    isCanonical (base + i * pageSize) = true := by
  unfold isAccessible at there
  have some_ : (size == 0) = false := by
    rw [beq_eq_false_iff_ne]
    omega
  rw [some_, Bool.false_or, List.all_eq_true] at there
  have at_ : (base / pageSize + i) * pageSize = base + i * pageSize := by
    rw [Nat.add_mul, Nat.div_mul_cancel (Nat.dvd_of_mod_eq_zero page)]
  have covered : i < (base % pageSize + size + pageMask) / pageSize := by
    simp only [pageSize, Nt.pageMask] at *
    omega
  have both := there i (List.mem_range.mpr covered)
  rw [at_, Bool.and_eq_true] at both
  exact both.1

theorem dynamicBase_spec {vm' : Mm.VmState} {size next' : Nat}
    (user : next ≤ 2 ^ 47) (pages : size % pageSize = 0) (fits : size ≤ 2 ^ 32) (some_ : size ≠ 0)
    (found : dynamicBase rounds vm next size = some (base, next'))
    (there : isAccessible vm' base size = true) :
    imageRangeFree vm base size = true ∧ next ≤ base ∧ base + size ≤ next' ∧ next' ≤ 2 ^ 47 := by
  simp only [dynamicBase, Option.bind_eq_bind, Option.bind_eq_some_iff] at found
  obtain ⟨b, found, same⟩ := found
  obtain ⟨rfl, rfl⟩ := Prod.mk.inj (Option.some.inj same)
  have start : alignUpBy next 0x10000 = (next + 0xFFFF) / 2 ^ 16 * 2 ^ 16 := by
    simp only [alignUpBy, alignDownBy, wrap64]
    omega
  obtain ⟨k, place, below, free⟩ := searchBase_below fits (by omega) found
  have stride := granules_eq fits
  have aligned : b % 2 ^ 16 = 0 := by
    rw [place, start, stride, ← Nat.mul_assoc, ← Nat.add_mul, Nat.mul_mod_left]
  have page : b % pageSize = 0 := by
    simp only [pageSize]
    omega
  have first := isAccessible_canonical (i := 0) page there (by omega)
  simp only [isCanonical, wrap64, Bool.or_eq_true, decide_eq_true_eq, Nat.zero_mul,
    Nat.add_zero] at first
  have inUser : b < 2 ^ 47 := by omega
  have ends : b + size ≤ 2 ^ 47 := by
    by_contra beyond
    -- the page at 2^47 would be one of the image's
    have last := isAccessible_canonical (i := (2 ^ 47 - b) / pageSize) page there
      (by simp only [pageSize] at *; omega)
    have place : b + (2 ^ 47 - b) / pageSize * pageSize = 2 ^ 47 := by
      simp only [pageSize] at *
      omega
    rw [place] at last
    exact absurd last (by decide)
  have next' : wrap64 (b + granules size) = b + granules size := by
    refine Nat.mod_eq_of_lt ?_
    omega
  rw [next']
  exact ⟨free, by omega, by omega, by omega⟩

/-- A round takes a frame and maps it, or ends the loop. -/
theorem mapImagePages_succ {n va : Nat} {vm vm' : Mm.VmState} {status : NtStatus}
    (step : mapImagePages (n + 1) va vm = some (status, vm')) :
    (vm.frames = [] ∧ status = statusNoMemory ∧ vm' = vm) ∨
      ∃ pa rest done vm₁, vm.frames = pa :: rest ∧
        Mm.mmMapPage { vm with frames := rest } (BitVec.ofNat 64 va) pa
          (Mm.pteUser ||| Mm.pteWrite) = some (done, vm₁) ∧
        (done = true ∧ mapImagePages n (va + pageSize) vm₁ = some (status, vm') ∨
          done = false ∧ status = statusConflictingAddresses ∧ vm' = vm₁) := by
  cases frames : vm.frames with
  | nil =>
    simp only [mapImagePages, frames] at step
    obtain ⟨rfl, rfl⟩ := Prod.mk.inj (Option.some.inj step)
    exact .inl ⟨rfl, rfl, rfl⟩
  | cons pa rest =>
    simp only [mapImagePages, frames, Option.bind_eq_bind, Option.bind_eq_some_iff] at step
    obtain ⟨⟨done, vm₁⟩, first, step⟩ := step
    refine .inr ⟨pa, rest, done, vm₁, rfl, first, ?_⟩
    cases done with
    | true => exact .inl ⟨rfl, step⟩
    | false =>
      obtain ⟨rfl, rfl⟩ := Prod.mk.inj (Option.some.inj step)
      exact .inr ⟨rfl, rfl, rfl⟩

theorem mapImagePages_mapped (n : Nat) : ∀ {vm vm' : Mm.VmState} {va : Nat} {status : NtStatus},
    Tree vm → mapImagePages n va vm = some (status, vm') →
    Tree vm' ∧ (∀ w, Mapped vm w → Mapped vm' w) ∧
      (status = statusSuccess → ∀ i < n, isMapped vm' (va + i * pageSize) = true) := by
  induction n with
  | zero =>
    intro vm vm' va status tree step
    obtain ⟨rfl, rfl⟩ := Prod.mk.inj (Option.some.inj step)
    exact ⟨tree, fun _ h => h, fun _ i hi => absurd hi (Nat.not_lt_zero i)⟩
  | succ n ih =>
    intro vm vm' va status tree step
    obtain ⟨frames, rfl, rfl⟩ | ⟨pa, rest, done, vm₁, frames, first, step⟩ := mapImagePages_succ step
    · exact ⟨tree, fun _ h => h, fun wrong => absurd wrong (by decide)⟩
    · obtain ⟨tree₁, kept, here⟩ := Mm.mmMapPage_mapped (tree.take frames) first
      obtain ⟨rfl, step⟩ | ⟨rfl, rfl, rfl⟩ := step
      · obtain ⟨tree', kept', later⟩ := ih tree₁ step
        refine ⟨tree', fun w h => kept' w (kept w h), ?_⟩
        intro success i hi
        cases i with
        | zero =>
          rw [Nat.zero_mul, Nat.add_zero, isMapped_iff]
          exact kept' _ (here rfl)
        | succ i =>
          have shift : va + (i + 1) * pageSize = va + pageSize + i * pageSize := by
            rw [Nat.succ_mul]
            omega
          rw [shift]
          exact later success i (by omega)
      · exact ⟨tree₁, kept, fun wrong => absurd wrong (by decide)⟩

theorem mapPages_pages {status : NtStatus} (step : mapPages s f base = some (status, vm)) :
    mapImagePages (f.imageSize / pageSize) base s.vm = some (status, vm) ∧
      (status = statusSuccess → isAccessible vm base f.imageSize = true) := by
  simp only [mapPages, Option.bind_eq_bind, Option.bind_eq_some_iff] at step
  obtain ⟨⟨status₁, vm₁⟩, pages, step⟩ := step
  dsimp only at step
  split at step
  · rename_i failed
    obtain ⟨rfl, rfl⟩ := Prod.mk.inj (Option.some.inj step)
    exact ⟨pages, fun success => absurd success failed⟩
  · rename_i success
    split at step
    · rename_i there
      obtain ⟨rfl, rfl⟩ := Prod.mk.inj (Option.some.inj step)
      rw [not_not.mp success] at pages
      exact ⟨pages, fun _ => there⟩
    · exact absurd step (by simp)

/-- A resource-only image has the 32-bit magic and no entry point. -/
def PeFile.IsResource (f : PeFile) : Prop :=
  f.magic = imageNtOptionalHdr32Magic ∧ f.addressOfEntryPoint = 0

/-- How a successful call came by its base, and what it did to the address space. -/
structure Placed (rounds : Nat) (s : LdrState) (f : PeFile) (r : MapResult) : Prop where
  pages : mapImagePages (f.imageSize / pageSize) r.base s.vm = some (statusSuccess, r.state.vm)
  there : isAccessible r.state.vm r.base f.imageSize = true
  base : (¬ f.IsResource ∧ r.base = f.imageBase ∧
      imageRangeFree s.vm r.base f.imageSize = true ∧
      r.state.dynamicImageNext = s.dynamicImageNext) ∨
    dynamicBase rounds s.vm s.dynamicImageNext f.imageSize =
      some (r.base, r.state.dynamicImageNext)

/-- The base the file asks for, or the next range that is free. -/
def ChosenBase (rounds : Nat) (s : LdrState) (f : PeFile) (base next : Nat) : Prop :=
  (¬ f.IsResource ∧ base = f.imageBase ∧ imageRangeFree s.vm base f.imageSize = true ∧
    next = s.dynamicImageNext) ∨
  dynamicBase rounds s.vm s.dynamicImageNext f.imageSize = some (base, next)

theorem chooseImageBase_chosen (code : ¬ f.IsResource) (nonzero : base ≠ 0)
    (chosen : chooseImageBase rounds s.vm s.dynamicImageNext f = some (base, next)) :
    ChosenBase rounds s f base next := by
  simp only [chooseImageBase] at chosen
  split at chosen
  · rename_i free
    obtain ⟨rfl, rfl⟩ := Prod.mk.inj (Option.some.inj chosen)
    exact Or.inl ⟨code, rfl, free, rfl⟩
  · split at chosen
    · obtain ⟨rfl, rfl⟩ := Prod.mk.inj (Option.some.inj chosen)
      exact absurd rfl nonzero
    · exact Or.inr chosen

/-- The call returns an error. -/
def MapResult.Fails (r : MapResult) : Prop :=
  ∃ status, r.status = some status ∧ ntSuccess status = false

/-- The headers are accepted, so the fixed fields lie in the file. -/
structure HeadersAccepted (f : PeFile) : Prop where
  dos : sizeofDosHeader ≤ f.size
  magic : f.eMagic = imageDosSignature
  nt : f.eLfanew + sizeofNtHeaders64 ≤ f.size
  signature : f.signature = imageNtSignature

/-- All the tests that come before the choice of a base. -/
structure PeFile.Accepted (f : PeFile) : Prop extends HeadersAccepted f where
  resource : f.IsResource → f.imageSize ≠ 0 ∧ f.imageSize ≤ 0x4000000
  code : ¬ f.IsResource →
    f.machine = imageFileMachineAmd64 ∧ f.magic = imageNtOptionalHdr64Magic

/-- What a call that came to map pages did. -/
structure Attempt (rounds : Nat) (s : LdrState) (f : PeFile) (r : MapResult) (base : Nat)
    (status : NtStatus) : Prop where
  chosen : ChosenBase rounds s f base r.state.dynamicImageNext
  mapped : mapPages s f base = some (status, r.state.vm)
  succeeds : r.status = some statusSuccess → status = statusSuccess ∧ r.base = base

/-- A call stops at a test, finds no base, or comes to map pages. -/
inductive Attempts (rounds : Nat) (s : LdrState) (f : PeFile) (r : MapResult) : Prop
  | refused (bad : ¬ f.Accepted) (status : r.status = some statusInvalidImageFormat)
      (zero : r.base = 0) (same : r.state = s)
  | unplaced (good : f.Accepted) (code : ¬ f.IsResource) (next : Nat)
      (none_ : chooseImageBase rounds s.vm s.dynamicImageNext f = some (0, next))
      (status : r.status = some statusConflictingAddresses) (zero : r.base = 0)
      (moved : r.state = { s with dynamicImageNext := next })
  | placed (good : f.Accepted) {base : Nat} {status : NtStatus}
      (attempt : Attempt rounds s f r base status)
      (fine : status = statusSuccess → ¬ r.Fails ∧ r.base = base)
      (fails : status ≠ statusSuccess → r.Fails ∧ r.base = 0)

variable {r : MapResult}

theorem MapResult.Fails.of_status {status : NtStatus} (is : r.status = some status)
    (failed : ntSuccess status = false) : r.Fails := ⟨status, is, failed⟩

theorem MapResult.not_fails (success : r.status = some statusSuccess) : ¬ r.Fails := by
  rintro ⟨status, is, failed⟩
  cases success.symm.trans is
  exact absurd failed (by decide)

/-- The statuses with which the mapping of pages ends. -/
theorem mapImagePages_status (n : Nat) : ∀ {vm vm' : Mm.VmState} {va : Nat} {status : NtStatus},
    mapImagePages n va vm = some (status, vm') → status ≠ statusSuccess →
      ntSuccess status = false := by
  induction n with
  | zero =>
    intro vm vm' va status step failed
    exact absurd (Prod.mk.inj (Option.some.inj step)).1.symm failed
  | succ n ih =>
    intro vm vm' va status step failed
    obtain ⟨-, rfl, -⟩ | ⟨_, _, _, _, -, -, ⟨-, step⟩ | ⟨-, rfl, -⟩⟩ := mapImagePages_succ step
    · decide
    · exact ih step failed
    · decide

theorem ldrpMapResourceImage_attempts {seen : List Access} (resource : f.IsResource)
    (good : f.imageSize ≠ 0 → f.imageSize ≤ 0x4000000 → f.Accepted)
    (step : ldrpMapResourceImage rounds s f seen = some r) : Attempts rounds s f r := by
  simp only [ldrpMapResourceImage] at step
  split at step
  · rename_i size
    obtain rfl := Option.some.inj step
    refine .refused (fun accepted => ?_) rfl rfl rfl
    have := accepted.resource resource
    omega
  · rename_i size
    simp only [Option.bind_eq_bind, Option.bind_eq_some_iff] at step
    obtain ⟨⟨base, next⟩, chosen, ⟨status, vm⟩, mapped, step⟩ := step
    dsimp only at step chosen mapped
    have good := good (by omega) (by omega)
    split at step
    · rename_i failed
      obtain rfl := Option.some.inj step
      exact .placed good ⟨.inr chosen, mapped, fun success => absurd (Option.some.inj success) failed⟩
        (fun success => absurd success failed)
        fun _ => ⟨.of_status rfl (mapImagePages_status _ (mapPages_pages mapped).1 failed), rfl⟩
    · rename_i fine
      obtain rfl := Option.some.inj step
      have fine := not_not.mp fine
      exact .placed good ⟨.inr chosen, mapped, fun _ => ⟨fine, rfl⟩⟩
        (fun _ => ⟨MapResult.not_fails rfl, rfl⟩) fun failed => absurd fine failed

theorem ldrpMapImage_attempts
    (step : ldrpMapImage rounds s f = some r) : Attempts rounds s f r := by
  have invalid : ∀ seen, some (MapResult.mk (some statusInvalidImageFormat) 0 s seen) = some r →
      ¬ f.Accepted → Attempts rounds s f r := by
    intro seen same bad
    obtain rfl := Option.some.inj same
    exact .refused bad rfl rfl rfl
  simp only [ldrpMapImage] at step
  rcases ite_eq_iff.mp step with ⟨short, step⟩ | ⟨whole, step⟩
  · exact invalid _ step fun good => absurd good.dos (Nat.not_le.mpr short)
  rcases ite_eq_iff.mp step with ⟨other, step⟩ | ⟨dos, step⟩
  · exact invalid _ step fun good => other good.magic
  rcases ite_eq_iff.mp step with ⟨cut, step⟩ | ⟨headers, step⟩
  · exact invalid _ step fun good => absurd good.nt (Nat.not_le.mpr cut)
  rcases ite_eq_iff.mp step with ⟨unsigned, step⟩ | ⟨nt, step⟩
  · exact invalid _ step fun good => unsigned good.signature
  have good := PeFile.Accepted.mk (f := f) ⟨Nat.le_of_not_lt whole, not_not.mp dos,
    Nat.le_of_not_lt headers, not_not.mp nt⟩
  rcases ite_eq_iff.mp step with ⟨resource, step⟩ | ⟨code, step⟩
  · exact ldrpMapResourceImage_attempts resource
      (fun some_ fits => good (fun _ => ⟨some_, fits⟩) fun code => absurd resource code) step
  rcases ite_eq_iff.mp step with ⟨foreign, step⟩ | ⟨native, step⟩
  · refine invalid _ step fun accepted => ?_
    obtain ⟨machine, magic⟩ := accepted.code code
    exact foreign.elim (fun wrong => wrong machine) fun wrong => wrong magic
  have good := good (fun resource => absurd resource code) fun _ =>
    ⟨by_contra fun wrong => native (.inl wrong), by_contra fun wrong => native (.inr wrong)⟩
  simp only [Option.bind_eq_bind, Option.bind_eq_some_iff] at step
  obtain ⟨⟨base, next⟩, chosen, step⟩ := step
  dsimp only at step
  split at step
  · rename_i zero
    subst zero
    obtain rfl := Option.some.inj step
    exact .unplaced good code next chosen rfl rfl rfl
  rename_i nonzero
  have chosen' := chooseImageBase_chosen code nonzero chosen
  simp only [Option.bind_eq_some_iff] at step
  obtain ⟨⟨status, vm⟩, mapped, step⟩ := step
  dsimp only at step mapped
  split at step
  · rename_i failed
    obtain rfl := Option.some.inj step
    exact .placed good ⟨chosen', mapped, fun success => absurd (Option.some.inj success) failed⟩
      (fun success => absurd success failed)
      fun _ => ⟨.of_status rfl (mapImagePages_status _ (mapPages_pages mapped).1 failed), rfl⟩
  · rename_i fine
    obtain rfl := Option.some.inj step
    have fine := not_not.mp fine
    refine .placed good ⟨chosen', mapped, fun _ => ⟨fine, rfl⟩⟩ (fun _ => ⟨?_, rfl⟩)
      fun failed => absurd fine failed
    rintro ⟨status', is, failed⟩
    split_ifs at is
    cases is
    exact absurd failed (by decide)

theorem alignUpBy_lt (x : Nat) : alignUpBy x 0x10000 < 2 ^ 64 := by
  simp only [alignUpBy, alignDownBy, wrap64]
  omega

theorem dynamicBase_lt {size next' : Nat}
    (found : dynamicBase rounds vm next size = some (base, next')) : base < 2 ^ 64 := by
  simp only [dynamicBase, Option.bind_eq_bind, Option.bind_eq_some_iff] at found
  obtain ⟨b, found, same⟩ := found
  obtain ⟨rfl, -⟩ := Prod.mk.inj (Option.some.inj same)
  obtain ⟨k, rfl, -⟩ := searchBase_spec (alignUpBy_lt next) found
  exact Nat.mod_lt _ (by decide)

theorem ChosenBase.lt (chosen : ChosenBase rounds s f base next) : base < 2 ^ 64 := by
  rcases chosen with ⟨-, rfl, -⟩ | found
  · exact ByteMemory.load_lt f.bytes (f.opt + 24) 8
  · exact dynamicBase_lt found

theorem ldrpMapImage_base (step : ldrpMapImage rounds s f = some r) : r.base < 2 ^ 64 := by
  cases ldrpMapImage_attempts step with
  | refused _ _ zero _ => exact zero ▸ by decide
  | unplaced _ _ _ _ _ zero _ => exact zero ▸ by decide
  | @placed _ base status attempt fine fails =>
    by_cases success : status = statusSuccess
    · exact (fine success).2 ▸ attempt.chosen.lt
    · exact (fails success).2 ▸ by decide

theorem ldrpMapImage_placed
    (step : ldrpMapImage rounds s f = some r) (success : r.status = some statusSuccess) :
    Placed rounds s f r := by
  cases ldrpMapImage_attempts step with
  | refused _ status _ _ => cases success.symm.trans status
  | unplaced _ _ _ _ status _ _ => cases success.symm.trans status
  | placed _ attempt _ _ =>
    obtain ⟨fine, rfl⟩ := attempt.succeeds success
    obtain ⟨pages, there⟩ := mapPages_pages attempt.mapped
    exact ⟨fine ▸ pages, there fine, attempt.chosen⟩

theorem imageSize_pages (f : PeFile) : f.imageSize % pageSize = 0 := Nat.mul_mod_left _ _

theorem imageSize_le (f : PeFile) : f.imageSize ≤ 2 ^ 32 := by
  have word := ByteMemory.load_lt f.bytes (f.opt + 56) 4
  simp only [PeFile.imageSize, PeFile.sizeOfImage, pageAlignUp, alignUpBy, alignDownBy, wrap64,
    pageSize]
  omega

theorem dynamicBase_free {size next' : Nat}
    (found : dynamicBase rounds vm next size = some (base, next')) :
    imageRangeFree vm base size = true := by
  simp only [dynamicBase, Option.bind_eq_bind, Option.bind_eq_some_iff] at found
  obtain ⟨b, found, same⟩ := found
  obtain ⟨rfl, _⟩ := Prod.mk.inj (Option.some.inj same)
  obtain ⟨k, _, free, _⟩ := searchBase_spec (alignUpBy_lt next) found
  exact free

theorem ChosenBase.free (chosen : ChosenBase rounds s f base next) :
    imageRangeFree s.vm base f.imageSize = true := by
  rcases chosen with ⟨_, _, free, _⟩ | found
  · exact free
  · exact dynamicBase_free found

theorem Placed.free
    (placed : Placed rounds s f r) : imageRangeFree s.vm r.base f.imageSize = true :=
  ChosenBase.free placed.base

/-- A call that has returned maps pages that were free, or none. -/
def MapsFree (s : LdrState) (f : PeFile) (r : MapResult) : Prop :=
  r.state.vm = s.vm ∨ ∃ base status, imageRangeFree s.vm base f.imageSize = true ∧
    mapImagePages (f.imageSize / pageSize) base s.vm = some (status, r.state.vm)

theorem ldrpMapImage_mapsFree (step : ldrpMapImage rounds s f = some r) : MapsFree s f r := by
  cases ldrpMapImage_attempts step with
  | refused _ _ _ same => exact .inl (by rw [same])
  | unplaced _ _ _ _ _ _ moved => exact .inl (by rw [moved])
  | placed _ attempt _ _ => exact .inr ⟨_, _, attempt.chosen.free, (mapPages_pages attempt.mapped).1⟩

structure LoadedImage where
  file : PeFile
  base : Nat

def LoadedImage.size (image : LoadedImage) : Nat := image.file.imageSize

/-- Rebased or resource-only. -/
def LoadedImage.Moved (image : LoadedImage) : Prop :=
  image.file.IsResource ∨ image.base ≠ image.file.imageBase

def LoadedImage.Apart (a b : LoadedImage) : Prop :=
  ∀ i < a.size, ∀ j < b.size, wrap64 (a.base + i) ≠ wrap64 (b.base + j)

structure Loader where
  state : LdrState
  images : List LoadedImage

inductive LoaderOp where
  | load (rounds : Nat) (file : PeFile)
  | map (virt phys flags : Mm.Word)
  /-- Others write memory, and allocate and free frames. -/
  | others (mem : ByteMemory.Memory) (frames : List Mm.Word)

def LoaderStart (l : Loader) : Prop :=
  Tree l.state.vm ∧ l.state.dynamicImageNext = 0x400000000 ∧ l.images = []

def LoaderStep (l : Loader) (op : LoaderOp) (u : Loader) : Prop :=
  match op with
  | .load rounds file => ∃ r, ldrpMapImage rounds l.state file = some r ∧
      r.status = some statusSuccess ∧ r.base % pageSize = 0 ∧ file.imageSize ≠ 0 ∧
      u = ⟨r.state, ⟨file, r.base⟩ :: l.images⟩
  | .map virt phys flags => ∃ done vm, Mm.mmMapPage l.state.vm virt phys flags = some (done, vm) ∧
      u = { l with state := { l.state with vm := vm } }
  | .others mem frames => Mm.Grantable l.state.vm frames ∧
      u = { l with state := { l.state with
        vm := { l.state.vm with frames := frames }
        mem := mem } }

/-- An image that lies where it was mapped. -/
structure LoadedImage.Held (image : LoadedImage) (s : LdrState) : Prop where
  aligned : image.base % pageSize = 0
  mapped : ∀ i < image.size / pageSize, isMapped s.vm (image.base + i * pageSize) = true
  ends : image.Moved → image.base + image.size ≤ s.dynamicImageNext

structure LoaderSound (l : Loader) : Prop where
  tree : Tree l.state.vm
  user : l.state.dynamicImageNext ≤ 2 ^ 47
  held : ∀ image ∈ l.images, image.Held l.state
  apart : l.images.Pairwise LoadedImage.Apart

theorem LoadedImage.Held.keep {image : LoadedImage} {u : LdrState} (held : image.Held s)
    (mapped : ∀ w, Mapped s.vm w → Mapped u.vm w)
    (next : s.dynamicImageNext ≤ u.dynamicImageNext) : image.Held u := by
  refine ⟨held.aligned, ?_, fun moved => Nat.le_trans (held.ends moved) next⟩
  intro i hi
  rw [isMapped_iff]
  exact mapped _ ((isMapped_iff _ _).mp (held.mapped i hi))

/-- A mapped image and one about to be mapped over free pages. -/
theorem LoadedImage.Held.apart {image new : LoadedImage} (held : image.Held s)
    (aligned : new.base % pageSize = 0) (free : imageRangeFree s.vm new.base new.size = true) :
    new.Apart image := by
  intro i hi j hj same
  have whole := imageSize_pages image.file
  have whole' := imageSize_pages new.file
  have old := held.aligned
  simp only [pageSize, LoadedImage.size] at *
  have there := held.mapped (j / 0x1000) (by simp only [pageSize, LoadedImage.size]; omega)
  have vacant := (imageRangeFree_iff _ _ _).mp free (i / 0x1000)
    (by simp only [pageSize]; omega)
  have low : (new.base + i / 0x1000 * pageSize) % 2 ^ 48 =
      (image.base + j / 0x1000 * pageSize) % 2 ^ 48 := by
    simp only [wrap64, pageSize] at same ⊢
    omega
  rw [isMapped_low s.vm low] at vacant
  rw [vacant] at there
  exact absurd there (by decide)

theorem LoaderSound.load {l : Loader} (sound : LoaderSound l) {rounds : Nat} {file : PeFile}
    {r : MapResult} (placed : Placed rounds l.state file r) (aligned : r.base % pageSize = 0)
    (some_ : file.imageSize ≠ 0) : LoaderSound ⟨r.state, ⟨file, r.base⟩ :: l.images⟩ := by
  obtain ⟨tree, kept, pages⟩ := mapImagePages_mapped _ sound.tree placed.pages
  have next : l.state.dynamicImageNext ≤ r.state.dynamicImageNext ∧
      r.state.dynamicImageNext ≤ 2 ^ 47 ∧ ((LoadedImage.mk file r.base).Moved →
        r.base + file.imageSize ≤ r.state.dynamicImageNext) := by
    rcases placed.base with ⟨code, own, _, same⟩ | found
    · rw [same]
      refine ⟨Nat.le_refl _, sound.user, ?_⟩
      rintro (resource | rebased)
      · exact absurd resource code
      · exact absurd own rebased
    · obtain ⟨_, after, ends, user⟩ := dynamicBase_spec sound.user (imageSize_pages file)
        (imageSize_le file) some_ found placed.there
      exact ⟨by omega, user, fun _ => ends⟩
  refine ⟨tree, next.2.1, ?_, List.pairwise_cons.mpr ⟨?_, sound.apart⟩⟩
  · intro image member
    rcases List.mem_cons.mp member with rfl | old
    · exact ⟨aligned, pages rfl, next.2.2⟩
    · exact (sound.held image old).keep kept next.1
  · intro image old
    exact (sound.held image old).apart aligned placed.free

theorem LoaderSound.step {l u : Loader} {op : LoaderOp} (sound : LoaderSound l)
    (step : LoaderStep l op u) : LoaderSound u := by
  cases op with
  | load rounds file =>
    obtain ⟨r, step, success, aligned, some_, rfl⟩ := step
    exact sound.load (ldrpMapImage_placed step success) aligned some_
  | map virt phys flags =>
    obtain ⟨done, vm, step, rfl⟩ := step
    obtain ⟨tree, kept, _⟩ := Mm.mmMapPage_mapped sound.tree step
    exact ⟨tree, sound.user, fun image member => (sound.held image member).keep kept (Nat.le_refl _),
      sound.apart⟩
  | others mem frames =>
    obtain ⟨unused, rfl⟩ := step
    exact ⟨sound.tree.grant unused, sound.user,
      fun image member => (sound.held image member).keep (fun _ h => h) (Nat.le_refl _),
      sound.apart⟩

/-- In every run a new image covers no mapped page, the images mapped so far lie
apart, and `g_dynamic_image_next` is behind every rebased or resource-only one. -/
theorem loaded_images_apart {l : Loader} (run : Runs.Reachable LoaderStart LoaderStep l) :
    (∀ rounds file r, ldrpMapImage rounds l.state file = some r →
      r.status = some statusSuccess → ∀ i < file.imageSize / pageSize,
        Mm.mmGetPhysicalAddress l.state.vm (BitVec.ofNat 64 (r.base + i * pageSize)) =
          Mm.invalidPhys) ∧
    l.images.Pairwise LoadedImage.Apart ∧
    ∀ image ∈ l.images, image.Moved → image.base + image.size ≤ l.state.dynamicImageNext := by
  have sound : LoaderSound l := by
    refine run.invariant ?_ (fun _ _ _ sound step => sound.step step)
    rintro u ⟨tree, next, none⟩
    refine ⟨tree, by rw [next]; decide, ?_, by rw [none]; exact List.Pairwise.nil⟩
    intro image member
    rw [none] at member
    exact absurd member List.not_mem_nil
  refine ⟨?_, sound.apart, fun image member => (sound.held image member).ends⟩
  intro rounds file r step success i hi
  have vacant := (imageRangeFree_iff _ _ _).mp (ldrpMapImage_placed step success).free i hi
  simpa [isMapped] using vacant

/-- A 64-bit image without sections and relocations. -/
def plainImage (imageBase sizeOfImage sizeOfHeaders size : Nat) : PeFile :=
  let m : ByteMemory.Memory := ByteMemory.store (fun _ => 0) 0 2 imageDosSignature
  let m := ByteMemory.store m 60 4 64
  let m := ByteMemory.store m 64 4 imageNtSignature
  let m := ByteMemory.store m 68 2 imageFileMachineAmd64
  let m := ByteMemory.store m 88 2 imageNtOptionalHdr64Magic
  let m := ByteMemory.store m 112 8 imageBase
  let m := ByteMemory.store m 144 4 sizeOfImage
  ⟨ByteMemory.store m 148 4 sizeOfHeaders, size⟩

def spareFrames : List Mm.Word :=
  [0x2000#64, 0x3000#64, 0x4000#64, 0x5000#64, 0x6000#64, 0x7000#64, 0x8000#64, 0x9000#64]

/-- A root table without entries. -/
def emptySpace : Mm.VmState := ⟨TableTree.fill (fun _ _ => 0) 0x1000#64 0, 0x1000#64, spareFrames⟩

theorem emptySpace_tree : Tree emptySpace := by
  have distinct : (0x1000#64 :: spareFrames).Nodup := by decide
  have frames : (0x1000#64 :: spareFrames).all (fun g => g &&& Mm.pteAddrMask == g) = true := by
    decide
  exact @Mm.root_tree (fun _ _ => 0) 0x1000#64 spareFrames distinct
    fun g hg => eq_of_beq (List.all_eq_true.mp frames g hg)

def noImages : LdrState := ⟨emptySpace, 0x400000000, fun _ => 0⟩

/-- An image of 0x2000 bytes with an empty relocation block. -/
def movableImage : PeFile :=
  let m := (plainImage 0x400000 0x2000 0x1000 0x1000).bytes
  let m := ByteMemory.store (ByteMemory.store m 196 4 16) 240 4 0x1000
  ⟨ByteMemory.store m 244 4 8, 0x1000⟩

/-- The second image finds its base taken and is moved. -/
theorem loaded_images_apart_two_images : ∃ l, Runs.Reachable LoaderStart LoaderStep l ∧
      l.images.map LoadedImage.base = [0x400000000, 0x400000] ∧
      l.images.Pairwise LoadedImage.Apart := by
  have returns : ((ldrpMapImage 1 noImages (plainImage 0x400000 0x1000 0 328)).bind fun r =>
      (ldrpMapImage 1 r.state movableImage).map fun q => ((r.status, r.base), q.status, q.base)) =
        some ((some statusSuccess, 0x400000), some statusSuccess, 0x400000000) := by
    decide +kernel
  obtain ⟨r, first, returns⟩ := Option.bind_eq_some_iff.mp returns
  obtain ⟨q, second, values⟩ := Option.map_eq_some_iff.mp returns
  simp only [Prod.mk.injEq] at values
  obtain ⟨⟨success, base⟩, success', base'⟩ := values
  have start : Runs.Reachable LoaderStart LoaderStep ⟨noImages, []⟩ :=
    .of_initial ⟨emptySpace_tree, rfl, rfl⟩
  have loaded : LoaderStep ⟨noImages, []⟩ (.load 1 (plainImage 0x400000 0x1000 0 328))
      ⟨r.state, [⟨plainImage 0x400000 0x1000 0 328, r.base⟩]⟩ :=
    ⟨r, first, success, by rw [base]; decide, by decide +kernel, rfl⟩
  have moved : LoaderStep ⟨r.state, [⟨plainImage 0x400000 0x1000 0 328, r.base⟩]⟩
      (.load 1 movableImage)
      ⟨q.state, [⟨movableImage, q.base⟩, ⟨plainImage 0x400000 0x1000 0 328, r.base⟩]⟩ :=
    ⟨q, second, success', by rw [base']; decide, by decide +kernel, rfl⟩
  have run := (start.next loaded).next moved
  exact ⟨_, run, by rw [← base, ← base']; rfl, (loaded_images_apart run).2.1⟩

end Ldr
