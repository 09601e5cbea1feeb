import Svindows.Ps.UserSpace

/-!
# Fresh user pages

Every range handed out is kept in a list beside the state. What the three areas
hand out is fresh as long as they run neither into an image nor into each other
nor into pages that other parts of the kernel have mapped.
-/

namespace Ps

open Nt
open Mm (Tree Mapped pageSlot)
open Ldr (isMapped isMapped_iff)
open User (callbackStackArenaVa callbackStackSlots callbackStackSlotSize)

inductive Owner where
  | alloc
  | thread
  | callback
  | image
  | other
  deriving DecidableEq, Repr

structure Region where
  owner : Owner
  base : Nat
  pages : Nat

def Region.slot (r : Region) (i : Nat) : Nat := pageSlot (r.base + i * pageSize)

def Region.Covers (r : Region) (slot : Nat) : Prop := ∃ i < r.pages, slot = r.slot i

/-- No page belongs to both. -/
def Region.Apart (a b : Region) : Prop := ∀ i < a.pages, ∀ j < b.pages, a.slot i ≠ b.slot j

/-- The pages of the range are mapped. -/
def Region.Held (r : Region) (vm : Mm.VmState) : Prop := HeldPages r.pages r.base vm

/-- The user half and the ranges handed out: by the allocators and the loader,
and by others. -/
structure Space where
  space : UserSpace
  live : List Region
  others : List Region

def Space.vm (s : Space) : Mm.VmState := s.space.vm

inductive SpaceOp where
  | allocate (size : Option Nat)
  | createThread (writable created : Bool)
  | claimStack
  /-- `LdrpMapImage`, whose pages are those from `base` on. -/
  | load (rounds : Nat) (file : Ldr.PeFile) (base : Nat)
  /-- Other code maps pages, and takes frames. -/
  | other (va n : Nat)
  | take (frames : List Mm.Word)

/-- The next range of each area. -/
def Space.nextAlloc (s : Space) (size : Nat) : Region :=
  ⟨.alloc, s.space.userAllocNext, bytesToPages size⟩

def Space.nextStack (s : Space) : Region := ⟨.thread, s.space.threadVa, threadStackPages⟩

def Space.nextTeb (s : Space) : Region :=
  ⟨.thread, s.space.threadVa + threadStackPages * pageSize, processTebSize / pageSize⟩

def Space.nextCallback (s : Space) : Region :=
  ⟨.callback, callbackStackArenaVa + s.space.callbackStackNext * callbackStackSlotSize,
    callbackStackSlotSize / pageSize⟩

def SpaceStart (s : Space) : Prop :=
  Tree s.vm ∧ (∀ i < 256, Mm.isPresent (s.vm.mem s.vm.pml4 i) = false) ∧
    s.space.userAllocNext = userAllocBase ∧ s.space.threadVa = threadVaBase ∧
    s.space.callbackStackNext = 0 ∧ s.live = [] ∧ s.others = []

/-- One call; a range is kept once it has been handed out. The pages of an image
that could not be completed are among the others'. -/
def SpaceStep (s : Space) (op : SpaceOp) (u : Space) : Prop :=
  match op with
  | .allocate size => ∃ status base out, ntAllocateVirtualMemory size s.space =
        some (status, base, out, u.space) ∧ u.others = s.others ∧
      u.live = (if status = statusSuccess then [s.nextAlloc (size.getD 0)] else []) ++ s.live
  | .createThread writable created => ∃ status stack teb, ntCreateThreadEx writable created s.space =
        some (status, stack, teb, u.space) ∧ u.others = s.others ∧
      u.live = (if teb = 0 then [] else [s.nextTeb]) ++ (if stack = 0 then [] else [s.nextStack]) ++
        s.live
  | .claimStack => ∃ top, kiClaimCallbackStack s.space = some (top, u.space) ∧
      u.others = s.others ∧ u.live = (if top = 0 then [] else [s.nextCallback]) ++ s.live
  | .load rounds file base => ∃ r, Ldr.ldrpMapImage rounds s.space.ldr file = some r ∧
      u.space = { s.space with ldr := r.state } ∧
      ((r.state.vm = s.vm ∧ u.live = s.live ∧ u.others = s.others) ∨
        ∃ status, Ldr.imageRangeFree s.vm base file.imageSize = true ∧
          Ldr.mapImagePages (file.imageSize / pageSize) base s.vm = some (status, r.state.vm) ∧
          if status = statusSuccess then
            u.live = ⟨.image, base, file.imageSize / pageSize⟩ :: s.live ∧ u.others = s.others
          else
            u.live = s.live ∧ u.others = ⟨.image, base, file.imageSize / pageSize⟩ :: s.others)
  | .other va n => ∃ done vm, mapNewPages n va s.vm = some (done, vm) ∧
      u.space = s.space.withVm vm ∧ u.live = s.live ∧ u.others = ⟨.other, va, n⟩ :: s.others
  | .take frames => frames <:+ s.vm.frames ∧ u.live = s.live ∧ u.others = s.others ∧
      u.space = s.space.withVm { s.vm with frames := frames }

/-- A range of an area is clear: it lies below `MM_USER_MAX`, and no page of it
belongs to another's range. -/
structure Region.Clear (r : Region) (s : Space) : Prop where
  below : r.base + r.pages * pageSize ≤ mmUserMax
  live : ∀ x ∈ s.live, x.owner ≠ r.owner → r.Apart x
  others : ∀ x ∈ s.others, r.Apart x

/-- The ranges an operation is about to hand out are clear. -/
def SpaceOp.Clear (s : Space) : SpaceOp → Prop
  | .allocate size => ∀ n, size = some n → (s.nextAlloc n).Clear s
  | .createThread writable _ => writable = true → s.nextStack.Clear s ∧ s.nextTeb.Clear s
  | .claimStack => s.space.callbackStackNext < callbackStackSlots → s.nextCallback.Clear s
  | .load _ _ _ => True
  | .other _ _ => True
  | .take _ => True

def ClearStep (s : Space) (op : SpaceOp) (u : Space) : Prop := op.Clear s ∧ SpaceStep s op u

/-- Where the ranges of an area lie. -/
def Region.Placed (r : Region) (s : UserSpace) : Prop :=
  match r.owner with
  | .alloc => r.base % pageSize = 0 ∧ r.base + r.pages * pageSize ≤ s.userAllocNext
  | .thread => r.base % pageSize = 0 ∧ r.base + r.pages * pageSize ≤ s.threadVa
  | .callback => ∃ k < s.callbackStackNext,
      r.base = callbackStackArenaVa + k * callbackStackSlotSize ∧
      r.pages = callbackStackSlotSize / pageSize
  | _ => True

structure Counters (s : UserSpace) : Prop where
  alloc : s.userAllocNext % pageSize = 0 ∧ s.userAllocNext ≤ mmUserMax
  thread : s.threadVa % pageSize = 0 ∧ s.threadVa ≤ mmUserMax ∧ 0 < s.threadVa
  callback : s.callbackStackNext ≤ callbackStackSlots

/-- While there are frames, the mapped pages are those handed out. -/
structure SpaceSound (s : Space) : Prop where
  tree : Tree s.vm
  small : Mm.SmallOnly s.vm
  covered : s.vm.frames ≠ [] → ∀ va, va % 2 ^ 48 < mmUserMax → isMapped s.vm va = true →
    ∃ r ∈ s.live ++ s.others, r.Covers (pageSlot va)
  apart : s.live.Pairwise Region.Apart
  held : ∀ r ∈ s.live, r.Held s.vm
  placed : ∀ r ∈ s.live, r.Placed s.space
  counters : Counters s.space

variable {s u : Space}

/-- A page that no range covers is not mapped. -/
theorem SpaceSound.free (sound : SpaceSound s) (frames : s.vm.frames ≠ [])
    {r : Region} (below : r.base + r.pages * pageSize ≤ mmUserMax)
    (live : ∀ x ∈ s.live, r.Apart x) (others : ∀ x ∈ s.others, r.Apart x) :
    ∀ i < r.pages, isMapped s.vm (r.base + i * pageSize) = false := by
  intro i hi
  by_contra mapped
  have inside : r.base + i * pageSize < mmUserMax := by
    have page : (i + 1) * pageSize ≤ r.pages * pageSize := Nat.mul_le_mul_right _ hi
    rw [Nat.succ_mul] at page
    simp only [pageSize] at *
    omega
  have user : (r.base + i * pageSize) % 2 ^ 48 < mmUserMax :=
    Nat.lt_of_le_of_lt (Nat.mod_le _ _) inside
  obtain ⟨x, member, j, hj, same⟩ := sound.covered frames _ user (by simpa using mapped)
  rcases List.mem_append.mp member with here | there
  · exact live x here i hi j hj same
  · exact others x there i hi j hj same

/-- Mapping the pages of `r` keeps the pages covered, if `r` is kept in a list. -/
theorem SpaceSound.cover (sound : SpaceSound s) {r : Region}
    (mapped : PagesMapped r.pages r.base s.vm u.vm)
    (kept : ∀ x ∈ s.live ++ s.others, x ∈ u.live ++ u.others)
    (new : r.pages ≠ 0 → u.vm.frames ≠ [] → r ∈ u.live ++ u.others) :
    u.vm.frames ≠ [] → ∀ va, va % 2 ^ 48 < mmUserMax → isMapped u.vm va = true →
      ∃ x ∈ u.live ++ u.others, x.Covers (pageSlot va) := by
  intro frames va user there
  have before : s.vm.frames ≠ [] := by
    intro none
    have suffix := mapped.frames
    rw [none, List.suffix_nil] at suffix
    exact frames suffix
  rcases mapped.new _ ((isMapped_iff _ _).mp there) with old | ⟨i, hi, same⟩
  · obtain ⟨x, member, covers⟩ := sound.covered before va user ((isMapped_iff _ _).mpr old)
    exact ⟨x, kept x member, covers⟩
  · rw [pageSlot_ofNat] at same
    exact ⟨r, new (Nat.ne_zero_of_lt hi) frames, i, hi, same⟩

/-- A range behind another, both in the user half. -/
theorem Region.apart_of_le {a b : Region} (order : a.base + a.pages * pageSize ≤ b.base)
    (below : b.base + b.pages * pageSize ≤ mmUserMax) : b.Apart a := by
  intro i hi j hj same
  simp only [Region.slot, pageSlot, pageSize, mmUserMax] at *
  omega

theorem callback_apart {a b : Region} {k n : Nat} (order : k < n) (few : n < callbackStackSlots)
    (ha : a.base = callbackStackArenaVa + k * callbackStackSlotSize)
    (pa : a.pages = callbackStackSlotSize / pageSize)
    (hb : b.base = callbackStackArenaVa + n * callbackStackSlotSize)
    (pb : b.pages = callbackStackSlotSize / pageSize) : b.Apart a := by
  refine Region.apart_of_le ?_ ?_
  · rw [ha, pa, hb]
    simp only [callbackStackArenaVa, callbackStackSlotSize, pageSize]
    omega
  · rw [hb, pb]
    simp only [callbackStackArenaVa, callbackStackSlotSize, callbackStackSlots, pageSize,
      mmUserMax] at *
    omega

/-- The counters only grow, so ranges stay where their area has been. -/
theorem Region.Placed.mono {r : Region} {s u : UserSpace} (placed : r.Placed s)
    (alloc : s.userAllocNext ≤ u.userAllocNext) (thread : s.threadVa ≤ u.threadVa)
    (callback : s.callbackStackNext ≤ u.callbackStackNext) : r.Placed u := by
  unfold Region.Placed at *
  split
  · rename_i own
    rw [own] at placed
    exact ⟨placed.1, Nat.le_trans placed.2 alloc⟩
  · rename_i own
    rw [own] at placed
    exact ⟨placed.1, Nat.le_trans placed.2 thread⟩
  · rename_i own
    rw [own] at placed
    obtain ⟨k, hk, place⟩ := placed
    exact ⟨k, Nat.lt_of_lt_of_le hk callback, place⟩
  · exact trivial

/-- A clear range is apart from all others when it is from those of its own area. -/
theorem Region.Clear.apart {r : Region} (clear : r.Clear s)
    (own : ∀ x ∈ s.live, x.owner = r.owner → r.Apart x) : ∀ x ∈ s.live, r.Apart x := by
  intro x member
  by_cases same : x.owner = r.owner
  · exact own x member same
  · exact clear.live x member same

/-- The next range of an area whose earlier ranges lie before it. -/
theorem SpaceSound.area_apart {r : Region} (clear : r.Clear s)
    (before : ∀ x ∈ s.live, x.owner = r.owner → x.base + x.pages * pageSize ≤ r.base) :
    ∀ x ∈ s.live, r.Apart x :=
  clear.apart fun x member own => Region.apart_of_le (before x member own) clear.below

theorem SpaceSound.alloc_before (sound : SpaceSound s) {x : Region}
    (member : x ∈ s.live) (own : x.owner = .alloc) :
    x.base + x.pages * pageSize ≤ s.space.userAllocNext := by
  have placed := sound.placed x member
  simp only [Region.Placed, own] at placed
  exact placed.2

theorem SpaceSound.thread_before (sound : SpaceSound s) {x : Region}
    (member : x ∈ s.live) (own : x.owner = .thread) :
    x.base + x.pages * pageSize ≤ s.space.threadVa := by
  have placed := sound.placed x member
  simp only [Region.Placed, own] at placed
  exact placed.2

theorem SpaceSound.callback_apart (sound : SpaceSound s)
    (few : s.space.callbackStackNext < callbackStackSlots)
    (clear : s.nextCallback.Clear s) : ∀ x ∈ s.live, s.nextCallback.Apart x := by
  refine clear.apart ?_
  intro x member own
  have placed := sound.placed x member
  have own : x.owner = .callback := own
  simp only [Region.Placed, own] at placed
  obtain ⟨k, hk, base, pages⟩ := placed
  exact Ps.callback_apart hk few base pages rfl rfl

/-- A new range at the head of the list. -/
theorem SpaceSound.push (sound : SpaceSound s) {r : Region}
    (mapped : PagesMapped r.pages r.base s.vm u.vm) (live : u.live = r :: s.live)
    (others : u.others = s.others) (apart : ∀ x ∈ s.live, r.Apart x) (held : r.Held u.vm)
    (placed : ∀ x ∈ s.live, x.Placed u.space) (here : r.Placed u.space)
    (counters : Counters u.space) : SpaceSound u := by
  refine ⟨mapped.tree, sound.small.keep mapped.large, sound.cover mapped ?_ ?_, ?_, ?_, ?_,
    counters⟩
  · intro x member
    rw [live, others]
    exact List.mem_cons_of_mem r member
  · intro _ _
    rw [live]
    exact List.mem_cons_self
  · rw [live]
    exact List.pairwise_cons.mpr ⟨apart, sound.apart⟩
  · rw [live]
    exact List.forall_mem_cons.mpr
      ⟨held, fun x member i hi => mapped.leaves _ (sound.held x member i hi)⟩
  · rw [live]
    exact List.forall_mem_cons.mpr ⟨here, placed⟩

/-- Pages that are nobody's, or that covered nothing before frames ran out. -/
theorem SpaceSound.aside (sound : SpaceSound s) {r : Region}
    (mapped : PagesMapped r.pages r.base s.vm u.vm) (live : u.live = s.live)
    (others : s.others ⊆ u.others) (new : r.pages ≠ 0 → u.vm.frames ≠ [] → r ∈ u.others)
    (placed : ∀ x ∈ s.live, x.Placed u.space) (counters : Counters u.space) : SpaceSound u := by
  refine ⟨mapped.tree, sound.small.keep mapped.large, sound.cover mapped ?_ ?_, ?_, ?_, ?_,
    counters⟩
  · intro x member
    rw [live]
    rcases List.mem_append.mp member with here | there
    · exact List.mem_append_left _ here
    · exact List.mem_append_right _ (others there)
  · intro some_ frames
    exact List.mem_append_right _ (new some_ frames)
  · rw [live]
    exact sound.apart
  · rw [live]
    exact fun x member i hi => mapped.leaves _ (sound.held x member i hi)
  · rw [live]
    exact placed

/-- A call that ran out of frames hands out nothing. -/
theorem SpaceSound.spent (sound : SpaceSound s) {n va : Nat}
    (mapped : PagesMapped n va s.vm u.vm) (out : u.vm.frames = []) (live : u.live = s.live)
    (others : u.others = s.others) (placed : ∀ x ∈ s.live, x.Placed u.space)
    (counters : Counters u.space) : SpaceSound u := by
  refine sound.aside (r := ⟨.other, va, n⟩) mapped live ?_ (fun _ some_ => absurd out some_) placed
    counters
  rw [others]
  exact fun _ member => member

theorem SpaceSound.same (sound : SpaceSound s) (space : u.space = s.space)
    (live : u.live = s.live) (others : u.others = s.others) : SpaceSound u := by
  obtain ⟨space', live', others'⟩ := u
  dsimp only at space live others
  rw [space, live, others]
  exact sound

theorem Counters.withVm {s : UserSpace} (counters : Counters s) (vm : Mm.VmState) :
    Counters (s.withVm vm) :=
  ⟨counters.alloc, counters.thread, counters.callback⟩

theorem SpaceSound.allocate (sound : SpaceSound s) {size : Option Nat}
    (clear : SpaceOp.Clear s (.allocate size)) (step : SpaceStep s (.allocate size) u) :
    SpaceSound u := by
  obtain ⟨status, base, out, step, others, live⟩ := step
  rcases ntAllocateVirtualMemory_cases step with ⟨failed, space⟩ | ⟨n, vm, rfl, failed | done⟩
  · rw [if_neg failed] at live
    exact sound.same space live others
  · obtain ⟨pages, failed, space⟩ := failed
    obtain ⟨mapped, spent, _⟩ := mapNewPages_spec _ sound.tree pages
    rw [if_neg failed] at live
    have vm' : u.vm = vm := by rw [Space.vm, space]; rfl
    rw [← vm'] at mapped spent
    refine sound.spent mapped (spent rfl) live others ?_ ?_
    · rw [space]
      exact sound.placed
    · rw [space]
      exact sound.counters.withVm vm
  · obtain ⟨pages, success, rfl, space⟩ := done
    have clear := clear n rfl
    obtain ⟨mapped, _, _⟩ := mapNewPages_spec _ sound.tree pages
    have held := mapNewPages_held _ sound.tree sound.small clear.below pages
    have counters := sound.counters
    have aligned := counters.alloc.1
    have below := clear.below
    rw [if_pos success] at live
    have whole : wrap64 (s.space.userAllocNext + bytesToPages n * pageSize) =
        s.space.userAllocNext + bytesToPages n * pageSize := by
      refine Nat.mod_eq_of_lt ?_
      simp only [Space.nextAlloc, pageSize, mmUserMax] at *
      omega
    rw [whole] at space
    have vm' : u.vm = vm := by rw [Space.vm, space]; rfl
    rw [← vm'] at mapped held
    refine sound.push (r := s.nextAlloc n) mapped live others ?_ held ?_ ?_ ?_
    · exact SpaceSound.area_apart clear fun x member own => sound.alloc_before member own
    · intro x member
      rw [space]
      exact (sound.placed x member).mono (Nat.le_add_right _ _) (Nat.le_refl _) (Nat.le_refl _)
    · rw [space]
      exact ⟨aligned, Nat.le_refl _⟩
    · rw [space]
      refine ⟨⟨?_, below⟩, counters.thread, counters.callback⟩
      simp only [pageSize] at *
      omega

theorem SpaceSound.userPages (sound : SpaceSound s) {r : Region} {sp : UserSpace}
    {base : Nat} (own : r.owner = .thread) (start : s.space.threadVa = r.base)
    (clear : r.Clear s) (step : mapUserPages r.pages s.space = some (base, sp)) :
    SpaceSound ⟨sp, (if base = 0 then [] else [r]) ++ s.live, s.others⟩ ∧
      (base = 0 → sp.vm.frames = []) ∧
      (base ≠ 0 → base = r.base ∧ sp.threadVa = r.base + r.pages * pageSize ∧
        (r.pages ≠ 0 → s.vm.frames ≠ [])) := by
  obtain ⟨vm, failed | done⟩ := mapUserPages_cases step
  · obtain ⟨pages, rfl, rfl⟩ := failed
    obtain ⟨mapped, spent, _⟩ := mapNewPages_spec _ sound.tree pages
    refine ⟨?_, fun _ => spent rfl, fun wrong => absurd rfl wrong⟩
    exact sound.spent (u := ⟨s.space.withVm vm, s.live, s.others⟩) mapped (spent rfl) rfl rfl
      sound.placed (sound.counters.withVm vm)
  · obtain ⟨pages, rfl, rfl⟩ := done
    have counters := sound.counters
    have positive := counters.thread.2.2
    have aligned := counters.thread.1
    have below := clear.below
    have before : ∀ x ∈ s.live, x.owner = r.owner → x.base + x.pages * pageSize ≤ r.base := by
      intro x member same
      rw [← start]
      exact sound.thread_before member (same.trans own)
    rw [start] at pages positive aligned ⊢
    have whole : wrap64 (r.base + r.pages * pageSize) = r.base + r.pages * pageSize := by
      refine Nat.mod_eq_of_lt ?_
      simp only [mmUserMax] at below
      omega
    obtain ⟨mapped, _, some_⟩ := mapNewPages_spec _ sound.tree pages
    have held := mapNewPages_held _ sound.tree sound.small below pages
    have nonzero : r.base ≠ 0 := Nat.ne_of_gt positive
    rw [if_neg nonzero, whole]
    refine ⟨?_, fun zero => absurd zero nonzero, fun _ => ⟨rfl, rfl, fun more => some_ rfl more⟩⟩
    refine sound.push (r := r) (u := ⟨{ s.space.withVm vm with
        threadVa := r.base + r.pages * pageSize }, [r] ++ s.live, s.others⟩) mapped rfl rfl
      (SpaceSound.area_apart clear before) held ?_ ?_ ?_
    · intro x member
      refine (sound.placed x member).mono (Nat.le_refl _) ?_ (Nat.le_refl _)
      rw [start]
      exact Nat.le_add_right _ _
    · simp only [Region.Placed, own]
      exact ⟨aligned, Nat.le_refl _⟩
    · refine ⟨counters.alloc, ⟨?_, below, ?_⟩, counters.callback⟩
      · simp only [pageSize] at *
        omega
      · exact Nat.lt_of_lt_of_le positive (Nat.le_add_right _ _)

/-- After the stack the TEB's range is still clear. -/
theorem Region.Clear.afterStack (clear : s.nextTeb.Clear s) (sp : UserSpace)
    (stack : Nat) : s.nextTeb.Clear ⟨sp, (if stack = 0 then [] else [s.nextStack]) ++ s.live,
      s.others⟩ := by
  refine ⟨clear.below, ?_, clear.others⟩
  intro x member different
  rcases List.mem_append.mp member with new | old
  · split at new
    · exact absurd new List.not_mem_nil
    · rw [List.mem_singleton.mp new] at different
      exact absurd rfl different
  · exact clear.live x old different

theorem SpaceSound.createThread (sound : SpaceSound s) {writable created : Bool}
    (clear : SpaceOp.Clear s (.createThread writable created))
    (step : SpaceStep s (.createThread writable created) u) : SpaceSound u := by
  obtain ⟨status, stack, teb, step, others, live⟩ := step
  rcases ntCreateThreadEx_cases step with ⟨rfl, rfl, space⟩ | ⟨rfl, s₁, first, second⟩
  · rw [if_pos rfl, if_pos rfl] at live
    exact sound.same space live others
  · obtain ⟨clear₁, clear₂⟩ := clear rfl
    obtain ⟨sound₁, spent, given⟩ := sound.userPages (r := s.nextStack) rfl rfl clear₁ first
    by_cases none : stack = 0
    · -- no frame was left for the TEB either
      have out := spent none
      rw [if_pos none] at live sound₁
      obtain ⟨vm, failed | done⟩ := mapUserPages_cases second
      · obtain ⟨pages, rfl, space⟩ := failed
        rw [if_pos rfl] at live
        obtain ⟨mapped, spent, _⟩ := mapNewPages_spec _ sound₁.tree pages
        have vm' : u.vm = vm := by rw [Space.vm, space]; rfl
        rw [← vm'] at mapped spent
        refine sound₁.spent mapped (spent rfl) live others ?_ ?_
        · rw [space]
          exact sound₁.placed
        · rw [space]
          exact sound₁.counters.withVm vm
      · obtain ⟨pages, _, _⟩ := done
        obtain ⟨_, _, some_⟩ := mapNewPages_spec _ sound₁.tree pages
        exact absurd out (some_ rfl (by decide))
    · obtain ⟨_, next, _⟩ := given none
      obtain ⟨sound₂, _, _⟩ := sound₁.userPages (r := s.nextTeb) rfl next
        (clear₂.afterStack s₁ stack) second
      refine sound₂.same rfl ?_ others
      rw [live, List.append_assoc]

theorem SpaceSound.claimStack (sound : SpaceSound s)
    (clear : SpaceOp.Clear s .claimStack) (step : SpaceStep s .claimStack u) : SpaceSound u := by
  obtain ⟨top, step, others, live⟩ := step
  rcases kiClaimCallbackStack_cases step with ⟨rfl, space⟩ | ⟨few, done, vm, pages, top_, space⟩
  · rw [if_pos rfl] at live
    exact sound.same space live others
  · have clear := clear few
    obtain ⟨mapped, spent, _⟩ := mapNewPages_spec _ sound.tree pages
    have counters := sound.counters
    have vm' : u.vm = vm := by rw [Space.vm, space]; rfl
    have placed : ∀ x ∈ s.live, x.Placed u.space := by
      intro x member
      rw [space]
      exact (sound.placed x member).mono (Nat.le_refl _) (Nat.le_refl _) (Nat.le_succ _)
    have counters' : Counters u.space := by
      rw [space]
      exact ⟨counters.alloc, counters.thread, few⟩
    cases done with
    | false =>
      rw [if_pos (top_.mpr rfl)] at live
      rw [← vm'] at mapped spent
      exact sound.spent mapped (spent rfl) live others placed counters'
    | true =>
      have held := mapNewPages_held _ sound.tree sound.small clear.below pages
      rw [← vm'] at mapped held
      have given : top ≠ 0 := fun zero => absurd (top_.mp zero) (by decide)
      rw [if_neg given] at live
      refine sound.push (r := s.nextCallback) mapped live others
        (sound.callback_apart few clear) held placed ?_ counters'
      rw [space]
      exact ⟨s.space.callbackStackNext, Nat.lt_succ_self _, rfl, rfl⟩

theorem SpaceSound.image_apart (sound : SpaceSound s) {base size : Nat}
    (free : Ldr.imageRangeFree s.vm base size = true) :
    ∀ x ∈ s.live, (Region.mk .image base (size / pageSize)).Apart x := by
  intro x member i hi j hj same
  have vacant := (Ldr.imageRangeFree_iff _ _ _).mp free i hi
  have mapped : Mapped s.vm (BitVec.ofNat 64 (base + i * pageSize)) := by
    refine (sound.held x member j hj).mapped ?_
    rw [pageSlot_ofNat, pageSlot_ofNat]
    exact same
  rw [(isMapped_iff _ _).mpr mapped] at vacant
  exact absurd vacant (by decide)

theorem SpaceSound.load (sound : SpaceSound s) {rounds : Nat} {file : Ldr.PeFile}
    {base : Nat} (step : SpaceStep s (.load rounds file base) u) : SpaceSound u := by
  obtain ⟨r, _, space, outcome⟩ := step
  have vm' : u.vm = r.state.vm := by rw [Space.vm, space]; rfl
  have placed : ∀ x ∈ s.live, x.Placed u.space := by
    rw [space]
    exact sound.placed
  have counters : Counters u.space := by
    rw [space]
    exact ⟨sound.counters.alloc, sound.counters.thread, sound.counters.callback⟩
  rcases outcome with ⟨vm, live, others⟩ | ⟨status, free, pages, kept⟩
  · have mapped : PagesMapped 0 0 s.vm u.vm := by
      rw [vm', vm]
      exact .refl sound.tree 0 0
    refine sound.aside (r := ⟨.other, 0, 0⟩) mapped live ?_ (fun none => absurd rfl none) placed
      counters
    rw [others]
    exact fun _ member => member
  · obtain ⟨mapped, held⟩ := mapImagePages_spec _ sound.tree pages
    rw [← vm'] at mapped held
    split at kept
    · rename_i success
      exact sound.push (r := ⟨.image, base, file.imageSize / pageSize⟩) mapped kept.1 kept.2
        (sound.image_apart free) (held success) placed trivial counters
    · refine sound.aside (r := ⟨.image, base, file.imageSize / pageSize⟩) mapped kept.1 ?_ ?_ placed
        counters
      · rw [kept.2]
        exact fun _ member => List.mem_cons_of_mem _ member
      · rw [kept.2]
        exact fun _ _ => List.mem_cons_self

theorem SpaceSound.other (sound : SpaceSound s) {va n : Nat}
    (step : SpaceStep s (.other va n) u) : SpaceSound u := by
  obtain ⟨done, vm, pages, space, live, others⟩ := step
  obtain ⟨mapped, _, _⟩ := mapNewPages_spec _ sound.tree pages
  have vm' : u.vm = vm := by rw [Space.vm, space]; rfl
  rw [← vm'] at mapped
  refine sound.aside (r := ⟨.other, va, n⟩) mapped live ?_ ?_ ?_ ?_
  · rw [others]
    exact fun _ member => List.mem_cons_of_mem _ member
  · rw [others]
    exact fun _ _ => List.mem_cons_self
  · rw [space]
    exact sound.placed
  · rw [space]
    exact sound.counters.withVm vm

theorem SpaceSound.take (sound : SpaceSound s) {frames : List Mm.Word}
    (step : SpaceStep s (.take frames) u) : SpaceSound u := by
  obtain ⟨fewer, live, others, space⟩ := step
  have mapped : PagesMapped 0 0 s.vm u.vm := by
    rw [Space.vm, Space.vm, space]
    exact ⟨sound.tree.fewer fewer, fun _ h => h, fun _ h => Or.inl h, fewer,
      fun _ _ e _ entry large => ⟨e, entry, large⟩, fun _ h => h⟩
  refine sound.aside (r := ⟨.other, 0, 0⟩) mapped live ?_ (fun none => absurd rfl none) ?_ ?_
  · rw [others]
    exact fun _ member => member
  · rw [space]
    exact sound.placed
  · rw [space]
    exact sound.counters.withVm _

theorem SpaceSound.step {op : SpaceOp} (sound : SpaceSound s)
    (step : ClearStep s op u) : SpaceSound u := by
  obtain ⟨clear, step⟩ := step
  cases op with
  | allocate size => exact sound.allocate clear step
  | createThread writable created => exact sound.createThread clear step
  | claimStack => exact sound.claimStack clear step
  | load rounds file base => exact sound.load step
  | other va n => exact sound.other step
  | take frames => exact sound.take step

theorem SpaceStart.sound (start : SpaceStart s) : SpaceSound s := by
  obtain ⟨tree, empty, alloc, thread, callback, live, others⟩ := start
  obtain ⟨small, unmapped⟩ := Mm.unmapped_of_empty empty
  refine ⟨tree, small, ?_, ?_, ?_, ?_, ?_, ?_, ?_⟩
  · intro _ va user mapped
    refine absurd ((isMapped_iff _ _).mp mapped) (unmapped _ ?_)
    simp only [BitVec.toNat_ofNat, mmUserMax] at user ⊢
    omega
  · rw [live]
    exact List.Pairwise.nil
  · rw [live]
    exact fun _ member => absurd member List.not_mem_nil
  · rw [live]
    exact fun _ member => absurd member List.not_mem_nil
  · rw [alloc]
    decide
  · rw [thread]
    decide
  · rw [callback]
    decide

/-- Every call of the loader that returns is a step. -/
theorem load_is_step {rounds : Nat} {file : Ldr.PeFile} {r : Ldr.MapResult}
    (step : Ldr.ldrpMapImage rounds s.space.ldr file = some r) :
    ∃ base u, SpaceStep s (.load rounds file base) u ∧
      u.space = { s.space with ldr := r.state } := by
  rcases Ldr.ldrpMapImage_mapsFree step with same | ⟨base, status, free, pages⟩
  · exact ⟨0, ⟨_, s.live, s.others⟩, ⟨r, step, rfl, Or.inl ⟨same, rfl, rfl⟩⟩, rfl⟩
  · by_cases success : status = statusSuccess
    · refine ⟨base, ⟨_, ⟨.image, base, file.imageSize / pageSize⟩ :: s.live, s.others⟩,
        ⟨r, step, rfl, Or.inr ⟨status, free, pages, ?_⟩⟩, rfl⟩
      rw [if_pos success]
      exact ⟨rfl, rfl⟩
    · refine ⟨base, ⟨_, s.live, ⟨.image, base, file.imageSize / pageSize⟩ :: s.others⟩,
        ⟨r, step, rfl, Or.inr ⟨status, free, pages, ?_⟩⟩, rfl⟩
      rw [if_neg success]
      exact ⟨rfl, rfl⟩

/-- A clear range of an area is not mapped while there are frames. -/
theorem SpaceSound.fresh (sound : SpaceSound s) {r : Region} (clear : r.Clear s)
    (before : ∀ x ∈ s.live, x.owner = r.owner → x.base + x.pages * pageSize ≤ r.base)
    (frames : r.pages ≠ 0 → s.vm.frames ≠ []) : ∀ i < r.pages,
      Mm.mmGetPhysicalAddress s.vm (BitVec.ofNat 64 (r.base + i * pageSize)) = Mm.invalidPhys := by
  intro i hi
  have free := sound.free (frames (Nat.ne_zero_of_lt hi)) clear.below
    (SpaceSound.area_apart clear before) clear.others i hi
  simpa [isMapped] using free

/-- In every run whose ranges are clear, what `NtAllocateVirtualMemory` and
`map_user_pages` hand out was not mapped before, and all ranges lie apart. -/
theorem user_regions_fresh {s : Space} (run : Runs.Reachable SpaceStart ClearStep s) :
    (∀ size base out u, (s.nextAlloc size).Clear s →
      ntAllocateVirtualMemory (some size) s.space = some (statusSuccess, base, out, u) →
      base + bytesToPages size * pageSize ≤ mmUserMax ∧ ∀ i < bytesToPages size,
        Mm.mmGetPhysicalAddress s.vm (BitVec.ofNat 64 (base + i * pageSize)) = Mm.invalidPhys) ∧
    (∀ writable created status stack teb u, s.nextStack.Clear s → s.nextTeb.Clear s →
      ntCreateThreadEx writable created s.space = some (status, stack, teb, u) →
      (stack ≠ 0 → ∀ i < threadStackPages,
        Mm.mmGetPhysicalAddress s.vm (BitVec.ofNat 64 (stack + i * pageSize)) = Mm.invalidPhys) ∧
      (teb ≠ 0 → ∀ i < processTebSize / pageSize,
        Mm.mmGetPhysicalAddress s.vm (BitVec.ofNat 64 (teb + i * pageSize)) = Mm.invalidPhys)) ∧
    s.live.Pairwise Region.Apart := by
  have sound : SpaceSound s :=
    run.invariant (fun _ start => start.sound) (fun _ _ _ sound step => sound.step step)
  refine ⟨?_, ?_, sound.apart⟩
  · intro size base out u clear step
    rcases ntAllocateVirtualMemory_cases step with ⟨failed, _⟩ | ⟨n, vm, same, failed | done⟩
    · exact absurd rfl failed
    · exact absurd rfl failed.2.1
    · obtain ⟨pages, _, rfl, _⟩ := done
      obtain rfl := Option.some.inj same
      obtain ⟨_, _, frames⟩ := mapNewPages_spec _ sound.tree pages
      exact ⟨clear.below, sound.fresh clear (fun x member own => sound.alloc_before member own)
        (frames rfl)⟩
  · intro writable created status stack teb u clear₁ clear₂ step
    rcases ntCreateThreadEx_cases step with ⟨rfl, rfl, _⟩ | ⟨_, s₁, first, second⟩
    · exact ⟨fun wrong => absurd rfl wrong, fun wrong => absurd rfl wrong⟩
    · obtain ⟨sound₁, spent, given⟩ := sound.userPages (r := s.nextStack) rfl rfl clear₁ first
      have before : ∀ x ∈ s.live, x.owner = .thread →
          x.base + x.pages * pageSize ≤ s.space.threadVa :=
        fun x member own => sound.thread_before member own
      constructor
      · intro some_
        obtain ⟨rfl, _, frames⟩ := given some_
        exact sound.fresh clear₁ before frames
      · intro teb_
        by_cases none : stack = 0
        · obtain ⟨vm, failed | done⟩ := mapUserPages_cases second
          · exact absurd failed.2.1 teb_
          · obtain ⟨_, _, frames⟩ := mapNewPages_spec _ sound₁.tree done.1
            exact absurd (spent none) (frames rfl (by decide))
        · obtain ⟨_, next, frames⟩ := given none
          obtain ⟨_, _, given₂⟩ := sound₁.userPages (r := s.nextTeb) rfl next
            (clear₂.afterStack s₁ stack) second
          obtain ⟨rfl, _, _⟩ := given₂ teb_
          exact sound.fresh clear₂
            (fun x member own => Nat.le_trans (before x member own) (Nat.le_add_right _ _))
            (fun _ => frames (show threadStackPages ≠ 0 by decide))

def emptyUserSpace : Space := ⟨freshUserSpace, [], []⟩

theorem emptyUserSpace_start : SpaceStart emptyUserSpace := by
  refine ⟨Ldr.emptySpace_tree, ?_, rfl, rfl, rfl, rfl, rfl⟩
  intro i _
  show Mm.isPresent (TableTree.fill (fun _ _ => 0) 0x1000#64 0 0x1000#64 i) = false
  rw [TableTree.fill_apply, if_pos rfl]
  exact Mm.isPresent_zero

/-- A page and an image are handed out, and then the next page. -/
theorem user_regions_fresh_after_image : ∃ s out u, Runs.Reachable SpaceStart ClearStep s ∧
    s.live.map Region.owner = [.image, .alloc] ∧
    ntAllocateVirtualMemory (some 0x1000) s.space = some (statusSuccess, 0x20001000, out, u) ∧
    Mm.mmGetPhysicalAddress s.vm 0x20001000#64 = Mm.invalidPhys := by
  have returns : ((ntAllocateVirtualMemory (some 0x1000) emptyUserSpace.space).bind fun a =>
      (Ldr.ldrpMapImage 1 a.2.2.2.ldr (Ldr.plainImage 0x400000 0x1000 0 328)).bind fun r =>
        (ntAllocateVirtualMemory (some 0x1000) { a.2.2.2 with ldr := r.state }).map fun b =>
          ((a.1, a.2.2.2.userAllocNext), (r.status, r.base), b.1, b.2.1)) =
      some ((0, 0x20001000), (some 0, 0x400000), 0, 0x20001000) := by
    decide +kernel
  obtain ⟨⟨status, base, out, u⟩, first, returns⟩ := Option.bind_eq_some_iff.mp returns
  obtain ⟨r, load, returns⟩ := Option.bind_eq_some_iff.mp returns
  obtain ⟨⟨status', base', out', v⟩, second, values⟩ := Option.map_eq_some_iff.mp returns
  simp only [Prod.mk.injEq] at values
  obtain ⟨⟨rfl, next⟩, ⟨success, image⟩, rfl, rfl⟩ := values
  have placed := Ldr.ldrpMapImage_placed load success
  have pages : (Ldr.plainImage 0x400000 0x1000 0 328).imageSize / pageSize = 1 := by decide +kernel
  have run : Runs.Reachable SpaceStart ClearStep ⟨u, [⟨.alloc, 0x20000000, 1⟩], []⟩ := by
    refine (Runs.Reachable.of_initial emptyUserSpace_start).next (l := .allocate (some 0x1000))
      ⟨?_, _, _, _, first, rfl, rfl⟩
    rintro n ⟨rfl⟩
    exact ⟨by decide, fun _ member => absurd member List.not_mem_nil,
      fun _ member => absurd member List.not_mem_nil⟩
  have run := run.next (t := ⟨{ u with ldr := r.state },
    [⟨.image, 0x400000, 1⟩, ⟨.alloc, 0x20000000, 1⟩], []⟩)
    (l := .load 1 (Ldr.plainImage 0x400000 0x1000 0 328) 0x400000) (by
      have free := Ldr.ChosenBase.free placed.base
      have mapped := placed.pages
      rw [image] at free mapped
      refine ⟨trivial, r, load, rfl, .inr ⟨statusSuccess, free, mapped, ?_⟩⟩
      rw [if_pos rfl, pages]
      exact ⟨rfl, rfl⟩)
  refine ⟨_, out', v, run, rfl, second, ?_⟩
  have here : Space.nextAlloc ⟨{ u with ldr := r.state },
      [⟨.image, 0x400000, 1⟩, ⟨.alloc, 0x20000000, 1⟩], []⟩ 0x1000 = ⟨.alloc, 0x20001000, 1⟩ :=
    congrArg (Region.mk .alloc · 1) next
  refine ((user_regions_fresh run).1 0x1000 _ _ _ ?_ second).2 0 (by decide)
  rw [here]
  refine ⟨by decide, ?_, fun _ member => absurd member List.not_mem_nil⟩
  simp only [List.forall_mem_cons, Region.Apart]
  decide

/-- An image that asks for the base 0x20000000 gets it, and the first allocation
is put over it. -/
theorem allocation_over_image : ∃ s base out u, Runs.Reachable SpaceStart SpaceStep s ∧
    ntAllocateVirtualMemory (some 0x1000) s.space = some (statusSuccess, base, out, u) ∧
    Mm.mmGetPhysicalAddress s.vm (BitVec.ofNat 64 base) ≠ Mm.invalidPhys := by
  have returns : ((Ldr.ldrpMapImage 1 Ldr.noImages (Ldr.plainImage 0x20000000 0x1000 0 328)).bind
      fun r => (ntAllocateVirtualMemory (some 0x1000)
        { emptyUserSpace.space with ldr := r.state }).map
          fun x => (x.1, x.2.1, isMapped r.state.vm 0x20000000)) =
      some (statusSuccess, 0x20000000, true) := by decide +kernel
  obtain ⟨r, load, returns⟩ := Option.bind_eq_some_iff.mp returns
  obtain ⟨⟨status, base, out, u⟩, step, values⟩ := Option.map_eq_some_iff.mp returns
  simp only [Prod.mk.injEq] at values
  obtain ⟨rfl, rfl, mapped⟩ := values
  obtain ⟨at_, s, edge, space⟩ := load_is_step (s := emptyUserSpace) load
  have run : Runs.Reachable SpaceStart SpaceStep s :=
    (Runs.Reachable.of_initial emptyUserSpace_start).next edge
  refine ⟨s, _, out, u, run, by rw [space]; exact step, ?_⟩
  rw [Space.vm, space]
  exact (isMapped_iff _ _).mp mapped

end Ps
