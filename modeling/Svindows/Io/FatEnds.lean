import Svindows.Io.Fat

/-!
# When the FAT driver returns

Every call follows the clusters of the root directory until an end mark in the
FAT, a read that fails, or an entry that ends the directory. A chain without any
of these has no end, and a search for a name that matches nothing follows it
forever. Behind the search the copy loop always ends.
-/

namespace Io

open Nt ByteMemory Rtl

/-- The next cluster of a directory, and the number of its read. -/
def dirNext (h : Host) (v : FatVolume) (s : Nat × Nat) : Nat × Nat :=
  (fatNextCluster h v (s.2 + 1) s.1, s.2 + 2)

/-- A directory ends at this cluster: an end mark, a failed read or an end entry. -/
def DirStops (h : Host) (v : FatVolume) (s : Nat × Nat) : Prop :=
  fatEoc ≤ s.1 ∨ readCluster h v s.2 s.1 = none ∨
    ∃ buf, readCluster h v s.2 s.1 = some buf ∧ ∃ e ∈ dirents v buf, e 0 = 0

/-- The chain of the root directory comes to an end. -/
def RootEnds (h : Host) (v : FatVolume) (reads : Nat) : Prop :=
  ∃ k, DirStops h v ((dirNext h v)^[k] (v.rootCluster, reads))

variable {h : Host} {v : FatVolume} {name : CString} {l l' : Lfn}

theorem see_stop_iff {e : Dirent} : see l e = .stop ↔ e 0 = 0 := by
  simp only [see]
  constructor
  · intro stop
    by_contra nonzero
    rw [if_neg nonzero] at stop
    split at stop
    · cases stop
    · split at stop <;> cases stop
  · intro zero
    rw [if_pos zero]

/-- A scan that goes on has not met the end of the directory. -/
theorem findIn_more {es : List Dirent} (h : findIn name es l = .more l') :
    ∀ e ∈ es, e 0 ≠ 0 := by
  induction es generalizing l with
  | nil => simp
  | cons e es ih =>
    simp only [findIn] at h
    have head : e 0 ≠ 0 := by
      intro zero
      rw [see_stop_iff.mpr zero] at h
      cases h
    have tail : ∀ e' ∈ es, e' 0 ≠ 0 := by
      split at h
      · cases h
      · exact ih h
      · split at h
        · cases h
        · exact ih h
    exact List.forall_mem_cons.mpr ⟨head, tail⟩

theorem enumerateIn_more {wanted seen seen' : Nat} {es : List Dirent}
    (h : enumerateIn wanted es l seen = .more l' seen') : ∀ e ∈ es, e 0 ≠ 0 := by
  induction es generalizing l seen with
  | nil => simp
  | cons e es ih =>
    simp only [enumerateIn] at h
    have head : e 0 ≠ 0 := by
      intro zero
      rw [see_stop_iff.mpr zero] at h
      cases h
    have tail : ∀ e' ∈ es, e' 0 ≠ 0 := by
      split at h
      · cases h
      · exact ih h
      · split at h
        · exact ih h
        · split at h
          · exact ih h
          · cases h
    exact List.forall_mem_cons.mpr ⟨head, tail⟩

/-- A scan for a name that matches nothing only stops at the end of the directory. -/
theorem findIn_unmatched (never : ∀ l e, isMatch name l e = false) {es : List Dirent}
    (unended : ∀ e ∈ es, e 0 ≠ 0) (l : Lfn) : ∃ l', findIn name es l = .more l' := by
  induction es generalizing l with
  | nil => exact ⟨l, rfl⟩
  | cons e es ih =>
    have rest := ih fun e' he' => unended e' (List.mem_cons_of_mem e he')
    simp only [findIn]
    split
    next stop => exact absurd (see_stop_iff.mp stop) (unended e List.mem_cons_self)
    next l₁ _ => exact rest l₁
    next =>
      rw [never l e]
      exact rest l.forget

theorem equalCi_length {as bs : List UInt8} (h : equalCi as bs = true) :
    as.length = bs.length := by
  induction as generalizing bs with
  | nil =>
    cases bs with
    | nil => rfl
    | cons b bs => cases h
  | cons a as ih =>
    cases bs with
    | nil => cases h
    | cons b bs =>
      simp only [equalCi] at h
      split at h
      · cases h
      · exact congrArg (· + 1) (ih h)

/-- 261 times the letter A. -/
def endlessName : CString where
  bytes := List.replicate 261 65
  noNul h := absurd (List.eq_of_mem_replicate h) (by decide)

theorem endlessName_unmatched (l : Lfn) (e : Dirent) : isMatch endlessName l e = false := by
  have length : endlessName.bytes.length = 261 := List.length_replicate
  have short : nameIs83 endlessName = false := rfl
  have long : nameEqualCi l.string endlessName = false := by
    cases equal : nameEqualCi l.string endlessName with
    | false => rfl
    | true =>
      have same : l.string.bytes.length = endlessName.bytes.length := equalCi_length equal
      have bound : l.string.bytes.length ≤ 260 := by
        refine (List.takeWhile_sublist _).length_le.trans ?_
        simp
      omega
  simp [isMatch, long, short]

/-- The walk along a directory that both searches make. -/
def walkStep (h : Host) (v : FatVolume) (s : Nat × Nat) : Unit ⊕ (Nat × Nat) :=
  if fatEoc ≤ s.1 then .inl ()
  else
    match readCluster h v s.2 s.1 with
    | none => .inl ()
    | some buf => if (dirents v buf).any fun e => e 0 == 0 then .inl () else .inr (dirNext h v s)

/-- Where no entry ends the directory, the walk goes on. -/
theorem walkStep_of_unended {s : Nat × Nat} {buf : Memory} (chain : ¬ fatEoc ≤ s.1)
    (read : readCluster h v s.2 s.1 = some buf) (unended : ∀ e ∈ dirents v buf, e 0 ≠ 0) :
    walkStep h v s = .inr (dirNext h v s) := by
  have none_ends : ((dirents v buf).any fun e => e 0 == 0) = false := by
    rw [List.any_eq_false]
    intro e he
    simpa using unended e he
  simp [walkStep, chain, read, none_ends]

/-- And where it goes on, no entry does. -/
theorem walkStep_inr {s t : Nat × Nat} (goes : walkStep h v s = .inr t) :
    ¬ fatEoc ≤ s.1 ∧ t = dirNext h v s ∧
      ∃ buf, readCluster h v s.2 s.1 = some buf ∧ ∀ e ∈ dirents v buf, e 0 ≠ 0 := by
  simp only [walkStep] at goes
  split at goes
  · cases goes
  next chain =>
    split at goes
    · cases goes
    next buf read =>
      split at goes
      · cases goes
      next unended =>
        cases goes
        refine ⟨chain, rfl, buf, read, ?_⟩
        intro e he zero
        exact unended (List.any_eq_true.mpr ⟨e, he, by simpa using zero⟩)

theorem walk_ends_iff (h : Host) (v : FatVolume) (s : Nat × Nat) :
    Loop.Ends (walkStep h v) s ↔ ∃ k, DirStops h v ((dirNext h v)^[k] s) := by
  refine Loop.ends_iff_iterate ?_ ?_ s
  · intro s goes
    simp only [DirStops, not_or, not_exists, not_and] at goes
    obtain ⟨chain, readable, unended⟩ := goes
    cases read : readCluster h v s.2 s.1 with
    | none => exact absurd read readable
    | some buf => exact walkStep_of_unended chain read (unended buf read)
  · intro s stops
    cases step : walkStep h v s with
    | inl r => exact ⟨r, rfl⟩
    | inr t =>
      obtain ⟨chain, -, buf, read, unended⟩ := walkStep_inr step
      rcases stops with mark | failed | ⟨buf', read', e, he, zero⟩
      · exact absurd mark chain
      · rw [read] at failed
        cases failed
      · rw [read] at read'
        cases read'
        exact absurd zero (unended e he)

/-- A search goes on only along the walk. -/
theorem fatFindStep_inr {s t : FindState} (goes : fatFindStep h v name s = .inr t) :
    walkStep h v (s.cluster, s.reads) = .inr (t.cluster, t.reads) := by
  simp only [fatFindStep] at goes
  split at goes
  · cases goes
  next chain =>
    split at goes
    · cases goes
    next buf read =>
      split at goes
      · cases goes
      · cases goes
      next l' more =>
        cases goes
        exact walkStep_of_unended chain read (findIn_more more)

theorem fatEnumerateStep_inr {wanted : Nat} {s t : EnumerateState}
    (goes : fatEnumerateStep h v wanted s = .inr t) :
    walkStep h v (s.cluster, s.reads) = .inr (t.cluster, t.reads) := by
  simp only [fatEnumerateStep] at goes
  split at goes
  · cases goes
  next chain =>
    split at goes
    · cases goes
    next buf read =>
      split at goes
      · cases goes
      · cases goes
      next l' seen more =>
        cases goes
        exact walkStep_of_unended chain read (enumerateIn_more more)

/-- A search for a name that matches nothing follows the walk all the way. -/
theorem fatFindStep_unmatched (never : ∀ l e, isMatch name l e = false) {s : FindState}
    {t : Nat × Nat} (goes : walkStep h v (s.cluster, s.reads) = .inr t) :
    ∃ s', fatFindStep h v name s = .inr s' ∧ (s'.cluster, s'.reads) = t := by
  obtain ⟨chain, rfl, buf, read, unended⟩ := walkStep_inr goes
  obtain ⟨l', more⟩ := findIn_unmatched never unended s.lfn
  have chain' : ¬ fatEoc ≤ s.cluster := chain
  have read' : readCluster h v s.reads s.cluster = some buf := read
  refine ⟨⟨fatNextCluster h v (s.reads + 1) s.cluster, l', s.reads + 2⟩, ?_, rfl⟩
  simp [fatFindStep, chain', read', more]

theorem find_ends {reads : Nat} (ends : RootEnds h v reads) (name : CString) :
    Loop.Ends (fatFindStep h v name) ⟨v.rootCluster, .start, reads⟩ := by
  refine Loop.Ends.of_follows (fun s s' => (s.cluster, s.reads) = s') ?_ rfl
    ((walk_ends_iff h v _).mpr ends)
  rintro s _ t rfl goes
  exact ⟨_, fatFindStep_inr goes, rfl⟩

theorem enumerate_ends {reads : Nat} (ends : RootEnds h v reads) (wanted : Nat) :
    Loop.Ends (fatEnumerateStep h v wanted) ⟨v.rootCluster, .start, 0, reads⟩ := by
  refine Loop.Ends.of_follows (fun s s' => (s.cluster, s.reads) = s') ?_ rfl
    ((walk_ends_iff h v _).mpr ends)
  rintro s _ t rfl goes
  exact ⟨_, fatEnumerateStep_inr goes, rfl⟩

theorem rootEnds_of_find {reads : Nat} (never : ∀ l e, isMatch name l e = false)
    (ends : Loop.Ends (fatFindStep h v name) ⟨v.rootCluster, .start, reads⟩) :
    RootEnds h v reads := by
  refine (walk_ends_iff h v _).mp
    (Loop.Ends.of_follows (fun s s' => s = (s'.cluster, s'.reads)) ?_ rfl ends)
  rintro _ s t rfl goes
  obtain ⟨s', found, rfl⟩ := fatFindStep_unmatched never goes
  exact ⟨s', found, rfl⟩

/-- The copy loop ends on every chain: each turn copies something. -/
theorem copy_ends (h : Host) (nonempty : 0 < v.sectorsPerCluster) (s : CopyState) :
    Loop.Ends (copyStep h v) s := by
  refine .of_measure (fun s => s.remaining) ?_ s
  intro s t goes
  simp only [copyStep] at goes
  split at goes
  · cases goes
  next going =>
    split at goes
    · cases goes
    next chunk read =>
      cases goes
      have bytes : 0 < v.bytesPerCluster := Nat.mul_pos nonempty (by decide)
      dsimp only
      split <;> omega

theorem fatFind_returns {s : IoState} (name : CString)
    (ends : h.grants s.allocs = false ∨ RootEnds h v s.reads) :
    ∃ fuel r, ∀ more, fatFind h v (fuel + more) v.rootCluster name s = some r := by
  cases grant : h.grants s.allocs with
  | false => exact ⟨0, _, fun _ => fatFind_refused grant _ _ name⟩
  | true =>
    obtain ⟨fuel, r, run⟩ := find_ends (by simpa [grant] using ends) name
    refine ⟨fuel, (r.1, exFreePool { s.granted with reads := r.2 } s.allocs), fun more => ?_⟩
    rw [fatFind_granted grant, Loop.run_mono run more]
    rfl

theorem fatFind_found {fuel : Nat} {s s' : IoState} {e : Dirent}
    (found : fatFind h v fuel v.rootCluster name s = some (some e, s')) :
    0 < v.sectorsPerCluster := by
  cases grant : h.grants s.allocs with
  | false =>
    rw [fatFind_refused grant] at found
    cases found
  | true =>
    rw [fatFind_granted grant] at found
    obtain ⟨r, run, result⟩ := Option.map_eq_some_iff.mp found
    obtain ⟨t, -, exit⟩ := Loop.run_invariant (fun _ => True) (fun _ _ _ _ => trivial)
      trivial run
    by_contra none_
    have unreadable : readCluster h v t.reads t.cluster = none := by
      have zero : v.sectorsPerCluster = 0 := by omega
      simp [readCluster, ataReadSectors, zero]
    simp only [fatFindStep, unreadable] at exit
    split at exit <;> cases exit <;> cases result

theorem loadEntry_returns (h : Host) (nonempty : 0 < v.sectorsPerCluster) (name : CString)
    (e : Dirent) (s : IoState) :
    ∃ fuel r, ∀ more, loadEntry h v (fuel + more) name e s = some r := by
  by_cases grants : h.grants s.allocs = true ∧ h.grants (s.allocs + 1) = true
  · obtain ⟨fuel, r, run⟩ := copy_ends h nonempty
      ⟨e.firstCluster, 0, e.fileSize, h.garbage s.allocs, s.reads⟩
    refine ⟨fuel, loadResult name e s r, fun more => ?_⟩
    rw [loadEntry_granted grants.1 grants.2, Loop.run_mono run more]
    rfl
  · obtain ⟨s', refused, -⟩ := loadEntry_refused (v := v) grants name e
    exact ⟨0, _, fun more => refused (0 + more)⟩

theorem fatLoadFile_returns {s : IoState} (name : CString)
    (ends : h.grants s.allocs = false ∨ RootEnds h v s.reads) :
    ∃ fuel r, fatLoadFile h (some v) fuel name s = some r := by
  obtain ⟨fuel, ⟨entry, s'⟩, find⟩ := fatFind_returns name ends
  cases entry with
  | none =>
    refine ⟨fuel, (statusObjectNameNotFound, none, s'), ?_⟩
    have here := find 0
    rw [Nat.add_zero] at here
    simp [fatLoadFile, here]
  | some e =>
    obtain ⟨fuel', r, load⟩ := loadEntry_returns h (fatFind_found (find 0)) name e s'
    refine ⟨fuel + fuel', r, ?_⟩
    have loaded := load fuel
    rw [Nat.add_comm] at loaded
    simp [fatLoadFile, find fuel', loaded]

theorem fatEnumerateRoot_returns {s : IoState} (wanted : Nat)
    (ends : h.grants s.allocs = false ∨ RootEnds h v s.reads) :
    ∃ fuel r, fatEnumerateRoot h (some v) fuel wanted s = some r := by
  cases grant : h.grants s.allocs with
  | false => exact ⟨0, _, fatEnumerateRoot_refused grant _ wanted⟩
  | true =>
    obtain ⟨fuel, r, run⟩ := enumerate_ends (by simpa [grant] using ends) wanted
    refine ⟨fuel, (r.1, r.2.1, exFreePool { s.granted with reads := r.2.2 } s.allocs), ?_⟩
    rw [fatEnumerateRoot_granted grant, run]
    rfl

/-- A search for a name that matches nothing comes back only from a chain that ends. -/
theorem rootEnds_of_load {s : IoState} (never : ∀ l e, isMatch name l e = false)
    (granted : h.grants s.allocs = true)
    (returns : ∃ fuel r, fatLoadFile h (some v) fuel name s = some r) : RootEnds h v s.reads := by
  obtain ⟨fuel, r, load⟩ := returns
  simp only [fatLoadFile, fatFind_granted granted] at load
  cases run : Loop.run (fatFindStep h v name) fuel ⟨v.rootCluster, .start, s.reads⟩ with
  | none =>
    rw [run] at load
    cases load
  | some found => exact rootEnds_of_find never ⟨fuel, found, run⟩

/-- The driver returns from every call if and only if the chain of the root directory
comes to an end mark, a failed read or an end entry, or there is no memory to begin. -/
theorem fat_driver_returns_iff (h : Host) (v : FatVolume) (s : IoState) :
    (∀ name wanted, (∃ fuel r, fatLoadFile h (some v) fuel name s = some r) ∧
      ∃ fuel r, fatEnumerateRoot h (some v) fuel wanted s = some r) ↔
    h.grants s.allocs = false ∨ RootEnds h v s.reads := by
  constructor
  · intro returns
    cases granted : h.grants s.allocs with
    | false => exact Or.inl rfl
    | true => exact Or.inr (rootEnds_of_load endlessName_unmatched granted (returns endlessName 0).1)
  · intro ends name wanted
    exact ⟨fatLoadFile_returns name ends, fatEnumerateRoot_returns wanted ends⟩

/-- A boot sector for clusters of one sector, with one FAT in sector 1 and the root
directory in cluster 2. -/
def bootSector : Memory := fun a =>
  if a = 0x0C then 2 else if a = 0x0D ∨ a = 0x0E ∨ a = 0x10 ∨ a = 0x24 then 1
  else if a = 0x2C then 2 else if a = 510 then 0x55 else if a = 511 then 0xAA else 0

/-- Behind the boot sector every byte is 2: the FAT leads from cluster 2 to cluster
0x02020202 and from there to itself, and no entry of either ends the directory. -/
def endlessHost : Host where
  byte a := if a < 512 then bootSector a else 2
  fails _ _ := false
  grants _ := true
  garbage _ _ := 0

def endlessVolume : FatVolume := ⟨1, 2, 1, 2, by decide⟩

theorem endlessHost_mounts : fatMount endlessHost 0 = (statusSuccess, some endlessVolume) := by
  decide

theorem endlessHost_read (t : Nat) {lba count : Nat} (sectors : count ≠ 0)
    (behind : 1 ≤ lba % 2 ^ 28) : ataReadSectors endlessHost t lba count = some fun _ => 2 := by
  simp only [ataReadSectors, endlessHost, sectors, Bool.false_eq_true, or_self, if_false]
  congr 1
  funext i
  rw [if_neg]
  simp only [ataSectorSize]
  omega

theorem endlessHost_next (t : Nat) {cluster : Nat} (two : cluster = 2 ∨ cluster = 0x02020202) :
    fatNextCluster endlessHost endlessVolume t cluster = 0x02020202 := by
  have fat :
      1 ≤ wrap32 (endlessVolume.fatStartLba + wrap32 (cluster * 4) / ataSectorSize) % 2 ^ 28 := by
    rcases two with rfl | rfl <;> decide
  have word : ∀ a, load (fun _ => 2) a 4 = 0x02020202 := fun a => by simp [load]
  simp only [fatNextCluster, endlessHost_read t (by decide : 1 ≠ 0) fat, word]
  decide

/-- The walk stays at its two clusters and never stops. -/
theorem endlessHost_rootEnds (reads : Nat) : ¬ RootEnds endlessHost endlessVolume reads := by
  have stays : ∀ k s, s.1 = 2 ∨ s.1 = 0x02020202 →
      ¬ DirStops endlessHost endlessVolume ((dirNext endlessHost endlessVolume)^[k] s) := by
    intro k
    induction k with
    | zero =>
      intro s two stops
      have data : 1 ≤ clusterToLba endlessVolume s.1 % 2 ^ 28 := by
        rcases two with two | two <;> rw [two] <;> decide
      have read : readCluster endlessHost endlessVolume s.2 s.1 = some fun _ => 2 :=
        endlessHost_read s.2 (by decide) data
      rcases stops with mark | failed | ⟨buf, read', e, he, zero⟩
      · have small : s.1 < fatEoc := by rcases two with two | two <;> rw [two] <;> decide
        exact absurd (show fatEoc ≤ s.1 from mark) (by omega)
      · exact absurd (read.symm.trans failed) (by simp)
      · cases Option.some.inj (read.symm.trans read')
        obtain ⟨i, -, rfl⟩ := List.mem_map.mp he
        cases zero
    | succ k ih =>
      intro s two
      exact ih (dirNext endlessHost endlessVolume s) (Or.inr (endlessHost_next (s.2 + 1) two))
  rintro ⟨k, stops⟩
  exact stays k _ (Or.inl rfl) stops

/-- A disk that is mounted, and from which a search never comes back. -/
theorem search_follows_cycle_forever :
    fatMount endlessHost 0 = (statusSuccess, some endlessVolume) ∧
      ¬ ∃ fuel r, fatLoadFile endlessHost (some endlessVolume) fuel endlessName ⟨1, 0, []⟩ =
        some r :=
  ⟨endlessHost_mounts, fun returns =>
    endlessHost_rootEnds 1 (rootEnds_of_load endlessName_unmatched rfl returns)⟩

end Io
