import Mathlib.Tactic.Linarith
import Svindows.Io.FatEnds

/-!
# What a loaded file holds

`FatLoadFile` leaves its copy loop when the size is reached, but also when the
chain ends before, and a FAT sector that cannot be read looks like the end of the
chain; the rest of the buffer is then what the pool block held. Free and reserved
cluster numbers are followed like any other. A read of a data cluster that fails
is an error, and every error frees what was allocated.
-/

namespace Io

open Nt ByteMemory Rtl

/-- The bytes of a cluster. -/
def clusterBytes (h : Host) (v : FatVolume) (cluster : Nat) : Memory := fun i =>
  h.byte (clusterToLba v cluster % 2 ^ 28 * ataSectorSize + i)

/-- The FAT entry of a cluster. -/
def fatEntry (h : Host) (v : FatVolume) (cluster : Nat) : Nat :=
  load (fun i => h.byte (wrap32 (v.fatStartLba + wrap32 (cluster * 4) / ataSectorSize) % 2 ^ 28 *
    ataSectorSize + i)) (wrap32 (cluster * 4) % ataSectorSize) 4 % 2 ^ 28

/-- The `k`-th cluster from `c` on, if the first read there is the `t`-th. -/
def clusterAt (h : Host) (v : FatVolume) (c t k : Nat) : Nat := ((dirNext h v)^[k] (c, t)).1

variable {h : Host} {v : FatVolume} {c t k : Nat}

theorem dirNext_iterate (h : Host) (v : FatVolume) (c t k : Nat) :
    (dirNext h v)^[k] (c, t) = (clusterAt h v c t k, t + 2 * k) := by
  induction k with
  | zero => rfl
  | succ k ih =>
    refine Prod.ext rfl ?_
    rw [Function.iterate_succ_apply', ih, dirNext]
    dsimp only
    omega

theorem clusterAt_succ (h : Host) (v : FatVolume) (c t k : Nat) :
    clusterAt h v c t (k + 1) = fatNextCluster h v (t + 2 * k + 1) (clusterAt h v c t k) := by
  rw [clusterAt, Function.iterate_succ_apply', dirNext_iterate]
  rfl

/-- The read of the `k`-th cluster. -/
def readAt (h : Host) (v : FatVolume) (c t k : Nat) : Option Memory :=
  readCluster h v (t + 2 * k) (clusterAt h v c t k)

theorem readAt_some {buf : Memory} (read : readAt h v c t k = some buf) :
    buf = clusterBytes h v (clusterAt h v c t k) := by
  simp only [readAt, readCluster, ataReadSectors] at read
  split at read
  · cases read
  · exact (Option.some.inj read).symm

/-- The copy loop behind its `k`-th turn, for a file of `size` bytes in a buffer that
held `g`. -/
structure Copied (h : Host) (v : FatVolume) (c t size : Nat) (g : Memory) (k : Nat)
    (s : CopyState) : Prop where
  cluster : s.cluster = clusterAt h v c t k
  reads : s.reads = t + 2 * k
  pos : s.pos = min size (k * v.bytesPerCluster)
  remaining : s.remaining = size - s.pos
  going : ∀ j < k, j * v.bytesPerCluster < size ∧ clusterAt h v c t j < fatEoc ∧
    readAt h v c t j ≠ none
  copied : ∀ i, i < s.pos → s.buffer i =
    clusterBytes h v (clusterAt h v c t (i / v.bytesPerCluster)) (i % v.bytesPerCluster)
  rest : ∀ i, s.pos ≤ i → s.buffer i = g i

variable {size : Nat} {g : Memory} {s s' : CopyState}

theorem Copied.start (h : Host) (v : FatVolume) (c t size : Nat) (g : Memory) :
    Copied h v c t size g 0 ⟨c, 0, size, g, t⟩ where
  cluster := rfl
  reads := rfl
  pos := by simp
  remaining := rfl
  going := by simp
  copied := by simp
  rest := fun _ _ => rfl

/-- A turn of the loop that goes on. -/
theorem copyStep_inr (goes : copyStep h v s = .inr s') :
    s.cluster < fatEoc ∧ s.remaining ≠ 0 ∧ ∃ chunk, readCluster h v s.reads s.cluster = some chunk ∧
      s' = { cluster := fatNextCluster h v (s.reads + 1) s.cluster
             pos := s.pos + min s.remaining v.bytesPerCluster
             remaining := s.remaining - min s.remaining v.bytesPerCluster
             buffer := copyTo s.buffer s.pos (min s.remaining v.bytesPerCluster) chunk
             reads := s.reads + 2 } := by
  have least : (if s.remaining < v.bytesPerCluster then s.remaining else v.bytesPerCluster) =
      min s.remaining v.bytesPerCluster := by split <;> omega
  simp only [copyStep, least] at goes
  split at goes
  · cases goes
  next going =>
    split at goes
    · cases goes
    next chunk read =>
      simp only [not_or, not_le] at going
      exact ⟨going.1, going.2, chunk, read, (Sum.inr.inj goes).symm⟩

/-- The bytes of the `k`-th cluster of a file. -/
theorem index_in_cluster {b i : Nat} (low : k * b ≤ i) (high : i < k * b + b) :
    i / b = k ∧ i % b = i - k * b := by
  have quotient : i / b = k := Nat.div_eq_of_lt_le low (by rw [Nat.succ_mul]; exact high)
  have split := Nat.mod_add_div i b
  rw [quotient, Nat.mul_comm] at split
  exact ⟨quotient, by omega⟩

/-- Where the loop goes on, the state is behind one more turn. -/
theorem Copied.step (at_k : Copied h v c t size g k s) (goes : copyStep h v s = .inr s') :
    Copied h v c t size g (k + 1) s' := by
  obtain ⟨chain, left, chunk, read, rfl⟩ := copyStep_inr goes
  obtain ⟨cluster, reads, pos, remaining, going, copied, rest⟩ := at_k
  rw [cluster, reads] at read
  rw [cluster] at chain
  have here : readAt h v c t k = some chunk := read
  have begun : k * v.bytesPerCluster < size := by omega
  have start : s.pos = k * v.bytesPerCluster := by omega
  refine ⟨?_, by simp only [reads]; omega, ?_, by dsimp only; omega, ?_, ?_, ?_⟩
  · simp only [cluster, reads, clusterAt_succ]
  · simp only [Nat.succ_mul]
    omega
  · intro j hj
    rcases Nat.lt_succ_iff_lt_or_eq.mp hj with before | rfl
    · exact going j before
    · exact ⟨begun, chain, by simp [here]⟩
  · intro i hi
    dsimp only at hi ⊢
    simp only [copyTo]
    by_cases old : i < s.pos
    · rw [if_neg (by omega)]
      exact copied i old
    · obtain ⟨quotient, offset⟩ := index_in_cluster (k := k) (b := v.bytesPerCluster) (i := i)
        (by omega) (by omega)
      rw [if_pos (by omega), readAt_some here, quotient, offset, start]
  · intro i hi
    dsimp only at hi ⊢
    simp only [copyTo]
    rw [if_neg (by omega)]
    exact rest i (by omega)

variable {fuel : Nat} {r : Option Memory × Nat} {name : CString} {s₁ : IoState}

/-- The loop is left because a cluster cannot be read, or because the chain or the file
has come to its end. -/
theorem Copied.exit (copied : Copied h v c t size g k s) (exit : copyStep h v s = .inl r) :
    (r.1 = none ∧ k * v.bytesPerCluster < size ∧ clusterAt h v c t k < fatEoc ∧
      readAt h v c t k = none) ∨
    (r.1 = some s.buffer ∧ (fatEoc ≤ clusterAt h v c t k ∨ size ≤ k * v.bytesPerCluster)) := by
  have cluster := copied.cluster
  have reads := copied.reads
  have pos := copied.pos
  have remaining := copied.remaining
  simp only [copyStep] at exit
  split at exit
  next done =>
    cases exit
    refine Or.inr ⟨rfl, done.imp (fun mark => cluster ▸ mark) ?_⟩
    intro none_left
    omega
  next going =>
    simp only [not_or, not_le] at going
    split at exit
    next failed =>
      cases exit
      rw [cluster, reads] at failed
      exact Or.inl ⟨rfl, by omega, cluster ▸ going.1, failed⟩
    · cases exit

/-- The root directory in cluster 2: a file `A` of 600 bytes that starts in cluster 3. -/
def oneFileRoot : Memory := fun k =>
  if k = 0 then 65 else if k < 11 then space else if k = 11 then 0x20
  else if k = 26 then 3 else if k = 28 then 0x58 else if k = 29 then 0x02 else 0

/-- A disk with that directory, and the entry that the FAT has for cluster 3. -/
def oneFileHost (next : Nat) : Host where
  byte a :=
    if a < 512 then bootSector a
    else if a < 1024 then
      (if a = 524 then next.toUInt8 else if a = 527 then (next / 2 ^ 24).toUInt8
        else if 520 ≤ a ∧ a < 532 then (if a % 4 = 3 then 0x0F else if a < 524 ∨ 528 ≤ a then 0xFF
          else (next / 256).toUInt8) else 0)
    else if a < 1536 then oneFileRoot (a - 1024) else 7
  fails _ _ := false
  grants _ := true
  garbage _ _ := 0

def fileA : CString := .lit "a"

end Io
