import Svindows.Io.FatLoad

/-!
# Finding and enumerating files

Without errors both directory scans come down to one list: the entries that are
neither deleted nor fragments of a long name, each with the long name that stands
before it. `fat_find` takes the first of them that matches a name, and
`FatEnumerateRoot` counts those that are neither directories nor volume labels.
The search does not make that exception.
-/

namespace Io

open Nt ByteMemory Rtl

/-- No read fails and no allocation is refused. -/
structure NoErrors (h : Host) : Prop where
  reads : ∀ t lba, h.fails t lba = false
  pool : ∀ n, h.grants n = true

/-- The entries of a directory that starts at cluster `c` and has at most `n` clusters. -/
def entriesFrom (h : Host) (v : FatVolume) : Nat → Nat → List Dirent
  | 0, _ => []
  | n + 1, c =>
    if fatEoc ≤ c then []
    else dirents v (clusterBytes h v c) ++ entriesFrom h v n (fatEntry h v c)

/-- The chain from `c` ends within `n` clusters. -/
def EndsWithin (h : Host) (v : FatVolume) (n c : Nat) : Prop := fatEoc ≤ (fatEntry h v)^[n] c

/-- The plain entries, each with the state of the long name before it. -/
def visible : List Dirent → Lfn → List (Lfn × Dirent)
  | [], _ => []
  | e :: es, l =>
    match see l e with
    | .stop => []
    | .skip l => visible es l
    | .plain => (l, e) :: visible es l.forget

def isFile (e : Dirent) : Bool := e.attr &&& 0x18 = 0

/-- The entries that are counted. -/
def files (entries : List (Lfn × Dirent)) : List (Lfn × Dirent) :=
  entries.filter fun p => isFile p.2

def FindScan.entry : FindScan → Option Dirent
  | .found e => some e
  | _ => none

def EnumerateScan.data : EnumerateScan → Option FindData
  | .found data => some data
  | _ => none

def EnumerateScan.status : EnumerateScan → NtStatus
  | .found _ => statusSuccess
  | _ => statusObjectNameNotFound

variable {h : Host} {v : FatVolume} {name : CString}

theorem findIn_append (xs ys : List Dirent) (l : Lfn) :
    findIn name (xs ++ ys) l =
      match findIn name xs l with
      | .more l' => findIn name ys l'
      | r => r := by
  induction xs generalizing l with
  | nil => rfl
  | cons e xs ih =>
    simp only [List.cons_append, findIn]
    cases see l e with
    | stop => rfl
    | skip l' => exact ih l'
    | plain =>
      cases isMatch name l e with
      | true => rfl
      | false => exact ih l.forget

theorem enumerateIn_append (wanted : Nat) (xs ys : List Dirent) (l : Lfn) (seen : Nat) :
    enumerateIn wanted (xs ++ ys) l seen =
      match enumerateIn wanted xs l seen with
      | .more l' seen' => enumerateIn wanted ys l' seen'
      | r => r := by
  induction xs generalizing l seen with
  | nil => rfl
  | cons e xs ih =>
    simp only [List.cons_append, enumerateIn]
    cases see l e with
    | stop => rfl
    | skip l' => exact ih l' seen
    | plain =>
      dsimp only
      split
      · exact ih _ _
      · split
        · exact ih _ _
        · rfl

/-- A search finds the first visible entry that matches. -/
theorem findIn_entry (es : List Dirent) (l : Lfn) :
    (findIn name es l).entry =
      ((visible es l).find? fun p => isMatch name p.1 p.2).map Prod.snd := by
  induction es generalizing l with
  | nil => rfl
  | cons e es ih =>
    simp only [findIn, visible]
    cases see l e with
    | stop => rfl
    | skip l' => exact ih l'
    | plain =>
      cases found : isMatch name l e with
      | true => simp [FindScan.entry, found]
      | false => simpa [found] using ih l.forget

/-- An enumeration reports the file at its index. -/
theorem enumerateIn_data {wanted : Nat} (word : wanted < 2 ^ 32) (es : List Dirent) (l : Lfn)
    {seen : Nat} (ahead : seen ≤ wanted) :
    (enumerateIn wanted es l seen).data =
      (files (visible es l))[wanted - seen]?.map fun p => findData p.1 p.2 := by
  induction es generalizing l seen with
  | nil => rfl
  | cons e es ih =>
    simp only [enumerateIn, visible]
    cases see l e with
    | stop => rfl
    | skip l' => exact ih l' ahead
    | plain =>
      by_cases file : e.attr &&& 0x18 = 0
      · simp only [file, ne_eq, not_true, if_false, files, isFile, List.filter_cons, decide_true,
          if_true]
        by_cases here : seen = wanted
        · simp [here, EnumerateScan.data]
        · have next : wrap32 (seen + 1) = seen + 1 := Nat.mod_eq_of_lt (by omega)
          have index : wanted - seen = (wanted - (seen + 1)) + 1 := by omega
          rw [if_pos here, next, ih l.forget (by omega), index]
          rfl
      · simp only [file, ne_eq, not_false_eq_true, if_true, files, isFile, List.filter_cons,
          decide_false, Bool.false_eq_true, if_false]
        exact ih l.forget ahead

theorem NoErrors.readCluster (calm : NoErrors h) (sectors : v.sectorsPerCluster ≠ 0) (t c : Nat) :
    readCluster h v t c = some (clusterBytes h v c) := by
  simp only [Io.readCluster, ataReadSectors, sectors, calm.reads, Bool.false_eq_true, or_self,
    ↓reduceIte]
  rfl

theorem NoErrors.next (calm : NoErrors h) (t c : Nat) :
    fatNextCluster h v t c = fatEntry h v c := by
  simp [fatNextCluster, ataReadSectors, calm.reads, fatEntry]

/-- The search of a chain that ends, or that has an entry that is found. -/
theorem find_run (name : CString) (calm : NoErrors h) (sectors : v.sectorsPerCluster ≠ 0)
    {n c : Nat} (l : Lfn) (t : Nat)
    (stops : EndsWithin h v n c ∨ (findIn name (entriesFrom h v n c) l).entry ≠ none) :
    ∃ t', Loop.run (fatFindStep h v name) (n + 1) ⟨c, l, t⟩ =
      some ((findIn name (entriesFrom h v n c) l).entry, t') := by
  induction n generalizing c l t with
  | zero =>
    have mark : fatEoc ≤ c := stops.resolve_right (not_not.mpr rfl)
    exact ⟨t, Loop.run_inl (by simp [fatFindStep, mark, entriesFrom, findIn, FindScan.entry]) 0⟩
  | succ n ih =>
    by_cases mark : fatEoc ≤ c
    · refine ⟨t, Loop.run_inl ?_ _⟩
      simp [fatFindStep, mark, entriesFrom, findIn, FindScan.entry]
    · simp only [entriesFrom, mark, if_false, findIn_append] at stops ⊢
      cases scan : findIn name (dirents v (clusterBytes h v c)) l with
      | done =>
        refine ⟨t + 1, Loop.run_inl ?_ _⟩
        simp [fatFindStep, mark, calm.readCluster sectors, scan, FindScan.entry]
      | found e =>
        refine ⟨t + 2, Loop.run_inl ?_ _⟩
        simp [fatFindStep, mark, calm.readCluster sectors, scan, FindScan.entry]
      | more l' =>
        have step : fatFindStep h v name ⟨c, l, t⟩ = .inr ⟨fatEntry h v c, l', t + 2⟩ := by
          simp [fatFindStep, mark, calm.readCluster sectors, scan, calm.next]
        rw [scan] at stops
        obtain ⟨t', run⟩ := ih (c := fatEntry h v c) l' (t + 2) stops
        exact ⟨t', by rw [Loop.run_inr step, run]⟩

theorem enumerate_run (calm : NoErrors h) (sectors : v.sectorsPerCluster ≠ 0) {n c : Nat}
    (wanted : Nat) (l : Lfn) (seen t : Nat)
    (stops : EndsWithin h v n c ∨ (enumerateIn wanted (entriesFrom h v n c) l seen).data ≠ none) :
    ∃ t', Loop.run (fatEnumerateStep h v wanted) (n + 1) ⟨c, l, seen, t⟩ =
      some ((enumerateIn wanted (entriesFrom h v n c) l seen).status,
        (enumerateIn wanted (entriesFrom h v n c) l seen).data, t') := by
  induction n generalizing c l seen t with
  | zero =>
    have mark : fatEoc ≤ c := stops.resolve_right (not_not.mpr rfl)
    exact ⟨t, Loop.run_inl (by simp [fatEnumerateStep, mark, entriesFrom, enumerateIn,
      EnumerateScan.data, EnumerateScan.status]) 0⟩
  | succ n ih =>
    by_cases mark : fatEoc ≤ c
    · refine ⟨t, Loop.run_inl ?_ _⟩
      simp [fatEnumerateStep, mark, entriesFrom, enumerateIn, EnumerateScan.data,
        EnumerateScan.status]
    · simp only [entriesFrom, mark, if_false, enumerateIn_append] at stops ⊢
      cases scan : enumerateIn wanted (dirents v (clusterBytes h v c)) l seen with
      | done | found data =>
        refine ⟨t + 1, Loop.run_inl ?_ _⟩
        simp [fatEnumerateStep, mark, calm.readCluster sectors, scan, EnumerateScan.data,
          EnumerateScan.status]
      | more l' seen' =>
        have step : fatEnumerateStep h v wanted ⟨c, l, seen, t⟩ =
            .inr ⟨fatEntry h v c, l', seen', t + 2⟩ := by
          simp [fatEnumerateStep, mark, calm.readCluster sectors, scan, calm.next]
        rw [scan] at stops
        obtain ⟨t', run⟩ := ih (c := fatEntry h v c) l' seen' (t + 2) stops
        exact ⟨t', by rw [Loop.run_inr step, run]⟩

/-- `fat_find` returns an entry of the root directory. -/
def Finds (h : Host) (v : FatVolume) (name : CString) (s : IoState) (e : Dirent) : Prop :=
  ∃ fuel s₁, fatFind h v fuel v.rootCluster name s = some (some e, s₁)

/-- `FatEnumerateRoot` succeeds. -/
def Reports (h : Host) (v : FatVolume) (wanted : Nat) (s : IoState) (data : FindData) : Prop :=
  ∃ fuel s₁, fatEnumerateRoot h (some v) fuel wanted s = some (statusSuccess, some data, s₁)

/-- The visible entries of a root directory of at most `n` clusters. -/
def rootVisible (h : Host) (v : FatVolume) (n : Nat) : List (Lfn × Dirent) :=
  visible (entriesFrom h v n v.rootCluster) .start

theorem entriesFrom_empty (none_ : v.sectorsPerCluster = 0) (n c : Nat) :
    entriesFrom h v n c = [] := by
  induction n generalizing c with
  | zero => rfl
  | succ n ih =>
    have empty : ∀ buf, dirents v buf = [] := by
      intro buf
      simp [dirents, FatVolume.bytesPerCluster, none_]
    simp [entriesFrom, empty, ih]

variable {n : Nat}

/-- A volume without sectors in its clusters cannot be read. -/
theorem readCluster_empty (none_ : v.sectorsPerCluster = 0) (t c : Nat) :
    readCluster h v t c = none := by
  simp [readCluster, ataReadSectors, none_]

theorem finds_iff (calm : NoErrors h) (ends : EndsWithin h v n v.rootCluster) (s : IoState)
    (e : Dirent) :
    Finds h v name s e ↔
      ((rootVisible h v n).find? fun p => isMatch name p.1 p.2).map Prod.snd = some e := by
  have grant := calm.pool s.allocs
  by_cases none_ : v.sectorsPerCluster = 0
  · simp only [rootVisible, entriesFrom_empty none_, visible, List.find?_nil, Option.map_none]
    refine iff_of_false ?_ (by simp)
    rintro ⟨fuel, s₁, find⟩
    have sectors := fatFind_found find
    omega
  · obtain ⟨t, run⟩ := find_run name calm none_ .start s.reads (.inl ends)
    rw [rootVisible, ← findIn_entry]
    constructor
    · rintro ⟨fuel, s₁, find⟩
      rw [fatFind_granted grant] at find
      obtain ⟨r, run', result⟩ := Option.map_eq_some_iff.mp find
      rw [← Loop.run_unique run run'] at result
      exact (Prod.mk.inj result).1
    · intro found
      rw [found] at run
      exact ⟨n + 1, _, by rw [fatFind_granted grant, run]; rfl⟩

theorem EnumerateScan.status_success {scan : EnumerateScan} {data : FindData}
    (found : scan.data = some data) : scan.status = statusSuccess := by
  cases scan with
  | found data => rfl
  | done => cases found
  | more l seen => cases found

theorem reports_iff (calm : NoErrors h) (ends : EndsWithin h v n v.rootCluster) {wanted : Nat}
    (word : wanted < 2 ^ 32) (s : IoState) (data : FindData) :
    Reports h v wanted s data ↔
      (files (rootVisible h v n))[wanted]?.map (fun p => findData p.1 p.2) = some data := by
  have grant := calm.pool s.allocs
  by_cases none_ : v.sectorsPerCluster = 0
  · simp only [rootVisible, entriesFrom_empty none_, visible, files, List.filter_nil,
      List.getElem?_nil, Option.map_none]
    refine iff_of_false ?_ (by simp)
    rintro ⟨fuel, s₁, report⟩
    rw [fatEnumerateRoot_granted grant] at report
    obtain ⟨r, run, result⟩ := Option.map_eq_some_iff.mp report
    obtain ⟨t, -, exit⟩ := Loop.run_invariant (fun _ => True) (fun _ _ _ _ => trivial) trivial run
    simp only [fatEnumerateStep, readCluster_empty none_] at exit
    split at exit <;> cases exit <;> cases result
  · obtain ⟨t, run⟩ := enumerate_run calm none_ wanted .start 0 s.reads (.inl ends)
    have data_eq :=
      enumerateIn_data word (entriesFrom h v n v.rootCluster) .start (Nat.zero_le wanted)
    rw [Nat.sub_zero] at data_eq
    rw [rootVisible, ← data_eq]
    constructor
    · rintro ⟨fuel, s₁, report⟩
      rw [fatEnumerateRoot_granted grant] at report
      obtain ⟨r, run', result⟩ := Option.map_eq_some_iff.mp report
      rw [← Loop.run_unique run run'] at result
      exact (Prod.mk.inj (Prod.mk.inj result).2).1
    · intro found
      rw [found, EnumerateScan.status_success found] at run
      exact ⟨n + 1, _, by rw [fatEnumerateRoot_granted grant, run]; rfl⟩

theorem equalCi_self (as : List UInt8) : equalCi as as = true := by
  induction as with
  | nil => rfl
  | cons a as ih => simp [equalCi, ih]

/-- The last byte of the buffer is never written. -/
def Lfn.Ended (l : Lfn) : Prop := l.longName 259 = 0

theorem putChars_last (out : Memory) (pos : Nat) (cs : List Nat) :
    putChars out pos cs 259 = out 259 := by
  induction cs generalizing out pos with
  | nil => rfl
  | cons c cs ih =>
    simp only [putChars]
    split
    · rfl
    next low =>
      have apart : 259 ≠ pos := by omega
      split
      · simp [apart]
      · split
        · rw [ih]
          simp [apart]
        · exact ih out (pos + 1)

theorem lfnPutFragment_last (out : Memory) (e : Dirent) : lfnPutFragment out e 259 = out 259 := by
  simp only [lfnPutFragment]
  split
  · rfl
  · exact putChars_last out _ _

theorem see_skip_ended {l l' : Lfn} {e : Dirent} (ended : l.Ended) (skip : see l e = .skip l') :
    l'.Ended := by
  have fragment : ∀ x : Lfn, x.Ended → (takeFragment x e).Ended := by
    intro x hx
    simp only [takeFragment]
    split
    · exact (lfnPutFragment_last x.longName e).trans hx
    · exact hx
  simp only [see] at skip
  split at skip
  · cases skip
  · split at skip
    · cases skip
      exact ended
    · split at skip
      · cases skip
        refine fragment _ ?_
        split
        · rfl
        · exact ended
      · cases skip

theorem visible_ended {es : List Dirent} {l : Lfn} (ended : l.Ended) :
    ∀ p ∈ visible es l, p.1.Ended := by
  induction es generalizing l with
  | nil => simp [visible]
  | cons e es ih =>
    simp only [visible]
    cases seen : see l e with
    | stop => simp
    | skip l' => exact ih (see_skip_ended ended seen)
    | plain => exact List.forall_mem_cons.mpr ⟨ended, ih ended⟩

/-- A long name fits where it is reported. -/
theorem Lfn.Ended.take_string {l : Lfn} (ended : l.Ended) : l.string.take 259 = l.string := by
  have short : l.string.bytes.length ≤ 259 := by
    by_contra long
    have whole : l.string.bytes.length = ((List.range 260).map l.longName).length := by
      have bound := (List.takeWhile_sublist (p := fun c => decide (c ≠ 0))
        (l := (List.range 260).map l.longName)).length_le
      have size : ((List.range 260).map l.longName).length = 260 := by simp
      have bytes : l.string.bytes = ((List.range 260).map l.longName).takeWhile
        fun c => decide (c ≠ 0) := rfl
      rw [bytes] at long ⊢
      omega
    have same : l.string.bytes = (List.range 260).map l.longName :=
      (List.takeWhile_sublist _).eq_of_length whole
    refine l.string.noNul ?_
    rw [same]
    exact List.mem_map.mpr ⟨259, by simp, ended⟩
  exact CString.ext (List.take_of_length_le short)

/-- A reported long name matches its own entry. -/
theorem long_name_matches {p : Lfn × Dirent} (ended : p.1.Ended) (long : p.1.haveLfn = true) :
    isMatch (findData p.1 p.2).name p.1 p.2 = true := by
  simp [isMatch, findData, long, ended.take_string, nameEqualCi, equalCi_self]

/-- A byte of a short name that `from_83` and `to_83` leave alone. -/
def Plain (c : UInt8) : Prop := c ≠ 0 ∧ c ≠ dot ∧ c ≠ space ∧ toUpper c = c

/-- A base and an extension of plain bytes, filled up with blanks. -/
def Canonical (bytes : List UInt8) : Prop :=
  ∃ base ext, base ≠ [] ∧ base.length ≤ 8 ∧ ext.length ≤ 3 ∧ (∀ c ∈ base, Plain c) ∧
    (∀ c ∈ ext, Plain c) ∧ bytes = pad 8 base ++ pad 3 ext

theorem pad_length {k : Nat} {bytes : List UInt8} (fits : bytes.length ≤ k) :
    (pad k bytes).length = k := by
  simp only [pad, List.length_append, List.length_replicate]
  omega

/-- The bytes before the blanks. -/
theorem takeWhile_pad {k : Nat} {bytes : List UInt8} (plain : ∀ c ∈ bytes, Plain c) :
    (pad k bytes).takeWhile (· ≠ space) = bytes := by
  rw [pad, List.takeWhile_append_of_pos]
  · simp
  · intro c hc
    simpa using (plain c hc).2.2.1

/-- The name that is shown for a canonical short name. -/
def shown (base ext : List UInt8) : List UInt8 := base ++ if ext = [] then [] else dot :: ext

variable {base ext : List UInt8}

theorem from83_canonical (few : base.length ≤ 8)
    (plainBase : ∀ c ∈ base, Plain c) (plainExt : ∀ c ∈ ext, Plain c) :
    (from83 (pad 8 base ++ pad 3 ext)).bytes = shown base ext := by
  have eight := pad_length few
  have front : (pad 8 base ++ pad 3 ext).take 8 = pad 8 base := List.take_left' eight
  have back : (pad 8 base ++ pad 3 ext).drop 8 = pad 3 ext := List.drop_left' eight
  simp only [from83, front, back, takeWhile_pad plainBase, takeWhile_pad plainExt, CString.ofBytes]
  refine List.takeWhile_eq_self_iff.mpr ?_
  intro c hc
  rcases List.mem_append.mp hc with inBase | inExt
  · simpa using (plainBase c inBase).1
  · split at inExt
    · cases inExt
    · rcases List.mem_cons.mp inExt with rfl | inExt
      · decide
      · simpa using (plainExt c inExt).1

theorem ne_dot (undotted : dot ∉ base) : ∀ c ∈ base, decide (c ≠ dot) = true := by
  rintro c hc
  refine decide_eq_true ?_
  rintro rfl
  exact undotted hc

theorem shown_base (undotted : dot ∉ base) (ext : List UInt8) :
    (shown base ext).takeWhile (· ≠ dot) = base := by
  rw [shown, List.takeWhile_append_of_pos (ne_dot undotted)]
  split <;> simp

theorem shown_ext (undotted : dot ∉ base) (ext : List UInt8) :
    ((shown base ext).dropWhile (· ≠ dot)).drop 1 = ext := by
  rw [shown, List.dropWhile_append_of_pos (ne_dot undotted)]
  split
  next empty => simp [empty]
  next => simp

theorem to83_parts {name : CString} (few : base.length ≤ 8)
    (fewExt : ext.length ≤ 3) (undotted : dot ∉ base) (bytes : name.bytes = shown base ext) :
    to83 name = pad 8 (base.map toUpper) ++ pad 3 (ext.map toUpper) := by
  simp only [to83, bytes, shown_base undotted, shown_ext undotted, List.take_of_length_le few,
    List.take_of_length_le fewExt]

theorem to83_shown {name : CString} (few : base.length ≤ 8)
    (fewExt : ext.length ≤ 3) (plainBase : ∀ c ∈ base, Plain c) (plainExt : ∀ c ∈ ext, Plain c)
    (bytes : name.bytes = shown base ext) : to83 name = pad 8 base ++ pad 3 ext := by
  have upper : ∀ l : List UInt8, (∀ c ∈ l, Plain c) → l.map toUpper = l := by
    intro l plain
    exact (List.map_congr_left fun c hc => (plain c hc).2.2.2).trans (List.map_id' l)
  rw [to83_parts few fewExt (fun mem => (plainBase dot mem).2.1 rfl) bytes, upper base plainBase,
    upper ext plainExt]

theorem is83Loop_ext (plain : ∀ c ∈ ext, Plain c) {base k : Nat}
    (fits : k + ext.length ≤ 3) : is83Loop ext base k true = decide (base ≠ 0) := by
  induction ext generalizing k with
  | nil => rfl
  | cons c ext ih =>
    have undotted := (plain c List.mem_cons_self).2.1
    simp only [List.length_cons] at fits
    simp only [is83Loop, undotted, if_false, if_true]
    rw [if_neg (by omega)]
    exact ih (fun d hd => plain d (List.mem_cons_of_mem c hd)) (by omega)

theorem is83Loop_base {rest : List UInt8} (plain : ∀ c ∈ base, Plain c) {b k : Nat}
    (fits : b + base.length ≤ 8) :
    is83Loop (base ++ rest) b k false = is83Loop rest (b + base.length) k false := by
  induction base generalizing b with
  | nil => rfl
  | cons c base ih =>
    have undotted := (plain c List.mem_cons_self).2.1
    simp only [List.length_cons] at fits
    simp only [List.cons_append, is83Loop, undotted, if_false, Bool.false_eq_true]
    rw [if_neg (by omega), ih (fun d hd => plain d (List.mem_cons_of_mem c hd)) (by omega),
      List.length_cons]
    congr 1
    omega

theorem is83_shown (nonempty : base ≠ []) (few : base.length ≤ 8)
    (fewExt : ext.length ≤ 3) (plainBase : ∀ c ∈ base, Plain c) (plainExt : ∀ c ∈ ext, Plain c) :
    is83Loop (shown base ext) 0 0 false = true := by
  have length : base.length ≠ 0 := fun none_ => nonempty (List.length_eq_zero_iff.mp none_)
  rw [shown, is83Loop_base plainBase (by omega), Nat.zero_add]
  split
  · simpa [is83Loop] using nonempty
  · simp only [is83Loop, if_true, Bool.false_eq_true, if_false]
    rw [is83Loop_ext plainExt (by omega)]
    simpa using nonempty

/-- A canonical short name matches its own entry. -/
theorem canonical_matches {e : Dirent} (canonical : Canonical e.name) (l : Lfn) :
    isMatch (from83 e.name) l e = true := by
  obtain ⟨base, ext, nonempty, few, fewExt, plainBase, plainExt, bytes⟩ := canonical
  have shows : (from83 e.name).bytes = shown base ext := by
    rw [bytes]
    exact from83_canonical few plainBase plainExt
  have usable : nameIs83 (from83 e.name) = true := by
    rw [nameIs83, shows]
    exact is83_shown nonempty few fewExt plainBase plainExt
  have back : e.name = to83 (from83 e.name) :=
    bytes.trans (to83_shown few fewExt plainBase plainExt shows).symm
  simp [isMatch, usable, ← back]

/-- The data that is reported of an entry, but for its name. -/
def SameData (e e' : Dirent) : Prop :=
  e.fileSize = e'.fileSize ∧ e.attr = e'.attr ∧ e.writeDate = e'.writeDate ∧
    e.writeTime = e'.writeTime

/-- What is reported can be found under its name, and what is found is reported. -/
structure Agrees (h : Host) (v : FatVolume) : Prop where
  found : ∀ wanted data s s', wanted < 2 ^ 32 → Reports h v wanted s data →
    ∃ e, Finds h v data.name s' e
  reported : ∀ name s s' e, Finds h v name s e → ∃ wanted data, wanted < 2 ^ 32 ∧
    Reports h v wanted s' data ∧ data.size = e.fileSize ∧ data.attributes = e.attr.toNat ∧
    data.writeDate = e.writeDate ∧ data.writeTime = e.writeTime

/-- The files that an index can reach. -/
def indexed (entries : List (Lfn × Dirent)) : List (Lfn × Dirent) := (files entries).take (2 ^ 32)

/-- Short names are canonical, or shown as some entry's name, and no name first matches
an entry that is not one of the files. -/
structure NamesSound (entries : List (Lfn × Dirent)) : Prop where
  short : ∀ p ∈ indexed entries, p.1.haveLfn = false → Canonical p.2.name ∨
    ∃ q ∈ entries, isMatch (from83 p.2.name) q.1 q.2 = true
  first : ∀ name p, (entries.find? fun q => isMatch name q.1 q.2) = some p →
    ∃ q ∈ indexed entries, SameData q.2 p.2

theorem mem_indexed {entries : List (Lfn × Dirent)} {p : Lfn × Dirent} :
    p ∈ indexed entries ↔ ∃ i < 2 ^ 32, (files entries)[i]? = some p := by
  rw [indexed, List.mem_iff_getElem?]
  constructor
  · rintro ⟨i, hi⟩
    rw [List.getElem?_take] at hi
    split at hi
    next small => exact ⟨i, small, hi⟩
    next => cases hi
  · rintro ⟨i, small, hi⟩
    exact ⟨i, by rw [List.getElem?_take, if_pos small, hi]⟩

theorem indexed_subset {entries : List (Lfn × Dirent)} {p : Lfn × Dirent}
    (mem : p ∈ indexed entries) : p ∈ entries :=
  (List.mem_filter.mp (List.mem_of_mem_take mem)).1

theorem exists_finds_iff (calm : NoErrors h) (ends : EndsWithin h v n v.rootCluster)
    (s : IoState) : (∃ e, Finds h v name s e) ↔
      ∃ q ∈ rootVisible h v n, isMatch name q.1 q.2 = true := by
  constructor
  · rintro ⟨e, finds⟩
    obtain ⟨q, first, -⟩ := Option.map_eq_some_iff.mp ((finds_iff calm ends s e).mp finds)
    have found := List.find?_some first
    exact ⟨q, List.mem_of_find?_eq_some first, found⟩
  · rintro ⟨q, mem, found⟩
    have some_ : ((rootVisible h v n).find? fun p => isMatch name p.1 p.2).isSome = true :=
      List.find?_isSome.mpr ⟨q, mem, found⟩
    obtain ⟨p, first⟩ := Option.isSome_iff_exists.mp some_
    exact ⟨p.2, (finds_iff calm ends s p.2).mpr (by rw [first]; rfl)⟩

/-- For a root directory with a chain that ends, and without errors: enumeration and
search agree if and only if the names are sound. -/
theorem enumeration_and_open_agree_iff (calm : NoErrors h)
    (ends : EndsWithin h v n v.rootCluster) :
    Agrees h v ↔ NamesSound (rootVisible h v n) := by
  constructor
  · intro agrees
    refine ⟨?_, ?_⟩
    · intro p mem noLong
      obtain ⟨i, small, index⟩ := mem_indexed.mp mem
      have report := (reports_iff calm ends small ⟨0, 0, []⟩ (findData p.1 p.2)).mpr
        (by rw [index]; rfl)
      have finds := agrees.found i _ _ ⟨0, 0, []⟩ small report
      obtain ⟨q, hq, found⟩ := (exists_finds_iff calm ends _).mp finds
      refine Or.inr ⟨q, hq, ?_⟩
      simpa [findData, noLong] using found
    · intro name p first
      have finds := (finds_iff calm ends ⟨0, 0, []⟩ p.2).mpr (by rw [first]; rfl)
      obtain ⟨i, data, small, report, size, attributes, date, time⟩ :=
        agrees.reported name _ ⟨0, 0, []⟩ _ finds
      obtain ⟨q, index, rfl⟩ := Option.map_eq_some_iff.mp
        ((reports_iff calm ends small _ _).mp report)
      exact ⟨q, mem_indexed.mpr ⟨i, small, index⟩, size, UInt8.toNat_inj.mp attributes, date, time⟩
  · intro sound
    refine ⟨?_, ?_⟩
    · intro i data s s' small report
      obtain ⟨p, index, rfl⟩ := Option.map_eq_some_iff.mp
        ((reports_iff calm ends small _ _).mp report)
      have mem := mem_indexed.mpr ⟨i, small, index⟩
      refine (exists_finds_iff calm ends s').mpr ?_
      cases long : p.1.haveLfn with
      | true =>
        have ended := visible_ended (l := .start) rfl p (indexed_subset mem)
        exact ⟨p, indexed_subset mem, long_name_matches ended long⟩
      | false =>
        have shows : (findData p.1 p.2).name = from83 p.2.name := by simp [findData, long]
        rw [shows]
        rcases sound.short p mem long with canonical | other
        · exact ⟨p, indexed_subset mem, canonical_matches canonical p.1⟩
        · exact other
    · intro name s s' e finds
      obtain ⟨p, first, rfl⟩ := Option.map_eq_some_iff.mp ((finds_iff calm ends s e).mp finds)
      obtain ⟨q, mem, size, attr, date, time⟩ := sound.first name p first
      obtain ⟨i, small, index⟩ := mem_indexed.mp mem
      exact ⟨i, findData q.1 q.2, small,
        (reports_iff calm ends small s' _).mpr (by rw [index]; rfl), size,
        congrArg UInt8.toNat attr, date, time⟩

/-- The disk with one file, whose entry is now that of a directory. -/
def oneDirectoryHost : Host :=
  { oneFileHost 4 with byte := fun a => if a = 1035 then 0x10 else (oneFileHost 4).byte a }

theorem oneDirectoryHost_calm : NoErrors oneDirectoryHost := ⟨fun _ _ => rfl, fun _ => rfl⟩

theorem oneDirectoryHost_ends :
    EndsWithin oneDirectoryHost endlessVolume 1 endlessVolume.rootCluster := by
  change _ ≤ _
  decide +kernel

/-- The search finds the directory, and no index reports it. -/
theorem directory_opened_as_file :
    fatMount oneDirectoryHost 0 = (statusSuccess, some endlessVolume) ∧
      NoErrors oneDirectoryHost ∧
      EndsWithin oneDirectoryHost endlessVolume 1 endlessVolume.rootCluster ∧
      ¬ Agrees oneDirectoryHost endlessVolume := by
  refine ⟨by decide +kernel, oneDirectoryHost_calm, oneDirectoryHost_ends, ?_⟩
  intro agrees
  have matched : ∃ q ∈ rootVisible oneDirectoryHost endlessVolume 1,
      isMatch fileA q.1 q.2 = true := by
    have any : ((rootVisible oneDirectoryHost endlessVolume 1).any fun q =>
      isMatch fileA q.1 q.2) = true := by decide +kernel
    exact List.any_eq_true.mp any
  obtain ⟨e, finds⟩ := (exists_finds_iff oneDirectoryHost_calm oneDirectoryHost_ends
    ⟨1, 0, []⟩).mpr matched
  obtain ⟨i, data, small, report, -⟩ := agrees.reported fileA _ ⟨1, 0, []⟩ e finds
  have nothing : files (rootVisible oneDirectoryHost endlessVolume 1) = [] := by
    refine List.length_eq_zero_iff.mp ?_
    decide +kernel
  have reported := (reports_iff oneDirectoryHost_calm oneDirectoryHost_ends small _ _).mp report
  rw [nothing] at reported
  cases reported

/-- The one file of the other disk is reported and found. -/
theorem enumeration_and_open_agree_one_file :
    NoErrors (oneFileHost 4) ∧
      EndsWithin (oneFileHost 4) endlessVolume 1 endlessVolume.rootCluster ∧
      Agrees (oneFileHost 4) endlessVolume := by
  have calm : NoErrors (oneFileHost 4) := ⟨fun _ _ => rfl, fun _ => rfl⟩
  have ends : EndsWithin (oneFileHost 4) endlessVolume 1 endlessVolume.rootCluster := by
    change _ ≤ _
    decide +kernel
  refine ⟨calm, ends, (enumeration_and_open_agree_iff calm ends).mpr ?_⟩
  have entries : (rootVisible (oneFileHost 4) endlessVolume 1).map
      (fun p => (p.2.name, isFile p.2)) = [(pad 8 [65] ++ pad 3 [], true)] := by decide +kernel
  obtain ⟨p, only, shape⟩ := List.map_eq_singleton_iff.mp entries
  obtain ⟨bytes, file⟩ := Prod.mk.inj shape
  have reached : indexed [p] = [p] := by
    simp only [indexed, files, List.filter_cons, file, if_true, List.filter_nil]
    rfl
  rw [only]
  refine ⟨?_, ?_⟩
  · intro q mem _
    rw [reached] at mem
    obtain rfl := List.mem_singleton.mp mem
    left
    refine ⟨[65], [], by decide, by decide, by decide, ?_, by simp, bytes⟩
    intro c hc
    rw [List.mem_singleton.mp hc]
    exact ⟨by decide, by decide, by decide, by decide⟩
  · intro name q first
    obtain rfl := List.mem_singleton.mp (List.mem_of_find?_eq_some first)
    exact ⟨q, by rw [reached]; exact List.mem_singleton_self q, rfl, rfl, rfl, rfl⟩

end Io
