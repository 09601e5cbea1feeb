import Svindows.Cm.ValueQueries

/-!
# Names as the registry keeps them

A path is captured into 127 characters and a value name into 63, units outside
ASCII become question marks, and components are cut at 63 bytes. What is left,
up to ASCII case, is the stored form of the name. Names with different stored
forms never meet in a run of the services; names with the same one always do.
-/

namespace Cm

open Nt Mm ByteMemory KeyedTree

/-- The components under which the services look up the path of a UNICODE_STRING. -/
def storedPath (units : List Nat) : List Text := (stored (captured pathBuffer units)).map folded

/-- The name under which they look up a value. -/
def storedName (units : List Nat) : Text := folded (captured valueNameBuffer units)

/-- The registry services, and everything else that happens to the handles and to
the caller's memory between them. -/
inductive CmCall where
  | key (args : Args) (create : Bool) (room : CallRoom)
  | set (args : Args) (room : CallRoom)
  | query (args : Args)
  | outside (ob : Ob.ObState) (user : UserPort)

def CmWorld.call (w : CmWorld) : CmCall → CmWorld
  | .key args create room => (keyService w args create room).2
  | .set args room => (ntSetValueKey w args room).2
  | .query args => (ntQueryValueKey w args).2
  | .outside ob user => { w with ob := ob, user := user }

def CmWorld.calls (w : CmWorld) (cs : List CmCall) : CmWorld := cs.foldl CmWorld.call w

/-- After `CmInitialize`, before any Key object. -/
def CmWorld.Start (w : CmWorld) : Prop :=
  (∃ room, w.registry = cmInitialize room) ∧ ∀ o, w.keyOf o = cmRoot

/-- The registry is sound and every Key object names a key that exists. -/
structure CmWorld.Good (w : CmWorld) : Prop where
  sound : Sound w.registry
  keys : ∀ o, w.keyOf o < w.registry.next

/-- The units of the path a call gives. -/
def pathUnits (w : CmWorld) (args : Args) : List Nat :=
  unitsAt w.user.bytes (load w.user.bytes ((args 2).toNat + 16) 8)

/-- The units of the value name a call gives. -/
def nameUnits (w : CmWorld) (args : Args) : List Nat := unitsAt w.user.bytes (args 1).toNat

/-- The call does not set the value of key `k` that is stored as `n`. -/
def Spares (k : Nat) (n : Text) (w : CmWorld) : CmCall → Prop
  | .set args _ => (cmKeyFromHandle w (args 0).toNat).1 ≠ some k ∨ storedName (nameUnits w args) ≠ n
  | _ => True

def SparesAll (k : Nat) (n : Text) : CmWorld → List CmCall → Prop
  | _, [] => True
  | w, c :: cs => Spares k n w c ∧ SparesAll k n (w.call c) cs

variable {w : CmWorld}

theorem cmKeyFromHandle_exists (good : w.Good) {handle k : Nat}
    (resolved : (cmKeyFromHandle w handle).1 = some k) : k < w.registry.next := by
  simp only [cmKeyFromHandle] at resolved
  split at resolved
  · cases resolved
    exact good.sound.root
  split at resolved
  · exact absurd resolved (by simp)
  · cases resolved
    exact good.keys _

/-- A query changes neither the registry nor the Key objects. -/
theorem ntQueryValueKey_frame (w : CmWorld) (args : Args) :
    (ntQueryValueKey w args).2.registry = w.registry ∧
      (ntQueryValueKey w args).2.keyOf = w.keyOf := by
  obtain ⟨-, -, registry, -⟩ := cmKeyFromHandle_frame w (args 0).toNat
  have keyOf := cmKeyFromHandle_keyOf w (args 0).toNat
  simp only [ntQueryValueKey]
  generalize cmKeyFromHandle w (args 0).toNat = resolved at registry keyOf ⊢
  obtain ⟨_ | k, w₁⟩ := resolved
  · exact ⟨registry, keyOf⟩
  simp only
  split
  · exact ⟨registry, keyOf⟩
  · split
    · exact ⟨registry, keyOf⟩
    · exact ⟨registry, keyOf⟩

/-- A set that does not succeed leaves the registry as it was. -/
theorem ntSetValueKey_frame (w : CmWorld) (args : Args) (room : CallRoom) :
    (ntSetValueKey w args room).2.keyOf = w.keyOf ∧
      ((ntSetValueKey w args room).1 ≠ statusSuccess →
        (ntSetValueKey w args room).2.registry = w.registry) := by
  obtain ⟨-, -, registry, -⟩ := cmKeyFromHandle_frame w (args 0).toNat
  have keyOf := cmKeyFromHandle_keyOf w (args 0).toNat
  simp only [ntSetValueKey]
  generalize cmKeyFromHandle w (args 0).toNat = resolved at registry keyOf ⊢
  obtain ⟨_ | k, w₁⟩ := resolved
  · exact ⟨keyOf, fun _ => registry⟩
  simp only
  split
  · exact ⟨keyOf, fun _ => registry⟩
  · split
    · exact ⟨keyOf, fun _ => registry⟩
    · refine ⟨keyOf, fun failed => ?_⟩
      rw [← registry]
      exact cmSetValue_failed failed

theorem cmMakeHandle_frame (w : CmWorld) (k : Nat) (block : Option Ob.ObjectRef) :
    (cmMakeHandle w k block).2.registry = w.registry ∧
      ∀ o, (cmMakeHandle w k block).2.keyOf o = k ∨
        (cmMakeHandle w k block).2.keyOf o = w.keyOf o := by
  have updated : ∀ o p, Function.update w.keyOf p k o = k ∨
      Function.update w.keyOf p k o = w.keyOf o := by
    intro o p
    by_cases same : o = p
    · left
      rw [same, Function.update_self]
    · right
      rw [Function.update_of_ne same]
  simp only [cmMakeHandle]
  split
  · exact ⟨rfl, fun _ => .inr rfl⟩
  split
  · exact ⟨rfl, fun o => updated o _⟩
  · exact ⟨rfl, fun o => updated o _⟩

/-- The disposition changes neither the registry nor the Key objects. -/
theorem keyService_frame (w : CmWorld) (args : Args) (create : Bool) (room : CallRoom) :
    (keyService w args create room).2.registry = (openKey w args create room).2.registry ∧
      (keyService w args create room).2.keyOf = (openKey w args create room).2.keyOf := by
  cases create with
  | false => exact ⟨rfl, rfl⟩
  | true =>
    simp only [keyService, if_true, ntCreateKey]
    generalize openKey w args true room = opened
    obtain ⟨status, w'⟩ := opened
    simp only
    split
    · exact ⟨rfl, rfl⟩
    · split
      · exact ⟨rfl, rfl⟩
      · exact ⟨rfl, rfl⟩

/-- The registry after a key service: unchanged, or as its walk leaves it; a Key
object that appears names the key the walk reached. -/
theorem keyService_cases (w : CmWorld) (args : Args) (create : Bool) (room : CallRoom) :
    ((keyService w args create room).1 ≠ statusSuccess ∧
        (keyService w args create room).2.registry = w.registry ∧
        (keyService w args create room).2.keyOf = w.keyOf) ∨
      ∃ parent path, rootKey w (args 2).toNat = some parent ∧
        pathName w (args 2).toNat = some path ∧
        (keyService w args create room).2.registry =
          (cmWalk w.registry parent path create room.key).1 ∧
        ((keyService w args create room).1 = statusSuccess →
          ∃ k, (cmWalk w.registry parent path create room.key).2 = some k) ∧
        ∀ o, (keyService w args create room).2.keyOf o = w.keyOf o ∨
          (cmWalk w.registry parent path create room.key).2 =
            some ((keyService w args create room).2.keyOf o) := by
  obtain ⟨status, -⟩ := keyService_openKey w args create room
  obtain ⟨registry, keyOf⟩ := keyService_frame w args create room
  rw [status, registry, keyOf]
  have denied : statusAccessViolation ≠ statusSuccess := by decide
  simp only [openKey]
  split
  · exact .inl ⟨denied, rfl, rfl⟩
  obtain ⟨root, name⟩ := attributes_probed w (args 0).toNat 8 (args 2).toNat
  obtain ⟨st, k, w', result, -, -, objects, outcome⟩ := cmResolveOa_cases
    { w with user := w.user.probed (args 0).toNat 8 } (args 2).toNat create room.key
  rw [root, name] at outcome
  rw [result]
  simp only
  rcases outcome with ⟨failed, -, same⟩ | ⟨parent, path, rooted, named, walked, reached, -⟩
  · rw [if_pos failed]
    refine .inl ⟨?_, same, objects⟩
    rintro rfl
    exact absurd failed.symm Bool.false_ne_true
  · refine .inr ⟨parent, path, rooted, named, ?_⟩
    split
    · rename_i failed
      refine ⟨walked, ?_, fun o => .inl (congrFun objects o)⟩
      rintro rfl
      exact absurd failed.symm Bool.false_ne_true
    · rename_i ok
      have found := reached (by simpa using ok)
      obtain ⟨kept, names⟩ := cmMakeHandle_frame w' k room.block
      refine ⟨kept.trans walked, fun _ => ⟨k, found⟩, ?_⟩
      intro o
      rcases names o with new | old
      · right
        rw [new]
        exact found
      · left
        rw [old]
        exact congrFun objects o

/-- A walk with or without create, and where the key it returns is found. -/
theorem Sound.walk_either {r : Registry} (sound : Sound r) {start : Nat} (hs : start < r.next)
    (path : Text) (create : Bool) (room : Nat → Bool) :
    Created r (cmWalk r start path create room).1 ∧
      ∀ k, (cmWalk r start path create room).2 = some k →
        (cmWalk r start path create room).1.tree.descend start ((stored path).map folded) =
          some k := by
  cases create with
  | false =>
    rw [cmWalk_open]
    exact ⟨Created.refl sound.tree, fun k leads => leads⟩
  | true =>
    refine ⟨sound.walk hs path room, ?_⟩
    intro k reached
    exact (sound.walk_leads hs (Prod.ext rfl reached)).2

/-- A call keeps a good world good, and keys and their names stay. -/
theorem CmWorld.Good.call (good : w.Good) (c : CmCall) :
    (w.call c).Good ∧ Grows w.registry.tree (w.call c).registry.tree := by
  cases c with
  | key args create room =>
    simp only [CmWorld.call]
    rcases keyService_cases w args create room with
      ⟨-, registry, keyOf⟩ | ⟨parent, path, root, -, registry, -, objects⟩
    · refine ⟨⟨?_, ?_⟩, ?_⟩
      · rw [registry]
        exact good.sound
      · rw [registry, keyOf]
        exact good.keys
      · rw [registry]
        exact Grows.refl _
    · have hs := cmKeyFromHandle_exists good root
      obtain ⟨created, leads⟩ := good.sound.walk_either hs path create room.key
      rw [← registry] at created leads
      refine ⟨⟨good.sound.created created, ?_⟩, created.grows⟩
      intro o
      rcases objects o with old | new
      · rw [old]
        exact (good.keys o).trans_le created.grows.next
      · exact (created.wellFormed.descend_bounds (hs.trans_le created.grows.next)
          (leads _ new)).2
  | set args room =>
    obtain ⟨keyOf, failed⟩ := ntSetValueKey_frame w args room
    simp only [CmWorld.call]
    by_cases done : (ntSetValueKey w args room).1 = statusSuccess
    · obtain ⟨k, name, -, -, set⟩ := ntSetValueKey_success (Prod.ext done rfl)
      refine ⟨⟨good.sound.valueSet set, ?_⟩, ?_⟩
      · rw [keyOf, set.next]
        exact good.keys
      · rw [set.tree]
        exact Grows.refl _
    · refine ⟨⟨?_, ?_⟩, ?_⟩
      · rw [failed done]
        exact good.sound
      · rw [keyOf, failed done]
        exact good.keys
      · rw [failed done]
        exact Grows.refl _
  | query args =>
    obtain ⟨registry, keyOf⟩ := ntQueryValueKey_frame w args
    simp only [CmWorld.call]
    refine ⟨⟨?_, ?_⟩, ?_⟩
    · rw [registry]
      exact good.sound
    · rw [registry, keyOf]
      exact good.keys
    · rw [registry]
      exact Grows.refl _
  | outside ob user => exact ⟨⟨good.sound, good.keys⟩, Grows.refl _⟩

/-- A call that does not set a value leaves what a query of it finds. -/
theorem CmWorld.Good.call_spares (good : w.Good) {c : CmCall} {k : Nat}
    (hk : k < w.registry.next) {units : List Nat} (spares : Spares k (storedName units) w c) :
    cmFindValue (w.call c).registry k (captured valueNameBuffer units) =
      cmFindValue w.registry k (captured valueNameBuffer units) := by
  cases c with
  | key args create room =>
    simp only [CmWorld.call]
    rcases keyService_cases w args create room with
      ⟨-, registry, -⟩ | ⟨parent, path, root, -, registry, -, -⟩
    · rw [registry]
    · have hs := cmKeyFromHandle_exists good root
      obtain ⟨created, -⟩ := good.sound.walk_either hs path create room.key
      rw [registry, cmFindValue, cmFindValue, created.values k hk]
  | set args room =>
    simp only [CmWorld.call]
    by_cases done : (ntSetValueKey w args room).1 = statusSuccess
    · obtain ⟨j, name, resolved, got, set⟩ := ntSetValueKey_success (Prod.ext done rfl)
      by_cases same : k = j
      · subst same
        have other : storedName (nameUnits w args) ≠ storedName units :=
          spares.resolve_left (fun h => h resolved)
        refine set.old _ fun equal => other ?_
        rw [storedName, storedName, nameUnits, ← mmCaptureUnicodeName_some got]
        exact equal.symm
      · rw [cmFindValue, cmFindValue, set.others k same]
    · rw [(ntSetValueKey_frame w args room).2 done]
  | query args =>
    simp only [CmWorld.call]
    rw [(ntQueryValueKey_frame w args).1]
  | outside ob user => rfl

theorem CmWorld.Good.calls (good : w.Good) (cs : List CmCall) :
    (w.calls cs).Good ∧ Grows w.registry.tree (w.calls cs).registry.tree := by
  induction cs generalizing w with
  | nil => exact ⟨good, Grows.refl _⟩
  | cons c cs ih =>
    obtain ⟨one, grown⟩ := good.call c
    obtain ⟨rest, more⟩ := ih one
    exact ⟨rest, grown.trans more⟩

theorem CmWorld.Good.calls_spare (good : w.Good) {cs : List CmCall} {k : Nat}
    (hk : k < w.registry.next) {units : List Nat} (spares : SparesAll k (storedName units) w cs) :
    cmFindValue (w.calls cs).registry k (captured valueNameBuffer units) =
      cmFindValue w.registry k (captured valueNameBuffer units) := by
  induction cs generalizing w with
  | nil => rfl
  | cons c cs ih =>
    obtain ⟨one, grown⟩ := good.call c
    exact (ih one (hk.trans_le grown.next) spares.2).trans (good.call_spares hk spares.1)

theorem cmKeyFromHandle_registry (w : CmWorld) (r : Registry) (handle : Nat) :
    cmKeyFromHandle { w with registry := r } handle =
      ((cmKeyFromHandle w handle).1, { (cmKeyFromHandle w handle).2 with registry := r }) := by
  simp only [cmKeyFromHandle]
  split
  · rfl
  split <;> rfl

/-- What a query replies depends on the registry only through the value it finds. -/
theorem ntQueryValueKey_congr (w : CmWorld) (args : Args) (r : Registry)
    (same : ∀ k, (cmKeyFromHandle w (args 0).toNat).1 = some k →
      cmFindValue r k (captured valueNameBuffer (nameUnits w args)) =
        cmFindValue w.registry k (captured valueNameBuffer (nameUnits w args))) :
    (ntQueryValueKey { w with registry := r } args).1 = (ntQueryValueKey w args).1 ∧
      (ntQueryValueKey { w with registry := r } args).2.user =
        (ntQueryValueKey w args).2.user := by
  obtain ⟨-, -, registry, user⟩ := cmKeyFromHandle_frame w (args 0).toNat
  simp only [ntQueryValueKey, cmKeyFromHandle_registry]
  generalize cmKeyFromHandle w (args 0).toNat = resolved at same registry user ⊢
  obtain ⟨_ | k, w₁⟩ := resolved
  · exact ⟨rfl, rfl⟩
  have whole : ∀ name, (mmCaptureUnicodeName w.user (args 1).toNat valueNameBuffer).1 = some name →
      cmFindValue r k name = cmFindValue w.registry k name := by
    intro name got
    rw [mmCaptureUnicodeName_some got]
    exact same k rfl
  simp only at registry user ⊢
  rw [user, registry]
  generalize mmCaptureUnicodeName w.user (args 1).toNat valueNameBuffer = got at whole ⊢
  obtain ⟨_ | name, u⟩ := got
  · exact ⟨rfl, rfl⟩
  simp only
  rw [whole name rfl]
  cases cmFindValue w.registry k name with
  | none => exact ⟨rfl, rfl⟩
  | some v => exact ⟨rfl, rfl⟩

theorem good_of_run
    (run : Runs.Reachable CmWorld.Start (fun w c w' => w' = w.call c) w) : w.Good := by
  refine run.invariant ?_ ?_
  · intro w start
    obtain ⟨⟨room, registry⟩, keys⟩ := start
    have sound := cmInitialize_sound room
    rw [← registry] at sound
    refine ⟨sound, ?_⟩
    intro o
    rw [keys o]
    exact sound.root
  · intro w c w' good step
    rw [step]
    exact (good.call c).1

theorem CmWorld.Good.key_leads (good : w.Good) {args : Args} {create : Bool}
    {room : CallRoom} (done : (keyService w args create room).1 = statusSuccess) :
    ∃ parent k, rootKey w (args 2).toNat = some parent ∧ parent < w.registry.next ∧
      walkedKey w args create room = some k ∧
      (w.call (.key args create room)).registry.tree.descend parent
        (storedPath (pathUnits w args)) = some k := by
  rcases keyService_cases w args create room with
    ⟨failed, -⟩ | ⟨parent, path, root, name, registry, reached, -⟩
  · exact absurd done failed
  · obtain ⟨k, walked⟩ := reached done
    have hs := cmKeyFromHandle_exists good root
    have leads := (good.sound.walk_either hs path create room.key).2 k walked
    refine ⟨parent, k, root, hs, (walkedKey_eq root name).trans walked, ?_⟩
    rw [CmWorld.call, registry, storedPath, pathUnits, ← mmCaptureUnicodeName_some name]
    exact leads

/-- Names meet exactly when they are stored alike: two paths from the same root key
lead to one key, a value is found under every name of its stored form, and no
sequence of calls under other names changes what a query returns. -/
theorem names_meet_iff_stored_alike {w : CmWorld}
    (run : Runs.Reachable CmWorld.Start (fun w c w' => w' = w.call c) w) :
    (∀ args create room cs args' create' room',
      (keyService w args create room).1 = statusSuccess →
      (keyService ((w.call (.key args create room)).calls cs) args' create' room').1 =
        statusSuccess →
      rootKey ((w.call (.key args create room)).calls cs) (args' 2).toNat =
        rootKey w (args 2).toNat →
      (walkedKey ((w.call (.key args create room)).calls cs) args' create' room' =
          walkedKey w args create room ↔
        storedPath (pathUnits ((w.call (.key args create room)).calls cs) args') =
          storedPath (pathUnits w args))) ∧
    (∀ args room k units, (ntSetValueKey w args room).1 = statusSuccess →
      (cmKeyFromHandle w (args 0).toNat).1 = some k →
      storedName units = storedName (nameUnits w args) →
      (cmFindValue (ntSetValueKey w args room).2.registry k
        (captured valueNameBuffer units)).map contents =
        some ((args 3).toUInt32,
          bytesFrom w.user.bytes (args 4).toNat (args 5).toUInt32.toNat)) ∧
    (∀ w₂ query cs k, w₂.registry = w.registry →
      (cmKeyFromHandle w₂ (query 0).toNat).1 = some k → k < w.registry.next →
      SparesAll k (storedName (nameUnits w₂ query)) w cs →
      (ntQueryValueKey { w₂ with registry := (w.calls cs).registry } query).1 =
          (ntQueryValueKey w₂ query).1 ∧
        (ntQueryValueKey { w₂ with registry := (w.calls cs).registry } query).2.user =
          (ntQueryValueKey w₂ query).2.user) := by
  have good := good_of_run run
  refine ⟨?_, ?_, ?_⟩
  · intro args create room cs args' create' room' done done' sameRoot
    obtain ⟨parent, k, root, hp, walked, leads⟩ := good.key_leads done
    obtain ⟨good₁, grown₁⟩ := good.call (.key args create room)
    generalize w.call (.key args create room) = w₁ at *
    obtain ⟨good₂, grown₂⟩ := good₁.calls cs
    generalize w₁.calls cs = w₂ at *
    obtain ⟨parent', k', root', hp', walked', leads'⟩ := good₂.key_leads done'
    obtain ⟨good₃, grown₃⟩ := good₂.call (.key args' create' room')
    generalize w₂.call (.key args' create' room') = w₃ at *
    rw [sameRoot, root] at root'
    cases root'
    have later := (grown₂.trans grown₃).descend good₁.sound.tree good₃.sound.tree
      (hp.trans_le grown₁.next) leads
    have known : parent < w₃.registry.next := hp'.trans_le grown₃.next
    rw [walked, walked', Option.some.injEq]
    constructor
    · rintro rfl
      exact good₃.sound.tree.descend_injective known leads' later
    · intro alike
      rw [alike, later] at leads'
      exact (Option.some.inj leads').symm
  · intro args room k units done resolved alike
    obtain ⟨j, name, key, got, set⟩ := ntSetValueKey_success (Prod.ext done rfl)
    rw [resolved] at key
    cases key
    obtain ⟨v, found, typed, filled⟩ := set.new
    have spelled : folded (captured valueNameBuffer units) = folded name := by
      rw [mmCaptureUnicodeName_some got]
      exact alike
    rw [cmFindValue_congr _ _ spelled, found]
    simp [contents, typed, filled]
  · intro w₂ query cs k registry resolved hk spares
    refine ntQueryValueKey_congr w₂ query _ ?_
    intro j key
    rw [resolved] at key
    cases key
    rw [registry]
    exact good.calls_spare hk spares

/-- The value names U+0100 at 0x3000 and U+0101 at 0x3010, and a byte of data at 0x5000. -/
def twoNames : UserPort :=
  sparseMemory [(0x3000, 2), (0x3009, 0x40), (0x4001, 1), (0x3010, 2), (0x3018, 0x10),
    (0x3019, 0x40), (0x4010, 1), (0x4011, 1), (0x5000, 7)]

/-- Set the first name of the root to that byte. -/
def setFirst : Args := fun i =>
  if i = 1 then 0x3000 else if i = 3 then 3 else if i = 4 then 0x5000 else if i = 5 then 1 else 0

/-- Query the second name into a buffer at 0x6000. -/
def querySecond : Args := fun i =>
  if i = 1 then 0x3010 else if i = 3 then 0x6000 else if i = 4 then 16 else 0

/-- Both names are stored as a question mark: the query of the second one finds
nothing before the first is set, and its value afterwards. -/
theorem other_name_returns_value :
    nameUnits (freshWorld twoNames) setFirst = [0x100] ∧
      nameUnits (freshWorld twoNames) querySecond = [0x101] ∧
      (ntQueryValueKey (freshWorld twoNames) querySecond).1 = statusObjectNameNotFound ∧
      (ntSetValueKey (freshWorld twoNames) setFirst objectRoom).1 = statusSuccess ∧
      (ntQueryValueKey (ntSetValueKey (freshWorld twoNames) setFirst objectRoom).2 querySecond).1 =
        statusSuccess ∧
      (ntQueryValueKey (ntSetValueKey (freshWorld twoNames) setFirst objectRoom).2
        querySecond).2.user.bytes 0x600C = 7 := by
  refine ⟨?_, ?_, ?_, ?_, ?_, ?_⟩ <;> decide

theorem setFirst_succeeds {w : CmWorld} (user : w.user = twoNames) :
    (ntSetValueKey w setFirst objectRoom).1 = statusSuccess := by
  have root : cmKeyFromHandle w (setFirst 0).toNat = (some cmRoot, w) := if_pos (by decide)
  have name : (mmCaptureUnicodeName twoNames (setFirst 1).toNat valueNameBuffer).1 = some [63] := by
    decide
  have readable : (mmCaptureUnicodeName twoNames (setFirst 1).toNat valueNameBuffer).2.accepts
      (setFirst 4).toNat (setFirst 5).toUInt32.toNat = true := by decide
  simp only [ntSetValueKey, root, user]
  generalize mmCaptureUnicodeName twoNames (setFirst 1).toNat valueNameBuffer = got
    at name readable ⊢
  obtain ⟨_, u⟩ := got
  obtain rfl := name
  simp only [readable, Bool.true_eq_false, and_false, if_false]
  exact cmSetValue_granted _ _ _ _ _

/-- A booted registry without Key objects. -/
def bootedWorld : CmWorld := { freshWorld twoNames with registry := cmInitialize ampleRoom }

theorem names_meet_iff_stored_alike_booted :
    Runs.Reachable CmWorld.Start (fun w c w' => w' = w.call c) bootedWorld ∧
      (ntSetValueKey bootedWorld setFirst objectRoom).1 = statusSuccess ∧
      ∀ units, storedName units = storedName (nameUnits bootedWorld setFirst) →
        (cmFindValue (ntSetValueKey bootedWorld setFirst objectRoom).2.registry cmRoot
          (captured valueNameBuffer units)).map contents = some (3, [7]) := by
  have registry : bootedWorld.registry = cmInitialize ampleRoom := by simp only [bootedWorld]
  have run : Runs.Reachable CmWorld.Start (fun w c w' => w' = w.call c) bootedWorld :=
    .of_initial ⟨⟨ampleRoom, registry⟩, fun _ => rfl⟩
  have root : (cmKeyFromHandle bootedWorld (setFirst 0).toNat).1 = some cmRoot := by
    rw [cmKeyFromHandle, if_pos (by decide)]
  have data : bytesFrom bootedWorld.user.bytes (setFirst 4).toNat (setFirst 5).toUInt32.toNat =
      [7] := by decide
  have done := setFirst_succeeds (w := bootedWorld) rfl
  refine ⟨run, done, ?_⟩
  intro units alike
  have found := (names_meet_iff_stored_alike run).2.1 setFirst objectRoom cmRoot units done root
    alike
  rw [data] at found
  exact found

end Cm
