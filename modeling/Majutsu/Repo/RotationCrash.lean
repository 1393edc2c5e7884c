import Majutsu.Lib.Machine
import Majutsu.Repo.RotatedHistory

/-!
# Rotations that do not end

A rotation writes `key.prev` and `key.pending` before it stores anything, moves the
rows in one transaction, and replaces the master key after that. It can be killed
between any two of these steps, and the next rotation writes the key files again.
-/

namespace Majutsu.Repo

open Loops Machine

/-- A home with its three key files. -/
structure KeyHome where
  encrypted : Bool
  masterKey : Text
  /-- The file `key.pending`. -/
  pending : Option Text
  /-- The file `key.prev`. -/
  previous : Option Text
  files : Entries Sealed
  packEntries : List ((String × Oid) × Sealed)
  db : Database
  journal : List EventJournalRecord

namespace KeyHome

variable (s : KeyHome)

def vault : Vault where
  encrypted := s.encrypted
  masterKey := s.masterKey
  rotationKeys := s.pending.toList ++ s.previous.toList
  files := s.files
  packEntries := s.packEntries
  db := s.db
  journal := s.journal

/-- Where the object of a blob row is read. A pack that does not have it is passed over. -/
def blobSources (blob : BlobRow) : List Sealed :=
  match blob.packId with
  | none => (s.files.get blob.objectKey).toList
  | some packId =>
    if s.db.packs.any (fun pack => pack.packId = packId) then
      ((s.packEntries.find? (fun entry => entry.1 = (packId, blob.oid))).map Prod.snd).toList ++
        (s.files.get blob.objectKey).toList
    else []

def sources : List (List Sealed) :=
  s.db.blobs.map s.blobSources ++
  s.db.chunks.map (fun chunk => (s.files.get chunk.objectKey).toList) ++
  s.db.largeObjects.map (fun large => (s.files.get large.manifestKey).toList) ++
  s.db.snapshots.map (fun row => (s.files.get row.manifestKey).toList)

/-- Every object that a row names is decoded with the key files that are there. -/
def Decodable : Prop :=
  ∀ places ∈ s.sources, ∃ entry ∈ places, (s.vault.decodeObject entry).isSome

/-- Every object that a row names is sealed with one of the keys. -/
def SealedWith (keys : List Text) : Prop :=
  ∀ places ∈ s.sources, ∃ entry ∈ places, entry.1 ∈ keys

def keyFiles : List Text := s.masterKey :: (s.pending.toList ++ s.previous.toList)

instance : Decidable s.Decodable :=
  inferInstanceAs (Decidable (∀ places ∈ s.sources, _))

instance (keys : List Text) : Decidable (s.SealedWith keys) :=
  inferInstanceAs (Decidable (∀ places ∈ s.sources, _))

end KeyHome

structure RotationReads where
  blobPayloads : List Bytes
  chunkPayloads : List Bytes
  largeManifests : List LargeRefs
  manifests : List SnapshotManifest

inductive RotationPhase where
  | writePrevious
  | writePending
  | store
  | writeMaster
  | removePending
  | removePrevious
  deriving DecidableEq

structure Rotation where
  oldKey : Text
  newKey : Text
  plan : Except String RotationPlan
  /-- The objects that are left to store. An error ends the rotation there. -/
  writes : List (Except String (Key × Sealed))
  phase : RotationPhase

namespace Vault

variable (names : Text → StorageNames) (format : TreeFormat) (depth : Nat) (s : Vault) (newKey : Text)

def readRotation : Except String RotationReads := do
  let blobPayloads ← s.db.blobs.mapM (fun blob => s.readBlobPayload blob.oid blob.objectKey)
  let chunkPayloads ← s.db.chunks.mapM (fun chunk => s.readPayload chunk.objectKey)
  let largeManifests ← s.db.largeObjects.mapM (fun large => s.view.readLarge large.manifestKey)
  let manifests ← s.db.snapshots.mapM (fun row => s.view.snapshotManifestFromParts depth row)
  .ok ⟨blobPayloads, chunkPayloads, largeManifests, manifests⟩

def snapshotWrites : Except String SnapshotManifest → List (Except String (Key × Sealed))
  | .ok rewritten => (s.rotateSnapshot names format newKey rewritten).2.map .ok
  | .error message => [.error message]

/-- The objects in the order they are stored. A key that is missing is an error in its place. -/
def rotationWrites (reads : RotationReads) : List (Except String (Key × Sealed)) :=
  let blobKeys := s.db.blobs.map (fun blob => (blob.oid, (names newKey).blob blob.oid))
  let chunkKeys := s.db.chunks.map
    (fun chunk => (chunk.oid, (names newKey).chunk chunk.objectKey chunk.oid))
  let rotatedLarge := reads.largeManifests.map (rewriteChunkKeys chunkKeys)
  let largeManifestKeys :=
    (s.db.largeObjects.zip (rotatedLarge.filterMap Except.toOption)).map
      (fun large => (large.1.oid, (names newKey).largeManifest large.2))
  (s.db.blobs.zip reads.blobPayloads).map
    (fun blob => .ok ((names newKey).blob blob.1.oid, (newKey, .payload blob.2))) ++
  (s.db.chunks.zip reads.chunkPayloads).map (fun chunk =>
    .ok ((names newKey).chunk chunk.1.objectKey chunk.1.oid, (newKey, .payload chunk.2))) ++
  rotatedLarge.map (fun rotated => rotated.map
    (fun manifest => ((names newKey).largeManifest manifest, (newKey, .large manifest)))) ++
  reads.manifests.flatMap (fun manifest =>
    s.snapshotWrites names format newKey
      (rewriteManifestPayloadKeys blobKeys largeManifestKeys manifest))

/-- A rotation up to its first write. -/
def startRotation : Except String Rotation := do
  if !s.encrypted then .error "key rotation requires encrypted state"
  else do
    validateKeyHex newKey
    if trim s.masterKey = trim newKey then .error "new key must differ from current key"
    else do
      let reads ← s.readRotation depth
      .ok
        { oldKey := s.masterKey
          newKey := newKey
          plan := s.planRotation names format depth newKey
          writes := s.rotationWrites names format newKey reads
          phase := .writePrevious }

end Vault

structure KeyState where
  home : KeyHome
  running : Option Rotation

/-- One file or database step. -/
def KeyHome.advance (s : KeyHome) (rotation : Rotation) : KeyState :=
  match rotation.phase with
  | .writePrevious =>
    ⟨{ s with previous := some rotation.oldKey }, some { rotation with phase := .writePending }⟩
  | .writePending =>
    ⟨{ s with pending := some rotation.newKey }, some { rotation with phase := .store }⟩
  | .store =>
    match rotation.writes with
    | .ok store :: rest =>
      ⟨{ s with files := Vault.storeObject s.files store }, some { rotation with writes := rest }⟩
    | .error _ :: _ => ⟨s, none⟩
    | [] =>
      match rotation.plan with
      | .ok plan =>
        ⟨{ s with db := Vault.rotatedRows s.db plan }, some { rotation with phase := .writeMaster }⟩
      | .error _ => ⟨s, none⟩
  | .writeMaster =>
    ⟨{ s with masterKey := rotation.newKey }, some { rotation with phase := .removePending }⟩
  | .removePending => ⟨{ s with pending := none }, some { rotation with phase := .removePrevious }⟩
  | .removePrevious => ⟨{ s with previous := none }, none⟩

inductive RotationEvent where
  | start (newKey : Text)
  | advance
  /-- A key file that cannot be removed is left there. -/
  | removeFails
  | kill

namespace KeyState

variable (names : Text → StorageNames) (format : TreeFormat) (depth : Nat)

def exec (s : KeyState) : RotationEvent → Option KeyState
  | .start newKey =>
    match s.running with
    | some _ => none
    | none =>
      match s.home.vault.startRotation names format depth newKey with
      | .ok rotation => some { s with running := some rotation }
      | .error _ => some s
  | .advance => s.running.map s.home.advance
  | .removeFails =>
    match s.running with
    | some rotation =>
      match rotation.phase with
      | .removePending => some { s with running := some { rotation with phase := .removePrevious } }
      | .removePrevious => some { s with running := none }
      | _ => none
    | none => none
  | .kill => some { s with running := none }

end KeyState

section Sealing

variable {s : KeyHome} {keys keys' : List Text}

theorem KeyHome.SealedWith.mono (sealed_ : s.SealedWith keys) (subset : ∀ key ∈ keys, key ∈ keys') :
    s.SealedWith keys' := by
  intro places member
  obtain ⟨entry, inside, key⟩ := sealed_ places member
  exact ⟨entry, inside, subset _ key⟩

theorem KeyHome.decodeObject_isSome {entry : Sealed} :
    (s.vault.decodeObject entry).isSome ↔ entry.1 ∈ s.keyFiles := by
  have keys : entry.1 ∈ s.keyFiles ↔
      entry.1 = s.vault.masterKey ∨ entry.1 ∈ s.vault.rotationKeys := List.mem_cons
  rw [keys, Vault.decodeObject]
  by_cases key : entry.1 = s.vault.masterKey ∨ entry.1 ∈ s.vault.rotationKeys
  · simp [key]
  · simp [key]

theorem KeyHome.decodable_iff : s.Decodable ↔ s.SealedWith s.keyFiles := by
  simp only [KeyHome.Decodable, KeyHome.SealedWith, KeyHome.decodeObject_isSome]

theorem KeyHome.sealedWith_iff : s.SealedWith keys ↔
    (∀ blob ∈ s.db.blobs, ∃ entry ∈ s.blobSources blob, entry.1 ∈ keys) ∧
    (∀ chunk ∈ s.db.chunks, ∃ entry ∈ s.files.get chunk.objectKey, entry.1 ∈ keys) ∧
    (∀ large ∈ s.db.largeObjects, ∃ entry ∈ s.files.get large.manifestKey, entry.1 ∈ keys) ∧
    ∀ row ∈ s.db.snapshots, ∃ entry ∈ s.files.get row.manifestKey, entry.1 ∈ keys := by
  simp only [KeyHome.SealedWith, KeyHome.sources, List.forall_mem_append, List.forall_mem_map,
    Option.mem_toList, Option.mem_def, and_assoc]

theorem KeyHome.SealedWith.store (sealed_ : s.SealedWith keys) (store : Key × Sealed) :
    KeyHome.SealedWith { s with files := Vault.storeObject s.files store } keys := by
  obtain ⟨blobs, chunks, larges, rows⟩ := KeyHome.sealedWith_iff.mp sealed_
  have kept : ∀ {key}, (∃ entry ∈ s.files.get key, entry.1 ∈ keys) →
      ∃ entry ∈ (Vault.storeObject s.files store).get key, entry.1 ∈ keys := by
    rintro key ⟨entry, found, inside⟩
    exact ⟨entry, Vault.get_storeObject_of_get found, inside⟩
  refine KeyHome.sealedWith_iff.mpr ⟨?_, fun chunk member => kept (chunks chunk member),
    fun large member => kept (larges large member), fun row member => kept (rows row member)⟩
  intro blob member
  obtain ⟨entry, found, inside⟩ := blobs blob member
  refine ⟨entry, ?_, inside⟩
  have loose : entry ∈ (s.files.get blob.objectKey).toList →
      entry ∈ ((Vault.storeObject s.files store).get blob.objectKey).toList := by
    rw [Option.mem_toList, Option.mem_toList]
    exact Vault.get_storeObject_of_get
  unfold KeyHome.blobSources at found ⊢
  cases packed : blob.packId with
  | none =>
    simp only [packed] at found ⊢
    exact loose found
  | some packId =>
    simp only [packed] at found ⊢
    split at found
    · next known =>
      rw [if_pos known, List.mem_append]
      exact (List.mem_append.mp found).imp_right loose
    · cases found

end Sealing

namespace Vault

variable {names : Text → StorageNames} {format : TreeFormat} {depth : Nat} {s : Vault} {newKey : Text}
variable {plan : RotationPlan}

theorem rotationWrites_eq {reads : RotationReads} (read : s.readRotation depth = .ok reads)
    (h : s.planRotation names format depth newKey = .ok plan) :
    s.rotationWrites names format newKey reads = plan.stores.map .ok := by
  obtain ⟨blobPayloads, readBlobs, h⟩ := of_bind h
  obtain ⟨chunkPayloads, readChunks, h⟩ := of_bind h
  obtain ⟨largeManifests, readLarges, h⟩ := of_bind h
  obtain ⟨manifests, loaded, h⟩ := of_bind h
  obtain ⟨rotatedLarge, rotated, h⟩ := of_bind h
  obtain ⟨rewritten, rewrote, h⟩ := of_bind h
  obtain rfl := Except.ok.inj h
  have same : s.readRotation depth =
      .ok ⟨blobPayloads, chunkPayloads, largeManifests, manifests⟩ :=
    bind_ok ⟨_, readBlobs, bind_ok ⟨_, readChunks, bind_ok ⟨_, readLarges, bind_ok ⟨_, loaded, rfl⟩⟩⟩⟩
  obtain rfl : (⟨blobPayloads, chunkPayloads, largeManifests, manifests⟩ : RotationReads) = reads :=
    Except.ok.inj (same.symm.trans read)
  have kept : ((rotatedLarge.map Except.ok : List (Except String LargeRefs)).filterMap
      Except.toOption) = rotatedLarge := by
    rw [List.filterMap_map]
    exact List.filterMap_some
  simp only [rotationWrites, map_of_mapM rotated, kept, flatMap_of_mapM rewrote, List.map_append,
    List.map_map, List.map_flatMap]
  rfl

/-- The plan has a new object for every row. -/
structure Covers (db : Database) (newKey : Text) (plan : RotationPlan) : Prop where
  blob : ∀ blob ∈ db.blobs, ∃ key object, plan.blobKeys.get blob.oid = some key ∧
    (key, newKey, object) ∈ plan.stores
  chunk : ∀ chunk ∈ db.chunks, ∃ key object, plan.chunkKeys.get chunk.oid = some key ∧
    (key, newKey, object) ∈ plan.stores
  large : ∀ large ∈ db.largeObjects, ∃ key object, plan.largeManifestKeys.get large.oid = some key ∧
    (key, newKey, object) ∈ plan.stores
  snapshot : ∀ row ∈ db.snapshots, ∃ key object, plan.snapshotUpdates.get row.id = some key ∧
    (key, newKey, object) ∈ plan.stores

theorem exists_of_rel {α β : Type} {R : α → β → Prop} {xs : List α} {found : Option β}
    {name : α → String} {x : α} (member : x ∈ xs)
    (rel : Option.Rel R (xs.find? (fun y => name y = name x)) found) :
    ∃ y v, found = some v ∧ R y v := by
  have some_ : (xs.find? (fun y => name y = name x)).isSome :=
    List.find?_isSome.mpr ⟨x, member, by simp⟩
  obtain ⟨y, first⟩ := Option.isSome_iff_exists.mp some_
  obtain ⟨v, value, related⟩ := rel_some_left (first ▸ rel)
  exact ⟨y, v, value, related⟩

theorem Planned.covers (planned : Planned names format depth s newKey plan) :
    Covers s.db newKey plan := by
  constructor
  · intro blob member
    obtain ⟨-, key, value, bytes, -, stored⟩ := exists_of_rel member (planned.blob blob.oid)
    exact ⟨key, .payload bytes, value, stored⟩
  · intro chunk member
    obtain ⟨-, key, value, bytes, -, stored⟩ := exists_of_rel member (planned.chunk chunk.oid)
    exact ⟨key, .payload bytes, value, stored⟩
  · intro large member
    obtain ⟨-, key, value, -, rotated, -, -, stored⟩ := exists_of_rel member (planned.large large.oid)
    exact ⟨key, .large rotated, value, stored⟩
  · intro row member
    obtain ⟨-, key, value, -, rewritten, -, -, rfl, stored⟩ :=
      exists_of_rel member (planned.snapshot row.id)
    exact ⟨_, _, value, stored _ (List.mem_append_right _ (List.mem_singleton_self _))⟩

end Vault

theorem KeyHome.sealedWith_rotatedRows {s : KeyHome} {newKey : Text} {plan : RotationPlan}
    (covers : Vault.Covers s.db newKey plan)
    (stored : ∀ store ∈ plan.stores, s.files.get store.1 = some store.2) :
    KeyHome.SealedWith { s with db := Vault.rotatedRows s.db plan } [newKey] := by
  have new : ∀ {key object}, (key, newKey, object) ∈ plan.stores →
      ∃ entry ∈ s.files.get key, entry.1 ∈ [newKey] := by
    intro key object member
    exact ⟨_, stored _ member, List.mem_singleton_self _⟩
  refine KeyHome.sealedWith_iff.mpr ⟨?_, ?_, ?_, ?_⟩
  · intro blob member
    obtain ⟨old, inside, rfl⟩ := List.mem_map.mp member
    obtain ⟨key, object, value, written⟩ := covers.blob old inside
    obtain ⟨entry, found, key⟩ := new written
    refine ⟨entry, ?_, key⟩
    simp only [KeyHome.blobSources, value, Option.getD_some, Option.mem_toList]
    exact found
  · intro chunk member
    obtain ⟨old, inside, rfl⟩ := List.mem_map.mp member
    obtain ⟨key, object, value, written⟩ := covers.chunk old inside
    simp only [value, Option.getD_some]
    exact new written
  · intro large member
    obtain ⟨old, inside, rfl⟩ := List.mem_map.mp member
    obtain ⟨key, object, value, written⟩ := covers.large old inside
    simp only [value, Option.getD_some]
    exact new written
  · intro row member
    obtain ⟨old, inside, rfl⟩ := List.mem_map.mp member
    obtain ⟨key, object, value, written⟩ := covers.snapshot old inside
    simp only [value]
    exact new written

/-- The keys that a rotation to a new key does not take away. -/
def KeyHome.resumeKeys (s : KeyHome) (newKey : Text) : List Text :=
  s.masterKey :: if s.pending = some newKey then [newKey] else []

/-- A rotation that has not come to its transaction. -/
structure Rotation.Early (s : KeyHome) (rotation : Rotation) : Prop where
  master : s.masterKey = rotation.oldKey
  sealed : s.SealedWith (s.resumeKeys rotation.newKey)
  /-- What was stored and what is left make up the plan. -/
  storing : ∀ plan, rotation.plan = .ok plan → Vault.Covers s.db rotation.newKey plan ∧
    ∃ files done rest, s.files = Vault.storeAll files done ∧ rotation.writes = rest.map .ok ∧
      plan.stores = done ++ rest ∧ Vault.NoClash files plan.stores

/-- What holds while a rotation runs. -/
def Rotation.Holds (s : KeyHome) (rotation : Rotation) : Prop :=
  match rotation.phase with
  | .writePrevious | .writePending => rotation.Early s
  | .store => rotation.Early s ∧ s.pending = some rotation.newKey
  | .writeMaster => s.SealedWith [rotation.newKey] ∧ s.pending = some rotation.newKey
  | .removePending | .removePrevious =>
    s.SealedWith [rotation.newKey] ∧ s.masterKey = rotation.newKey

def KeyState.Holds (s : KeyState) : Prop :=
  match s.running with
  | none => s.home.SealedWith s.home.keyFiles
  | some rotation => rotation.Holds s.home

section Steps

variable {s : KeyHome} {rotation : Rotation}

theorem KeyHome.SealedWith.single {newKey : Text} (sealed_ : s.SealedWith [newKey])
    (key : newKey ∈ s.keyFiles) : s.SealedWith s.keyFiles := by
  apply sealed_.mono
  intro other only
  rwa [List.mem_singleton.mp only]

theorem KeyHome.resumeKeys_subset {newKey : Text} :
    ∀ key ∈ s.resumeKeys newKey, key ∈ s.keyFiles := by
  intro key member
  rcases List.mem_cons.mp member with rfl | member
  · exact List.mem_cons_self
  · split at member
    · next pending =>
      rw [List.mem_singleton.mp member]
      simp [KeyHome.keyFiles, pending]
    · cases member

theorem Rotation.Holds.sealedWith (holds : rotation.Holds s) : s.SealedWith s.keyFiles := by
  unfold Rotation.Holds at holds
  split at holds
  · exact holds.sealed.mono KeyHome.resumeKeys_subset
  · exact holds.sealed.mono KeyHome.resumeKeys_subset
  · exact holds.1.sealed.mono KeyHome.resumeKeys_subset
  · exact holds.1.single (by simp [KeyHome.keyFiles, holds.2])
  · exact holds.1.single (by simp [KeyHome.keyFiles, holds.2])
  · exact holds.1.single (by simp [KeyHome.keyFiles, holds.2])

theorem KeyState.Holds.sealedWith {s : KeyState} (holds : s.Holds) :
    s.home.SealedWith s.home.keyFiles := by
  unfold KeyState.Holds at holds
  split at holds
  · exact holds
  · exact holds.sealedWith

theorem Rotation.Early.store (early : rotation.Early s) {store : Key × Sealed}
    {rest : List (Except String (Key × Sealed))} (next : rotation.writes = .ok store :: rest) :
    Rotation.Early { s with files := Vault.storeObject s.files store }
      { rotation with writes := rest } := by
  refine ⟨early.master, early.sealed.store store, ?_⟩
  intro plan planned
  obtain ⟨covers, files, done, left, stored, writes, split_, noClash⟩ := early.storing plan planned
  refine ⟨covers, files, done ++ [store], ?_⟩
  cases left with
  | nil =>
    rw [writes] at next
    cases next
  | cons first left =>
    rw [writes, List.map_cons, List.cons.injEq, Except.ok.injEq] at next
    obtain ⟨rfl, rfl⟩ := next
    refine ⟨left, ?_, rfl, by rw [split_, List.append_assoc]; rfl, noClash⟩
    show Vault.storeObject s.files first = _
    rw [stored, Vault.storeAll, Vault.storeAll, List.foldl_append]
    rfl

theorem Rotation.Early.commit (early : rotation.Early s) (none_left : rotation.writes = [])
    {plan : RotationPlan} (planned : rotation.plan = .ok plan) :
    KeyHome.SealedWith { s with db := Vault.rotatedRows s.db plan } [rotation.newKey] := by
  obtain ⟨covers, files, done, left, stored, writes, split_, noClash⟩ := early.storing plan planned
  rw [none_left] at writes
  obtain rfl := List.map_eq_nil_iff.mp writes.symm
  rw [List.append_nil] at split_
  apply KeyHome.sealedWith_rotatedRows covers
  intro store member
  rw [stored, ← split_]
  exact Vault.get_storeAll noClash member

theorem Rotation.Holds.advance (holds : rotation.Holds s) : (s.advance rotation).Holds := by
  unfold KeyHome.advance
  cases phase : rotation.phase with
  | writePrevious =>
    have early : rotation.Early s := by simpa only [Rotation.Holds, phase] using holds
    exact ⟨early.master, early.sealed, early.storing⟩
  | writePending =>
    have early : rotation.Early s := by simpa only [Rotation.Holds, phase] using holds
    refine ⟨⟨early.master, ?_, early.storing⟩, rfl⟩
    refine KeyHome.SealedWith.mono (s := { s with pending := some rotation.newKey })
      early.sealed ?_
    intro key member
    rcases List.mem_cons.mp member with rfl | member
    · exact List.mem_cons_self
    · split at member
      · rw [List.mem_singleton.mp member]
        simp [KeyHome.resumeKeys]
      · cases member
  | store =>
    obtain ⟨early, pending⟩ : rotation.Early s ∧ s.pending = some rotation.newKey := by
      simpa only [Rotation.Holds, phase] using holds
    have stay := holds.sealedWith
    cases writes : rotation.writes with
    | nil =>
      cases planned : rotation.plan with
      | error message => exact stay
      | ok plan => exact ⟨early.commit writes planned, pending⟩
    | cons write rest =>
      cases write with
      | error message => exact stay
      | ok store =>
        have next := early.store writes
        exact ⟨⟨next.master, next.sealed, next.storing⟩, pending⟩
  | writeMaster =>
    obtain ⟨sealed_, pending⟩ : s.SealedWith [rotation.newKey] ∧ s.pending = some rotation.newKey := by
      simpa only [Rotation.Holds, phase] using holds
    exact ⟨sealed_, rfl⟩
  | removePending =>
    obtain ⟨sealed_, master⟩ : s.SealedWith [rotation.newKey] ∧ s.masterKey = rotation.newKey := by
      simpa only [Rotation.Holds, phase] using holds
    exact ⟨sealed_, master⟩
  | removePrevious =>
    obtain ⟨sealed_, master⟩ : s.SealedWith [rotation.newKey] ∧ s.masterKey = rotation.newKey := by
      simpa only [Rotation.Holds, phase] using holds
    refine KeyHome.SealedWith.single (s := { s with previous := none }) sealed_ ?_
    simp [KeyHome.keyFiles, master]

end Steps

/-- A rotation starts while every object is sealed with the master key, or goes on to the pending
key. Objects under the new names are not there or are the same. -/
def KeyState.Resumes (names : Text → StorageNames) (format : TreeFormat) (depth : Nat)
    (s : KeyState) : RotationEvent → Prop
  | .start newKey => s.home.SealedWith (s.home.resumeKeys newKey) ∧
      ∀ plan ∈ (s.home.vault.planRotation names format depth newKey).toOption,
        Vault.NoClash s.home.files plan.stores
  | _ => True

section Runs

variable {names : Text → StorageNames} {format : TreeFormat} {depth : Nat} {s s' : KeyState}

theorem KeyState.Holds.start {newKey : Text} {rotation : Rotation}
    (resumes : s.Resumes names format depth (.start newKey))
    (h : s.home.vault.startRotation names format depth newKey = .ok rotation) :
    rotation.Holds s.home := by
  unfold Vault.startRotation at h
  split at h
  · cases h
  obtain ⟨-, -, h⟩ := of_bind h
  split at h
  · cases h
  obtain ⟨reads, read, h⟩ := of_bind h
  obtain rfl := Except.ok.inj h
  refine ⟨rfl, resumes.1, ?_⟩
  intro plan planned
  refine ⟨(Vault.planRotation_planned planned).covers, s.home.files, [], plan.stores, rfl, ?_, rfl, ?_⟩
  · exact Vault.rotationWrites_eq read planned
  · exact resumes.2 plan (toOption_eq_some.mpr planned)

theorem KeyState.Holds.step {event : RotationEvent} (holds : s.Holds)
    (resumes : s.Resumes names format depth event) (h : s.exec names format depth event = some s') :
    s'.Holds := by
  cases event with
  | start newKey =>
    simp only [KeyState.exec] at h
    split at h
    · cases h
    · split at h
      · next rotation started =>
        obtain rfl := Option.some.inj h
        exact KeyState.Holds.start resumes started
      · obtain rfl := Option.some.inj h
        exact holds
  | advance =>
    obtain ⟨rotation, running, rfl⟩ := Option.map_eq_some_iff.mp h
    have now : rotation.Holds s.home := by simpa only [KeyState.Holds, running] using holds
    exact now.advance
  | removeFails =>
    simp only [KeyState.exec] at h
    split at h
    · next rotation running =>
      have now : rotation.Holds s.home := by simpa only [KeyState.Holds, running] using holds
      split at h
      · next phase =>
        obtain rfl := Option.some.inj h
        unfold Rotation.Holds at now
        rw [phase] at now
        exact now
      · obtain rfl := Option.some.inj h
        exact now.sealedWith
      · cases h
    · cases h
  | kill =>
    obtain rfl := Option.some.inj h
    exact holds.sealedWith

/-- Along every run of rotations that are killed and started again, the objects of the rows are
decoded with the key files that are there. -/
theorem KeyState.decodable_of_rotations {events : List RotationEvent} (idle : s.running = none)
    (decodable : s.home.Decodable)
    (run : Run (Meeting (Computes (KeyState.exec names format depth))
      (KeyState.Resumes names format depth)) s events s') :
    s'.home.Decodable := by
  have holds : s.Holds := by
    simp only [KeyState.Holds, idle]
    exact KeyHome.decodable_iff.mp decodable
  have holds' : s'.Holds := run.invariant (fun step now => now.step step.2 step.1) holds
  exact KeyHome.decodable_iff.mpr holds'.sealedWith

end Runs

instance (names : Text → StorageNames) (format : TreeFormat) (depth : Nat) (s : KeyState) :
    (event : RotationEvent) → Decidable (s.Resumes names format depth event)
  | .start newKey => inferInstanceAs (Decidable (s.home.SealedWith (s.home.resumeKeys newKey) ∧
      ∀ plan ∈ (s.home.vault.planRotation names format depth newKey).toOption, _))
  | .advance | .removeFails | .kill => isTrue trivial

namespace TwoFiles

def thirdKey : Text := List.replicate 64 'c'

def keyState : KeyState where
  home :=
    { encrypted := vault.encrypted
      masterKey := vault.masterKey
      pending := none
      previous := none
      files := vault.files
      packEntries := vault.packEntries
      db := vault.db
      journal := vault.journal }
  running := none

/-- A rotation that is killed between its transaction and the change of the master key. -/
def killed : List RotationEvent := .start newKey :: List.replicate 8 .advance ++ [.kill]

end TwoFiles

namespace KeyState

open TwoFiles

/-- The rotation is started again with the same key and ends. -/
theorem decodable_of_rotations_resumed : ∃ s',
    Run (Meeting (Computes (KeyState.exec names ⟨false, false, 0⟩ 3))
      (KeyState.Resumes names ⟨false, false, 0⟩ 3)) keyState
      (killed ++ .start newKey :: List.replicate 11 .advance) s' ∧
    s'.running.isNone ∧ s'.home.keyFiles = [newKey] ∧ s'.home.Decodable := by
  obtain ⟨s', run, ended⟩ := exists_run_of_execAll
    (guarded (KeyState.exec names ⟨false, false, 0⟩ 3) (KeyState.Resumes names ⟨false, false, 0⟩ 3))
    guarded_meeting keyState (killed ++ .start newKey :: List.replicate 11 .advance)
    (fun s' => s'.running.isNone ∧ s'.home.keyFiles = [newKey]) (by decide +kernel)
  obtain ⟨idle, keys⟩ := of_decide_eq_true ended
  exact ⟨s', run, idle, keys, decodable_of_rotations rfl (by decide +kernel) run⟩

/-- A rotation to another key takes away the pending key, which the rows need. -/
theorem rotation_after_kill_loses_key :
    keyState.home.Decodable ∧
    (execAll (KeyState.exec names ⟨false, false, 0⟩ 3) keyState killed).any
      (fun s' => s'.home.Decodable) = true ∧
    (execAll (KeyState.exec names ⟨false, false, 0⟩ 3) keyState
      (killed ++ [.start thirdKey, .advance, .advance, .kill])).any
      (fun s' => s'.home.keyFiles = [oldKey, thirdKey, oldKey] ∧
        ∀ places ∈ s'.home.sources, ∀ entry ∈ places, s'.home.vault.decodeObject entry = none) =
      true := by
  decide +kernel

end KeyState

end Majutsu.Repo
