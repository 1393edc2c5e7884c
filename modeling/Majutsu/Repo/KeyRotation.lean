import Majutsu.Repo.ObjectCodec
import Majutsu.Repo.FileMaps

/-!
# Rotating the master key

`rotate_master_key` reads every payload and every snapshot with the old key, writes
them again under the new key in separate passes, moves the rows to the new objects
in one transaction and writes the new key last. Trees are built again from the flat
records of the loaded manifests.

An object is sealed with one master key and is read with that key only. `files` is
what a read finds, in the home or on the remote.
-/

namespace Majutsu.Repo

open Loops

/-- A master key, and the object that is sealed with it. -/
abbrev Sealed := Text × Object

structure Vault where
  /-- `encryption_enabled` of the configuration. -/
  encrypted : Bool
  masterKey : Text
  /-- The keys of the files `key.pending` and `key.prev`. -/
  rotationKeys : List Text
  files : Entries Sealed
  /-- The objects in packs, by the pack and the blob. -/
  packEntries : List ((String × Oid) × Sealed)
  db : Database
  journal : List EventJournalRecord

/-- The names of objects under a master key. The name of a chunk is in the directory of its old one. -/
structure StorageNames extends TreeNames where
  blob : Oid → Key
  chunk : Key → Oid → Key
  largeManifest : LargeRefs → Key
  snapshot : SnapshotManifest → Key

namespace Vault

variable (s : Vault)

/-- `decode_object`: the keys of a rotation that did not end are tried too. -/
def decodeObject (entry : Sealed) : Option Object :=
  if entry.1 = s.masterKey ∨ entry.1 ∈ s.rotationKeys then some entry.2 else none

def view : View := fun key => (s.files.get key).bind s.decodeObject

def readPayload (key : Key) : Except String Bytes :=
  match s.view key with
  | some (.payload bytes) => .ok bytes
  | _ => .error s!"read object {key}"

def packEntry (packId : String) (oid : Oid) : Option Object :=
  ((s.packEntries.find? (fun entry => entry.1 = (packId, oid))).map Prod.snd).bind s.decodeObject

/-- A pack that is missing is passed over for the loose object. -/
def readBlobPayload (oid : Oid) (fallbackKey : Key) : Except String Bytes :=
  match s.db.blobs.find? (fun blob => blob.oid = oid) with
  | none => s.readPayload fallbackKey
  | some blob =>
    match blob.packId with
    | none => s.readPayload fallbackKey
    | some packId =>
      if s.db.packs.any (fun pack => pack.packId = packId) then
        match s.packEntry packId oid with
        | some (.payload bytes) => .ok bytes
        | _ => s.readPayload fallbackKey
      else .error "Query returned no rows"

/-- The stored chunks of a large file, which a restore decompresses and joins. -/
def readLargePayload (manifestKey : Key) (chunkCount : Nat) : Except String (List Bytes) := do
  let manifest ← s.view.readLarge manifestKey
  if manifest.chunks.length ≠ chunkCount then
    .error s!"large manifest chunk count mismatch for {manifestKey}"
  else manifest.chunks.mapM (fun chunk => s.readPayload chunk.2)

/-- The bytes of a payload, in the pieces they are stored in. -/
def readFile (payload : Payload) : Except String (List Bytes) :=
  match payloadBlobRef payload, payloadLargeRef payload with
  | some (oid, key), _ => (s.readBlobPayload oid key).map ([·])
  | none, some (_, key, count) => s.readLargePayload key count
  | none, none => .ok []

end Vault

/-- `payload_blob_ref_mut` and `payload_large_ref_mut`. -/
def Payload.withKey (key : Key) : Payload → Payload
  | .inlineSmall oid _ => .inlineSmall oid key
  | .normalBlob oid _ => .normalBlob oid key
  | .blob oid _ => .blob oid key
  | .chunkedBlob oid _ count => .chunkedBlob oid key count
  | .largeObject oid _ count pointer => .largeObject oid key count pointer
  | .large oid _ count => .large oid key count
  | other => other

def rewriteRecordKeys (blobKeys largeManifestKeys : Entries Key) (record : FileRecord) :
    Except String FileRecord :=
  match payloadBlobRef record.payload, payloadLargeRef record.payload with
  | some (oid, _), _ =>
    match blobKeys.get oid with
    | some key => .ok { record with payload := record.payload.withKey key }
    | none => .error s!"missing rotated blob key {oid}"
  | none, some (oid, _, _) =>
    match largeManifestKeys.get oid with
    | some key => .ok { record with payload := record.payload.withKey key }
    | none => .error s!"missing rotated large manifest key {oid}"
  | none, none => .ok record

def rewriteRootKeys (blobKeys largeManifestKeys : Entries Key) (root : String × List FileRecord) :
    Except String (String × List FileRecord) := do
  let records ← root.2.mapM (rewriteRecordKeys blobKeys largeManifestKeys)
  .ok (root.1, records)

def rewriteManifestPayloadKeys (blobKeys largeManifestKeys : Entries Key)
    (manifest : SnapshotManifest) : Except String SnapshotManifest := do
  let roots ← manifest.roots.mapM (rewriteRootKeys blobKeys largeManifestKeys)
  .ok { manifest with roots := roots }

def rewriteChunkKey (chunkKeys : Entries Key) (chunk : Oid × Key) : Except String (Oid × Key) :=
  match chunkKeys.get chunk.1 with
  | some key => .ok (chunk.1, key)
  | none => .error s!"missing rotated chunk key {chunk.1}"

def rewriteChunkKeys (chunkKeys : Entries Key) (manifest : LargeRefs) : Except String LargeRefs := do
  let chunks ← manifest.chunks.mapM (rewriteChunkKey chunkKeys)
  .ok { manifest with chunks := chunks }

/-- What a rotation has written before its transaction. -/
structure RotationPlan where
  blobKeys : Entries Key
  chunkKeys : Entries Key
  largeManifestKeys : Entries Key
  snapshotUpdates : Entries Key
  stores : List (Key × Sealed)

namespace Vault

variable (names : Text → StorageNames) (format : TreeFormat) (depth : Nat) (s : Vault) (newKey : Text)

/-- A root of a manifest with its new tree. The nodes go through `store_bytes`, which seals with the
key that is still in place. -/
def rotateRoot (root : String × List FileRecord) :
    (String × RootSnapshot) × List (Key × Sealed) :=
  let prepared := prepareTreeManifestForStorage (names s.masterKey).toTreeNames format
    (buildTreeManifest (names newKey).toTreeNames root.1 root.2)
  let treeKey := (names newKey).tree prepared.1
  ((root.1, ⟨prepared.1.treeId, treeKey, root.2.length⟩),
    prepared.2.map (fun node => ((names s.masterKey).node node, (s.masterKey, .node node))) ++
      [(treeKey, (newKey, .tree prepared.1))])

/-- A manifest whose payload keys are rewritten: its new key and what is stored for it. -/
def rotateSnapshot (manifest : SnapshotManifest) : Key × List (Key × Sealed) :=
  let roots := manifest.roots.map (s.rotateRoot names format newKey)
  let rotated := { manifest with rootTrees := roots.map Prod.fst }
  let manifestKey := (names newKey).snapshot rotated
  (manifestKey, roots.flatMap Prod.snd ++
    [(manifestKey, (newKey, .snapshot { rotated with roots := [] } true))])

def planRotation : Except String RotationPlan := do
  let blobPayloads ← s.db.blobs.mapM (fun blob => s.readBlobPayload blob.oid blob.objectKey)
  let chunkPayloads ← s.db.chunks.mapM (fun chunk => s.readPayload chunk.objectKey)
  let largeManifests ← s.db.largeObjects.mapM (fun large => s.view.readLarge large.manifestKey)
  let manifests ← s.db.snapshots.mapM (fun row => s.view.snapshotManifestFromParts depth row)
  let blobKeys := s.db.blobs.map (fun blob => (blob.oid, (names newKey).blob blob.oid))
  let chunkKeys := s.db.chunks.map
    (fun chunk => (chunk.oid, (names newKey).chunk chunk.objectKey chunk.oid))
  let rotatedLarge ← largeManifests.mapM (rewriteChunkKeys chunkKeys)
  let largeManifestKeys := (s.db.largeObjects.zip rotatedLarge).map
    (fun large => (large.1.oid, (names newKey).largeManifest large.2))
  let rewritten ← manifests.mapM (rewriteManifestPayloadKeys blobKeys largeManifestKeys)
  .ok
    { blobKeys := blobKeys
      chunkKeys := chunkKeys
      largeManifestKeys := largeManifestKeys
      snapshotUpdates := (s.db.snapshots.zip rewritten).map
        (fun row => (row.1.id, (s.rotateSnapshot names format newKey row.2).1))
      stores :=
        (s.db.blobs.zip blobPayloads).map
          (fun blob => ((names newKey).blob blob.1.oid, (newKey, .payload blob.2))) ++
        (s.db.chunks.zip chunkPayloads).map (fun chunk =>
          ((names newKey).chunk chunk.1.objectKey chunk.1.oid, (newKey, .payload chunk.2))) ++
        rotatedLarge.map
          (fun manifest => ((names newKey).largeManifest manifest, (newKey, .large manifest))) ++
        rewritten.flatMap (fun manifest => (s.rotateSnapshot names format newKey manifest).2) }

/-- `store_encoded_object_bytes_with_storage_id`: what is there stays. -/
def storeObject (files : Entries Sealed) (store : Key × Sealed) : Entries Sealed :=
  if (files.get store.1).isSome then files else files.insert store.1 store.2

def storeAll (files : Entries Sealed) (stores : List (Key × Sealed)) : Entries Sealed :=
  stores.foldl storeObject files

/-- The transaction. -/
def rotatedRows (db : Database) (plan : RotationPlan) : Database :=
  { db with
    blobs := db.blobs.map (fun blob =>
      { blob with objectKey := (plan.blobKeys.get blob.oid).getD blob.objectKey, packId := none })
    packs := []
    chunks := db.chunks.map (fun chunk =>
      { chunk with objectKey := (plan.chunkKeys.get chunk.oid).getD chunk.objectKey })
    largeObjects := db.largeObjects.map (fun large =>
      { large with manifestKey := (plan.largeManifestKeys.get large.oid).getD large.manifestKey })
    snapshots := db.snapshots.map (fun row =>
      match plan.snapshotUpdates.get row.id with
      | some key => { row with manifestKey := key, manifestJson := .empty }
      | none => row) }

/-- The state after the transaction and the change of the key file. -/
def commitRotation (plan : RotationPlan) : Vault :=
  { s with
    masterKey := newKey
    rotationKeys := []
    files := storeAll s.files plan.stores
    db := rotatedRows s.db plan }

def rotateMasterKey : Except String Vault := do
  if !s.encrypted then .error "key rotation requires encrypted state"
  else do
    validateKeyHex newKey
    if trim s.masterKey = trim newKey then .error "new key must differ from current key"
    else do
      let plan ← s.planRotation names format depth newKey
      .ok (s.commitRotation newKey plan)

end Vault

end Majutsu.Repo
