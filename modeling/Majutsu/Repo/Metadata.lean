import Majutsu.Repo.Repository

/-!
# Commands on the metadata

The commands that write snapshot rows, payload rows and the payload index, as
functions on the database. An object is fixed by its key, so all objects that any
command ever stores form one `content`, and a command sees the part of it that is
readable while it runs.

`prune_stale_pack_indexes` is left out. It runs after the rows of payloads are
deleted, gives a pack row the `index_key` of a smaller index, and fails if an index
cannot be read. No row of a blob, a large object or a chunk depends on it, and a
prune that fails there is no step of the runs that are modelled.
-/

namespace Majutsu.Repo

open Loops

section Rows

variable {α : Type}

def insertOrIgnore [DecidableEq α] (rows : List α) (row : α) : List α :=
  if row ∈ rows then rows else rows ++ [row]

/-- `insert or replace` on a table with a text key. -/
def insertOrReplace (key : α → String) (rows : List α) (row : α) : List α :=
  rows.filter (fun other => key other ≠ key row) ++ [row]

def insertNew (key : α → String) (rows : List α) (row : α) : List α :=
  if rows.any (fun other => key other = key row) then rows else rows ++ [row]

theorem mem_foldl_insertOrIgnore [DecidableEq α] {rows new : List α} {row : α} :
    row ∈ new.foldl insertOrIgnore rows ↔ row ∈ rows ∨ row ∈ new := by
  induction new generalizing rows with
  | nil => simp
  | cons first new ih =>
    rw [List.foldl_cons, ih, insertOrIgnore]
    by_cases present : first ∈ rows
    · rw [if_pos present, List.mem_cons]
      constructor
      · rintro (old | later)
        · exact Or.inl old
        · exact Or.inr (Or.inr later)
      · rintro (old | rfl | later)
        · exact Or.inl old
        · exact Or.inl present
        · exact Or.inr later
    · rw [if_neg present, List.mem_append, List.mem_singleton, List.mem_cons, or_assoc]

end Rows

def payloadRow (snapshotId : String) (record : FileRecord) : Option PayloadRow :=
  match payloadBlobRef record.payload with
  | some ref => some ⟨snapshotId, .blob, ref.1⟩
  | none => (payloadLargeRef record.payload).map (fun ref => ⟨snapshotId, .large, ref.1⟩)

namespace Database

def empty : Database where
  snapshots := []
  blobs := []
  packs := []
  largeObjects := []
  chunks := []
  largePins := []
  snapshotPayloadIndex := []
  snapshotPayloads := []

variable (db : Database)

/-- Also `persist_snapshot_payload_index`. -/
def insertSnapshotPayloadIndex (manifest : SnapshotManifest) : Database :=
  { db with
    snapshotPayloads :=
      (manifest.flatRecords.filterMap (payloadRow manifest.snapshotId)).foldl insertOrIgnore
        (db.snapshotPayloads.filter (fun row => row.snapshotId ≠ manifest.snapshotId))
    snapshotPayloadIndex := insertOrIgnore db.snapshotPayloadIndex manifest.snapshotId }

end Database

inductive RootAction where
  /-- A root that was deleted. -/
  | skip
  /-- A root that is not scanned: inactive, missing, unmounted, unreadable or not asked for. -/
  | carry
  /-- The records of a scan, and the tree that was stored for them. -/
  | scan (records : List FileRecord) (rootTree : RootSnapshot)

def RootAction.isCarry : RootAction → Bool
  | .carry => true
  | _ => false

structure Roots where
  trees : Entries RootSnapshot
  records : Entries (List FileRecord)

def carryForwardRootSnapshot (parent : Option SnapshotManifest) (rootId : String) (roots : Roots) :
    Roots :=
  match parent with
  | none => roots
  | some parent =>
    { trees := match parent.rootTrees.get rootId with
        | some rootTree => roots.trees.insert rootId rootTree
        | none => roots.trees
      records := match parent.roots.get rootId with
        | some records => roots.records.insert rootId records
        | none => roots.records }

/-- The entries of `build_tree_manifest`. -/
def buildTreeEntries (records : List FileRecord) : Entries FileRecord :=
  records.foldl (fun entries record => entries.insert record.path record) []

structure SnapshotCall where
  snapshotId : String
  opId : String
  /-- The snapshot that the ref `current` names. -/
  parent : Option String
  roots : List (String × RootAction)
  blobs : List BlobRow
  manifestKey : Key
  allowNoop : Bool

structure RewriteCall where
  snapshotId : String
  rootId : String
  isManaged : FileRecord → Bool
  rootTree : RootSnapshot
  manifestKey : Key

structure MetadataExport where
  snapshots : List (String × Key)
  blobs : List BlobRow
  packs : List PackRow
  largeObjects : List LargeObjectRow
  chunks : List ChunkObjectRow
  largePins : List Oid

namespace View

variable (view : View)

def loadSnapshotById (depth : Nat) (db : Database) (id : String) :
    Except String SnapshotManifest :=
  match db.snapshots.find? (fun row => row.id = id) with
  | none => .error s!"no snapshot {id}"
  | some row => view.snapshotManifestFromParts depth row

def loadParent (depth : Nat) (db : Database) : Option String →
    Except String (Option SnapshotManifest)
  | none => .ok none
  | some id => do
    let manifest ← view.loadSnapshotById depth db id
    .ok (some manifest)

/-- What the scan of a root reads of the parent. -/
def loadParentRoot (depth : Nat) (parent : Option SnapshotManifest) (rootId : String) :
    Except String Unit :=
  match parent.bind (fun parent => parent.rootTrees.get rootId) with
  | none => .ok ()
  | some rootTree => do
    let _ ← view.loadRootTreeEntries depth rootTree
    .ok ()

def snapshotRoot (depth : Nat) (parent : Option SnapshotManifest) (roots : Roots)
    (root : String × RootAction) : Except String Roots :=
  match root.2 with
  | .skip => .ok roots
  | .carry => .ok (carryForwardRootSnapshot parent root.1 roots)
  | .scan records rootTree => do
    view.loadParentRoot depth parent root.1
    .ok { trees := roots.trees.insert root.1 rootTree
          records := roots.records.insert root.1 (buildTreeEntries records).values }

def snapshotManifest (depth : Nat) (parent : Option SnapshotManifest) (call : SnapshotCall) :
    Except String SnapshotManifest := do
  let roots ← call.roots.foldlM (view.snapshotRoot depth parent) ⟨[], []⟩
  .ok { snapshotId := call.snapshotId
        parent := call.parent
        opId := call.opId
        rootTrees := roots.trees
        roots := roots.records }

end View

def snapshotIsNoop (parent : Option SnapshotManifest) (manifest : SnapshotManifest) : Bool :=
  match parent with
  | none => false
  | some parent =>
    parent.rootTrees.length = manifest.rootTrees.length &&
      parent.rootTrees.all (fun previous =>
        (manifest.rootTrees.get previous.1).any (fun current =>
          previous.2.treeId = current.treeId && previous.2.fileCount = current.fileCount))

def compactManifest (manifest : SnapshotManifest) : SnapshotManifest := { manifest with roots := [] }

structure LiveMetadataReferences where
  blobs : List Oid
  largeObjects : List Oid

def liveOf (records : List FileRecord) : LiveMetadataReferences where
  blobs := records.filterMap (fun record => (payloadBlobRef record.payload).map Prod.fst)
  largeObjects := records.filterMap (fun record => (payloadLargeRef record.payload).map Prod.fst)

namespace Database

variable (db : Database) (view : View)

def insertSnapshotRow (call : SnapshotCall) : Database :=
  { db with
    blobs := call.blobs.foldl (insertNew BlobRow.oid) db.blobs
    snapshots := db.snapshots ++ [⟨call.snapshotId, call.manifestKey, .empty⟩] }

def commitSnapshot (call : SnapshotCall) (manifest : SnapshotManifest) : Database :=
  (db.insertSnapshotRow call).insertSnapshotPayloadIndex manifest

/-- The history rewrite of one snapshot: the manifest that it stores, if it stores one. -/
def rewrittenManifest (depth : Nat) (call : RewriteCall) (row : SnapshotRow) :
    Except String (Option SnapshotManifest) := do
  let manifest ← view.loadSnapshotHeader row
  match manifest.rootTrees.get call.rootId with
  | none => .ok none
  | some rootSnapshot => do
    let entries ← view.loadRootTreeEntries depth rootSnapshot
    let kept := entries.values.filter call.isManaged
    if kept.length = entries.length then .ok none
    else .ok (some
      { manifest with
        rootTrees := manifest.rootTrees.insert call.rootId call.rootTree
        roots := manifest.roots.insert call.rootId (buildTreeEntries kept).values })

def updateSnapshotRow (id : String) (manifestKey : Key) : Database :=
  { db with
    snapshots := db.snapshots.map (fun row =>
      if row.id = id then { row with manifestKey := manifestKey, manifestJson := .empty }
      else row) }

def commitRewrite (call : RewriteCall) (manifest : SnapshotManifest) : Database :=
  (db.updateSnapshotRow call.snapshotId call.manifestKey).insertSnapshotPayloadIndex manifest

/-- `snapshot_manifest_for_index_backfill`. Without hydration only a manifest with flat roots is
taken. -/
def manifestForIndexBackfill (depth : Nat) (hydrateMissing : Bool) (row : SnapshotRow) :
    Except String (Option SnapshotManifest) :=
  if hydrateMissing then do
    let manifest ← view.snapshotManifestFromParts depth row
    .ok (some manifest)
  else if row.manifestJson = .empty ∧ view row.manifestKey = none then .ok none
  else do
    let manifest ← view.loadSnapshotHeader row
    if !manifest.roots.isEmpty || manifest.rootTrees.isEmpty then .ok (some manifest)
    else .ok none

def importMetadata (metadata : MetadataExport) : Database :=
  { db with
    snapshots := metadata.snapshots.foldl
      (fun rows row => insertOrReplace SnapshotRow.id rows ⟨row.1, row.2, .empty⟩) db.snapshots
    blobs := metadata.blobs.foldl (insertOrReplace BlobRow.oid) db.blobs
    packs := metadata.packs.foldl (insertOrReplace PackRow.packId) db.packs
    largeObjects := metadata.largeObjects.foldl (insertOrReplace LargeObjectRow.oid) db.largeObjects
    chunks := metadata.chunks.foldl (insertOrReplace ChunkObjectRow.oid) db.chunks
    largePins := metadata.largePins.foldl insertOrIgnore db.largePins }

def indexedLiveMetadataReferences : Option LiveMetadataReferences :=
  if db.snapshots.all (fun row => row.id ∈ db.snapshotPayloadIndex) then
    let rows := db.snapshotPayloads.filter
      (fun row => db.snapshots.any (fun snapshot => snapshot.id = row.snapshotId))
    some { blobs := (rows.filter (fun row => row.kind = .blob)).map PayloadRow.oid
           largeObjects := (rows.filter (fun row => row.kind = .large)).map PayloadRow.oid }
  else none

def scanSnapshot (depth : Nat) (row : SnapshotRow) : Except String (List FileRecord) := do
  let manifest ← view.snapshotManifestFromParts depth row
  let trees ← manifest.rootTrees.values.mapM (view.visitTreeRecords depth)
  .ok (manifest.flatRecords ++ trees.flatten)

def scanLiveMetadataReferences (depth : Nat) : Except String LiveMetadataReferences := do
  let records ← db.snapshots.mapM (scanSnapshot view depth)
  .ok (liveOf records.flatten)

def liveMetadataReferences (depth : Nat) : Except String LiveMetadataReferences :=
  match db.indexedLiveMetadataReferences with
  | some live => .ok live
  | none => db.scanLiveMetadataReferences view depth

/-- The chunks of the remaining large objects, unless one of their manifests cannot be read. -/
def liveChunksFromRemainingLargeObjects : Option (List Oid) :=
  match db.largeObjects.mapM (fun row => view.readLarge row.manifestKey) with
  | .ok manifests => some (manifests.flatMap (fun manifest => manifest.chunks.map Prod.fst))
  | .error _ => none

def deleteChunksNotIn (live : Option (List Oid)) : Database :=
  match live with
  | none => db
  | some live => { db with chunks := db.chunks.filter (fun row => row.oid ∈ live) }

def deletePayloadsNotIn (live : LiveMetadataReferences) : Database :=
  { db with
    blobs := db.blobs.filter (fun row => row.oid ∈ live.blobs)
    largeObjects := db.largeObjects.filter (fun row => row.oid ∈ live.largeObjects)
    largePins := db.largePins.filter (fun oid => oid ∈ live.largeObjects) }

def deletePacksWithoutBlobs : Database :=
  { db with
    packs := db.packs.filter (fun pack => db.blobs.any (fun blob => blob.packId = some pack.packId)) }

def deleteSnapshotPayloadIndexesWithoutSnapshots : Database :=
  { db with
    snapshotPayloads := db.snapshotPayloads.filter
      (fun row => db.snapshots.any (fun snapshot => snapshot.id = row.snapshotId))
    snapshotPayloadIndex := db.snapshotPayloadIndex.filter
      (fun id => db.snapshots.any (fun snapshot => snapshot.id = id)) }

def pruneUnreferencedMetadata (depth : Nat) : Except String Database := do
  let live ← db.liveMetadataReferences view depth
  let db := db.deletePayloadsNotIn live
  let db := db.deleteChunksNotIn (db.liveChunksFromRemainingLargeObjects view)
  .ok db.deletePacksWithoutBlobs.deleteSnapshotPayloadIndexesWithoutSnapshots

def deleteSnapshots (ids : List String) : Database :=
  { db with snapshots := db.snapshots.filter (fun row => row.id ∉ ids) }

def storeLarge (row : LargeObjectRow) (chunks : List ChunkObjectRow) : Database :=
  { db with
    chunks := chunks.foldl (insertOrReplace ChunkObjectRow.oid) db.chunks
    largeObjects := insertOrReplace LargeObjectRow.oid db.largeObjects row }

end Database

end Majutsu.Repo
