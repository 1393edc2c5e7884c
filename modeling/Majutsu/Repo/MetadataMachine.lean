import Majutsu.Lib.Machine
import Majutsu.Repo.Metadata

/-!
# Histories of metadata commands

The commands of a repository as steps on its database, each at a moment that says
what can be read. Whether a prune may trust the payload index depends on what the
earlier steps have indexed: `indexes` is the condition on a step.
-/

namespace Majutsu.Repo

open Loops Machine

/-- When a command runs: what it can read, and how deep the trees go that it expands. -/
structure Moment where
  readable : Key → Bool
  depth : Nat

inductive MetadataCommand where
  | snapshot (call : SnapshotCall)
  /-- Rows that a scan or the enrichment of the journal writes. -/
  | storeBlob (row : BlobRow)
  | storeLarge (row : LargeObjectRow) (chunks : List ChunkObjectRow)
  /-- One row of the history rewrite of `root set` and `untrack`. -/
  | rewrite (call : RewriteCall)
  /-- `fsck` with `--backfill-index`, for one snapshot. -/
  | backfill (snapshotId : String) (hydrateMissing : Bool)
  /-- `fsck` with `--since`, for one snapshot. -/
  | fsckSince (snapshotId : String)
  | clone (metadata : MetadataExport)
  | prune (deleted : List String)
  /-- `pack`: the keys of the loose files that are there, and the packs that were written. -/
  | pack (present : Key → Bool) (packs : List (PackRow × List Oid))

abbrev MetadataEvent := Moment × MetadataCommand

namespace View

variable (content : View)

/-- The tree object under a key stands for the entries it was stored for. -/
def storesTree (depth : Nat) (rootTree : RootSnapshot) (entries : Entries FileRecord) : Bool :=
  match content.loadRootTreeEntries depth rootTree with
  | .ok stored =>
    stored.values.all (fun record => record ∈ entries.values) &&
      entries.values.all (fun record => record ∈ stored.values)
  | .error _ => false

def storesScans (depth : Nat) (roots : List (String × RootAction)) : Bool :=
  roots.all (fun root =>
    match root.2 with
    | .scan records rootTree => content.storesTree depth rootTree (buildTreeEntries records)
    | _ => true)

def storesManifest (key : Key) (manifest : SnapshotManifest) : Bool :=
  content key = some (.snapshot (compactManifest manifest) true)

def listsRoot (depth : Nat) (rootTree : RootSnapshot) (records : List FileRecord) : Bool :=
  match content.loadRootTreeEntries depth rootTree with
  | .ok entries => entries.values.all (fun record => record ∈ records)
  | .error _ => false

/-- The manifest lists flat, root by root, what its root trees hold. -/
def lists (depth : Nat) (manifest : SnapshotManifest) : Bool :=
  manifest.rootTrees.all
    (fun root => content.listsRoot depth root.2 ((manifest.roots.get root.1).getD []))

end View

namespace Database

variable (content : View)

def removeUnreferencedMissingLooseBlobs (db : Database) (present : Key → Bool) : Database :=
  { db with
    blobs := db.blobs.filter (fun blob =>
      blob.packId.isSome || present blob.objectKey ||
        db.snapshotPayloads.any (fun row => row.kind = .blob ∧ row.oid = blob.oid)) }

def packBlob (present : Key → Bool) (packs : List (PackRow × List Oid)) (blob : BlobRow) :
    BlobRow :=
  if blob.packId.isNone && present blob.objectKey then
    match packs.find? (fun pack => blob.oid ∈ pack.2) with
    | some pack => { blob with packId := some pack.1.packId }
    | none => blob
  else blob

def packLooseBlobs (db : Database) (present : Key → Bool) (packs : List (PackRow × List Oid)) :
    Database :=
  let kept := db.removeUnreferencedMissingLooseBlobs present
  { kept with
    blobs := kept.blobs.map (packBlob present packs)
    packs := packs.foldl (fun rows pack => insertOrReplace PackRow.packId rows pack.1) kept.packs }

def execSnapshot (moment : Moment) (db : Database) (call : SnapshotCall) : Option Database := do
  let view := content.only moment.readable
  let parent ← (view.loadParent moment.depth db call.parent).toOption
  let manifest ← (view.snapshotManifest moment.depth parent call).toOption
  if snapshotIsNoop parent manifest && !call.allowNoop then some db
  -- the ids of snapshots and of roots are keys of their tables
  else if db.snapshots.any (fun row => row.id = call.snapshotId) then none
  else if !(call.roots.map Prod.fst).Nodup then none
  else if content.storesScans moment.depth call.roots &&
      content.storesManifest call.manifestKey manifest then
    some (db.commitSnapshot call manifest)
  else none

def execRewrite (moment : Moment) (db : Database) (call : RewriteCall) : Option Database := do
  let row ← db.snapshots.find? (fun row => row.id = call.snapshotId)
  let view := content.only moment.readable
  match ← (rewrittenManifest view moment.depth call row).toOption with
  | none => some db
  | some manifest =>
    if (manifest.roots.get call.rootId).all (fun records =>
          content.storesTree moment.depth call.rootTree (buildTreeEntries records)) &&
        content.storesManifest call.manifestKey manifest then
      some (db.commitRewrite call manifest)
    else none

def execBackfill (moment : Moment) (db : Database) (snapshotId : String) (hydrateMissing : Bool) :
    Option Database := do
  let row ← db.snapshots.find? (fun row => row.id = snapshotId)
  if row.id ∈ db.snapshotPayloadIndex then some db
  else
    let view := content.only moment.readable
    match ← (manifestForIndexBackfill view moment.depth hydrateMissing row).toOption with
    | none => some db
    | some manifest => some (db.insertSnapshotPayloadIndex manifest)

def execFsckSince (moment : Moment) (db : Database) (snapshotId : String) : Option Database := do
  let row ← db.snapshots.find? (fun row => row.id = snapshotId)
  let view := content.only moment.readable
  let manifest ← (view.snapshotManifestFromParts moment.depth row).toOption
  some (db.insertSnapshotPayloadIndex manifest)

def exec (db : Database) (event : MetadataEvent) : Option Database :=
  match event.2 with
  | .snapshot call => execSnapshot content event.1 db call
  | .storeBlob row => some { db with blobs := insertNew BlobRow.oid db.blobs row }
  | .storeLarge row chunks => some (db.storeLarge row chunks)
  | .rewrite call => execRewrite content event.1 db call
  | .backfill snapshotId hydrateMissing =>
    execBackfill content event.1 db snapshotId hydrateMissing
  | .fsckSince snapshotId => execFsckSince content event.1 db snapshotId
  | .clone metadata => some (empty.importMetadata metadata)
  | .prune deleted =>
    ((db.deleteSnapshots deleted).pruneUnreferencedMetadata (content.only event.1.readable)
      event.1.depth).toOption
  | .pack present packs => some (db.packLooseBlobs present packs)

/-- The manifest of a row that a step loads and hands to the index, with the id of the row. -/
def indexedManifest (db : Database) (event : MetadataEvent) : Option (String × SnapshotManifest) :=
  let view := content.only event.1.readable
  match event.2 with
  | .rewrite call => do
    let row ← db.snapshots.find? (fun row => row.id = call.snapshotId)
    let rewritten ← (rewrittenManifest view event.1.depth call row).toOption
    rewritten.map (fun manifest => (row.id, manifest))
  | .backfill snapshotId hydrateMissing => do
    let row ← db.snapshots.find? (fun row => row.id = snapshotId)
    let found ← (manifestForIndexBackfill view event.1.depth hydrateMissing row).toOption
    found.map (fun manifest => (row.id, manifest))
  | .fsckSince snapshotId => do
    let row ← db.snapshots.find? (fun row => row.id = snapshotId)
    let manifest ← (view.snapshotManifestFromParts event.1.depth row).toOption
    some (row.id, manifest)
  | _ => none

/-- The parent of a snapshot that carries roots over from it. -/
def carriedParent (db : Database) (event : MetadataEvent) : Option SnapshotManifest :=
  match event.2 with
  | .snapshot call =>
    if call.roots.any (fun root => root.2.isCarry) then do
      let view := content.only event.1.readable
      let parent ← (view.loadParent event.1.depth db call.parent).toOption
      parent
    else none
  | _ => none

/-- A manifest that is loaded to be indexed is that of its snapshot and lists flat what its root
trees hold, and so does a parent that roots are carried over from. -/
def indexes (db : Database) (event : MetadataEvent) : Prop :=
  (∀ indexed ∈ indexedManifest content db event,
    indexed.2.snapshotId = indexed.1 ∧ content.lists event.1.depth indexed.2) ∧
  ∀ parent ∈ carriedParent content db event, content.lists event.1.depth parent

instance (db : Database) (event : MetadataEvent) : Decidable (indexes content db event) :=
  inferInstanceAs (Decidable (
    (∀ indexed ∈ indexedManifest content db event,
      indexed.2.snapshotId = indexed.1 ∧ content.lists event.1.depth indexed.2) ∧
    ∀ parent ∈ carriedParent content db event, content.lists event.1.depth parent))

end Database

end Majutsu.Repo
