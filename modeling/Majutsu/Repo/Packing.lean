import Majutsu.Repo.LiveKeys
import Majutsu.Repo.MetadataPrune

/-!
# Packing and the remote

`pack` deletes the row of a loose blob whose file is missing unless the payload
index names the blob. A later sync that prunes the remote takes the walk over the
trees and the rows for all that is live, so a row that is gone takes the remote
object with it.
-/

namespace Majutsu.Repo

open Loops Machine

/-- How a remote names the objects of a repository. -/
structure RemoteNames where
  canonicalAliases : Key → List Key
  canonicalOnly : Key → Bool
  hostRemoteKey : Key → Key

namespace RemoteNames

variable (names : RemoteNames)

/-- `remote_live_object_keys_from_local_keys`, with the prefix of the host. -/
def remoteLiveObjectKeys (localKeys : List Key) : List Key :=
  (localKeys.flatMap (fun key =>
    (if names.canonicalOnly key then [] else [key]) ++ names.canonicalAliases key)).map
      names.hostRemoteKey

/-- The keys that are left on the remote. `others` are live for the journal or for other hosts. -/
def pruneRemoteUnreferencedContentObjects (localKeys others remoteKeys : List Key) : List Key :=
  remoteKeys.filter (fun key => key ∈ names.remoteLiveObjectKeys localKeys ++ others)

theorem remoteLiveObjectKeys_mono {key : Key} {localKeys : List Key} (h : key ∈ localKeys)
    {name : Key} (named : name ∈ names.remoteLiveObjectKeys [key]) :
    name ∈ names.remoteLiveObjectKeys localKeys := by
  obtain ⟨plain, inside, rfl⟩ := List.mem_map.mp named
  obtain ⟨key', same, own⟩ := List.mem_flatMap.mp inside
  obtain rfl := List.mem_singleton.mp same
  exact List.mem_map.mpr ⟨plain, List.mem_flatMap.mpr ⟨key', h, own⟩, rfl⟩

end RemoteNames

def Database.payloadKey (db : Database) (blob : BlobRow) : Option Key :=
  match blob.packId with
  | none => some blob.objectKey
  | some packId => (db.packs.find? (fun pack => pack.packId = packId)).map PackRow.packKey

section Packing

variable {content : View} {db : Database} {present : Key → Bool} {packs : List (PackRow × List Oid)}

theorem Database.packBlob_oid (blob : BlobRow) :
    (Database.packBlob present packs blob).oid = blob.oid := by
  unfold Database.packBlob
  split
  · split <;> rfl
  · rfl

theorem Database.packBlob_objectKey (blob : BlobRow) :
    (Database.packBlob present packs blob).objectKey = blob.objectKey := by
  unfold Database.packBlob
  split
  · split <;> rfl
  · rfl

theorem Database.packBlob_of_missing {blob : BlobRow} (missing : ¬ present blob.objectKey) :
    Database.packBlob present packs blob = blob := by
  unfold Database.packBlob
  rw [if_neg (by simp [missing])]

theorem Database.mem_packLooseBlobs {blob : BlobRow} {id : String} (inside : blob ∈ db.blobs)
    (indexed : ⟨id, .blob, blob.oid⟩ ∈ db.snapshotPayloads) :
    Database.packBlob present packs blob ∈ (db.packLooseBlobs present packs).blobs := by
  apply List.mem_map.mpr
  refine ⟨blob, List.mem_filter.mpr ⟨inside, ?_⟩, rfl⟩
  rw [Bool.or_eq_true]
  right
  exact List.any_eq_true.mpr ⟨_, indexed, by simp⟩

theorem Database.payloadKey_live {view : View} {depth : Nat} {keys : List Key}
    (le : view.Le content) (h : db.localObjectKeys view depth = .ok keys) {row : SnapshotRow}
    (inside : row ∈ db.snapshots) {header : SnapshotManifest}
    (load : content.loadSnapshotHeader row = .ok header) {rootTree : RootSnapshot}
    (tree : rootTree ∈ header.rootTrees.values) {depth' : Nat} {entries : Entries FileRecord}
    (expanded : content.loadRootTreeEntries depth' rootTree = .ok entries) {record : FileRecord}
    (listed : record ∈ entries.values) {ref : Oid × Key}
    (blobRef : payloadBlobRef record.payload = some ref) {blob : BlobRow} (member : blob ∈ db.blobs)
    (same : blob.oid = ref.1) {key : Key} (keyOf : db.payloadKey blob = some key) : key ∈ keys := by
  obtain ⟨marks, marked, result⟩ := of_bind h
  cases result
  rw [Database.mem_liveKeys_iff marked]
  obtain ⟨manifest, headerOf, trees⟩ := Database.treeLists_of_marks marked inside
  obtain rfl : header = manifest :=
    Except.ok.inj (load.symm.trans (le.loadSnapshotHeader headerOf))
  obtain ⟨entries', load'⟩ := trees rootTree tree
  obtain rfl := View.loadRootTreeEntries_unique expanded
    (le.trees.loadRootTreeEntries (Nat.le_refl depth) load')
  have lists : db.Lists view record :=
    ⟨row, inside, rootTree, ⟨header, headerOf, tree⟩, depth, entries, load', listed⟩
  have oid : record.blobOid = some blob.oid := by rw [FileRecord.blobOid, blobRef, same]; rfl
  unfold Database.payloadKey at keyOf
  split at keyOf
  · next loose =>
    cases keyOf
    exact .blob lists oid member loose
  · next packId packed =>
    obtain ⟨pack, found, rfl⟩ := Option.map_eq_some_iff.mp keyOf
    have packIs : pack.packId = packId := by simpa using List.find?_some found
    exact .pack lists oid member (List.mem_of_find?_eq_some found) (packIs ▸ packed)
      List.mem_cons_self

end Packing

/-- What a pack leaves of a row that a snapshot refers to: the row, unpacked if its file was
missing, and after a later prune of the remote the object that holds its payload. -/
structure KeepsReferenced (content : View) (present : Key → Bool) (db' : Database)
    (row : SnapshotRow) (record : FileRecord) (blob : BlobRow) : Prop where
  keptRow : ∃ kept ∈ db'.blobs, kept.oid = blob.oid ∧ kept.objectKey = blob.objectKey ∧
    (¬ present blob.objectKey → kept = blob)
  remote : ∀ header, content.loadSnapshotHeader row = .ok header →
    ∀ rootTree ∈ header.rootTrees.values, ∀ depth entries,
      content.loadRootTreeEntries depth rootTree = .ok entries → record ∈ entries.values →
    ∀ kept ∈ db'.blobs, kept.oid = blob.oid → ∀ key ∈ db'.payloadKey kept,
    ∀ (names : RemoteNames) (readable : Key → Bool) (depth : Nat) (localKeys : List Key),
      db'.localObjectKeys (content.only readable) depth = .ok localKeys →
    ∀ others remoteKeys, ∀ name ∈ names.remoteLiveObjectKeys [key], name ∈ remoteKeys →
      name ∈ names.pruneRemoteUnreferencedContentObjects localKeys others remoteKeys

/-- A pack keeps every row that an indexed snapshot refers to, and the next prune of the remote
keeps its object. -/
theorem Database.pack_keeps_referenced (content : View) {start db db' : Database}
    {history : List MetadataEvent}
    (unique : ∀ row ∈ start.snapshots, ∀ other ∈ start.snapshots, row.id = other.id → row = other)
    (unindexed : start.snapshotPayloadIndex = [])
    (run : Run (Meeting (Computes (exec content)) (indexes content)) start history db)
    (moment : Moment) (present : Key → Bool) (packs : List (PackRow × List Oid))
    (packed : Computes (exec content) db (moment, .pack present packs) db')
    {row : SnapshotRow} (inside : row ∈ db.snapshots) (indexed : row.id ∈ db.snapshotPayloadIndex)
    {header : SnapshotManifest} (load : content.loadSnapshotHeader row = .ok header)
    {record : FileRecord} (recordOf : RecordOf content header record) {ref : Oid × Key}
    (blobRef : payloadBlobRef record.payload = some ref) {blob : BlobRow} (member : blob ∈ db.blobs)
    (same : blob.oid = ref.1) : KeepsReferenced content present db' row record blob := by
  have complete := Complete.of_run unique unindexed run
  cases packed
  have payload : (⟨row.id, .blob, blob.oid⟩ : PayloadRow) ∈ db.snapshotPayloads := by
    apply complete.covers row inside indexed header load record recordOf
    simp [payloadRow, blobRef, same]
  constructor
  · refine ⟨_, mem_packLooseBlobs member payload, packBlob_oid blob, packBlob_objectKey blob, ?_⟩
    exact packBlob_of_missing
  · intro header' load' rootTree tree depth entries expanded listed kept keptInside keptIs key keyOf
      names readable depth' localKeys live others remoteKeys name named there
    have keyLive := payloadKey_live (View.only_le content readable) live inside load' tree expanded
      listed blobRef keptInside (keptIs.trans same) keyOf
    apply List.mem_filter.mpr
    refine ⟨there, decide_eq_true (List.mem_append_left _ ?_)⟩
    exact names.remoteLiveObjectKeys_mono keyLive named

namespace TwoRoots

def firstRow : SnapshotRow := ⟨"snap-1", "objects/blobs/first", .empty⟩

def firstManifest : SnapshotManifest :=
  ⟨"snap-1", none, "op-1", [("docs", bothDocs), ("media", mediaTree)], []⟩

/-- Every object under its own key. -/
def plainNames : RemoteNames where
  canonicalAliases := fun _ => []
  canonicalOnly := fun _ => false
  hostRemoteKey := id

/-- `pack` with no loose file at hand. -/
def packNothing : MetadataEvent := (always, .pack (fun _ => false) [])

def cloned : MetadataEvent :=
  (always, .clone
    { snapshots := [("snap-1", "objects/blobs/first")]
      blobs := [songRow]
      packs := []
      largeObjects := [⟨"video", "objects/large/manifests/video"⟩]
      chunks := [partRow]
      largePins := [] })

end TwoRoots

open TwoRoots in
theorem Database.pack_keeps_referenced_evicted :
    ∃ db db', Run (Meeting (Computes (exec content)) (indexes content)) empty
        [(always, .snapshot first)] db ∧
      Computes (exec content) db packNothing db' ∧
      KeepsReferenced content (fun _ => false) db' firstRow song songRow := by
  obtain ⟨db, run, reached⟩ := exists_run_of_execAll
    (guarded (exec content) (indexes content)) guarded_meeting empty [(always, .snapshot first)]
    (fun db => songRow ∈ db.blobs ∧ firstRow ∈ db.snapshots ∧
      "snap-1" ∈ db.snapshotPayloadIndex) (by decide +kernel)
  obtain ⟨blob, row, indexed⟩ := of_decide_eq_true reached
  have header : content.loadSnapshotHeader firstRow = .ok firstManifest := by decide +kernel
  refine ⟨db, _, run, rfl, ?_⟩
  exact pack_keeps_referenced content (by simp [empty]) rfl run always (fun _ => false) [] rfl row
    indexed header (recordOf_media (by decide) (by simp)) rfl blob rfl

open TwoRoots in
/-- A clone has no payload index. Packing it forgets a blob that is only on the remote, and the next
sync deletes it there. -/
theorem Database.pack_forgets_after_clone :
    ∃ db db', Run (Computes (exec content)) empty [cloned] db ∧
      Computes (exec content) db packNothing db' ∧
      firstRow ∈ db.snapshots ∧ content.loadSnapshotHeader firstRow = .ok firstManifest ∧
      RecordOf content firstManifest song ∧
      payloadBlobRef song.payload = some ("song", "objects/blobs/song") ∧
      songRow ∈ db.blobs ∧ (∀ kept ∈ db'.blobs, kept.oid ≠ "song") ∧
      ∃ localKeys, db'.localObjectKeys content 2 = .ok localKeys ∧
        plainNames.pruneRemoteUnreferencedContentObjects localKeys [] ["objects/blobs/song"] = [] := by
  obtain ⟨db, run, reached⟩ := exists_run_of_execAll (exec content) id empty [cloned]
    (fun db => firstRow ∈ db.snapshots ∧ songRow ∈ db.blobs ∧
      (∀ kept ∈ (db.packLooseBlobs (fun _ => false) []).blobs, kept.oid ≠ "song") ∧
      ((db.packLooseBlobs (fun _ => false) []).localObjectKeys content 2).toOption.any
        (fun localKeys => plainNames.pruneRemoteUnreferencedContentObjects localKeys []
          ["objects/blobs/song"] = [])) (by decide +kernel)
  obtain ⟨row, blob, gone, live⟩ := of_decide_eq_true reached
  obtain ⟨localKeys, keys, pruned⟩ := exists_ok live
  exact ⟨db, _, run, rfl, row, by decide +kernel, recordOf_media (by decide) (by simp), rfl, blob,
    gone, localKeys, keys, of_decide_eq_true pruned⟩

end Majutsu.Repo
