import Majutsu.Repo.PayloadIndex

/-!
# Pruning the metadata

A prune trusts the payload index once every snapshot has an index row and scans
the trees otherwise. Either way it finds every payload of the remaining snapshots
if the index is complete. Chunks are found through the rows of the large objects
that are left.
-/

namespace Majutsu.Repo

open Loops Machine

/-- A payload is live as what its record says it is. -/
structure LiveMetadataReferences.Holds (live : LiveMetadataReferences) (record : FileRecord) :
    Prop where
  blob : ∀ ref ∈ payloadBlobRef record.payload, ref.1 ∈ live.blobs
  large : ∀ ref ∈ payloadLargeRef record.payload, ref.1 ∈ live.largeObjects

theorem liveOf_holds {records : List FileRecord} {record : FileRecord} (h : record ∈ records) :
    (liveOf records).Holds record := by
  constructor
  · intro ref found
    exact List.mem_filterMap.mpr ⟨record, h, by simp [Option.mem_def.mp found]⟩
  · intro ref found
    exact List.mem_filterMap.mpr ⟨record, h, by simp [Option.mem_def.mp found]⟩

namespace Database

section Pruning

variable {content : View} {db db' : Database} {readable : Key → Bool} {depth : Nat}

variable {row : SnapshotRow} {record : FileRecord}

theorem mem_scanSnapshot {records : List FileRecord}
    (h : scanSnapshot (content.only readable) depth row = .ok records) {header : SnapshotManifest}
    (load : content.loadSnapshotHeader row = .ok header)
    (recordOf : RecordOf content header record) : record ∈ records := by
  have le := View.only_le content readable
  obtain ⟨manifest, parts, h⟩ := of_bind h
  obtain ⟨trees, visited, result⟩ := of_bind h
  cases result
  obtain ⟨stored, storedLoad, hydrates⟩ := View.snapshotManifestFromParts_header parts
  obtain rfl : header = stored :=
    Except.ok.inj (load.symm.trans (le.loadSnapshotHeader storedLoad))
  cases hydrates.recordOf recordOf with
  | flat found inside => exact List.mem_append_left _ (List.mem_flatten_of_mem found inside)
  | tree found expanded inside =>
    obtain ⟨met, visit, member⟩ := mapM_mem visited found
    have inTree := View.mem_visitTreeRecords expanded (le.trees.visitTreeRecords visit) inside
    exact List.mem_append_right _ (List.mem_flatten_of_mem member inTree)

theorem indexedLive_holds {live : LiveMetadataReferences}
    (h : db.indexedLiveMetadataReferences = some live) (inside : row ∈ db.snapshots)
    (indexed : ∀ payload, payloadRow row.id record = some payload → payload ∈ db.snapshotPayloads) :
    live.Holds record := by
  simp only [indexedLiveMetadataReferences] at h
  split at h
  · cases h
    -- a payload row of a snapshot that is there passes the join
    have joined : ∀ payload, payloadRow row.id record = some payload → payload ∈
        db.snapshotPayloads.filter
          (fun row => db.snapshots.any (fun snapshot => snapshot.id = row.snapshotId)) := by
      intro payload payloadOf
      apply List.mem_filter.mpr
      refine ⟨indexed payload payloadOf, List.any_eq_true.mpr ⟨row, inside, ?_⟩⟩
      exact decide_eq_true (payloadRow_snapshotId payloadOf).symm
    constructor
    · intro ref found
      have payloadOf : payloadRow row.id record = some ⟨row.id, .blob, ref.1⟩ := by
        simp [payloadRow, Option.mem_def.mp found]
      exact List.mem_map.mpr ⟨_, List.mem_filter.mpr ⟨joined _ payloadOf, by simp⟩, rfl⟩
    · intro ref found
      have payloadOf : payloadRow row.id record = some ⟨row.id, .large, ref.1⟩ := by
        cases blob : payloadBlobRef record.payload with
        | none => simp [payloadRow, blob, Option.mem_def.mp found]
        | some other => simp [payloadLargeRef_of_blob blob] at found
      exact List.mem_map.mpr ⟨_, List.mem_filter.mpr ⟨joined _ payloadOf, by simp⟩, rfl⟩
  · cases h

theorem Complete.live_holds {live : LiveMetadataReferences} (complete : db.Complete content)
    (h : db.liveMetadataReferences (content.only readable) depth = .ok live)
    (inside : row ∈ db.snapshots) {header : SnapshotManifest}
    (load : content.loadSnapshotHeader row = .ok header)
    (recordOf : RecordOf content header record) : live.Holds record := by
  unfold liveMetadataReferences at h
  split at h
  · next found =>
    cases h
    have all : row.id ∈ db.snapshotPayloadIndex := by
      simp only [indexedLiveMetadataReferences] at found
      split at found
      · next all => exact of_decide_eq_true (List.all_eq_true.mp all row inside)
      · cases found
    exact indexedLive_holds found inside
      (complete.covers row inside all header load record recordOf)
  · obtain ⟨records, scanned, result⟩ := of_bind h
    cases result
    obtain ⟨part, partOf, member⟩ := mapM_mem scanned inside
    exact liveOf_holds (List.mem_flatten_of_mem member (mem_scanSnapshot partOf load recordOf))

/-- No row is gone that a remaining snapshot refers to. The chunks are found through the row of
the large object, so they are spared where that row names the manifest of the record. -/
structure Spares (content : View) (before after : Database) : Prop where
  blob : ∀ row ∈ after.snapshots, ∀ header, content.loadSnapshotHeader row = .ok header →
    ∀ record, RecordOf content header record → ∀ ref ∈ payloadBlobRef record.payload,
      ∀ blob ∈ before.blobs, blob.oid = ref.1 → blob ∈ after.blobs
  large : ∀ row ∈ after.snapshots, ∀ header, content.loadSnapshotHeader row = .ok header →
    ∀ record, RecordOf content header record → ∀ ref ∈ payloadLargeRef record.payload,
      ∀ large ∈ before.largeObjects, large.oid = ref.1 → large ∈ after.largeObjects
  chunk : ∀ row ∈ after.snapshots, ∀ header, content.loadSnapshotHeader row = .ok header →
    ∀ record, RecordOf content header record → ∀ ref ∈ payloadLargeRef record.payload,
      ⟨ref.1, ref.2.1⟩ ∈ before.largeObjects →
        ∀ manifest, content ref.2.1 = some (.large manifest) → ∀ part ∈ manifest.chunks,
          ∀ chunk ∈ before.chunks, chunk.oid = part.1 → chunk ∈ after.chunks

theorem mem_liveChunks {view : View} {chunks : List Oid}
    (h : db.liveChunksFromRemainingLargeObjects view = some chunks) (le : view.Le content)
    {row : LargeObjectRow} (inside : row ∈ db.largeObjects) {manifest : LargeRefs}
    (found : content row.manifestKey = some (.large manifest)) {part : Oid × Key}
    (member : part ∈ manifest.chunks) : part.1 ∈ chunks := by
  unfold liveChunksFromRemainingLargeObjects at h
  split at h
  · next manifests read =>
    cases h
    obtain ⟨manifest', readOne, inRead⟩ := mapM_mem read inside
    obtain rfl : manifest = manifest' := by
      have same := found.symm.trans (le _ _ (View.readLarge_ok.mp readOne))
      simpa using same
    exact List.mem_flatMap.mpr ⟨manifest, inRead, List.mem_map.mpr ⟨part, member, rfl⟩⟩
  · cases h

theorem Complete.prune_spares (complete : db.Complete content)
    (prunes : Prunes (content.only readable) depth db db') : Spares content db db' := by
  obtain ⟨live, liveOf, blobs, larges⟩ := prunes.live
  have holds : ∀ row ∈ db'.snapshots, ∀ header, content.loadSnapshotHeader row = .ok header →
      ∀ record, RecordOf content header record → live.Holds record := by
    intro row inside header load record recordOf
    exact complete.live_holds liveOf (prunes.snapshots ▸ inside) load recordOf
  constructor
  · intro row inside header load record recordOf ref found blob member same
    rw [blobs]
    have live := (holds row inside header load record recordOf).blob ref found
    exact List.mem_filter.mpr ⟨member, decide_eq_true (same ▸ live)⟩
  · intro row inside header load record recordOf ref found large member same
    rw [larges]
    have live := (holds row inside header load record recordOf).large ref found
    exact List.mem_filter.mpr ⟨member, decide_eq_true (same ▸ live)⟩
  · intro row inside header load record recordOf ref found named manifest read part partOf chunk
      member same
    rcases prunes.chunks with kept | ⟨chunkOids, known, kept⟩
    · exact kept ▸ member
    · have live := (holds row inside header load record recordOf).large ref found
      have remains : (⟨ref.1, ref.2.1⟩ : LargeObjectRow) ∈ db'.largeObjects := by
        rw [larges]
        exact List.mem_filter.mpr ⟨named, decide_eq_true live⟩
      rw [kept]
      have chunkLive := mem_liveChunks known (View.only_le content readable) remains read partOf
      exact List.mem_filter.mpr ⟨member, decide_eq_true (same ▸ chunkLive)⟩

/-- After any history whose index writes list what they index, a prune spares every row that a
remaining snapshot refers to. -/
theorem prune_spares_live (content : View) {start db db' : Database} {history : List MetadataEvent}
    (unique : ∀ row ∈ start.snapshots, ∀ other ∈ start.snapshots, row.id = other.id → row = other)
    (unindexed : start.snapshotPayloadIndex = [])
    (run : Run (Meeting (Computes (exec content)) (indexes content)) start history db)
    (moment : Moment) (deleted : List String)
    (pruned : Computes (exec content) db (moment, .prune deleted) db') :
    Spares content db db' := by
  have complete := Complete.of_run unique unindexed run
  have spares := (complete.deleteSnapshots deleted).prune_spares
    (pruneUnreferencedMetadata_prunes (toOption_eq_some.mp pruned))
  exact ⟨spares.blob, spares.large, spares.chunk⟩

end Pruning

end Database

/-! A repository with a root `docs` and a root `media`. -/

namespace TwoRoots

def file (rootId path : String) (payload : Payload) : FileRecord :=
  .plain rootId path "file" 1 payload

def draft : FileRecord := file "docs" "draft" (.normalBlob "draft" "objects/blobs/draft")
def note : FileRecord := file "docs" "note" (.normalBlob "note" "objects/blobs/note")
def song : FileRecord := file "media" "song" (.normalBlob "song" "objects/blobs/song")
def video : FileRecord :=
  file "media" "video" (.chunkedBlob "video" "objects/large/manifests/video" 1)

def tree (rootId : String) (records : List FileRecord) : Object :=
  .tree { version := 1
          treeId := rootId
          rootId := rootId
          rootNode := none
          subtreeNodes := []
          entries := records.map (fun record => (record.path, record)) }

def bothDocs : RootSnapshot := ⟨"tree-1", "objects/trees/docs-1", 2⟩
def oneDoc : RootSnapshot := ⟨"tree-2", "objects/trees/docs-2", 1⟩
def mediaTree : RootSnapshot := ⟨"tree-3", "objects/trees/media", 2⟩

def manifest (snapshotId : String) (parent : Option String) (opId : String)
    (rootTrees : Entries RootSnapshot) : Object :=
  .snapshot ⟨snapshotId, parent, opId, rootTrees, []⟩ true

def content : View := Entries.get
  [("objects/trees/docs-1", tree "docs" [draft, note]),
    ("objects/trees/docs-2", tree "docs" [note]),
    ("objects/trees/media", tree "media" [song, video]),
    ("objects/large/manifests/video", .large ⟨"video", [("part", "objects/large/chunks/part")]⟩),
    ("objects/blobs/first", manifest "snap-1" none "op-1" [("docs", bothDocs), ("media", mediaTree)]),
    ("objects/blobs/second", manifest "snap-2" (some "snap-1") "op-2"
      [("docs", oneDoc), ("media", mediaTree)]),
    ("objects/blobs/rewritten", manifest "snap-1" none "op-1"
      [("media", mediaTree), ("docs", oneDoc)])]

def always : Moment := ⟨fun _ => true, 1⟩

def first : SnapshotCall where
  snapshotId := "snap-1"
  opId := "op-1"
  parent := none
  roots := [("docs", .scan [draft, note] bothDocs), ("media", .scan [song, video] mediaTree)]
  blobs := [⟨"draft", "objects/blobs/draft", none⟩, ⟨"note", "objects/blobs/note", none⟩,
    ⟨"song", "objects/blobs/song", none⟩]
  manifestKey := "objects/blobs/first"
  allowNoop := false

def second : SnapshotCall where
  snapshotId := "snap-2"
  opId := "op-2"
  parent := some "snap-1"
  roots := [("docs", .scan [note] oneDoc), ("media", .carry)]
  blobs := []
  manifestKey := "objects/blobs/second"
  allowNoop := false

/-- `root set docs --exclude draft`. -/
def exclude : RewriteCall where
  snapshotId := "snap-1"
  rootId := "docs"
  isManaged := fun record => record.path ≠ "draft"
  rootTree := oneDoc
  manifestKey := "objects/blobs/rewritten"

def storeVideo : MetadataCommand :=
  .storeLarge ⟨"video", "objects/large/manifests/video"⟩ [⟨"part", "objects/large/chunks/part"⟩]

def songRow : BlobRow := ⟨"song", "objects/blobs/song", none⟩
def partRow : ChunkObjectRow := ⟨"part", "objects/large/chunks/part"⟩

/-- The rows that a snapshot row and the rest of the database have after a prune. -/
def keptAfterPrune (deleted : List String) (db : Database) (p : Database → Bool) : Bool :=
  (Database.exec content db (always, .prune deleted)).any p

theorem exists_pruned {deleted : List String} {db : Database} {p : Database → Bool}
    (h : keptAfterPrune deleted db p = true) :
    ∃ db', Computes (Database.exec content) db (always, .prune deleted) db' ∧ p db' = true := by
  unfold keptAfterPrune at h
  cases pruned : Database.exec content db (always, .prune deleted) with
  | none => simp [pruned] at h
  | some db' => exact ⟨db', pruned, by simpa [pruned] using h⟩

def secondRow : SnapshotRow := ⟨"snap-2", "objects/blobs/second", .empty⟩
def rewrittenRow : SnapshotRow := ⟨"snap-1", "objects/blobs/rewritten", .empty⟩

def secondManifest : SnapshotManifest :=
  ⟨"snap-2", some "snap-1", "op-2", [("docs", oneDoc), ("media", mediaTree)], []⟩
def excludedManifest : SnapshotManifest :=
  ⟨"snap-1", none, "op-1", [("media", mediaTree), ("docs", oneDoc)], []⟩

theorem recordOf_media {manifest : SnapshotManifest} {record : FileRecord}
    (tree : mediaTree ∈ manifest.rootTrees.values) (member : record ∈ [song, video]) :
    RecordOf content manifest record := by
  have load : content.loadRootTreeEntries 1 mediaTree
      = .ok [("song", song), ("video", video)] := by decide +kernel
  exact .tree tree load member

end TwoRoots

open TwoRoots in
theorem Database.prune_spares_live_carried :
    ∃ db db', Run (Meeting (Computes (exec content)) (indexes content)) empty
        [(always, storeVideo), (always, .snapshot first), (always, .snapshot second)] db ∧
      Computes (exec content) db (always, .prune ["snap-1"]) db' ∧
      songRow ∈ db'.blobs ∧ partRow ∈ db'.chunks := by
  obtain ⟨db, run, reached⟩ := exists_run_of_execAll
    (guarded (exec content) (indexes content)) guarded_meeting empty
    [(always, storeVideo), (always, .snapshot first), (always, .snapshot second)]
    (fun db => decide (songRow ∈ db.blobs) && decide (partRow ∈ db.chunks) &&
      decide (⟨"video", "objects/large/manifests/video"⟩ ∈ db.largeObjects) &&
      keptAfterPrune ["snap-1"] db (fun db' => secondRow ∈ db'.snapshots))
    (by decide +kernel)
  simp only [Bool.and_eq_true, decide_eq_true_eq] at reached
  obtain ⟨⟨⟨blob, chunk⟩, large⟩, pruned⟩ := reached
  obtain ⟨db', pruned, row⟩ := exists_pruned pruned
  have row := of_decide_eq_true row
  have header : content.loadSnapshotHeader secondRow = .ok secondManifest := by decide +kernel
  have spares := prune_spares_live content (by simp [empty]) rfl run always ["snap-1"] pruned
  refine ⟨db, db', run, pruned, ?_, ?_⟩
  · exact spares.blob secondRow row secondManifest header song
      (recordOf_media (by decide) (by simp)) ("song", "objects/blobs/song") rfl songRow blob rfl
  · exact spares.chunk secondRow row secondManifest header video
      (recordOf_media (by decide) (by simp)) ("video", "objects/large/manifests/video", 1) rfl large
      ⟨"video", [("part", "objects/large/chunks/part")]⟩ (by decide +kernel)
      ("part", "objects/large/chunks/part") (by simp) partRow chunk rfl

open TwoRoots in
/-- A history rewrite of `docs` indexes the records of `docs` alone, and the prune that follows it
drops the row of a file in `media`. -/
theorem Database.prune_drops_other_root :
    ∃ db db', Run (Computes (exec content)) empty
        [(always, storeVideo), (always, .snapshot first), (always, .rewrite exclude)] db ∧
      Computes (exec content) db (always, .prune []) db' ∧
      rewrittenRow ∈ db'.snapshots ∧
      content.loadSnapshotHeader rewrittenRow = .ok excludedManifest ∧
      RecordOf content excludedManifest song ∧
      payloadBlobRef song.payload = some ("song", "objects/blobs/song") ∧
      songRow ∈ db.blobs ∧ songRow ∉ db'.blobs := by
  obtain ⟨db, run, reached⟩ := exists_run_of_execAll (exec content) id empty
    [(always, storeVideo), (always, .snapshot first), (always, .rewrite exclude)]
    (fun db => decide (songRow ∈ db.blobs) &&
      keptAfterPrune [] db (fun db' => rewrittenRow ∈ db'.snapshots ∧ songRow ∉ db'.blobs))
    (by decide +kernel)
  simp only [Bool.and_eq_true, decide_eq_true_eq] at reached
  obtain ⟨blob, pruned⟩ := reached
  obtain ⟨db', pruned, left⟩ := exists_pruned pruned
  obtain ⟨row, gone⟩ := of_decide_eq_true left
  exact ⟨db, db', run, pruned, row, by decide +kernel, recordOf_media (by decide) (by simp), rfl,
    blob, gone⟩

end Majutsu.Repo
