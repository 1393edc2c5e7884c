import Majutsu.Repo.LiveKeys

/-!
# Local garbage collection

`gc` marks the keys that the snapshots, the upload queue and the journal name,
removes every other object file and compacts the snapshot manifests. The readers
follow other references than the mark: the key in a record rather than the key in
the row, the records kept flat in a manifest, and the chunks of a large manifest
that only the journal names. `Needed` says what the readers open, `Named` what the
mark finds, and `Covered` when this is enough.
-/

namespace Majutsu.Repo

open Loops

def isObjectKey (key : Key) : Bool :=
  match validateLocalObjectKey key with
  | .ok () => true
  | .error _ => false

/-- The component list of a source that lies in the home directory, as a key. -/
def queueSourceKey (home : List String) (source : SourcePath) : Option Key :=
  if source.absolute then
    if home.isPrefixOf source.parts then
      some ("/".intercalate (source.parts.drop home.length))
    else none
  else some ("/".intercalate source.parts)

def EventJournalRecord.objectKeys (event : EventJournalRecord) : List Key :=
  event.durablePayloadKey.toList ++ event.durableLargeManifestKey.toList

namespace Repository

variable (s : Repository)

def queuedLocalObjectKeys : List Key :=
  let sources := s.queue.filterMap (fun item => item.source.bind (queueSourceKey s.home))
  (sources ++ s.journal.flatMap EventJournalRecord.objectKeys).filter isObjectKey

def isCompactManifest (key : Key) : Except String Bool :=
  match s.files.get key with
  | none => .error s!"read {key}"
  | some (.snapshot manifest rootsOmitted) => .ok (rootsOmitted && manifest.roots.isEmpty)
  | some _ => .ok false

def isCompacted (row : SnapshotRow) : Except String Bool :=
  if row.manifestJson = .empty then s.isCompactManifest row.manifestKey else .ok false

/-- The rewrite of one snapshot. -/
def compactSnapshot (depth : Nat) (row : SnapshotRow) : Except String Repository := do
  let done ← s.isCompacted row
  if done then .ok s
  else do
    let manifest ← s.view.snapshotManifestFromParts depth row
    .ok { s with
      files := s.files.insert row.manifestKey (.snapshot { manifest with roots := [] } true)
      db := { s.db with
        snapshots := s.db.snapshots.map
          (fun other => if other.id = row.id then { other with manifestJson := .empty }
            else other) } }

def compactSnapshotManifestMetadata (depth : Nat) : Except String Repository :=
  s.db.snapshots.foldlM (fun state row => state.compactSnapshot depth row) s

def sweep (referenced : List Key) : Repository :=
  { s with files := s.files.filter (fun file => file.1 ∈ referenced) }

/-- The keys that a sweep leaves alone. -/
def referenced (marks : Marks) : List Key :=
  s.db.liveKeys marks ++ s.queuedLocalObjectKeys

def gcCmd (dryRun : Bool) (depth : Nat) : Except String Repository := do
  let marks ← s.db.localObjectMarks s.view depth
  let scanned := s.hydrate marks.opened
  if dryRun then .ok scanned
  else (scanned.sweep (s.referenced marks)).compactSnapshotManifestMetadata depth

end Repository

/-- What `read_object` opens besides when it expands the manifest object of a snapshot. -/
def Repository.Expands (s : Repository) (row : SnapshotRow) (k : Key) : Prop :=
  "objects/blobs/".toList.isPrefixOf row.manifestKey.toList = true ∧
    ∃ manifest rootsOmitted, s.view row.manifestKey = some (.snapshot manifest rootsOmitted) ∧
      manifest.roots = [] ∧
        ∃ rootTree ∈ manifest.rootTrees.values, TreeReads s.view rootTree k

/-- The files that `read_object` opens. Under the key of a snapshot manifest it expands what it
finds. -/
inductive ObjectReads (s : Repository) (key : Key) : Key → Prop
  | self : isObjectKey key → ObjectReads s key key
  | manifest {row : SnapshotRow} {k : Key} :
      row ∈ s.db.snapshots → row.manifestKey = key → s.Expands row k → ObjectReads s key k

inductive BlobSource where
  | object (key : Key)
  | pack (key : Key)
  | nothing
  deriving DecidableEq

/-- Where `read_blob_payload` looks for a payload. -/
def Repository.blobSource (s : Repository) (oid : Oid) (fallbackKey : Key) : BlobSource :=
  match s.db.blobs.find? (fun blob => blob.oid = oid) with
  | none =>
    if (trim fallbackKey.toList).isEmpty then .nothing else .object fallbackKey
  | some blob =>
    match blob.packId with
    | none => .object fallbackKey
    | some packId =>
      match s.db.packs.find? (fun pack => pack.packId = packId) with
      | none => .nothing
      | some pack =>
        if !s.isLocal pack.packKey && s.isLocal fallbackKey then .object fallbackKey
        else .pack pack.packKey

/-- The objects that the readers of a payload ask for. -/
inductive PayloadOpens (s : Repository) (payload : Payload) : Key → Prop
  | blob {oid : Oid} {fallbackKey key : Key} :
      payloadBlobRef payload = some (oid, fallbackKey) →
      s.blobSource oid fallbackKey = .object key → PayloadOpens s payload key
  | largeManifest {oid : Oid} {manifestKey : Key} {count : Nat} :
      payloadLargeRef payload = some (oid, manifestKey, count) → PayloadOpens s payload manifestKey
  | chunk {oid : Oid} {manifestKey chunk : Key} {count : Nat} :
      payloadLargeRef payload = some (oid, manifestKey, count) →
      chunk ∈ s.chunkKeys manifestKey → PayloadOpens s payload chunk

namespace Repository

variable (s : Repository)

/-- The pack that the reader of a payload opens. -/
def OpensPack (payload : Payload) (key : Key) : Prop :=
  ∃ ref ∈ payloadBlobRef payload, s.blobSource ref.1 ref.2 = .pack key

/-- A record that a retained manifest keeps flat. -/
def Flat (record : FileRecord) : Prop :=
  ∃ row ∈ s.db.snapshots, ∃ manifest, s.view.loadSnapshotHeader row = .ok manifest ∧
    ∃ records ∈ manifest.roots.values, record ∈ records

/-- The payloads that a restore reads. -/
inductive Restores : Payload → Prop
  | flat {record : FileRecord} : s.Flat record → Restores record.payload
  | tree {record : FileRecord} : s.db.Lists s.view record → Restores record.payload
  | journal {event : EventJournalRecord} {payload : Payload} :
      event ∈ s.journal → event.payload = some payload → Restores payload

inductive Opens : Key → Prop
  | payload {payload : Payload} {key : Key} :
      s.Restores payload → PayloadOpens s payload key → Opens key
  /-- A sync uploads what a journal record names. -/
  | journalObject {event : EventJournalRecord} {key : Key} :
      event ∈ s.journal → key ∈ event.objectKeys → Opens key
  | journalChunk {event : EventJournalRecord} {manifestKey chunk : Key} :
      event ∈ s.journal → event.durableLargeManifestKey = some manifestKey →
      chunk ∈ s.chunkKeys manifestKey → Opens chunk

end Repository

/-- A file that some reader opens for a retained snapshot, for the journal or for the queue. -/
inductive Needed (s : Repository) : Key → Prop
  | manifest {row : SnapshotRow} :
      row ∈ s.db.snapshots → row.manifestJson = .empty → Needed s row.manifestKey
  | tree {row : SnapshotRow} {rootTree : RootSnapshot} {k : Key} :
      row ∈ s.db.snapshots → s.view.RowTree row rootTree → TreeReads s.view rootTree k → Needed s k
  | object {key k : Key} : s.Opens key → ObjectReads s key k → Needed s k
  | pack {payload : Payload} {k : Key} : s.Restores payload → s.OpensPack payload k → Needed s k
  | queue {item : UploadQueueItem} {source : SourcePath} {k : Key} :
      item ∈ s.queue → item.source = some source → queueSourceKey s.home source = some k →
      Needed s k

/-- What the rows and the trees, the queue and the journal name. -/
def Repository.Named (s : Repository) (key : Key) : Prop :=
  s.db.Names s.view key ∨ key ∈ s.queuedLocalObjectKeys

/-- A file under an object key, if it is there, is named. -/
def Repository.Keeps (s : Repository) (key : Key) : Prop :=
  isObjectKey key → s.isLocal key → s.Named key

/-- What readers open and the walk does not look for is named by something else. -/
structure Covered (s : Repository) : Prop where
  /-- The walk passes over flat records. -/
  flat : ∀ record, s.Flat record → ∀ key, PayloadOpens s record.payload key → s.Keeps key
  flatPacks : ∀ record, s.Flat record →
    ∀ key, s.OpensPack record.payload key → s.isLocal key → s.Named key
  /-- The reader of a blob that is not packed, or whose pack is away, takes the key of the record
  and not that of the row. -/
  rows : ∀ record, s.db.Lists s.view record → ∀ ref ∈ payloadBlobRef record.payload,
    s.blobSource ref.1 ref.2 = .object ref.2 → s.Keeps ref.2
  /-- The walk takes the trees of the manifest in the row, the reader those of the object. -/
  copies : ∀ row ∈ s.db.snapshots, row.manifestJson ≠ .empty → s.Opens row.manifestKey →
    ∀ key, s.Expands row key → s.isLocal key → s.Named key
  journalPacks : ∀ event ∈ s.journal, ∀ payload ∈ event.payload,
    ∀ key, s.OpensPack payload key → s.isLocal key → s.Named key
  journalChunks : ∀ event ∈ s.journal, ∀ manifestKey ∈ event.durableLargeManifestKey,
    ∀ chunk ∈ s.chunkKeys manifestKey, s.Keeps chunk
  /-- A source that is no valid object key is passed over. -/
  sources : ∀ item ∈ s.queue, ∀ source ∈ item.source, ∀ key ∈ queueSourceKey s.home source,
    s.isLocal key → s.Named key

section Covering

variable {s : Repository} {marks : Marks} {key fallbackKey : Key} {event : EventJournalRecord}
  {oid : Oid} {payload : Payload}

theorem Repository.mem_referenced_iff {depth : Nat}
    (h : s.db.localObjectMarks s.view depth = .ok marks) :
    key ∈ s.referenced marks ↔ s.Named key := by
  rw [Repository.referenced, List.mem_append, Database.mem_liveKeys_iff h]
  rfl

theorem Repository.named_of_journal (inside : event ∈ s.journal)
    (named : key ∈ event.objectKeys) (valid : isObjectKey key) : s.Named key := by
  refine Or.inr (List.mem_filter.mpr ⟨?_, valid⟩)
  exact List.mem_append_right _ (List.mem_flatMap.mpr ⟨event, inside, named⟩)

theorem Repository.view_chunkKeys {manifestKey chunk : Key}
    (h : chunk ∈ s.chunkKeys manifestKey) :
    ∃ manifest, s.view manifestKey = some (.large manifest) ∧
      ∃ entry ∈ manifest.chunks, entry.2 = chunk := by
  unfold Repository.chunkKeys at h
  split at h
  · next manifest found => exact ⟨manifest, found, List.mem_map.mp h⟩
  · simp at h

theorem Repository.blobSource_object (h : s.blobSource oid fallbackKey = .object key) :
    key = fallbackKey := by
  unfold Repository.blobSource at h
  split at h
  · split at h
    · cases h
    · exact (BlobSource.object.inj h).symm
  · split at h
    · exact (BlobSource.object.inj h).symm
    · split at h
      · cases h
      · split at h
        · exact (BlobSource.object.inj h).symm
        · cases h

theorem Repository.blobSource_pack (h : s.blobSource oid fallbackKey = .pack key) :
    ∃ blob ∈ s.db.blobs, blob.oid = oid ∧
      ∃ pack ∈ s.db.packs, blob.packId = some pack.packId ∧ pack.packKey = key := by
  unfold Repository.blobSource at h
  split at h
  · split at h <;> cases h
  · next blob found =>
    split at h
    · cases h
    · next packId packed =>
      split at h
      · cases h
      · next pack packFound =>
        split at h
        · cases h
        · have same : pack.packId = packId := by simpa using List.find?_some packFound
          refine ⟨blob, List.mem_of_find?_eq_some found, by simpa using List.find?_some found, pack,
            List.mem_of_find?_eq_some packFound, ?_, BlobSource.pack.inj h⟩
          rw [packed, same]

theorem EventJournalRecord.payload_blob {ref : Oid × Key} (h : event.payload = some payload)
    (blob : payloadBlobRef payload = some ref) : ref.2 ∈ event.objectKeys := by
  unfold EventJournalRecord.payload at h
  split at h
  · cases h
    cases blob
  · obtain ⟨key, found, rfl⟩ := Option.map_eq_some_iff.mp h
    cases blob
    simp [EventJournalRecord.objectKeys, found]
  · cases h

theorem EventJournalRecord.payload_large {ref : Oid × Key × Nat} (h : event.payload = some payload)
    (large : payloadLargeRef payload = some ref) :
    event.durableLargeManifestKey = some ref.2.1 := by
  unfold EventJournalRecord.payload at h
  split at h
  · next found _ =>
    cases h
    cases large
    exact found
  · obtain ⟨key, found, rfl⟩ := Option.map_eq_some_iff.mp h
    cases large
  · cases h

theorem Covered.keeps (covered : Covered s) (opens : s.Opens key) : s.Keeps key := by
  intro valid there
  cases opens with
  | payload restores opens =>
    cases restores with
    | flat flat => exact covered.flat _ flat key opens valid there
    | @tree record listed =>
      cases opens with
      | blob ref source =>
        obtain rfl := Repository.blobSource_object source
        exact covered.rows record listed _ ref source valid there
      | largeManifest ref => exact Or.inl (.large listed ⟨_, ref, Or.inl rfl⟩)
      | chunk ref named =>
        exact Or.inl (.large listed ⟨_, ref, Or.inr (Repository.view_chunkKeys named)⟩)
    | journal inside payloadOf =>
      cases opens with
      | blob ref source =>
        obtain rfl := Repository.blobSource_object source
        exact Repository.named_of_journal inside
          (EventJournalRecord.payload_blob payloadOf ref) valid
      | largeManifest ref =>
        have named := EventJournalRecord.payload_large payloadOf ref
        exact Repository.named_of_journal inside (by simp [EventJournalRecord.objectKeys, named])
          valid
      | chunk ref named =>
        exact covered.journalChunks _ inside _ (EventJournalRecord.payload_large payloadOf ref) key
          named valid there
  | journalObject inside named => exact Repository.named_of_journal inside named valid
  | journalChunk inside named member =>
    exact covered.journalChunks _ inside _ named key member valid there

theorem Covered.named (covered : Covered s) (needed : Needed s key) (there : s.isLocal key) :
    s.Named key := by
  cases needed with
  | manifest inside => exact Or.inl (.manifest inside)
  | tree inside tree reads => exact Or.inl (.tree inside tree reads.names)
  | object opens reads =>
    cases reads with
    | self valid => exact covered.keeps opens valid there
    | @manifest row _ inside same expands =>
      subst same
      by_cases json : row.manifestJson = .empty
      · -- the object is the header of the row
        obtain ⟨-, manifest, omitted, found, -, rootTree, member, reads⟩ := expands
        have header : s.view.loadSnapshotHeader row = .ok manifest := by
          rw [View.loadSnapshotHeader, json]
          exact View.readSnapshot_ok.mpr ⟨omitted, found⟩
        exact Or.inl (.tree inside ⟨manifest, header, member⟩ reads.names)
      · exact covered.copies row inside json opens key expands there
  | pack restores opens =>
    cases restores with
    | flat flat => exact covered.flatPacks _ flat key opens there
    | @tree record listed =>
      obtain ⟨ref, blobRef, source⟩ := opens
      obtain ⟨blob, member, same, pack, inside, packed, rfl⟩ := Repository.blobSource_pack source
      have oid : record.blobOid = some blob.oid := by
        rw [FileRecord.blobOid, Option.mem_def.mp blobRef, same]
        rfl
      exact Or.inl (.pack listed oid member inside packed List.mem_cons_self)
    | journal inside payloadOf => exact covered.journalPacks _ inside _ payloadOf key opens there
  | queue inside sourceOf named => exact covered.sources _ inside _ sourceOf key named there

theorem covered_of_named (named : ∀ key, Needed s key → s.isLocal key → s.Named key) :
    Covered s where
  flat _ flat _ opens valid := named _ (.object (.payload (.flat flat) opens) (.self valid))
  flatPacks _ flat _ opens := named _ (.pack (.flat flat) opens)
  rows _ listed _ ref source valid :=
    named _ (.object (.payload (.tree listed) (.blob ref source)) (.self valid))
  copies _ inside _ opens _ expands := named _ (.object opens (.manifest inside rfl expands))
  journalPacks _ inside _ payloadOf _ opens := named _ (.pack (.journal inside payloadOf) opens)
  journalChunks _ inside _ named_ _ member valid :=
    named _ (.object (.journalChunk inside named_ member) (.self valid))
  sources _ inside _ sourceOf _ named_ := named _ (.queue inside sourceOf named_)

end Covering

section Compacting

variable {s : Repository}

/-- Compaction writes the objects of snapshot manifests and nothing else. -/
structure Compacts (manifestKeys : List Key) (before after : Entries Object) : Prop where
  kept : ∀ key, (before.get key).isSome → (after.get key).isSome
  same : ∀ key, key ∉ manifestKeys → after.get key = before.get key

theorem Repository.compactSnapshot_compacts {s' : Repository} {depth : Nat} {row : SnapshotRow}
    {manifestKeys : List Key} (named : row.manifestKey ∈ manifestKeys)
    (h : s.compactSnapshot depth row = .ok s') : Compacts manifestKeys s.files s'.files := by
  obtain ⟨done, -, h⟩ := of_bind h
  cases done with
  | true =>
    cases h
    exact ⟨fun _ present => present, fun _ _ => rfl⟩
  | false =>
    obtain ⟨manifest, -, result⟩ := of_bind h
    cases result
    constructor
    · intro key present
      by_cases eq : key = row.manifestKey
      · simp [eq, Entries.get_insert_self]
      · rwa [Entries.get_insert_of_ne eq]
    · intro key other
      exact Entries.get_insert_of_ne (fun eq => other (eq ▸ named))

theorem Repository.compactSnapshotManifestMetadata_compacts {s' : Repository} {depth : Nat}
    (h : s.compactSnapshotManifestMetadata depth = .ok s') :
    Compacts (s.db.snapshots.map SnapshotRow.manifestKey) s.files s'.files := by
  have invariant := foldlM_invariant
    (I := fun (done : List SnapshotRow) (state : Repository) =>
      (∀ row ∈ done, row ∈ s.db.snapshots) →
        Compacts (s.db.snapshots.map SnapshotRow.manifestKey) s.files state.files)
    ?_ ?_ h
  · exact invariant (fun _ inside => inside)
  · exact fun _ => ⟨fun _ present => present, fun _ _ => rfl⟩
  · intro done row state next before round subset
    have earlier := before (fun other inside => subset other (List.mem_append_left _ inside))
    have step := Repository.compactSnapshot_compacts
      (List.mem_map.mpr ⟨row, subset row (by simp), rfl⟩) round
    constructor
    · exact fun key present => step.kept key (earlier.kept key present)
    · exact fun key other => (step.same key other).trans (earlier.same key other)

theorem Repository.hydrate_db (keys : List Key) : (s.hydrate keys).db = s.db := by
  induction keys generalizing s with
  | nil => rfl
  | cons key keys ih => exact ih.trans (Repository.fetch_db key)

end Compacting

/-- Of the local files a collection keeps the ones that are named. Only the objects of snapshot
manifests are rewritten. -/
theorem Repository.isLocal_gcCmd_iff {s s' : Repository} {depth : Nat} {key : Key}
    (done : s.gcCmd false depth = .ok s') (present : s.isLocal key) :
    (s'.isLocal key ↔ s.Named key) ∧ (key ∉ s.db.snapshots.map SnapshotRow.manifestKey →
      s'.isLocal key → s'.files.get key = s.files.get key) := by
  obtain ⟨marks, mark, rest⟩ := of_bind done
  obtain ⟨object, found⟩ := Option.isSome_iff_exists.mp present
  have scanned : (s.hydrate marks.opened).files.get key = some object :=
    Repository.hydrate_get found
  have compacts := Repository.compactSnapshotManifestMetadata_compacts rest
  simp only [Repository.sweep, Repository.hydrate_db] at compacts
  by_cases named : key ∈ s.referenced marks
  · have swept : Entries.get ((s.hydrate marks.opened).files.filter
        (fun file => decide (file.1 ∈ s.referenced marks))) key = some object := by
      rw [← scanned]
      exact Entries.get_filter (fun k => decide (k ∈ s.referenced marks)) (by simpa using named)
    have kept := compacts.kept key (by simp [swept])
    refine ⟨iff_of_true kept ((mem_referenced_iff mark).mp named), fun other _ => ?_⟩
    rw [compacts.same key other, swept, found]
  · have swept : Entries.get ((s.hydrate marks.opened).files.filter
        (fun file => decide (file.1 ∈ s.referenced marks))) key = none := by
      apply Entries.get_eq_none
      rintro file inside rfl
      exact named (of_decide_eq_true (List.mem_filter.mp inside).2)
    -- what compaction writes is named
    have other : key ∉ s.db.snapshots.map SnapshotRow.manifestKey := by
      intro inside
      obtain ⟨row, member, rfl⟩ := List.mem_map.mp inside
      exact named ((mem_referenced_iff mark).mpr (Or.inl (.manifest member)))
    have gone : ¬ s'.isLocal key := by
      rw [Repository.isLocal, compacts.same key other, swept]
      simp
    exact ⟨iff_of_false gone (mt (mem_referenced_iff mark).mpr named),
      fun _ there => absurd there gone⟩

/-- A collection keeps every local file that a reader opens for a retained snapshot, for the
journal or for the upload queue, exactly if the walk and what else is named cover them. -/
theorem Repository.gcCmd_keeps_needed_iff (s s' : Repository) (dryRun : Bool) (depth : Nat)
    (done : s.gcCmd dryRun depth = .ok s') :
    ((∀ key, Needed s key → s.isLocal key → s'.isLocal key) ↔ dryRun = true ∨ Covered s) ∧
      ∀ key, s.isLocal key → s'.isLocal key →
        key ∉ s.db.snapshots.map SnapshotRow.manifestKey → s'.files.get key = s.files.get key := by
  cases dryRun with
  | true =>
    obtain ⟨marks, -, rest⟩ := of_bind done
    cases rest
    have same : ∀ key, s.isLocal key →
        (s.hydrate marks.opened).files.get key = s.files.get key := by
      intro key present
      obtain ⟨object, found⟩ := Option.isSome_iff_exists.mp present
      exact (Repository.hydrate_get found).trans found.symm
    refine ⟨iff_of_true (fun key _ present => ?_) (Or.inl rfl), ?_⟩
    · rwa [Repository.isLocal, same key present]
    · exact fun key present _ _ => same key present
  | false =>
    refine ⟨⟨fun keeps => Or.inr (covered_of_named fun key needed present => ?_), ?_⟩, ?_⟩
    · exact (isLocal_gcCmd_iff done present).1.mp (keeps key needed present)
    · rintro (dry | covered) key needed present
      · cases dry
      · exact (isLocal_gcCmd_iff done present).1.mpr (covered.named needed present)
    · exact fun key present kept other => (isLocal_gcCmd_iff done present).2 other kept

namespace Example

def largeManifest : LargeRefs := ⟨"video", [("part", "objects/large/chunks/part")]⟩

def event : EventJournalRecord where
  durablePayloadOid := some "video"
  durablePayloadKey := none
  durableLargeManifestKey := some "objects/large/manifests/video"
  durableLargeChunkCount := some 1

def largeFiles : Entries Object :=
  [("objects/large/manifests/video", .large largeManifest),
    ("objects/large/chunks/part", .payload [7])]

def emptyDatabase : Database where
  snapshots := []
  blobs := []
  packs := []
  largeObjects := []
  chunks := []
  largePins := []
  snapshotPayloadIndex := []
  snapshotPayloads := []

/-- A large file that the journal has stored and no snapshot lists yet. -/
def journalled : Repository where
  home := ["home"]
  db := emptyDatabase
  files := largeFiles
  remote := []
  queue := []
  journal := [event]

def record (path : String) (payload : Payload) : FileRecord :=
  .plain "root" path "file" 1 payload

def noteRecord : FileRecord := record "note" (.normalBlob "note" "objects/blobs/note")
def oldRecord : FileRecord := record "old" (.normalBlob "old" "objects/blobs/old")
def videoRecord : FileRecord :=
  record "media/video" (.chunkedBlob "video" "objects/large/manifests/video" 1)

def mediaNode : TreeNodeManifest where
  nodeId := "media"
  rootId := "root"
  path := "media"
  fileCount := 1
  totalSize := 1
  childNodes := []
  entries := [("media/video", videoRecord)]

def rootNode : TreeNodeManifest where
  nodeId := "node"
  rootId := "root"
  path := ""
  fileCount := 3
  totalSize := 3
  childNodes := [("media", ⟨"media", "objects/trees/nodes/media", 1, 1⟩)]
  entries := [("note", noteRecord), ("old", oldRecord)]

def rootTree : TreeManifest where
  version := 2
  treeId := "tree"
  rootId := "root"
  rootNode := some ⟨"node", "objects/trees/nodes/node", 3, 3⟩
  subtreeNodes := []
  entries := []

def compactManifest : SnapshotManifest where
  snapshotId := "snap-1"
  parent := none
  opId := "op-1"
  rootTrees := [("root", ⟨"tree", "objects/trees/tree", 3⟩)]
  roots := []

/-- A snapshot with a loose blob, a packed blob and the large file of the journal. -/
def archived : Repository where
  home := ["home"]
  db := { emptyDatabase with
    snapshots := [⟨"snap-1", "objects/blobs/manifest", .empty⟩]
    blobs := [⟨"note", "objects/blobs/note", none⟩, ⟨"old", "objects/blobs/old", some "pack"⟩]
    packs := [⟨"pack", "objects/packs/pack", "objects/packs/pack.idx"⟩] }
  files := largeFiles ++
    [("objects/blobs/manifest", .snapshot compactManifest true),
      ("objects/trees/tree", .tree rootTree),
      ("objects/trees/nodes/node", .node rootNode),
      ("objects/trees/nodes/media", .node mediaNode),
      ("objects/blobs/note", .payload [1]),
      ("objects/packs/pack", .payload [2]),
      ("objects/packs/pack.idx", .payload [3]),
      ("objects/blobs/queued", .payload [4]),
      ("objects/blobs/unused", .payload [5])]
  remote := []
  queue := [⟨"queued", some ⟨true, ["home", "objects", "blobs", "queued"]⟩⟩]
  journal := [event]

end Example

theorem Example.archived_lists {record : FileRecord} :
    archived.db.Lists archived.view record ↔ record ∈ [noteRecord, oldRecord, videoRecord] := by
  have header : archived.view.loadSnapshotHeader ⟨"snap-1", "objects/blobs/manifest", .empty⟩ =
      .ok compactManifest := by decide +kernel
  have load : archived.view.loadRootTreeEntries 3 ⟨"tree", "objects/trees/tree", 3⟩ =
      .ok [("note", noteRecord), ("old", oldRecord), ("media/video", videoRecord)] := by
    decide +kernel
  constructor
  · rintro ⟨row, inside, rootTree, ⟨manifest, header', member⟩, depth, entries, load', listed⟩
    obtain rfl := List.mem_singleton.mp inside
    cases header.symm.trans header'
    obtain rfl := List.mem_singleton.mp member
    rwa [← View.loadRootTreeEntries_unique load load'] at listed
  · intro listed
    exact ⟨_, List.mem_singleton.mpr rfl, _, ⟨_, header, List.mem_singleton.mpr rfl⟩, 3, _, load,
      listed⟩

theorem Example.archived_flat (record : FileRecord) : ¬ archived.Flat record := by
  rintro ⟨row, inside, manifest, header, records, kept, -⟩
  obtain rfl := List.mem_singleton.mp inside
  cases header.symm.trans (show _ = Except.ok compactManifest by decide +kernel)
  cases kept

theorem Example.archived_covered : Covered archived where
  flat record kept := absurd kept (archived_flat record)
  flatPacks record kept := absurd kept (archived_flat record)
  rows := by
    intro record listed ref blobRef source _ _
    have which := archived_lists.mp listed
    simp only [List.mem_cons, List.not_mem_nil, or_false] at which
    rcases which with rfl | rfl | rfl
    · obtain rfl := Option.some.inj blobRef
      have member : ⟨"note", "objects/blobs/note", none⟩ ∈ archived.db.blobs := by decide
      exact Or.inl (.blob listed rfl member rfl)
    · obtain rfl := Option.some.inj blobRef
      exact absurd source (by decide +kernel)
    · cases blobRef
  copies := by
    intro row inside json
    obtain rfl := List.mem_singleton.mp inside
    exact absurd rfl json
  journalPacks := by
    rintro event inside payload payloadOf key ⟨ref, blobRef, -⟩
    obtain rfl := List.mem_singleton.mp inside
    obtain rfl := Option.some.inj payloadOf
    cases blobRef
  journalChunks := by
    intro event inside manifestKey named chunk member _ _
    obtain rfl := List.mem_singleton.mp inside
    obtain rfl := Option.some.inj named
    have listed : archived.db.Lists archived.view videoRecord := archived_lists.mpr (by decide)
    exact Or.inl (.large listed ⟨_, rfl, Or.inr (Repository.view_chunkKeys member)⟩)
  sources := by
    intro item inside source sourceOf key named _
    obtain rfl := List.mem_singleton.mp inside
    obtain rfl := Option.some.inj sourceOf
    obtain rfl := Option.some.inj named
    exact Or.inr (by decide +kernel)

theorem Repository.gcCmd_keeps_needed_archived :
    ∃ s', Example.archived.gcCmd false 3 = .ok s' ∧
      s'.files.get "objects/large/chunks/part" = some (.payload [7]) ∧
      s'.files.get "objects/blobs/unused" = none := by
  obtain ⟨s', done, swept⟩ : ∃ s', Example.archived.gcCmd false 3 = .ok s' ∧
      decide (s'.files.get "objects/blobs/unused" = none) = true :=
    exists_ok (by decide +kernel)
  obtain ⟨keeps, same⟩ := Repository.gcCmd_keeps_needed_iff Example.archived s' false 3 done
  have there : Example.archived.isLocal "objects/large/chunks/part" := by decide +kernel
  have kept := keeps.mpr (Or.inr Example.archived_covered) "objects/large/chunks/part"
    (.object (.journalChunk (List.mem_singleton.mpr rfl) rfl
      (show "objects/large/chunks/part" ∈ Example.archived.chunkKeys "objects/large/manifests/video"
        by decide +kernel)) (.self (by decide +kernel))) there
  exact ⟨s', done, (same _ there kept (by decide +kernel)).trans (by decide +kernel),
    of_decide_eq_true swept⟩

/-- A collection keeps the large manifest of a journal record and removes its chunk. -/
theorem Repository.gcCmd_drops_journal_chunk :
    ∃ s', Example.journalled.gcCmd false 1 = .ok s' ∧
      Needed Example.journalled "objects/large/chunks/part" ∧
      Example.journalled.isLocal "objects/large/chunks/part" ∧
      ¬ s'.isLocal "objects/large/chunks/part" := by
  obtain ⟨s', done, swept⟩ : ∃ s', Example.journalled.gcCmd false 1 = .ok s' ∧
      decide (¬ s'.isLocal "objects/large/chunks/part") = true :=
    exists_ok (by decide +kernel)
  refine ⟨s', done, ?_, by decide +kernel, of_decide_eq_true swept⟩
  exact .object (.journalChunk (List.mem_singleton.mpr rfl) rfl
    (show "objects/large/chunks/part" ∈ Example.journalled.chunkKeys "objects/large/manifests/video"
      by decide +kernel)) (.self (by decide +kernel))

end Majutsu.Repo
