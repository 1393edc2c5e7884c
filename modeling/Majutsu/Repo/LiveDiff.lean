import Majutsu.Repo.EventCompaction
import Majutsu.Repo.RestorePlan

/-!
# Live diffs

Before a sync uploads the journal it compares the live roots with the current snapshot
and writes an event for each path that differs, unless an event of the path seems to
say so already. The upload fills in what the file holds, and the acknowledgement makes
the event durable. A restore of the latest state puts the durable events over the
snapshot.
-/

namespace Majutsu.Repo

open Loops SortedMap

inductive LiveEntry where
  | file (bytes : Bytes)
  | symlink (target : String)
  | special (kind : String)
  | directory
  deriving DecidableEq

structure LiveFile where
  entry : LiveEntry
  mode : Nat
  modified : Option Int
  uid : Option Nat
  gid : Option Nat
  xattrs : Entries String
  deriving DecidableEq

/-- How contents are named and stored. -/
structure LiveStore where
  blake3Hex : Bytes → Oid
  objectKey : Oid → Key
  /-- The manifest of a file stored in chunks, and how many they are. -/
  storeLargeFile : String → Bytes → Key × Nat

structure JournalRoot where
  /-- Whether the status is active and the path exists. -/
  active : Bool
  /-- The paths that the rules of the root let through. -/
  managed : String → Bool
  classifyLarge : String → Bytes → Bool
  /-- Whether a file is long enough to be stored in chunks. -/
  chunked : Bytes → Bool
  tracked : List String
  live : List (String × LiveFile)
  sorted : Sorted live

/-- What a restore brings back of a file. -/
inductive Content where
  | file (oid : Oid)
  | symlink (target : String)
  | special (kind : String)
  deriving DecidableEq

def Payload.content : Payload → Option Content
  | .symlink target => some (.symlink target)
  | .special kind => some (.special kind)
  | payload => (journalPayloadOid payload).map .file

def LiveFile.content (store : LiveStore) (file : LiveFile) : Option Content :=
  match file.entry with
  | .file bytes => some (.file (store.blake3Hex bytes))
  | .symlink target => some (.symlink target)
  | .special kind => some (.special kind)
  | .directory => none

namespace JournalRoot

variable (store : LiveStore) (files : FileMap) (root : JournalRoot)

/-- `journal_known_paths`. -/
def knows (path : String) : Bool := path ∈ root.tracked || (get files path).isSome

/-- `count_unknown_journal_file_candidates`. -/
def unknownCandidates : Nat :=
  (root.live.filter (fun entry => entry.2.entry ≠ .directory && root.managed entry.1 &&
    !root.knows files entry.1)).length

def liveRecord (id path kind : String) (file : LiveFile) (size : Nat) (xattrs : Entries String)
    (payload : Payload) : FileRecord :=
  { rootId := id, path, kind, size, mode := file.mode, modified := file.modified, uid := file.uid,
    gid := file.gid, xattrs, payload }

/-- The record of the snapshot stands for a file with the same length, times, owner and mode. -/
def unchangedRecord (path : String) (file : LiveFile) (bytes : Bytes) : Option FileRecord :=
  (get files path).filter fun record => record.kind = "file" && record.size = bytes.length &&
    record.mode = file.mode && record.modified = file.modified && record.uid = file.uid &&
    record.gid = file.gid && (journalPayloadOid record.payload).isSome &&
    record.xattrs = file.xattrs

/-- What `scan_live_root_for_journal` records for a path. -/
def scanRecord (id : String) (tooMany : Bool) (path : String) (file : LiveFile) :
    Option FileRecord :=
  if !root.managed path then none
  else
    match file.entry with
    | .directory => none
    | .symlink target =>
      if !root.knows files path && tooMany then none
      else some (liveRecord id path "symlink" file 0 [] (.symlink target))
    | .special kind =>
      if !root.knows files path && tooMany then none
      else some (liveRecord id path "special" file 0 file.xattrs (.special kind))
    | .file bytes =>
      if !root.knows files path && tooMany then none
      else if !root.knows files path && (root.classifyLarge path bytes || root.chunked bytes) then
        none
      else
        some ((unchangedRecord files path file bytes).getD
          (liveRecord id path "file" file bytes.length file.xattrs
            (.normalBlob (store.blake3Hex bytes) "")))

def scanLiveRootForJournal (id : String) (tooMany : Bool) : FileMap :=
  root.live.filterMap (fun entry =>
    (root.scanRecord store files id tooMany entry.1 entry.2).map (Prod.mk entry.1))

end JournalRoot

inductive LiveDiffKind where
  | create
  | delete
  | modify
  deriving DecidableEq

def journalPayloadsMatch : Payload → Payload → Bool
  | .directory, .directory => true
  | .symlink a, .symlink b => a = b
  | .special a, .special b => a = b
  | a, b => (journalPayloadOid a).isSome && journalPayloadOid b = journalPayloadOid a

def journalRecordsMatch (a b : FileRecord) : Bool :=
  a.kind = b.kind && a.size = b.size && a.mode = b.mode && a.modified = b.modified &&
    a.uid = b.uid && a.gid = b.gid && a.xattrs = b.xattrs &&
    journalPayloadsMatch a.payload b.payload

def liveDiffEventKind (snapshot live : Option FileRecord) : Option LiveDiffKind :=
  match snapshot, live with
  | none, some _ => some .create
  | some _, none => some .delete
  | some snapshot, some live => if journalRecordsMatch snapshot live then none else some .modify
  | none, none => none

def liveDiffEventAlreadyCovered (records : List JournalEvent) (rootId path : String)
    (timestamp : Int) (live : Option FileRecord) : Bool :=
  (records.filter (fun event => event.rootId = some rootId && event.path = some path &&
    timestamp < event.observedAt)).any fun event =>
      event.remoteJournalSyncedAt.isNone ||
        match live with
        | none => event.durableTombstone = some true
        | some record => durablePayloadMatches event record

/-- What a sync takes from outside: names and times. -/
structure SyncInputs where
  newId : String → String → String
  /-- When the event for a path of a root is written. -/
  observed : String → String → Int
  acknowledged : Int
  /-- Whether the sync looks at a root. -/
  selects : String → Bool
  /-- Whether the state to publish is that of the last sync, with nothing left to upload and no
  remote prune due. -/
  unchanged : Bool

structure JournalHost where
  hostId : String
  maxAutoTrackNewFiles : Nat
  trustsFinish : Bool
  current : Option CurrentSnapshot
  roots : List (String × JournalRoot)
  rootsSorted : Sorted roots
  journal : List JournalEvent

section Enqueue

variable (store : LiveStore) (host : JournalHost) (snapshot : CurrentSnapshot)

def JournalHost.tooMany (id : String) (root : JournalRoot) : Bool :=
  root.unknownCandidates (snapshot.rootFileMap id) > host.maxAutoTrackNewFiles

def JournalHost.liveFiles (id : String) (root : JournalRoot) : FileMap :=
  root.scanLiveRootForJournal store (snapshot.rootFileMap id) id (host.tooMany snapshot id root)

def JournalHost.pathsAll (id : String) (root : JournalRoot) : List String :=
  (((snapshot.rootFileMap id).map Prod.fst ++
    ((host.liveFiles store snapshot id root).map Prod.fst).filter
      (fun path => (get (snapshot.rootFileMap id) path).isNone)).insertionSort (· ≤ ·)).dedup

def JournalHost.diffKind (id : String) (root : JournalRoot) (path : String) :
    Option LiveDiffKind :=
  liveDiffEventKind (get (snapshot.rootFileMap id) path)
    (get (host.liveFiles store snapshot id root) path)

def JournalHost.covered (id : String) (root : JournalRoot) (path : String) : Bool :=
  liveDiffEventAlreadyCovered host.journal id path snapshot.timestamp
    (get (host.liveFiles store snapshot id root) path)

def JournalHost.liveDiffEvent (inputs : SyncInputs) (id : String) (root : JournalRoot)
    (path : String) : Option JournalEvent :=
  if (host.diffKind store snapshot id root path).isSome &&
      !host.covered store snapshot id root path then
    some (JournalEvent.newFileEvent (inputs.newId id path) (inputs.observed id path) id path)
  else none

/-- Whether a sync compares a root with the snapshot. -/
def SyncInputs.looksAt (inputs : SyncInputs) (id : String) (root : JournalRoot) : Bool :=
  root.active && inputs.selects id

def JournalHost.rootEvents (inputs : SyncInputs) (id : String) (root : JournalRoot) :
    List JournalEvent :=
  if inputs.looksAt id root then
    (host.pathsAll store snapshot id root).filterMap
      (host.liveDiffEvent store snapshot inputs id root)
  else []

/-- `mark_path_journal_tracked` for the paths that were created or changed. -/
def JournalHost.markTracked (inputs : SyncInputs) (id : String) (root : JournalRoot) :
    JournalRoot :=
  if inputs.looksAt id root then
    let marked := (host.pathsAll store snapshot id root).filter (fun path =>
      host.diffKind store snapshot id root path ∈ [some .create, some .modify] &&
        (get (host.liveFiles store snapshot id root) path).isSome)
    { root with tracked := root.tracked ++ marked }
  else root

def JournalHost.enqueueLiveDiffEventJournals (inputs : SyncInputs) : JournalHost :=
  match host.current with
  | none => host
  | some snapshot =>
    { host with
      roots := host.roots.map (fun entry =>
        (entry.1, host.markTracked store snapshot inputs entry.1 entry.2))
      rootsSorted := host.rootsSorted.mapWithKey _
      journal := host.roots.flatMap (fun entry =>
        host.rootEvents store snapshot inputs entry.1 entry.2) ++ host.journal }

end Enqueue

def JournalEvent.withMetadata (event : JournalEvent) (file : LiveFile) : JournalEvent :=
  { event with
    durableMode := some file.mode, durableModified := file.modified, durableUid := file.uid,
    durableGid := file.gid }

def JournalEvent.withKey (event : JournalEvent) (key : Key) : JournalEvent :=
  { event with remoteJournalKey := some key }

def JournalEvent.syncedAt (event : JournalEvent) (time : Int) : JournalEvent :=
  { event with remoteJournalSyncedAt := some time }

/-- An event that was filled in once is not filled in again. -/
def JournalEvent.isEnriched (event : JournalEvent) : Bool :=
  event.durableEntryKind.isSome || event.durablePayloadKey.isSome ||
    event.durableTombstone = some true

/-- What an event learns from the content of its path. -/
def JournalRoot.enrichContent (store : LiveStore) (files : FileMap) (root : JournalRoot)
    (path : String) (event : JournalEvent) : LiveEntry → JournalEvent
  | .symlink target =>
    { event with durableEntryKind := some "symlink", durableSymlinkTarget := some target }
  | .special kind =>
    { event with durableEntryKind := some "special", durableSpecialKind := some kind }
  | .directory => event
  | .file bytes =>
    if !root.knows files path && (root.classifyLarge path bytes || root.chunked bytes) then event
    else if root.classifyLarge path bytes || root.chunked bytes then
      { event with
        durableEntryKind := some "file"
        durablePayloadOid := some (store.blake3Hex bytes)
        durablePayloadSize := some bytes.length
        durableLargeManifestKey := some (store.storeLargeFile path bytes).1
        durableLargeChunkCount := some (store.storeLargeFile path bytes).2 }
    else
      { event with
        durableEntryKind := some "file"
        durablePayloadOid := some (store.blake3Hex bytes)
        durablePayloadSize := some bytes.length
        durablePayloadKey := some (store.objectKey (store.blake3Hex bytes)) }

def JournalRoot.enrich (store : LiveStore) (files : FileMap) (root : JournalRoot)
    (path : String) (event : JournalEvent) : JournalEvent :=
  match get root.live path with
  | none => { event with durableTombstone := some true }
  | some file => root.enrichContent store files path (event.withMetadata file) file.entry

namespace JournalHost

variable (store : LiveStore) (host : JournalHost)

def rootFiles (id : String) : FileMap := (host.current.map (fun s => s.rootFileMap id)).getD []

def enrichRemoteEventJournalPayload (event : JournalEvent) : JournalEvent :=
  if event.isEnriched then event
  else
    match event.rootId, event.path with
    | some rootId, some path =>
      match get host.roots rootId with
      | none => event
      | some root => root.enrich store (host.rootFiles rootId) path event
    | _, _ => event

def remoteEventJournalKey (eventId : String) : Key := s!"{host.hostId}/journal/{eventId}.json"

def uploadEvent (event : JournalEvent) : JournalEvent :=
  if event.isRemoteJournalPending then
    host.enrichRemoteEventJournalPayload store
      (event.withKey (host.remoteEventJournalKey event.eventId))
  else event

def acknowledgeEvent (inputs : SyncInputs) (event : JournalEvent) : JournalEvent :=
  if event.isRemoteJournalPending && event.remoteJournalKey.isSome then
    event.syncedAt inputs.acknowledged
  else event

def enqueueRemoteEventJournalUploads : JournalHost :=
  { host with journal := host.journal.map (host.uploadEvent store) }

/-- `acknowledge_remote_event_journal_uploads` after all uploads arrived. -/
def acknowledgeRemoteEventJournalUploads (inputs : SyncInputs) : JournalHost :=
  { host with journal := host.journal.map (acknowledgeEvent inputs) }

/-- A sync of an unchanged state returns before it compacts the journal. -/
def compacted (inputs : SyncInputs) (journal : List JournalEvent) : List JournalEvent :=
  if inputs.unchanged then journal
  else compactEventJournalForce host.trustsFinish host.current journal

def sync (inputs : SyncInputs) : JournalHost :=
  let uploaded := ((host.enqueueLiveDiffEventJournals store inputs).enqueueRemoteEventJournalUploads
    store).acknowledgeRemoteEventJournalUploads inputs
  { uploaded with journal := host.compacted inputs uploaded.journal }

end JournalHost

structure LiveEdit where
  rootId : String
  path : String
  file : Option LiveFile

def JournalRoot.edit (root : JournalRoot) (path : String) : Option LiveFile → JournalRoot
  | some file => { root with live := insert path file root.live, sorted := root.sorted.insert _ _ }
  | none => { root with live := erase path root.live, sorted := root.sorted.erase _ }

def JournalHost.edit (host : JournalHost) (edit : LiveEdit) : JournalHost :=
  { host with
    roots := host.roots.map (fun entry =>
      (entry.1, if entry.1 = edit.rootId then entry.2.edit edit.path edit.file else entry.2))
    rootsSorted := host.rootsSorted.mapWithKey
      (fun id root => if id = edit.rootId then root.edit edit.path edit.file else root) }

def JournalHost.editAndSync (store : LiveStore) (host : JournalHost)
    (step : LiveEdit × SyncInputs) : JournalHost :=
  (host.edit step.1).sync store step.2

end Majutsu.Repo
