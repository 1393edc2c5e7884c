import Majutsu.Cluster.State

/-!
# Requests that write, and write intents

The sections of the master that take `durable_lock` on behalf of a request:
PUT batches, DELETE and the hydration of the store by a GET, with the replay of
write intents and the one-time reconciliation of an old store at start-up. The
order of the file operations is the order of the source, since a process that
stops in the middle leaves exactly the files written so far.
-/

namespace Majutsu.Cluster

structure ClusterPutResult where
  masterDurable : Bool
  newlyStored : Bool
  storedBytes : Nat
  deriving DecidableEq

inductive BackendEnqueueOutcome where
  | created
  | reused
  | replaced
  deriving DecidableEq

def lengthOf (found : Option Bytes) : Nat := found.elim 0 List.length

def quotaProjection (s : Master) (oldLen newLen : Nat) : Nat :=
  saturatingAdd (s.storeBytes - oldLen) newLen

/-- The `Ok` cases of `enforce_store_quota`. -/
def quotaAllows (C : Config) (s : Master) (oldLen newLen : Nat) : Bool :=
  decide (newLen ≤ oldLen) || C.storeMaxBytes.elim true (quotaProjection s oldLen newLen ≤ ·)

def quotaFailure (C : Config) (s : Master) (oldLen newLen : Nat) : Failure :=
  .message ("cluster master store quota exceeded: projected=" ++
    toString (quotaProjection s oldLen newLen) ++ " limit=" ++
    toString (C.storeMaxBytes.getD 0) ++ " current=" ++ toString s.storeBytes)

def enforceStoreQuota (C : Config) (oldLen newLen : Nat) : Locked Unit := do
  let s ← .look id
  .require (quotaAllows C s oldLen newLen) (quotaFailure C s oldLen newLen)

def updateStoreBytes (oldLen newLen : Nat) : Locked Unit :=
  .update (fun s => { s with storeBytes := saturatingAdd (s.storeBytes - oldLen) newLen })

/-- The directories on the way to a path that do not exist, the outermost first. -/
def missingDirs (s : Store) (dirs : List Key) : List Key :=
  (dirs.reverse.takeWhile (fun d => !s.has d)).reverse

def createDirs : List Key → Locked Unit
  | [] => pure ()
  | directory :: rest => do
    Locked.createDir directory
    Locked.fsyncParentDir
    createDirs rest

/-- `create_dir_all_durable` of the last of the nested directories `dirs`. -/
def createDirAllDurable (dirs : List Key) : Locked Unit := do
  let store ← .look Master.store
  let current := (dirs.reverse.dropWhile (fun d => !store.has d)).headD ""
  .require (decide (current = "" ∨ current ∈ store.dirs))
    (.message ("directory ancestor is not a directory: " ++ current))
  createDirs (missingDirs store dirs)

def validated (check : Except Failure Unit) : Locked Unit :=
  match check with
  | .ok _ => pure ()
  | .error e => .fail e

def ensureStoreKeyParent (key : Key) : Locked Unit := do
  validated (validateClusterKey key)
  createDirAllDurable (ancestors key)

def readBackendQueueItemOptional (key : Key) : Locked (Option BackendQueueItem) :=
  .read (·.queueItem key)

def writeBackendQueueItem (sourceHost : String) (key : Key) (operation : BackendQueueOperation) :
    Locked BackendEnqueueOutcome := do
  let now ← Locked.utcNow
  let existing ← readBackendQueueItemOptional key
  if existing.any (fun item => item.operation == operation) then
    pure .reused
  else do
    let generation ← Locked.newGeneration
    let item : BackendQueueItem :=
      { generation, sourceHost, operation
        createdAt := existing.elim now BackendQueueItem.createdAt
        updatedAt := now
        attempts := 0
        retryAfter := none }
    Locked.write (fun s => { s with
      queue := s.queue.insert key item
      nextGeneration := s.nextGeneration + 1 })
    pure (if existing.isSome then .replaced else .created)

def enqueueBackendPut (sourceHost : String) (item : ClusterPutItem) (digest : String) :
    Locked BackendEnqueueOutcome :=
  writeBackendQueueItem sourceHost item.key (.put digest item.bytes.length item.conditional)

def enqueueBackendDelete (sourceHost : String) (key : Key) : Locked Unit := do
  let _ ← writeBackendQueueItem sourceHost key .delete
  pure ()

def LocalGcCatalogCache.set (cache : LocalGcCatalogCache) (key : Key) (item : Option LocalGcItem) :
    LocalGcCatalogCache :=
  { cache with catalog := cache.catalog.map (fun catalog =>
      match item with
      | some item => catalog.insert key item
      | none => catalog.erase key) }

def updateLocalGcCatalog (key : Key) (item : Option LocalGcItem) : Locked Unit :=
  .update (fun s => { s with gcCatalog := s.gcCatalog.set key item })

def removeLocalGc (key : Key) : Locked Unit :=
  .write (fun s => { s with localGc := s.localGc.erase key })

def cancelLocalGc (key : Key) : Locked Bool := do
  let found ← .look (fun s => (s.localGc.lookup key).isSome)
  if found then do
    removeLocalGc key
    updateLocalGcCatalog key none
    pure true
  else do
    updateLocalGcCatalog key none
    pure false

def writeIntent (key : Key) (intent : MasterWriteIntent) : Locked Unit :=
  .write (fun s => { s with intents := s.intents.insert key intent })

def removeIntent (key : Key) : Locked Unit :=
  .write (fun s => { s with intents := s.intents.erase key })

/-- The replay of an intent whose file has been read and decoded. -/
def replayIntent (C : Config) (key : Key) (intent : MasterWriteIntent) : Locked Unit := do
  .require (decide (intent.item.key = key))
    (.message ("master write intentの世代またはkeyが不正: " ++ key))
  validated (validateClusterKey key)
  let old ← Locked.storeGetOptional key
  let digest := C.digest intent.item.bytes
  .when (decide (old.map C.digest ≠ some digest)) do
    .require (!(intent.item.conditional && old.isSome))
      (.message ("immutable intentとstoreの内容が競合: " ++ key))
    enforceStoreQuota C (lengthOf old) intent.item.bytes.length
    ensureStoreKeyParent key
    Locked.storePut key intent.item.bytes
    updateStoreBytes (lengthOf old) intent.item.bytes.length
  let _ ← enqueueBackendPut intent.sourceHost intent.item digest
  let _ ← cancelLocalGc key
  removeIntent key

def recoverMasterWriteIntentForKey (C : Config) (key : Key) : Locked Unit := do
  match ← Locked.read (·.intents.lookup key) with
  | none => pure ()
  | some intent => replayIntent C key intent

/-- The files of a directory in the order in which `read_dir` happens to list them.
`order` stands for that choice. -/
def listed {ν : Type} (order : List Key) (dir : Directory Key ν) : List Key :=
  order.filter (fun key => (dir.lookup key).isSome)

def recoverEntry (C : Config) (key : Key) : Locked Unit := do
  match ← Locked.read (·.intents.lookup key) with
  | none => .fail .io
  | some intent => do
    .require (decide (intent.item.key = key))
      (.message ("master write intentのファイル名がkeyと不一致: " ++ key))
    recoverMasterWriteIntentForKey C key

def recoverEach (C : Config) : List Key → Locked Unit
  | [] => pure ()
  | key :: rest => do
    recoverEntry C key
    recoverEach C rest

def recoverMasterWriteIntents (C : Config) (order : List Key) : Locked Unit := do
  let names ← Locked.read (fun s => listed order s.intents)
  recoverEach C names

def backendReceiptMatches (key : Key) (digest : String) : Locked Bool := do
  let receipt ← Locked.read (·.receipts.lookup key)
  pure (decide (receipt = some { key, digest }))

/-- Whether a PUT has to reach the backend. The receipt is read only if nothing else decides. -/
def needsBackup (key : Key) (digest : String) (changed wasTombstoned : Bool) : Locked Bool := do
  let queued ← .look (fun s => (s.queue.lookup key).isSome)
  if changed || wasTombstoned || queued then pure true
  else do
    let receipted ← backendReceiptMatches key digest
    pure (!receipted)

/-- The store write of a PUT; the result says whether the payload is new. -/
def storePayload (C : Config) (item : ClusterPutItem) (existing : Option Bytes) : Locked Bool :=
  if item.conditional then
    match existing with
    | some found => do
      .require (decide (C.digest found = C.digest item.bytes))
        (.message ("cluster immutable object digest collision for " ++ item.key ++ ": stored=" ++
          C.digest found ++ " incoming=" ++ C.digest item.bytes))
      pure false
    | none => do
      enforceStoreQuota C 0 item.bytes.length
      ensureStoreKeyParent item.key
      Locked.storePutIfAbsent item.key item.bytes
  else do
    enforceStoreQuota C (lengthOf existing) item.bytes.length
    if existing.map C.digest = some (C.digest item.bytes) then pure false
    else do
      ensureStoreKeyParent item.key
      Locked.storePut item.key item.bytes
      pure true

/-- The rest of a PUT once its intent, if it needs one, is on disk. -/
def finishPut (C : Config) (sourceHost : String) (item : ClusterPutItem)
    (existing : Option Bytes) (wasTombstoned backup : Bool) : Locked ClusterPutResult := do
  let newlyStored ← storePayload C item existing
  .when newlyStored (updateStoreBytes (lengthOf existing) item.bytes.length)
  .when wasTombstoned do
    let _ ← cancelLocalGc item.key
    pure ()
  .when backup do
    let _ ← enqueueBackendPut sourceHost item (C.digest item.bytes)
    removeIntent item.key
  pure
    { masterDurable := true, newlyStored
      storedBytes := if newlyStored then item.bytes.length else 0 }

/-- One round of the loop of `process_puts`. -/
def processPut (C : Config) (sourceHost : String) (item : ClusterPutItem) :
    Locked ClusterPutResult := do
  recoverMasterWriteIntentForKey C item.key
  let wasTombstoned ← .look (fun s => (s.localGc.lookup item.key).isSome)
  let digest := C.digest item.bytes
  let existing ← Locked.storeGetOptional item.key
  let changed := decide (existing.map C.digest ≠ some digest)
  .require (!(item.conditional && changed && existing.isSome))
    (.message ("cluster immutable object digest collision for " ++ item.key))
  let backup ← needsBackup item.key digest changed wasTombstoned
  .when backup do
    enforceStoreQuota C (lengthOf existing) item.bytes.length
    writeIntent item.key { sourceHost, item }
  finishPut C sourceHost item existing wasTombstoned backup

def processPuts (C : Config) (sourceHost : String) :
    List ClusterPutItem → Locked (List ClusterPutResult)
  | [] => pure []
  | item :: rest => do
    let result ← processPut C sourceHost item
    let results ← processPuts C sourceHost rest
    pure (result :: results)

def durableDelete (C : Config) (sourceHost : String) (key : Key) : Locked Unit := do
  recoverMasterWriteIntentForKey C key
  enqueueBackendDelete sourceHost key

def storeExists (key : Key) : Locked Bool := do
  validated (validateSlashRelativeKey key)
  .look (·.store.has key)

/-- The part of `master_get_optional` under the lock: keep what the backend returned. -/
def hydrate (C : Config) (key : Key) (bytes : Bytes) : Locked Unit := do
  let found ← storeExists key
  let allowed ← .look (fun s => quotaAllows C s 0 bytes.length)
  .when (!found && allowed) do
    ensureStoreKeyParent key
    let stored ← Locked.storePutIfAbsent key bytes
    .when stored (updateStoreBytes 0 bytes.length)

/-- An old store key without a queue file, a receipt or a tombstone is queued for upload. -/
def reconcileEntry (C : Config) (key : Key) : Locked Unit := do
  let skipped ← .look (fun s =>
    (slashParts key).any (startsWith · ".") || (s.queue.lookup key).isSome ||
      (s.receipts.lookup key).isSome || (s.localGc.lookup key).isSome)
  .when (!skipped) do
    validated (validateClusterKey key)
    let bytes ← Locked.storeGet key
    let _ ← writeBackendQueueItem ((slashParts key).headD "unknown-host") key
      (.put (C.digest bytes) bytes.length (backendPublishPriority key == 1))
    pure ()

def reconcileEach (C : Config) : List Key → Locked Unit
  | [] => pure ()
  | key :: rest => do
    reconcileEntry C key
    reconcileEach C rest

def reconcileLegacyBackendQueue (C : Config) (order : List Key) : Locked Unit := do
  let complete ← .look Master.migrated
  .when (!complete) do
    let names ← Locked.read (fun s => listed order s.store.files)
    reconcileEach C names
    Locked.write (fun s => { s with migrated := true })

end Majutsu.Cluster
