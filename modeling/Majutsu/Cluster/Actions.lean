import Majutsu.Cluster.WorkerSections
import Majutsu.Lib.Interaction

/-!
# The atomic actions of the master's threads

A section under `durable_lock` is one action; it may report an error or stop
half-way, and then leaves the files it has written. Outside the lock, one file
read, one call of the backend and one use of an in-memory cache is one action.
A backend call that reports an error may still have taken effect.
-/

namespace Majutsu.Cluster

/-- The pieces of code that run under `durable_lock`. -/
inductive Section where
  | processPuts (sourceHost : String) (items : List ClusterPutItem)
  | durableDelete (sourceHost : String) (key : Key)
  | hydrate (key : Key) (bytes : Bytes)
  | backendCommitted (keys : List Key)
  | recoverMasterWriteIntents
  | reconcileLegacyBackendQueue
  | uploadCheck (queued : Queued) (deps : BackendQueueDependencies)
  | completeUploaded (queued : Queued)
  | completeWithoutUpload (queued : Queued)
  | recordFailure (queued : Queued)
  | pendingHosts
  | activeDeletes (chunk : List Queued)
  | gcItem (now : Nat) (key : Key) (selected : LocalGcItem)

namespace Section

def Answer : Section → Type
  | processPuts _ _ => List ClusterPutResult
  | durableDelete _ _ | hydrate _ _ | recoverMasterWriteIntents | reconcileLegacyBackendQueue
  | recordFailure _ => Unit
  | backendCommitted _ => List Key
  | uploadCheck _ _ => Option (Option Bytes)
  | completeUploaded _ | completeWithoutUpload _ | gcItem _ _ _ => Bool
  | pendingHosts => Finset String
  | activeDeletes _ => List Queued

def run (C : Config) (order : List Key) : (S : Section) → Locked S.Answer
  | processPuts sourceHost items => Cluster.processPuts C sourceHost items
  | durableDelete sourceHost key => Cluster.durableDelete C sourceHost key
  | hydrate key bytes => Cluster.hydrate C key bytes
  | backendCommitted keys => Cluster.backendCommitted C keys
  | recoverMasterWriteIntents => Cluster.recoverMasterWriteIntents C order
  | reconcileLegacyBackendQueue => Cluster.reconcileLegacyBackendQueue C order
  | uploadCheck queued deps => Cluster.uploadCheck C queued deps
  | completeUploaded queued => completeUploadedBackendQueueItem C queued
  | completeWithoutUpload queued => completeBackendQueueItemWithoutUpload queued
  | recordFailure queued => recordBackendQueueFailure C queued
  | pendingHosts => Cluster.pendingHosts
  | activeDeletes chunk => Cluster.activeDeletes chunk
  | gcItem now key selected => Cluster.gcItem C now key selected

end Section

/-- The answer to `delete_batch`: one verdict for each key it mentions. -/
inductive BatchDeletion where
  | answered (results : List (Key × Option String))
  | unsupported
  | failed (e : Failure)
  deriving DecidableEq

inductive Action where
  | locked (S : Section)
  | readQueue (key : Key)
  | tombstoneExists (key : Key)
  | readStore (key : Key)
  | storeHas (key : Key)
  | listStore (start : String)
  | storeCommonPrefixes (start : String)
  | backendGet (key : Key)
  | backendHas (key : Key)
  | backendList (start : String)
  | backendCommonPrefixes (start : String)
  | backendPut (queued : Queued) (bytes : Bytes)
  | backendPutIfAbsent (queued : Queued) (bytes : Bytes)
  | backendDelete (queued : Queued)
  | backendDeleteBatch (items : List Queued)
  | backendMaintenance
  | readQueueDir
  /-- The end of one directory scan; it changes nothing. -/
  | scanned (items : List Queued)
  | localGcCatalog
  | localGcDue (now : Nat)
  | utcNow
  | flushRequested
  | removeFlushRequest
  | batchDeleteEnabled
  | disableBatchDelete
  | readListCache (key : CacheKey)
  | writeListCache (key : CacheKey) (value : CachedList)
  | clearListCache
  | updateListCacheAfterPuts (items : List ClusterPutItem)
  | writeMasterStatus

def Action.Answer : Action → Type
  | locked S => Except Failure S.Answer
  | readQueue _ => Option BackendQueueItem
  | tombstoneExists _ | storeHas _ | flushRequested | batchDeleteEnabled => Bool
  | readStore _ | backendGet _ => Except Failure (Option Bytes)
  | listStore _ => Objects
  | backendHas _ | backendMaintenance => Except Failure Bool
  | backendList _ => Except Failure Objects
  | storeCommonPrefixes _ | backendCommonPrefixes _ => Except Failure (Finset String)
  | backendPut _ _ | backendDelete _ | removeFlushRequest | writeMasterStatus =>
    Except Failure Unit
  | backendPutIfAbsent _ _ => Except Failure Bool
  | backendDeleteBatch _ => BatchDeletion
  | readQueueDir => List Key
  | scanned _ | disableBatchDelete | writeListCache _ _ | clearListCache
  | updateListCacheAfterPuts _ => Unit
  | localGcCatalog => Except Failure (Directory Key LocalGcItem)
  | localGcDue _ => Except Failure (List (Key × LocalGcItem))
  | utcNow => Nat
  | readListCache _ => Option CachedList

def objectsUnder (dir : Directory Key Bytes) (start : String) : Objects :=
  (dir.keys.filter (startsWith · start)).image (fun key => (key, lengthOf (dir.lookup key)))

def trimSlashes (start : String) : String :=
  String.ofList (start.toList.reverse.dropWhile (· == '/')).reverse

/-- `list_common_prefixes` of a file tree: the directories right under a directory. -/
def Store.commonPrefixes (s : Store) (start : String) : Except Failure (Finset String) :=
  let base := trimSlashes start
  let children := (s.dirs.filter (fun d => (ancestors d).getLastD "" = base)).image (· ++ "/")
  if base = "" then .ok children
  else match validateSlashRelativeKey base with
    | .error e => .error e
    | .ok _ => .ok (if base ∈ s.dirs then children else ∅)

/-- The start of the keys that a listing with a delimiter looks at. -/
def listingBase (start : String) : String :=
  if start = "" ∨ endsWith start "/" then start else start ++ "/"

def firstPart (text : List Char) : String := String.ofList (text.takeWhile (· != '/'))

/-- What a key adds to a listing: its common prefix or, when the key is returned as an object,
the directory that the whole key starts with. -/
def listedPrefix (base : String) (key : Key) : Finset String :=
  let rest := key.toList.drop base.toList.length
  if startsWith key base = false then ∅
  else if '/' ∈ rest then {base ++ firstPart rest ++ "/"}
  else if '/' ∈ key.toList then {firstPart key.toList ++ "/"}
  else ∅

/-- `list_common_prefixes` of an object store, with `/` as the delimiter. -/
def backendPrefixes (dir : Directory Key Bytes) (start : String) : Finset String :=
  dir.keys.biUnion (listedPrefix (listingBase start))

section Catalog

variable (C : Config) (s : Master)

def refreshDue : Bool :=
  let interval := if s.gcCatalog.error.isSome
    then min C.localGcCatalogRefresh (30 * C.ticksPerSecond) else C.localGcCatalogRefresh
  s.gcCatalog.lastRefreshAttempt.elim true (fun last => decide (interval ≤ s.clock - last))

/-- The refresh at the head of `with_local_gc_catalog`; `failure` is the error of the load. -/
def refreshCatalog (failure : Option Failure) : Master :=
  if refreshDue C s then
    { s with gcCatalog :=
        { catalog := if failure.isSome then s.gcCatalog.catalog else some s.localGc
          lastRefreshAttempt := some s.clock
          error := failure } }
  else s

def catalogAnswer : Except Failure (Directory Key LocalGcItem) :=
  match s.gcCatalog.error, s.gcCatalog.catalog with
  | some e, _ => .error e
  | none, none => .error (.message "master local GC catalog is not initialized")
  | none, some catalog => .ok catalog

/-- The index of the catalog by `delete_after`, up to the time `now`. -/
def DueList (catalog : Directory Key LocalGcItem) (now : Nat)
    (due : List (Key × LocalGcItem)) : Prop :=
  due.Pairwise (fun a b => a.2.deleteAfter < b.2.deleteAfter ∨
    (a.2.deleteAfter = b.2.deleteAfter ∧ a.1 < b.1)) ∧
  ∀ entry, entry ∈ due ↔ catalog.lookup entry.1 = some entry.2 ∧ entry.2.deleteAfter ≤ now

end Catalog

section ListCache

variable (C : Config)

abbrev ListCache := CacheKey → Option (Nat × CachedList)

def readListCache (s : Master) (key : CacheKey) : Option CachedList × Master :=
  match C.listCacheTtl, s.listCache key with
  | some ttl, some (created, value) =>
    if s.clock - created < ttl then (some value, s)
    else (none, { s with listCache := Function.update s.listCache key none })
  | _, _ => (none, s)

def writeListCache (s : Master) (key : CacheKey) (value : CachedList) : Master :=
  if C.listCacheTtl.isSome then
    { s with listCache := Function.update s.listCache key (some (s.clock, value)) }
  else s

def CachedList.afterPut (start : String) (item : ClusterPutItem) : CachedList → CachedList
  | .strings keys => .strings (if startsWith item.key start then insert item.key keys else keys)
  | .objects found => .objects (if startsWith item.key start
      then insert (item.key, item.bytes.length) (found.filter (·.1 ≠ item.key)) else found)

def ListCache.afterPuts (cache : ListCache) (items : List ClusterPutItem) : ListCache
  | .prefixes _ => none
  | .keys start => (cache (.keys start)).map (fun entry =>
      (entry.1, items.foldl (fun value item => value.afterPut start item) entry.2))
  | .sizes start => (cache (.sizes start)).map (fun entry =>
      (entry.1, items.foldl (fun value item => value.afterPut start item) entry.2))

def updateListCacheAfterPuts (s : Master) (items : List ClusterPutItem) : Master :=
  if C.listCacheTtl.isSome then { s with listCache := ListCache.afterPuts s.listCache items }
  else s

end ListCache

/-- `order` lists every file of the master, in the order in which `read_dir` will. -/
def Covers (order : List Key) (s : Master) : Prop :=
  order.Nodup ∧ ∀ key, key ∈ s.intents ∨ key ∈ s.store.files → key ∈ order

def answerOf {α : Type} : Critical.Outcome Failure α → Option (Except Failure α)
  | .done a => some (.ok a)
  | .error e => some (.error e)
  | .stopped => none

/-- A call that changes the backend: on an error it may have been carried out or not. -/
def BackendCall {α : Type} (s : Master) (value : α) (changed : Directory Key Bytes)
    (o : Option (Except Failure α)) (s' : Master) : Prop :=
  (o = some (.ok value) ∧ s' = { s with backend := changed }) ∨
    ∃ e, o = some (.error e) ∧ (s' = s ∨ s' = { s with backend := changed })

/-- A call that only reads the backend, or fails. -/
def BackendQuery {α : Type} (s : Master) (value : α) (o : Option (Except Failure α))
    (s' : Master) : Prop :=
  s' = s ∧ (o = some (.ok value) ∨ ∃ e, o = some (.error e))

/-- `put_if_absent` leaves an existing object unchanged. -/
def PutIfAbsentCall (s : Master) (key : Key) (bytes : Bytes) (o : Option (Except Failure Bool))
    (s' : Master) : Prop :=
  if (s.backend.lookup key).isSome then BackendQuery s false o s'
  else BackendCall s true (s.backend.insert key bytes) o s'

def eraseAll (dir : Directory Key Bytes) (keys : List Key) : Directory Key Bytes :=
  keys.foldl (fun dir key => dir.erase key) dir

/-- `a.Does C s o s'`: performed in `s`, the action answers `o` and leaves `s'`; the answer
`none` means that the process stopped inside it. -/
def Action.Does (C : Config) : (a : Action) → Master → Option a.Answer → Master → Prop
  | locked S, s, o, s' => ∃ order fates, Covers order s ∧
      (S.run C order fates s).state = s' ∧ answerOf (S.run C order fates s).outcome = o
  | readQueue key, s, o, s' => s' = s ∧ o = some (s.queueItem key)
  | tombstoneExists key, s, o, s' => s' = s ∧ o = some (s.localGc.lookup key).isSome
  | readStore key, s, o, s' => s' = s ∧ o = some (s.store.getOptional key)
  | storeHas key, s, o, s' => s' = s ∧ o = some (s.store.has key)
  | listStore start, s, o, s' => s' = s ∧ o = some (objectsUnder s.store.files start)
  | storeCommonPrefixes start, s, o, s' => s' = s ∧ o = some (s.store.commonPrefixes start)
  | backendGet key, s, o, s' => BackendQuery s (s.backend.lookup key) o s'
  | backendHas key, s, o, s' => BackendQuery s (s.backend.lookup key).isSome o s'
  | backendList start, s, o, s' => BackendQuery s (objectsUnder s.backend start) o s'
  | backendCommonPrefixes start, s, o, s' => BackendQuery s (backendPrefixes s.backend start) o s'
  | backendPut queued bytes, s, o, s' => BackendCall s () (s.backend.insert queued.1 bytes) o s'
  | backendPutIfAbsent queued bytes, s, o, s' => PutIfAbsentCall s queued.1 bytes o s'
  | backendDelete queued, s, o, s' => BackendCall s () (s.backend.erase queued.1) o s'
  -- an answer of `delete_batch` is no proof that the objects are gone
  | backendDeleteBatch items, s, o, s' => ∃ gone answer, gone ⊆ items.map Prod.fst ∧
      o = some answer ∧ s' = { s with backend := eraseAll s.backend gone }
  | backendMaintenance, s, o, s' => s' = s ∧ ∃ answer, o = some answer
  | readQueueDir, s, o, s' => s' = s ∧
      ∃ names : List Key, o = some names ∧ names.Nodup ∧ ∀ key ∈ s.queue, key ∈ names
  | scanned _, s, o, s' => s' = s ∧ o = some ()
  | localGcCatalog, s, o, s' => ∃ failure, s' = refreshCatalog C s failure ∧
      o = some (catalogAnswer s')
  | localGcDue now, s, o, s' => ∃ failure, s' = refreshCatalog C s failure ∧
      match catalogAnswer s' with
      | .ok catalog => ∃ due, DueList catalog now due ∧ o = some (.ok due)
      | .error e => o = some (.error e)
  | utcNow, s, o, s' => s' = s ∧ o = some s.clock
  | flushRequested, s, o, s' => s' = s ∧ o = some s.flushRequest
  | removeFlushRequest, s, o, s' =>
    (o = some (.ok ()) ∧ s' = { s with flushRequest := false }) ∨
      ∃ e, o = some (.error e) ∧ (s' = s ∨ s' = { s with flushRequest := false })
  | batchDeleteEnabled, s, o, s' => s' = s ∧ o = some s.batchDeleteEnabled
  | disableBatchDelete, s, o, s' => s' = { s with batchDeleteEnabled := false } ∧ o = some ()
  | readListCache key, s, o, s' => s' = (Cluster.readListCache C s key).2 ∧
      o = some (Cluster.readListCache C s key).1
  | writeListCache key value, s, o, s' => s' = Cluster.writeListCache C s key value ∧ o = some ()
  | clearListCache, s, o, s' => s' = { s with listCache := fun _ => none } ∧ o = some ()
  | updateListCacheAfterPuts items, s, o, s' =>
    s' = Cluster.updateListCacheAfterPuts C s items ∧ o = some ()
  | writeMasterStatus, s, o, s' => (s' = s ∨ ∃ failure, s' = refreshCatalog C s failure) ∧
      ∃ answer, o = some answer

end Majutsu.Cluster
