import Majutsu.Cluster.StoreTree
import Majutsu.Lib.Critical

/-!
# The state of the cluster master

The queue, the write intents, the receipts and the tombstones are directories
with one file per key. The file is named by the blake3 hash of the key, which
is collision free, so the key itself is the name here, and the key that is
repeated inside a queue item or a tombstone is that name. Everything up to
`backend` is durable; the rest is memory of the running process and is lost
when it stops. Time is a number of clock ticks.
-/

namespace Majutsu.Cluster

/-- The hash of the `blake3` crate, as the hexadecimal text the program compares. -/
structure Blake3 where
  hex : Bytes → String
  collisionFree : Function.Injective hex

inductive BackendQueueOperation where
  | put (digest : String) (size : Nat) (conditional : Bool)
  | delete
  deriving DecidableEq

def BackendQueueOperation.isPut : BackendQueueOperation → Bool
  | .put _ _ _ => true
  | .delete => false

structure BackendQueueItem where
  generation : Nat
  sourceHost : String
  operation : BackendQueueOperation
  createdAt : Nat
  updatedAt : Nat
  attempts : Nat
  retryAfter : Option Nat
  deriving DecidableEq

structure LocalGcItem where
  generation : Nat
  sourceHost : String
  digest : String
  size : Nat
  deletedFromBackendAt : Nat
  deleteAfter : Nat
  deriving DecidableEq

structure MasterWriteIntent where
  sourceHost : String
  item : ClusterPutItem
  deriving DecidableEq

structure BackendPutReceipt where
  key : Key
  digest : String
  deriving DecidableEq

structure LocalGcCatalogCache where
  catalog : Option (Directory Key LocalGcItem)
  lastRefreshAttempt : Option Nat
  error : Option Failure

/-- The three texts `keys:…`, `prefixes:…` and `sizes:…` that index the list cache. -/
inductive CacheKey where
  | keys (start : String)
  | prefixes (start : String)
  | sizes (start : String)
  deriving DecidableEq

/-- Keys with the sizes of their objects. A sorted list without repetitions is a set here. -/
abbrev Objects := Finset (Key × Nat)

inductive CachedList where
  | strings (keys : Finset String)
  | objects (objects : Objects)
  deriving DecidableEq

structure Config where
  blake3 : Blake3
  ticksPerSecond : Nat
  storeMaxBytes : Option Nat
  localDeleteGrace : Nat
  localGcCatalogRefresh : Nat
  listCacheTtl : Option Nat
  flushInterval : Nat
  flushMaxBytes : Nat
  flushMaxObjects : Nat
  maxConcurrency : Nat
  dedupeListMinObjects : Nat
  deleteBatchMaxObjects : Nat

def Config.digest (C : Config) (bytes : Bytes) : String := C.blake3.hex bytes

@[simp] theorem Config.digest_inj {C : Config} {a b : Bytes} : C.digest a = C.digest b ↔ a = b :=
  C.blake3.collisionFree.eq_iff

structure Master where
  store : Store
  queue : Directory Key BackendQueueItem
  intents : Directory Key MasterWriteIntent
  receipts : Directory Key BackendPutReceipt
  localGc : Directory Key LocalGcItem
  /-- The marker `migration-v1.complete`. -/
  migrated : Bool
  flushRequest : Bool
  backend : Directory Key Bytes
  storeBytes : Nat
  gcCatalog : LocalGcCatalogCache
  batchDeleteEnabled : Bool
  listCache : CacheKey → Option (Nat × CachedList)
  clock : Nat
  /-- Supplies the generations; a v4 uuid is never issued twice. -/
  nextGeneration : Nat

/-- Work done while `durable_lock` is held. -/
abbrev Locked := Critical Master Failure

namespace Locked

def read {α : Type} (f : Master → α) : Locked α := .attempt .io (fun _ s => .ok (f s, s))

/-- `atomic_io::fsync_parent_dir`: nothing to see, but it may fail. -/
def fsyncParentDir : Locked Unit := .attempt .io (fun _ s => .ok ((), s))

/-- Replace or remove one file, then sync its directory. An error of the second part
is reported although the file has changed. -/
def write (f : Master → Master) : Locked Unit := do
  .attempt .io (fun _ s => .ok ((), f s))
  fsyncParentDir

def utcNow : Locked Nat :=
  .elapse (fun elapsed s => (s.clock + elapsed, { s with clock := s.clock + elapsed }))

def random : Locked Nat := .elapse (fun n s => (n, s))

/-- The generation that the next write will use up. -/
def newGeneration : Locked Nat := .look Master.nextGeneration

def storeGetOptional (key : Key) : Locked (Option Bytes) :=
  .attempt .io (fun _ s => match s.store.getOptional key with
    | .ok found => .ok (found, s)
    | .error e => .error e)

def storeGet (key : Key) : Locked Bytes :=
  .attempt .io (fun _ s => match s.store.get key with
    | .ok bytes => .ok (bytes, s)
    | .error e => .error e)

def storePut (key : Key) (bytes : Bytes) : Locked Unit :=
  .attempt .io (fun _ s => match s.store.put key bytes with
    | .ok store => .ok ((), { s with store })
    | .error e => .error e)

def storePutIfAbsent (key : Key) (bytes : Bytes) : Locked Bool :=
  .attempt .io (fun _ s => match s.store.putIfAbsent key bytes with
    | .ok (stored, store) => .ok (stored, { s with store })
    | .error e => .error e)

def storeDelete (key : Key) : Locked Unit :=
  .attempt .io (fun _ s => match s.store.delete key with
    | .ok store => .ok ((), { s with store })
    | .error e => .error e)

def createDir (path : Key) : Locked Unit :=
  .attempt .io (fun _ s => match s.store.createDir path with
    | .ok store => .ok ((), { s with store })
    | .error e => .error e)

end Locked

/-- `host.chars().filter(ascii alphanumeric).flat_map(to_lowercase)`. -/
def canonicalHost (host : String) : List Char :=
  (host.toList.filter isAsciiAlphanumeric).map Char.toLower

def keyHost (key : Key) : String := (slashParts key).headD ""

def normalizeLegacyBackendSourceHost (key : Key) (item : BackendQueueItem) : BackendQueueItem :=
  if keyHost key = "" then item
  else if item.sourceHost = "unknown-host" ∨
      canonicalHost item.sourceHost = canonicalHost (keyHost key) then
    { item with sourceHost := keyHost key }
  else item

/-- The queue file of a key, as `read_backend_queue_item_optional` returns it. -/
def Master.queueItem (s : Master) (key : Key) : Option BackendQueueItem :=
  (s.queue.lookup key).map (normalizeLegacyBackendSourceHost key)

section Normalize

variable (key : Key) (item : BackendQueueItem)

@[simp] theorem normalize_generation :
    (normalizeLegacyBackendSourceHost key item).generation = item.generation := by
  unfold normalizeLegacyBackendSourceHost
  split
  · rfl
  · split <;> rfl

@[simp] theorem normalize_operation :
    (normalizeLegacyBackendSourceHost key item).operation = item.operation := by
  unfold normalizeLegacyBackendSourceHost
  split
  · rfl
  · split <;> rfl

@[simp] theorem normalize_updatedAt :
    (normalizeLegacyBackendSourceHost key item).updatedAt = item.updatedAt := by
  unfold normalizeLegacyBackendSourceHost
  split
  · rfl
  · split <;> rfl

@[simp] theorem normalize_idem :
    normalizeLegacyBackendSourceHost key (normalizeLegacyBackendSourceHost key item) =
      normalizeLegacyBackendSourceHost key item := by
  unfold normalizeLegacyBackendSourceHost
  by_cases h : keyHost key = ""
  · simp [h]
  · by_cases same : item.sourceHost = "unknown-host" ∨
        canonicalHost item.sourceHost = canonicalHost (keyHost key)
    · simp [h, same]
    · simp [h, same]

end Normalize

def u64Max : Nat := 2 ^ 64 - 1

/-- `u64::saturating_add`; `saturating_sub` is subtraction of natural numbers. -/
def saturatingAdd (a b : Nat) : Nat := min (a + b) u64Max

end Majutsu.Cluster
