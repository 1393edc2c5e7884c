import Majutsu.Cluster.Actions
import Mathlib.Algebra.GroupWithZero.Nat
import Mathlib.Data.List.Sort

/-!
# The programs of the request threads

`dispatch_operation` and what it calls, as programs over the atomic actions.
Only the sections hold `durable_lock`; between two actions other requests and
the worker may run.
-/

namespace Majutsu.Cluster

abbrev Program (α : Type) : Type := Prog.Fallible Action.Answer Failure α

def ask (a : Action) : Program a.Answer := Prog.Fallible.query a

def call (a : Action) : Prog Action.Answer a.Answer := Prog.perform a

def locked (S : Section) : Program S.Answer := call (.locked S)

def checked {α : Type} (result : Except Failure α) : Program α := Prog.ret result

/-- Publication order: priority, then age, then key. -/
def queueBefore (a b : Queued) : Prop :=
  backendPublishPriority a.1 < backendPublishPriority b.1 ∨
    (backendPublishPriority a.1 = backendPublishPriority b.1 ∧
      (a.2.createdAt < b.2.createdAt ∨ (a.2.createdAt = b.2.createdAt ∧ a.1 ≤ b.1)))

instance : DecidableRel queueBefore := fun _ _ => inferInstanceAs (Decidable (_ ∨ _))

def readQueueFiles : List Key → Program (List Queued)
  | [] => pure []
  | key :: rest => do
    let item ← ask (.readQueue key)
    let others ← readQueueFiles rest
    pure (item.elim others (fun item => (key, item) :: others))

/-- The files are read one at a time after the directory; a file that is gone is skipped. -/
def backendQueueItems : Program (List Queued) := do
  let names ← ask .readQueueDir
  let items ← readQueueFiles names
  let _ ← ask (.scanned items)
  pure (items.insertionSort queueBefore)

def localGcCatalog : Program (Directory Key LocalGcItem) := call .localGcCatalog

def keyIsLogicallyDeleted (key : Key) : Program Bool := do
  let item ← ask (.readQueue key)
  if item.any (fun item => item.operation == .delete) then pure true
  else ask (.tombstoneExists key)

def logicallyDeletedKeys (start : String) : Program (Finset Key) := do
  let items ← backendQueueItems
  let catalog ← localGcCatalog
  let queued := (items.filter (fun queued =>
    startsWith queued.1 start && queued.2.operation == .delete)).map Prod.fst
  pure (queued.toFinset ∪ catalog.keys.filter (startsWith · start))

def masterGetOptional (key : Key) : Program (Option Bytes) := do
  let deleted ← keyIsLogicallyDeleted key
  if deleted then pure none
  else do
    let found ← (call (.readStore key) : Program (Option Bytes))
    match found with
    | some bytes => pure (some bytes)
    | none => do
      let bytes ← (call (.backendGet key) : Program (Option Bytes))
      match bytes with
      | none => pure none
      | some bytes => do
        let _ ← locked (.hydrate key bytes)
        pure (some bytes)

/-- A backend listing; when it is not available the master's own files have to do. -/
def backendListOrEmpty (start : String) : Program Objects := do
  let answer ← ask (.backendList start)
  match answer with
  | .ok objects => pure objects
  | .error _ => pure ∅

def masterList (start : String) : Program (Finset Key) := do
  let deleted ← logicallyDeletedKeys start
  let stored ← ask (.listStore start)
  let backed ← backendListOrEmpty start
  pure ((stored.image Prod.fst).filter (· ∉ deleted) ∪ (backed.image Prod.fst).filter (· ∉ deleted))

/-- An object of the store takes the place of the backend's object of the same key. -/
def mergeObjects (deleted : Finset Key) (backed stored : Objects) : Objects :=
  let kept := stored.filter (·.1 ∉ deleted)
  (backed.filter (fun object => object.1 ∉ deleted ∧ object.1 ∉ kept.image Prod.fst)) ∪ kept

def masterListWithSizes (start : String) : Program Objects := do
  let deleted ← logicallyDeletedKeys start
  let backed ← backendListOrEmpty start
  let stored ← ask (.listStore start)
  pure (mergeObjects deleted backed stored)

def masterListCommonPrefixes (start : String) : Program (Finset String) := do
  let stored ← (call (.storeCommonPrefixes start) : Program (Finset String))
  let answer ← ask (.backendCommonPrefixes start)
  match answer with
  | .ok backed => pure (stored ∪ backed)
  | .error _ => pure stored

/-- `write_master_status_throttled` after a write; its error is only reported. -/
def noteStatus : Program Unit := do
  let _ ← ask .writeMasterStatus
  pure ()

def putsRequest (sourceHost : String) (items : List ClusterPutItem) :
    Program (List ClusterPutResult) := do
  let results ← locked (.processPuts sourceHost items)
  let _ ← ask (.updateListCacheAfterPuts items)
  noteStatus
  pure results

def deleteRequest (sourceHost : String) (key : Key) : Program Unit := do
  let _ ← locked (.durableDelete sourceHost key)
  noteStatus

/-- Values of an answer. Sorted lists are sets; `committed` is the list of `BackendCommitted`. -/
inductive ClusterValue where
  | capabilities (writePrefix : String)
  | empty
  | bool (value : Bool)
  | bytes (value : Bytes)
  | optionalBytes (value : Option Bytes)
  | batchPut (results : List ClusterPutResult)
  | committed (keys : List Key)
  | strings (keys : Finset String)
  | objects (objects : Objects)
  deriving DecidableEq

def maxBatchObjects : Nat := 1024

def maxBatchBytes : Nat := 64 * 1024 * 1024

def doesNotExist (key : Key) : Failure := .message ("cluster object does not exist: " ++ key)

def sliceOf (bytes : Bytes) (start len : Nat) : Bytes := (bytes.drop start).take len

def getRangeRequest (key : Key) (start len : Nat) : Program ClusterValue := do
  let deleted ← keyIsLogicallyDeleted key
  if deleted then checked (.error (doesNotExist key))
  else do
    let found : Bool ← ask (.storeHas key)
    if found then do
      let bytes ← (call (.readStore key) : Program (Option Bytes))
      match bytes with
      | some bytes => pure (.bytes (sliceOf bytes start len))
      | none => checked (.error .io)
    else do
      let bytes ← (call (.backendGet key) : Program (Option Bytes))
      match bytes with
      | some bytes => pure (.bytes (sliceOf bytes start len))
      | none => checked (.error .io)

def existsRequest (key : Key) : Program Bool := do
  let deleted ← keyIsLogicallyDeleted key
  if deleted then pure false
  else do
    let found : Bool ← ask (.storeHas key)
    if found then pure true
    else (call (.backendHas key) : Program Bool)

def listRequest (start : String) : Program (Finset Key) := do
  let cached ← ask (.readListCache (.keys start))
  match cached with
  | some (.strings keys) => pure keys
  | _ => do
    let keys ← masterList start
    let _ ← ask (.writeListCache (.keys start) (.strings keys))
    pure keys

def listCommonPrefixesRequest (start : String) : Program (Finset String) := do
  let cached ← ask (.readListCache (.prefixes start))
  match cached with
  | some (.strings found) => pure found
  | _ => do
    let found ← masterListCommonPrefixes start
    let _ ← ask (.writeListCache (.prefixes start) (.strings found))
    pure found

def listWithSizesRequest (start : String) : Program Objects := do
  let cached ← ask (.readListCache (.sizes start))
  match cached with
  | some (.objects found) => pure found
  | _ => do
    let found ← masterListWithSizes start
    let _ ← ask (.writeListCache (.sizes start) (.objects found))
    pure found

def listMasterLocalWithSizes (start : String) : Program Objects := do
  let deleted ← logicallyDeletedKeys start
  let stored ← ask (.listStore start)
  pure (stored.filter (·.1 ∉ deleted))

def checkBatch (items : List ClusterPutItem) : Except Failure Unit :=
  let payloadBytes := (items.map (fun item => item.bytes.length)).sum
  if maxBatchObjects < items.length then
    .error (.message ("cluster batch contains too many objects: " ++ toString items.length))
  else if u64Max < payloadBytes then .error (.message "cluster batch payload size overflow")
  else if maxBatchBytes < payloadBytes then
    .error (.message ("cluster batch payload is too large: " ++ toString payloadBytes ++
      " bytes (limit " ++ toString maxBatchBytes ++ ")"))
  else items.forM (fun item => validateClusterKey item.key)

def dispatchOperation (sourceHost : String) : ClusterOperation → Program ClusterValue
  | .capabilities => pure (.capabilities (ownPrefix sourceHost))
  | .heartbeat => pure .empty
  | .put key bytes conditional => do
    checked (validateClusterKey key)
    let results ← putsRequest sourceHost [{ key, bytes, conditional }]
    match results with
    | [] => checked (.error (.message "cluster put returned no result"))
    | result :: _ => pure (if conditional then .bool result.newlyStored else .empty)
  | .batchPut items => do
    checked (checkBatch items)
    let results ← putsRequest sourceHost items
    pure (.batchPut results)
  | .get key => do
    checked (validateClusterKey key)
    let found ← masterGetOptional key
    match found with
    | some bytes => pure (.bytes bytes)
    | none => checked (.error (doesNotExist key))
  | .getOptional key => do
    checked (validateClusterKey key)
    let found ← masterGetOptional key
    pure (.optionalBytes found)
  | .getRange key start len => do
    checked (validateClusterKey key)
    getRangeRequest key start len
  | .exists key => do
    checked (validateClusterKey key)
    let found ← existsRequest key
    pure (.bool found)
  | .backendCommitted keys =>
    if maxBatchObjects < keys.length then
      checked (.error (.message "backend commit照会のkey数が上限を超えました"))
    else do
      let committed ← locked (.backendCommitted keys)
      pure (.committed committed)
  | .list start => do
    checked (validateClusterPrefix start)
    let keys ← listRequest start
    pure (.strings keys)
  | .listCommonPrefixes start => do
    checked (validateClusterPrefix start)
    let found ← listCommonPrefixesRequest start
    pure (.strings found)
  | .listWithSizes start => do
    checked (validateClusterPrefix start)
    let found ← listWithSizesRequest start
    pure (.objects found)
  | .listMasterLocalWithSizes start => do
    checked (validateClusterPrefix start)
    let found ← listMasterLocalWithSizes start
    pure (.objects found)
  | .delete key => do
    checked (validateClusterKey key)
    deleteRequest sourceHost key
    let _ ← ask .clearListCache
    pure .empty
  | .restoreArchive key _ _ => do
    checked (validateClusterKey key)
    let accepted ← (call .backendMaintenance : Program Bool)
    pure (.bool accepted)
  | .applyLifecycle => do
    let applied ← (call .backendMaintenance : Program Bool)
    pure (.bool applied)

def handleRequest (hostId : String) (operation : ClusterOperation) : Program ClusterValue := do
  checked (validateClusterHostId hostId)
  checked (authorizeClusterOperation hostId operation)
  dispatchOperation hostId operation

end Majutsu.Cluster
