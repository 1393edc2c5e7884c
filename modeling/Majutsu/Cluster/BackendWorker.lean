import Majutsu.Cluster.Requests

/-!
# The backend worker

One pass of the worker: replay the write intents, drain the backend queue when
it is due and collect expired tombstones. A round of the drain selects items
from one directory scan, uploads them layer by layer with several transfers at
a time, and deletes last.
-/

namespace Majutsu.Cluster

structure BackendQueueStats where
  objects : Nat
  bytes : Nat
  oldestCreatedAt : Option Nat
  deriving DecidableEq

def BackendQueueOperation.size : BackendQueueOperation → Nat
  | .put _ size _ => size
  | .delete => 0

def queueStats (items : List Queued) : BackendQueueStats where
  objects := items.length
  bytes := items.foldl (fun total queued => saturatingAdd total queued.2.operation.size) 0
  oldestCreatedAt := (items.map (·.2.createdAt)).min?

def backendFlushDue (C : Config) (stats : BackendQueueStats) (now : Nat) : Bool :=
  stats.objects != 0 && (decide (C.flushMaxBytes ≤ stats.bytes) ||
    stats.oldestCreatedAt.any (fun createdAt => decide (C.flushInterval ≤ now - createdAt)))

def chunks {α : Type} (n : Nat) (xs : List α) : List (List α) := go xs.length xs
where
  go : Nat → List α → List (List α)
    | 0, _ => []
    | _, [] => []
    | fuel + 1, x :: xs => (x :: xs).take n :: go fuel ((x :: xs).drop n)

def isConditionalPut : BackendQueueOperation → Bool
  | .put _ _ conditional => conditional
  | .delete => false

/-- The hosts with enough conditional PUTs for a deduplicating LIST. -/
def dedupeHosts (C : Config) (selected : List Queued) : List String :=
  let hosts := (selected.filter (fun queued => isConditionalPut queued.2.operation)).map
    (·.2.sourceHost)
  (hosts.dedup.filter (fun host => C.dedupeListMinObjects ≤ hosts.count host)).insertionSort (· ≤ ·)

def listHosts : List String → Program (Directory String (Finset Key))
  | [] => pure ∅
  | host :: rest => do
    let answer : Except Failure Objects ← ask (.backendList (host ++ "/"))
    let others ← listHosts rest
    match answer with
    | .ok objects => pure (others.insert host (objects.image Prod.fst))
    | .error _ => pure others

def listExistingConditionalBackendKeys (C : Config) (selected : List Queued) :
    Program (Directory String (Finset Key)) :=
  listHosts (dedupeHosts C selected)

def sendToBackend (queued : Queued) (payload : Option Bytes) : Program Unit :=
  match queued.2.operation, payload with
  | .put _ _ true, some bytes => do
    let _ ← (call (.backendPutIfAbsent queued bytes) : Program Bool)
    pure ()
  | .put _ _ false, some bytes => call (.backendPut queued bytes)
  | .delete, none => call (.backendDelete queued)
  | _, _ => checked (.error (.message
      ("cluster backend queue payload invariant failed for " ++ queued.1)))

def uploadBackendQueueItem (deps : BackendQueueDependencies) (queued : Queued) : Program Bool := do
  let check : Option (Option Bytes) ← locked (.uploadCheck queued deps)
  match check with
  | none => pure false
  | some payload => do
    sendToBackend queued payload
    locked (.completeUploaded queued)

/-- How many items were completed, and the first error. -/
abbrev Progress := Nat × Option Failure

def Progress.add (a b : Progress) : Progress := (a.1 + b.1, a.2 <|> b.2)

def writeMasterStatus : Program Unit := call .writeMasterStatus

def recordResults : List (Queued × Except Failure Bool) → Program Progress
  | [] => pure (0, none)
  | (_, .ok done) :: rest => do
    let others ← recordResults rest
    pure (Progress.add (done.toNat, none) others)
  | (queued, .error e) :: rest => do
    let _ ← locked (.recordFailure queued)
    writeMasterStatus
    let others ← recordResults rest
    pure (Progress.add (0, some e) others)

/-- `run_backend_queue_upload_batch`: the uploads of a batch run side by side. -/
def runBackendQueueUploadBatch (deps : BackendQueueDependencies) (batch : List Queued) :
    Program (List (Except Failure Bool)) :=
  Prog.bind (Prog.parAll (batch.map (uploadBackendQueueItem deps))) (fun results =>
    Prog.ret (.ok results))

def uploadBatches (deps : BackendQueueDependencies) : List (List Queued) → Program Progress
  | [] => pure (0, none)
  | batch :: rest => do
    let results ← runBackendQueueUploadBatch deps batch
    let progress ← recordResults (batch.zip results)
    writeMasterStatus
    let others ← uploadBatches deps rest
    pure (progress.add others)

/-- Complete the conditional PUTs whose key the LIST has shown; the others are returned. -/
def completeExisting (existing : Directory String (Finset Key)) :
    List Queued → Program (Nat × List Queued)
  | [] => pure (0, [])
  | queued :: rest =>
    if isConditionalPut queued.2.operation &&
        (existing.lookup queued.2.sourceHost).any (fun keys => decide (queued.1 ∈ keys)) then do
      let done : Bool ← locked (.completeWithoutUpload queued)
      let others ← completeExisting existing rest
      pure (done.toNat + others.1, others.2)
    else do
      let others ← completeExisting existing rest
      pure (others.1, queued :: others.2)

def uploadLayers (C : Config) (deps : BackendQueueDependencies)
    (existing : Directory String (Finset Key)) : List (List Queued) → Program Progress
  | [] => pure (0, none)
  | candidates :: rest => do
    let settled ← completeExisting existing candidates
    let progress ← uploadBatches deps (chunks (max C.maxConcurrency 1) settled.2)
    match progress.2 with
    | some e => pure (settled.1 + progress.1, some e)
    | none => do
      let others ← uploadLayers C deps existing rest
      pure (Progress.add (settled.1 + progress.1, none) others)

def layersOf (selected : List Queued) : List (List Queued) :=
  [1, 2, 3].map (fun priority => selected.filter (fun queued =>
    queued.2.operation.isPut && backendPublishPriority queued.1 == priority))

def deleteEach (deps : BackendQueueDependencies) (hosts : Finset String) :
    List Queued → Program Nat
  | [] => pure 0
  | queued :: rest =>
    if queued.2.sourceHost ∈ hosts ∨ deps.blocks queued = true then deleteEach deps hosts rest
    else do
      let result ← Prog.Fallible.outcome (uploadBackendQueueItem deps queued)
      match result with
      | .ok done => do
        let others ← deleteEach deps hosts rest
        pure (done.toNat + others)
      | .error e => do
        let _ ← locked (.recordFailure queued)
        checked (.error e)

def uploadBackendDeleteItemsIndividually (deps : BackendQueueDependencies) (items : List Queued) :
    Program Nat := do
  let hosts : Finset String ← locked .pendingHosts
  deleteEach deps hosts items

def recordFailures : List Queued → Program Unit
  | [] => pure ()
  | queued :: rest => do
    let _ ← locked (.recordFailure queued)
    recordFailures rest

/-- The verdict of a batch on one key; a later result for the same key wins. -/
def verdictOn (results : List (Key × Option String)) (key : Key) : Option (Option String) :=
  (results.reverse.find? (fun result => result.1 == key)).map Prod.snd

def batchFailure (key : Key) : Option String → Failure
  | some message =>
    .message ("backend multi-object delete failed for " ++ key ++ ": " ++ message)
  | none => .message ("backend multi-object delete omitted result for " ++ key)

def settleBatch (results : List (Key × Option String)) : List Queued → Program Progress
  | [] => pure (0, none)
  | queued :: rest =>
    match verdictOn results queued.1 with
    | some none => do
      let done : Bool ← locked (.completeUploaded queued)
      let others ← settleBatch results rest
      pure (Progress.add (done.toNat, none) others)
    | some (some message) => do
      let _ ← locked (.recordFailure queued)
      let others ← settleBatch results rest
      pure (Progress.add (0, some (batchFailure queued.1 (some message))) others)
    | none => do
      let _ ← locked (.recordFailure queued)
      let others ← settleBatch results rest
      pure (Progress.add (0, some (batchFailure queued.1 none)) others)

/-- One multi-object delete of `upload_backend_delete_items`. -/
def deleteBatch (deps : BackendQueueDependencies) (active : List Queued) : Program Nat := do
  let answer : BatchDeletion ← ask (.backendDeleteBatch active)
  match answer with
  | .unsupported => do
    let _ ← ask .disableBatchDelete
    uploadBackendDeleteItemsIndividually deps active
  | .failed e => do
    recordFailures active
    checked (.error e)
  | .answered results => do
    let progress ← settleBatch results active
    match progress.2 with
    | some e => checked (.error e)
    | none => pure progress.1

/-- One chunk of `upload_backend_delete_items`. -/
def deleteChunk (deps : BackendQueueDependencies) (chunk : List Queued) : Program Nat := do
  let enabled : Bool ← ask .batchDeleteEnabled
  if !enabled then uploadBackendDeleteItemsIndividually deps chunk
  else do
    let active : List Queued ← locked (.activeDeletes chunk)
    if active.isEmpty then pure 0 else deleteBatch deps active

def deleteChunks (deps : BackendQueueDependencies) : List (List Queued) → Program Nat
  | [] => pure 0
  | chunk :: rest => do
    let done ← deleteChunk deps chunk
    let others ← deleteChunks deps rest
    pure (done + others)

def uploadBackendDeleteItems (C : Config) (deps : BackendQueueDependencies)
    (items : List Queued) : Program Nat := do
  if items.isEmpty then pure 0
  else do
    let enabled : Bool ← ask .batchDeleteEnabled
    if C.deleteBatchMaxObjects == 0 || items.length == 1 || !enabled then
      uploadBackendDeleteItemsIndividually deps items
    else deleteChunks deps (chunks C.deleteBatchMaxObjects items)

/-- The items a round may work on; a DELETE waits for the PUTs of its host. -/
def selectItems (force : Bool) (now : Nat) (putHosts : Finset String) (room : Nat)
    (queued : List Queued) : List Queued :=
  let deps := BackendQueueDependencies.fromItems queued
  (queued.filter (fun queued => !deps.blocks queued &&
    (queued.2.operation.isPut || decide (queued.2.sourceHost ∉ putHosts)) &&
    (force || queued.2.retryAfter.all (fun retryAfter => decide (retryAfter ≤ now))))).take room

/-- DELETEs come last, and not at all after a failed upload. -/
def drainDeletes (C : Config) (deps : BackendQueueDependencies) (selected : List Queued) :
    Option Failure → Program Progress
  | some e => pure (0, some e)
  | none => do
    let result ← Prog.Fallible.outcome (uploadBackendDeleteItems C deps
      (selected.filter (fun queued => !queued.2.operation.isPut)))
    match result with
    | .ok done => pure (done, none)
    | .error e => pure (0, some e)

/-- One round of the drain on the selected items; the result counts what was completed. -/
def drainRound (C : Config) (deps : BackendQueueDependencies) (selected : List Queued) :
    Program Nat := do
  let existing ← listExistingConditionalBackendKeys C selected
  let uploads ← uploadLayers C deps existing (layersOf selected)
  let deletes ← drainDeletes C deps selected uploads.2
  writeMasterStatus
  match deletes.2 with
  | some e => checked (.error e)
  | none => pure (uploads.1 + deletes.1)

/-- The loop of `drain_backend_queue`. A round selects at least one item, so `room` rounds
are enough. -/
def drainRounds (C : Config) (force : Bool) (now : Nat) (putHosts : Finset String) :
    Nat → Nat → List Queued → Program Nat
  | 0, _, _ => pure 0
  | fuel + 1, room, queued =>
    let selected := selectItems force now putHosts room queued
    if selected.isEmpty then pure 0
    else do
      let done ← drainRound C (.fromItems queued) selected
      if done == 0 || room ≤ selected.length then pure done
      else do
        let next ← backendQueueItems
        let others ← drainRounds C force now putHosts fuel (room - selected.length) next
        pure (done + others)

def putHostsOf (items : List Queued) : Finset String :=
  ((items.filter (·.2.operation.isPut)).map (·.2.sourceHost)).toFinset

def drainBackendQueue (C : Config) (force : Bool) : Program Nat := do
  let now : Nat ← ask .utcNow
  let items ← backendQueueItems
  if !force && !backendFlushDue C (queueStats items) now then pure 0
  else do
    let queued ← backendQueueItems
    drainRounds C force now (putHostsOf queued) C.flushMaxObjects C.flushMaxObjects queued

def collectEach (now : Nat) : List (Key × LocalGcItem) → Program Nat
  | [] => pure 0
  | (key, item) :: rest => do
    let removed : Bool ← locked (.gcItem now key item)
    let others ← collectEach now rest
    pure (removed.toNat + others)

def runLocalGc : Program Nat := do
  let now : Nat ← ask .utcNow
  let due ← (call (.localGcDue now) : Program (List (Key × LocalGcItem)))
  collectEach now due

def drainIfDue (C : Config) (force due : Bool) : Program Unit := do
  if force || due then do
    let _ ← drainBackendQueue C force
    pure ()
  else pure ()

def endFlush (force : Bool) : Program Unit := do
  if force then do
    let items ← backendQueueItems
    if items.length == 0 then call .removeFlushRequest else pure ()
  else pure ()

def runBackendWorkerOnce (C : Config) : Program Unit := do
  let _ ← locked .recoverMasterWriteIntents
  let items ← backendQueueItems
  let force : Bool ← ask .flushRequested
  let now : Nat ← ask .utcNow
  drainIfDue C force (backendFlushDue C (queueStats items) now)
  endFlush force
  let _ ← runLocalGc
  writeMasterStatus

end Majutsu.Cluster
