import Majutsu.Cluster.Writes

/-!
# Sections of the backend worker and of local GC

The worker drops `durable_lock` while it talks to the backend, so an upload is
two sections with the transfer between them. Each section names the queue item
or the tombstone that was selected earlier and compares its generation with the
file it finds now.
-/

namespace Majutsu.Cluster

/-- A queue file as a directory scan returns it. -/
abbrev Queued := Key × BackendQueueItem

structure BackendQueueDependencies where
  earliestPutUpdatedAtByHost : Directory String (Nat → Option Nat)

namespace BackendQueueDependencies

def record (deps : BackendQueueDependencies) (queued : Queued) : BackendQueueDependencies :=
  if queued.2.operation.isPut then
    let priority := backendPublishPriority queued.1
    let byPriority := (deps.earliestPutUpdatedAtByHost.lookup queued.2.sourceHost).getD
      (fun _ => none)
    let earliest := (byPriority priority).elim queued.2.updatedAt (min queued.2.updatedAt)
    { earliestPutUpdatedAtByHost := deps.earliestPutUpdatedAtByHost.insert queued.2.sourceHost
        (Function.update byPriority priority (some earliest)) }
  else deps

def fromItems (items : List Queued) : BackendQueueDependencies :=
  items.foldl record { earliestPutUpdatedAtByHost := ∅ }

def blocks (deps : BackendQueueDependencies) (queued : Queued) : Bool :=
  match deps.earliestPutUpdatedAtByHost.lookup queued.2.sourceHost with
  | none => false
  | some byPriority =>
    match queued.2.operation with
    | .delete => true
    | .put _ _ _ => (List.range (backendPublishPriority queued.1)).any (fun priority =>
        (byPriority priority).any (· ≤ queued.2.updatedAt))

/-- The index has an entry for a PUT, at its own age or an earlier one. -/
def Lists (deps : BackendQueueDependencies) (put : Queued) : Prop :=
  ∃ byPriority earliest, deps.earliestPutUpdatedAtByHost.lookup put.2.sourceHost = some byPriority ∧
    byPriority (backendPublishPriority put.1) = some earliest ∧ earliest ≤ put.2.updatedAt

variable {deps : BackendQueueDependencies} {put queued : Queued}

theorem lists_record (isPut : put.2.operation.isPut = true) : (deps.record put).Lists put := by
  unfold record Lists
  rw [if_pos isPut]
  refine ⟨_, _, Finmap.lookup_insert _, Function.update_self .., ?_⟩
  cases ((deps.earliestPutUpdatedAtByHost.lookup put.2.sourceHost).getD (fun _ => none))
    (backendPublishPriority put.1) with
  | none => exact le_rfl
  | some earliest => exact min_le_left _ _

theorem Lists.record (h : deps.Lists put) (queued : Queued) : (deps.record queued).Lists put := by
  obtain ⟨byPriority, earliest, hhost, hprio, hle⟩ := h
  unfold BackendQueueDependencies.record
  split
  · by_cases host : put.2.sourceHost = queued.2.sourceHost
    · rw [host] at hhost
      have lookup : ∀ {byPriority : Nat → Option Nat}, (deps.earliestPutUpdatedAtByHost.insert
          queued.2.sourceHost byPriority).lookup put.2.sourceHost = some byPriority := by
        rw [host]
        exact Finmap.lookup_insert _
      by_cases prio : backendPublishPriority put.1 = backendPublishPriority queued.1
      · refine ⟨_, min queued.2.updatedAt earliest, lookup, ?_, (min_le_right _ _).trans hle⟩
        rw [prio] at hprio ⊢
        simp [hhost, hprio]
      · refine ⟨_, earliest, lookup, ?_, hle⟩
        simp [hhost, hprio, Function.update_of_ne prio]
    · exact ⟨byPriority, earliest, (Finmap.lookup_insert_of_ne _ host).trans hhost, hprio, hle⟩
  · exact ⟨byPriority, earliest, hhost, hprio, hle⟩

theorem lists_fromItems {items : List Queued} (mem : put ∈ items)
    (isPut : put.2.operation.isPut = true) : (fromItems items).Lists put := by
  have keeps : ∀ (rest : List Queued) (deps : BackendQueueDependencies), deps.Lists put →
      (rest.foldl BackendQueueDependencies.record deps).Lists put := by
    intro rest
    induction rest with
    | nil => exact fun _ h => h
    | cons first rest ih => exact fun deps h => ih _ (h.record first)
  have reaches : ∀ (rest : List Queued) (deps : BackendQueueDependencies), put ∈ rest →
      (rest.foldl BackendQueueDependencies.record deps).Lists put := by
    intro rest
    induction rest with
    | nil => exact fun _ h => absurd h List.not_mem_nil
    | cons first rest ih =>
      intro deps h
      rcases List.mem_cons.mp h with rfl | h
      · exact keeps rest _ (lists_record isPut)
      · exact ih _ h
  exact reaches items _ mem

/-- A PUT that the index does not block is older than every listed PUT of its host that has
to be published first. -/
theorem Lists.lt_of_not_blocks (h : deps.Lists put) (free : deps.blocks queued = false)
    (isPut : queued.2.operation.isPut = true) (host : put.2.sourceHost = queued.2.sourceHost)
    (prio : backendPublishPriority put.1 < backendPublishPriority queued.1) :
    queued.2.updatedAt < put.2.updatedAt := by
  obtain ⟨byPriority, earliest, hhost, hprio, hle⟩ := h
  unfold blocks at free
  rw [← host, hhost] at free
  cases operation : queued.2.operation with
  | delete => simp [operation, BackendQueueOperation.isPut] at isPut
  | put digest size conditional =>
    simp only [operation, List.any_eq_false, List.mem_range] at free
    have late := free _ prio
    rw [hprio] at late
    have late : ¬earliest ≤ queued.2.updatedAt := by simpa using late
    omega

end BackendQueueDependencies

/-- The head of every section of the worker: the queue file is read again, and unless it is
of the generation that was selected nothing is done. -/
def ifCurrent {α : Type} (queued : Queued) (idle : α) (act : BackendQueueItem → Locked α) :
    Locked α := do
  match ← readBackendQueueItemOptional queued.1 with
  | none => pure idle
  | some current =>
    if current.generation ≠ queued.2.generation then pure idle else act current

/-- The first section of `upload_backend_queue_item`. `none` is its early `Ok(false)`;
otherwise the result is the payload to send. -/
def uploadCheck (C : Config) (queued : Queued) (deps : BackendQueueDependencies) :
    Locked (Option (Option Bytes)) :=
  ifCurrent queued none (fun _ =>
    if deps.blocks queued then pure none
    else match queued.2.operation with
      | .put digest _ _ => do
        let bytes ← Locked.storeGet queued.1
        .require (decide (C.digest bytes = digest))
          (.message ("durable master object digest changed before backend PUT " ++ queued.1 ++
            ": queued=" ++ digest ++ " actual=" ++ C.digest bytes))
        pure (some (some bytes))
      | .delete => pure (some none))

def retainLocalAfterBackendDelete (C : Config) (queued : Queued) : Locked Unit := do
  match ← Locked.storeGetOptional queued.1 with
  | none => do
    removeLocalGc queued.1
    updateLocalGcCatalog queued.1 none
  | some bytes => do
    let now ← Locked.utcNow
    let generation ← Locked.newGeneration
    let retained : LocalGcItem :=
      { generation
        sourceHost := queued.2.sourceHost
        digest := C.digest bytes
        size := bytes.length
        deletedFromBackendAt := now
        deleteAfter := now + C.localDeleteGrace }
    Locked.write (fun s => { s with
      localGc := s.localGc.insert queued.1 retained
      nextGeneration := s.nextGeneration + 1 })
    updateLocalGcCatalog queued.1 (some retained)

def recordBackendPutReceipt (queued : Queued) : Locked Unit :=
  match queued.2.operation with
  | .put digest _ _ =>
    .write (fun s => { s with receipts := s.receipts.insert queued.1 { key := queued.1, digest } })
  | .delete => .write (fun s => { s with receipts := s.receipts.erase queued.1 })

def removeQueueItem (key : Key) : Locked Unit :=
  .write (fun s => { s with queue := s.queue.erase key })

def completeUploadedBackendQueueItem (C : Config) (queued : Queued) : Locked Bool :=
  ifCurrent queued false (fun _ => do
    .when (queued.2.operation == .delete) (retainLocalAfterBackendDelete C queued)
    recordBackendPutReceipt queued
    removeQueueItem queued.1
    pure true)

def completeBackendQueueItemWithoutUpload (queued : Queued) : Locked Bool :=
  ifCurrent queued false (fun _ => do
    recordBackendPutReceipt queued
    removeQueueItem queued.1
    pure true)

def u32Max : Nat := 2 ^ 32 - 1

def nextBackendRetryAfter (C : Config) (now attempts random : Nat) : Nat :=
  let base := min (30 * 2 ^ min (attempts - 1) 8) (6 * 60 * 60)
  let jitterBound := max (base / 5) 1
  now + max (base + random % (jitterBound * 2 + 1) - jitterBound) 5 * C.ticksPerSecond

def recordBackendQueueFailure (C : Config) (attempted : Queued) : Locked Unit :=
  ifCurrent attempted () (fun current => do
    let attempts := min (current.attempts + 1) u32Max
    let now ← Locked.utcNow
    let random ← Locked.random
    let failed := { current with
      attempts := attempts
      retryAfter := some (nextBackendRetryAfter C now attempts random) }
    Locked.write (fun s => { s with queue := s.queue.insert attempted.1 failed }))

/-- The hosts with a pending PUT, as the queue files stand now. -/
def Master.pendingPutHosts (s : Master) : Finset String :=
  s.queue.keys.biUnion (fun key =>
    match s.queueItem key with
    | some item => if item.operation.isPut then {item.sourceHost} else ∅
    | none => ∅)

def pendingHosts : Locked (Finset String) := .read Master.pendingPutHosts

def activeEach (hosts : Finset String) : List Queued → Locked (List Queued)
  | [] => pure []
  | queued :: rest =>
    if queued.2.sourceHost ∈ hosts then activeEach hosts rest
    else do
      let current ← readBackendQueueItemOptional queued.1
      let active ← activeEach hosts rest
      if current.any (fun current =>
          current.generation == queued.2.generation && current.operation == .delete)
      then pure (queued :: active) else pure active

def activeDeletes (chunk : List Queued) : Locked (List Queued) := do
  let hosts ← pendingHosts
  activeEach hosts chunk

/-- The tombstone file of a key for `run_local_gc`; a failed read is noted in the catalog. -/
def recheckLocalGc (key : Key) : Locked (Option LocalGcItem) :=
  .handle (Locked.read (·.localGc.lookup key)) (fun e => do
    .update (fun s => { s with gcCatalog :=
      { s.gcCatalog with error := some e, lastRefreshAttempt := some s.clock } })
    .fail e)

/-- Remove the payload of a tombstone if it is still the payload that was deleted. -/
def collectPayload (C : Config) (key : Key) (tombstone : LocalGcItem) : Locked Bool := do
  match ← Locked.storeGetOptional key with
  | none => pure false
  | some bytes =>
    if C.digest bytes = tombstone.digest then do
      Locked.storeDelete key
      Locked.fsyncParentDir
      updateStoreBytes bytes.length 0
      pure true
    else pure false

/-- One round of the loop of `run_local_gc`: `now` is the time the pass started and
`selected` the tombstone it found in the catalog. -/
def gcItem (C : Config) (now : Nat) (key : Key) (selected : LocalGcItem) : Locked Bool := do
  match ← recheckLocalGc key with
  | none => do
    updateLocalGcCatalog key none
    pure false
  | some current =>
    if current.generation ≠ selected.generation ∨ now < current.deleteAfter then do
      updateLocalGcCatalog key (some current)
      pure false
    else do
      let queued ← .look (fun s => (s.queue.lookup key).isSome)
      if queued then pure false
      else do
        let removed ← collectPayload C key current
        removeLocalGc key
        updateLocalGcCatalog key none
        pure removed

/-- `key_is_logically_deleted` under the lock. -/
def keyIsLogicallyDeletedLocked (key : Key) : Locked Bool := do
  let item ← readBackendQueueItemOptional key
  if item.any (fun item => item.operation == .delete) then pure true
  else .look (fun s => (s.localGc.lookup key).isSome)

def isCommitted (C : Config) (key : Key) : Locked Bool := do
  validated (validateClusterKey key)
  let pending ← .look (fun s => (s.queue.lookup key).isSome || (s.intents.lookup key).isSome)
  if pending then pure false
  else do
    let deleted ← keyIsLogicallyDeletedLocked key
    if deleted then pure false
    else do
      let receipt ← .handle (Locked.read (·.receipts.lookup key)) (fun _ => pure none)
      match receipt with
      | none => pure false
      | some receipt => do
        let bytes ← Locked.storeGetOptional key
        pure (decide (receipt.key = key ∧ bytes.map C.digest = some receipt.digest))

/-- The loop of the `BackendCommitted` operation. -/
def backendCommitted (C : Config) : List Key → Locked (List Key)
  | [] => pure []
  | key :: rest => do
    let committed ← isCommitted C key
    let others ← backendCommitted C rest
    pure (if committed then key :: others else others)

end Majutsu.Cluster
