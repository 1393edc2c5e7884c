import Majutsu.Cluster.Actions
import Majutsu.Cluster.WorkerMoves

/-!
# Actions are paths of key operations

`Action.allow` bounds what an action may do to which keys. A request may do it
at any time; an action of the worker relies on what the worker knows about the
item it is about, its `Ready` condition.
-/

namespace Majutsu.Cluster

open Relation

namespace Action

/-- The operations an action may consist of. -/
def allow : Action → Key → Kind → Prop
  | locked (.processPuts _ items) => putsAllow items
  | locked (.durableDelete _ key) => deleteAllow key
  | locked (.hydrate key _) => hydrateAllow key
  | locked .recoverMasterWriteIntents => replayAllow
  | locked .reconcileLegacyBackendQueue => legacyAllow
  | locked (.completeUploaded queued) | locked (.completeWithoutUpload queued)
  | locked (.recordFailure queued) | backendPut queued _ | backendPutIfAbsent queued _
  | backendDelete queued => uploadAllow queued.1
  | locked (.gcItem _ key _) => collectAllow key
  | backendDeleteBatch items => fun k kind => k ∈ items.map Prod.fst ∧ kind = .upload
  | _ => noneAllowed

/-- What the worker has to know before it may act. -/
def Ready (C : Config) (honest : Prop) (s : Master) : Action → Prop
  | locked (.completeUploaded queued) =>
    Known queued s ∧ Sent C honest queued (s.slice queued.1).object
  | locked (.completeWithoutUpload queued) => queued.2.operation.isPut = true ∧
    Known queued s ∧ Sent C honest queued (s.slice queued.1).object
  | locked (.recordFailure queued) => Known queued s
  | backendPut queued _ | backendPutIfAbsent queued _ | backendDelete queued =>
    (s.slice queued.1).item ≠ none
  | backendDeleteBatch items => ∀ queued ∈ items, (s.slice queued.1).item ≠ none
  | _ => True

end Action

variable {C : Config} {honest : Prop} {s s' : Master}

variable {allow : Key → Kind → Prop}

theorem path_of_eq (h : s' = s) : ReflTransGen (Move C honest allow) s s' := by
  rw [h]

theorem path_of_same (clock : s'.clock = s.clock) (gen : s'.nextGeneration = s.nextGeneration)
    (same : ∀ k, s'.slice k = s.slice k) : ReflTransGen (Move C honest allow) s s' :=
  .single (Move.quiet clock.ge gen.ge same)

theorem path_refreshCatalog {failure : Option Failure} :
    ReflTransGen (Move C honest allow) s (refreshCatalog C s failure) := by
  unfold refreshCatalog
  split
  · exact path_of_same rfl rfl (fun _ => rfl)
  · exact .refl

theorem move_insertObject {queued : Queued} {bytes : Bytes}
    (ready : (s.slice queued.1).item ≠ none) :
    Move C honest (uploadAllow queued.1) s
      { s with backend := s.backend.insert queued.1 bytes } := by
  obtain ⟨item, pending⟩ := Option.ne_none_iff_exists'.mp ready
  refine Move.single ⟨rfl, rfl⟩ rfl rfl (.backendPut item bytes pending) ?_ ?_
  · simp [Master.slice]
  · intro k hk
    simp [Master.slice, Finmap.lookup_insert_of_ne _ hk]

theorem move_eraseObject {key : Key} (allowed : allow key .upload)
    (ready : (s.slice key).item ≠ none) :
    Move C honest allow s { s with backend := s.backend.erase key } := by
  obtain ⟨item, pending⟩ := Option.ne_none_iff_exists'.mp ready
  refine Move.single allowed rfl rfl (.backendDelete item pending) ?_ ?_
  · simp [Master.slice]
  · intro k hk
    simp [Master.slice, Finmap.lookup_erase_ne hk]

theorem BackendCall.cases {α : Type} {value : α} {changed : Directory Key Bytes}
    {o : Option (Except Failure α)} (h : BackendCall s value changed o s') :
    s' = s ∨ s' = { s with backend := changed } := by
  rcases h with ⟨-, h⟩ | ⟨e, -, h | h⟩
  · exact Or.inr h
  · exact Or.inl h
  · exact Or.inr h

theorem PutIfAbsentCall.cases {key : Key} {bytes : Bytes} {o : Option (Except Failure Bool)}
    (h : PutIfAbsentCall s key bytes o s') :
    s' = s ∨ BackendCall s true (s.backend.insert key bytes) o s' := by
  unfold PutIfAbsentCall at h
  split at h
  · exact Or.inl h.1
  · exact Or.inr h

theorem path_of_call {α : Type} {value : α} {changed : Directory Key Bytes}
    {o : Option (Except Failure α)} (h : BackendCall s value changed o s')
    (move : Move C honest allow s { s with backend := changed }) :
    ReflTransGen (Move C honest allow) s s' := by
  rcases h.cases with rfl | rfl
  · exact .refl
  · exact .single move

theorem path_eraseAll (keys : List Key) (allowed : ∀ key ∈ keys, allow key .upload)
    (ready : ∀ key ∈ keys, (s.slice key).item ≠ none) :
    ReflTransGen (Move C honest allow) s { s with backend := eraseAll s.backend keys } := by
  induction keys generalizing s with
  | nil => exact .refl
  | cons key rest ih =>
    refine .head (move_eraseObject (allowed key (List.mem_cons_self ..))
      (ready key (List.mem_cons_self ..))) ?_
    exact ih (s := { s with backend := s.backend.erase key })
      (fun k hk => allowed k (List.mem_cons_of_mem _ hk))
      (fun k hk => ready k (List.mem_cons_of_mem _ hk))

section Locked

variable {α : Type} {order : List Key} {fates : List Critical.Fate}

variable {m : Locked α}

theorem answer_ok {R : Master → Master → Prop} {P : Master → Prop} {Q : α → Master → Prop}
    {E : Failure → Master → Prop} {r : α} (h : Critical.Spec R P m Q E) (hs : P s)
    (ok : answerOf (m fates s).outcome = some (.ok r)) : Q r (m fates s).state := by
  have ends := (h fates s hs).2
  generalize m fates s = result at ok ends
  obtain ⟨outcome, rest, state⟩ := result
  cases outcome with
  | done a =>
    cases ok
    exact ends
  | error e => cases ok
  | stopped => cases ok

theorem path_of_moves {P : Master → Prop} {Q : α → Master → Prop} (h : Moves C honest allow P m Q)
    (hs : P s) : ReflTransGen (Move C honest allow) s (m fates s).state :=
  Critical.Spec.path h fates hs

theorem path_of_reads {Q : α → Prop} (h : Reads s m Q) :
    ReflTransGen (Move C honest allow) s (m fates s).state :=
  path_of_eq (h.state fates)

theorem section_path (S : Section) (ready : (Action.locked S).Ready C honest s) :
    ReflTransGen (Move C honest (Action.locked S).allow) s (S.run C order fates s).state := by
  cases S with
  | processPuts sourceHost items => exact path_of_moves (moves_processPuts "" items) trivial
  | durableDelete sourceHost key => exact path_of_moves moves_durableDelete trivial
  | hydrate key bytes => exact path_of_moves moves_hydrate trivial
  | backendCommitted keys => exact path_of_reads (reads_backendCommitted keys)
  | recoverMasterWriteIntents => exact path_of_moves moves_recoverMasterWriteIntents trivial
  | reconcileLegacyBackendQueue => exact path_of_moves moves_reconcileLegacyBackendQueue trivial
  | uploadCheck queued deps => exact path_of_reads reads_uploadCheck
  | completeUploaded queued => exact path_of_moves moves_completeUploaded ready
  | completeWithoutUpload queued =>
    exact path_of_moves (moves_completeWithoutUpload ready.1) ready.2
  | recordFailure queued => exact path_of_moves moves_recordFailure ready
  | pendingHosts => exact path_of_reads reads_pendingHosts
  | activeDeletes chunk => exact path_of_reads (reads_activeDeletes chunk)
  | gcItem now key selected => exact path_of_moves moves_gcItem trivial

end Locked

theorem Action.path {a : Action} {o : Option a.Answer} (ready : a.Ready C honest s)
    (does : a.Does C s o s') : ReflTransGen (Move C honest a.allow) s s' := by
  cases a with
  | locked S =>
    obtain ⟨order, fates, -, rfl, -⟩ := does
    exact section_path S ready
  | readQueue key => exact path_of_eq does.1
  | tombstoneExists key => exact path_of_eq does.1
  | readStore key => exact path_of_eq does.1
  | storeHas key => exact path_of_eq does.1
  | listStore start => exact path_of_eq does.1
  | storeCommonPrefixes start => exact path_of_eq does.1
  | backendGet key => exact path_of_eq does.1
  | backendHas key => exact path_of_eq does.1
  | backendList start => exact path_of_eq does.1
  | backendCommonPrefixes start => exact path_of_eq does.1
  | backendPut queued bytes => exact path_of_call does (move_insertObject ready)
  | backendPutIfAbsent queued bytes =>
    rcases PutIfAbsentCall.cases does with same | call
    · exact path_of_eq same
    · exact path_of_call call (move_insertObject ready)
  | backendDelete queued => exact path_of_call does (move_eraseObject ⟨rfl, rfl⟩ ready)
  | backendDeleteBatch items =>
    obtain ⟨gone, answer, sub, -, rfl⟩ := does
    refine path_eraseAll gone (fun key hk => ⟨sub hk, rfl⟩) (fun key hk => ?_)
    obtain ⟨queued, mem, rfl⟩ := List.mem_map.mp (sub hk)
    exact ready queued mem
  | backendMaintenance => exact path_of_eq does.1
  | readQueueDir => exact path_of_eq does.1
  | scanned items => exact path_of_eq does.1
  | localGcCatalog =>
    obtain ⟨failure, rfl, -⟩ := does
    exact path_refreshCatalog
  | localGcDue now =>
    obtain ⟨failure, rfl, -⟩ := does
    exact path_refreshCatalog
  | utcNow => exact path_of_eq does.1
  | flushRequested => exact path_of_eq does.1
  | removeFlushRequest =>
    rcases does with ⟨-, rfl⟩ | ⟨e, -, rfl | rfl⟩
    · exact path_of_same rfl rfl (fun _ => rfl)
    · exact .refl
    · exact path_of_same rfl rfl (fun _ => rfl)
  | batchDeleteEnabled => exact path_of_eq does.1
  | disableBatchDelete =>
    obtain ⟨rfl, -⟩ := does
    exact path_of_same rfl rfl (fun _ => rfl)
  | readListCache key =>
    obtain ⟨rfl, -⟩ := does
    unfold Cluster.readListCache
    split
    · split
      · exact .refl
      · exact path_of_same rfl rfl (fun _ => rfl)
    · exact .refl
  | writeListCache key value =>
    obtain ⟨rfl, -⟩ := does
    unfold Cluster.writeListCache
    split
    · exact path_of_same rfl rfl (fun _ => rfl)
    · exact .refl
  | clearListCache =>
    obtain ⟨rfl, -⟩ := does
    exact path_of_same rfl rfl (fun _ => rfl)
  | updateListCacheAfterPuts items =>
    obtain ⟨rfl, -⟩ := does
    unfold Cluster.updateListCacheAfterPuts
    split
    · exact path_of_same rfl rfl (fun _ => rfl)
    · exact .refl
  | writeMasterStatus =>
    rcases does.1 with rfl | ⟨failure, rfl⟩
    · exact .refl
    · exact path_refreshCatalog

end Majutsu.Cluster
