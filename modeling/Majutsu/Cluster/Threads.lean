import Majutsu.Cluster.ActionMoves
import Majutsu.Cluster.System

/-!
# Which thread does what

Request threads and the start-up program only use actions that need no
knowledge about earlier steps, so whatever they are in the middle of, their
next action moves along the key protocol.
-/

namespace Majutsu.Cluster

open Prog Relation

def Action.OfRequest : Action → Prop
  | locked (.processPuts _ _) | locked (.durableDelete _ _) | locked (.hydrate _ _)
  | locked (.backendCommitted _) | readQueue _ | tombstoneExists _ | readStore _ | storeHas _
  | listStore _ | storeCommonPrefixes _ | backendGet _ | backendHas _ | backendList _
  | backendCommonPrefixes _ | backendMaintenance | readQueueDir | scanned _ | localGcCatalog
  | readListCache _ | writeListCache _ _ | clearListCache | updateListCacheAfterPuts _
  | writeMasterStatus => True
  | _ => False

def Action.OfBoot : Action → Prop
  | locked .recoverMasterWriteIntents | locked .reconcileLegacyBackendQueue
  | writeMasterStatus => True
  | _ => False

def requestAllow (_ : Key) (kind : Kind) : Prop :=
  kind = .request ∨ kind = .replay ∨ kind = .hydrate

section Uses

variable {sort : Action → Prop} {α : Type}

theorem uses_ask {a : Action} (h : sort a) : Uses sort (ask a) := ⟨h, fun _ => trivial⟩

theorem uses_call {a : Action} (h : sort a) : Uses sort (call a) := ⟨h, fun _ => trivial⟩

theorem uses_checked (result : Except Failure α) : Uses sort (checked result) := trivial

theorem uses_readQueueFiles (read : ∀ key, sort (.readQueue key)) (keys : List Key) :
    Uses sort (readQueueFiles keys) := by
  induction keys with
  | nil => trivial
  | cons key rest ih => exact (uses_ask (read key)).tryBind (fun _ => ih.tryBind (fun _ => trivial))

end Uses

theorem uses_keyIsLogicallyDeleted (key : Key) :
    Uses Action.OfRequest (keyIsLogicallyDeleted key) := by
  exact (uses_ask trivial).tryBind (fun item => Uses.ite trivial (uses_ask trivial))

theorem uses_logicallyDeletedKeys (start : String) :
    Uses Action.OfRequest (logicallyDeletedKeys start) := by
  refine Uses.tryBind (Uses.tryBind (uses_ask trivial) (fun names => Uses.tryBind
    (uses_readQueueFiles (fun _ => trivial) names) (fun _ => (uses_ask trivial).tryBind
      (fun _ => trivial)))) (fun _ => (uses_call trivial).tryBind (fun _ => trivial))

theorem uses_masterGetOptional (key : Key) : Uses Action.OfRequest (masterGetOptional key) := by
  refine (uses_keyIsLogicallyDeleted key).tryBind (fun deleted => ?_)
  split
  · trivial
  · refine Uses.tryBind (uses_call trivial) (fun found => ?_)
    split
    · trivial
    · refine Uses.tryBind (uses_call trivial) (fun bytes => ?_)
      split
      · trivial
      · exact Uses.tryBind (uses_call trivial) (fun _ => trivial)

theorem uses_backendListOrEmpty (start : String) :
    Uses Action.OfRequest (backendListOrEmpty start) := by
  refine (uses_ask trivial).tryBind (fun answer => ?_)
  split <;> trivial

theorem uses_masterList (start : String) : Uses Action.OfRequest (masterList start) :=
  (uses_logicallyDeletedKeys start).tryBind (fun _ => (uses_ask trivial).tryBind (fun _ =>
    (uses_backendListOrEmpty start).tryBind (fun _ => trivial)))

theorem uses_masterListWithSizes (start : String) :
    Uses Action.OfRequest (masterListWithSizes start) :=
  (uses_logicallyDeletedKeys start).tryBind (fun _ => (uses_backendListOrEmpty start).tryBind
    (fun _ => (uses_ask trivial).tryBind (fun _ => trivial)))

theorem uses_masterListCommonPrefixes (start : String) :
    Uses Action.OfRequest (masterListCommonPrefixes start) := by
  refine Uses.tryBind (uses_call trivial) (fun stored => (uses_ask trivial).tryBind
    (fun answer => ?_))
  split <;> trivial

theorem uses_noteStatus : Uses Action.OfRequest noteStatus :=
  (uses_ask trivial).tryBind (fun _ => trivial)

theorem uses_putsRequest (sourceHost : String) (items : List ClusterPutItem) :
    Uses Action.OfRequest (putsRequest sourceHost items) :=
  Uses.tryBind (uses_call trivial) (fun _ => (uses_ask trivial).tryBind (fun _ =>
    uses_noteStatus.tryBind (fun _ => trivial)))

theorem uses_getRangeRequest (key : Key) (start len : Nat) :
    Uses Action.OfRequest (getRangeRequest key start len) := by
  refine (uses_keyIsLogicallyDeleted key).tryBind (fun deleted => ?_)
  split
  · trivial
  · refine Uses.tryBind (uses_ask trivial) (fun found => ?_)
    split <;> refine Uses.tryBind (uses_call trivial) (fun bytes => ?_) <;> split <;> trivial

theorem uses_existsRequest (key : Key) : Uses Action.OfRequest (existsRequest key) := by
  exact (uses_keyIsLogicallyDeleted key).tryBind (fun deleted => Uses.ite trivial
    (Uses.tryBind (uses_ask trivial) (fun found => Uses.ite trivial (uses_call trivial))))

theorem uses_listRequest (start : String) : Uses Action.OfRequest (listRequest start) := by
  refine (uses_ask trivial).tryBind (fun cached => ?_)
  split
  · trivial
  · exact (uses_masterList start).tryBind (fun _ => (uses_ask trivial).tryBind (fun _ => trivial))

theorem uses_listCommonPrefixesRequest (start : String) :
    Uses Action.OfRequest (listCommonPrefixesRequest start) := by
  refine (uses_ask trivial).tryBind (fun cached => ?_)
  split
  · trivial
  · exact (uses_masterListCommonPrefixes start).tryBind (fun _ => (uses_ask trivial).tryBind
      (fun _ => trivial))

theorem uses_listWithSizesRequest (start : String) :
    Uses Action.OfRequest (listWithSizesRequest start) := by
  refine (uses_ask trivial).tryBind (fun cached => ?_)
  split
  · trivial
  · exact (uses_masterListWithSizes start).tryBind (fun _ => (uses_ask trivial).tryBind
      (fun _ => trivial))

theorem uses_dispatchOperation (sourceHost : String) (operation : ClusterOperation) :
    Uses Action.OfRequest (dispatchOperation sourceHost operation) := by
  cases operation with
  | capabilities | heartbeat => trivial
  | put key bytes conditional =>
    refine (uses_checked _).tryBind (fun _ => (uses_putsRequest sourceHost _).tryBind
      (fun results => ?_))
    split <;> trivial
  | batchPut items =>
    exact (uses_checked _).tryBind (fun _ => (uses_putsRequest sourceHost items).tryBind
      (fun _ => trivial))
  | get key =>
    refine (uses_checked _).tryBind (fun _ => (uses_masterGetOptional key).tryBind
      (fun found => ?_))
    split <;> trivial
  | getOptional key =>
    exact (uses_checked _).tryBind (fun _ => (uses_masterGetOptional key).tryBind
      (fun _ => trivial))
  | getRange key start len =>
    exact (uses_checked _).tryBind (fun _ => uses_getRangeRequest key start len)
  | «exists» key =>
    exact (uses_checked _).tryBind (fun _ => (uses_existsRequest key).tryBind (fun _ => trivial))
  | backendCommitted keys =>
    exact Uses.ite trivial (Uses.tryBind (uses_call trivial) (fun _ => trivial))
  | list start =>
    exact (uses_checked _).tryBind (fun _ => (uses_listRequest start).tryBind (fun _ => trivial))
  | listCommonPrefixes start =>
    exact (uses_checked _).tryBind (fun _ => (uses_listCommonPrefixesRequest start).tryBind
      (fun _ => trivial))
  | listWithSizes start =>
    exact (uses_checked _).tryBind (fun _ => (uses_listWithSizesRequest start).tryBind
      (fun _ => trivial))
  | listMasterLocalWithSizes start =>
    exact (uses_checked _).tryBind (fun _ => Uses.tryBind ((uses_logicallyDeletedKeys start).tryBind
      (fun _ => (uses_ask trivial).tryBind (fun _ => trivial))) (fun _ => trivial))
  | delete key =>
    exact (uses_checked _).tryBind (fun _ => Uses.tryBind (Uses.tryBind (uses_call trivial)
      (fun _ => uses_noteStatus)) (fun _ => (uses_ask trivial).tryBind (fun _ => trivial)))
  | restoreArchive key days tier =>
    exact (uses_checked _).tryBind (fun _ => Uses.tryBind (uses_call trivial) (fun _ => trivial))
  | applyLifecycle => exact Uses.tryBind (uses_call trivial) (fun _ => trivial)

theorem uses_handleRequest (hostId : String) (operation : ClusterOperation) :
    Uses Action.OfRequest (handleRequest hostId operation) :=
  (uses_checked _).tryBind (fun _ => (uses_checked _).tryBind (fun _ =>
    uses_dispatchOperation hostId operation))

theorem uses_bootProgram : Uses Action.OfBoot bootProgram :=
  Uses.tryBind (uses_call trivial) (fun _ => Uses.tryBind (uses_call trivial) (fun _ =>
    uses_call trivial))

section Paths

variable {C : Config} {honest : Prop} {s s' : Master} {a : Action} {o : Option a.Answer}

theorem path_mono {allow allow' : Key → Kind → Prop}
    (path : ReflTransGen (Move C honest allow) s s')
    (sub : ∀ k kind, allow k kind → allow' k kind) : ReflTransGen (Move C honest allow') s s' :=
  ReflTransGen.mono (fun _ _ move => move.mono sub) _ _ path

theorem Action.OfRequest.path (request : a.OfRequest) (does : a.Does C s o s') :
    ReflTransGen (Move C honest a.allow) s s' ∧ ∀ k kind, a.allow k kind → requestAllow k kind := by
  have ready : a.Ready C honest s := by
    cases a with
    | locked S => cases S <;> trivial
    | _ => trivial
  refine ⟨Action.path ready does, fun k kind => ?_⟩
  cases a with
  | locked S =>
    cases S with
    | processPuts _ _ => exact fun h => h.2.imp_right Or.inl
    | durableDelete _ _ => exact fun h => h.2.imp_right Or.inl
    | hydrate _ _ => exact fun h => Or.inr (Or.inr h.2)
    | backendCommitted _ => exact False.elim
    | _ => cases request
  | _ => first | exact False.elim | cases request

theorem Action.OfBoot.path (boot : a.OfBoot) (does : a.Does C s o s') :
    ReflTransGen (Move C honest a.allow) s s' := by
  refine Action.path ?_ does
  cases a with
  | locked S => cases S <;> trivial
  | writeMasterStatus => trivial
  | _ => cases boot

end Paths

end Majutsu.Cluster
