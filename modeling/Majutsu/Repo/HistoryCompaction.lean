import Majutsu.Lib.Contraction
import Majutsu.Lib.Loops

/-!
# Compacting the history for a remote

A host that sends only its canonical metadata leaves out the operations of its own syncs.
An operation whose parent is left out gets the next operation up its chain that is not.

How the manifest of a snapshot is shortened is an argument here: it reads objects and
rewrites JSON, and the operations do not depend on it, except that it may fail.
-/

namespace Majutsu.Repo

open Contraction Relation

/-- An operation; `Details` are the fields that compaction does not look at. -/
structure OperationLogEntry (Details : Type) where
  id : String
  parentOp : Option String
  kind : String
  details : Details
  deriving DecidableEq

structure SnapshotExport where
  id : String
  parentId : Option String
  opId : String
  createdAt : String
  manifestKey : String
  manifestJson : String
  deriving DecidableEq

/-- The metadata of a host; `Rest` are the other tables. -/
structure HostMetadata (Details Rest : Type) where
  snapshots : List SnapshotExport
  operations : List (OperationLogEntry Details)
  rest : Rest

variable {Details Rest : Type}

namespace OperationLogEntry

def isRemoteSync (operation : OperationLogEntry Details) : Bool := operation.kind = "remote-sync"

/-- The parents of the operations that are left out, by id. -/
def skippedParents (operations : List (OperationLogEntry Details)) :
    List (String × Option String) :=
  (operations.filter isRemoteSync).foldl
    (fun parents operation => SortedMap.insert operation.id operation.parentOp parents) []

def compactOperations (operations : List (OperationLogEntry Details)) :
    List (OperationLogEntry Details) :=
  let skipped := skippedParents operations
  (operations.map fun operation =>
    { operation with parentOp := follow skipped [] operation.parentOp }).filter
      fun operation => !operation.isRemoteSync

end OperationLogEntry

open OperationLogEntry

/-- `shorten` is `compact_snapshot_manifest_json_for_metadata`. -/
def compactRemoteMetadataExport (shorten : String → String → String → Except String String)
    (metadata : HostMetadata Details Rest) : Except String (HostMetadata Details Rest) := do
  let snapshots ← metadata.snapshots.mapM fun snapshot => do
    let json ← shorten snapshot.id snapshot.manifestKey snapshot.manifestJson
    pure { snapshot with manifestJson := json }
  pure { metadata with
    snapshots := snapshots, operations := compactOperations metadata.operations }

namespace OperationLogEntry

section Graph

variable (operations : List (OperationLogEntry Details))

/-- The parent that the operation with an id names. -/
def parentOf (id : String) : Option String :=
  (operations.find? (fun operation => operation.id = id)).bind parentOp

/-- The id is that of an operation that is left out. -/
def Skipped (id : String) : Prop :=
  ∃ operation ∈ operations, operation.id = id ∧ operation.isRemoteSync

/-- The first operation lies above the second one. -/
def Ancestor : String → String → Prop :=
  TransGen fun above below => ∃ operation ∈ operations,
    operation.id = below ∧ operation.parentOp = some above

variable {operations} (distinct : (operations.map OperationLogEntry.id).Nodup)

include distinct

theorem parentOf_eq {operation : OperationLogEntry Details} (member : operation ∈ operations) :
    parentOf operations operation.id = operation.parentOp := by
  induction operations with
  | nil => cases member
  | cons first rest ih =>
    rw [List.map_cons, List.nodup_cons] at distinct
    rcases List.mem_cons.mp member with rfl | later
    · rw [parentOf, List.find?_cons_of_pos (by simp), Option.bind_some]
    · have other : first.id ≠ operation.id := by
        intro same
        exact distinct.1 (same ▸ List.mem_map_of_mem later)
      have rest_ := ih distinct.2 later
      rwa [parentOf, List.find?_cons_of_neg (by simpa using other)]

theorem parentOf_eq_some {above below : String} : parentOf operations below = some above ↔
    ∃ operation ∈ operations, operation.id = below ∧ operation.parentOp = some above := by
  constructor
  · intro named
    obtain ⟨operation, found, parent⟩ := Option.bind_eq_some_iff.mp named
    exact ⟨operation, List.mem_of_find?_eq_some found, by simpa using List.find?_some found, parent⟩
  · rintro ⟨operation, member, rfl, parent⟩
    rw [parentOf_eq distinct member, parent]

theorem ancestor_eq : Ancestor operations = TransGen (IsParent (parentOf operations)) := by
  unfold Ancestor
  congr 1
  funext above below
  exact propext (parentOf_eq_some distinct).symm

theorem holds_skippedParents :
    Holds (skippedParents operations) (parentOf operations) (Skipped operations) := by
  have syncs : ((operations.filter isRemoteSync).map OperationLogEntry.id).Nodup :=
    distinct.sublist (List.filter_sublist.map _)
  constructor
  · intro id next known
    obtain ⟨operation, inside, rfl, rfl⟩ :=
      (SortedMap.get_foldl_insert_eq_some OperationLogEntry.id parentOp syncs).mp known
    obtain ⟨member, sync⟩ := List.mem_filter.mp inside
    exact ⟨⟨operation, member, rfl, sync⟩, parentOf_eq distinct member⟩
  · rintro id unknown ⟨operation, member, rfl, sync⟩
    have known := (SortedMap.get_foldl_insert_eq_some OperationLogEntry.id parentOp syncs).mpr
      ⟨operation, List.mem_filter.mpr ⟨member, sync⟩, rfl, rfl⟩
    rw [skippedParents, known] at unknown
    cases unknown

end Graph

variable {operations : List (OperationLogEntry Details)}

theorem compactOperations_eq (operations : List (OperationLogEntry Details)) :
    compactOperations operations =
      (operations.filter fun operation => !operation.isRemoteSync).map fun operation =>
        { operation with parentOp := follow (skippedParents operations) [] operation.parentOp } := by
  rw [compactOperations, List.filter_map]
  rfl

theorem mem_compactOperations {operation : OperationLogEntry Details} :
    operation ∈ compactOperations operations ↔
      ∃ old ∈ operations, old.isRemoteSync = false ∧
        { old with parentOp := follow (skippedParents operations) [] old.parentOp } =
          operation := by
  simp only [compactOperations_eq, List.mem_map, List.mem_filter, Bool.not_eq_true', and_assoc]

theorem distinct_compactOperations (distinct : (operations.map OperationLogEntry.id).Nodup) :
    ((compactOperations operations).map OperationLogEntry.id).Nodup := by
  rw [compactOperations_eq, List.map_map]
  exact distinct.sublist (List.filter_sublist.map _)

theorem parentOf_compactOperations (distinct : (operations.map OperationLogEntry.id).Nodup)
    {below : String} (stays : ¬ Skipped operations below) (above : String) :
    parentOf (compactOperations operations) below = some above ↔
      First (parentOf operations) (Skipped operations) (parentOf operations below) above := by
  rw [parentOf_eq_some (distinct_compactOperations distinct)]
  constructor
  · rintro ⟨operation, member, rfl, named⟩
    obtain ⟨old, before, -, rfl⟩ := mem_compactOperations.mp member
    rw [parentOf_eq distinct before]
    exact ((holds_skippedParents distinct).follow_eq_some above).mp named
  · intro first
    obtain ⟨next, named, -⟩ := first.onChain
    obtain ⟨old, before, rfl, -⟩ := (parentOf_eq_some distinct).mp named
    have kept : old.isRemoteSync = false := by
      by_contra sync
      exact stays ⟨old, before, rfl, Bool.not_eq_false _ ▸ sync⟩
    rw [parentOf_eq distinct before] at first
    exact ⟨_, mem_compactOperations.mpr ⟨old, before, kept, rfl⟩, rfl,
      ((holds_skippedParents distinct).follow_eq_some above).mpr first⟩

theorem compactOperations_of_no_sync
    (none_ : ∀ operation ∈ operations, operation.isRemoteSync = false) :
    compactOperations operations = operations := by
  have syncs : operations.filter isRemoteSync = [] := by
    rw [List.filter_eq_nil_iff]
    intro operation member
    rw [none_ operation member]
    exact Bool.false_ne_true
  have alone : ∀ start : Option String, follow [] [] start = start := by
    intro start
    cases start with
    | none => rw [follow]
    | some id => rw [follow]; rfl
  have skipped : skippedParents operations = [] := by rw [skippedParents, syncs, List.foldl_nil]
  rw [compactOperations_eq, skipped, List.filter_eq_self.mpr]
  · simp only [alone, List.map_id']
  · intro operation member
    rw [none_ operation member, Bool.not_false]

/-- What compaction makes of one operation that stays. -/
structure Redirected (operations : List (OperationLogEntry Details))
    (operation kept : OperationLogEntry Details) : Prop where
  rest : kept = { operation with parentOp := kept.parentOp }
  parent : ∀ id, kept.parentOp = some id ↔
    First (parentOf operations) (Skipped operations) operation.parentOp id
  root : kept.parentOp = none ↔
    ∀ id, OnChain (parentOf operations) operation.parentOp id → Skipped operations id

theorem redirected_compactOperations (distinct : (operations.map OperationLogEntry.id).Nodup) :
    List.Forall₂ (Redirected operations)
      (operations.filter fun operation => operation.kind ≠ "remote-sync")
      (compactOperations operations) := by
  have kinds : (fun operation : OperationLogEntry Details => !operation.isRemoteSync) =
      fun operation => decide (operation.kind ≠ "remote-sync") := by
    funext operation
    simp [isRemoteSync]
  rw [compactOperations_eq, kinds, List.forall₂_map_right_iff, List.forall₂_same]
  intro operation _
  have holds := holds_skippedParents distinct
  exact ⟨rfl, holds.follow_eq_some, holds.follow_eq_none⟩

theorem compactRemoteMetadataExport_eq_ok
    {shorten : String → String → String → Except String String}
    {metadata result : HostMetadata Details Rest}
    (ok : compactRemoteMetadataExport shorten metadata = .ok result) :
    result.operations = compactOperations metadata.operations := by
  obtain ⟨snapshots, -, rest⟩ := Loops.of_bind ok
  cases rest
  rfl

theorem exists_compactRemoteMetadataExport
    {shorten : String → String → String → Except String String}
    {metadata : HostMetadata Details Rest}
    (readable : ∀ snapshot ∈ metadata.snapshots, ∃ json,
      shorten snapshot.id snapshot.manifestKey snapshot.manifestJson = .ok json) :
    ∃ result, compactRemoteMetadataExport shorten metadata = .ok result := by
  have each : ∀ snapshot ∈ metadata.snapshots, ∃ short : SnapshotExport, (do
      let json ← shorten snapshot.id snapshot.manifestKey snapshot.manifestJson
      pure { snapshot with manifestJson := json } : Except String SnapshotExport) = .ok short := by
    intro snapshot member
    obtain ⟨json, found⟩ := readable snapshot member
    exact ⟨_, Loops.bind_ok ⟨json, found, rfl⟩⟩
  obtain ⟨snapshots, shortened⟩ := Loops.exists_mapM each
  exact ⟨_, Loops.bind_ok ⟨snapshots, shortened, rfl⟩⟩

/-- Compaction keeps exactly the operations that are not syncs, in their order, each with
the first id on its chain that is not a sync of the list, or with no parent when there is
none. Nothing that is kept names what was left out, the ancestors stay the same, and
compacting again changes no operation. -/
theorem compactRemoteMetadataExport_faithful
    (shorten : String → String → String → Except String String)
    (metadata : HostMetadata Details Rest)
    (distinct : (metadata.operations.map OperationLogEntry.id).Nodup) :
    ((∀ snapshot ∈ metadata.snapshots, ∃ json,
        shorten snapshot.id snapshot.manifestKey snapshot.manifestJson = .ok json) →
      ∃ result, compactRemoteMetadataExport shorten metadata = .ok result) ∧
    ∀ result, compactRemoteMetadataExport shorten metadata = .ok result →
      List.Forall₂ (Redirected metadata.operations)
        (metadata.operations.filter fun operation => operation.kind ≠ "remote-sync")
        result.operations ∧
      (∀ operation ∈ result.operations, ∀ id, operation.parentOp = some id →
        ¬ Skipped metadata.operations id) ∧
      (∀ above ∈ result.operations, ∀ below ∈ result.operations,
        (Ancestor result.operations above.id below.id ↔
          Ancestor metadata.operations above.id below.id)) ∧
      compactOperations result.operations = result.operations := by
  refine ⟨exists_compactRemoteMetadataExport, fun result ok => ?_⟩
  have operations := compactRemoteMetadataExport_eq_ok ok
  have holds := holds_skippedParents distinct
  -- what stays is not a sync, and no other operation has its id
  have stays : ∀ operation ∈ result.operations, ¬ Skipped metadata.operations operation.id := by
    rw [operations]
    rintro operation member ⟨sync, inside, same, isSync⟩
    obtain ⟨old, before, notSync, rfl⟩ := mem_compactOperations.mp member
    have equal : sync = old := List.inj_on_of_nodup_map distinct inside before same
    rw [equal, notSync] at isSync
    cases isSync
  refine ⟨?_, ?_, ?_, ?_⟩
  · rw [operations]
    exact redirected_compactOperations distinct
  · intro operation member id named
    rw [operations] at member
    obtain ⟨old, -, -, rfl⟩ := mem_compactOperations.mp member
    exact ((holds.follow_eq_some id).mp named).kept
  · intro above member below member'
    rw [operations, ancestor_eq (distinct_compactOperations distinct), ancestor_eq distinct]
    exact ancestor_iff (fun _ => parentOf_compactOperations distinct) (stays above member)
      (stays below member')
  · rw [operations]
    apply compactOperations_of_no_sync
    intro operation member
    obtain ⟨old, -, notSync, rfl⟩ := mem_compactOperations.mp member
    exact notSync

/-- A sync between two snapshots, two syncs in a circle, and a parent that is missing. -/
def tangledHistory : HostMetadata Unit Unit where
  snapshots := []
  operations :=
    [⟨"op-a", none, "snapshot", ()⟩, ⟨"op-s", some "op-a", "remote-sync", ()⟩,
      ⟨"op-b", some "op-s", "snapshot", ()⟩, ⟨"op-x", some "op-y", "remote-sync", ()⟩,
      ⟨"op-y", some "op-x", "remote-sync", ()⟩, ⟨"op-c", some "op-x", "restore", ()⟩,
      ⟨"op-d", some "op-gone", "snapshot", ()⟩]
  rest := ()

theorem compactRemoteMetadataExport_tangled :
    (tangledHistory.operations.map OperationLogEntry.id).Nodup ∧
    ∃ result, compactRemoteMetadataExport (fun _ _ json => .ok json) tangledHistory = .ok result ∧
      List.Forall₂ (Redirected tangledHistory.operations)
        (tangledHistory.operations.filter fun operation => operation.kind ≠ "remote-sync")
        result.operations ∧
      compactOperations result.operations = result.operations := by
  have distinct : (tangledHistory.operations.map OperationLogEntry.id).Nodup := by decide
  obtain ⟨ends, faithful⟩ :=
    compactRemoteMetadataExport_faithful (fun _ _ json => .ok json) tangledHistory distinct
  obtain ⟨result, ok⟩ := ends (fun _ none_ => absurd none_ List.not_mem_nil)
  obtain ⟨redirected, -, -, again⟩ := faithful result ok
  exact ⟨distinct, result, ok, redirected, again⟩

end OperationLogEntry

end Majutsu.Repo
