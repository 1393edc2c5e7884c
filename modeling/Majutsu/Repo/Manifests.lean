import Majutsu.Lib.Loops
import Majutsu.Repo.Basic

/-!
# Manifests

A snapshot manifest lists the files of every root, either flat or through a tree
object. A tree holds its entries itself (version 1) or refers to nodes that refer
to further nodes (version 2). Objects refer to each other by key only, and every
reader goes through a `View`, which says what can be read under a key at a moment.

Readers of nodes recurse without a bound. They take the depth here, and running
out of it is an error, so what they return does not depend on it.
-/

namespace Majutsu.Repo

open Loops

abbrev Oid := String
abbrev Key := String

/-- A `BTreeMap` by its entries, in any order. Loops over it take them as they are listed, not by
key as the source does, and nothing is stated of that order. -/
abbrev Entries (α : Type) := List (String × α)

namespace Entries

variable {α : Type}

def values (entries : Entries α) : List α := entries.map Prod.snd

def get (entries : Entries α) (name : String) : Option α :=
  (entries.find? (fun entry => entry.1 = name)).map Prod.snd

def insert (entries : Entries α) (name : String) (value : α) : Entries α :=
  entries.filter (fun entry => entry.1 ≠ name) ++ [(name, value)]

/-- `BTreeMap::extend`: the new entries win. -/
def extend (entries new : Entries α) : Entries α :=
  entries.filter (fun entry => !new.any (fun other => other.1 = entry.1)) ++ new

theorem mem_values_extend {entries new : Entries α} {value : α}
    (h : value ∈ (extend entries new).values) : value ∈ entries.values ∨ value ∈ new.values := by
  simp only [values, extend, List.map_append, List.mem_append, List.mem_map, List.mem_filter] at h ⊢
  rcases h with ⟨entry, ⟨member, -⟩, eq⟩ | ⟨entry, member, eq⟩
  · exact Or.inl ⟨entry, member, eq⟩
  · exact Or.inr ⟨entry, member, eq⟩

end Entries

/-- What a pointer says of a large object beside where it is. -/
structure LargePointer where
  mediaType : Option String
  binary : Bool
  chunking : String
  compression : String
  encryption : String
  storageTierHint : String
  hydratePolicy : String
  deriving DecidableEq

inductive Payload where
  | directory
  | inlineSmall (oid : Oid) (objectKey : Key)
  | normalBlob (oid : Oid) (objectKey : Key)
  | chunkedBlob (oid : Oid) (manifestKey : Key) (chunkCount : Nat)
  | largeObject (oid : Oid) (manifestKey : Key) (chunkCount : Nat) (pointer : LargePointer)
  | blob (oid : Oid) (objectKey : Key)
  | large (oid : Oid) (manifestKey : Key) (chunkCount : Nat)
  | symlink (target : String)
  | special (specialKind : String)
  deriving DecidableEq

def payloadBlobRef : Payload → Option (Oid × Key)
  | .inlineSmall oid key | .normalBlob oid key | .blob oid key => some (oid, key)
  | _ => none

def payloadLargeRef : Payload → Option (Oid × Key × Nat)
  | .chunkedBlob oid key count | .largeObject oid key count _ | .large oid key count =>
    some (oid, key, count)
  | _ => none

theorem payloadLargeRef_of_blob {payload : Payload} {blob : Oid × Key}
    (h : payloadBlobRef payload = some blob) : payloadLargeRef payload = none := by
  cases payload with
  | inlineSmall | normalBlob | blob => rfl
  | _ => cases h

structure FileRecord where
  rootId : String
  path : String
  kind : String
  size : Nat
  mode : Nat
  modified : Option Int
  uid : Option Nat
  gid : Option Nat
  xattrs : Entries String
  payload : Payload
  deriving DecidableEq

/-- A record with nothing known of owner, time and extended attributes. -/
def FileRecord.plain (rootId path kind : String) (size : Nat) (payload : Payload) : FileRecord :=
  ⟨rootId, path, kind, size, 0o644, none, none, none, [], payload⟩

structure TreeNodeRef where
  nodeId : String
  nodeKey : Key
  fileCount : Nat
  totalSize : Nat
  deriving DecidableEq

structure TreeNodeManifest where
  nodeId : String
  rootId : String
  path : String
  fileCount : Nat
  totalSize : Nat
  childNodes : Entries TreeNodeRef
  entries : Entries FileRecord
  deriving DecidableEq

structure TreeManifest where
  version : Nat
  treeId : String
  rootId : String
  rootNode : Option TreeNodeRef
  subtreeNodes : Entries TreeNodeRef
  entries : Entries FileRecord
  deriving DecidableEq

structure RootSnapshot where
  treeId : String
  treeKey : Key
  fileCount : Nat
  deriving DecidableEq

structure SnapshotManifest where
  snapshotId : String
  parent : Option String
  opId : String
  rootTrees : Entries RootSnapshot
  roots : Entries (List FileRecord)
  deriving DecidableEq

def SnapshotManifest.flatRecords (manifest : SnapshotManifest) : List FileRecord :=
  manifest.roots.values.flatten

/-- The part of a large manifest that readers of the metadata follow. -/
structure LargeRefs where
  oid : Oid
  /-- Hash and object key of each chunk. -/
  chunks : List (Oid × Key)
  deriving DecidableEq

/-- What an object stands for once it is decrypted and parsed. -/
inductive Object where
  | payload (bytes : Bytes)
  /-- `rootsOmitted` is the mark of a compact manifest, written beside its fields. -/
  | snapshot (manifest : SnapshotManifest) (rootsOmitted : Bool)
  | tree (tree : TreeManifest)
  | node (node : TreeNodeManifest)
  | large (manifest : LargeRefs)
  deriving DecidableEq

def Object.isTree : Object → Bool
  | .tree _ | .node _ => true
  | _ => false

abbrev View := Key → Option Object

namespace View

/-- The other view reads at least as much, and the same. -/
def Le (view other : View) : Prop := ∀ key object, view key = some object → other key = some object

theorem Le.refl (view : View) : view.Le view := fun _ _ h => h

/-- The other view reads at least the same trees and nodes. -/
def TreesLe (view other : View) : Prop :=
  ∀ key object, view key = some object → object.isTree = true → other key = some object

theorem Le.trees {view other : View} (le : view.Le other) : view.TreesLe other :=
  fun key object found _ => le key object found

/-- What of the objects can be read at some moment. -/
def only (content : View) (readable : Key → Bool) : View :=
  fun key => if readable key then content key else none

theorem only_le (content : View) (readable : Key → Bool) : (content.only readable).Le content := by
  intro key object h
  simp only [only] at h
  by_cases read : readable key
  · rwa [if_pos read] at h
  · rw [if_neg read] at h
    cases h

variable (view : View)

def readTree (key : Key) : Except String TreeManifest :=
  match view key with
  | some (.tree tree) => .ok tree
  | some _ => .error s!"parse root tree {key}"
  | none => .error s!"read root tree {key}"

def readNode (key : Key) : Except String TreeNodeManifest :=
  match view key with
  | some (.node node) => .ok node
  | some _ => .error s!"parse tree node {key}"
  | none => .error s!"read tree node {key}"

def readLarge (key : Key) : Except String LargeRefs :=
  match view key with
  | some (.large manifest) => .ok manifest
  | some _ => .error s!"parse large manifest {key}"
  | none => .error s!"read large manifest {key}"

def readSnapshot (key : Key) : Except String SnapshotManifest :=
  match view key with
  | some (.snapshot manifest _) => .ok manifest
  | some _ => .error s!"parse snapshot manifest object {key}"
  | none => .error s!"read snapshot manifest object {key}"

def treeEntriesFromNode : Nat → TreeNodeManifest → Except String (Entries FileRecord)
  | 0, _ => .error "tree nodes too deep"
  | depth + 1, node =>
    node.childNodes.foldlM
      (fun entries child => do
        let childNode ← view.readNode child.2.nodeKey
        let below ← treeEntriesFromNode depth childNode
        .ok (entries.extend below))
      node.entries

def treeEntriesFromManifest (depth : Nat) (tree : TreeManifest) :
    Except String (Entries FileRecord) :=
  match tree.entries.isEmpty, tree.rootNode with
  | true, some rootNode => do
    let node ← view.readNode rootNode.nodeKey
    view.treeEntriesFromNode depth node
  | _, _ => .ok tree.entries

def loadRootTreeEntries (depth : Nat) (rootTree : RootSnapshot) :
    Except String (Entries FileRecord) := do
  let tree ← view.readTree rootTree.treeKey
  view.treeEntriesFromManifest depth tree

def visitTreeNodeRecords : Nat → Key → Except String (List FileRecord)
  | 0, _ => .error "tree nodes too deep"
  | depth + 1, key => do
    let node ← view.readNode key
    let below ← node.childNodes.mapM (fun child => visitTreeNodeRecords depth child.2.nodeKey)
    .ok (node.entries.values ++ below.flatten)

def visitTreeRecords (depth : Nat) (rootTree : RootSnapshot) :
    Except String (List FileRecord) := do
  let tree ← view.readTree rootTree.treeKey
  match tree.entries.isEmpty, tree.rootNode with
  | true, some rootNode => view.visitTreeNodeRecords depth rootNode.nodeKey
  | _, _ => .ok tree.entries.values

end View

section Reading

variable {view other : View}

variable {key : Key} {node : TreeNodeManifest} {depth depth' : Nat} {entries : Entries FileRecord}
  {rootTree : RootSnapshot} {records : List FileRecord}

theorem View.readTree_ok {tree : TreeManifest} :
    view.readTree key = .ok tree ↔ view key = some (.tree tree) := by
  unfold View.readTree
  cases view key with
  | none => simp
  | some object => cases object <;> simp

theorem View.readNode_ok : view.readNode key = .ok node ↔ view key = some (.node node) := by
  unfold View.readNode
  cases view key with
  | none => simp
  | some object => cases object <;> simp

theorem View.readLarge_ok {manifest : LargeRefs} :
    view.readLarge key = .ok manifest ↔ view key = some (.large manifest) := by
  unfold View.readLarge
  cases view key with
  | none => simp
  | some object => cases object <;> simp

theorem View.readSnapshot_ok {manifest : SnapshotManifest} :
    view.readSnapshot key = .ok manifest ↔
      ∃ rootsOmitted, view key = some (.snapshot manifest rootsOmitted) := by
  unfold View.readSnapshot
  cases view key with
  | none => simp
  | some object => cases object <;> simp

theorem View.TreesLe.readTree {tree : TreeManifest} (le : view.TreesLe other)
    (h : view.readTree key = .ok tree) : other.readTree key = .ok tree :=
  readTree_ok.mpr (le key _ (readTree_ok.mp h) rfl)

theorem View.TreesLe.readNode (le : view.TreesLe other) (h : view.readNode key = .ok node) :
    other.readNode key = .ok node :=
  readNode_ok.mpr (le key _ (readNode_ok.mp h) rfl)

theorem View.TreesLe.treeEntriesFromNode (le : view.TreesLe other) {more : Nat}
    (deeper : depth ≤ more) (h : view.treeEntriesFromNode depth node = .ok entries) :
    other.treeEntriesFromNode more node = .ok entries := by
  induction depth generalizing more node entries with
  | zero => cases h
  | succ depth ih =>
    cases more with
    | zero => omega
    | succ more =>
      rw [View.treeEntriesFromNode] at h ⊢
      apply foldlM_mono _ h
      intro acc child r round
      obtain ⟨childNode, read, rest⟩ := of_bind round
      obtain ⟨below, expanded, result⟩ := of_bind rest
      exact bind_ok ⟨childNode, le.readNode read,
        bind_ok ⟨below, ih (Nat.le_of_succ_le_succ deeper) expanded, result⟩⟩

theorem View.TreesLe.loadRootTreeEntries (le : view.TreesLe other) {more : Nat}
    (deeper : depth ≤ more) (h : view.loadRootTreeEntries depth rootTree = .ok entries) :
    other.loadRootTreeEntries more rootTree = .ok entries := by
  obtain ⟨tree, read, expanded⟩ := of_bind h
  refine bind_ok ⟨tree, le.readTree read, ?_⟩
  unfold View.treeEntriesFromManifest at expanded ⊢
  split at expanded
  · obtain ⟨node, readNode, below⟩ := of_bind expanded
    exact bind_ok ⟨node, le.readNode readNode, le.treeEntriesFromNode deeper below⟩
  · exact expanded

theorem View.TreesLe.visitTreeNodeRecords (le : view.TreesLe other)
    (h : view.visitTreeNodeRecords depth key = .ok records) :
    other.visitTreeNodeRecords depth key = .ok records := by
  induction depth generalizing key records with
  | zero => cases h
  | succ depth ih =>
    obtain ⟨node, read, rest⟩ := of_bind h
    obtain ⟨below, children, result⟩ := of_bind rest
    exact bind_ok ⟨node, le.readNode read,
      bind_ok ⟨below, mapM_mono (fun _ _ child => ih child) children, result⟩⟩

theorem View.TreesLe.visitTreeRecords (le : view.TreesLe other)
    (h : view.visitTreeRecords depth rootTree = .ok records) :
    other.visitTreeRecords depth rootTree = .ok records := by
  obtain ⟨tree, read, rest⟩ := of_bind h
  refine bind_ok ⟨tree, le.readTree read, ?_⟩
  split at rest
  · exact le.visitTreeNodeRecords rest
  · exact rest

theorem View.loadRootTreeEntries_unique {entries' : Entries FileRecord}
    (h : view.loadRootTreeEntries depth rootTree = .ok entries)
    (h' : view.loadRootTreeEntries depth' rootTree = .ok entries') : entries = entries' := by
  have left := (View.Le.refl view).trees.loadRootTreeEntries (Nat.le_max_left depth depth') h
  have right := (View.Le.refl view).trees.loadRootTreeEntries (Nat.le_max_right depth depth') h'
  exact Except.ok.inj (left.symm.trans right)

theorem View.mem_visitTreeNodeRecords (read : view.readNode key = .ok node)
    (h : view.treeEntriesFromNode depth node = .ok entries)
    (visited : view.visitTreeNodeRecords depth' key = .ok records) {record : FileRecord}
    (member : record ∈ entries.values) : record ∈ records := by
  induction depth generalizing depth' key node entries records record with
  | zero => cases h
  | succ depth ih =>
    cases depth' with
    | zero => cases visited
    | succ depth' =>
      rw [View.visitTreeNodeRecords] at visited
      obtain ⟨node', read', visited⟩ := of_bind visited
      obtain rfl : node = node' := Except.ok.inj (read.symm.trans read')
      obtain ⟨below, children, result⟩ := of_bind visited
      cases result
      rw [View.treeEntriesFromNode] at h
      -- every record so far is one of the node or of a child that has been added
      have invariant := foldlM_invariant
        (I := fun (done : List (String × TreeNodeRef)) (acc : Entries FileRecord) =>
          (∀ child ∈ done, child ∈ node.childNodes) →
          ∀ r ∈ acc.values, r ∈ node.entries.values ++ below.flatten)
        ?_ ?_ h
      · exact invariant (fun _ inside => inside) record member
      · intro _ r inside
        exact List.mem_append_left _ inside
      · intro done child acc r before round subset q inside
        obtain ⟨childNode, readChild, rest⟩ := of_bind round
        obtain ⟨added, expanded, result⟩ := of_bind rest
        cases result
        rcases Entries.mem_values_extend inside with old | new
        · exact before (fun c hc => subset c (List.mem_append_left _ hc)) q old
        · obtain ⟨visitedBelow, visit, mem⟩ := mapM_mem children
            (subset child (by simp))
          have found := ih readChild expanded visit new
          exact List.mem_append_right _ (List.mem_flatten_of_mem mem found)

theorem View.mem_visitTreeRecords (h : view.loadRootTreeEntries depth rootTree = .ok entries)
    (visited : view.visitTreeRecords depth' rootTree = .ok records) {record : FileRecord}
    (member : record ∈ entries.values) : record ∈ records := by
  obtain ⟨tree, read, expanded⟩ := of_bind h
  obtain ⟨tree', read', visited⟩ := of_bind visited
  obtain rfl : tree = tree' := Except.ok.inj (read.symm.trans read')
  unfold View.treeEntriesFromManifest at expanded
  split at expanded
  · next rootNode empty root =>
    obtain ⟨node, readNode, below⟩ := of_bind expanded
    simp only [empty, root] at visited
    exact View.mem_visitTreeNodeRecords readNode below visited member
  · next other =>
    cases expanded
    split at visited
    · next rootNode empty root => exact (other rootNode empty root).elim
    · cases visited
      exact member

end Reading

end Majutsu.Repo
