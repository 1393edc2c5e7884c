import Majutsu.Repo.Repository

/-!
# Live object keys

The walk of `local_object_keys` over the snapshots: it follows the root trees,
their nodes and the large manifests, and then takes the rows of the blobs that it
has met. What `gc` and the prune of the remote delete is what this walk has not
named.
-/

namespace Majutsu.Repo

open Loops

/-- The keys that a walk over the metadata found. -/
structure Marks where
  /-- Keys of objects that the walk has read. -/
  opened : List Key
  /-- Keys that it only wrote down. -/
  named : List Key
  blobOids : List Oid

namespace Marks

def keys (marks : Marks) : List Key := marks.opened ++ marks.named

def flatten (parts : List Marks) : Marks where
  opened := parts.flatMap opened
  named := parts.flatMap named
  blobOids := parts.flatMap blobOids

/-- The marks are of these keys and these blobs. -/
structure Hold (marks : Marks) (K : Key → Prop) (O : Oid → Prop) : Prop where
  keys : ∀ key, key ∈ marks.keys ↔ K key
  blobs : ∀ oid, oid ∈ marks.blobOids ↔ O oid

theorem mem_keys_flatten {parts : List Marks} {key : Key} :
    key ∈ (flatten parts).keys ↔ ∃ part ∈ parts, key ∈ part.keys := by
  simp only [keys, flatten, List.mem_append, List.mem_flatMap, and_or_left, exists_or]

theorem Hold.cons {own : Marks} {parts : List Marks} {K K' : Key → Prop} {O O' : Oid → Prop}
    (first : own.Hold K O) (rest : (flatten parts).Hold K' O') :
    (flatten (own :: parts)).Hold (fun key => K key ∨ K' key) (fun oid => O oid ∨ O' oid) := by
  constructor
  · intro key
    rw [← first.keys, ← rest.keys, mem_keys_flatten, mem_keys_flatten]
    simp
  · intro oid
    rw [← first.blobs, ← rest.blobs]
    exact List.mem_append

theorem Hold.of_mapM {α : Type} {f : α → Except String Marks} {xs : List α} {parts : List Marks}
    {K : α → Key → Prop} {O : α → Oid → Prop} (h : xs.mapM f = .ok parts)
    (each : ∀ x ∈ xs, ∀ part, f x = .ok part → part.Hold (K x) (O x)) :
    (flatten parts).Hold (fun key => ∃ x ∈ xs, K x key) (fun oid => ∃ x ∈ xs, O x oid) := by
  constructor
  · intro key
    rw [mem_keys_flatten]
    constructor
    · rintro ⟨part, inside, found⟩
      obtain ⟨x, member, partOf⟩ := mem_of_mapM h inside
      exact ⟨x, member, ((each x member part partOf).keys key).mp found⟩
    · rintro ⟨x, member, named⟩
      obtain ⟨part, partOf, inside⟩ := mapM_mem h member
      exact ⟨part, inside, ((each x member part partOf).keys key).mpr named⟩
  · intro oid
    show oid ∈ parts.flatMap blobOids ↔ _
    rw [List.mem_flatMap]
    constructor
    · rintro ⟨part, inside, found⟩
      obtain ⟨x, member, partOf⟩ := mem_of_mapM h inside
      exact ⟨x, member, ((each x member part partOf).blobs oid).mp found⟩
    · rintro ⟨x, member, named⟩
      obtain ⟨part, partOf, inside⟩ := mapM_mem h member
      exact ⟨part, inside, ((each x member part partOf).blobs oid).mpr named⟩

end Marks

namespace View

variable (view : View)

/-- A node key with those that `push_child_tree_node_keys` adds. -/
def treeNodeKeys : Nat → Key → Except String (List Key)
  | 0, _ => .error "tree nodes too deep"
  | depth + 1, key => do
    let node ← view.readNode key
    let below ← node.childNodes.mapM (fun child => treeNodeKeys depth child.2.nodeKey)
    .ok (key :: below.flatten)

def recordMarks (record : FileRecord) : Except String Marks :=
  let blobOids := ((payloadBlobRef record.payload).map Prod.fst).toList
  match payloadLargeRef record.payload with
  | none => .ok ⟨[], [], blobOids⟩
  | some (_, manifestKey, _) => do
    let large ← view.readLarge manifestKey
    .ok ⟨[manifestKey], large.chunks.map Prod.snd, blobOids⟩

def rootNodeKeys (depth : Nat) (rootNode : Option TreeNodeRef) : Except String (List Key) :=
  match rootNode with
  | none => .ok []
  | some node => view.treeNodeKeys depth node.nodeKey

def treeMarks (depth : Nat) (rootTree : RootSnapshot) : Except String Marks := do
  let tree ← view.readTree rootTree.treeKey
  let rootNode ← view.rootNodeKeys depth tree.rootNode
  let subtrees ← tree.subtreeNodes.values.mapM (fun node => view.treeNodeKeys depth node.nodeKey)
  let entries ← view.treeEntriesFromManifest depth tree
  let records ← entries.values.mapM view.recordMarks
  .ok (Marks.flatten
    (⟨rootTree.treeKey :: rootNode ++ subtrees.flatten, [], []⟩ :: records))

/-- One round of `local_object_keys_inner`. -/
def snapshotMarks (depth : Nat) (row : SnapshotRow) : Except String Marks := do
  let manifest ← view.loadSnapshotHeader row
  let trees ← manifest.rootTrees.values.mapM (view.treeMarks depth)
  -- the object is read where the row does not hold the manifest itself
  let own : Marks :=
    if row.manifestJson = .empty then ⟨[row.manifestKey], [], []⟩ else ⟨[], [row.manifestKey], []⟩
  .ok (Marks.flatten (own :: trees))

end View

namespace Database

variable (db : Database) (view : View)

def localObjectMarks (depth : Nat) : Except String Marks := do
  let marks ← db.snapshots.mapM (view.snapshotMarks depth)
  .ok (Marks.flatten marks)

def liveBlobs (marks : Marks) : List BlobRow :=
  db.blobs.filter (fun blob => blob.oid ∈ marks.blobOids)

def blobKeys (marks : Marks) : List Key :=
  ((db.liveBlobs marks).filter (fun blob => blob.packId.isNone)).map BlobRow.objectKey

def livePackIds (marks : Marks) : List String := (db.liveBlobs marks).filterMap BlobRow.packId

def packKeys (marks : Marks) : List Key :=
  (db.packs.filter (fun pack => pack.packId ∈ db.livePackIds marks)).flatMap
    (fun pack => [pack.packKey, pack.indexKey])

/-- The keys that the marks and the rows of their blobs name. -/
def liveKeys (marks : Marks) : List Key := marks.keys ++ db.blobKeys marks ++ db.packKeys marks

def localObjectKeys (depth : Nat) : Except String (List Key) := do
  let marks ← db.localObjectMarks view depth
  .ok (db.liveKeys marks)

end Database

inductive NodeReads (view : View) : Key → Key → Prop
  | self (key : Key) : NodeReads view key key
  | child {key k : Key} {node : TreeNodeManifest} {child : TreeNodeRef} :
      view key = some (.node node) → child ∈ node.childNodes.values →
      NodeReads view child.nodeKey k → NodeReads view key k

inductive TreeReads (view : View) (rootTree : RootSnapshot) : Key → Prop
  | tree : TreeReads view rootTree rootTree.treeKey
  | node {tree : TreeManifest} {rootNode : TreeNodeRef} {k : Key} :
      view rootTree.treeKey = some (.tree tree) → tree.entries.isEmpty →
      tree.rootNode = some rootNode → NodeReads view rootNode.nodeKey k →
      TreeReads view rootTree k

/-- The keys that the walk takes from a tree: the nodes too where the tree has its entries. -/
inductive TreeMentions (view : View) (rootTree : RootSnapshot) : Key → Prop
  | tree : TreeMentions view rootTree rootTree.treeKey
  | root {tree : TreeManifest} {rootNode : TreeNodeRef} {k : Key} :
      view rootTree.treeKey = some (.tree tree) → tree.rootNode = some rootNode →
      NodeReads view rootNode.nodeKey k → TreeMentions view rootTree k
  | subtree {tree : TreeManifest} {node : TreeNodeRef} {k : Key} :
      view rootTree.treeKey = some (.tree tree) → node ∈ tree.subtreeNodes.values →
      NodeReads view node.nodeKey k → TreeMentions view rootTree k

theorem TreeReads.names {view : View} {rootTree : RootSnapshot} {k : Key}
    (reads : TreeReads view rootTree k) : TreeMentions view rootTree k := by
  cases reads with
  | tree => exact .tree
  | node found _ root below => exact .root found root below

/-- The large manifest of a record and its chunks. -/
def View.RecordNames (view : View) (record : FileRecord) (key : Key) : Prop :=
  ∃ ref ∈ payloadLargeRef record.payload, key = ref.2.1 ∨
    ∃ manifest, view ref.2.1 = some (.large manifest) ∧ ∃ chunk ∈ manifest.chunks, chunk.2 = key

def View.TreeLists (view : View) (rootTree : RootSnapshot) (record : FileRecord) : Prop :=
  ∃ depth entries, view.loadRootTreeEntries depth rootTree = .ok entries ∧ record ∈ entries.values

def View.RowTree (view : View) (row : SnapshotRow) (rootTree : RootSnapshot) : Prop :=
  ∃ manifest, view.loadSnapshotHeader row = .ok manifest ∧ rootTree ∈ manifest.rootTrees.values

/-- A record that the tree of some snapshot lists. -/
def Database.Lists (db : Database) (view : View) (record : FileRecord) : Prop :=
  ∃ row ∈ db.snapshots, ∃ rootTree, view.RowTree row rootTree ∧ view.TreeLists rootTree record

def FileRecord.blobOid (record : FileRecord) : Option Oid :=
  (payloadBlobRef record.payload).map Prod.fst

/-- What the rows and the trees name: manifests, trees and nodes, the large objects of the records
that trees list, and for their blobs the file of the row or its pack. -/
inductive Database.Names (db : Database) (view : View) : Key → Prop
  | manifest {row : SnapshotRow} : row ∈ db.snapshots → Names db view row.manifestKey
  | tree {row : SnapshotRow} {rootTree : RootSnapshot} {k : Key} :
      row ∈ db.snapshots → view.RowTree row rootTree → TreeMentions view rootTree k →
      Names db view k
  | large {record : FileRecord} {k : Key} :
      db.Lists view record → view.RecordNames record k → Names db view k
  | blob {record : FileRecord} {blob : BlobRow} :
      db.Lists view record → record.blobOid = some blob.oid → blob ∈ db.blobs →
      blob.packId = none → Names db view blob.objectKey
  | pack {record : FileRecord} {blob : BlobRow} {pack : PackRow} {k : Key} :
      db.Lists view record → record.blobOid = some blob.oid → blob ∈ db.blobs →
      pack ∈ db.packs → blob.packId = some pack.packId → k ∈ [pack.packKey, pack.indexKey] →
      Names db view k

section Marking

variable {view : View} {db : Database} {depth : Nat} {marks : Marks}

theorem View.mem_treeNodeKeys {key k : Key} {keys : List Key}
    (h : view.treeNodeKeys depth key = .ok keys) : k ∈ keys ↔ NodeReads view key k := by
  constructor
  · intro inside
    induction depth generalizing key keys with
    | zero => cases h
    | succ depth ih =>
      obtain ⟨node, read, rest⟩ := of_bind h
      obtain ⟨below, children, result⟩ := of_bind rest
      cases result
      rcases List.mem_cons.mp inside with rfl | later
      · exact .self k
      · obtain ⟨keys, listed, found⟩ := List.mem_flatten.mp later
        obtain ⟨child, member, keysOf⟩ := mem_of_mapM children listed
        exact .child (View.readNode_ok.mp read) (List.mem_map_of_mem member) (ih keysOf found)
  · intro reads
    induction reads generalizing depth keys with
    | self key =>
      cases depth with
      | zero => cases h
      | succ depth =>
        obtain ⟨node, -, rest⟩ := of_bind h
        obtain ⟨below, -, result⟩ := of_bind rest
        cases result
        exact List.mem_cons_self
    | @child key k node child found member _ ih =>
      cases depth with
      | zero => cases h
      | succ depth =>
        obtain ⟨node', read, rest⟩ := of_bind h
        cases found.symm.trans (View.readNode_ok.mp read)
        obtain ⟨below, children, result⟩ := of_bind rest
        cases result
        obtain ⟨entry, inside, rfl⟩ := List.mem_map.mp member
        obtain ⟨keys, keysOf, mem⟩ := mapM_mem children inside
        exact List.mem_cons_of_mem _ (List.mem_flatten_of_mem mem (ih keysOf))

theorem View.recordMarks_hold {record : FileRecord} (h : view.recordMarks record = .ok marks) :
    marks.Hold (view.RecordNames record) (fun oid => record.blobOid = some oid) := by
  unfold View.recordMarks at h
  unfold View.RecordNames
  cases large : payloadLargeRef record.payload with
  | none =>
    simp only [large] at h
    cases h
    exact ⟨by simp [Marks.keys], fun oid => Option.mem_toList⟩
  | some ref =>
    simp only [large] at h
    obtain ⟨manifest, read, result⟩ := of_bind h
    cases result
    refine ⟨fun key => ?_, fun oid => Option.mem_toList⟩
    simp [Marks.keys, View.readLarge_ok.mp read, eq_comm]

theorem View.treeMarks_hold {rootTree : RootSnapshot}
    (h : view.treeMarks depth rootTree = .ok marks) :
    marks.Hold
      (fun key => TreeMentions view rootTree key ∨
        ∃ record, view.TreeLists rootTree record ∧ view.RecordNames record key)
      (fun oid => ∃ record, view.TreeLists rootTree record ∧ record.blobOid = some oid) := by
  obtain ⟨tree, readTree, h⟩ := of_bind h
  obtain ⟨nodes, rootNodes, h⟩ := of_bind h
  obtain ⟨subtrees, below, h⟩ := of_bind h
  obtain ⟨entries, expanded, h⟩ := of_bind h
  obtain ⟨records, marked, result⟩ := of_bind h
  cases result
  have there := View.readTree_ok.mp readTree
  have load : view.loadRootTreeEntries depth rootTree = .ok entries :=
    bind_ok ⟨tree, readTree, expanded⟩
  have lists : ∀ record, view.TreeLists rootTree record ↔ record ∈ entries.values := by
    intro record
    constructor
    · rintro ⟨depth', entries', load', inside⟩
      rwa [View.loadRootTreeEntries_unique load load']
    · exact fun inside => ⟨depth, entries, load, inside⟩
  have own : Marks.Hold ⟨rootTree.treeKey :: nodes ++ subtrees.flatten, [], []⟩
      (TreeMentions view rootTree) (fun _ => False) := by
    refine ⟨fun key => ?_, by simp⟩
    simp only [Marks.keys, List.append_nil, List.cons_append, List.mem_cons, List.mem_append]
    constructor
    · rintro (rfl | inRoot | inSubtree)
      · exact .tree
      · unfold View.rootNodeKeys at rootNodes
        split at rootNodes
        · cases rootNodes
          cases inRoot
        · next rootNode root => exact .root there root ((View.mem_treeNodeKeys rootNodes).mp inRoot)
      · obtain ⟨keys, listed, found⟩ := List.mem_flatten.mp inSubtree
        obtain ⟨node, member, keysOf⟩ := mem_of_mapM below listed
        exact .subtree there member ((View.mem_treeNodeKeys keysOf).mp found)
    · intro named
      cases named with
      | tree => exact Or.inl rfl
      | root found root reads =>
        cases there.symm.trans found
        simp only [View.rootNodeKeys, root] at rootNodes
        exact Or.inr (Or.inl ((View.mem_treeNodeKeys rootNodes).mpr reads))
      | subtree found member reads =>
        cases there.symm.trans found
        obtain ⟨keys, keysOf, listed⟩ := mapM_mem below member
        exact Or.inr (Or.inr (List.mem_flatten_of_mem listed
          ((View.mem_treeNodeKeys keysOf).mpr reads)))
  have all := own.cons (.of_mapM marked fun record _ part partOf => View.recordMarks_hold partOf)
  simp only [lists]
  exact ⟨all.keys, fun oid => (all.blobs oid).trans (by rw [false_or])⟩

theorem View.snapshotMarks_hold {row : SnapshotRow} (h : view.snapshotMarks depth row = .ok marks) :
    marks.Hold
      (fun key => key = row.manifestKey ∨ ∃ rootTree, view.RowTree row rootTree ∧
        (TreeMentions view rootTree key ∨
          ∃ record, view.TreeLists rootTree record ∧ view.RecordNames record key))
      (fun oid => ∃ rootTree, view.RowTree row rootTree ∧
        ∃ record, view.TreeLists rootTree record ∧ record.blobOid = some oid) := by
  obtain ⟨manifest, header, h⟩ := of_bind h
  obtain ⟨trees, marked, result⟩ := of_bind h
  cases result
  have rows : ∀ rootTree, view.RowTree row rootTree ↔ rootTree ∈ manifest.rootTrees.values := by
    intro rootTree
    constructor
    · rintro ⟨manifest', header', inside⟩
      rwa [Except.ok.inj (header.symm.trans header')]
    · exact fun inside => ⟨manifest, header, inside⟩
  have own : Marks.Hold (if row.manifestJson = .empty then ⟨[row.manifestKey], [], []⟩
      else ⟨[], [row.manifestKey], []⟩) (· = row.manifestKey) (fun _ => False) := by
    split <;> exact ⟨by simp [Marks.keys], by simp⟩
  have all := own.cons (.of_mapM marked fun rootTree _ part partOf => View.treeMarks_hold partOf)
  simp only [rows]
  exact ⟨all.keys, fun oid => (all.blobs oid).trans (by rw [false_or])⟩

theorem Database.localObjectMarks_hold (h : db.localObjectMarks view depth = .ok marks) :
    marks.Hold
      (fun key => ∃ row ∈ db.snapshots, key = row.manifestKey ∨
        ∃ rootTree, view.RowTree row rootTree ∧ (TreeMentions view rootTree key ∨
          ∃ record, view.TreeLists rootTree record ∧ view.RecordNames record key))
      (fun oid => ∃ row ∈ db.snapshots, ∃ rootTree, view.RowTree row rootTree ∧
        ∃ record, view.TreeLists rootTree record ∧ record.blobOid = some oid) := by
  obtain ⟨parts, marked, result⟩ := of_bind h
  cases result
  exact .of_mapM marked fun row _ part partOf => View.snapshotMarks_hold partOf

theorem Database.mem_blobOids_iff (h : db.localObjectMarks view depth = .ok marks) {oid : Oid} :
    oid ∈ marks.blobOids ↔ ∃ record, db.Lists view record ∧ record.blobOid = some oid := by
  rw [(localObjectMarks_hold h).blobs]
  constructor
  · rintro ⟨row, inside, rootTree, tree, record, listed, same⟩
    exact ⟨record, ⟨row, inside, rootTree, tree, listed⟩, same⟩
  · rintro ⟨record, ⟨row, inside, rootTree, tree, listed⟩, same⟩
    exact ⟨row, inside, rootTree, tree, record, listed, same⟩

theorem Database.mem_liveBlobs_iff (h : db.localObjectMarks view depth = .ok marks)
    {blob : BlobRow} :
    blob ∈ db.liveBlobs marks ↔
      blob ∈ db.blobs ∧ ∃ record, db.Lists view record ∧ record.blobOid = some blob.oid := by
  rw [Database.liveBlobs, List.mem_filter, decide_eq_true_eq, mem_blobOids_iff h]

/-- The walk finds exactly what the rows and the trees name. -/
theorem Database.mem_liveKeys_iff (h : db.localObjectMarks view depth = .ok marks) {key : Key} :
    key ∈ db.liveKeys marks ↔ db.Names view key := by
  simp only [Database.liveKeys, List.mem_append]
  rw [(localObjectMarks_hold h).keys]
  constructor
  · rintro ((⟨row, inside, rfl | ⟨rootTree, tree, named | ⟨record, listed, named⟩⟩⟩ | inBlobs) |
      inPacks)
    · exact .manifest inside
    · exact .tree inside tree named
    · exact .large ⟨row, inside, rootTree, tree, listed⟩ named
    · obtain ⟨blob, found, rfl⟩ := List.mem_map.mp inBlobs
      obtain ⟨live, loose⟩ := List.mem_filter.mp found
      obtain ⟨member, record, listed, same⟩ := (mem_liveBlobs_iff h).mp live
      exact .blob listed same member (Option.isNone_iff_eq_none.mp loose)
    · obtain ⟨pack, found, keyOf⟩ := List.mem_flatMap.mp inPacks
      obtain ⟨inside, live⟩ := List.mem_filter.mp found
      obtain ⟨blob, liveBlob, packed⟩ := List.mem_filterMap.mp (of_decide_eq_true live)
      obtain ⟨member, record, listed, same⟩ := (mem_liveBlobs_iff h).mp liveBlob
      exact .pack listed same member inside packed keyOf
  · intro named
    cases named with
    | manifest inside => exact Or.inl (Or.inl ⟨_, inside, Or.inl rfl⟩)
    | tree inside tree named => exact Or.inl (Or.inl ⟨_, inside, Or.inr ⟨_, tree, Or.inl named⟩⟩)
    | large listed named =>
      obtain ⟨row, inside, rootTree, tree, record⟩ := listed
      exact Or.inl (Or.inl ⟨row, inside, Or.inr ⟨rootTree, tree, Or.inr ⟨_, record, named⟩⟩⟩)
    | @blob record blob listed same member loose =>
      have live := (mem_liveBlobs_iff h).mpr ⟨member, record, listed, same⟩
      refine Or.inl (Or.inr (List.mem_map_of_mem (List.mem_filter.mpr ⟨live, ?_⟩)))
      rw [loose]
      rfl
    | @pack record blob pack _ listed same member inside packed keyOf =>
      have live := (mem_liveBlobs_iff h).mpr ⟨member, record, listed, same⟩
      refine Or.inr (List.mem_flatMap.mpr ⟨pack, List.mem_filter.mpr ⟨inside, ?_⟩, keyOf⟩)
      exact decide_eq_true (List.mem_filterMap.mpr ⟨blob, live, packed⟩)

/-- A walk that succeeds has read every tree. -/
theorem Database.treeLists_of_marks (h : db.localObjectMarks view depth = .ok marks)
    {row : SnapshotRow} (inside : row ∈ db.snapshots) :
    ∃ manifest, view.loadSnapshotHeader row = .ok manifest ∧
      ∀ rootTree ∈ manifest.rootTrees.values,
        ∃ entries, view.loadRootTreeEntries depth rootTree = .ok entries := by
  obtain ⟨parts, marked, -⟩ := of_bind h
  obtain ⟨part, partOf, -⟩ := mapM_mem marked inside
  obtain ⟨manifest, header, partOf⟩ := of_bind partOf
  obtain ⟨trees, treesOf, -⟩ := of_bind partOf
  refine ⟨manifest, header, fun rootTree member => ?_⟩
  obtain ⟨part, partOf, -⟩ := mapM_mem treesOf member
  obtain ⟨tree, readTree, partOf⟩ := of_bind partOf
  obtain ⟨nodes, -, partOf⟩ := of_bind partOf
  obtain ⟨subtrees, -, partOf⟩ := of_bind partOf
  obtain ⟨entries, expanded, -⟩ := of_bind partOf
  exact ⟨entries, bind_ok ⟨tree, readTree, expanded⟩⟩

end Marking

end Majutsu.Repo
