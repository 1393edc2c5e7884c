import Majutsu.Repo.FileMaps
import Majutsu.Repo.TreeNodes

/-!
# Stored trees

A tree that was written, in either version, and the nodes that were written for it
are read as the map it was built from.
-/

namespace Majutsu.Repo

open Loops

/-- A relative path without empty, `.` and `..` components. -/
def NormalPath (path : String) : Prop :=
  ∀ part ∈ path.toList.splitOn '/', part ≠ [] ∧ part ≠ ['.'] ∧ part ≠ ['.', '.']

instance (path : String) : Decidable (NormalPath path) :=
  inferInstanceAs (Decidable (∀ part ∈ _, _))

theorem NormalPath.isFileRelative {path : String} (normal : NormalPath path) :
    stateRecordPathIsFileRelative path = true := by
  have filled : path ≠ "" := by
    rintro rfl
    exact (normal [] (by decide)).1 rfl
  have other : path ≠ "." := by
    rintro rfl
    exact (normal ['.'] (by decide)).2.1 rfl
  simp [stateRecordPathIsFileRelative, filled, other]

/-- A tree is in the store with the nodes that were written for it. -/
structure View.HasTree (view : View) (names : TreeNames) (rootTree : RootSnapshot)
    (stored : TreeManifest × List TreeNodeManifest) : Prop where
  tree : view rootTree.treeKey = some (.tree stored.1)
  nodes : view.HasNodes names stored.2

def TreeNodeBuild.ref (names : TreeNames) (rootId path : String) (trie : TreeNodeBuild) :
    TreeNodeRef :=
  names.nodeRef (trie.store names rootId 0 path).1

/-- A tree with all entries in nodes. -/
structure InNodes (names : TreeNames) (rootId : String) (entries : Entries FileRecord)
    (stored : TreeManifest × List TreeNodeManifest) : Prop where
  empty : stored.1.entries = []
  root : stored.1.rootNode = some ((TreeNodeBuild.fromEntries entries).ref names rootId "")
  nodes : stored.2 = ((TreeNodeBuild.fromEntries entries).store names rootId 0 "").2

theorem attachSubtreeNodeIndex_inNodes (names : TreeNames) (rootId : String)
    {entries : Entries FileRecord} (byPath : ByPath entries) (version : Nat) :
    let attached := attachSubtreeNodeIndexWithThreshold names
      (buildTreeManifest names rootId entries.values) 0
    InNodes names rootId entries
      ({ attached.1 with version := version, entries := [] }, attached.2) := by
  intro attached
  have unfolded : attached = attachSubtreeNodeIndexWithThreshold names
      (buildTreeManifest names rootId entries.values) 0 := rfl
  rw [attachSubtreeNodeIndexWithThreshold, if_neg (Nat.not_lt_zero _)] at unfolded
  rw [unfolded]
  simp only [buildTreeManifest, recordsByPath_values byPath]
  exact ⟨rfl, rfl, rfl⟩

theorem prepareTreeManifestForStorage_v2 (names : TreeNames) {format : TreeFormat}
    (v2 : format.v2 = true) (rootId : String) {entries : Entries FileRecord}
    (byPath : ByPath entries) :
    InNodes names rootId entries
      (prepareTreeManifestForStorage names format (buildTreeManifest names rootId entries.values)) := by
  rw [prepareTreeManifestForStorage, if_pos v2]
  exact attachSubtreeNodeIndex_inNodes names rootId byPath 2

section Readers

variable {names : TreeNames} {view : View} {rootId : String} {depth : Nat}
variable {entries : Entries FileRecord} {rootTree : RootSnapshot}
variable {stored : TreeManifest × List TreeNodeManifest}

theorem InNodes.expands (inNodes : InNodes names rootId entries stored) (byPath : ByPath entries)
    (hasTree : view.HasTree names rootTree stored)
    (deep : (TreeNodeBuild.fromEntries entries).height ≤ depth) :
    view.Expands depth rootTree (TreeNodeBuild.fromEntries entries).flat := by
  have under := (TreeNodeBuild.fromEntries_spec byPath.once).1
  have inStore := hasTree.nodes
  rw [inNodes.nodes] at inStore
  have read := View.readTree_ok.mpr hasTree.tree
  constructor
  · refine bind_ok ⟨_, read, ?_⟩
    rw [View.treeEntriesFromManifest, inNodes.empty, inNodes.root]
    refine bind_ok ⟨_, View.readNode_ok.mpr (inStore _ (TreeNodeBuild.store_mem _ _)), ?_⟩
    exact TreeNodeBuild.treeEntriesFromNode_store under inStore deep
  · refine bind_ok ⟨_, read, ?_⟩
    rw [inNodes.empty, inNodes.root]
    exact TreeNodeBuild.visitTreeNodeRecords_store inStore deep

theorem fileMap_perm {read : Entries FileRecord} (byPath : ByPath entries) (perm : read.Perm entries)
    (path : String) : (fileMap read.values).get path = (fileMap entries.values).get path := by
  have once : (read.map Prod.fst).Nodup := (perm.map Prod.fst).nodup_iff.mpr byPath.once
  have readByPath : ByPath read :=
    ⟨fun entry inside => byPath.paths entry (perm.mem_iff.mp inside), once⟩
  rw [fileMap_values readByPath, fileMap_values byPath]
  refine (Entries.perm_iff_get ?_ ?_).mp (perm.filter _) path
  · exact once.sublist (List.filter_sublist.map _)
  · exact byPath.once.sublist (List.filter_sublist.map _)

theorem fileMap_of_perm {read : Entries FileRecord} (byPath : ByPath entries)
    (normal : ∀ entry ∈ entries, NormalPath entry.1) (perm : read.Perm entries) (path : String) :
    (fileMap read.values).get path = entries.get path := by
  have all : entries.filter (fun entry => stateRecordPathIsFileRelative entry.1) = entries := by
    apply List.filter_eq_self.mpr
    intro entry inside
    exact (normal entry inside).isFileRelative
  rw [fileMap_perm byPath perm, fileMap_values byPath, all]

end Readers

end Majutsu.Repo
