import Mathlib.Data.List.Induction
import Majutsu.Repo.Repository
import Majutsu.Repo.TreeStorage

/-!
# File maps

The files of a root in a snapshot by their paths. The flat records of a root go
before its tree.
-/

namespace Majutsu.Repo

open Loops

def stateRecordPathIsFileRelative (path : String) : Bool := !path.isEmpty && path ≠ "."

/-- The records of files by path. -/
def fileMap (records : List FileRecord) : Entries FileRecord :=
  recordsByPath (records.filter (fun record => stateRecordPathIsFileRelative record.path))

def View.rootFileMap (view : View) (depth : Nat) (manifest : SnapshotManifest) (rootId : String) :
    Except String (Entries FileRecord) :=
  match manifest.roots.get rootId with
  | some records => .ok (fileMap records)
  | none =>
    match manifest.rootTrees.get rootId with
    | some rootTree => do
      let records ← view.visitTreeRecords depth rootTree
      .ok (fileMap records)
    | none => .ok []

theorem fileMap_eq (records : List FileRecord) :
    fileMap records =
      (recordsByPath records).filter (fun entry => stateRecordPathIsFileRelative entry.1) := by
  induction records using List.reverseRecOn with
  | nil => rfl
  | append_singleton records record ih =>
    unfold fileMap at ih ⊢
    rw [recordsByPath_append, Entries.insert, List.filter_append, List.filter_append]
    by_cases kept : stateRecordPathIsFileRelative record.path
    · have single : [record].filter (fun record => stateRecordPathIsFileRelative record.path) =
          [record] := by simp [kept]
      rw [single, recordsByPath_append, ih, Entries.insert, List.filter_filter, List.filter_filter]
      simp [kept, Bool.and_comm]
    · have single : [record].filter (fun record => stateRecordPathIsFileRelative record.path) =
          [] := by simp [kept]
      rw [single, List.append_nil, ih, List.filter_filter]
      have same : (recordsByPath records).filter (fun entry =>
          stateRecordPathIsFileRelative entry.1 && decide (entry.1 ≠ record.path)) =
          (recordsByPath records).filter (fun entry => stateRecordPathIsFileRelative entry.1) := by
        apply List.filter_congr
        intro entry _
        by_cases eq : entry.1 = record.path
        · simp [eq, kept]
        · simp [eq]
      have last : [(record.path, record)].filter
          (fun entry => stateRecordPathIsFileRelative entry.1) = [] := by simp [kept]
      rw [same, last, List.append_nil]

theorem fileMap_values {entries : Entries FileRecord} (byPath : ByPath entries) :
    fileMap entries.values =
      entries.filter (fun entry => stateRecordPathIsFileRelative entry.1) := by
  rw [fileMap_eq, recordsByPath_values byPath]

theorem fileMap_recordsByPath (records : List FileRecord) :
    fileMap (recordsByPath records).values = fileMap records := by
  rw [fileMap_values (byPath_recordsByPath records), fileMap_eq]

theorem related_fileMap {R : FileRecord → FileRecord → Prop}
    (paths : ∀ {record record'}, R record record' → record.path = record'.path)
    {records records' : List FileRecord} (related : List.Forall₂ R records records') :
    Entries.Related R (fileMap records) (fileMap records') := by
  rw [fileMap_eq, fileMap_eq]
  exact (related_recordsByPath paths related).filter stateRecordPathIsFileRelative

theorem byPath_fileMap (records : List FileRecord) : ByPath (fileMap records) :=
  byPath_recordsByPath _

section Hydration

variable {view : View} {depth : Nat}

theorem View.hydrateRoots_readable (stored manifest : SnapshotManifest)
    {rootTrees : Entries RootSnapshot} (once : (rootTrees.map Prod.fst).Nodup)
    (readable : ∀ root ∈ rootTrees, ∃ entries, view.loadRootTreeEntries depth root.2 = .ok entries) :
    ∃ result, view.hydrateRoots depth stored rootTrees manifest = .ok result ∧
      result.rootTrees = manifest.rootTrees ∧
      (∀ rootId, rootTrees.get rootId = none →
        result.roots.get rootId = manifest.roots.get rootId) ∧
      (∀ rootId rootTree, rootTrees.get rootId = some rootTree →
        ∃ entries, view.loadRootTreeEntries depth rootTree = .ok entries ∧
          result.roots.get rootId = some entries.values) := by
  induction rootTrees generalizing manifest with
  | nil => exact ⟨manifest, rfl, rfl, fun _ _ => rfl, fun _ _ h => by cases h⟩
  | cons root rest ih =>
    obtain ⟨rootId, rootTree⟩ := root
    obtain ⟨entries, load⟩ := readable _ List.mem_cons_self
    obtain ⟨tree, read, expand⟩ := of_bind load
    rw [List.map_cons, List.nodup_cons] at once
    obtain ⟨result, hydrated, trees, others, added⟩ := ih
      { manifest with roots := manifest.roots.insert rootId entries.values } once.2
      (fun root inside => readable root (List.mem_cons_of_mem _ inside))
    have new : Entries.get rest rootId = none := by
      apply Entries.get_eq_none
      intro entry inside same
      exact once.1 (List.mem_map.mpr ⟨entry, inside, same⟩)
    refine ⟨result, ?_, trees, ?_, ?_⟩
    · simp only [View.hydrateRoots, View.readTree_ok.mp read, expand]
      exact hydrated
    · intro other absent
      have ne : other ≠ rootId := by
        rintro rfl
        simp [Entries.get] at absent
      have absent' : Entries.get rest other = none := by
        simpa [Entries.get, List.find?_cons, ne.symm] using absent
      rw [others other absent', Entries.get_insert_of_ne ne]
    · intro other otherTree found
      by_cases same : other = rootId
      · subst same
        have eq : rootTree = otherTree := by simpa [Entries.get] using found
        exact ⟨entries, eq ▸ load, by rw [others other new, Entries.get_insert_self]⟩
      · apply added other otherTree
        simpa [Entries.get, List.find?_cons, Ne.symm same] using found

/-- Both readers of a tree give these entries. -/
def View.Expands (view : View) (depth : Nat) (rootTree : RootSnapshot)
    (entries : Entries FileRecord) : Prop :=
  view.loadRootTreeEntries depth rootTree = .ok entries ∧
    view.visitTreeRecords depth rootTree = .ok entries.values

theorem View.Expands.rootFileMap {manifest : SnapshotManifest} {rootId : String}
    {rootTree : RootSnapshot} {entries : Entries FileRecord}
    (expands : view.Expands depth rootTree entries) (unlisted : manifest.roots.get rootId = none)
    (found : manifest.rootTrees.get rootId = some rootTree) :
    view.rootFileMap depth manifest rootId = .ok (fileMap entries.values) := by
  simp only [View.rootFileMap, unlisted, found, expands.2]
  rfl

theorem View.rootFileMap_flat {manifest : SnapshotManifest} {rootId : String}
    {records : List FileRecord} (listed : manifest.roots.get rootId = some records) :
    view.rootFileMap depth manifest rootId = .ok (fileMap records) := by
  simp only [View.rootFileMap, listed]

theorem View.rootFileMap_hydrated (stored : SnapshotManifest) (compact : stored.roots = [])
    (once : (stored.rootTrees.map Prod.fst).Nodup)
    (readable : ∀ root ∈ stored.rootTrees, ∃ entries, view.Expands depth root.2 entries) :
    ∃ manifest, view.hydrateKnownCompactSnapshotManifestPayload depth stored = .ok manifest ∧
      ∀ rootId, view.rootFileMap depth manifest rootId = view.rootFileMap depth stored rootId := by
  unfold View.hydrateKnownCompactSnapshotManifestPayload
  split
  · exact ⟨stored, rfl, fun _ => rfl⟩
  split
  · exact ⟨stored, rfl, fun _ => rfl⟩
  obtain ⟨result, hydrated, trees, others, added⟩ := View.hydrateRoots_readable stored stored
    once (fun root inside => (readable root inside).imp fun _ h => h.1)
  refine ⟨result, hydrated, ?_⟩
  intro rootId
  cases found : stored.rootTrees.get rootId with
  | none => simp only [View.rootFileMap, trees, others rootId found]
  | some rootTree =>
    obtain ⟨entries, load, listed⟩ := added rootId rootTree found
    obtain ⟨entries', expands⟩ := readable _ (Entries.mem_of_get found)
    obtain rfl : entries' = entries := Except.ok.inj (expands.1.symm.trans load)
    have unlisted : stored.roots.get rootId = none := by rw [compact]; rfl
    rw [View.rootFileMap_flat listed, expands.rootFileMap unlisted found]

theorem View.expands_entries {rootTree : RootSnapshot} {tree : TreeManifest}
    (read : view.readTree rootTree.treeKey = .ok tree)
    (h : tree.entries.isEmpty = false ∨ tree.rootNode = none) :
    view.Expands depth rootTree tree.entries := by
  have plain : ∀ rootNode, tree.entries.isEmpty = true → tree.rootNode = some rootNode → False := by
    intro rootNode empty root
    rcases h with filled | none
    · rw [empty] at filled
      cases filled
    · rw [root] at none
      cases none
  constructor
  · refine bind_ok ⟨tree, read, ?_⟩
    unfold View.treeEntriesFromManifest
    split
    · next empty root => exact (plain _ empty root).elim
    · rfl
  · refine bind_ok ⟨tree, read, ?_⟩
    split
    · next empty root => exact (plain _ empty root).elim
    · rfl

theorem prepareTreeManifestForStorage_lists {names names' : TreeNames} {format : TreeFormat}
    (rootId : String) {records : List FileRecord} (lists : format.ListsEntries records) :
    let tree :=
      (prepareTreeManifestForStorage names format (buildTreeManifest names' rootId records)).1
    tree.entries = recordsByPath records ∧
      (tree.entries.isEmpty = false ∨ tree.rootNode = none) := by
  intro tree
  have prepared : tree =
      (prepareTreeManifestForStorage names format (buildTreeManifest names' rootId records)).1 := rfl
  rw [prepareTreeManifestForStorage, if_neg (by simp [lists.1])] at prepared
  by_cases subtree : format.subtreeNodes = true
  · rw [if_pos subtree, attachSubtreeNodeIndexWithThreshold] at prepared
    split at prepared
    · rw [prepared]
      exact ⟨rfl, Or.inr rfl⟩
    · next few =>
      rw [prepared]
      refine ⟨rfl, Or.inl ?_⟩
      show (recordsByPath records).isEmpty = false
      rw [List.isEmpty_eq_false_iff]
      rcases lists.2 subtree with positive | filled
      · rw [← List.length_pos_iff]
        simp only [buildTreeManifest] at few
        omega
      · exact mt recordsByPath_eq_nil.mp filled
  · rw [if_neg subtree] at prepared
    rw [prepared]
    exact ⟨rfl, Or.inr rfl⟩

theorem TreeNodeBuild.mem_store (names : TreeNames) (rootId : String) (threshold : Nat)
    (path : String) (build : TreeNodeBuild) :
    (build.store names rootId threshold path).1 ∈ (build.store names rootId threshold path).2 := by
  cases build
  simp [TreeNodeBuild.store]

theorem prepareTreeManifestForStorage_node {names names' : TreeNames} {format : TreeFormat}
    (rootId : String) {records : List FileRecord} (unlisted : ¬ format.ListsEntries records) :
    let prepared :=
      prepareTreeManifestForStorage names format (buildTreeManifest names' rootId records)
    prepared.1.entries = [] ∧
      ∃ node ∈ prepared.2, prepared.1.rootNode = some (names.nodeRef node) := by
  intro prepared
  have eq : prepared =
      prepareTreeManifestForStorage names format (buildTreeManifest names' rootId records) := rfl
  rw [prepareTreeManifestForStorage] at eq
  by_cases v2 : format.v2 = true
  · rw [if_pos v2, attachSubtreeNodeIndexWithThreshold, if_neg (Nat.not_lt_zero _)] at eq
    rw [eq]
    exact ⟨rfl, _, TreeNodeBuild.mem_store _ _ _ _ _, rfl⟩
  · simp only [TreeFormat.ListsEntries, Bool.eq_false_iff.mpr v2, true_and, Classical.not_imp,
      not_or, Nat.not_lt, ne_eq, not_not] at unlisted
    obtain ⟨subtree, few, rfl⟩ := unlisted
    rw [if_neg v2, if_pos subtree, attachSubtreeNodeIndexWithThreshold,
      if_neg (by rw [Nat.le_zero.mp few]; exact Nat.not_lt_zero _)] at eq
    rw [eq]
    exact ⟨rfl, _, TreeNodeBuild.mem_store _ _ _ _ _, rfl⟩

/-- A tree cannot be read if it has its entries in nodes and its root node cannot be read. -/
theorem View.unreadable_of_node (depth : Nat) {rootTree : RootSnapshot} {tree : TreeManifest}
    {rootNode : TreeNodeRef} (read : view.readTree rootTree.treeKey = .ok tree)
    (empty : tree.entries = []) (root : tree.rootNode = some rootNode)
    (lost : view rootNode.nodeKey = none) :
    (∀ entries, view.loadRootTreeEntries depth rootTree ≠ .ok entries) ∧
      ∀ records, view.visitTreeRecords depth rootTree ≠ .ok records := by
  have unread : ∀ node, view.readNode rootNode.nodeKey ≠ .ok node := by
    intro node readNode
    rw [View.readNode_ok, lost] at readNode
    cases readNode
  constructor
  · intro entries load
    obtain ⟨tree', read', expand⟩ := of_bind load
    obtain rfl : tree = tree' := Except.ok.inj (read.symm.trans read')
    simp only [View.treeEntriesFromManifest, empty, root] at expand
    obtain ⟨node, readNode, -⟩ := of_bind expand
    exact unread node readNode
  · intro records visited
    obtain ⟨tree', read', visit⟩ := of_bind visited
    obtain rfl : tree = tree' := Except.ok.inj (read.symm.trans read')
    simp only [empty, root] at visit
    cases depth with
    | zero => cases visit
    | succ depth =>
      obtain ⟨node, readNode, -⟩ := of_bind visit
      exact unread node readNode

theorem View.hydrateRoots_cases {stored manifest result : SnapshotManifest}
    {rootTrees : Entries RootSnapshot}
    (h : view.hydrateRoots depth stored rootTrees manifest = .ok result) :
    result = stored ∨
      ∀ root ∈ rootTrees, ∃ entries, view.loadRootTreeEntries depth root.2 = .ok entries := by
  induction rootTrees generalizing manifest with
  | nil => exact Or.inr (by simp)
  | cons root rest ih =>
    unfold View.hydrateRoots at h
    split at h
    · exact Or.inl (Except.ok.inj h).symm
    · next tree found =>
      obtain ⟨entries, expand, later⟩ := of_bind h
      refine (ih later).imp_right fun others => List.forall_mem_cons.mpr ⟨?_, others⟩
      exact ⟨entries, bind_ok ⟨tree, View.readTree_ok.mpr found, expand⟩⟩
    · cases h

/-- A compact manifest whose file maps can be read has a readable tree for each root. -/
theorem View.readable_of_rootFileMap {stored manifest : SnapshotManifest}
    (compact : stored.roots = []) (once : (stored.rootTrees.map Prod.fst).Nodup)
    (h : view.hydrateKnownCompactSnapshotManifestPayload depth stored = .ok manifest)
    (maps : ∀ rootId, ∃ files, view.rootFileMap depth manifest rootId = .ok files)
    {root : String × RootSnapshot} (inside : root ∈ stored.rootTrees) :
    (∃ entries, view.loadRootTreeEntries depth root.2 = .ok entries) ∨
      ∃ records, view.visitTreeRecords depth root.2 = .ok records := by
  have either : manifest = stored ∨
      ∃ entries, view.loadRootTreeEntries depth root.2 = .ok entries := by
    unfold View.hydrateKnownCompactSnapshotManifestPayload at h
    split at h
    · exact Or.inl (Except.ok.inj h).symm
    split at h
    · exact Or.inl (Except.ok.inj h).symm
    exact (View.hydrateRoots_cases h).imp_right fun all => all root inside
  rcases either with rfl | load
  · obtain ⟨files, map⟩ := maps root.1
    have found := (Entries.get_eq_some_iff once).mpr inside
    have unlisted : manifest.roots.get root.1 = none := by rw [compact]; rfl
    simp only [View.rootFileMap, unlisted, found] at map
    obtain ⟨records, visited, -⟩ := of_bind map
    exact Or.inr ⟨records, visited⟩
  · exact Or.inl load

end Hydration

end Majutsu.Repo
