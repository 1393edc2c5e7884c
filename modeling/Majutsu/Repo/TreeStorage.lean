import Majutsu.Repo.Manifests

/-!
# Storing trees

A tree is written with its entries in it (version 1), or as a trie of nodes of
which each holds the entries of one directory (version 2). A version 1 tree may
have nodes beside its entries as well. What is written is a list of nodes; the
caller seals and stores them.
-/

namespace Majutsu.Repo

/-- Records by path, the last one of a path wins. -/
def recordsByPath (records : List FileRecord) : Entries FileRecord :=
  records.foldl (fun entries record => entries.insert record.path record) []

theorem recordsByPath_append (records : List FileRecord) (record : FileRecord) :
    recordsByPath (records ++ [record]) = (recordsByPath records).insert record.path record := by
  simp [recordsByPath]

theorem recordsByPath_eq_nil {records : List FileRecord} :
    recordsByPath records = [] ↔ records = [] := by
  rcases List.eq_nil_or_concat records with rfl | ⟨rest, record, rfl⟩
  · simp [recordsByPath]
  · simp [List.concat_eq_append, recordsByPath_append, Entries.insert]

namespace Entries

variable {α β : Type} {R : α → β → Prop}

/-- The same names, with related values. -/
def Related (R : α → β → Prop) : Entries α → Entries β → Prop :=
  List.Forall₂ (fun entry entry' => entry.1 = entry'.1 ∧ R entry.2 entry'.2)

variable {entries : Entries α} {entries' : Entries β}

theorem Related.filter (related : Related R entries entries') (keep : String → Bool) :
    Related R (entries.filter (fun entry => keep entry.1))
      (entries'.filter (fun entry => keep entry.1)) := by
  induction related with
  | nil => exact .nil
  | @cons entry entry' rest rest' head _ ih =>
    rw [List.filter_cons, List.filter_cons, ← head.1]
    by_cases kept : keep entry.1
    · rw [if_pos kept, if_pos kept]
      exact .cons head ih
    · rw [if_neg kept, if_neg kept]
      exact ih

theorem Related.insert (related : Related R entries entries') (name : String) {value : α}
    {value' : β} (h : R value value') :
    Related R (entries.insert name value) (entries'.insert name value') := by
  exact List.rel_append (related.filter (fun other => decide (other ≠ name)))
    (.cons ⟨rfl, h⟩ .nil)

theorem Related.get (related : Related R entries entries') (name : String) :
    Option.Rel R (entries.get name) (entries'.get name) := by
  induction related with
  | nil => exact .none
  | @cons entry entry' rest rest' head _ ih =>
    unfold Entries.get at ih ⊢
    rw [List.find?_cons, List.find?_cons, ← head.1]
    by_cases same : entry.1 = name
    · simpa [same] using Option.Rel.some head.2
    · simpa [same] using ih

theorem Related.names (related : Related R entries entries') :
    entries.map Prod.fst = entries'.map Prod.fst := by
  induction related with
  | nil => rfl
  | cons head _ ih => rw [List.map_cons, List.map_cons, head.1, ih]

end Entries

theorem Entries.get_eq_some_iff {α : Type} {entries : Entries α}
    (once : (entries.map Prod.fst).Nodup) {name : String} {value : α} :
    entries.get name = some value ↔ (name, value) ∈ entries := by
  induction entries with
  | nil => simp [Entries.get]
  | cons entry rest ih =>
    rw [List.map_cons, List.nodup_cons] at once
    unfold Entries.get at ih ⊢
    rw [List.find?_cons, List.mem_cons]
    by_cases same : entry.1 = name
    · have absent : (name, value) ∉ rest :=
        fun inside => once.1 (List.mem_map.mpr ⟨_, inside, same.symm⟩)
      simp [same, absent, Prod.ext_iff, eq_comm]
    · have other : (name, value) ≠ entry := fun eq => same (eq ▸ rfl)
      simpa [same, other] using ih once.2

section ByPath

/-- Entries under the paths of their records, each path once. -/
structure ByPath (entries : Entries FileRecord) : Prop where
  paths : ∀ entry ∈ entries, entry.2.path = entry.1
  once : (entries.map Prod.fst).Nodup

theorem ByPath.insert {entries : Entries FileRecord} (byPath : ByPath entries) (record : FileRecord) :
    ByPath (entries.insert record.path record) := by
  constructor
  · intro entry member
    rcases List.mem_append.mp member with old | new
    · exact byPath.paths entry (List.mem_of_mem_filter old)
    · obtain rfl := List.mem_singleton.mp new
      rfl
  · rw [Entries.insert, List.map_append, List.nodup_append]
    refine ⟨byPath.once.sublist (List.filter_sublist.map _), by simp, ?_⟩
    intro name old other new
    obtain ⟨entry, member, rfl⟩ := List.mem_map.mp old
    simp only [List.map_cons, List.map_nil, List.mem_singleton] at new
    have kept := (List.mem_filter.mp member).2
    simpa [new] using kept

theorem byPath_recordsByPath (records : List FileRecord) : ByPath (recordsByPath records) := by
  unfold recordsByPath
  have start : ByPath [] := ⟨by simp, by simp⟩
  generalize ([] : Entries FileRecord) = entries at start
  induction records generalizing entries with
  | nil => exact start
  | cons record rest ih => exact ih _ (start.insert record)

theorem recordsByPath_values {entries : Entries FileRecord} (byPath : ByPath entries) :
    recordsByPath entries.values = entries := by
  have append : ∀ (rest done : Entries FileRecord), ByPath (done ++ rest) →
      (Entries.values rest).foldl (fun entries record => entries.insert record.path record) done =
        done ++ rest := by
    intro rest
    induction rest with
    | nil => simp [Entries.values]
    | cons entry rest ih =>
      intro done both
      have path := both.paths entry (by simp)
      have new : ∀ other ∈ done, other.1 ≠ entry.1 := by
        have once := both.once
        rw [List.map_append, List.nodup_append] at once
        intro other member
        exact once.2.2 other.1 (List.mem_map_of_mem member) entry.1 (by simp)
      have same : done.filter (fun other => other.1 ≠ entry.1) = done :=
        List.filter_eq_self.mpr (fun other member => by simpa using new other member)
      have inserted : Entries.insert done entry.2.path entry.2 = done ++ [entry] := by
        rw [Entries.insert, path, same]
      show (Entries.values rest).foldl _ (Entries.insert done entry.2.path entry.2) = _
      rw [inserted, ih (done ++ [entry]) (by simpa using both)]
      simp
  exact append entries [] (by simpa using byPath)

theorem related_recordsByPath {R : FileRecord → FileRecord → Prop}
    (paths : ∀ {record record'}, R record record' → record.path = record'.path)
    {records records' : List FileRecord} (related : List.Forall₂ R records records') :
    Entries.Related R (recordsByPath records) (recordsByPath records') := by
  have both : ∀ {entries entries' : Entries FileRecord}, Entries.Related R entries entries' →
      Entries.Related R
        (records.foldl (fun entries record => entries.insert record.path record) entries)
        (records'.foldl (fun entries record => entries.insert record.path record) entries') := by
    induction related with
    | nil => exact fun h => h
    | @cons record record' rest rest' head _ ih =>
      intro entries entries' start
      have inserted := start.insert record.path head
      exact ih (by simpa only [paths head] using inserted)
  exact both .nil

end ByPath

/-- The environment variables that choose how trees are stored. -/
structure TreeFormat where
  v2 : Bool
  subtreeNodes : Bool
  minEntries : Nat

/-- Trees of these records are stored with the entries, not only with nodes. -/
def TreeFormat.ListsEntries (format : TreeFormat) (records : List FileRecord) : Prop :=
  format.v2 = false ∧ (format.subtreeNodes = true → 0 < format.minEntries ∨ records ≠ [])

instance (format : TreeFormat) (records : List FileRecord) :
    Decidable (format.ListsEntries records) :=
  inferInstanceAs (Decidable (_ ∧ (_ → _)))

/-- The identities and the object keys that a master key gives to trees and nodes. -/
structure TreeNames where
  treeId : Entries FileRecord → String
  nodeId : String → String → Entries FileRecord → Entries TreeNodeRef → String
  tree : TreeManifest → Key
  node : TreeNodeManifest → Key

mutual

inductive TreeNodeBuild where
  | node (entries : Entries FileRecord) (children : TreeNodeChildren)

inductive TreeNodeChildren where
  | nil
  | cons (name : String) (child : TreeNodeBuild) (rest : TreeNodeChildren)

end

/-- The components of `parent_path`. -/
def parentComponents (path : String) : List String :=
  match (path.toList.splitOn '/').dropLast with
  | [[]] => []
  | parts => parts.map String.ofList

def joinTreePath (parent child : String) : String :=
  if parent.isEmpty then child else parent ++ "/" ++ child

/-- `children.entry(component).or_default()`, changed in place. -/
def TreeNodeChildren.modify (name : String) (change : TreeNodeBuild → TreeNodeBuild) :
    TreeNodeChildren → TreeNodeChildren
  | .nil => .cons name (change (.node [] .nil)) .nil
  | .cons other child rest =>
    if other = name then .cons other (change child) rest
    else .cons other child (rest.modify name change)

namespace TreeNodeBuild

def insert (path : String) (record : FileRecord) : List String → TreeNodeBuild → TreeNodeBuild
  | [], .node entries children => .node (entries.insert path record) children
  | component :: rest, .node entries children =>
    .node entries (children.modify component (insert path record rest))

def fromEntries (entries : Entries FileRecord) : TreeNodeBuild :=
  entries.foldl (fun root entry => root.insert entry.1 entry.2 (parentComponents entry.1))
    (.node [] .nil)

end TreeNodeBuild

mutual

/-- `recount`. -/
def TreeNodeBuild.fileCount : TreeNodeBuild → Nat
  | .node entries children => entries.length + children.fileCount

def TreeNodeChildren.fileCount : TreeNodeChildren → Nat
  | .nil => 0
  | .cons _ child rest => child.fileCount + rest.fileCount

end

/-- The size of the entries of one node, at most `u64::MAX`. -/
def entriesSize (entries : Entries FileRecord) : Nat :=
  entries.values.foldl
    (fun sum record => if record.payload = .directory then sum else min (sum + record.size) (2 ^ 64 - 1))
    0

section

variable (names : TreeNames)

def TreeNames.nodeRef (node : TreeNodeManifest) : TreeNodeRef :=
  ⟨node.nodeId, names.node node, node.fileCount, node.totalSize⟩

variable (rootId : String) (threshold : Nat)

mutual

/-- The manifest of a node, and all manifests that are written for it. -/
def TreeNodeBuild.store (path : String) : TreeNodeBuild → TreeNodeManifest × List TreeNodeManifest
  | .node entries children =>
    let below := children.store path
    let manifest : TreeNodeManifest :=
      { nodeId := names.nodeId rootId path entries below.1
        rootId := rootId
        path := path
        fileCount := entries.length + (below.1.values.map TreeNodeRef.fileCount).sum
        totalSize :=
          (entriesSize entries + (below.1.values.map TreeNodeRef.totalSize).sum) % 2 ^ 64
        childNodes := below.1
        entries := entries }
    (manifest, below.2 ++ [manifest])

/-- Children below the threshold are left out. -/
def TreeNodeChildren.store (path : String) :
    TreeNodeChildren → Entries TreeNodeRef × List TreeNodeManifest
  | .nil => ([], [])
  | .cons name child rest =>
    let others := rest.store path
    if child.fileCount < threshold then others
    else
      let childPath := joinTreePath path name
      let stored := child.store childPath
      ((childPath, names.nodeRef stored.1) :: others.1, stored.2 ++ others.2)

end

end

def buildTreeManifest (names : TreeNames) (rootId : String) (records : List FileRecord) :
    TreeManifest :=
  ⟨1, names.treeId (recordsByPath records), rootId, none, [], recordsByPath records⟩

def attachSubtreeNodeIndexWithThreshold (names : TreeNames) (tree : TreeManifest)
    (threshold : Nat) : TreeManifest × List TreeNodeManifest :=
  if tree.entries.length < threshold then (tree, [])
  else
    let stored := (TreeNodeBuild.fromEntries tree.entries).store names tree.rootId threshold ""
    ({ tree with
      rootNode := some (names.nodeRef stored.1)
      subtreeNodes := stored.1.childNodes.filter (fun child => threshold ≤ child.2.fileCount) },
      stored.2)

/-- The tree in the form that is stored, and the nodes that were stored for it. -/
def prepareTreeManifestForStorage (names : TreeNames) (format : TreeFormat) (tree : TreeManifest) :
    TreeManifest × List TreeNodeManifest :=
  if format.v2 then
    let attached := attachSubtreeNodeIndexWithThreshold names tree 0
    ({ attached.1 with version := 2, entries := [] }, attached.2)
  else if format.subtreeNodes then attachSubtreeNodeIndexWithThreshold names tree format.minEntries
  else (tree, [])

end Majutsu.Repo
