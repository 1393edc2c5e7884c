import Mathlib.Data.List.Infix
import Mathlib.Data.List.Nodup
import Majutsu.Repo.TreeStorage

/-!
# Trees of nodes

A map of records becomes a trie by the directories of its paths. Every node holds
the records of one directory and refers to the nodes of the directories below it
by key. Reading the nodes back, from any store that has them, gives the map again,
and under keys without collisions the key of the root node stands for the map.
-/

namespace Majutsu.Repo

open Loops

mutual

/-- The entries of a trie, those of a node before those below it. -/
def TreeNodeBuild.flat : TreeNodeBuild → Entries FileRecord
  | .node entries children => entries ++ children.flat

def TreeNodeChildren.flat : TreeNodeChildren → Entries FileRecord
  | .nil => []
  | .cons _ child rest => child.flat ++ rest.flat

end

def TreeNodeChildren.toList : TreeNodeChildren → List (String × TreeNodeBuild)
  | .nil => []
  | .cons name child rest => (name, child) :: rest.toList

mutual

/-- A trie of the directory `dir`: its entries are those of `dir`, and its children are tries of
directories below, one for each name. -/
def TreeNodeBuild.Under (dir : List String) : TreeNodeBuild → Prop
  | .node entries children =>
    (∀ entry ∈ entries, parentComponents entry.1 = dir) ∧ (entries.map Prod.fst).Nodup ∧
      children.Under dir

def TreeNodeChildren.Under (dir : List String) : TreeNodeChildren → Prop
  | .nil => True
  | .cons name child rest =>
    child.Under (dir ++ [name]) ∧ (∀ other ∈ rest.toList, other.1 ≠ name) ∧ rest.Under dir

end

theorem TreeNodeChildren.mem_flat {children : TreeNodeChildren} {entry : String × FileRecord} :
    entry ∈ children.flat ↔ ∃ child ∈ children.toList, entry ∈ child.2.flat := by
  match children with
  | .nil => simp [TreeNodeChildren.flat, TreeNodeChildren.toList]
  | .cons name child rest =>
    rw [TreeNodeChildren.flat, TreeNodeChildren.toList, List.mem_append, TreeNodeChildren.mem_flat]
    simp

theorem TreeNodeChildren.Under.child {dir : List String} {children : TreeNodeChildren}
    (under : children.Under dir) {child : String × TreeNodeBuild}
    (member : child ∈ children.toList) : child.2.Under (dir ++ [child.1]) := by
  match children with
  | .nil => cases member
  | .cons name first rest =>
    rcases List.mem_cons.mp member with rfl | later
    · exact under.1
    · exact TreeNodeChildren.Under.child under.2.2 later

theorem TreeNodeChildren.Under.names {dir : List String} {children : TreeNodeChildren}
    (under : children.Under dir) : (children.toList.map Prod.fst).Nodup := by
  match children with
  | .nil => exact List.nodup_nil
  | .cons name child rest =>
    rw [TreeNodeChildren.toList, List.map_cons, List.nodup_cons]
    refine ⟨?_, TreeNodeChildren.Under.names under.2.2⟩
    intro again
    obtain ⟨other, member, same⟩ := List.mem_map.mp again
    exact under.2.1 other member same

mutual

theorem TreeNodeBuild.Under.parent {dir : List String} {trie : TreeNodeBuild}
    (under : trie.Under dir) {entry : String × FileRecord} (member : entry ∈ trie.flat) :
    dir <+: parentComponents entry.1 := by
  match trie with
  | .node entries children =>
    rcases List.mem_append.mp member with own | below
    · rw [under.1 entry own]
    · obtain ⟨child, -, start⟩ := TreeNodeChildren.Under.parent under.2.2 below
      exact (List.prefix_append dir [child.1]).trans start

theorem TreeNodeChildren.Under.parent {dir : List String} {children : TreeNodeChildren}
    (under : children.Under dir) {entry : String × FileRecord} (member : entry ∈ children.flat) :
    ∃ child ∈ children.toList, dir ++ [child.1] <+: parentComponents entry.1 := by
  match children with
  | .nil => cases member
  | .cons name child rest =>
    rcases List.mem_append.mp member with first | later
    · exact ⟨(name, child), List.mem_cons_self, TreeNodeBuild.Under.parent under.1 first⟩
    · obtain ⟨other, inside, start⟩ := TreeNodeChildren.Under.parent under.2.2 later
      exact ⟨other, List.mem_cons_of_mem _ inside, start⟩

end

theorem name_eq_of_parent {dir parent : List String} {name other : String}
    (first : dir ++ [name] <+: parent) (second : dir ++ [other] <+: parent) : name = other := by
  obtain ⟨rest, rfl⟩ := first
  obtain ⟨rest', same⟩ := second
  simp only [List.append_assoc, List.append_cancel_left_eq, List.cons_append, List.nil_append,
    List.cons.injEq] at same
  exact same.1.symm

mutual

theorem TreeNodeBuild.Under.nodup {dir : List String} {trie : TreeNodeBuild}
    (under : trie.Under dir) : (trie.flat.map Prod.fst).Nodup := by
  match trie with
  | .node entries children =>
    rw [TreeNodeBuild.flat, List.map_append, List.nodup_append]
    refine ⟨under.2.1, TreeNodeChildren.Under.nodup under.2.2, ?_⟩
    rintro path own other below rfl
    obtain ⟨entry, inside, rfl⟩ := List.mem_map.mp own
    obtain ⟨entry', inside', same⟩ := List.mem_map.mp below
    obtain ⟨child, -, start⟩ := TreeNodeChildren.Under.parent under.2.2 inside'
    rw [same, under.1 entry inside] at start
    have length := start.length_le
    rw [List.length_append, List.length_singleton] at length
    omega

theorem TreeNodeChildren.Under.nodup {dir : List String} {children : TreeNodeChildren}
    (under : children.Under dir) : (children.flat.map Prod.fst).Nodup := by
  match children with
  | .nil => exact List.nodup_nil
  | .cons name child rest =>
    rw [TreeNodeChildren.flat, List.map_append, List.nodup_append]
    refine ⟨TreeNodeBuild.Under.nodup under.1, TreeNodeChildren.Under.nodup under.2.2, ?_⟩
    rintro path first other later rfl
    obtain ⟨entry, inside, rfl⟩ := List.mem_map.mp first
    obtain ⟨entry', inside', same⟩ := List.mem_map.mp later
    obtain ⟨other, member, start⟩ := TreeNodeChildren.Under.parent under.2.2 inside'
    rw [same] at start
    have name_eq := name_eq_of_parent (TreeNodeBuild.Under.parent under.1 inside) start
    exact under.2.1 other member name_eq.symm

end

theorem TreeNodeChildren.toList_modify_name {name : String}
    {change : TreeNodeBuild → TreeNodeBuild} {children : TreeNodeChildren}
    {other : String × TreeNodeBuild} (member : other ∈ (children.modify name change).toList) :
    other.1 = name ∨ ∃ old ∈ children.toList, old.1 = other.1 := by
  match children with
  | .nil =>
    rw [TreeNodeChildren.modify, TreeNodeChildren.toList] at member
    rcases List.mem_cons.mp member with rfl | none
    · exact Or.inl rfl
    · cases none
  | .cons first child rest =>
    rw [TreeNodeChildren.modify] at member
    split at member
    · next same =>
      rcases List.mem_cons.mp member with rfl | later
      · exact Or.inl same
      · exact Or.inr ⟨other, List.mem_cons_of_mem _ later, rfl⟩
    · rcases List.mem_cons.mp member with rfl | later
      · exact Or.inr ⟨_, List.mem_cons_self, rfl⟩
      · rcases TreeNodeChildren.toList_modify_name later with new | ⟨old, inside, eq⟩
        · exact Or.inl new
        · exact Or.inr ⟨old, List.mem_cons_of_mem _ inside, eq⟩

theorem TreeNodeChildren.Under.modify (entry : String × FileRecord) {dir : List String}
    {name : String} {change : TreeNodeBuild → TreeNodeBuild}
    (step : ∀ child : TreeNodeBuild, child.Under (dir ++ [name]) → entry.1 ∉ child.flat.map Prod.fst →
      (change child).Under (dir ++ [name]) ∧ (change child).flat.Perm (entry :: child.flat))
    {children : TreeNodeChildren} (under : children.Under dir)
    (new : entry.1 ∉ children.flat.map Prod.fst) :
    (children.modify name change).Under dir ∧
      (children.modify name change).flat.Perm (entry :: children.flat) := by
  match children with
  | .nil =>
    have empty : (TreeNodeBuild.node [] .nil).Under (dir ++ [name]) :=
      ⟨by simp, by simp, trivial⟩
    obtain ⟨kept, flat⟩ := step _ empty (by simp [TreeNodeBuild.flat, TreeNodeChildren.flat])
    refine ⟨⟨kept, by simp [TreeNodeChildren.toList], trivial⟩, ?_⟩
    simpa [TreeNodeChildren.modify, TreeNodeChildren.flat, TreeNodeBuild.flat] using flat
  | .cons first child rest =>
    rw [TreeNodeChildren.flat, List.map_append, List.mem_append, not_or] at new
    rw [TreeNodeChildren.modify]
    by_cases same : first = name
    · subst same
      obtain ⟨kept, flat⟩ := step child under.1 new.1
      rw [if_pos rfl]
      exact ⟨⟨kept, under.2⟩, flat.append_right rest.flat⟩
    · obtain ⟨kept, flat⟩ := TreeNodeChildren.Under.modify entry step under.2.2 new.2
      rw [if_neg same]
      refine ⟨⟨under.1, ?_, kept⟩, ?_⟩
      · intro other member eq
        rcases TreeNodeChildren.toList_modify_name member with renamed | ⟨old, inside, eq'⟩
        · exact same (eq.symm.trans renamed)
        · exact under.2.1 old inside (eq'.trans eq)
      · exact (flat.append_left child.flat).trans List.perm_middle

theorem TreeNodeBuild.Under.insert {path : String} (record : FileRecord) (components : List String)
    {dir : List String} {trie : TreeNodeBuild} (under : trie.Under dir)
    (parent : parentComponents path = dir ++ components) (new : path ∉ trie.flat.map Prod.fst) :
    (trie.insert path record components).Under dir ∧
      (trie.insert path record components).flat.Perm ((path, record) :: trie.flat) := by
  induction components generalizing dir trie with
  | nil =>
    obtain ⟨entries, children⟩ := trie
    rw [TreeNodeBuild.flat, List.map_append, List.mem_append, not_or] at new
    have kept : entries.filter (fun entry => entry.1 ≠ path) = entries := by
      apply List.filter_eq_self.mpr
      intro entry inside
      have ne : entry.1 ≠ path := fun same => new.1 (List.mem_map.mpr ⟨entry, inside, same⟩)
      simpa using ne
    have inserted : Entries.insert entries path record = entries ++ [(path, record)] := by
      rw [Entries.insert, kept]
    rw [TreeNodeBuild.insert, inserted]
    refine ⟨⟨?_, ?_, under.2.2⟩, ?_⟩
    · intro entry inside
      rcases List.mem_append.mp inside with old | last
      · exact under.1 entry old
      · obtain rfl := List.mem_singleton.mp last
        simpa using parent
    · rw [List.map_append, List.nodup_append]
      refine ⟨under.2.1, by simp, ?_⟩
      rintro other old _ last rfl
      simp only [List.map_cons, List.map_nil, List.mem_singleton] at last
      exact new.1 (last ▸ old)
    · rw [TreeNodeBuild.flat, TreeNodeBuild.flat, List.append_assoc]
      exact List.perm_middle
  | cons component rest ih =>
    obtain ⟨entries, children⟩ := trie
    rw [TreeNodeBuild.flat, List.map_append, List.mem_append, not_or] at new
    have step : ∀ child : TreeNodeBuild, child.Under (dir ++ [component]) →
        path ∉ child.flat.map Prod.fst →
        (child.insert path record rest).Under (dir ++ [component]) ∧
          (child.insert path record rest).flat.Perm ((path, record) :: child.flat) :=
      fun child below absent => ih below (by simpa using parent) absent
    obtain ⟨kept, flat⟩ := TreeNodeChildren.Under.modify (path, record) step under.2.2 new.2
    rw [TreeNodeBuild.insert]
    refine ⟨⟨under.1, under.2.1, kept⟩, ?_⟩
    rw [TreeNodeBuild.flat, TreeNodeBuild.flat]
    exact (flat.append_left entries).trans List.perm_middle

theorem TreeNodeBuild.fromEntries_spec {entries : Entries FileRecord}
    (once : (entries.map Prod.fst).Nodup) :
    (TreeNodeBuild.fromEntries entries).Under [] ∧
      (TreeNodeBuild.fromEntries entries).flat.Perm entries := by
  have loop : ∀ (rest done : Entries FileRecord) (trie : TreeNodeBuild), trie.Under [] →
      trie.flat.Perm done → ((done ++ rest).map Prod.fst).Nodup →
      (rest.foldl (fun root entry => root.insert entry.1 entry.2 (parentComponents entry.1))
          trie).Under [] ∧
        (rest.foldl (fun root entry => root.insert entry.1 entry.2 (parentComponents entry.1))
          trie).flat.Perm (done ++ rest) := by
    intro rest
    induction rest with
    | nil =>
      intro done trie under flat _
      exact ⟨under, by simpa using flat⟩
    | cons entry rest ih =>
      intro done trie under flat once
      have new : entry.1 ∉ trie.flat.map Prod.fst := by
        rw [(flat.map Prod.fst).mem_iff]
        rw [List.map_append, List.nodup_append] at once
        exact fun inside => once.2.2 entry.1 inside entry.1 (by simp) rfl
      obtain ⟨kept, more⟩ :=
        TreeNodeBuild.Under.insert entry.2 (parentComponents entry.1) under rfl new
      have moved : (entry :: done).Perm (done ++ [entry]) := by
        simpa using (List.perm_append_singleton entry done).symm
      have result := ih (done ++ [entry]) _ kept ((more.trans (flat.cons entry)).trans moved)
        (by simpa using once)
      simpa using result
  have start : (TreeNodeBuild.node [] .nil).Under [] := ⟨by simp, by simp, trivial⟩
  exact loop entries [] (.node [] .nil) start (List.Perm.refl _) once

theorem Entries.extend_of_disjoint {α : Type} {entries new : Entries α}
    (disjoint : ∀ entry ∈ entries, entry.1 ∉ new.map Prod.fst) :
    entries.extend new = entries ++ new := by
  have kept : entries.filter (fun entry => !new.any (fun other => other.1 = entry.1)) = entries := by
    apply List.filter_eq_self.mpr
    intro entry inside
    rw [Bool.not_eq_true', List.any_eq_false]
    intro other member
    have ne : other.1 ≠ entry.1 :=
      fun same => disjoint entry inside (List.mem_map.mpr ⟨other, member, same⟩)
    simpa using ne
  rw [Entries.extend, kept]

mutual

def TreeNodeBuild.height : TreeNodeBuild → Nat
  | .node _ children => children.height + 1

def TreeNodeChildren.height : TreeNodeChildren → Nat
  | .nil => 0
  | .cons _ child rest => max child.height rest.height

end

/-- A store that has these nodes. -/
def View.HasNodes (view : View) (names : TreeNames) (nodes : List TreeNodeManifest) : Prop :=
  ∀ node ∈ nodes, view (names.node node) = some (.node node)

instance (view : View) (names : TreeNames) (nodes : List TreeNodeManifest) :
    Decidable (view.HasNodes names nodes) :=
  inferInstanceAs (Decidable (∀ node ∈ nodes, _))

section Reading

variable {names : TreeNames} {rootId : String} {view : View}

theorem TreeNodeChildren.store_cons (name : String) (child : TreeNodeBuild)
    (rest : TreeNodeChildren) (path : String) :
    (TreeNodeChildren.cons name child rest).store names rootId 0 path =
      ((joinTreePath path name,
          names.nodeRef (child.store names rootId 0 (joinTreePath path name)).1) ::
        (rest.store names rootId 0 path).1,
        (child.store names rootId 0 (joinTreePath path name)).2 ++
          (rest.store names rootId 0 path).2) := by
  rw [TreeNodeChildren.store, if_neg (Nat.not_lt_zero _)]

theorem TreeNodeBuild.store_mem (trie : TreeNodeBuild) (path : String) :
    (trie.store names rootId 0 path).1 ∈ (trie.store names rootId 0 path).2 := by
  obtain ⟨entries, children⟩ := trie
  rw [TreeNodeBuild.store]
  exact List.mem_append_right _ List.mem_cons_self

mutual

theorem TreeNodeBuild.treeEntriesFromNode_store {dir : List String} {path : String} {depth : Nat}
    {trie : TreeNodeBuild} (under : trie.Under dir)
    (stored : view.HasNodes names (trie.store names rootId 0 path).2) (deep : trie.height ≤ depth) :
    view.treeEntriesFromNode depth (trie.store names rootId 0 path).1 = .ok trie.flat := by
  match trie, depth with
  | .node entries children, 0 => exact absurd deep (by simp [TreeNodeBuild.height])
  | .node entries children, depth + 1 =>
    rw [TreeNodeBuild.store, View.treeEntriesFromNode]
    apply TreeNodeChildren.treeEntriesFromNode_store under.2.2
    · intro node inside
      exact stored node (List.mem_append_left _ inside)
    · exact Nat.le_of_succ_le_succ deep
    · intro entry own below
      have once := (TreeNodeBuild.Under.nodup under)
      rw [TreeNodeBuild.flat, List.map_append, List.nodup_append] at once
      exact once.2.2 entry.1 (List.mem_map_of_mem own) entry.1 below rfl

theorem TreeNodeChildren.treeEntriesFromNode_store {dir : List String} {path : String}
    {depth : Nat} {children : TreeNodeChildren} (under : children.Under dir)
    (stored : view.HasNodes names (children.store names rootId 0 path).2)
    (deep : children.height ≤ depth) {done : Entries FileRecord}
    (disjoint : ∀ entry ∈ done, entry.1 ∉ children.flat.map Prod.fst) :
    (children.store names rootId 0 path).1.foldlM
      (fun entries child => do
        let childNode ← view.readNode child.2.nodeKey
        let below ← view.treeEntriesFromNode depth childNode
        .ok (entries.extend below)) done = .ok (done ++ children.flat) := by
  match children with
  | .nil => simp [TreeNodeChildren.store, TreeNodeChildren.flat, pure, Except.pure]
  | .cons name child rest =>
    rw [TreeNodeChildren.store_cons] at stored ⊢
    have childStored : view.HasNodes names (child.store names rootId 0 (joinTreePath path name)).2 :=
      fun node inside => stored node (List.mem_append_left _ inside)
    have restStored : view.HasNodes names (rest.store names rootId 0 path).2 :=
      fun node inside => stored node (List.mem_append_right _ inside)
    have once := TreeNodeChildren.Under.nodup under
    rw [TreeNodeChildren.flat, List.map_append, List.nodup_append] at once
    rw [TreeNodeChildren.flat, List.map_append] at disjoint
    have extended : done.extend child.flat = done ++ child.flat :=
      Entries.extend_of_disjoint
        (fun entry inside => fun below => disjoint entry inside (List.mem_append_left _ below))
    rw [List.foldlM_cons]
    apply bind_ok
    refine ⟨done ++ child.flat, ?_, ?_⟩
    · apply bind_ok
      refine ⟨_, View.readNode_ok.mpr (childStored _ (child.store_mem _)), ?_⟩
      apply bind_ok
      refine ⟨child.flat, ?_, by rw [extended]⟩
      apply TreeNodeBuild.treeEntriesFromNode_store under.1 childStored
      exact Nat.le_trans (Nat.le_max_left _ _) deep
    · rw [TreeNodeChildren.flat, ← List.append_assoc]
      apply TreeNodeChildren.treeEntriesFromNode_store under.2.2 restStored
      · exact Nat.le_trans (Nat.le_max_right _ _) deep
      · intro entry inside below
        rcases List.mem_append.mp inside with old | new
        · exact disjoint entry old (List.mem_append_right _ below)
        · exact once.2.2 entry.1 (List.mem_map_of_mem new) entry.1 below rfl

end

mutual

theorem TreeNodeBuild.visitTreeNodeRecords_store {path : String} {depth : Nat}
    {trie : TreeNodeBuild} (stored : view.HasNodes names (trie.store names rootId 0 path).2)
    (deep : trie.height ≤ depth) :
    view.visitTreeNodeRecords depth (names.node (trie.store names rootId 0 path).1) =
      .ok trie.flat.values := by
  match trie, depth with
  | .node entries children, 0 => exact absurd deep (by simp [TreeNodeBuild.height])
  | .node entries children, depth + 1 =>
    have read := View.readNode_ok.mpr (stored _ (TreeNodeBuild.store_mem _ _))
    rw [TreeNodeBuild.store] at stored
    obtain ⟨below, visited, flat⟩ := TreeNodeChildren.visitTreeNodeRecords_store
      (fun node inside => stored node (List.mem_append_left _ inside))
      (Nat.le_of_succ_le_succ deep)
    rw [View.visitTreeNodeRecords]
    apply bind_ok
    refine ⟨_, read, ?_⟩
    rw [TreeNodeBuild.store]
    apply bind_ok
    refine ⟨below, visited, ?_⟩
    rw [flat, TreeNodeBuild.flat]
    simp [Entries.values]

theorem TreeNodeChildren.visitTreeNodeRecords_store {path : String} {depth : Nat}
    {children : TreeNodeChildren}
    (stored : view.HasNodes names (children.store names rootId 0 path).2)
    (deep : children.height ≤ depth) :
    ∃ below, (children.store names rootId 0 path).1.mapM
        (fun child => view.visitTreeNodeRecords depth child.2.nodeKey) = .ok below ∧
      below.flatten = children.flat.values := by
  match children with
  | .nil => exact ⟨[], rfl, rfl⟩
  | .cons name child rest =>
    rw [TreeNodeChildren.store_cons] at stored ⊢
    have first : view.visitTreeNodeRecords depth
        (names.node (child.store names rootId 0 (joinTreePath path name)).1) =
          .ok child.flat.values := by
      apply TreeNodeBuild.visitTreeNodeRecords_store
      · exact fun node inside => stored node (List.mem_append_left _ inside)
      · exact Nat.le_trans (Nat.le_max_left _ _) deep
    obtain ⟨below, visited, flat⟩ := TreeNodeChildren.visitTreeNodeRecords_store
      (fun node inside => stored node (List.mem_append_right _ inside))
      (Nat.le_trans (Nat.le_max_right _ _) deep)
    refine ⟨child.flat.values :: below, ?_, ?_⟩
    · rw [List.mapM_cons]
      exact bind_ok ⟨_, first, bind_ok ⟨_, visited, rfl⟩⟩
    · rw [List.flatten_cons, flat, TreeNodeChildren.flat]
      simp [Entries.values]

end

end Reading

/-- What a record adds to the size of a tree. -/
def FileRecord.fileSize (record : FileRecord) : Nat :=
  if record.payload = .directory then 0 else record.size

def Entries.fileSize (entries : Entries FileRecord) : Nat :=
  (entries.values.map FileRecord.fileSize).sum

theorem Entries.fileSize_append (entries others : Entries FileRecord) :
    Entries.fileSize (entries ++ others) = entries.fileSize + Entries.fileSize others := by
  simp [Entries.fileSize, Entries.values]

theorem entriesSize_eq {entries : Entries FileRecord} (fits : entries.fileSize < 2 ^ 64) :
    entriesSize entries = entries.fileSize := by
  have loop : ∀ (records : List FileRecord) (sum : Nat),
      sum + (records.map FileRecord.fileSize).sum < 2 ^ 64 →
      records.foldl (fun sum record =>
        if record.payload = .directory then sum else min (sum + record.size) (2 ^ 64 - 1)) sum =
          sum + (records.map FileRecord.fileSize).sum := by
    intro records
    induction records with
    | nil => simp
    | cons record rest ih =>
      intro sum fits
      simp only [List.map_cons, List.sum_cons, FileRecord.fileSize] at fits
      simp only [List.foldl_cons, List.map_cons, List.sum_cons, FileRecord.fileSize]
      by_cases directory : record.payload = .directory
      · rw [if_pos directory] at fits ⊢
        rw [if_pos directory, ih sum (by omega)]
        omega
      · rw [if_neg directory] at fits ⊢
        have uncapped : min (sum + record.size) (2 ^ 64 - 1) = sum + record.size := by omega
        rw [if_neg directory, uncapped, ih (sum + record.size) (by omega)]
        omega
  have total := loop entries.values 0 (by simpa [Entries.fileSize] using fits)
  simpa [entriesSize, Entries.fileSize] using total

section Totals

variable {names : TreeNames} {rootId : String}

mutual

theorem TreeNodeBuild.fileCount_store (trie : TreeNodeBuild) (path : String) :
    (trie.store names rootId 0 path).1.fileCount = trie.flat.length := by
  match trie with
  | .node entries children =>
    rw [TreeNodeBuild.store, TreeNodeBuild.flat, List.length_append,
      ← TreeNodeChildren.fileCount_store children path]

theorem TreeNodeChildren.fileCount_store (children : TreeNodeChildren) (path : String) :
    ((children.store names rootId 0 path).1.values.map TreeNodeRef.fileCount).sum =
      children.flat.length := by
  match children with
  | .nil => rfl
  | .cons name child rest =>
    have first := TreeNodeBuild.fileCount_store child (joinTreePath path name)
    have others := TreeNodeChildren.fileCount_store rest path
    rw [TreeNodeChildren.store_cons, TreeNodeChildren.flat, List.length_append, ← first, ← others]
    rfl

end

mutual

theorem TreeNodeBuild.totalSize_store (trie : TreeNodeBuild) (path : String)
    (fits : trie.flat.fileSize < 2 ^ 64) :
    (trie.store names rootId 0 path).1.totalSize = trie.flat.fileSize := by
  match trie with
  | .node entries children =>
    rw [TreeNodeBuild.flat, Entries.fileSize_append] at fits ⊢
    rw [TreeNodeBuild.store]
    simp only [entriesSize_eq (show entries.fileSize < 2 ^ 64 by omega),
      TreeNodeChildren.totalSize_store children path (by omega)]
    exact Nat.mod_eq_of_lt fits

theorem TreeNodeChildren.totalSize_store (children : TreeNodeChildren) (path : String)
    (fits : children.flat.fileSize < 2 ^ 64) :
    ((children.store names rootId 0 path).1.values.map TreeNodeRef.totalSize).sum =
      children.flat.fileSize := by
  match children with
  | .nil => rfl
  | .cons name child rest =>
    rw [TreeNodeChildren.flat, Entries.fileSize_append] at fits ⊢
    have first := TreeNodeBuild.totalSize_store child (joinTreePath path name) (by omega)
    have others := TreeNodeChildren.totalSize_store rest path (by omega)
    rw [TreeNodeChildren.store_cons, ← first, ← others]
    rfl

end

/-- Nodes of these lists under one key are the same. -/
def TreeNames.Distinguishes (names : TreeNames) (nodes others : List TreeNodeManifest) : Prop :=
  ∀ node ∈ nodes, ∀ other ∈ others, names.node node = names.node other → node = other

mutual

/-- Without collisions, nodes under one key have the same entries below them. -/
theorem TreeNodeBuild.flat_eq_of_node (trie other : TreeNodeBuild) {path path' : String}
    (distinct : names.Distinguishes (trie.store names rootId 0 path).2
      (other.store names rootId 0 path').2)
    (same : names.node (trie.store names rootId 0 path).1 =
      names.node (other.store names rootId 0 path').1) : trie.flat = other.flat := by
  have manifests := distinct _ (trie.store_mem path) _ (other.store_mem path') same
  match trie, other with
  | .node entries children, .node entries' children' =>
    rw [TreeNodeBuild.store, TreeNodeBuild.store] at manifests distinct
    simp only [TreeNodeManifest.mk.injEq] at manifests
    obtain ⟨-, -, -, -, -, below, own⟩ := manifests
    have distinctBelow : names.Distinguishes (children.store names rootId 0 path).2
        (children'.store names rootId 0 path').2 :=
      fun node inside node' inside' => distinct node (List.mem_append_left _ inside) node'
        (List.mem_append_left _ inside')
    rw [TreeNodeBuild.flat, TreeNodeBuild.flat, own,
      TreeNodeChildren.flat_eq_of_store children children' distinctBelow below]

theorem TreeNodeChildren.flat_eq_of_store (children others : TreeNodeChildren)
    {path path' : String}
    (distinct : names.Distinguishes (children.store names rootId 0 path).2
      (others.store names rootId 0 path').2)
    (same : (children.store names rootId 0 path).1 = (others.store names rootId 0 path').1) :
    children.flat = others.flat := by
  match children, others with
  | .nil, .nil => rfl
  | .nil, .cons name child rest =>
    rw [TreeNodeChildren.store_cons] at same
    cases same
  | .cons name child rest, .nil =>
    rw [TreeNodeChildren.store_cons] at same
    cases same
  | .cons name child rest, .cons name' child' rest' =>
    rw [TreeNodeChildren.store_cons, TreeNodeChildren.store_cons] at same distinct
    simp only [List.cons.injEq, Prod.mk.injEq, TreeNames.nodeRef, TreeNodeRef.mk.injEq] at same
    obtain ⟨⟨-, -, key, -⟩, later⟩ := same
    have first := TreeNodeBuild.flat_eq_of_node child child'
      (fun node inside node' inside' => distinct node (List.mem_append_left _ inside) node'
        (List.mem_append_left _ inside')) key
    have second := TreeNodeChildren.flat_eq_of_store rest rest'
      (fun node inside node' inside' => distinct node (List.mem_append_right _ inside) node'
        (List.mem_append_right _ inside')) later
    rw [TreeNodeChildren.flat, TreeNodeChildren.flat, first, second]

end

end Totals

def components (path : String) : List String := (path.toList.splitOn '/').map String.ofList

/-- No component is empty. -/
def SlashPath (path : String) : Prop := ∀ part ∈ path.toList.splitOn '/', part ≠ []

instance (path : String) : Decidable (SlashPath path) :=
  inferInstanceAs (Decidable (∀ part ∈ _, _))

/-- `path` is in the directory `dir` or in one below it. -/
def Below (dir path : String) : Prop := components dir <+: parentComponents path

theorem SlashPath.components_eq {path : String} (h : SlashPath path) :
    ∃ name, components path = parentComponents path ++ [name] := by
  have parts := List.dropLast_append_getLast (List.splitOn_ne_nil '/' path.toList)
  have parent : parentComponents path =
      (path.toList.splitOn '/').dropLast.map String.ofList := by
    unfold parentComponents
    split
    · next quirk =>
      -- a first component that is empty
      have empty : [] ∈ path.toList.splitOn '/' :=
        List.mem_of_mem_dropLast (quirk ▸ List.mem_cons_self)
      exact absurd rfl (h [] empty)
    · rfl
  refine ⟨String.ofList ((path.toList.splitOn '/').getLast (List.splitOn_ne_nil '/' _)), ?_⟩
  rw [parent, ← List.map_singleton, ← List.map_append, parts]
  rfl

theorem SlashPath.not_below {dir path : String} (h : SlashPath dir)
    (length : (parentComponents path).length ≤ (parentComponents dir).length) : ¬ Below dir path := by
  intro below
  obtain ⟨name, eq⟩ := h.components_eq
  have longer := below.length_le
  rw [eq, List.length_append, List.length_singleton] at longer
  omega

mutual

theorem TreeNodeBuild.Under.ordered {dir : List String} {trie : TreeNodeBuild}
    (under : trie.Under dir) (paths : ∀ entry ∈ trie.flat, SlashPath entry.1) :
    trie.flat.Pairwise (fun entry later => ¬ Below later.1 entry.1) := by
  match trie with
  | .node entries children =>
    have ownPaths : ∀ entry ∈ entries, SlashPath entry.1 :=
      fun entry inside => paths entry (List.mem_append_left _ inside)
    have childPaths : ∀ entry ∈ children.flat, SlashPath entry.1 :=
      fun entry inside => paths entry (List.mem_append_right _ inside)
    rw [TreeNodeBuild.flat, List.pairwise_append]
    refine ⟨?_, TreeNodeChildren.Under.ordered under.2.2 childPaths, ?_⟩
    · apply List.pairwise_of_forall_mem_list
      intro entry inside later inside'
      apply (ownPaths later inside').not_below
      rw [under.1 entry inside, under.1 later inside']
    · intro entry inside later inside'
      apply (childPaths later inside').not_below
      obtain ⟨child, -, start⟩ := TreeNodeChildren.Under.parent under.2.2 inside'
      have longer := start.length_le
      rw [List.length_append, List.length_singleton] at longer
      rw [under.1 entry inside]
      omega

theorem TreeNodeChildren.Under.ordered {dir : List String} {children : TreeNodeChildren}
    (under : children.Under dir) (paths : ∀ entry ∈ children.flat, SlashPath entry.1) :
    children.flat.Pairwise (fun entry later => ¬ Below later.1 entry.1) := by
  match children with
  | .nil => exact .nil
  | .cons name child rest =>
    have restPaths : ∀ entry ∈ rest.flat, SlashPath entry.1 :=
      fun entry inside => paths entry (List.mem_append_right _ inside)
    rw [TreeNodeChildren.flat, List.pairwise_append]
    refine ⟨?_, TreeNodeChildren.Under.ordered under.2.2 restPaths, ?_⟩
    · exact TreeNodeBuild.Under.ordered under.1
        (fun entry inside => paths entry (List.mem_append_left _ inside))
    · intro entry inside later inside' below
      obtain ⟨other, member, start⟩ := TreeNodeChildren.Under.parent under.2.2 inside'
      obtain ⟨last, eq⟩ := (restPaths later inside').components_eq
      -- both would be below the same child
      have above : dir ++ [other.1] <+: parentComponents entry.1 :=
        (start.trans (eq ▸ List.prefix_append _ _)).trans below
      have name_eq := name_eq_of_parent (TreeNodeBuild.Under.parent under.1 inside) above
      exact under.2.1 other member name_eq.symm

end

/-- The order in which a `BTreeMap` has its entries. -/
def Entries.Sorted (entries : Entries FileRecord) : Prop :=
  entries.Pairwise (fun entry later => entry.1 < later.1)

instance (entries : Entries FileRecord) : Decidable entries.Sorted :=
  inferInstanceAs (Decidable (List.Pairwise _ _))

theorem Entries.Sorted.nodup {entries : Entries FileRecord} (sorted : entries.Sorted) :
    (entries.map Prod.fst).Nodup := by
  refine List.pairwise_map.mpr (sorted.imp ?_)
  intro entry later less same
  exact String.lt_irrefl _ (same ▸ less)

theorem Entries.perm_iff_get {entries others : Entries FileRecord}
    (once : (entries.map Prod.fst).Nodup) (once' : (others.map Prod.fst).Nodup) :
    entries.Perm others ↔ ∀ path, entries.get path = others.get path := by
  rw [List.perm_ext_iff_of_nodup (List.Nodup.of_map _ once) (List.Nodup.of_map _ once')]
  constructor
  · intro members path
    apply Option.ext
    intro record
    rw [Entries.get_eq_some_iff once, Entries.get_eq_some_iff once', members]
  · intro same entry
    rw [← Entries.get_eq_some_iff once, ← Entries.get_eq_some_iff once', same]

theorem Entries.Sorted.eq_of_perm {entries others : Entries FileRecord} (sorted : entries.Sorted)
    (sorted' : others.Sorted) (perm : entries.Perm others) : entries = others := by
  refine List.Perm.eq_of_pairwise ?_ sorted sorted' perm
  intro entry other _ _ less greater
  exact absurd greater (String.lt_asymm less)

def storeTreeNodes (names : TreeNames) (rootId : String) (entries : Entries FileRecord) :
    TreeNodeManifest × List TreeNodeManifest :=
  (TreeNodeBuild.fromEntries entries).store names rootId 0 ""

/-- Reading the nodes of a map gives the map, a visit meets every record once and directories before
what is in them, the root node has the totals, and its key stands for the map. -/
theorem storeTreeNodes_lossless (names : TreeNames) (rootId : String) (view : View)
    (entries : Entries FileRecord) (sorted : entries.Sorted)
    (paths : ∀ entry ∈ entries, SlashPath entry.1)
    (stored : view.HasNodes names (storeTreeNodes names rootId entries).2) :
    (∃ levels, ∀ depth, levels ≤ depth → ∃ read visited : Entries FileRecord,
      view.treeEntriesFromNode depth (storeTreeNodes names rootId entries).1 = .ok read ∧
      (∀ path, read.get path = entries.get path) ∧ read.Perm entries ∧
      view.visitTreeNodeRecords depth (names.node (storeTreeNodes names rootId entries).1) =
        .ok visited.values ∧
      visited.Perm entries ∧ visited.Pairwise (fun entry later => ¬ Below later.1 entry.1)) ∧
    (names.nodeRef (storeTreeNodes names rootId entries).1).fileCount = entries.length ∧
    (entries.fileSize < 2 ^ 64 →
      (names.nodeRef (storeTreeNodes names rootId entries).1).totalSize = entries.fileSize) ∧
    ∀ other : Entries FileRecord, other.Sorted →
      names.Distinguishes (storeTreeNodes names rootId entries).2
        (storeTreeNodes names rootId other).2 →
      ((names.nodeRef (storeTreeNodes names rootId entries).1).nodeKey =
          (names.nodeRef (storeTreeNodes names rootId other).1).nodeKey ↔
        ∀ path, entries.get path = other.get path) := by
  have once := sorted.nodup
  obtain ⟨under, flat⟩ := TreeNodeBuild.fromEntries_spec once
  have size : (TreeNodeBuild.fromEntries entries).flat.fileSize = entries.fileSize := by
    exact ((flat.map Prod.snd).map FileRecord.fileSize).sum_nat
  refine ⟨⟨(TreeNodeBuild.fromEntries entries).height, ?_⟩, ?_, ?_, ?_⟩
  · intro depth deep
    refine ⟨(TreeNodeBuild.fromEntries entries).flat, (TreeNodeBuild.fromEntries entries).flat,
      ?_, ?_, flat, ?_, flat, ?_⟩
    · exact TreeNodeBuild.treeEntriesFromNode_store under stored deep
    · exact (Entries.perm_iff_get under.nodup once).mp flat
    · exact TreeNodeBuild.visitTreeNodeRecords_store stored deep
    · exact under.ordered (fun entry inside => paths entry (flat.mem_iff.mp inside))
  · exact (TreeNodeBuild.fileCount_store _ _).trans flat.length_eq
  · intro fits
    exact (TreeNodeBuild.totalSize_store _ _ (by rwa [size])).trans size
  · intro other sorted' distinct
    obtain ⟨under', flat'⟩ := TreeNodeBuild.fromEntries_spec sorted'.nodup
    constructor
    · intro same
      have equal := TreeNodeBuild.flat_eq_of_node _ _ distinct same
      exact (Entries.perm_iff_get once sorted'.nodup).mp (flat.symm.trans (equal ▸ flat'))
    · intro same
      have perm := (Entries.perm_iff_get once sorted'.nodup).mpr same
      rw [sorted.eq_of_perm sorted' perm]

namespace NestedTree

def names : TreeNames where
  treeId := fun _ => "tree"
  nodeId := fun _ path _ _ => "node-" ++ path
  tree := fun tree => "objects/trees/" ++ tree.rootId
  node := fun node => "objects/trees/nodes/" ++ node.path

/-- A directory with a record of its own, a file in it and a file beside it. -/
def entries : Entries FileRecord :=
  [("a", .plain "docs" "a" "directory" 0 .directory),
    ("a.txt", .plain "docs" "a.txt" "file" 5 (.inlineSmall "one" "objects/one")),
    ("a/b.txt", .plain "docs" "a/b.txt" "file" 7 (.inlineSmall "two" "objects/two"))]

def view : View := fun key =>
  ((storeTreeNodes names "docs" entries).2.find? (fun node => names.node node = key)).map .node

end NestedTree

theorem storeTreeNodes_lossless_nested :
    (∃ levels, ∀ depth, levels ≤ depth → ∃ read,
      NestedTree.view.treeEntriesFromNode depth
        (storeTreeNodes NestedTree.names "docs" NestedTree.entries).1 = .ok read ∧
      ∀ path, read.get path = NestedTree.entries.get path) ∧
    (NestedTree.names.nodeRef
      (storeTreeNodes NestedTree.names "docs" NestedTree.entries).1).fileCount = 3 := by
  have lossless := storeTreeNodes_lossless NestedTree.names "docs" NestedTree.view
    NestedTree.entries (by decide +kernel) (by decide +kernel) (by decide +kernel)
  obtain ⟨⟨levels, reads⟩, count, -⟩ := lossless
  refine ⟨⟨levels, ?_⟩, count⟩
  intro depth deep
  obtain ⟨read, -, result, same, -⟩ := reads depth deep
  exact ⟨read, result, same⟩

end Majutsu.Repo
