import Mathlib.Data.List.Sort
import Majutsu.Lib.Appending
import Majutsu.Lib.Reports
import Majutsu.Repo.StoredTrees

/-!
# Differences of trees

Two trees of nodes are compared from their roots. Nodes under the same key are
skipped, and what only one side has is listed as a whole. The changes found this
way are those between the two maps of files, each once.
-/

namespace Majutsu.Repo

open Loops

inductive ChangeStatus where
  | added
  | deleted
  | modified
  deriving DecidableEq

/-- A line of a difference, with the records it is made from. -/
inductive FileChange where
  | plain (status : ChangeStatus) (path : String)
  | warning (status : ChangeStatus) (path : String) (text : String)
  | records (status : ChangeStatus) (path : String) (previous current : Option FileRecord)
  deriving DecidableEq

namespace FileChange

def status : FileChange → ChangeStatus
  | plain status _ | warning status _ _ | records status _ _ _ => status

def path : FileChange → String
  | plain _ path | warning _ path _ | records _ path _ _ => path

/-- The record of a deleted file is given as the current one, too. -/
def fromRecord (status : ChangeStatus) (path : String) (record : FileRecord) : FileChange :=
  .records status path none (some record)

end FileChange

def fullPath (rootId path : String) : String := rootId ++ "/" ++ path

def compareRecords (rootId path : String) : Option FileRecord → Option FileRecord → Option FileChange
  | none, some record => some (.fromRecord .added (fullPath rootId path) record)
  | some record, none => some (.fromRecord .deleted (fullPath rootId path) record)
  | some previous, some current =>
    if previous ≠ current then
      some (.records .modified (fullPath rootId path) (some previous) (some current))
    else none
  | none, none => none

/-- A `BTreeSet` of these names, in its order. -/
def sortedSet (names : List String) : List String := names.dedup.insertionSort (· ≤ ·)

def appendEntryMapDiff (rootId : String) (before after : Entries FileRecord) :
    Appending String FileChange Unit :=
  (sortedSet (before.map Prod.fst ++ after.map Prod.fst)).forM (fun path =>
    .pushAll (compareRecords rootId path (before.get path) (after.get path)).toList)

namespace View

variable (view : View) (rootId : String)

def appendNodeRecordsWithStatus (status : ChangeStatus) :
    Nat → TreeNodeRef → Appending String FileChange Unit
  | 0, _ => .of (.error "tree nodes too deep")
  | depth + 1, ref => do
    let node ← .of (view.readNode ref.nodeKey)
    .pushAll (node.entries.values.map (fun record =>
      .fromRecord status (fullPath rootId record.path) record))
    node.childNodes.values.forM (appendNodeRecordsWithStatus status depth)

def appendNodeDiff : Nat → Option TreeNodeRef → Option TreeNodeRef →
    Appending String FileChange Unit
  | 0, _, _ => .of (.error "tree nodes too deep")
  | _ + 1, none, none => pure ()
  | depth + 1, none, some ref => view.appendNodeRecordsWithStatus rootId .added (depth + 1) ref
  | depth + 1, some ref, none => view.appendNodeRecordsWithStatus rootId .deleted (depth + 1) ref
  | depth + 1, some before, some after =>
    if before.nodeKey = after.nodeKey then pure ()
    else do
      let fromNode ← .of (view.readNode before.nodeKey)
      let toNode ← .of (view.readNode after.nodeKey)
      appendEntryMapDiff rootId fromNode.entries toNode.entries
      (sortedSet (fromNode.childNodes.map Prod.fst ++ toNode.childNodes.map Prod.fst)).forM
        (fun path =>
          appendNodeDiff depth (fromNode.childNodes.get path) (toNode.childNodes.get path))

/-- Whether both trees are of nodes only. Otherwise nothing is appended. -/
def appendV2TreeDiff (depth : Nat) (fromTree toTree : RootSnapshot) :
    Appending String FileChange Bool := do
  let before ← .of (view.readTree fromTree.treeKey)
  let after ← .of (view.readTree toTree.treeKey)
  match before.rootNode, after.rootNode with
  | some fromNode, some toNode =>
    if !before.entries.isEmpty || !after.entries.isEmpty then pure false
    else do
      view.appendNodeDiff rootId depth (some fromNode) (some toNode)
      pure true
  | _, _ => pure false

end View

/-- The paths of either map, in order. -/
def pathsAll (before after : Entries FileRecord) : List String :=
  (before.map Prod.fst ++
    (after.map Prod.fst).filter (fun path => (before.get path).isNone)).insertionSort (· ≤ ·)

/-- The comparison of two maps that does not look at trees. -/
def appendFileMapDiff (rootId : String) (before after : Entries FileRecord) :
    Appending String FileChange Unit :=
  (pathsAll before after).forM (fun path =>
    .pushAll (compareRecords rootId path (before.get path) (after.get path)).toList)

section Changes

variable {rootId : String}

theorem fullPath_inj {path path' : String} (same : fullPath rootId path = fullPath rootId path') :
    path = path' := by
  rw [fullPath, fullPath] at same
  exact String.append_right_inj _ |>.mp same

theorem compareRecords_path {path : String} {before after : Option FileRecord} {change : FileChange}
    (found : compareRecords rootId path before after = some change) :
    change.path = fullPath rootId path := by
  match before, after with
  | none, none => cases found
  | none, some record =>
    obtain rfl := Option.some.inj found
    rfl
  | some record, none =>
    obtain rfl := Option.some.inj found
    rfl
  | some previous, some current =>
    by_cases differ : previous ≠ current
    · rw [compareRecords, if_pos differ] at found
      obtain rfl := Option.some.inj found
      rfl
    · rw [compareRecords, if_neg differ] at found
      cases found

theorem compareRecords_self (path : String) (record : Option FileRecord) :
    compareRecords rootId path record record = none := by
  cases record with
  | none => rfl
  | some record => simp [compareRecords]

/-- What there is to report at a path. -/
def changeAt (rootId : String) (before after : String → Option FileRecord) (path : String) :
    Option FileChange :=
  compareRecords rootId path (before path) (after path)

variable {before after : String → Option FileRecord}

theorem separate_changeAt : Separate (changeAt rootId before after) := by
  intro path path' change found found'
  apply fullPath_inj
  rw [← compareRecords_path found, compareRecords_path found']

theorem nodup_path {region : String → Prop} {changes : List FileChange}
    (reports : Reports (changeAt rootId before after) region changes) :
    (changes.map FileChange.path).Nodup := by
  apply reports.once.map_on
  intro change member other member' same
  obtain ⟨path, -, found⟩ := (reports.mem_iff change).mp member
  obtain ⟨path', -, found'⟩ := (reports.mem_iff other).mp member'
  rw [compareRecords_path found, compareRecords_path found'] at same
  obtain rfl := fullPath_inj same
  exact Option.some.inj (found.symm.trans found')

theorem Entries.get_ne_none {α : Type} {entries : Entries α} {name : String} :
    entries.get name ≠ none ↔ name ∈ entries.map Prod.fst := by
  constructor
  · intro found
    obtain ⟨value, get⟩ := Option.ne_none_iff_exists'.mp found
    exact List.mem_map_of_mem (Entries.mem_of_get get)
  · intro member absent
    obtain ⟨entry, inside, rfl⟩ := List.mem_map.mp member
    rw [Entries.get, Option.map_eq_none_iff, List.find?_eq_none] at absent
    exact absent entry inside (by simp)

theorem mem_sortedSet {names : List String} {name : String} :
    name ∈ sortedSet names ↔ name ∈ names := by
  rw [sortedSet, (List.perm_insertionSort _ _).mem_iff, List.mem_dedup]

theorem nodup_sortedSet (names : List String) : (sortedSet names).Nodup :=
  (List.perm_insertionSort _ _).nodup_iff.mpr names.nodup_dedup

theorem forM_pushAll {paths : List String} {changes : String → Option FileChange} :
    paths.forM (fun path => (.pushAll (changes path).toList : Appending String FileChange Unit)) =
      ⟨paths.filterMap changes, .ok ()⟩ := by
  rw [List.filterMap_eq_flatMap_toList]
  exact Appending.forM_ok (fun _ _ => rfl)

/-- The maps have no entries but these below a directory. -/
def EntriesBelow (dir : List String) (map : String → Option FileRecord)
    (entries : Entries FileRecord) : Prop :=
  ∀ path, dir <+: parentComponents path →
    ∀ record, map path = some record ↔ (path, record) ∈ entries

theorem EntriesBelow.eq_none {dir : List String} {map : String → Option FileRecord}
    {entries : Entries FileRecord} (holds : EntriesBelow dir map entries) {path : String}
    (below : dir <+: parentComponents path) (absent : path ∉ entries.map Prod.fst) :
    map path = none := by
  cases found : map path with
  | none => rfl
  | some record =>
    have member := (holds path below record).mp found
    exact absurd (List.mem_map_of_mem member) absent

theorem reports_values {status : ChangeStatus} {region : String → Prop}
    {entries : Entries FileRecord} (once : (entries.map Prod.fst).Nodup)
    (inside : ∀ entry ∈ entries, region entry.1)
    (found : ∀ entry ∈ entries, changeAt rootId before after entry.1 =
      some (.fromRecord status (fullPath rootId entry.2.path) entry.2))
    (quiet : ∀ path, region path → path ∉ entries.map Prod.fst →
      changeAt rootId before after path = none) :
    Reports (changeAt rootId before after) region (entries.values.map (fun record =>
      .fromRecord status (fullPath rootId record.path) record)) := by
  have listed : entries.values.map (fun record =>
      FileChange.fromRecord status (fullPath rootId record.path) record) =
        (entries.map Prod.fst).filterMap (changeAt rootId before after) := by
    rw [Entries.values, List.map_map, List.filterMap_map]
    symm
    rw [← List.filterMap_eq_map]
    apply List.filterMap_congr
    intro entry member
    exact found entry member
  rw [listed]
  refine (Reports.filterMap separate_changeAt once).extend ?_ quiet
  intro path member
  obtain ⟨entry, listedEntry, rfl⟩ := List.mem_map.mp member
  exact inside entry listedEntry

end Changes

section OneSide

variable {view : View} {rootId : String} {status : ChangeStatus}

theorem View.appendNodeRecordsWithStatus_eq {depth : Nat} {ref : TreeNodeRef}
    {records : List FileRecord} (visited : view.visitTreeNodeRecords depth ref.nodeKey = .ok records) :
    view.appendNodeRecordsWithStatus rootId status depth ref =
      ⟨records.map (fun record => .fromRecord status (fullPath rootId record.path) record),
        .ok ()⟩ := by
  induction depth generalizing ref records with
  | zero => cases visited
  | succ depth ih =>
    obtain ⟨node, read, rest⟩ := of_bind visited
    obtain ⟨below, children, result⟩ := of_bind rest
    obtain rfl := Except.ok.inj result
    have loop : ∀ {children : Entries TreeNodeRef} {below : List (List FileRecord)},
        List.Forall₂ (fun child records =>
          view.visitTreeNodeRecords depth child.2.nodeKey = .ok records) children below →
        children.values.forM (view.appendNodeRecordsWithStatus rootId status depth) =
          ⟨below.flatten.map (fun record =>
            .fromRecord status (fullPath rootId record.path) record), .ok ()⟩ := by
      intro children below each
      induction each with
      | nil => rfl
      | cons first _ rest =>
        rw [List.flatten_cons, List.map_append]
        exact Appending.bind_ok (ih first) rest
    rw [List.map_append]
    exact Appending.of_bind read (Appending.bind_ok rfl (loop (mapM_eq_ok.mp children)))

end OneSide

section BothSides

variable {names : TreeNames} {rootId : String} {view : View}

theorem joinTreePath_inj {path name name' : String}
    (same : joinTreePath path name = joinTreePath path name') : name = name' := by
  unfold joinTreePath at same
  by_cases root : path.isEmpty
  · rwa [if_pos root, if_pos root] at same
  · rw [if_neg root, if_neg root] at same
    exact (String.append_right_inj _).mp same

theorem TreeNodeChildren.store_names (children : TreeNodeChildren) (path : String) :
    (children.store names rootId 0 path).1.map Prod.fst =
      children.toList.map (fun child => joinTreePath path child.1) := by
  cases children with
  | nil => rfl
  | cons name child rest =>
    rw [TreeNodeChildren.store_cons, TreeNodeChildren.toList, List.map_cons, List.map_cons,
      TreeNodeChildren.store_names rest path]

theorem TreeNodeChildren.store_get (children : TreeNodeChildren) (path name : String) :
    (children.store names rootId 0 path).1.get (joinTreePath path name) =
      (Entries.get children.toList name).map (TreeNodeBuild.ref names rootId (joinTreePath path name)) := by
  cases children with
  | nil => rfl
  | cons first child rest =>
    have later := TreeNodeChildren.store_get rest path name
    rw [TreeNodeChildren.store_cons, TreeNodeChildren.toList]
    unfold Entries.get at later ⊢
    rw [List.find?_cons, List.find?_cons]
    by_cases same : first = name
    · subst same
      simp [TreeNodeBuild.ref]
    · have differ : joinTreePath path first ≠ joinTreePath path name :=
        fun eq => same (joinTreePath_inj eq)
      simpa [same, differ] using later

theorem TreeNodeChildren.height_le {children : TreeNodeChildren} {child : String × TreeNodeBuild}
    (member : child ∈ children.toList) : child.2.height ≤ children.height := by
  match children with
  | .nil => cases member
  | .cons name first rest =>
    rw [TreeNodeChildren.height]
    rcases List.mem_cons.mp member with rfl | later
    · exact Nat.le_max_left _ _
    · have below := TreeNodeChildren.height_le later
      omega

theorem TreeNodeChildren.store_child {children : TreeNodeChildren} {child : String × TreeNodeBuild}
    (member : child ∈ children.toList) (path : String) :
    ∀ node ∈ (child.2.store names rootId 0 (joinTreePath path child.1)).2,
      node ∈ (children.store names rootId 0 path).2 := by
  match children with
  | .nil => cases member
  | .cons name first rest =>
    intro node inside
    rw [TreeNodeChildren.store_cons]
    rcases List.mem_cons.mp member with rfl | later
    · exact List.mem_append_left _ inside
    · exact List.mem_append_right _ (TreeNodeChildren.store_child later path node inside)

theorem View.HasNodes.distinguishes {nodes others : List TreeNodeManifest}
    (stored : view.HasNodes names nodes) (stored' : view.HasNodes names others) :
    names.Distinguishes nodes others := by
  intro node inside other inside' same
  have read := stored node inside
  rw [same, stored' other inside'] at read
  cases read
  rfl

/-- A side of the comparison: a trie of a directory or nothing, with its nodes in the store, for a map
that has its entries below the directory. -/
structure Side (names : TreeNames) (rootId : String) (view : View) (map : String → Option FileRecord)
    (dir : List String) (path : String) (depth : Nat) (trie : Option TreeNodeBuild) : Prop where
  under : ∀ t ∈ trie, t.Under dir
  stored : ∀ t ∈ trie, view.HasNodes names (t.store names rootId 0 path).2
  deep : ∀ t ∈ trie, t.height ≤ depth
  holds : EntriesBelow dir map ((trie.map TreeNodeBuild.flat).getD [])

namespace Side

variable {map : String → Option FileRecord} {dir : List String} {path : String} {depth : Nat}
  {entries : Entries FileRecord} {children : TreeNodeChildren}

theorem own (side : Side names rootId view map dir path depth (some (.node entries children)))
    {file : String} (parent : parentComponents file = dir) : map file = entries.get file := by
  have under := side.under _ rfl
  apply Option.ext
  intro record
  rw [side.holds file (parent ▸ List.prefix_rfl) record, Entries.get_eq_some_iff under.2.1]
  refine ⟨?_, fun inside => List.mem_append_left _ inside⟩
  intro inside
  rcases List.mem_append.mp inside with here | below
  · exact here
  · obtain ⟨child, -, start⟩ := TreeNodeChildren.Under.parent under.2.2 below
    have longer := start.length_le
    rw [List.length_append, List.length_singleton] at longer
    simp only [parent] at longer
    omega

theorem child (side : Side names rootId view map dir path (depth + 1) (some (.node entries children)))
    (name : String) :
    Side names rootId view map (dir ++ [name]) (joinTreePath path name) depth
      (Entries.get children.toList name) := by
  have under := side.under _ rfl
  have stored := side.stored _ rfl
  have deep := side.deep _ rfl
  have found : ∀ t ∈ Entries.get children.toList name, (name, t) ∈ children.toList :=
    fun t get => Entries.mem_of_get get
  constructor
  · intro t get
    exact under.2.2.child (found t get)
  · intro t get node inside
    rw [TreeNodeBuild.store] at stored
    apply stored node
    exact List.mem_append_left _ (TreeNodeChildren.store_child (found t get) path node inside)
  · intro t get
    have below : t.height ≤ children.height := TreeNodeChildren.height_le (found t get)
    rw [TreeNodeBuild.height] at deep
    omega
  · intro file below record
    have start : dir <+: parentComponents file := (List.prefix_append dir [name]).trans below
    rw [side.holds file start record]
    constructor
    · intro inside
      rcases List.mem_append.mp inside with here | later
      · have longer := below.length_le
        rw [under.1 _ here, List.length_append, List.length_singleton] at longer
        omega
      · obtain ⟨other, member, entry⟩ := TreeNodeChildren.mem_flat.mp later
        have at_ := (under.2.2.child member).parent entry
        obtain rfl := name_eq_of_parent at_ below
        rw [(Entries.get_eq_some_iff under.2.2.names).mpr member]
        exact entry
    · intro inside
      cases get : Entries.get children.toList name with
      | none =>
        rw [get] at inside
        cases inside
      | some t =>
        rw [get] at inside
        exact List.mem_append_right _ (TreeNodeChildren.mem_flat.mpr ⟨_, found t get, inside⟩)

end Side

theorem TreeNodeBuild.height_pos (trie : TreeNodeBuild) : 0 < trie.height := by
  obtain ⟨entries, children⟩ := trie
  exact Nat.succ_pos _

variable {before after : String → Option FileRecord}

variable {dir : List String} {depth : Nat}

theorem Side.oneSide {map : String → Option FileRecord} {path : String} {trie : TreeNodeBuild}
    {status : ChangeStatus} (side : Side names rootId view map dir path depth (some trie))
    (named : ∀ {path record}, map path = some record → record.path = path)
    (only : ∀ file, dir <+: parentComponents file → changeAt rootId before after file =
      (map file).map (.fromRecord status (fullPath rootId file))) :
    ∃ pushed, view.appendNodeRecordsWithStatus rootId status depth (trie.ref names rootId path) =
        ⟨pushed, .ok ()⟩ ∧
      Reports (changeAt rootId before after) (fun file => dir <+: parentComponents file) pushed := by
  have under := side.under trie rfl
  have visited := TreeNodeBuild.visitTreeNodeRecords_store (side.stored trie rfl) (side.deep trie rfl)
  refine ⟨_, View.appendNodeRecordsWithStatus_eq visited, ?_⟩
  apply reports_values under.nodup (fun entry inside => under.parent inside)
  · intro entry inside
    have below := under.parent inside
    have found := (side.holds entry.1 below entry.2).mpr inside
    rw [only entry.1 below, found, named found]
    rfl
  · intro file below outside
    rw [only file below, side.holds.eq_none below outside]
    rfl

theorem reports_appendEntryMapDiff (rootId : String) {entries others : Entries FileRecord}
    (own : ∀ entry ∈ entries, parentComponents entry.1 = dir)
    (own' : ∀ entry ∈ others, parentComponents entry.1 = dir)
    (holds : ∀ file, parentComponents file = dir → before file = entries.get file)
    (holds' : ∀ file, parentComponents file = dir → after file = others.get file) :
    ∃ pushed, appendEntryMapDiff rootId entries others = ⟨pushed, .ok ()⟩ ∧
      Reports (changeAt rootId before after) (fun file => parentComponents file = dir) pushed := by
  have parent : ∀ file ∈ sortedSet (entries.map Prod.fst ++ others.map Prod.fst),
      parentComponents file = dir := by
    intro file member
    rcases List.mem_append.mp (mem_sortedSet.mp member) with first | second
    · obtain ⟨entry, inside, rfl⟩ := List.mem_map.mp first
      exact own entry inside
    · obtain ⟨entry, inside, rfl⟩ := List.mem_map.mp second
      exact own' entry inside
  refine ⟨_, forM_pushAll, ?_⟩
  have same : (sortedSet (entries.map Prod.fst ++ others.map Prod.fst)).filterMap
      (fun file => compareRecords rootId file (entries.get file) (others.get file)) =
        (sortedSet (entries.map Prod.fst ++ others.map Prod.fst)).filterMap
          (changeAt rootId before after) := by
    apply List.filterMap_congr
    intro file member
    rw [changeAt, holds file (parent file member), holds' file (parent file member)]
  rw [same]
  refine (Reports.filterMap separate_changeAt (nodup_sortedSet _)).extend parent ?_
  intro file here absent
  rw [mem_sortedSet, List.mem_append, not_or] at absent
  rw [← Entries.get_ne_none, ← Entries.get_ne_none, not_not, not_not] at absent
  rw [changeAt, holds file here, holds' file here, absent.1, absent.2]
  rfl

theorem reports_children (dir : List String) (path : String) (children children' : TreeNodeChildren)
    (each : ∀ name, Entries.get children.toList name ≠ none ∨ Entries.get children'.toList name ≠ none →
      ∃ pushed, view.appendNodeDiff rootId depth
          ((Entries.get children.toList name).map
            (TreeNodeBuild.ref names rootId (joinTreePath path name)))
          ((Entries.get children'.toList name).map
            (TreeNodeBuild.ref names rootId (joinTreePath path name))) = ⟨pushed, .ok ()⟩ ∧
        Reports (changeAt rootId before after)
          (fun file => dir ++ [name] <+: parentComponents file) pushed) :
    ∃ pushed, (sortedSet ((children.store names rootId 0 path).1.map Prod.fst ++
        (children'.store names rootId 0 path).1.map Prod.fst)).forM
          (fun child => view.appendNodeDiff rootId depth
            ((children.store names rootId 0 path).1.get child)
            ((children'.store names rootId 0 path).1.get child)) = ⟨pushed, .ok ()⟩ ∧
      Reports (changeAt rootId before after)
        (fun file => ∃ name, (Entries.get children.toList name ≠ none ∨
            Entries.get children'.toList name ≠ none) ∧
          dir ++ [name] <+: parentComponents file) pushed := by
  have listed : ∀ child, child ∈ sortedSet ((children.store names rootId 0 path).1.map Prod.fst ++
      (children'.store names rootId 0 path).1.map Prod.fst) ↔
      ∃ name, child = joinTreePath path name ∧
        (Entries.get children.toList name ≠ none ∨ Entries.get children'.toList name ≠ none) := by
    intro child
    have has (children : TreeNodeChildren) :
        child ∈ (children.store names rootId 0 path).1.map Prod.fst ↔
          ∃ name, child = joinTreePath path name ∧ Entries.get children.toList name ≠ none := by
      rw [TreeNodeChildren.store_names, List.mem_map]
      constructor
      · rintro ⟨entry, inside, rfl⟩
        exact ⟨entry.1, rfl, Entries.get_ne_none.mpr (List.mem_map_of_mem inside)⟩
      · rintro ⟨name, rfl, found⟩
        obtain ⟨entry, inside, rfl⟩ := List.mem_map.mp (Entries.get_ne_none.mp found)
        exact ⟨entry, inside, rfl⟩
    simp only [mem_sortedSet, List.mem_append, has, and_or_left, exists_or]
  have once := nodup_sortedSet ((children.store names rootId 0 path).1.map Prod.fst ++
    (children'.store names rootId 0 path).1.map Prod.fst)
  generalize sortedSet _ = all at listed once ⊢
  -- what the rounds push, by the path of the child
  have pushes : ∀ child ∈ all, ∃ pushed,
      view.appendNodeDiff rootId depth ((children.store names rootId 0 path).1.get child)
          ((children'.store names rootId 0 path).1.get child) = ⟨pushed, .ok ()⟩ ∧
        Reports (changeAt rootId before after)
          (fun file => ∃ name, child = joinTreePath path name ∧
            dir ++ [name] <+: parentComponents file) pushed := by
    intro child member
    obtain ⟨name, rfl, any⟩ := (listed child).mp member
    obtain ⟨pushed, walked, reports⟩ := each name any
    rw [TreeNodeChildren.store_get, TreeNodeChildren.store_get]
    refine ⟨pushed, walked, reports.extend (fun file below => ⟨name, rfl, below⟩) ?_⟩
    rintro file ⟨name', same, below⟩ outside
    exact absurd (joinTreePath_inj same ▸ below) outside
  choose! pushed walked reports using pushes
  refine ⟨_, Appending.forM_ok walked, ?_⟩
  refine (Reports.flatMap separate_changeAt once reports ?_).extend ?_ ?_
  · rintro _ - _ - file ⟨name, rfl, below⟩ ⟨name', rfl, below'⟩
    rw [name_eq_of_parent below below']
  · rintro file ⟨child, member, name, rfl, below⟩
    obtain ⟨name', same, any⟩ := (listed _).mp member
    exact ⟨name, joinTreePath_inj same ▸ any, below⟩
  · rintro file ⟨name, any, below⟩ outside
    exact absurd ⟨_, (listed _).mpr ⟨name, rfl, any⟩, name, rfl, below⟩ outside

variable (named : ∀ {path record}, before path = some record → record.path = path)
variable (named' : ∀ {path record}, after path = some record → record.path = path)

include named named'

theorem View.appendNodeDiff_reports {path : String} {trie other : Option TreeNodeBuild}
    (side : Side names rootId view before dir path depth trie)
    (side' : Side names rootId view after dir path depth other) (any : trie ≠ none ∨ other ≠ none) :
    ∃ pushed, view.appendNodeDiff rootId depth (trie.map (TreeNodeBuild.ref names rootId path))
        (other.map (TreeNodeBuild.ref names rootId path)) = ⟨pushed, .ok ()⟩ ∧
      Reports (changeAt rootId before after) (fun file => dir <+: parentComponents file) pushed := by
  induction depth generalizing dir path trie other with
  | zero =>
    have none : ∀ {map : String → Option FileRecord} {t : Option TreeNodeBuild},
        Side names rootId view map dir path 0 t → t = none := by
      intro map t side
      cases t with
      | none => rfl
      | some t => exact absurd (side.deep t rfl) (by have := t.height_pos; omega)
    rcases any with some | some
    · exact absurd (none side) some
    · exact absurd (none side') some
  | succ depth ih =>
    match trie, other with
    | none, none => simp at any
    | none, some t =>
      apply side'.oneSide named'
      intro file below
      rw [changeAt, side.holds.eq_none below (by simp)]
      cases after file <;> rfl
    | some t, none =>
      apply side.oneSide named
      intro file below
      rw [changeAt, side'.holds.eq_none below (by simp)]
      cases before file <;> rfl
    | some t, some t' =>
      by_cases same : (t.ref names rootId path).nodeKey = (t'.ref names rootId path).nodeKey
      · refine ⟨[], ?_, ?_⟩
        · simp only [Option.map_some, View.appendNodeDiff, if_pos same]
          rfl
        · apply Reports.nil
          intro file below
          have flat := TreeNodeBuild.flat_eq_of_node t t'
            ((side.stored t rfl).distinguishes (side'.stored t' rfl)) same
          have equal : before file = after file := by
            apply Option.ext
            intro record
            rw [side.holds file below record, side'.holds file below record]
            simp only [Option.map_some, Option.getD_some, flat]
          rw [changeAt, equal, compareRecords_self]
      · obtain ⟨entries, children⟩ := t
        obtain ⟨entries', children'⟩ := t'
        have under := side.under _ rfl
        have under' := side'.under _ rfl
        obtain ⟨here, appended, reportsHere⟩ := reports_appendEntryMapDiff rootId under.1 under'.1
          (fun file parent => side.own parent) (fun file parent => side'.own parent)
        obtain ⟨below, walked, reportsBelow⟩ := reports_children dir path children children'
          (fun name any => ih (side.child name) (side'.child name) any)
        refine ⟨here ++ below, ?_, ?_⟩
        · have read := View.readNode_ok.mpr (side.stored _ rfl _ (TreeNodeBuild.store_mem _ _))
          have read' := View.readNode_ok.mpr (side'.stored _ rfl _ (TreeNodeBuild.store_mem _ _))
          simp only [Option.map_some, View.appendNodeDiff, if_neg same]
          refine Appending.of_bind read (Appending.of_bind read' ?_)
          rw [TreeNodeBuild.store, TreeNodeBuild.store]
          exact Appending.bind_ok appended walked
        · refine (reportsHere.append separate_changeAt reportsBelow ?_).extend ?_ ?_
          · rintro file parent ⟨name, -, start⟩
            have longer := start.length_le
            rw [parent, List.length_append, List.length_singleton] at longer
            omega
          · rintro file (parent | ⟨name, -, start⟩)
            · rw [parent]
            · exact (List.prefix_append dir [name]).trans start
          · rintro file ⟨rest, parent⟩ outside
            cases rest with
            | nil => exact absurd (Or.inl (by simpa using parent.symm)) outside
            | cons name rest =>
              -- neither side has the directory
              have start : dir ++ [name] <+: parentComponents file := ⟨rest, by simpa using parent⟩
              have neither : ¬ (Entries.get children.toList name ≠ none ∨
                  Entries.get children'.toList name ≠ none) :=
                fun any => outside (Or.inr ⟨name, any, start⟩)
              rw [not_or, not_not, not_not] at neither
              have absent := (side.child name).holds.eq_none start (by simp [neither.1])
              have absent' := (side'.child name).holds.eq_none start (by simp [neither.2])
              rw [changeAt, absent, absent']
              rfl

end BothSides

theorem nodup_pathsAll {before after : Entries FileRecord} (once : (before.map Prod.fst).Nodup)
    (once' : (after.map Prod.fst).Nodup) : (pathsAll before after).Nodup := by
  rw [pathsAll, (List.perm_insertionSort _ _).nodup_iff, List.nodup_append]
  refine ⟨once, once'.filter _, ?_⟩
  rintro path first _ second rfl
  have absent := (List.mem_filter.mp second).2
  exact Entries.get_ne_none.mpr first (by simpa using absent)

theorem mem_pathsAll {before after : Entries FileRecord} {path : String} :
    path ∈ pathsAll before after ↔ before.get path ≠ none ∨ after.get path ≠ none := by
  rw [pathsAll, (List.perm_insertionSort _ _).mem_iff, List.mem_append, List.mem_filter,
    ← Entries.get_ne_none, ← Entries.get_ne_none]
  cases before.get path <;> simp

theorem appendFileMapDiff_reports (rootId : String) {before after : Entries FileRecord}
    (once : (before.map Prod.fst).Nodup) (once' : (after.map Prod.fst).Nodup) :
    ∃ pushed, appendFileMapDiff rootId before after = ⟨pushed, .ok ()⟩ ∧
      Reports (changeAt rootId before.get after.get) (fun _ => True) pushed := by
  refine ⟨_, forM_pushAll, ?_⟩
  refine (Reports.filterMap separate_changeAt (nodup_pathsAll once once')).extend
    (fun _ _ => trivial) ?_
  intro path _ outside
  rw [mem_pathsAll, not_or, not_not, not_not] at outside
  rw [changeAt, outside.1, outside.2]
  rfl

section Version2

variable {names : TreeNames} {view : View} {rootId : String} {depth : Nat}
variable {entries : Entries FileRecord} {rootTree : RootSnapshot}
variable {stored : TreeManifest × List TreeNodeManifest}

theorem InNodes.side (inNodes : InNodes names rootId entries stored) (byPath : ByPath entries)
    (hasTree : view.HasTree names rootTree stored)
    (deep : (TreeNodeBuild.fromEntries entries).height ≤ depth) :
    Side names rootId view entries.get [] "" depth (some (TreeNodeBuild.fromEntries entries)) := by
  obtain ⟨under, flat⟩ := TreeNodeBuild.fromEntries_spec byPath.once
  have inStore := hasTree.nodes
  rw [inNodes.nodes] at inStore
  constructor
  · rintro t ⟨rfl⟩
    exact under
  · rintro t ⟨rfl⟩
    exact inStore
  · rintro t ⟨rfl⟩
    exact deep
  · intro path _ record
    rw [Entries.get_eq_some_iff byPath.once, Option.map_some, Option.getD_some, flat.mem_iff]

theorem ByPath.path_eq (byPath : ByPath entries) {path : String} {record : FileRecord}
    (found : entries.get path = some record) : record.path = path :=
  byPath.paths _ (Entries.mem_of_get found)

theorem InNodes.appendV2TreeDiff_reports {others : Entries FileRecord}
    {stored' : TreeManifest × List TreeNodeManifest} {rootTree' : RootSnapshot}
    (inNodes : InNodes names rootId entries stored) (inNodes' : InNodes names rootId others stored')
    (byPath : ByPath entries) (byPath' : ByPath others)
    (hasTree : view.HasTree names rootTree stored) (hasTree' : view.HasTree names rootTree' stored')
    (deep : (TreeNodeBuild.fromEntries entries).height ≤ depth)
    (deep' : (TreeNodeBuild.fromEntries others).height ≤ depth) :
    ∃ pushed, view.appendV2TreeDiff rootId depth rootTree rootTree' = ⟨pushed, .ok true⟩ ∧
      Reports (changeAt rootId entries.get others.get) (fun _ => True) pushed := by
  obtain ⟨pushed, walked, reports⟩ := View.appendNodeDiff_reports byPath.path_eq byPath'.path_eq
    (inNodes.side byPath hasTree deep) (inNodes'.side byPath' hasTree' deep') (Or.inl (by simp))
  refine ⟨pushed, ?_, ?_⟩
  · refine Appending.of_bind (View.readTree_ok.mpr hasTree.tree)
      (Appending.of_bind (View.readTree_ok.mpr hasTree'.tree) ?_)
    rw [inNodes.root, inNodes'.root, inNodes.empty, inNodes'.empty]
    have both := Appending.bind_ok (f := fun _ => Appending.of (.ok true)) walked rfl
    rwa [List.append_nil] at both
  · exact reports.extend (fun _ _ => trivial) (fun _ _ outside => absurd List.nil_prefix outside)

end Version2

/-- The walk over two version 2 trees of a root appends the changes between their maps, each path at
most once, and so does the comparison of the two file maps. -/
theorem View.appendV2TreeDiff_exact (view : View) (names : TreeNames) (format : TreeFormat)
    (v2 : format.v2 = true) (rootId : String) (before after : Entries FileRecord)
    (byPath : ByPath before) (byPath' : ByPath after)
    (normal : ∀ entry ∈ before, NormalPath entry.1) (normal' : ∀ entry ∈ after, NormalPath entry.1)
    (fromTree toTree : RootSnapshot)
    (stored : view.HasTree names fromTree
      (prepareTreeManifestForStorage names format (buildTreeManifest names rootId before.values)))
    (stored' : view.HasTree names toTree
      (prepareTreeManifestForStorage names format (buildTreeManifest names rootId after.values)))
    (fromSnapshot toSnapshot : SnapshotManifest)
    (unlisted : fromSnapshot.roots.get rootId = none)
    (unlisted' : toSnapshot.roots.get rootId = none)
    (found : fromSnapshot.rootTrees.get rootId = some fromTree)
    (found' : toSnapshot.rootTrees.get rootId = some toTree) :
    ∃ levels, ∀ depth, levels ≤ depth → ∃ pushed,
      view.appendV2TreeDiff rootId depth fromTree toTree = ⟨pushed, .ok true⟩ ∧
      (∀ change, change ∈ pushed ↔ ∃ path,
        compareRecords rootId path (before.get path) (after.get path) = some change) ∧
      (pushed.map FileChange.path).Nodup ∧
      ∃ fromFiles toFiles flat, view.rootFileMap depth fromSnapshot rootId = .ok fromFiles ∧
        view.rootFileMap depth toSnapshot rootId = .ok toFiles ∧
        appendFileMapDiff rootId fromFiles toFiles = ⟨flat, .ok ()⟩ ∧ pushed.Perm flat := by
  refine ⟨max (TreeNodeBuild.fromEntries before).height (TreeNodeBuild.fromEntries after).height, ?_⟩
  intro depth levels
  have deep : (TreeNodeBuild.fromEntries before).height ≤ depth := by omega
  have deep' : (TreeNodeBuild.fromEntries after).height ≤ depth := by omega
  have inNodes := prepareTreeManifestForStorage_v2 names v2 rootId byPath
  have inNodes' := prepareTreeManifestForStorage_v2 names v2 rootId byPath'
  obtain ⟨pushed, walked, reports⟩ := inNodes.appendV2TreeDiff_reports inNodes' byPath byPath'
    stored stored' deep deep'
  have mapped := (inNodes.expands byPath stored deep).rootFileMap unlisted found
  have mapped' := (inNodes'.expands byPath' stored' deep').rootFileMap unlisted' found'
  have same := fileMap_of_perm byPath normal (TreeNodeBuild.fromEntries_spec byPath.once).2
  have same' := fileMap_of_perm byPath' normal' (TreeNodeBuild.fromEntries_spec byPath'.once).2
  obtain ⟨flat, compared, flatReports⟩ := appendFileMapDiff_reports rootId
    (byPath_fileMap (TreeNodeBuild.fromEntries before).flat.values).once
    (byPath_fileMap (TreeNodeBuild.fromEntries after).flat.values).once
  rw [funext same, funext same'] at flatReports
  refine ⟨pushed, walked, ?_, nodup_path reports, _, _, flat, mapped, mapped', compared, ?_⟩
  · intro change
    rw [reports.mem_iff]
    constructor
    · rintro ⟨path, -, changed⟩
      exact ⟨path, changed⟩
    · rintro ⟨path, changed⟩
      exact ⟨path, trivial, changed⟩
  · exact reports.perm flatReports

namespace TwoTrees

/-- Nodes are named by the paths and sizes of their entries and by the nodes below them. -/
def names : TreeNames where
  treeId := fun entries => String.join (entries.map Prod.fst)
  nodeId := fun _ path _ _ => path
  tree := fun tree => "objects/trees/" ++ tree.treeId
  node := fun node => "objects/trees/nodes/(" ++
    String.join (node.entries.map (fun entry => entry.1 ++ ":" ++ String.ofList (Nat.toDigits 10 entry.2.size) ++ ";")) ++
    String.join (node.childNodes.values.map TreeNodeRef.nodeKey) ++ ")"

def format : TreeFormat := ⟨true, false, 0⟩

def file (path : String) (size : Nat) : String × FileRecord :=
  (path, .plain "docs" path "file" size (.inlineSmall path ("objects/blobs/" ++ path)))

/-- `same/` is in both, `b` has changed, `old/` is gone and `new/` has come. -/
def before : Entries FileRecord := [file "b" 1, file "old/c" 2, file "same/a" 3]
def after : Entries FileRecord := [file "b" 4, file "new/d" 5, file "same/a" 3]

def stored (entries : Entries FileRecord) : TreeManifest × List TreeNodeManifest :=
  prepareTreeManifestForStorage names format (buildTreeManifest names "docs" entries.values)

def rootTree (entries : Entries FileRecord) : RootSnapshot :=
  ⟨(stored entries).1.treeId, names.tree (stored entries).1, entries.length⟩

def view : View := fun key =>
  ([before, after].flatMap (fun entries =>
    (names.tree (stored entries).1, .tree (stored entries).1) ::
      (stored entries).2.map (fun node => (names.node node, Object.node node)))).lookup key

def snapshot (entries : Entries FileRecord) : SnapshotManifest :=
  ⟨"snapshot", none, "op", [("docs", rootTree entries)], []⟩

end TwoTrees

open TwoTrees in
theorem View.appendV2TreeDiff_exact_twoTrees :
    ∃ levels, ∀ depth, levels ≤ depth → ∃ pushed,
      TwoTrees.view.appendV2TreeDiff "docs" depth (rootTree before) (rootTree after) =
        ⟨pushed, .ok true⟩ ∧
      (∀ change, change ∈ pushed ↔ ∃ path,
        compareRecords "docs" path (before.get path) (after.get path) = some change) ∧
      (pushed.map FileChange.path).Nodup := by
  have exact_ := View.appendV2TreeDiff_exact TwoTrees.view TwoTrees.names TwoTrees.format rfl "docs"
    before after ⟨by decide +kernel, by decide +kernel⟩ ⟨by decide +kernel, by decide +kernel⟩
    (by decide +kernel) (by decide +kernel) (rootTree before) (rootTree after)
    ⟨by decide +kernel, by decide +kernel⟩ ⟨by decide +kernel, by decide +kernel⟩
    (snapshot before) (snapshot after) rfl rfl rfl rfl
  obtain ⟨levels, diff⟩ := exact_
  refine ⟨levels, ?_⟩
  intro depth deep
  obtain ⟨pushed, walked, changes, once, -⟩ := diff depth deep
  exact ⟨pushed, walked, changes, once⟩

end Majutsu.Repo
