import Majutsu.Repo.RestorePlan
import Majutsu.Repo.SnapshotRules

/-!
# What a restore deletes

A restore to the original roots deletes the live files that no record of the
plan names. It should delete only what the root backs up. The list is made from
a walk of its own that asks neither the rules of the root nor the other roots,
so both have to agree with the walk for the list to be right.
-/

namespace Majutsu.Repo

open FileTree Loops

/-- The rules of the configured roots, with the libraries that read their patterns. -/
abbrev RuleBook : Type := String → Matchers × RootPatterns

def RuleBook.manages (book : RuleBook) (rootId path : String) : Bool :=
  (book rootId).2.rootRecordIsManaged (book rootId).1 path false

/-- Whether a file is in the directory of a configured root that the restore leaves alone. -/
def RestoreSource.inForeignRoot (source : RestoreSource) (args : RestoreArgs)
    (covered : List String) (rootId path : String) : Bool :=
  match restoreRootBase source.cwd args.target source.rootPaths rootId with
  | .error _ => false
  | .ok base =>
    match source.live.locate (base.join (Path.parse path)) with
    | .error _ => false
    | .ok (place, _) => source.rootPaths.any (fun other => !covered.contains other.1 &&
        match source.live.resolve ((Path.parse other.2).within source.cwd) with
        | .ok dir => dir.isPrefixOf place
        | .error _ => false)

/-- The root backs the file up, and no other root does that is not restored. -/
def Rightful (book : RuleBook) (source : RestoreSource) (args : RestoreArgs)
    (covered : List String) (delete : RestoreDelete) : Prop :=
  book.manages delete.rootId delete.path = true ∧
    source.inForeignRoot args covered delete.rootId delete.path = false

/-- Where the scan of a root starts. -/
def RestoreArgs.scanBase (args : RestoreArgs) (base : Path) : Path :=
  ((args.path.map Path.parse).map base.join).getD base

def RestoreArgs.scanNames (args : RestoreArgs) : Place :=
  ((args.path.map Path.parse).bind Path.names?).getD []

/-- The live files of a root, by the names that lead to them from its directory: everything in
the tree at or below the start of the scan that is no directory. A link where the scan starts
is one of them, also when it leads to a directory. -/
inductive RestoreSource.LiveFile (source : RestoreSource) (args : RestoreArgs) (rootId : String) :
    Place → Prop
  | start {base : Path} {place : Place}
      (based : restoreRootBase source.cwd args.target source.rootPaths rootId = .ok base)
      (leads : source.live.resolve (args.scanBase base) = .ok place)
      (file : source.live.get place ≠ some .dir ∨ isLink source.live (args.scanBase base) = true) :
      source.LiveFile args rootId args.scanNames
  | entry {base : Path} {place names : Place} {node : Node Bytes}
      (based : restoreRootBase source.cwd args.target source.rootPaths rootId = .ok base)
      (leads : source.live.resolve (args.scanBase base) = .ok place) (below : names ≠ [])
      (there : source.live.get (place ++ names) = some node) (file : node ≠ .dir) :
      source.LiveFile args rootId (args.scanNames ++ names)

def Recorded (files : List FileRecord) (rootId path : String) : Prop :=
  ∃ record ∈ files, record.rootId = rootId ∧ record.path = path

section Lists

variable {source : RestoreSource} {args : RestoreArgs} {files : List FileRecord}
  {rootId : String} {delete : RestoreDelete}

theorem mem_leftOver_iff {found : List Place} : delete ∈ leftOver files rootId found ↔
    ∃ names ∈ found, ¬ Recorded files rootId (slashText names) ∧
      delete = ⟨rootId, slashText names⟩ := by
  simp only [leftOver, List.mem_map, List.mem_filter, Recorded]
  constructor
  · rintro ⟨path, ⟨⟨names, inside, rfl⟩, free⟩, rfl⟩
    refine ⟨names, inside, ?_, rfl⟩
    simpa using free
  · rintro ⟨names, inside, free, rfl⟩
    refine ⟨_, ⟨⟨names, inside, rfl⟩, ?_⟩, rfl⟩
    simpa using free

theorem mem_walkFiles {live : FileTree.Tree Bytes} {start : Path} {names : Place}
    {found : List Place} (walked : walkFiles live start names = .ok found) {place : Place}
    (leads : live.resolve start = .ok place) {other : Place} :
    other ∈ found ↔
      (other = names ∧ (live.get place ≠ some .dir ∨ isLink live start = true)) ∨
        ∃ below node, below ≠ [] ∧ live.get (place ++ below) = some node ∧ node ≠ .dir ∧
          other = names ++ below := by
  unfold walkFiles at walked
  simp only [leads] at walked
  by_cases dir : live.get place = some .dir
  · simp only [dir] at walked
    cases walked
    simp only [List.mem_append, List.mem_map, List.mem_filter, Prod.exists, Tree.mem_below,
      decide_eq_true_eq, dir, ne_eq, not_true_eq_false, false_or]
    refine or_congr ?_ ?_
    · split <;> simp [*]
    · constructor
      · rintro ⟨below, node, ⟨⟨longer, there⟩, file⟩, rfl⟩
        exact ⟨below, node, longer, there, file, rfl⟩
      · rintro ⟨below, node, longer, there, file, rfl⟩
        exact ⟨below, node, ⟨⟨longer, there⟩, file⟩, rfl⟩
  · split at walked
    · next at_ => exact absurd at_ dir
    cases walked
    constructor
    · intro same
      exact Or.inl ⟨List.mem_singleton.mp same, Or.inl dir⟩
    · rintro (⟨same, -⟩ | ⟨below, node, longer, there, -⟩)
      · exact List.mem_singleton.mpr same
      · exact absurd (Tree.dir_of_get longer there) dir

/-- The scan of a root leaves over its live files that are not recorded. -/
theorem mem_rootDeletes {deletes : List RestoreDelete}
    (listed : rootDeletes source.cwd source.live args source.rootPaths files rootId =
      .ok deletes) :
    delete ∈ deletes ↔ ∃ names, source.LiveFile args rootId names ∧
      ¬ Recorded files rootId (slashText names) ∧ delete = ⟨rootId, slashText names⟩ := by
  obtain ⟨base, based, listed⟩ := of_bind listed
  obtain ⟨scanned, looked, listed⟩ := of_bind listed
  unfold tryExists at looked
  split at looked
  · next place leads =>
    cases looked
    obtain ⟨found, walked, listed⟩ := of_bind listed
    cases listed
    rw [mem_leftOver_iff]
    refine exists_congr fun names => and_congr_left fun _ => ?_
    rw [mem_walkFiles walked leads]
    constructor
    · rintro (⟨rfl, file⟩ | ⟨below, node, longer, there, file, rfl⟩)
      · exact .start based leads file
      · exact .entry based leads longer there file
    · rintro (⟨based', leads', file⟩ | ⟨based', leads', longer, there, file⟩)
      · cases based.symm.trans based'
        cases leads.symm.trans leads'
        exact Or.inl ⟨rfl, file⟩
      · cases based.symm.trans based'
        cases leads.symm.trans leads'
        exact Or.inr ⟨_, _, longer, there, file, rfl⟩
  · next missing =>
    cases looked
    cases listed
    constructor
    · intro member
      cases member
    · rintro ⟨names, ⟨based', leads', -⟩ | ⟨based', leads', -⟩, -⟩
      all_goals
        cases based.symm.trans based'
        cases missing.symm.trans leads'
  · cases looked

theorem mem_buildRestoreDeletes {roots : List String} {deletes : List RestoreDelete}
    (listed : buildRestoreDeletes source.cwd source.live args source.rootPaths roots files =
      .ok deletes) :
    delete ∈ deletes ↔ ∃ rootId ∈ roots.filter (takesRoot args.root), ∃ names,
      source.LiveFile args rootId names ∧ ¬ Recorded files rootId (slashText names) ∧
        delete = ⟨rootId, slashText names⟩ := by
  obtain ⟨lists, each, sorted⟩ := of_bind listed
  cases sorted
  rw [List.mem_insertionSort, List.mem_flatten]
  constructor
  · rintro ⟨list, inside, member⟩
    obtain ⟨rootId, root, made⟩ := mem_of_mapM each inside
    exact ⟨rootId, root, (mem_rootDeletes made).mp member⟩
  · rintro ⟨rootId, root, member⟩
    obtain ⟨list, made, inside⟩ := mapM_mem each root
    exact ⟨list, inside, (mem_rootDeletes made).mpr member⟩

end Lists

/-- A restore deletes only what it may exactly if every live file of a restored root that no
record names is managed by the root and in no root left alone. -/
theorem restore_deletes_rightful_iff {clock : PlanClock} {source : RestoreSource}
    {args : RestoreArgs} {plan : RestorePlan} {snapshot : SnapshotHeader} (book : RuleBook)
    (chosen : source.loadSnapshotHeader clock.selecting args = .ok snapshot)
    (built : buildRestorePlan clock source args = .ok plan) :
    (∀ delete ∈ plan.deletes,
        Rightful book source args (planRoots args snapshot.toSnapshotManifest) delete) ↔
      ∀ rootId ∈ planRoots args snapshot.toSnapshotManifest, ∀ names,
        source.LiveFile args rootId names → ¬ Recorded plan.files rootId (slashText names) →
          book.manages rootId (slashText names) = true ∧
            source.inForeignRoot args (planRoots args snapshot.toSnapshotManifest) rootId
              (slashText names) = false := by
  obtain ⟨-, snapshot', base, files, header, -, -, made⟩ := buildRestorePlan_ok.mp built
  cases chosen.symm.trans header
  obtain ⟨-, rfl, listed⟩ := planOf_ok made
  have roots : (planRoots args snapshot.toSnapshotManifest).filter (takesRoot args.root) =
      planRoots args snapshot.toSnapshotManifest := by
    rw [planRoots, List.filter_filter]
    simp only [Bool.and_self]
  constructor
  · intro rightful rootId root names file free
    refine rightful ⟨rootId, slashText names⟩ ((mem_buildRestoreDeletes listed).mpr ?_)
    rw [roots]
    exact ⟨rootId, root, names, file, free, rfl⟩
  · intro condition delete member
    obtain ⟨rootId, root, names, file, free, rfl⟩ := (mem_buildRestoreDeletes listed).mp member
    rw [roots] at root
    exact condition rootId root names file free

namespace NestedRoots

def record : FileRecord := .plain "notes" "a" "symlink" 0 (.symlink "b")

def manifest : SnapshotManifest := ⟨"snap-1", none, "op-1", [], [("notes", [record])]⟩

/-- The root `inner` lies in the root `notes`. -/
def source (live : FileTree.Tree Bytes) : RestoreSource where
  view := fun _ => none
  depth := 0
  snapshots := [⟨⟨"snap-1", "", .parsed manifest⟩, 10, 10⟩]
  operations := []
  current := some "snap-1"
  rootPaths := [("inner", "/r/sub"), ("notes", "/r")]
  journal := []
  live
  cwd := []

/-- Beside the link there is a file that the root manages. -/
def grown : FileTree.Tree Bytes :=
  ⟨[(["r"], .dir), (["r", "a"], .symlink "b"), (["r", "new"], .file [])], by decide, by decide⟩

/-- Beside the link there is a file of the other root, and one that is not tracked. -/
def crowded : FileTree.Tree Bytes :=
  ⟨[(["r"], .dir), (["r", "a"], .symlink "b"), (["r", "sub"], .dir), (["r", "sub", "f"], .file []),
    (["r", "cache"], .dir), (["r", "cache", "t"], .file [])], by decide, by decide⟩

/-- Restore `notes` and nothing else. -/
def args : RestoreArgs := ⟨some "snap-1", none, none, none, some "notes", none, none, true, false⟩

def clock : PlanClock := .still 30

def book : RuleBook := fun _ =>
  (⟨fun _ _ => false, fun _ _ => false⟩,
    { includes := [], volatile := none, explicitTrack := [], explicitUntrack := ["cache"] })

def header : SnapshotHeader := { manifest with timestamp := 10 }

end NestedRoots

namespace NestedRoots

theorem liveFile_grown {names : Place} (file : (source grown).LiveFile args "notes" names) :
    names = ["a"] ∨ names = ["new"] := by
  have base : restoreRootBase [] none (source grown).rootPaths "notes" =
      .ok ⟨true, [.name "r"]⟩ := by decide +kernel
  have dir : grown.resolve ⟨true, [.name "r"]⟩ = .ok ["r"] := by decide +kernel
  cases file with
  | start based leads file =>
    cases base.symm.trans based
    cases dir.symm.trans leads
    exact absurd file (by decide +kernel)
  | entry based leads below there file =>
    cases base.symm.trans based
    cases dir.symm.trans leads
    have member := Tree.mem_of_get (by simp) there
    simp only [grown, source, List.mem_cons, List.not_mem_nil, or_false, Prod.mk.injEq,
      List.cons_append, List.nil_append, List.cons.injEq, true_and] at member
    rcases member with ⟨rfl, -⟩ | ⟨rfl, -⟩ | ⟨rfl, -⟩
    · exact absurd rfl below
    · exact Or.inl rfl
    · exact Or.inr rfl

end NestedRoots

open NestedRoots in
theorem restore_deletes_rightful_grown : ∃ plan,
    buildRestorePlan clock (source grown) args = .ok plan ∧ plan.deletes = [⟨"notes", "new"⟩] ∧
      ∀ delete ∈ plan.deletes,
        Rightful book (source grown) args (planRoots args header.toSnapshotManifest) delete := by
  obtain ⟨plan, built, deletes, files⟩ : ∃ plan,
      buildRestorePlan clock (source grown) args = .ok plan ∧
        plan.deletes = [⟨"notes", "new"⟩] ∧ plan.files = [record] :=
    exists_ok_of_decide (by decide +kernel)
  have chosen : (source grown).loadSnapshotHeader clock.selecting args = .ok header := rfl
  have roots : planRoots args header.toSnapshotManifest = ["notes"] := by decide
  refine ⟨plan, built, deletes, (restore_deletes_rightful_iff book chosen built).mpr ?_⟩
  intro rootId root names file free
  rw [roots, List.mem_singleton] at root
  subst root
  rcases liveFile_grown file with rfl | rfl
  · exact absurd ⟨record, by simp [files], by decide, by decide⟩ free
  · decide +kernel

open NestedRoots in
/-- The deletes name a file of the other root, and one that the root does not track. -/
theorem restore_deletes_foreign_files : ∃ plan,
    buildRestorePlan clock (source crowded) args = .ok plan ∧
      plan.deletes = [⟨"notes", "cache/t"⟩, ⟨"notes", "sub/f"⟩] ∧
      book.manages "notes" "cache/t" = false ∧
      (source crowded).inForeignRoot args (planRoots args header.toSnapshotManifest) "notes"
        "sub/f" = true :=
  exists_ok_of_decide (by decide +kernel)

end Majutsu.Repo
