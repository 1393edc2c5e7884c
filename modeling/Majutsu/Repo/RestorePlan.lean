import Majutsu.Lib.FileTree
import Majutsu.Repo.Journal

/-!
# Restore plans

A restore picks a snapshot, takes the records of its roots, puts the durable events of
the journal over them and looks for files of the live tree that none of the records
names. The clock is read twice: for the choice of the snapshot and for the journal.
-/

namespace Majutsu.Repo

open Loops FileTree

/-- A time on the command line. -/
inductive TimeText where
  | absolute (time : Int)
  /-- `now` and texts such as `10 minutes ago`. -/
  | ago (duration : Int)
  | malformed
  deriving DecidableEq

def TimeText.parse (now : Int) : TimeText → Except String Int
  | .absolute time => .ok time
  | .ago duration => .ok (now - duration)
  | .malformed => .error "time must be RFC3339, YYYY-MM-DD HH:MM:SS, YYYY-MM-DD, relative ago, or now"

/-- A duration such as `2h` on the command line. -/
inductive DurationText where
  | parsed (duration : Int)
  | malformed
  deriving DecidableEq

def DurationText.parseAgo (now : Int) : DurationText → Except String Int
  | .parsed duration => .ok (now - duration)
  | .malformed => .error "duration must use s, m, h, or d suffix"

structure RestoreArgs where
  snapshot : Option String
  op : Option String
  atTime : Option TimeText
  ago : Option DurationText
  root : Option String
  path : Option String
  target : Option String
  force : Bool
  checkConflicts : Bool
  deriving DecidableEq

def RestoreArgs.selectorCount (args : RestoreArgs) : Nat :=
  args.snapshot.toList.length + args.op.toList.length + args.atTime.toList.length +
    args.ago.toList.length

/-- A row with its time, and the time in the manifest that it stands for. -/
structure DatedSnapshotRow extends SnapshotRow where
  createdAt : Int
  timestamp : Int

structure OperationRow where
  id : String
  beforeSnapshot : Option String
  afterSnapshot : Option String
  createdAt : Int

structure SnapshotHeader extends SnapshotManifest where
  timestamp : Int

/-- The readings of the clock during one plan. -/
structure PlanClock where
  selecting : Int
  overlaying : Int
  forward : selecting ≤ overlaying

def PlanClock.still (now : Int) : PlanClock := ⟨now, now, Int.le_refl now⟩

/-- What a plan is made from. -/
structure RestoreSource where
  view : View
  depth : Nat
  snapshots : List DatedSnapshotRow
  operations : List OperationRow
  current : Option String
  /-- The paths of the configured roots. -/
  rootPaths : Entries String
  journal : List JournalEvent
  live : FileTree.Tree Bytes
  cwd : Place

structure RestoreDelete where
  rootId : String
  path : String
  deriving DecidableEq

structure RestorePlan where
  snapshotId : String
  target : Option String
  rootPaths : Entries String
  files : List FileRecord
  deletes : List RestoreDelete
  deriving DecidableEq

/-- The latest of the rows, the first of them if there are several. -/
def latestRow (rows : List DatedSnapshotRow) : Option DatedSnapshotRow :=
  rows.foldl (fun best row =>
    match best with
    | some found => if found.createdAt < row.createdAt then some row else some found
    | none => some row) none

/-- The operator `like` of the database: `%` stands for any text and `_` for any character, and
ASCII letters match in either case. -/
def sqlLike : List Char → List Char → Bool
  | [], text => text.isEmpty
  | '%' :: pattern, text => text.tails.any (sqlLike pattern)
  | _ :: _, [] => false
  | '_' :: pattern, _ :: text => sqlLike pattern text
  | c :: pattern, d :: text => c.toLower = d.toLower && sqlLike pattern text

namespace RestoreSource

variable (source : RestoreSource)

def snapshotIdAt (time : Int) : Except String String :=
  match latestRow (source.snapshots.filter (fun row => row.createdAt ≤ time)) with
  | some row => .ok row.id
  | none => .error "no snapshot at or before the time"

def operationIdsWithPrefix (text : String) : List OperationRow :=
  source.operations.filter (fun op => sqlLike (text.toList ++ ['%']) op.id.toList)

def queryOperationResolved (input : String) : Except String OperationRow :=
  match source.operations.find? (fun op => op.id = input) with
  | some op => .ok op
  | none =>
    match source.operationIdsWithPrefix input with
    | [op] => .ok op
    | [] => .error s!"unknown operation: {input}"
    | _ => .error s!"ambiguous operation prefix: {input}"

def selectedSnapshotId (now : Int) (args : RestoreArgs) : Except String String :=
  match args.snapshot, args.op, args.atTime, args.ago with
  | some id, _, _, _ => .ok id
  | none, some opId, _, _ => do
    let op ← source.queryOperationResolved opId
    match op.afterSnapshot.or op.beforeSnapshot with
    | some id => .ok id
    | none => .error s!"operation has no snapshot to restore: {opId}"
  | none, none, some text, _ => do
    let time ← text.parse now
    source.snapshotIdAt time
  | none, none, none, some text => do
    let time ← text.parseAgo now
    source.snapshotIdAt time
  | none, none, none, none =>
    match source.current with
    | some id => .ok id
    | none => .error "no current snapshot"

def loadSnapshotHeaderById (id : String) : Except String SnapshotHeader :=
  match source.snapshots.find? (fun row => row.id = id) with
  | some row => do
    let manifest ← source.view.loadSnapshotHeader row.toSnapshotRow
    .ok { manifest with timestamp := row.timestamp }
  | none => .error "Query returned no rows"

def loadSnapshotHeader (now : Int) (args : RestoreArgs) : Except String SnapshotHeader :=
  if args.selectorCount > 1 then .error "use only one of --snapshot, --op, --at, or --ago"
  else do
    let id ← source.selectedSnapshotId now args
    source.loadSnapshotHeaderById id

end RestoreSource

def validateRelativeFilterPath (label text : String) : Except String Unit :=
  if text.toList.isEmpty || (Path.parse text).absolute then
    .error s!"{label} must be a relative path inside the selected root"
  else
    match (Path.parse text).names? with
    | none => .error s!"{label} must not contain '.', '..', prefixes, or root separators"
    | some [] => .error s!"{label} must not be empty"
    | some _ => .ok ()

def takesRoot (filter : Option String) (rootId : String) : Bool :=
  match filter with
  | some wanted => wanted = rootId
  | none => true

def takesPath (filter : Option String) (path : String) : Bool :=
  match filter with
  | some wanted => (Path.parse path).startsWith (Path.parse wanted)
  | none => true

def restorePlanRootIds (snapshot : SnapshotManifest) : List String :=
  ((snapshot.rootTrees.map Prod.fst ++ snapshot.roots.map Prod.fst).foldl
    (fun ids id => SortedMap.insert id () ids) []).map Prod.fst

def RestoreSource.rootRecords (source : RestoreSource) (snapshot : SnapshotManifest)
    (rootId : String) : Except String (List FileRecord) :=
  match snapshot.roots.get rootId with
  | some records => .ok records
  | none =>
    match snapshot.rootTrees.get rootId with
    | some rootTree => source.view.visitTreeRecords source.depth rootTree
    | none => .ok []

def collectRestorePlanRecords (source : RestoreSource) (snapshot : SnapshotManifest)
    (filter : Option String) (rootId : String) : Except String (List FileRecord) := do
  let records ← source.rootRecords snapshot rootId
  .ok (records.filter (fun record => takesPath filter record.path))

/-- The time up to which a restore reads the journal. -/
def overlayUpTo (now : Int) (args : RestoreArgs) : Except String Int :=
  match args.atTime with
  | some text => text.parse now
  | none => .ok now

def journalWindow (args : RestoreArgs) (snapshot : SnapshotHeader) (upTo : Int) :
    JournalWindow :=
  { after := snapshot.timestamp, upTo, takesRoot := takesRoot args.root,
    takesPath := takesPath args.path }

def overlayDurableJournalRecords (now : Int) (journal : List JournalEvent) (args : RestoreArgs)
    (snapshot : SnapshotHeader) (files : List FileRecord) : Except String (List FileRecord) :=
  if args.snapshot.isSome then .ok files
  else do
    let upTo ← overlayUpTo now args
    .ok ((journalWindow args snapshot upTo).overlay journal files)

def restoreRootBase (cwd : Place) (target : Option String) (rootPaths : Entries String)
    (rootId : String) : Except String Path :=
  match target with
  | some target => .ok (((Path.parse target).within cwd).join (Path.parse rootId))
  | none =>
    match rootPaths.get rootId with
    | some path => .ok ((Path.parse path).within cwd)
    | none => .error s!"snapshot root is not configured locally: {rootId}"

def tryExists (live : FileTree.Tree Bytes) (path : Path) : Except String Bool :=
  match live.resolve path with
  | .ok _ => .ok true
  | .error .notFound => .ok false
  | .error _ => .error "stat failed"

/-- Whether the last name of a path is that of a link. -/
def isLink (live : FileTree.Tree Bytes) (path : Path) : Bool :=
  match live.locate path with
  | .ok (_, .symlink _) => true
  | _ => false

/-- What a walk from a path comes to, without the directories. A link at its start is followed
and is itself one of the entries. Names start at the base, to which the names of the filter
lead. -/
def walkFiles (live : FileTree.Tree Bytes) (scanBase : Path) (names : Place) : Except String (List Place) :=
  match live.resolve scanBase with
  | .error _ => .error "walk failed"
  | .ok place =>
    match live.get place with
    | some .dir => .ok ((if isLink live scanBase then [names] else []) ++
        ((live.below place).filter (fun entry => entry.2 ≠ .dir)).map
          (fun entry => names ++ entry.1))
    | _ => .ok [names]

/-- The order of the deletes: by root, and in a root the longest path first. -/
def deleteBefore (a b : RestoreDelete) : Bool :=
  a.rootId < b.rootId || (a.rootId = b.rootId && (b.path.utf8ByteSize < a.path.utf8ByteSize ||
    (a.path.utf8ByteSize = b.path.utf8ByteSize && a.path ≤ b.path)))

def leftOver (files : List FileRecord) (rootId : String) (found : List Place) :
    List RestoreDelete :=
  ((found.map slashText).filter (fun path =>
    !files.any (fun record => record.rootId = rootId && record.path = path))).map
      (RestoreDelete.mk rootId)

def rootDeletes (cwd : Place) (live : FileTree.Tree Bytes) (args : RestoreArgs)
    (rootPaths : Entries String) (files : List FileRecord) (rootId : String) :
    Except String (List RestoreDelete) := do
  let base ← restoreRootBase cwd args.target rootPaths rootId
  let filter := args.path.map Path.parse
  let scanBase := (filter.map base.join).getD base
  let scanned ← tryExists live scanBase
  if scanned then
    let found ← walkFiles live scanBase ((filter.bind Path.names?).getD [])
    .ok (leftOver files rootId found)
  else .ok []

def buildRestoreDeletes (cwd : Place) (live : FileTree.Tree Bytes) (args : RestoreArgs)
    (rootPaths : Entries String) (rootIds : List String) (files : List FileRecord) :
    Except String (List RestoreDelete) := do
  let deletes ← (rootIds.filter (takesRoot args.root)).mapM
    (rootDeletes cwd live args rootPaths files)
  .ok (deletes.flatten.insertionSort (fun a b => deleteBefore a b = true))

/-- `ensure_restore_existing_path_without_symlinks`: the directories of a path as far as they
exist. -/
def ensureExisting (live : FileTree.Tree Bytes) (done : List Step) : List Step → Except String Unit
  | [] => .ok ()
  | step :: rest =>
    match live.locate ⟨true, done ++ [step]⟩ with
    | .ok (_, .symlink _) => .error "restore path component is a symlink"
    | .ok (_, .dir) => ensureExisting live (done ++ [step]) rest
    | .ok _ => .error "restore path component is not a directory"
    | .error .notFound => .ok ()
    | .error _ => .error "inspect restore directory"

def restorePlanOutputRoots (files : List FileRecord) (deletes : List RestoreDelete) :
    List String :=
  ((files.map FileRecord.rootId ++ deletes.map RestoreDelete.rootId).foldl
    (fun ids id => SortedMap.insert id () ids) []).map Prod.fst

def validateRestorePlanDestinations (cwd : Place) (live : FileTree.Tree Bytes) (plan : RestorePlan) :
    Except String Unit :=
  (restorePlanOutputRoots plan.files plan.deletes).forM fun rootId => do
    let base ← restoreRootBase cwd plan.target plan.rootPaths rootId
    ensureExisting live [] base.proper

def planRoots (args : RestoreArgs) (snapshot : SnapshotManifest) : List String :=
  (restorePlanRootIds snapshot).filter (takesRoot args.root)

/-- The records of the snapshot that the filters let through. -/
def RestoreSource.snapshotFiles (source : RestoreSource) (args : RestoreArgs)
    (snapshot : SnapshotManifest) : Except String (List FileRecord) := do
  let records ← (planRoots args snapshot).mapM
    (collectRestorePlanRecords source snapshot args.path)
  .ok records.flatten

/-- The plan that puts given records into the live tree. -/
def RestoreSource.planOf (source : RestoreSource) (args : RestoreArgs)
    (snapshot : SnapshotManifest) (files : List FileRecord) : Except String RestorePlan := do
  let deletes ← buildRestoreDeletes source.cwd source.live args source.rootPaths
    (planRoots args snapshot) files
  let plan : RestorePlan := ⟨snapshot.snapshotId, args.target, source.rootPaths, files, deletes⟩
  validateRestorePlanDestinations source.cwd source.live plan
  .ok plan

def buildRestorePlan (clock : PlanClock) (source : RestoreSource) (args : RestoreArgs) :
    Except String RestorePlan := do
  args.path.forM (validateRelativeFilterPath "restore --path")
  let snapshot ← source.loadSnapshotHeader clock.selecting args
  let files ← source.snapshotFiles args snapshot.toSnapshotManifest
  let files ← overlayDurableJournalRecords clock.overlaying source.journal args snapshot files
  source.planOf args snapshot.toSnapshotManifest files

section Building

variable {clock : PlanClock} {source : RestoreSource} {args : RestoreArgs} {plan : RestorePlan}

theorem planOf_ok {snapshot : SnapshotManifest} {files : List FileRecord}
    (h : source.planOf args snapshot files = .ok plan) :
    plan.snapshotId = snapshot.snapshotId ∧ plan.files = files ∧
      buildRestoreDeletes source.cwd source.live args source.rootPaths (planRoots args snapshot)
        files = .ok plan.deletes := by
  obtain ⟨deletes, listed, h⟩ := of_bind h
  obtain ⟨_, -, h⟩ := of_bind h
  cases h
  exact ⟨rfl, rfl, listed⟩

theorem buildRestorePlan_ok :
    buildRestorePlan clock source args = .ok plan ↔
      args.path.forM (validateRelativeFilterPath "restore --path") = .ok () ∧
      ∃ snapshot base files, source.loadSnapshotHeader clock.selecting args = .ok snapshot ∧
        source.snapshotFiles args snapshot.toSnapshotManifest = .ok base ∧
        overlayDurableJournalRecords clock.overlaying source.journal args snapshot base =
          .ok files ∧
        source.planOf args snapshot.toSnapshotManifest files = .ok plan := by
  constructor
  · intro h
    obtain ⟨_, valid, h⟩ := of_bind h
    obtain ⟨snapshot, header, h⟩ := of_bind h
    obtain ⟨base, collected, h⟩ := of_bind h
    obtain ⟨files, overlaid, h⟩ := of_bind h
    exact ⟨valid, snapshot, base, files, header, collected, overlaid, h⟩
  · rintro ⟨valid, snapshot, base, files, header, collected, overlaid, h⟩
    exact bind_ok ⟨_, valid, bind_ok ⟨_, header, bind_ok ⟨_, collected, bind_ok ⟨_, overlaid, h⟩⟩⟩⟩

end Building

end Majutsu.Repo
