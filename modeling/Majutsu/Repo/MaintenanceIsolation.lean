import Majutsu.Repo.Gc
import Majutsu.Repo.MetadataMachine

/-!
# A collection beside a writer

Four commands publish object files first and commit the rows that name them
later: `pack`, `pack compact`, the rotation of the master key and the history
rewrite of a root. None of them takes the maintenance lock that `gc` holds, so
their steps fall between its export of the metadata, its mark, its listing of the
files and its removals. A writer is the list of its file and database operations.
`backed` collects the keys that had a local file when they were published or when
a row that names them was written.
-/

namespace Majutsu.Repo

open Loops Machine

inductive WriterAction where
  /-- An object that is there already is not written again. -/
  | publish (key : Key) (object : Object)
  | commit (update : Database → Database)

structure WrittenPack where
  row : PackRow
  oids : List Oid
  pack : Object
  index : Object

structure RotatedKeys where
  blobs : Entries Key
  chunks : Entries Key
  largeObjects : Entries Key
  snapshots : Entries Key

structure HistoryRewrite where
  objects : Entries Object
  snapshotId : String
  manifestKey : Key
  manifest : SnapshotManifest

namespace Database

variable (db : Database)

def persistWrittenPacks (packs : List WrittenPack) : Database :=
  { db with
    packs := packs.foldl (fun rows pack => insertOrReplace PackRow.packId rows pack.row) db.packs
    blobs := db.blobs.map (fun blob =>
      match packs.find? (fun pack => blob.oid ∈ pack.oids) with
      | some pack => { blob with packId := some pack.row.packId }
      | none => blob) }

def deletePack (packId : String) : Database :=
  { db with packs := db.packs.filter (fun pack => pack.packId ≠ packId) }

/-- The transaction of `rotate_master_key`. -/
def rotateRows (keys : RotatedKeys) : Database :=
  { db with
    blobs := db.blobs.map (fun blob =>
      match keys.blobs.get blob.oid with
      | some key => { blob with objectKey := key, packId := none }
      | none => blob)
    packs := []
    chunks := db.chunks.map (fun chunk =>
      match keys.chunks.get chunk.oid with
      | some key => { chunk with objectKey := key }
      | none => chunk)
    largeObjects := db.largeObjects.map (fun large =>
      match keys.largeObjects.get large.oid with
      | some key => { large with manifestKey := key }
      | none => large)
    snapshots := db.snapshots.map (fun row =>
      match keys.snapshots.get row.id with
      | some key => { row with manifestKey := key, manifestJson := .empty }
      | none => row) }

def objectKeys : List Key :=
  db.blobs.map BlobRow.objectKey ++ db.packs.flatMap (fun pack => [pack.packKey, pack.indexKey]) ++
    db.chunks.map ChunkObjectRow.objectKey ++ db.largeObjects.map LargeObjectRow.manifestKey ++
    db.snapshots.map SnapshotRow.manifestKey

end Database

inductive WriterCommand where
  | packLooseBlobs (present : Key → Bool) (packs : List WrittenPack)
  | packCompact (packs : List WrittenPack) (oldPackIds : List String)
  | rotateMasterKey (objects : Entries Object) (keys : RotatedKeys)
  | forgetUnmanagedRootHistory (rewrites : List HistoryRewrite)

namespace WriterCommand

def publishAll (objects : Entries Object) : List WriterAction :=
  objects.map (fun object => .publish object.1 object.2)

def publishPacks (packs : List WrittenPack) : List WriterAction :=
  packs.flatMap (fun pack => [.publish pack.row.packKey pack.pack, .publish pack.row.indexKey pack.index])

/-- What a command does to the files and to the database, in order. -/
def actions : WriterCommand → List WriterAction
  | .packLooseBlobs present packs =>
    .commit (fun db => db.removeUnreferencedMissingLooseBlobs present) ::
      publishPacks packs ++ [.commit (fun db => db.persistWrittenPacks packs)]
  | .packCompact packs oldPackIds =>
    publishPacks packs ++ .commit (fun db => db.persistWrittenPacks packs) ::
      oldPackIds.map (fun id => .commit (fun db => db.deletePack id))
  | .rotateMasterKey objects keys => publishAll objects ++ [.commit (fun db => db.rotateRows keys)]
  | .forgetUnmanagedRootHistory rewrites =>
    rewrites.flatMap (fun rewrite => publishAll rewrite.objects ++
      [.commit (fun db => db.updateSnapshotRow rewrite.snapshotId rewrite.manifestKey),
        .commit (fun db => db.insertSnapshotPayloadIndex rewrite.manifest)])

end WriterCommand

/-- Where a collection is. -/
inductive GcPhase where
  | idle
  | exported (metadata : Database)
  | marked (referenced : List Key)
  | sweeping (referenced listed : List Key)
  | swept
  | finished

/-- Between the export of the metadata and the last removal. -/
def GcPhase.collecting : GcPhase → Bool
  | .exported _ | .marked _ | .sweeping _ _ => true
  | _ => false

structure Maintenance where
  repository : Repository
  gc : GcPhase
  started : Bool
  pending : List WriterAction
  backed : List Key

inductive MaintenanceEvent where
  | gcExport
  | gcMark (depth : Nat)
  | gcList
  | gcRemove
  | gcCompact (depth : Nat)
  | writer

namespace Maintenance

def initial (repository : Repository) (command : WriterCommand) : Maintenance where
  repository := repository
  gc := .idle
  started := false
  pending := command.actions
  backed := repository.db.objectKeys.filter repository.isLocal

def removeFile (repository : Repository) (key : Key) : Repository :=
  { repository with files := repository.files.filter (fun file => file.1 ≠ key) }

def publish (repository : Repository) (key : Key) (object : Object) : Repository :=
  if repository.isLocal key then repository
  else { repository with files := repository.files.insert key object }

variable (s : Maintenance)

/-- The mark of a collection: its keys and the repository with the objects that it fetched. -/
def mark (metadata : Database) (depth : Nat) : Option (List Key × Repository) := do
  let exported := { s.repository with db := metadata }
  let marks ← (metadata.localObjectMarks exported.view depth).toOption
  some (exported.referenced marks, s.repository.hydrate marks.opened)

def execWriter : WriterAction → List WriterAction → Maintenance
  | .publish key object, rest =>
    { s with
      started := true
      pending := rest
      repository := publish s.repository key object
      backed := s.backed ++ [key] }
  | .commit update, rest =>
    let db := update s.repository.db
    { s with
      started := true
      pending := rest
      repository := { s.repository with db := db }
      backed := s.backed ++ db.objectKeys.filter s.repository.isLocal }

def exec : MaintenanceEvent → Option Maintenance
  | .gcExport =>
    match s.gc with
    | .idle => some { s with gc := .exported s.repository.db }
    | _ => none
  | .gcMark depth =>
    match s.gc with
    | .exported metadata => do
      let (referenced, repository) ← s.mark metadata depth
      some { s with gc := .marked referenced, repository := repository }
    | _ => none
  | .gcList =>
    match s.gc with
    | .marked referenced =>
      some { s with gc := .sweeping referenced (s.repository.files.map Prod.fst) }
    | _ => none
  | .gcRemove =>
    match s.gc with
    | .sweeping _ [] => some { s with gc := .swept }
    | .sweeping referenced (key :: rest) =>
      if key ∈ referenced then some { s with gc := .sweeping referenced rest }
      else some { s with gc := .sweeping referenced rest, repository := removeFile s.repository key }
    | _ => none
  | .gcCompact depth =>
    match s.gc with
    | .swept => do
      let repository ← (s.repository.compactSnapshotManifestMetadata depth).toOption
      some { s with gc := .finished, repository := repository }
    | _ => none
  | .writer =>
    match s.pending with
    | [] => none
    | action :: rest => some (s.execWriter action rest)

/-- The writer has begun and has not ended. -/
def underWay : Bool := s.started && !s.pending.isEmpty

/-- The two commands do not overlap, and where the mark ends well every local file that a row names
is one that the snapshots and their trees, the queue or the journal name. -/
def isolated : MaintenanceEvent → Prop
  | .gcExport => s.underWay = false
  | .gcMark depth =>
    match s.gc with
    | .exported metadata => (s.mark metadata depth).isSome → ∀ key ∈ s.repository.db.objectKeys,
      s.repository.isLocal key → { s.repository with db := metadata }.Named key
    | _ => True
  | .writer => s.gc.collecting = false
  | _ => True

variable {s} in
theorem mem_mark_iff {metadata : Database} {depth : Nat} {marked : List Key × Repository}
    {key : Key} (h : s.mark metadata depth = some marked) :
    key ∈ marked.1 ↔ { s.repository with db := metadata }.Named key := by
  obtain ⟨marks, mark, result⟩ := Option.bind_eq_some_iff.mp h
  cases result
  exact Repository.mem_referenced_iff (toOption_eq_some.mp mark)

instance (event : MaintenanceEvent) : Decidable (s.isolated event) := by
  cases event with
  | gcMark depth =>
    simp only [isolated]
    cases s.gc with
    | exported metadata =>
      refine decidable_of_iff (∀ marked ∈ s.mark metadata depth,
        ∀ key ∈ s.repository.db.objectKeys, s.repository.isLocal key → key ∈ marked.1) ?_
      cases h : s.mark metadata depth with
      | none => simp [h]
      | some marked => simp [h, ← mem_mark_iff h]
    | _ => exact .isTrue trivial
  | gcExport => exact inferInstanceAs (Decidable (s.underWay = false))
  | writer => exact inferInstanceAs (Decidable (s.gc.collecting = false))
  | _ => exact .isTrue trivial

def Backed : Prop :=
  ∀ key ∈ s.repository.db.objectKeys, key ∈ s.backed → s.repository.isLocal key

end Maintenance

section Files

variable {repository after : Repository} {key k : Key} {object : Object}

theorem Maintenance.isLocal_publish (h : repository.isLocal k) :
    (Maintenance.publish repository key object).isLocal k := by
  unfold Maintenance.publish
  split
  · exact h
  · by_cases same : k = key
    · simp [Repository.isLocal, same, Entries.get_insert_self]
    · simpa only [Repository.isLocal, Entries.get_insert_of_ne same] using h

theorem Maintenance.isLocal_publish_self :
    (Maintenance.publish repository key object).isLocal key := by
  unfold Maintenance.publish
  split
  · assumption
  · simp [Repository.isLocal, Entries.get_insert_self]

theorem Maintenance.isLocal_removeFile (ne : k ≠ key) :
    (Maintenance.removeFile repository key).isLocal k = repository.isLocal k := by
  have kept : Entries.get (repository.files.filter (fun file => decide (file.1 ≠ key))) k
      = repository.files.get k :=
    Entries.get_filter (fun name => decide (name ≠ key)) (by simpa using ne)
  simp only [Repository.isLocal, Maintenance.removeFile, kept]

theorem Repository.compactSnapshot_objectKeys {depth : Nat} {row : SnapshotRow}
    (h : repository.compactSnapshot depth row = .ok after) :
    after.db.objectKeys = repository.db.objectKeys := by
  obtain ⟨done, -, h⟩ := of_bind h
  cases done with
  | true =>
    cases h
    rfl
  | false =>
    obtain ⟨manifest, -, result⟩ := of_bind h
    cases result
    have same : ∀ rows : List SnapshotRow,
        (rows.map (fun other =>
          if other.id = row.id then { other with manifestJson := .empty } else other)).map
            SnapshotRow.manifestKey = rows.map SnapshotRow.manifestKey := by
      intro rows
      rw [List.map_map]
      apply List.map_congr_left
      intro other _
      simp only [Function.comp_apply]
      split <;> rfl
    simp only [Database.objectKeys, same]

theorem Repository.compactSnapshotManifestMetadata_objectKeys {depth : Nat}
    (h : repository.compactSnapshotManifestMetadata depth = .ok after) :
    after.db.objectKeys = repository.db.objectKeys :=
  foldlM_invariant
    (I := fun _ (state : Repository) => state.db.objectKeys = repository.db.objectKeys) rfl
    (fun _ _ _ _ before round => (Repository.compactSnapshot_objectKeys round).trans before) h

end Files

/-- What a collection relies on: its export is the database, and its mark names every local file
that a row names. -/
def GcPhase.Sees (repository : Repository) : GcPhase → Prop
  | .exported metadata => metadata = repository.db
  | .marked referenced | .sweeping referenced _ =>
    ∀ key ∈ repository.db.objectKeys, repository.isLocal key → key ∈ referenced
  | _ => True

theorem GcPhase.sees_of_outside {phase : GcPhase} (outside : phase.collecting = false)
    (repository : Repository) : phase.Sees repository := by
  cases phase with
  | idle | swept | finished => trivial
  | exported | marked | sweeping => cases outside

namespace Maintenance

/-- What the steps of an isolated collection and writer keep. -/
structure Kept (s : Maintenance) : Prop where
  backed : s.Backed
  /-- Until the writer ends nothing that was backed goes. -/
  pending : s.pending ≠ [] → ∀ key ∈ s.backed, s.repository.isLocal key
  named : s.started = false → ∀ key ∈ s.backed, key ∈ s.repository.db.objectKeys
  apart : s.gc.collecting = true → s.underWay = false
  sees : s.gc.Sees s.repository

section Steps

variable {s s' : Maintenance}

theorem Kept.gcExport (kept : s.Kept) (alone : s.underWay = false)
    (h : s.exec .gcExport = some s') : s'.Kept := by
  simp only [exec] at h
  split at h
  · cases h
    exact ⟨kept.backed, kept.pending, kept.named, fun _ => alone, rfl⟩
  · cases h

theorem Kept.gcMark {depth : Nat} (kept : s.Kept) (complete : s.isolated (.gcMark depth))
    (h : s.exec (.gcMark depth) = some s') : s'.Kept := by
  simp only [exec] at h
  simp only [isolated] at complete
  split at h
  · next metadata phase =>
    simp only [phase] at complete
    obtain ⟨⟨referenced, repository⟩, mark, h⟩ := Option.bind_eq_some_iff.mp h
    cases h
    have complete := complete (by rw [mark]; rfl)
    obtain ⟨marks, -, result⟩ := Option.bind_eq_some_iff.mp mark
    cases result
    have grows : ∀ key, s.repository.isLocal key →
        (s.repository.hydrate marks.opened).isLocal key := by
      intro key there
      obtain ⟨object, found⟩ := Option.isSome_iff_exists.mp there
      simp [Repository.isLocal, Repository.hydrate_get found]
    have db := Repository.hydrate_db (s := s.repository) marks.opened
    constructor
    · intro key inside backed
      rw [db] at inside
      exact grows key (kept.backed key inside backed)
    · exact fun pending key backed => grows key (kept.pending pending key backed)
    · intro fresh key backed
      rw [db]
      exact kept.named fresh key backed
    · exact fun _ => kept.apart (by simp [phase, GcPhase.collecting])
    · intro key inside there
      rw [db] at inside
      rcases Repository.isLocal_hydrate there with before | fetched
      · exact (mem_mark_iff mark).mpr (complete key inside before)
      · simp [Repository.referenced, Database.liveKeys, Marks.keys, fetched]
  · cases h

theorem Kept.gcList (kept : s.Kept) (h : s.exec .gcList = some s') : s'.Kept := by
  simp only [exec] at h
  split at h
  · next referenced phase =>
    cases h
    have sees := kept.sees
    rw [phase] at sees
    exact ⟨kept.backed, kept.pending, kept.named,
      fun _ => kept.apart (by simp [phase, GcPhase.collecting]), sees⟩
  · cases h

theorem Kept.removeFile {referenced listed rest : List Key} {key : Key} (kept : s.Kept)
    (phase : s.gc = .sweeping referenced listed) (unreferenced : key ∉ referenced) :
    Kept { s with gc := .sweeping referenced rest
                  repository := Maintenance.removeFile s.repository key } := by
  have apart := kept.apart (by simp [phase, GcPhase.collecting])
  have sees := kept.sees
  rw [phase] at sees
  -- a local file that a row names is not the one that goes
  have other : ∀ k ∈ s.repository.db.objectKeys, s.repository.isLocal k → k ≠ key := by
    rintro k inside there rfl
    exact unreferenced (sees k inside there)
  constructor
  · intro k inside backed
    have there := kept.backed k inside backed
    dsimp only
    rwa [isLocal_removeFile (other k inside there)]
  · intro pending k backed
    have fresh : s.started = false := by
      simpa [underWay, pending] using apart
    have there := kept.pending pending k backed
    dsimp only
    rwa [isLocal_removeFile (other k (kept.named fresh k backed) there)]
  · exact kept.named
  · exact fun _ => apart
  · intro k inside there
    apply sees k inside
    by_cases same : k = key
    · subst same
      simp [Repository.isLocal, Maintenance.removeFile, Entries.get, List.find?_filter] at there
    · rwa [← isLocal_removeFile same]

theorem Kept.gcRemove (kept : s.Kept) (h : s.exec .gcRemove = some s') : s'.Kept := by
  simp only [exec] at h
  split at h
  · cases h
    exact ⟨kept.backed, kept.pending, kept.named, by rintro ⟨⟩, trivial⟩
  · next referenced key rest phase =>
    split at h
    · cases h
      have sees := kept.sees
      rw [phase] at sees
      exact ⟨kept.backed, kept.pending, kept.named,
        fun _ => kept.apart (by simp [phase, GcPhase.collecting]), sees⟩
    · next unreferenced =>
      cases h
      exact kept.removeFile phase unreferenced
  · cases h

theorem Kept.gcCompact {depth : Nat} (kept : s.Kept) (h : s.exec (.gcCompact depth) = some s') :
    s'.Kept := by
  simp only [exec] at h
  split at h
  · obtain ⟨repository, compacted, h⟩ := Option.bind_eq_some_iff.mp h
    cases h
    have compacted := toOption_eq_some.mp compacted
    have same := Repository.compactSnapshotManifestMetadata_objectKeys compacted
    have files := Repository.compactSnapshotManifestMetadata_compacts compacted
    constructor
    · intro key inside backed
      rw [same] at inside
      exact files.kept key (kept.backed key inside backed)
    · exact fun pending key backed => files.kept key (kept.pending pending key backed)
    · intro fresh key backed
      rw [same]
      exact kept.named fresh key backed
    · rintro ⟨⟩
    · trivial
  · cases h

theorem Kept.of_writer {next : Maintenance} (gc : next.gc = s.gc) (started : next.started = true)
    (outside : s.gc.collecting = false)
    (there : ∀ key ∈ next.backed, next.repository.isLocal key) : next.Kept := by
  constructor
  · exact fun key _ backed => there key backed
  · exact fun _ => there
  · intro fresh
    rw [started] at fresh
    cases fresh
  · intro collecting
    rw [gc, outside] at collecting
    cases collecting
  · rw [gc]
    exact GcPhase.sees_of_outside outside _

theorem Kept.writer (kept : s.Kept) (outside : s.gc.collecting = false)
    (h : s.exec .writer = some s') : s'.Kept := by
  simp only [exec] at h
  split at h
  · cases h
  · next action rest pending =>
    cases h
    have waiting : s.pending ≠ [] := by simp [pending]
    cases action with
    | publish key object =>
      refine Kept.of_writer (s := s) rfl rfl outside ?_
      intro k backed
      rcases List.mem_append.mp backed with before | now
      · exact isLocal_publish (kept.pending waiting k before)
      · obtain rfl := List.mem_singleton.mp now
        exact isLocal_publish_self
    | commit update =>
      refine Kept.of_writer (s := s) rfl rfl outside ?_
      intro k backed
      rcases List.mem_append.mp backed with before | now
      · exact kept.pending waiting k before
      · exact (List.mem_filter.mp now).2

theorem Kept.step {event : MaintenanceEvent} (kept : s.Kept)
    (h : Meeting (Computes exec) isolated s event s') : s'.Kept := by
  obtain ⟨h, meets⟩ := h
  cases event with
  | gcExport => exact kept.gcExport meets h
  | gcMark depth => exact kept.gcMark meets h
  | gcList => exact kept.gcList h
  | gcRemove => exact kept.gcRemove h
  | gcCompact depth => exact kept.gcCompact h
  | writer => exact kept.writer meets h

end Steps

theorem initial_kept (repository : Repository) (command : WriterCommand) :
    (initial repository command).Kept := by
  have backed : ∀ key ∈ (initial repository command).backed,
      key ∈ repository.db.objectKeys ∧ repository.isLocal key :=
    fun key inside => List.mem_filter.mp inside
  constructor
  · exact fun key _ inside => (backed key inside).2
  · exact fun _ key inside => (backed key inside).2
  · exact fun _ key inside => (backed key inside).1
  · rintro ⟨⟩
  · trivial

/-- A collection and a writer that do not overlap leave a local file under every key of a row that
had one when it was written. -/
theorem isolated_backed (repository : Repository) (command : WriterCommand) {s : Maintenance}
    {events : List MaintenanceEvent}
    (run : Run (Meeting (Computes exec) isolated) (initial repository command) events s) :
    s.Backed := by
  have kept := run.invariant (I := Kept) (fun step kept => kept.step step)
    (initial_kept repository command)
  exact kept.backed

def packNote : WriterCommand :=
  .packLooseBlobs (fun key => key = "objects/blobs/note")
    [{ row := ⟨"new", "objects/packs/new", "objects/packs/new.idx"⟩
       oids := ["note"]
       pack := .payload [8]
       index := .payload [9] }]

def collectThenPack : List MaintenanceEvent :=
  [.gcExport, .gcMark 3, .gcList] ++ List.replicate 12 .gcRemove ++ [.gcCompact 3] ++
    List.replicate 4 .writer

theorem isolated_backed_collectThenPack :
    ∃ s, Run (Meeting (Computes exec) isolated) (initial Example.archived packNote)
        collectThenPack s ∧
      s.pending.isEmpty ∧ "objects/packs/new" ∈ s.repository.db.objectKeys ∧
      "objects/packs/new" ∈ s.backed ∧ s.repository.isLocal "objects/packs/new" := by
  obtain ⟨s, run, reached⟩ := exists_run_of_execAll (guarded exec isolated) guarded_meeting
    (initial Example.archived packNote) collectThenPack
    (fun s => s.pending.isEmpty ∧ "objects/packs/new" ∈ s.repository.db.objectKeys ∧
      "objects/packs/new" ∈ s.backed) (by decide +kernel)
  obtain ⟨ended, named, backed⟩ := of_decide_eq_true reached
  exact ⟨s, run, ended, named, backed, isolated_backed _ _ run _ named backed⟩

/-- The pack publishes and commits between the mark of the collection and its removals. -/
def packDuringCollection : List MaintenanceEvent :=
  [.gcExport, .gcMark 3] ++ List.replicate 4 .writer ++ [.gcList] ++ List.replicate 14 .gcRemove ++
    [.gcCompact 3]

def GcPhase.isFinished : GcPhase → Bool
  | .finished => true
  | _ => false

theorem isolated_backed_packDuringCollection :
    ∃ s, Run (Computes exec) (initial Example.archived packNote) packDuringCollection s ∧
      s.pending.isEmpty ∧ GcPhase.isFinished s.gc ∧
      "objects/packs/new" ∈ s.repository.db.objectKeys ∧ "objects/packs/new" ∈ s.backed ∧
      ¬ s.repository.isLocal "objects/packs/new" := by
  obtain ⟨s, run, reached⟩ := exists_run_of_execAll exec id (initial Example.archived packNote)
    packDuringCollection
    (fun s => s.pending.isEmpty ∧ GcPhase.isFinished s.gc ∧
      "objects/packs/new" ∈ s.repository.db.objectKeys ∧ "objects/packs/new" ∈ s.backed ∧
      ¬ s.repository.isLocal "objects/packs/new") (by decide +kernel)
  exact ⟨s, run, of_decide_eq_true reached⟩

end Maintenance

end Majutsu.Repo
