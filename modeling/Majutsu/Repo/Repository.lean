import Majutsu.Repo.Manifests

/-!
# The repository

The database rows, the object files under `objects/`, the upload queue and the
event journal of one repository, and the readers of its snapshots. `remote` holds
for every key what a download would write locally.
-/

namespace Majutsu.Repo

open Loops

def validateSlashRelativeKey (key : Key) : Except String Unit :=
  let text := key.toList
  if text.isEmpty then .error "object key must not be empty"
  else if text.contains '\\' then .error s!"object key must use '/' separators only: {key}"
  else if ['/'].isPrefixOf text then .error s!"object key must be relative: {key}"
  else if (text.splitOn '/').any (fun part => part.isEmpty || part = ['.'] || part = ['.', '.']) then
    .error s!"object key must not contain empty, '.', or '..' components: {key}"
  else .ok ()

def validateLocalObjectKey (key : Key) : Except String Unit := do
  validateSlashRelativeKey key
  if "objects/".toList.isPrefixOf key.toList then .ok ()
  else .error s!"local object key must start with objects/: {key}"

/-- The column `manifest_json`. A row of a compacted snapshot leaves it empty. -/
inductive ManifestText where
  | empty
  | parsed (manifest : SnapshotManifest)
  | malformed
  deriving DecidableEq

structure SnapshotRow where
  id : String
  manifestKey : Key
  manifestJson : ManifestText
  deriving DecidableEq

structure BlobRow where
  oid : Oid
  objectKey : Key
  packId : Option String
  deriving DecidableEq

structure PackRow where
  packId : String
  packKey : Key
  indexKey : Key
  deriving DecidableEq

structure LargeObjectRow where
  oid : Oid
  manifestKey : Key
  deriving DecidableEq

structure ChunkObjectRow where
  oid : Oid
  objectKey : Key
  deriving DecidableEq

inductive PayloadKind where
  | blob
  | large
  deriving DecidableEq

structure PayloadRow where
  snapshotId : String
  kind : PayloadKind
  oid : Oid
  deriving DecidableEq

structure Database where
  snapshots : List SnapshotRow
  blobs : List BlobRow
  packs : List PackRow
  largeObjects : List LargeObjectRow
  chunks : List ChunkObjectRow
  largePins : List Oid
  snapshotPayloadIndex : List String
  snapshotPayloads : List PayloadRow
  deriving DecidableEq

/-- The payload fields of an event journal record. -/
structure EventJournalRecord where
  durablePayloadOid : Option Oid
  durablePayloadKey : Option Key
  durableLargeManifestKey : Option Key
  durableLargeChunkCount : Option Nat
  deriving DecidableEq

/-- The payload that a restore takes from a journal record. -/
def EventJournalRecord.payload (event : EventJournalRecord) : Option Payload :=
  match event.durablePayloadOid, event.durableLargeManifestKey, event.durableLargeChunkCount with
  | some oid, some manifestKey, some chunkCount => some (.chunkedBlob oid manifestKey chunkCount)
  | some oid, _, _ => event.durablePayloadKey.map (.normalBlob oid)
  | none, _, _ => none

/-- A path by its components. -/
structure SourcePath where
  absolute : Bool
  parts : List String
  deriving DecidableEq

structure UploadQueueItem where
  key : String
  source : Option SourcePath
  deriving DecidableEq

structure Repository where
  home : List String
  db : Database
  files : Entries Object
  remote : Entries Object
  queue : List UploadQueueItem
  journal : List EventJournalRecord
  deriving DecidableEq

namespace Repository

variable (s : Repository)

def isLocal (key : Key) : Bool := (s.files.get key).isSome

/-- `read_object_raw`: a missing file is fetched. -/
def view : View := fun key =>
  match validateLocalObjectKey key with
  | .error _ => none
  | .ok () => (s.files.get key).or (s.remote.get key)

/-- `hydrate_local_object_from_remote`. -/
def fetch (key : Key) : Repository :=
  if s.isLocal key then s
  else
    match s.remote.get key with
    | some object => { s with files := s.files.insert key object }
    | none => s

/-- The chunks that a large manifest names. -/
def chunkKeys (manifestKey : Key) : List Key :=
  match s.view manifestKey with
  | some (.large manifest) => manifest.chunks.map Prod.snd
  | _ => []

/-- What a command that has read these objects leaves behind. -/
def hydrate (keys : List Key) : Repository := keys.foldl fetch s

end Repository

def isPlausibleSnapshotManifest (manifest : SnapshotManifest) : Bool :=
  "snap-".toList.isPrefixOf manifest.snapshotId.toList
    && "op-".toList.isPrefixOf manifest.opId.toList
    && manifest.rootTrees.values.all
      (fun root => "objects/trees/".toList.isPrefixOf root.treeKey.toList)

namespace View

variable (view : View)

/-- The loop over the root trees. A tree object that cannot be read ends it with the manifest
as it was stored. -/
def hydrateRoots (depth : Nat) (stored : SnapshotManifest) :
    Entries RootSnapshot → SnapshotManifest → Except String SnapshotManifest
  | [], manifest => .ok manifest
  | (rootId, rootTree) :: rest, manifest =>
    match view rootTree.treeKey with
    | none => .ok stored
    | some (.tree tree) => do
      let entries ← view.treeEntriesFromManifest depth tree
      hydrateRoots depth stored rest
        { manifest with roots := manifest.roots.insert rootId entries.values }
    | some _ => .error s!"parse root tree {rootTree.treeKey}"

def hydrateKnownCompactSnapshotManifestPayload (depth : Nat) (manifest : SnapshotManifest) :
    Except String SnapshotManifest :=
  if !isPlausibleSnapshotManifest manifest then .ok manifest
  else if !manifest.roots.isEmpty || manifest.rootTrees.isEmpty then .ok manifest
  else view.hydrateRoots depth manifest manifest.rootTrees manifest

/-- `load_snapshot_header_by_id` on a row. -/
def loadSnapshotHeader (row : SnapshotRow) : Except String SnapshotManifest :=
  match row.manifestJson with
  | .parsed manifest => .ok manifest
  | .malformed => .error s!"parse snapshot manifest metadata {row.id}"
  | .empty => view.readSnapshot row.manifestKey

def snapshotManifestFromParts (depth : Nat) (row : SnapshotRow) :
    Except String SnapshotManifest :=
  match row.manifestJson with
  | .parsed manifest => .ok manifest
  | .malformed => .error s!"parse snapshot manifest metadata {row.id}"
  | .empty => do
    let manifest ← view.readSnapshot row.manifestKey
    view.hydrateKnownCompactSnapshotManifestPayload depth manifest

end View

/-- A record of a manifest, listed flat or found by expanding one of its root trees. -/
inductive RecordOf (view : View) (manifest : SnapshotManifest) : FileRecord → Prop
  | flat {records : List FileRecord} {record : FileRecord} :
      records ∈ manifest.roots.values → record ∈ records → RecordOf view manifest record
  | tree {rootTree : RootSnapshot} {depth : Nat} {entries : Entries FileRecord}
      {record : FileRecord} :
      rootTree ∈ manifest.rootTrees.values →
      view.loadRootTreeEntries depth rootTree = .ok entries → record ∈ entries.values →
      RecordOf view manifest record

section Loading

variable {view other : View}

variable {manifest stored : SnapshotManifest} {depth : Nat}

theorem View.Le.loadSnapshotHeader (le : view.Le other) {row : SnapshotRow}
    (h : view.loadSnapshotHeader row = .ok manifest) :
    other.loadSnapshotHeader row = .ok manifest := by
  unfold View.loadSnapshotHeader at h ⊢
  cases json : row.manifestJson with
  | parsed copy => simpa only [json] using h
  | malformed => simp [json] at h
  | empty =>
    simp only [json] at h ⊢
    obtain ⟨omitted, found⟩ := View.readSnapshot_ok.mp h
    exact View.readSnapshot_ok.mpr ⟨omitted, le _ _ found⟩

/-- A loaded manifest is the stored one, with the flat records that its trees gave. -/
structure Hydrates (stored manifest : SnapshotManifest) : Prop where
  snapshotId : manifest.snapshotId = stored.snapshotId
  rootTrees : manifest.rootTrees = stored.rootTrees
  roots : stored.roots = [] ∨ manifest = stored

theorem View.hydrateRoots_hydrates {result : SnapshotManifest} {rootTrees : Entries RootSnapshot}
    (empty : stored.roots = []) (hydrates : Hydrates stored manifest)
    (h : view.hydrateRoots depth stored rootTrees manifest = .ok result) :
    Hydrates stored result := by
  induction rootTrees generalizing manifest with
  | nil =>
    cases h
    exact hydrates
  | cons root rest ih =>
    unfold View.hydrateRoots at h
    split at h
    · cases h
      exact ⟨rfl, rfl, Or.inr rfl⟩
    · obtain ⟨entries, -, later⟩ := of_bind h
      refine ih ?_ later
      exact ⟨hydrates.snapshotId, hydrates.rootTrees, Or.inl empty⟩
    · cases h

theorem View.hydrateKnown_hydrates {result : SnapshotManifest}
    (h : view.hydrateKnownCompactSnapshotManifestPayload depth stored = .ok result) :
    Hydrates stored result := by
  unfold View.hydrateKnownCompactSnapshotManifestPayload at h
  split at h
  · cases h
    exact ⟨rfl, rfl, Or.inr rfl⟩
  · split at h
    · cases h
      exact ⟨rfl, rfl, Or.inr rfl⟩
    · next compact =>
      have empty : stored.roots = [] := by
        simp only [Bool.or_eq_true, Bool.not_eq_true', not_or, Bool.not_eq_false] at compact
        simpa using compact.1
      exact View.hydrateRoots_hydrates empty ⟨rfl, rfl, Or.inr rfl⟩ h

theorem View.snapshotManifestFromParts_header {row : SnapshotRow}
    (h : view.snapshotManifestFromParts depth row = .ok manifest) :
    ∃ stored, view.loadSnapshotHeader row = .ok stored ∧ Hydrates stored manifest := by
  unfold View.snapshotManifestFromParts at h
  unfold View.loadSnapshotHeader
  cases json : row.manifestJson with
  | parsed copy =>
    simp only [json] at h ⊢
    exact ⟨manifest, h, rfl, rfl, Or.inr rfl⟩
  | malformed => simp [json] at h
  | empty =>
    simp only [json] at h ⊢
    obtain ⟨stored, read, hydrated⟩ := of_bind h
    exact ⟨stored, read, View.hydrateKnown_hydrates hydrated⟩

theorem Hydrates.recordOf {record : FileRecord} (hydrates : Hydrates stored manifest)
    (h : RecordOf view stored record) : RecordOf view manifest record := by
  cases h with
  | flat found inside =>
    rcases hydrates.roots with none | same
    · simp [none, Entries.values] at found
    · exact same ▸ .flat found inside
  | tree found load inside => exact .tree (hydrates.rootTrees ▸ found) load inside

end Loading

section Entries

variable {α : Type} {entries : Entries α} {name other : String} {value : α}

theorem Entries.get_insert_self : (entries.insert name value).get name = some value := by
  have absent : (entries.filter (fun entry => entry.1 ≠ name)).find?
      (fun entry => entry.1 = name) = none := by
    simp [List.find?_eq_none]
  simp only [Entries.get, Entries.insert, List.find?_append, absent]
  simp

theorem Entries.get_insert_of_ne (ne : other ≠ name) :
    (entries.insert name value).get other = entries.get other := by
  have last : [(name, value)].find? (fun entry => entry.1 = other) = none := by
    simp [ne.symm]
  have before : (entries.filter (fun entry => entry.1 ≠ name)).find?
      (fun entry => entry.1 = other) = entries.find? (fun entry => entry.1 = other) := by
    rw [List.find?_filter]
    congr 1
    funext entry
    by_cases same : entry.1 = other
    · simp [same, ne]
    · simp [same]
  simp only [Entries.get, Entries.insert, List.find?_append, before, last, Option.or_none]

theorem Entries.mem_insert {entry : String × α} :
    entry ∈ entries.insert name value ↔
      (entry ∈ entries ∧ entry.1 ≠ name) ∨ entry = (name, value) := by
  simp [Entries.insert]

theorem Entries.get_eq_none (h : ∀ entry ∈ entries, entry.1 ≠ name) : entries.get name = none := by
  have absent : entries.find? (fun entry => entry.1 = name) = none := by
    simpa [List.find?_eq_none] using fun a b inside => h (a, b) inside
  simp [Entries.get, absent]

theorem Entries.mem_of_get (h : entries.get name = some value) : (name, value) ∈ entries := by
  obtain ⟨entry, found, rfl⟩ := Option.map_eq_some_iff.mp h
  have same : entry.1 = name := by simpa using List.find?_some found
  exact same ▸ List.mem_of_find?_eq_some found

theorem Entries.get_map {β : Type} (xs : List β) (key : β → String) (f : β → α) :
    Entries.get (xs.map (fun x => (key x, f x))) name =
      (xs.find? (fun x => key x = name)).map f := by
  simp [Entries.get, List.find?_map, Function.comp_def]

theorem Entries.get_filter (keep : String → Bool) (h : keep name = true) :
    (Entries.get (entries.filter (fun entry => keep entry.1)) name) = entries.get name := by
  unfold Entries.get
  rw [List.find?_filter]
  congr 2
  funext entry
  by_cases same : entry.1 = name
  · simp [same, h]
  · simp [same]

end Entries

section Fetch

variable {s : Repository}

theorem Repository.fetch_db (key : Key) : (s.fetch key).db = s.db := by
  unfold Repository.fetch
  split
  · rfl
  · split <;> rfl

variable {k : Key}

theorem Repository.fetch_get {key : Key} {object : Object} (h : s.files.get k = some object) :
    (s.fetch key).files.get k = some object := by
  unfold Repository.fetch
  split
  · exact h
  · next absent =>
    split
    · have ne : k ≠ key := by
        rintro rfl
        simp [Repository.isLocal, h] at absent
      simpa only [Entries.get_insert_of_ne ne] using h
    · exact h

theorem Repository.isLocal_fetch {key : Key} (h : (s.fetch key).isLocal k) :
    s.isLocal k ∨ k = key := by
  unfold Repository.fetch at h
  split at h
  · exact Or.inl h
  · split at h
    · by_cases same : k = key
      · exact Or.inr same
      · left
        simpa only [Repository.isLocal, Entries.get_insert_of_ne same] using h
    · exact Or.inl h

theorem Repository.isLocal_hydrate {keys : List Key} (h : (s.hydrate keys).isLocal k) :
    s.isLocal k ∨ k ∈ keys := by
  induction keys generalizing s with
  | nil => exact Or.inl h
  | cons key keys ih =>
    rcases ih h with before | later
    · rcases Repository.isLocal_fetch before with there | same
      · exact Or.inl there
      · exact Or.inr (same ▸ List.mem_cons_self)
    · exact Or.inr (List.mem_cons_of_mem key later)

theorem Repository.hydrate_get {keys : List Key} {object : Object}
    (h : s.files.get k = some object) : (s.hydrate keys).files.get k = some object := by
  induction keys generalizing s with
  | nil => exact h
  | cons key keys ih => exact ih (Repository.fetch_get h)

end Fetch

end Majutsu.Repo
