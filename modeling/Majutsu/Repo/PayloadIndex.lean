import Majutsu.Repo.MetadataMachine

/-!
# The payload index over whole histories

The index is written from the flat records of a manifest, so it is complete only
if the manifest that a command hands over lists flat what its root trees hold. A
history of steps that do keeps the index complete. A snapshot does if the parent
it carries roots over from was loaded with all its trees.
-/

namespace Majutsu.Repo

open Loops Machine

section Listing

variable {content view : View}

/-- The roots that a loop has collected: only of roots that it has handled, and listing. -/
structure Roots.Listed (content : View) (depth : Nat) (done : List String) (roots : Roots) :
    Prop where
  trees : ∀ root ∈ roots.trees, root.1 ∈ done
  records : ∀ root ∈ roots.records, root.1 ∈ done
  lists : ∀ root ∈ roots.trees,
    content.listsRoot depth root.2 ((roots.records.get root.1).getD [])

variable {depth : Nat} {done : List String} {roots : Roots} {name : String}
  {parent : Option SnapshotManifest}

theorem Roots.Listed.get_eq_none (listed : roots.Listed content depth done) (new : name ∉ done) :
    roots.records.get name = none :=
  Entries.get_eq_none (fun entry inside same => new (same ▸ listed.records entry inside))

theorem Roots.Listed.insert (listed : roots.Listed content depth done) {rootTree : RootSnapshot}
    {records : List FileRecord} (lists : content.listsRoot depth rootTree records) :
    Roots.Listed content depth (done ++ [name])
      ⟨roots.trees.insert name rootTree, roots.records.insert name records⟩ := by
  constructor
  · intro root inside
    rcases Entries.mem_insert.mp inside with ⟨old, -⟩ | rfl
    · exact List.mem_append_left _ (listed.trees root old)
    · simp
  · intro root inside
    rcases Entries.mem_insert.mp inside with ⟨old, -⟩ | rfl
    · exact List.mem_append_left _ (listed.records root old)
    · simp
  · intro root inside
    rcases Entries.mem_insert.mp inside with ⟨old, ne⟩ | rfl
    · rw [Entries.get_insert_of_ne ne]
      exact listed.lists root old
    · rw [Entries.get_insert_self]
      exact lists

theorem Roots.Listed.carry (listed : roots.Listed content depth done) (new : name ∉ done)
    (parentLists : ∀ manifest ∈ parent, content.lists depth manifest) :
    (carryForwardRootSnapshot parent name roots).Listed content depth (done ++ [name]) := by
  have weaken : roots.Listed content depth (done ++ [name]) :=
    ⟨fun root inside => List.mem_append_left _ (listed.trees root inside),
      fun root inside => List.mem_append_left _ (listed.records root inside), listed.lists⟩
  cases parent with
  | none => exact weaken
  | some parent =>
    have parentLists := List.all_eq_true.mp (parentLists parent rfl)
    unfold carryForwardRootSnapshot
    dsimp only
    cases tree : parent.rootTrees.get name with
    | none =>
      cases flat : parent.roots.get name with
      | none => exact weaken
      | some records =>
        constructor
        · exact weaken.trees
        · intro root inside
          rcases Entries.mem_insert.mp inside with ⟨old, -⟩ | rfl
          · exact weaken.records root old
          · simp
        · intro root inside
          have ne : root.1 ≠ name := fun same => new (same ▸ listed.trees root inside)
          dsimp only
          rw [Entries.get_insert_of_ne ne]
          exact listed.lists root inside
    | some rootTree =>
      have lists := parentLists _ (Entries.mem_of_get tree)
      cases flat : parent.roots.get name with
      | some records =>
        simp only [flat, Option.getD_some] at lists
        exact listed.insert lists
      | none =>
        simp only [flat, Option.getD_none] at lists
        constructor
        · intro root inside
          rcases Entries.mem_insert.mp inside with ⟨old, -⟩ | rfl
          · exact weaken.trees root old
          · simp
        · exact weaken.records
        · intro root inside
          rcases Entries.mem_insert.mp inside with ⟨old, -⟩ | rfl
          · exact listed.lists root old
          · dsimp only
            rw [listed.get_eq_none new]
            exact lists

theorem View.listsRoot_of_storesTree {rootTree : RootSnapshot} {entries : Entries FileRecord}
    (stores : content.storesTree depth rootTree entries) :
    content.listsRoot depth rootTree entries.values := by
  unfold View.storesTree at stores
  unfold View.listsRoot
  split at stores
  · exact (Bool.and_eq_true_iff.mp stores).1
  · cases stores

theorem View.snapshotManifest_lists {call : SnapshotCall} {manifest : SnapshotManifest}
    (distinct : (call.roots.map Prod.fst).Nodup) (stores : content.storesScans depth call.roots)
    (parentLists : call.roots.any (fun root => root.2.isCarry) →
      ∀ manifest ∈ parent, content.lists depth manifest)
    (h : view.snapshotManifest depth parent call = .ok manifest) :
    content.lists depth manifest := by
  obtain ⟨roots, loop, result⟩ := of_bind h
  cases result
  have listed : roots.Listed content depth (call.roots.map Prod.fst) := by
    refine foldlM_invariant (I := fun (done : List (String × RootAction)) (roots : Roots) =>
      (done.map Prod.fst).Nodup → content.storesScans depth done →
        (∀ root ∈ done, root ∈ call.roots) → roots.Listed content depth (done.map Prod.fst))
      ?_ ?_ loop distinct stores (fun _ inside => inside)
    · intro _ _ _
      exact ⟨by simp, by simp, by simp⟩
    · intro done root acc next before round distinct stores subset
      rw [List.map_append, List.nodup_append] at distinct
      obtain ⟨distinct, -, apart⟩ := distinct
      unfold View.storesScans at stores
      rw [List.all_append, Bool.and_eq_true_iff] at stores
      have listed := before distinct stores.1
        (fun other inside => subset other (List.mem_append_left _ inside))
      have new : root.1 ∉ done.map Prod.fst := fun inside => apart _ inside root.1 (by simp) rfl
      rw [List.map_append]
      unfold View.snapshotRoot at round
      have own := List.all_eq_true.mp stores.2 root (by simp)
      split at round
      · cases round
        exact ⟨fun r inside => List.mem_append_left _ (listed.trees r inside),
          fun r inside => List.mem_append_left _ (listed.records r inside), listed.lists⟩
      · next action =>
        cases round
        apply listed.carry new
        exact parentLists (List.any_eq_true.mpr ⟨root, subset root (by simp), by simp [action,
          RootAction.isCarry]⟩)
      · next records rootTree action =>
        obtain ⟨_, -, result⟩ := of_bind round
        cases result
        rw [action] at own
        exact listed.insert (View.listsRoot_of_storesTree own)
  exact List.all_eq_true.mpr listed.lists

theorem View.snapshotManifest_snapshotId {call : SnapshotCall} {manifest : SnapshotManifest}
    (h : view.snapshotManifest depth parent call = .ok manifest) :
    manifest.snapshotId = call.snapshotId := by
  obtain ⟨roots, -, result⟩ := of_bind h
  cases result
  rfl

end Listing

section Indexing

variable {content : View} {db : Database}

theorem Entries.mem_values_of_get {α : Type} {entries : Entries α} {name : String} {value : α}
    (h : entries.get name = some value) : value ∈ entries.values := by
  obtain ⟨entry, found, rfl⟩ := Option.map_eq_some_iff.mp h
  exact List.mem_map.mpr ⟨entry, List.mem_of_find?_eq_some found, rfl⟩

variable {manifest : SnapshotManifest} {record : FileRecord}

theorem View.mem_flatRecords_of_lists {depth : Nat} (lists : content.lists depth manifest)
    (h : RecordOf content manifest record) : record ∈ manifest.flatRecords := by
  cases h with
  | flat found inside => exact List.mem_flatten_of_mem found inside
  | @tree rootTree depth' entries _ found load inside =>
    obtain ⟨root, member, rfl⟩ := List.mem_map.mp found
    have listed := List.all_eq_true.mp lists root member
    unfold View.listsRoot at listed
    split at listed
    · next entries' load' =>
      obtain rfl := View.loadRootTreeEntries_unique load load'
      have flat := of_decide_eq_true (List.all_eq_true.mp listed record inside)
      cases roots : manifest.roots.get root.1 with
      | none => simp [roots] at flat
      | some records =>
        rw [roots] at flat
        exact List.mem_flatten_of_mem (Entries.mem_values_of_get roots) flat
    · cases listed

theorem payloadRow_snapshotId {id : String} {row : PayloadRow}
    (h : payloadRow id record = some row) : row.snapshotId = id := by
  unfold payloadRow at h
  split at h
  · cases h
    rfl
  · obtain ⟨ref, -, rfl⟩ := Option.map_eq_some_iff.mp h
    rfl

/-- The payloads of everything that a row's snapshot holds are in the index. -/
def Database.Covers (content : View) (db : Database) (row : SnapshotRow) : Prop :=
  ∀ manifest, content.loadSnapshotHeader row = .ok manifest →
    ∀ record, RecordOf content manifest record →
      ∀ payload, payloadRow row.id record = some payload → payload ∈ db.snapshotPayloads

structure Database.Complete (content : View) (db : Database) : Prop where
  unique : ∀ row ∈ db.snapshots, ∀ other ∈ db.snapshots, row.id = other.id → row = other
  covers : ∀ row ∈ db.snapshots, row.id ∈ db.snapshotPayloadIndex → db.Covers content row

theorem Database.mem_insertSnapshotPayloadIndex {payload : PayloadRow} :
    payload ∈ (db.insertSnapshotPayloadIndex manifest).snapshotPayloads ↔
      (payload ∈ db.snapshotPayloads ∧ payload.snapshotId ≠ manifest.snapshotId) ∨
        ∃ record ∈ manifest.flatRecords, payloadRow manifest.snapshotId record = some payload := by
  simp only [Database.insertSnapshotPayloadIndex, mem_foldl_insertOrIgnore, List.mem_filter,
    decide_eq_true_eq, List.mem_filterMap]

theorem Database.mem_index_insert {id : String}
    (h : id ∈ (db.insertSnapshotPayloadIndex manifest).snapshotPayloadIndex) :
    id ∈ db.snapshotPayloadIndex ∨ id = manifest.snapshotId := by
  have both : id ∈ [manifest.snapshotId].foldl insertOrIgnore db.snapshotPayloadIndex := h
  simpa using mem_foldl_insertOrIgnore.mp both

theorem Database.complete_insert
    (unique : ∀ row ∈ db.snapshots, ∀ other ∈ db.snapshots, row.id = other.id → row = other)
    (others : ∀ row ∈ db.snapshots, row.id ≠ manifest.snapshotId →
      row.id ∈ db.snapshotPayloadIndex → db.Covers content row)
    (own : ∀ row ∈ db.snapshots, row.id = manifest.snapshotId → ∀ header,
      content.loadSnapshotHeader row = .ok header →
        ∀ record, RecordOf content header record → record ∈ manifest.flatRecords) :
    (db.insertSnapshotPayloadIndex manifest).Complete content := by
  refine ⟨unique, ?_⟩
  intro row inside indexed header load record recordOf payload payloadOf
  have idIs := payloadRow_snapshotId payloadOf
  apply Database.mem_insertSnapshotPayloadIndex.mpr
  by_cases same : row.id = manifest.snapshotId
  · exact Or.inr ⟨record, own row inside same header load record recordOf, same ▸ payloadOf⟩
  · rcases Database.mem_index_insert indexed with before | now
    · exact Or.inl ⟨others row inside same before header load record recordOf payload payloadOf,
        idIs ▸ same⟩
    · exact absurd now same

theorem View.recordOf_of_storesManifest {row : SnapshotRow} {header : SnapshotManifest}
    (stores : content.storesManifest row.manifestKey manifest) (empty : row.manifestJson = .empty)
    (load : content.loadSnapshotHeader row = .ok header) (h : RecordOf content header record) :
    RecordOf content manifest record := by
  have object : content row.manifestKey = some (.snapshot (compactManifest manifest) true) :=
    of_decide_eq_true stores
  unfold View.loadSnapshotHeader at load
  simp only [empty] at load
  obtain ⟨omitted, found⟩ := View.readSnapshot_ok.mp load
  obtain ⟨rfl, -⟩ : header = compactManifest manifest ∧ omitted = true := by
    have same := found.symm.trans object
    simpa using same
  cases h with
  | flat found _ => simp [compactManifest, Entries.values] at found
  | tree found load inside => exact .tree found load inside

end Indexing

namespace Database

section Steps

variable {content : View} {db db' : Database} {moment : Moment}

theorem Complete.of_same (complete : db.Complete content) (snapshots : db'.snapshots = db.snapshots)
    (index : db'.snapshotPayloadIndex = db.snapshotPayloadIndex)
    (payloads : db'.snapshotPayloads = db.snapshotPayloads) : db'.Complete content := by
  constructor
  · rw [snapshots]
    exact complete.unique
  · intro row inside indexed header load record recordOf payload payloadOf
    rw [snapshots] at inside
    rw [index] at indexed
    rw [payloads]
    exact complete.covers row inside indexed header load record recordOf payload payloadOf

theorem Complete.renew {blobs : List BlobRow} {snapshots : List SnapshotRow} {id : String}
    {key : Key} {manifest : SnapshotManifest} (complete : db.Complete content)
    (rows : ∀ row ∈ snapshots, (row ∈ db.snapshots ∧ row.id ≠ id) ∨ row = ⟨id, key, .empty⟩)
    (idIs : manifest.snapshotId = id) (lists : content.lists moment.depth manifest)
    (stores : content.storesManifest key manifest = true) :
    (insertSnapshotPayloadIndex { db with blobs, snapshots } manifest).Complete content := by
  apply complete_insert
  · intro row inside other otherInside same
    rcases rows row inside with ⟨old, ne⟩ | rfl <;>
      rcases rows other otherInside with ⟨old', ne'⟩ | rfl
    · exact complete.unique row old other old' same
    · exact absurd same ne
    · exact absurd same.symm ne'
    · rfl
  · intro row inside ne indexed
    rcases rows row inside with ⟨old, -⟩ | rfl
    · exact complete.covers row old indexed
    · exact absurd idIs.symm ne
  · intro row inside same header load record recordOf
    rcases rows row inside with ⟨-, ne⟩ | rfl
    · exact absurd (same.trans idIs) ne
    · exact View.mem_flatRecords_of_lists lists
        (View.recordOf_of_storesManifest stores rfl load recordOf)

theorem Complete.snapshot {call : SnapshotCall} (complete : db.Complete content)
    (listed : indexes content db (moment, .snapshot call))
    (h : execSnapshot content moment db call = some db') : db'.Complete content := by
  obtain ⟨parent, loaded, h⟩ := Option.bind_eq_some_iff.mp h
  obtain ⟨manifest, made, h⟩ := Option.bind_eq_some_iff.mp h
  split at h
  · cases h
    exact complete
  split at h
  · cases h
  next fresh =>
  split at h
  · cases h
  next distinct =>
  split at h
  · next stores =>
    cases h
    simp only [Bool.not_eq_true', decide_eq_false_iff_not, not_not] at distinct
    simp only [List.any_eq_true, decide_eq_true_eq, not_exists, not_and] at fresh
    obtain ⟨scans, stores⟩ := Bool.and_eq_true_iff.mp stores
    have made := toOption_eq_some.mp made
    have idIs : manifest.snapshotId = call.snapshotId := View.snapshotManifest_snapshotId made
    have lists : content.lists moment.depth manifest := by
      apply View.snapshotManifest_lists distinct scans _ made
      intro carries
      cases parent with
      | none => simp
      | some parent =>
        intro manifest same
        apply listed.2 manifest
        simp only [carriedParent, carries, if_true]
        exact Option.bind_eq_some_iff.mpr ⟨_, loaded, same⟩
    refine complete.renew ?_ idIs lists stores
    intro row inside
    rcases List.mem_append.mp inside with old | new
    · exact Or.inl ⟨old, fresh row old⟩
    · exact Or.inr (List.mem_singleton.mp new)
  · cases h

theorem Complete.rewrite {call : RewriteCall} (complete : db.Complete content)
    (listed : indexes content db (moment, .rewrite call))
    (h : execRewrite content moment db call = some db') : db'.Complete content := by
  obtain ⟨row, found, h⟩ := Option.bind_eq_some_iff.mp h
  obtain ⟨rewritten, made, h⟩ := Option.bind_eq_some_iff.mp h
  have rowIs : row.id = call.snapshotId := by simpa using List.find?_some found
  cases rewritten with
  | none =>
    cases h
    exact complete
  | some manifest =>
    obtain ⟨idIs, lists⟩ := listed.1 (row.id, manifest)
      (Option.bind_eq_some_iff.mpr ⟨row, found, Option.bind_eq_some_iff.mpr ⟨_, made, rfl⟩⟩)
    have idIs : manifest.snapshotId = call.snapshotId := idIs.trans rowIs
    dsimp only at h
    split at h
    · next stores =>
      cases h
      obtain ⟨-, stores⟩ := Bool.and_eq_true_iff.mp stores
      refine complete.renew ?_ idIs lists stores
      intro row inside
      obtain ⟨old, member, rfl⟩ := List.mem_map.mp inside
      by_cases same : old.id = call.snapshotId
      · right
        simp [same]
      · left
        simp only [same, if_false]
        exact ⟨member, same⟩
    · cases h

theorem Complete.index_loaded {row : SnapshotRow} {manifest : SnapshotManifest}
    (complete : db.Complete content) (inside : row ∈ db.snapshots)
    (idIs : manifest.snapshotId = row.id) (lists : content.lists moment.depth manifest)
    (loaded : ∃ stored, (content.only moment.readable).loadSnapshotHeader row = .ok stored ∧
      Hydrates stored manifest) :
    (db.insertSnapshotPayloadIndex manifest).Complete content := by
  apply complete_insert complete.unique
  · intro other otherInside _ indexed
    exact complete.covers other otherInside indexed
  · intro other otherInside same header load record recordOf
    obtain rfl := complete.unique other otherInside row inside (same.trans idIs)
    obtain ⟨stored, storedLoad, hydrates⟩ := loaded
    have same := (View.only_le content moment.readable).loadSnapshotHeader storedLoad
    obtain rfl : header = stored := Except.ok.inj (load.symm.trans same)
    exact View.mem_flatRecords_of_lists lists (hydrates.recordOf recordOf)

variable {view : View} {depth : Nat}

theorem manifestForIndexBackfill_header {hydrateMissing : Bool} {row : SnapshotRow}
    {manifest : SnapshotManifest}
    (h : manifestForIndexBackfill view depth hydrateMissing row = .ok (some manifest)) :
    ∃ stored, view.loadSnapshotHeader row = .ok stored ∧ Hydrates stored manifest := by
  unfold manifestForIndexBackfill at h
  split at h
  · obtain ⟨manifest', load, result⟩ := of_bind h
    cases result
    exact View.snapshotManifestFromParts_header load
  · split at h
    · cases h
    · obtain ⟨manifest', load, result⟩ := of_bind h
      split at result
      · cases result
        exact ⟨manifest, load, rfl, rfl, Or.inr rfl⟩
      · cases result

theorem Complete.backfill {snapshotId : String} {hydrateMissing : Bool}
    (complete : db.Complete content)
    (listed : indexes content db (moment, .backfill snapshotId hydrateMissing))
    (h : execBackfill content moment db snapshotId hydrateMissing = some db') :
    db'.Complete content := by
  obtain ⟨row, found, h⟩ := Option.bind_eq_some_iff.mp h
  split at h
  · cases h
    exact complete
  · obtain ⟨loaded, made, h⟩ := Option.bind_eq_some_iff.mp h
    cases loaded with
    | none =>
      cases h
      exact complete
    | some manifest =>
      cases h
      obtain ⟨idIs, lists⟩ := listed.1 (row.id, manifest)
        (Option.bind_eq_some_iff.mpr ⟨row, found, Option.bind_eq_some_iff.mpr ⟨_, made, rfl⟩⟩)
      exact complete.index_loaded (List.mem_of_find?_eq_some found) idIs lists
        (manifestForIndexBackfill_header (toOption_eq_some.mp made))

theorem Complete.fsckSince {snapshotId : String} (complete : db.Complete content)
    (listed : indexes content db (moment, .fsckSince snapshotId))
    (h : execFsckSince content moment db snapshotId = some db') : db'.Complete content := by
  obtain ⟨row, found, h⟩ := Option.bind_eq_some_iff.mp h
  obtain ⟨manifest, made, h⟩ := Option.bind_eq_some_iff.mp h
  cases h
  obtain ⟨idIs, lists⟩ := listed.1 (row.id, manifest)
    (Option.bind_eq_some_iff.mpr ⟨row, found, Option.bind_eq_some_iff.mpr ⟨_, made, rfl⟩⟩)
  exact complete.index_loaded (List.mem_of_find?_eq_some found) idIs lists
    (View.snapshotManifestFromParts_header (toOption_eq_some.mp made))

theorem unique_importSnapshots {rows : List SnapshotRow} (new : List (String × Key))
    (unique : ∀ row ∈ rows, ∀ other ∈ rows, row.id = other.id → row = other) :
    let imported := new.foldl
      (fun rows row => insertOrReplace SnapshotRow.id rows ⟨row.1, row.2, .empty⟩) rows
    ∀ row ∈ imported, ∀ other ∈ imported, row.id = other.id → row = other := by
  induction new generalizing rows with
  | nil => exact unique
  | cons first new ih =>
    apply ih
    intro row inside other otherInside same
    simp only [insertOrReplace, List.mem_append, List.mem_filter, decide_eq_true_eq,
      List.mem_singleton] at inside otherInside
    rcases inside with ⟨old, ne⟩ | rfl <;> rcases otherInside with ⟨old', ne'⟩ | rfl
    · exact unique row old other old' same
    · exact absurd same ne
    · exact absurd same.symm ne'
    · rfl

theorem complete_clone (metadata : MetadataExport) :
    (empty.importMetadata metadata).Complete content := by
  constructor
  · exact unique_importSnapshots metadata.snapshots (by simp [empty])
  · intro row _ indexed
    simp [importMetadata, empty] at indexed

theorem Complete.deleteSnapshots (complete : db.Complete content) (ids : List String) :
    (db.deleteSnapshots ids).Complete content := by
  have kept : ∀ row ∈ (db.deleteSnapshots ids).snapshots, row ∈ db.snapshots :=
    fun row inside => (List.mem_filter.mp inside).1
  constructor
  · exact fun row inside other otherInside =>
      complete.unique row (kept row inside) other (kept other otherInside)
  · exact fun row inside indexed => complete.covers row (kept row inside) indexed

/-- What a prune has done: the live payloads are kept, with their chunks if those are known. -/
structure Prunes (view : View) (depth : Nat) (before after : Database) : Prop where
  live : ∃ live, before.liveMetadataReferences view depth = .ok live ∧
    after.blobs = before.blobs.filter (fun row => row.oid ∈ live.blobs) ∧
    after.largeObjects = before.largeObjects.filter (fun row => row.oid ∈ live.largeObjects)
  chunks : after.chunks = before.chunks ∨ ∃ chunks,
    after.liveChunksFromRemainingLargeObjects view = some chunks ∧
      after.chunks = before.chunks.filter (fun row => row.oid ∈ chunks)
  snapshots : after.snapshots = before.snapshots
  index : ∀ id ∈ after.snapshotPayloadIndex, id ∈ before.snapshotPayloadIndex
  payloads : ∀ payload ∈ before.snapshotPayloads,
    (∃ row ∈ before.snapshots, row.id = payload.snapshotId) → payload ∈ after.snapshotPayloads

theorem pruneUnreferencedMetadata_prunes (h : db.pruneUnreferencedMetadata view depth = .ok db') :
    Prunes view depth db db' := by
  obtain ⟨live, liveOf, result⟩ := of_bind h
  cases result
  have payloads : ∀ payload ∈ db.snapshotPayloads,
      (∃ row ∈ db.snapshots, row.id = payload.snapshotId) →
      payload ∈ db.deleteSnapshotPayloadIndexesWithoutSnapshots.snapshotPayloads := by
    rintro payload inside ⟨row, member, same⟩
    apply List.mem_filter.mpr
    exact ⟨inside, List.any_eq_true.mpr ⟨row, member, decide_eq_true same⟩⟩
  have index : ∀ id ∈ db.deleteSnapshotPayloadIndexesWithoutSnapshots.snapshotPayloadIndex,
      id ∈ db.snapshotPayloadIndex := fun id inside => (List.mem_filter.mp inside).1
  cases chunks : (db.deletePayloadsNotIn live).liveChunksFromRemainingLargeObjects view with
  | none => exact ⟨⟨live, liveOf, rfl, rfl⟩, Or.inl rfl, rfl, index, payloads⟩
  | some oids => exact ⟨⟨live, liveOf, rfl, rfl⟩, Or.inr ⟨oids, chunks, rfl⟩, rfl, index, payloads⟩

theorem Complete.prune (complete : db.Complete content) (prunes : Prunes view depth db db') :
    db'.Complete content := by
  constructor
  · rw [prunes.snapshots]
    exact complete.unique
  · intro row inside indexed header load record recordOf payload payloadOf
    rw [prunes.snapshots] at inside
    have before := complete.covers row inside (prunes.index _ indexed) header load record recordOf
      payload payloadOf
    exact prunes.payloads payload before ⟨row, inside, (payloadRow_snapshotId payloadOf).symm⟩

theorem Complete.step {event : MetadataEvent} (complete : db.Complete content)
    (h : Meeting (Computes (exec content)) (indexes content) db event db') :
    db'.Complete content := by
  obtain ⟨moment, command⟩ := event
  obtain ⟨h, listed⟩ := h
  cases command with
  | snapshot call => exact complete.snapshot listed h
  | storeBlob row =>
    cases h
    exact complete.of_same rfl rfl rfl
  | storeLarge row chunks =>
    cases h
    exact complete.of_same rfl rfl rfl
  | rewrite call => exact complete.rewrite listed h
  | backfill snapshotId hydrateMissing => exact complete.backfill listed h
  | fsckSince snapshotId => exact complete.fsckSince listed h
  | clone metadata =>
    cases h
    exact complete_clone metadata
  | prune deleted =>
    exact (complete.deleteSnapshots deleted).prune
      (pruneUnreferencedMetadata_prunes (toOption_eq_some.mp h))
  | pack present packs =>
    cases h
    exact complete.of_same rfl rfl rfl

theorem Complete.of_run {start : Database} {history : List MetadataEvent}
    (unique : ∀ row ∈ start.snapshots, ∀ other ∈ start.snapshots, row.id = other.id → row = other)
    (unindexed : start.snapshotPayloadIndex = [])
    (run : Run (Meeting (Computes (exec content)) (indexes content)) start history db) :
    db.Complete content := by
  apply run.invariant (I := Complete content) (fun step complete => complete.step step)
  refine ⟨unique, ?_⟩
  intro row _ indexed
  simp [unindexed] at indexed

end Steps

end Database

end Majutsu.Repo
