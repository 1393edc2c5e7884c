import Mathlib.Data.List.Nodup
import Majutsu.Repo.RotatedPayloads

/-!
# A rotated repository keeps its history

After a rotation every snapshot loads with the new key alone, its files are the
same up to the keys of their payloads, and the payloads read the same. A rotation
takes the records of a snapshot from the flat records of its loaded manifest only,
writes nodes of trees with the old key and passes over the journal. `Rotatable`
says for which states before it the history is kept.
-/

namespace Majutsu.Repo

open Loops

namespace Vault

section Snapshots

variable (s s' : Vault) (depth : Nat)

/-- The row of a snapshot loads, and each file of it is there with a record that is kept. -/
def SnapshotKept (row row' : SnapshotRow) : Prop :=
  row'.id = row.id ∧
    ∃ manifest manifest',
      s.view.snapshotManifestFromParts depth row = .ok manifest ∧
      s'.view.snapshotManifestFromParts depth row' = .ok manifest' ∧
      ∀ rootId, ∃ files files',
        s.view.rootFileMap depth manifest rootId = .ok files ∧
        s'.view.rootFileMap depth manifest' rootId = .ok files' ∧
        ∀ path, Option.Rel (s.RecordKept s') (files.get path) (files'.get path)

/-- The manifests that the rows of the database load as. -/
def loaded : List SnapshotManifest :=
  s.db.snapshots.filterMap (fun row => (s.view.snapshotManifestFromParts depth row).toOption)

variable {s s' depth}

variable {manifest rewritten : SnapshotManifest}

theorem mem_loaded {row : SnapshotRow} (member : row ∈ s.db.snapshots)
    (load : s.view.snapshotManifestFromParts depth row = .ok manifest) :
    manifest ∈ s.loaded depth :=
  List.mem_filterMap.mpr ⟨row, member, toOption_eq_some.mpr load⟩

theorem rootFileMap_listed {view : View} (listed : ∀ root ∈ manifest.rootTrees,
      (manifest.roots.get root.1).isSome ∨ view.rootFileMap depth manifest root.1 = .ok [])
    (rootId : String) :
    view.rootFileMap depth manifest rootId =
      .ok (fileMap ((manifest.roots.get rootId).getD [])) := by
  cases found : manifest.roots.get rootId with
  | some records => exact View.rootFileMap_flat found
  | none =>
    cases tree : manifest.rootTrees.get rootId with
    | none => simp only [View.rootFileMap, found, tree]; rfl
    | some rootTree =>
      have there := listed _ (Entries.mem_of_get tree)
      simpa [found, fileMap, recordsByPath] using there

variable {names : Text → StorageNames} {format : TreeFormat} {newKey : Text} {plan : RotationPlan}

/-- The records of a manifest and the ones with the new keys. -/
theorem rewriteManifestPayloadKeys_related
    (h : rewriteManifestPayloadKeys plan.blobKeys plan.largeManifestKeys manifest = .ok rewritten) :
    Entries.Related (List.Forall₂ fun record record' =>
        rewriteRecordKeys plan.blobKeys plan.largeManifestKeys record = .ok record')
      manifest.roots rewritten.roots := by
  obtain ⟨roots, rewrote, result⟩ := of_bind h
  cases result
  refine (mapM_eq_ok.mp rewrote).imp ?_
  intro root root' one
  obtain ⟨records, rewroteRoot, result⟩ := of_bind one
  cases result
  exact ⟨rfl, mapM_eq_ok.mp rewroteRoot⟩

theorem rootFileMap_rotateRoot {view : View} (expands : ∀ root ∈ rewritten.roots, view.Expands depth
      (s.rotateRoot names format newKey root).1.2 (recordsByPath root.2)) (rootId : String) :
    view.rootFileMap depth
        { rewritten with
          rootTrees := (rewritten.roots.map (s.rotateRoot names format newKey)).map Prod.fst
          roots := [] } rootId =
      .ok (fileMap ((rewritten.roots.get rootId).getD [])) := by
  have trees : Entries.get
      ((rewritten.roots.map (s.rotateRoot names format newKey)).map Prod.fst) rootId =
        (rewritten.roots.find? (fun root => root.1 = rootId)).map
          (fun root => (s.rotateRoot names format newKey root).1.2) := by
    rw [List.map_map]
    exact Entries.get_map rewritten.roots Prod.fst _
  have roots : rewritten.roots.get rootId =
      (rewritten.roots.find? (fun root => root.1 = rootId)).map Prod.snd := rfl
  rw [roots]
  cases found : rewritten.roots.find? (fun root => root.1 = rootId) with
  | none =>
    simp only [View.rootFileMap, trees, found]
    rfl
  | some root =>
    have tree := expands root (List.mem_of_find?_eq_some found)
    rw [tree.rootFileMap rfl (by rw [trees, found]; rfl), fileMap_recordsByPath]
    rfl

variable (noClash : NoClash s.files plan.stores)

include noClash

section Root

variable {root : String × List FileRecord}
variable (stored : ∀ store ∈ (s.rotateRoot names format newKey root).2, store ∈ plan.stores)

include stored

theorem readTree_rotateRoot :
    (s.commitRotation newKey plan).view.readTree
        (s.rotateRoot names format newKey root).1.2.treeKey =
      .ok (prepareTreeManifestForStorage (names s.masterKey).toTreeNames format
        (buildTreeManifest (names newKey).toTreeNames root.1 root.2)).1 :=
  View.readTree_ok.mpr (view_commitRotation noClash
    (stored _ (List.mem_append_right _ List.mem_cons_self)))

theorem expands_rotateRoot (lists : format.ListsEntries root.2) :
    (s.commitRotation newKey plan).view.Expands depth
      (s.rotateRoot names format newKey root).1.2 (recordsByPath root.2) := by
  have read := readTree_rotateRoot noClash stored
  obtain ⟨entries, plain⟩ := prepareTreeManifestForStorage_lists root.1 lists
  exact entries ▸ View.expands_entries read plain

/-- The nodes of a tree are sealed with the old key. -/
theorem listsEntries_of_readable (other : s.masterKey ≠ newKey)
    (readable : (∃ entries, (s.commitRotation newKey plan).view.loadRootTreeEntries depth
        (s.rotateRoot names format newKey root).1.2 = .ok entries) ∨
      ∃ records, (s.commitRotation newKey plan).view.visitTreeRecords depth
        (s.rotateRoot names format newKey root).1.2 = .ok records) :
    format.ListsEntries root.2 := by
  by_contra unlisted
  obtain ⟨empty, node, inside, rootNode⟩ := prepareTreeManifestForStorage_node root.1 unlisted
  have lost := view_commitRotation_old noClash
    (stored _ (List.mem_append_left _ (List.mem_map_of_mem inside))) other
  have unreadable := View.unreadable_of_node depth (readTree_rotateRoot noClash stored) empty
    rootNode lost
  rcases readable with ⟨entries, load⟩ | ⟨records, visited⟩
  · exact unreadable.1 entries load
  · exact unreadable.2 records visited

end Root

variable (once : (rewritten.roots.map Prod.fst).Nodup)
variable (stored : ∀ store ∈ (s.rotateSnapshot names format newKey rewritten).2,
  store ∈ plan.stores)

omit noClash in
theorem stored_rotateRoot {root : String × List FileRecord} (inside : root ∈ rewritten.roots)
    (stored : ∀ store ∈ (s.rotateSnapshot names format newKey rewritten).2, store ∈ plan.stores) :
    ∀ store ∈ (s.rotateRoot names format newKey root).2, store ∈ plan.stores := by
  intro store among
  refine stored store (List.mem_append_left _ (List.mem_flatMap.mpr ⟨_, ?_, among⟩))
  exact List.mem_map_of_mem inside

include once stored

theorem rootFileMap_rotateSnapshot (depth : Nat)
    (lists : ∀ root ∈ rewritten.roots, format.ListsEntries root.2) (id : String) :
    ∃ manifest, (s.commitRotation newKey plan).view.snapshotManifestFromParts depth
        ⟨id, (s.rotateSnapshot names format newKey rewritten).1, .empty⟩ = .ok manifest ∧
      ∀ rootId, (s.commitRotation newKey plan).view.rootFileMap depth manifest rootId =
        .ok (fileMap ((rewritten.roots.get rootId).getD [])) := by
  have expands : ∀ root ∈ rewritten.roots, (s.commitRotation newKey plan).view.Expands depth
      (s.rotateRoot names format newKey root).1.2 (recordsByPath root.2) := fun root inside =>
    expands_rotateRoot noClash (stored_rotateRoot inside stored) (lists root inside)
  obtain ⟨manifest, hydrated, same⟩ := View.rootFileMap_hydrated
    { rewritten with
      rootTrees := (rewritten.roots.map (s.rotateRoot names format newKey)).map Prod.fst
      roots := [] }
    rfl
    (by simpa [List.map_map, Function.comp_def, rotateRoot] using once)
    (by
      simp only [List.map_map, List.mem_map]
      rintro _ ⟨root, inside, rfl⟩
      exact ⟨_, expands root inside⟩)
  have read := View.readSnapshot_ok.mpr ⟨_, view_commitRotation noClash
    (stored _ (List.mem_append_right _ List.mem_cons_self))⟩
  refine ⟨manifest, bind_ok ⟨_, read, hydrated⟩, ?_⟩
  intro rootId
  rw [same, rootFileMap_rotateRoot expands]

theorem lists_of_rootFileMap (other : s.masterKey ≠ newKey) {id : String}
    {manifest : SnapshotManifest}
    (load : (s.commitRotation newKey plan).view.snapshotManifestFromParts depth
      ⟨id, (s.rotateSnapshot names format newKey rewritten).1, .empty⟩ = .ok manifest)
    (maps : ∀ rootId, ∃ files,
      (s.commitRotation newKey plan).view.rootFileMap depth manifest rootId = .ok files) :
    ∀ root ∈ rewritten.roots, format.ListsEntries root.2 := by
  intro root inside
  obtain ⟨stored', read, hydrated⟩ := of_bind load
  have written := View.readSnapshot_ok.mpr ⟨_, view_commitRotation noClash
    (stored _ (List.mem_append_right _ List.mem_cons_self))⟩
  obtain rfl := Except.ok.inj (read.symm.trans written)
  apply listsEntries_of_readable noClash (stored_rotateRoot inside stored) other
  refine View.readable_of_rootFileMap rfl ?_ hydrated maps
    (List.mem_map_of_mem (List.mem_map_of_mem inside))
  simpa [List.map_map, Function.comp_def, rotateRoot] using once

end Snapshots

section History

variable (names : Text → StorageNames) (format : TreeFormat) (depth : Nat) (s : Vault) (newKey : Text)

/-- Rows and roots have one name, and the rotation gives no two objects one key and none a key that
the journal names already. -/
structure Indexed : Prop where
  ids : (s.db.snapshots.map SnapshotRow.id).Nodup
  roots : ∀ manifest ∈ s.loaded depth, (manifest.roots.map Prod.fst).Nodup
  noClash : ∀ plan ∈ (s.planRotation names format depth newKey).toOption,
    NoClash s.files plan.stores
  unwritten : ∀ plan ∈ (s.planRotation names format depth newKey).toOption,
    ∀ event ∈ s.journal, ∀ payload ∈ event.payload,
      ∀ store ∈ plan.stores, s.files.get store.1 = none → store.1 ∉ s.payloadKeys payload

/-- The trees of a manifest are written with their entries, a root without flat records has no
files, and the payload of a file reads as the rows of its objects. -/
structure RotatesWell (manifest : SnapshotManifest) : Prop where
  lists : ∀ root ∈ manifest.roots, format.ListsEntries root.2
  listed : ∀ root ∈ manifest.rootTrees,
    (manifest.roots.get root.1).isSome ∨ s.view.rootFileMap depth manifest root.1 = .ok []
  payloads : ∀ root ∈ manifest.roots, ∀ entry ∈ fileMap root.2, s.ReadsAsRows entry.2.payload

/-- Every manifest that is loaded rotates well, and of the journal only what the new key alone
reads already can be read. -/
structure Rotatable : Prop where
  snapshots : ∀ manifest ∈ s.loaded depth, RotatesWell format depth s manifest
  journal : ∀ event ∈ s.journal, ∀ payload ∈ event.payload,
    ∀ pieces ∈ (s.readFile payload).toOption, (s.alone newKey).readFile payload = .ok pieces

instance : Decidable (Indexed names format depth s newKey) :=
  decidable_of_iff (_ ∧ _ ∧ _ ∧ _)
    ⟨fun h => ⟨h.1, h.2.1, h.2.2.1, h.2.2.2⟩, fun h => ⟨h.1, h.2, h.3, h.4⟩⟩

instance (manifest : SnapshotManifest) : Decidable (RotatesWell format depth s manifest) :=
  decidable_of_iff (_ ∧ _ ∧ _)
    ⟨fun h => ⟨h.1, h.2.1, h.2.2⟩, fun h => ⟨h.1, h.2, h.3⟩⟩

instance : Decidable (Rotatable format depth s newKey) :=
  decidable_of_iff (_ ∧ _) ⟨fun h => ⟨h.1, h.2⟩, fun h => ⟨h.1, h.2⟩⟩

/-- Every snapshot is kept, and what the journal could read it can read again. -/
def HistoryKept (s' : Vault) : Prop :=
  List.Forall₂ (s.SnapshotKept s' depth) s.db.snapshots s'.db.snapshots ∧
    ∀ event ∈ s'.journal, ∀ payload ∈ event.payload, ∀ pieces,
      s.readFile payload = .ok pieces → s'.readFile payload = .ok pieces

variable {names format depth s newKey}

theorem find_row (once : (s.db.snapshots.map SnapshotRow.id).Nodup) {row : SnapshotRow}
    (member : row ∈ s.db.snapshots) :
    s.db.snapshots.find? (fun other => other.id = row.id) = some row := by
  cases found : s.db.snapshots.find? (fun other => other.id = row.id) with
  | none => simpa using List.find?_eq_none.mp found row member
  | some other =>
    have same : other.id = row.id := by simpa using List.find?_some found
    rw [List.inj_on_of_nodup_map once (List.mem_of_find?_eq_some found) member same]

theorem forall_mem_iff {α β : Type} {R : α → β → Prop} {P : α → Prop} {Q : β → Prop}
    {xs : List α} {ys : List β} (related : List.Forall₂ R xs ys)
    (same : ∀ {x y}, R x y → (P x ↔ Q y)) : (∀ x ∈ xs, P x) ↔ ∀ y ∈ ys, Q y := by
  induction related with
  | nil => simp
  | cons head _ ih => rw [List.forall_mem_cons, List.forall_mem_cons, same head, ih]

theorem listsEntries_iff {R : FileRecord → FileRecord → Prop} {records records' : List FileRecord}
    (related : List.Forall₂ R records records') :
    format.ListsEntries records ↔ format.ListsEntries records' := by
  cases related <;> simp [TreeFormat.ListsEntries]

theorem path_rewriteRecordKeys {plan : RotationPlan} {record record' : FileRecord}
    (h : rewriteRecordKeys plan.blobKeys plan.largeManifestKeys record = .ok record') :
    record.path = record'.path := by
  obtain ⟨key, rfl⟩ := withKey_of_rewriteRecordKeys h
  rfl

theorem eq_nil_of_get {α : Type} {entries : Entries α} (h : ∀ name, entries.get name = none) :
    entries = [] := by
  cases entries with
  | nil => rfl
  | cons entry rest => simpa [Entries.get] using h entry.1

theorem fileMap_kept_iff {plan : RotationPlan} (planned : Planned names format depth s newKey plan)
    (noClash : NoClash s.files plan.stores) {records records' : List FileRecord}
    (related : List.Forall₂ (fun record record' =>
      rewriteRecordKeys plan.blobKeys plan.largeManifestKeys record = .ok record') records records') :
    (∀ path, Option.Rel (s.RecordKept (s.commitRotation newKey plan)) ((fileMap records).get path)
        ((fileMap records').get path)) ↔
      ∀ entry ∈ fileMap records, s.ReadsAsRows entry.2.payload := by
  have maps := related_fileMap path_rewriteRecordKeys related
  constructor
  · intro kept entry among
    have found := (Entries.get_eq_some_iff (byPath_fileMap records).once).mpr among
    obtain ⟨record', found', rewrote⟩ := rel_some_left (found ▸ maps.get entry.1)
    obtain ⟨_, eq, recordKept⟩ := rel_some_left (found ▸ kept entry.1)
    cases found'.symm.trans eq
    exact (recordKept_iff planned noClash rewrote).mp recordKept
  · intro payloads path
    cases found : (fileMap records).get path with
    | none =>
      rw [(rel_none (maps.get path)).mp found]
      exact .none
    | some record =>
      obtain ⟨record', found', rewrote⟩ := rel_some_left (found ▸ maps.get path)
      rw [found']
      exact .some ((recordKept_iff planned noClash rewrote).mpr
        (payloads _ (Entries.mem_of_get found)))

theorem snapshotKept_commitRotation_iff {plan : RotationPlan}
    (planned : Planned names format depth s newKey plan)
    (indexed : Indexed names format depth s newKey) (other : s.masterKey ≠ newKey)
    (noClash : NoClash s.files plan.stores) {row : SnapshotRow} (member : row ∈ s.db.snapshots)
    {manifest : SnapshotManifest}
    (load : s.view.snapshotManifestFromParts depth row = .ok manifest) :
    s.SnapshotKept (s.commitRotation newKey plan) depth row
      (match plan.snapshotUpdates.get row.id with
      | some key => { row with manifestKey := key, manifestJson := .empty }
      | none => row) ↔ RotatesWell format depth s manifest := by
  obtain ⟨key, update, manifest₀, rewritten, load₀, rewrite, rfl, stored⟩ :=
    rel_some_left (find_row indexed.ids member ▸ planned.snapshot row.id)
  obtain rfl : manifest₀ = manifest := Except.ok.inj (load₀.symm.trans load)
  have related := rewriteManifestPayloadKeys_related rewrite
  have names := indexed.roots manifest₀ (mem_loaded member load)
  have once : (rewritten.roots.map Prod.fst).Nodup := related.names ▸ names
  have records_iff := fun rootId =>
    fileMap_kept_iff planned noClash (rel_getD (related.get rootId))
  have lists_iff := forall_mem_iff related
    (P := fun root => format.ListsEntries root.2) (Q := fun root => format.ListsEntries root.2)
    (fun both => listsEntries_iff both.2)
  rw [update]
  constructor
  · rintro ⟨-, manifest₁, manifest', load₁, load', kept⟩
    obtain rfl : manifest₀ = manifest₁ := Except.ok.inj (load.symm.trans load₁)
    have lists := lists_of_rootFileMap noClash once stored other load' fun rootId => by
      obtain ⟨-, files', -, read', -⟩ := kept rootId
      exact ⟨files', read'⟩
    obtain ⟨manifest'', load'', files'⟩ :=
      rootFileMap_rotateSnapshot noClash once stored depth lists row.id
    obtain rfl : manifest' = manifest'' := Except.ok.inj (load'.symm.trans load'')
    have same : ∀ rootId files, s.view.rootFileMap depth manifest₀ rootId = .ok files →
        ∀ path, Option.Rel (s.RecordKept (s.commitRotation newKey plan)) (files.get path)
          ((fileMap ((rewritten.roots.get rootId).getD [])).get path) := by
      intro rootId files read path
      obtain ⟨files₁, files₂, read₁, read₂, rel⟩ := kept rootId
      cases read₁.symm.trans read
      cases read₂.symm.trans (files' rootId)
      exact rel path
    refine ⟨lists_iff.mpr lists, ?_, ?_⟩
    · intro root inside
      cases found : manifest₀.roots.get root.1 with
      | some records => exact Or.inl rfl
      | none =>
        obtain ⟨files, -, read, -, -⟩ := kept root.1
        have gone := (rel_none (related.get root.1)).mp found
        refine Or.inr (read.trans (congrArg _ (eq_nil_of_get fun path => ?_)))
        refine (rel_none (same root.1 files read path)).mpr ?_
        rw [gone]
        rfl
    · intro root inside
      have flat := (Entries.get_eq_some_iff names).mpr inside
      have rows := records_iff root.1
      rw [flat, Option.getD_some] at rows
      exact rows.mp (same root.1 _ (View.rootFileMap_flat flat))
  · rintro ⟨lists, listed, payloads⟩
    obtain ⟨manifest', load', files'⟩ :=
      rootFileMap_rotateSnapshot noClash once stored depth (lists_iff.mp lists) row.id
    refine ⟨rfl, manifest₀, manifest', load, load', fun rootId => ?_⟩
    refine ⟨_, _, rootFileMap_listed listed rootId, files' rootId, (records_iff rootId).mpr ?_⟩
    cases flat : manifest₀.roots.get rootId with
    | none => exact fun _ among => absurd among List.not_mem_nil
    | some records => exact payloads _ (Entries.mem_of_get flat)

theorem rotateMasterKey_cases {s' : Vault}
    (h : s.rotateMasterKey names format depth newKey = .ok s') :
    s.masterKey ≠ newKey ∧ ∃ plan, s.planRotation names format depth newKey = .ok plan ∧
      s' = s.commitRotation newKey plan := by
  unfold rotateMasterKey at h
  split at h
  · cases h
  obtain ⟨-, -, h⟩ := of_bind h
  split at h
  · cases h
  next other =>
  obtain ⟨plan, planned, result⟩ := of_bind h
  exact ⟨fun same => other (congrArg trim same), plan, planned, (Except.ok.inj result).symm⟩

end History

end Vault

namespace TwoFiles

def oldKey : Text := List.replicate 64 'a'

def newKey : Text := List.replicate 64 'b'

def names (key : Text) : StorageNames :=
  let under := fun name => "objects/" ++ name ++ "-" ++ String.ofList (key.take 2)
  { treeId := fun _ => "tree"
    nodeId := fun _ path _ _ => path
    tree := fun _ => under "trees/docs"
    node := fun node => under ("trees/nodes/" ++ node.path)
    blob := fun oid => under ("blobs/" ++ oid)
    chunk := fun _ oid => under ("large/chunks/" ++ oid)
    largeManifest := fun manifest => under ("large/manifests/" ++ manifest.oid)
    snapshot := fun manifest => under manifest.snapshotId }

def note : FileRecord :=
  .plain "docs" "note.txt" "file" 2 (.inlineSmall "note" "objects/note")

def video : FileRecord :=
  .plain "docs" "clips/video.mp4" "file" 3 (.largeObject "video" "objects/large/video" 1
    ⟨some "video/mp4", true, "fixed", "none", "chacha20poly1305", "hot-manifest-cold-chunks",
      "on-demand"⟩)

def tree : TreeManifest :=
  ⟨1, "tree", "docs", none, [], [("note.txt", note), ("clips/video.mp4", video)]⟩

def manifest : SnapshotManifest :=
  ⟨"snap-1", none, "op-1", [("docs", ⟨"tree", "objects/trees/docs", 2⟩)], []⟩

def vault : Vault where
  encrypted := true
  masterKey := oldKey
  rotationKeys := []
  files :=
    [("objects/snap-1", (oldKey, .snapshot manifest true)),
      ("objects/trees/docs", (oldKey, .tree tree)),
      ("objects/note", (oldKey, .payload [1, 2])),
      ("objects/large/video", (oldKey, .large ⟨"video", [("frames", "objects/large/frames")]⟩)),
      ("objects/large/frames", (oldKey, .payload [3, 4, 5]))]
  packEntries := [(("pack-1", "note"), (oldKey, .payload [1, 2]))]
  db :=
    { snapshots := [⟨"snap-1", "objects/snap-1", .empty⟩]
      blobs := [⟨"note", "objects/note", some "pack-1"⟩]
      packs := [⟨"pack-1", "objects/packs/pack-1", "objects/packs/pack-1.idx"⟩]
      largeObjects := [⟨"video", "objects/large/video"⟩]
      chunks := [⟨"frames", "objects/large/frames"⟩]
      largePins := []
      snapshotPayloadIndex := []
      snapshotPayloads := [] }
  journal := []

def withoutTree : Vault :=
  { vault with files := vault.files.filter (fun file => file.1 ≠ "objects/trees/docs") }

/-- The event of a change to the note that no snapshot has taken up. -/
def event : EventJournalRecord := ⟨some "note", some "objects/note", none, none⟩

def withEvent : Vault := { vault with journal := [event] }

end TwoFiles

namespace Vault

open TwoFiles

end Vault

end Majutsu.Repo
