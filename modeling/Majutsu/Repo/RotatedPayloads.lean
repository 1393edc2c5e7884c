import Majutsu.Repo.KeyRotation

/-!
# Payloads after a rotation

What a rotation has planned for each row of the database, and that a payload whose
keys were rewritten reads the same with the new key.
-/

namespace Majutsu.Repo

open Loops

@[simp] theorem payloadBlobRef_withKey (key : Key) (payload : Payload) :
    payloadBlobRef (payload.withKey key) = (payloadBlobRef payload).map (fun ref => (ref.1, key)) := by
  cases payload <;> rfl

@[simp] theorem payloadLargeRef_withKey (key : Key) (payload : Payload) :
    payloadLargeRef (payload.withKey key) =
      (payloadLargeRef payload).map (fun ref => (ref.1, key, ref.2.2)) := by
  cases payload <;> rfl

theorem Payload.withKey_of_none {payload : Payload} (blob : payloadBlobRef payload = none)
    (large : payloadLargeRef payload = none) (key : Key) : payload.withKey key = payload := by
  cases payload with
  | directory | symlink | special => rfl
  | inlineSmall | normalBlob | blob => cases blob
  | chunkedBlob | largeObject | large => cases large

section Options

variable {α β γ : Type}

variable {R : α → β → Prop}

theorem rel_imp {S : α → β → Prop} {a : Option α} {b : Option β} (h : Option.Rel R a b)
    (imp : ∀ x y, R x y → S x y) : Option.Rel S a b := by
  cases h with
  | none => exact .none
  | some related => exact .some (imp _ _ related)

theorem rel_some_right {a : Option α} {y : β} (h : Option.Rel R a (some y)) :
    ∃ x, a = some x ∧ R x y := by
  cases h with
  | some related => exact ⟨_, rfl, related⟩

theorem rel_some_left {x : α} {b : Option β} (h : Option.Rel R (some x) b) :
    ∃ y, b = some y ∧ R x y := by
  cases h with
  | some related => exact ⟨_, rfl, related⟩

theorem rel_none {a : Option α} {b : Option β} (h : Option.Rel R a b) : a = none ↔ b = none := by
  cases h <;> simp

theorem rel_getD {a : Option (List α)} {b : Option (List β)} (h : Option.Rel (List.Forall₂ R) a b) :
    List.Forall₂ R (a.getD []) (b.getD []) := by
  cases h with
  | none => exact .nil
  | some related => exact related

theorem Entries.get_zip {xs : List α} {ys : List β} (beside : List.Forall₂ R xs ys)
    (key : α → String) (f : α × β → γ) (name : String) :
    Option.Rel (fun x v => ∃ y, R x y ∧ y ∈ ys ∧ v = f (x, y)) (xs.find? (fun x => key x = name))
      (Entries.get ((xs.zip ys).map (fun pair => (key pair.1, f pair))) name) := by
  induction beside with
  | nil => exact .none
  | @cons x y xs ys head _ ih =>
    unfold Entries.get at ih ⊢
    rw [List.zip_cons_cons, List.map_cons, List.find?_cons, List.find?_cons]
    by_cases same : key x = name
    · simp only [same, decide_true]
      exact .some ⟨y, head, List.mem_cons_self, rfl⟩
    · simp only [same, decide_false]
      refine rel_imp ih ?_
      rintro x' v ⟨y', related, member, value⟩
      exact ⟨y', related, List.mem_cons_of_mem y member, value⟩

end Options

namespace Vault

/-- Two objects under one key are the same. -/
def NoClash (files : Entries Sealed) (stores : List (Key × Sealed)) : Prop :=
  ∀ store ∈ stores, ∀ other ∈ files ++ stores, other.1 = store.1 → other.2 = store.2

instance (files : Entries Sealed) (stores : List (Key × Sealed)) : Decidable (NoClash files stores) :=
  inferInstanceAs (Decidable (∀ store ∈ stores, ∀ other ∈ files ++ stores, _ → _))

section Stores

variable {files : Entries Sealed} {stores : List (Key × Sealed)} {store : Key × Sealed}

theorem get_storeObject_of_get {key : Key} {entry : Sealed} (h : files.get key = some entry) :
    (storeObject files store).get key = some entry := by
  unfold storeObject
  by_cases there : (files.get store.1).isSome
  · rwa [if_pos there]
  · have ne : key ≠ store.1 := by
      rintro rfl
      simp [h] at there
    rwa [if_neg there, Entries.get_insert_of_ne ne]

theorem get_storeAll_of_get {key : Key} {entry : Sealed} (h : files.get key = some entry) :
    (storeAll files stores).get key = some entry := by
  induction stores generalizing files with
  | nil => exact h
  | cons first rest ih => exact ih (get_storeObject_of_get h)

theorem get_storeObject (same : ∀ other ∈ files, other.1 = store.1 → other.2 = store.2) :
    (storeObject files store).get store.1 = some store.2 := by
  unfold storeObject
  by_cases there : (files.get store.1).isSome
  · obtain ⟨entry, found⟩ := Option.isSome_iff_exists.mp there
    have entry_eq : entry = store.2 := same _ (Entries.mem_of_get found) rfl
    rw [if_pos there, found, entry_eq]
  · rw [if_neg there, Entries.get_insert_self]

theorem mem_storeObject {other : String × Sealed} (h : other ∈ storeObject files store) :
    other ∈ files ∨ other = store := by
  unfold storeObject at h
  split at h
  · exact Or.inl h
  · rw [Entries.mem_insert] at h
    exact h.imp_left And.left

theorem get_storeAll_of_new {key : Key} (other : ∀ store ∈ stores, store.1 ≠ key) :
    (storeAll files stores).get key = files.get key := by
  induction stores generalizing files with
  | nil => rfl
  | cons first rest ih =>
    obtain ⟨ne, others⟩ := List.forall_mem_cons.mp other
    show (storeAll (storeObject files first) rest).get key = files.get key
    rw [ih others, storeObject]
    split
    · rfl
    · exact Entries.get_insert_of_ne ne.symm

theorem get_storeAll (noClash : NoClash files stores) (member : store ∈ stores) :
    (storeAll files stores).get store.1 = some store.2 := by
  induction stores generalizing files with
  | nil => cases member
  | cons first rest ih =>
    rcases List.mem_cons.mp member with rfl | later
    · have now : (storeObject files store).get store.1 = some store.2 := by
        apply get_storeObject
        exact fun other old => noClash store List.mem_cons_self other (List.mem_append_left _ old)
      show (storeAll (storeObject files store) rest).get store.1 = some store.2
      exact get_storeAll_of_get now
    · refine ih ?_ later
      intro store inside other among
      refine noClash store (List.mem_cons_of_mem _ inside) other ?_
      rcases List.mem_append.mp among with old | new
      · rcases mem_storeObject old with old | rfl
        · exact List.mem_append_left _ old
        · exact List.mem_append_right _ List.mem_cons_self
      · exact List.mem_append_right _ (List.mem_cons_of_mem _ new)

end Stores

section Plan

variable (names : Text → StorageNames) (format : TreeFormat) (depth : Nat) (s : Vault) (newKey : Text)

/-- What the plan of a rotation has for each row. -/
structure Planned (plan : RotationPlan) : Prop where
  blob : ∀ oid, Option.Rel
    (fun blob key => ∃ bytes, s.readBlobPayload oid blob.objectKey = .ok bytes ∧
      (key, newKey, .payload bytes) ∈ plan.stores)
    (s.db.blobs.find? (fun blob => blob.oid = oid)) (plan.blobKeys.get oid)
  chunk : ∀ oid, Option.Rel
    (fun chunk key => ∃ bytes, s.readPayload chunk.objectKey = .ok bytes ∧
      (key, newKey, .payload bytes) ∈ plan.stores)
    (s.db.chunks.find? (fun chunk => chunk.oid = oid)) (plan.chunkKeys.get oid)
  large : ∀ oid, Option.Rel
    (fun large key => ∃ manifest rotated, s.view.readLarge large.manifestKey = .ok manifest ∧
      rewriteChunkKeys plan.chunkKeys manifest = .ok rotated ∧
      (key, newKey, .large rotated) ∈ plan.stores)
    (s.db.largeObjects.find? (fun large => large.oid = oid)) (plan.largeManifestKeys.get oid)
  snapshot : ∀ id, Option.Rel
    (fun row key => ∃ manifest rewritten, s.view.snapshotManifestFromParts depth row = .ok manifest ∧
      rewriteManifestPayloadKeys plan.blobKeys plan.largeManifestKeys manifest = .ok rewritten ∧
      key = (s.rotateSnapshot names format newKey rewritten).1 ∧
      ∀ store ∈ (s.rotateSnapshot names format newKey rewritten).2, store ∈ plan.stores)
    (s.db.snapshots.find? (fun row => row.id = id)) (plan.snapshotUpdates.get id)

variable {names format depth s newKey}

theorem planRotation_planned {plan : RotationPlan}
    (h : s.planRotation names format depth newKey = .ok plan) :
    Planned names format depth s newKey plan := by
  obtain ⟨blobPayloads, readBlobs, h⟩ := of_bind h
  obtain ⟨chunkPayloads, readChunks, h⟩ := of_bind h
  obtain ⟨largeManifests, readLarges, h⟩ := of_bind h
  obtain ⟨manifests, loaded, h⟩ := of_bind h
  obtain ⟨rotatedLarge, rotated, h⟩ := of_bind h
  obtain ⟨rewritten, rewrote, h⟩ := of_bind h
  cases h
  constructor
  · intro oid
    simp only [Entries.get_map]
    cases found : s.db.blobs.find? (fun blob => blob.oid = oid) with
    | none => exact .none
    | some blob =>
      have name : blob.oid = oid := by simpa using List.find?_some found
      obtain ⟨bytes, read, beside⟩ := mapM_zip readBlobs (List.mem_of_find?_eq_some found)
      refine .some ⟨bytes, name ▸ read, ?_⟩
      simp only [List.mem_append]
      exact Or.inl (Or.inl (Or.inl (List.mem_map.mpr ⟨(blob, bytes), beside, rfl⟩)))
  · intro oid
    simp only [Entries.get_map]
    cases found : s.db.chunks.find? (fun chunk => chunk.oid = oid) with
    | none => exact .none
    | some chunk =>
      obtain ⟨bytes, read, beside⟩ := mapM_zip readChunks (List.mem_of_find?_eq_some found)
      refine .some ⟨bytes, read, ?_⟩
      simp only [List.mem_append]
      exact Or.inl (Or.inl (Or.inr (List.mem_map.mpr ⟨(chunk, bytes), beside, rfl⟩)))
  · intro oid
    refine rel_imp (Entries.get_zip (mapM_eq_ok.mp (mapM_mapM readLarges rotated))
      LargeObjectRow.oid (fun large => (names newKey).largeManifest large.2) oid) ?_
    rintro large key ⟨rotated', both, member, rfl⟩
    obtain ⟨manifest, read, rewrite⟩ := of_bind both
    refine ⟨manifest, rotated', read, rewrite, ?_⟩
    simp only [List.mem_append]
    exact Or.inl (Or.inr (List.mem_map.mpr ⟨rotated', member, rfl⟩))
  · intro id
    refine rel_imp (Entries.get_zip (mapM_eq_ok.mp (mapM_mapM loaded rewrote)) SnapshotRow.id
      (fun row => (s.rotateSnapshot names format newKey row.2).1) id) ?_
    rintro row key ⟨manifest', both, member, rfl⟩
    obtain ⟨manifest, load, rewrite⟩ := of_bind both
    refine ⟨manifest, manifest', load, rewrite, rfl, ?_⟩
    intro store inside
    simp only [List.mem_append]
    exact Or.inr (List.mem_flatMap.mpr ⟨manifest', member, inside⟩)

end Plan

section Reading

variable (s : Vault)

/-- The bytes of a chunk, by its row. -/
def readChunkRow (oid : Oid) : Except String Bytes :=
  match s.db.chunks.find? (fun row => row.oid = oid) with
  | some row => s.readPayload row.objectKey
  | none => .error s!"missing chunk {oid}"

/-- The bytes of a payload by the rows of its objects, whatever keys it names itself. -/
def readByRows (payload : Payload) : Except String (List Bytes) :=
  match payloadBlobRef payload, payloadLargeRef payload with
  | some (oid, _), _ =>
    match s.db.blobs.find? (fun blob => blob.oid = oid) with
    | some blob => (s.readBlobPayload oid blob.objectKey).map ([·])
    | none => .error s!"missing blob {oid}"
  | none, some (oid, _, count) =>
    match s.db.largeObjects.find? (fun large => large.oid = oid) with
    | some large => do
      let manifest ← s.view.readLarge large.manifestKey
      if manifest.chunks.length ≠ count then .error s!"chunk count mismatch for {oid}"
      else manifest.chunks.mapM (fun chunk => s.readChunkRow chunk.1)
    | none => .error s!"missing large object {oid}"
  | none, none => .ok []

/-- What can be read of a payload is what the rows of its objects say. -/
def ReadsAsRows (payload : Payload) : Prop :=
  ∀ pieces ∈ (s.readFile payload).toOption, s.readByRows payload = .ok pieces

instance (payload : Payload) : Decidable (s.ReadsAsRows payload) :=
  inferInstanceAs (Decidable (∀ pieces ∈ (s.readFile payload).toOption, _))

/-- The same record but for the key of its payload, which reads the same. -/
def RecordKept (s' : Vault) (record record' : FileRecord) : Prop :=
  (∃ key, record' = { record with payload := record.payload.withKey key }) ∧
    ∀ pieces, s.readFile record.payload = .ok pieces → s'.readFile record'.payload = .ok pieces

/-- The state as one key alone reads it, without packs. -/
def alone (key : Text) : Vault :=
  { s with masterKey := key, rotationKeys := [], db := { s.db with blobs := [] } }

/-- The objects that a payload names, with the chunks of its manifest. -/
def payloadKeys (payload : Payload) : List Key :=
  match payloadBlobRef payload, payloadLargeRef payload with
  | some (_, key), _ => [key]
  | none, some (_, key, _) =>
    key :: match s.files.get key with
      | some (_, .large manifest) => manifest.chunks.map Prod.snd
      | _ => []
  | none, none => []

variable {s} {names : Text → StorageNames} {format : TreeFormat} {depth : Nat} {newKey : Text}
variable {plan : RotationPlan}

variable {key : Key}

theorem view_commitRotation (noClash : NoClash s.files plan.stores) {object : Object}
    (stored : (key, newKey, object) ∈ plan.stores) :
    (s.commitRotation newKey plan).view key = some object := by
  simp [view, commitRotation, get_storeAll noClash stored, decodeObject]

/-- What the rotation seals with the old key is lost to the new one. -/
theorem view_commitRotation_old (noClash : NoClash s.files plan.stores) {object : Object}
    (stored : (key, s.masterKey, object) ∈ plan.stores) (other : s.masterKey ≠ newKey) :
    (s.commitRotation newKey plan).view key = none := by
  simp [view, commitRotation, get_storeAll noClash stored, decodeObject, other]

theorem readPayload_commitRotation (noClash : NoClash s.files plan.stores) {bytes : Bytes}
    (stored : (key, newKey, .payload bytes) ∈ plan.stores) :
    (s.commitRotation newKey plan).readPayload key = .ok bytes := by
  simp only [readPayload, view_commitRotation noClash stored]

theorem readBlobPayload_commitRotation (oid : Oid) (key : Key) :
    (s.commitRotation newKey plan).readBlobPayload oid key =
      (s.commitRotation newKey plan).readPayload key := by
  unfold readBlobPayload
  cases found : (s.commitRotation newKey plan).db.blobs.find? (fun blob => blob.oid = oid) with
  | none => rfl
  | some blob =>
    obtain ⟨old, -, rfl⟩ := List.mem_map.mp (List.mem_of_find?_eq_some found)
    rfl

theorem withKey_of_rewriteRecordKeys {record record' : FileRecord}
    (h : rewriteRecordKeys plan.blobKeys plan.largeManifestKeys record = .ok record') :
    ∃ key, record' = { record with payload := record.payload.withKey key } := by
  unfold rewriteRecordKeys at h
  split at h
  · split at h
    · exact ⟨_, (Except.ok.inj h).symm⟩
    · cases h
  · split at h
    · exact ⟨_, (Except.ok.inj h).symm⟩
    · cases h
  · next blob large =>
    refine ⟨"", ?_⟩
    rw [Payload.withKey_of_none blob large]
    exact (Except.ok.inj h).symm

section Unwritten

variable {payload : Payload} (unwritten : ∀ store ∈ plan.stores, s.files.get store.1 = none →
  store.1 ∉ s.payloadKeys payload)

include unwritten

theorem view_unwritten (named : key ∈ s.payloadKeys payload) :
    (s.commitRotation newKey plan).view key = (s.alone newKey).view key := by
  have same : (storeAll s.files plan.stores).get key = s.files.get key := by
    cases found : s.files.get key with
    | some entry => exact get_storeAll_of_get found
    | none =>
      rw [get_storeAll_of_new, found]
      rintro store inside rfl
      exact unwritten store inside found named
  show ((storeAll s.files plan.stores).get key).bind _ = _
  rw [same]
  rfl

/-- The rotation leaves a payload as the new key alone reads it. -/
theorem readFile_unwritten :
    (s.commitRotation newKey plan).readFile payload = (s.alone newKey).readFile payload := by
  have views : ∀ key ∈ s.payloadKeys payload,
      (s.commitRotation newKey plan).view key = (s.alone newKey).view key :=
    fun key named => view_unwritten unwritten named
  unfold readFile
  cases blob : payloadBlobRef payload with
  | some ref =>
    have view := views ref.2 (by simp [payloadKeys, blob])
    simp only [readBlobPayload_commitRotation, readPayload, view]
    rfl
  | none =>
    cases large : payloadLargeRef payload with
    | none => rfl
    | some ref =>
      obtain ⟨oid, key, count⟩ := ref
      have view := views key (by simp [payloadKeys, blob, large])
      simp only [readLargePayload, View.readLarge, view]
      cases found : (s.alone newKey).view key with
      | none => rfl
      | some object =>
        cases object with
        | large manifest =>
          have chunks : ∀ chunk ∈ manifest.chunks, chunk.2 ∈ s.payloadKeys payload := by
            obtain ⟨entry, there, decoded⟩ := Option.bind_eq_some_iff.mp found
            have stored : entry.2 = .large manifest := by
              unfold decodeObject at decoded
              split at decoded
              · exact Option.some.inj decoded
              · cases decoded
            obtain ⟨sealedWith, object⟩ := entry
            cases stored
            intro chunk inside
            have there : s.files.get key = some (sealedWith, .large manifest) := there
            simp only [payloadKeys, blob, large, there]
            exact List.mem_cons_of_mem _ (List.mem_map_of_mem inside)
          show (if _ then _ else _) = (if _ then _ else _)
          congr 1
          refine mapM_congr (List.forall₂_same.mpr fun chunk inside => ?_)
          simp only [readPayload, views chunk.2 (chunks chunk inside)]
        | _ => rfl

end Unwritten

variable (planned : Planned names format depth s newKey plan)
variable (noClash : NoClash s.files plan.stores)

include planned noClash

theorem readPayload_rewriteChunkKey {chunk chunk' : Oid × Key}
    (rewrite : rewriteChunkKey plan.chunkKeys chunk = .ok chunk') :
    s.readChunkRow chunk.1 = (s.commitRotation newKey plan).readPayload chunk'.2 := by
  unfold rewriteChunkKey at rewrite
  split at rewrite
  · next key rotated =>
    cases rewrite
    obtain ⟨row, found, bytes, readRow, stored⟩ := rel_some_right (rotated ▸ planned.chunk chunk.1)
    rw [readPayload_commitRotation noClash stored, readChunkRow, found]
    exact readRow
  · cases rewrite

/-- A record with new keys reads as the rows of its objects did. -/
theorem readFile_rewriteRecordKeys {record record' : FileRecord} {pieces : List Bytes}
    (h : rewriteRecordKeys plan.blobKeys plan.largeManifestKeys record = .ok record') :
    (s.commitRotation newKey plan).readFile record'.payload = .ok pieces ↔
      s.readByRows record.payload = .ok pieces := by
  unfold rewriteRecordKeys at h
  unfold readByRows
  cases blob : payloadBlobRef record.payload with
  | some ref =>
    obtain ⟨oid, old⟩ := ref
    simp only [blob] at h
    cases rotated : plan.blobKeys.get oid with
    | none => simp [rotated] at h
    | some key =>
      simp only [rotated] at h
      cases h
      obtain ⟨row, found, bytes, read, stored⟩ := rel_some_right (rotated ▸ planned.blob oid)
      simp only [readFile, payloadBlobRef_withKey, blob, Option.map_some, found, read,
        readBlobPayload_commitRotation, readPayload_commitRotation noClash stored]
  | none =>
    cases large : payloadLargeRef record.payload with
    | none =>
      simp only [blob, large] at h
      cases h
      simp only [readFile, blob, large]
    | some ref =>
      obtain ⟨oid, old, count⟩ := ref
      simp only [blob, large] at h
      cases rotated : plan.largeManifestKeys.get oid with
      | none => simp [rotated] at h
      | some key =>
        simp only [rotated] at h
        cases h
        obtain ⟨row, found, manifest, manifest', read, rewrite, stored⟩ :=
          rel_some_right (rotated ▸ planned.large oid)
        obtain ⟨chunks, rewrites, result⟩ := of_bind rewrite
        cases result
        have readNew := View.readLarge_ok.mpr (view_commitRotation noClash stored)
        have each := mapM_eq_ok.mp rewrites
        simp only [readFile, readLargePayload, payloadBlobRef_withKey, payloadLargeRef_withKey,
          blob, large, Option.map_some, Option.map_none, found, read, readNew]
        show (if _ then _ else _) = Except.ok pieces ↔ (if _ then _ else _) = Except.ok pieces
        rw [← each.length_eq, mapM_congr (each.imp fun _ _ one =>
          readPayload_rewriteChunkKey planned noClash one)]
        split
        · exact ⟨fun h => (by cases h), fun h => (by cases h)⟩
        · exact Iff.rfl

theorem recordKept_iff {record record' : FileRecord}
    (h : rewriteRecordKeys plan.blobKeys plan.largeManifestKeys record = .ok record') :
    s.RecordKept (s.commitRotation newKey plan) record record' ↔ s.ReadsAsRows record.payload := by
  constructor
  · rintro ⟨-, same⟩ pieces read
    exact (readFile_rewriteRecordKeys planned noClash h).mp (same pieces (toOption_eq_some.mp read))
  · intro same
    refine ⟨withKey_of_rewriteRecordKeys h, ?_⟩
    intro pieces read
    have rows := same pieces (toOption_eq_some.mpr read)
    exact (readFile_rewriteRecordKeys planned noClash h).mpr rows

end Reading

end Vault

end Majutsu.Repo
