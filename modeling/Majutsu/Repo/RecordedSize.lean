import Majutsu.Repo.ChangingFile

/-!
# Recorded sizes

`scan_root` asks for the metadata of a file, chooses by its length how the content is
stored, and reads the content after that. The record keeps the length of the metadata.
The journal does the same for files that are stored in chunks; for a blob it counts the
bytes that it stored.

The objects lie under the hash of their content, and nothing else writes them here.
-/

namespace Majutsu.Repo

structure BlobKey (Oid : Type) where
  base : String
  oid : Oid
  deriving DecidableEq

inductive FilePayload (Oid MOid : Type) where
  | inlineSmall (oid : Oid) (objectKey : BlobKey Oid)
  | normalBlob (oid : Oid) (objectKey : BlobKey Oid)
  | chunkedBlob (oid : Oid) (manifestKey : MOid) (chunkCount : Nat)
  | largeObject (oid : Oid) (manifestKey : MOid) (chunkCount : Nat)
  deriving DecidableEq

structure PayloadStore (Oid MOid : Type) where
  blobs : BlobKey Oid → Option Bytes
  large : LargeStore Oid MOid

/-- What a scan may take from earlier uploads. The journal takes nothing. -/
structure Reuse (Oid : Type) where
  /-- `reusable_blob_keys`. -/
  blobKeys : Oid → Option (BlobKey Oid)
  remotePayloadsAreDurable : Bool

def Reuse.nothing {Oid : Type} : Reuse Oid := ⟨fun _ => none, false⟩

/-- `LargeConfig`, with what decides about a file beside how it is cut. -/
structure LargePolicy where
  enabled : Bool
  minSize : Nat
  binaryMinSize : Nat
  chunkedMinSize : Nat
  chunkedChunkSize : Nat
  always : List Text
  never : List Text
  config : LargeConfig

/-- `glob_match` of the rules, which looks at extensions without case. -/
def matchesName (pattern name : Text) : Bool :=
  match pattern with
  | '*' :: '.' :: extension =>
    ('.' :: extension.map Char.toLower).isSuffixOf (name.map Char.toLower)
  | _ => pattern = name

inductive Route where
  | large
  | chunked
  | small
  deriving DecidableEq

namespace LargePolicy

variable (policy : LargePolicy)

def classifyLarge (name : Text) (size : Nat) (binary : Bool) : Bool :=
  if !policy.enabled then false
  else if policy.never.any (matchesName · name) then false
  else if policy.always.any (matchesName · name) then true
  else policy.minSize ≤ size || (binary && policy.binaryMinSize ≤ size)

def route (name : Text) (size : Nat) (binary : Bool) : Route :=
  if policy.classifyLarge name size binary then .large
  else if policy.enabled && policy.chunkedMinSize ≤ size then .chunked
  else .small

def configFor : Route → LargeConfig
  | .chunked => { policy.config with chunkSize := policy.chunkedChunkSize }
  | _ => policy.config

end LargePolicy

namespace Source

variable (source : Source)

/-- The metadata of a regular file, and the time of the next call. -/
def regularFile : Except String (Option (Metadata × Nat)) :=
  match (source.history 0).entry with
  | .absent => .error "No such file or directory (os error 2)"
  | .file ino => .ok (some ((source.history 0).stat ino, 1))
  | .special _ _ | .directory _ => .ok none
  | .link _ _ _ =>
    if !source.follow then .ok none
    else
      match (source.history 1).entry with
      | .special _ _ | .directory _ => .ok none
      | _ => ((source.history 1).resolve true).map
        (fun ino => some ((source.history 1).stat ino, 2))

def looksBinary (time : Nat) : Bool :=
  match (source.history time).resolve true with
  | .ok ino => (((source.history (time + 1)).inode ino).content.take 8192).contains 0
  | .error _ => false

end Source

/-- A path that a scan or the journal comes to. -/
structure Visit extends Source where
  rootId : String
  path : RelPath
  /-- The path was recorded before, or everything is new. -/
  known : Bool
  mediaType : Option String
  xattrs : Entries String
  policy : LargePolicy

namespace Visit

variable (visit : Visit)

def fileName : Text :=
  match visit.path.getLast? with
  | some name =>
    let text := Utf8.decodeLossy name
    if Utf8.encode text = name then text else []
  | none => []

def route (info : Metadata) (time : Nat) : Route :=
  visit.policy.route visit.fileName info.len (visit.looksBinary time)

def call (config : LargeConfig) (binary reuseRemoteChunks : Bool) (attempts : List Attempt)
    (bytes : Bytes) : LargeCall where
  displayPath := visit.displayPath
  fileName := visit.fileName
  mediaType := visit.mediaType
  config := config
  binary := binary
  reuseRemoteChunks := reuseRemoteChunks
  attempts := attempts
  bytes := bytes

def streamPasses (config : LargeConfig) (time : Nat) : Option (List Attempt × Option String) :=
  visit.passes (fun _ => max config.chunkSize 1) 8 time

section Storing

variable {Oid MOid : Type} [DecidableEq Oid] [DecidableEq MOid] (env : LargeEnv Oid MOid)

/-- `store_large_file_with_remote_reuse`, by path or in the root. -/
def storeLargeFile (config : LargeConfig) (binary reuseRemoteChunks : Bool) (time : Nat)
    (s : LargeStore Oid MOid) :
    Option (Except String (LargeStore.Stored Oid MOid) × LargeStore Oid MOid) :=
  if config.defaultChunking = "fixed" then
    (visit.streamPasses config time).map fun (attempts, failure) =>
      let stored := s.storeLargeFile env (visit.call config binary reuseRemoteChunks attempts [])
      match failure with
      | none => stored
      | some err => (.error err, stored.2)
  else
    (visit.stableRead "strict" time).map fun
      | .error err => (.error err, s)
      | .ok bytes => s.storeLargeFile env (visit.call config binary reuseRemoteChunks [] bytes)

end Storing

end Visit

namespace PayloadStore

variable {Oid MOid : Type} [DecidableEq Oid] [DecidableEq MOid] (env : LargeEnv Oid MOid)

def storeBytes (s : PayloadStore Oid MOid) (bytes : Bytes) :
    BlobKey Oid × PayloadStore Oid MOid :=
  let key := ⟨"objects/blobs", env.blake3 bytes⟩
  if (s.blobs key).isSome then (key, s)
  else (key, { s with blobs := Function.update s.blobs key (some bytes) })

def storeBlob (reuse : Reuse Oid) (s : PayloadStore Oid MOid) (bytes : Bytes) :
    FilePayload Oid MOid × PayloadStore Oid MOid :=
  let oid := env.blake3 bytes
  let stored := match reuse.blobKeys oid with
    | some key => (key, s)
    | none => s.storeBytes env bytes
  (if bytes.length ≤ smallBlobMaxSize then .inlineSmall oid stored.1 else .normalBlob oid stored.1,
    stored.2)

omit [DecidableEq Oid] [DecidableEq MOid] in
/-- The bytes that a payload reads back to. -/
def readBack (s : PayloadStore Oid MOid) : FilePayload Oid MOid → Option Bytes
  | .inlineSmall _ key | .normalBlob _ key => s.blobs key
  | .chunkedBlob _ key _ | .largeObject _ key _ =>
    (s.large.manifestObjects key).bind (s.large.readLarge env)

end PayloadStore

structure RecordedFile (Oid MOid : Type) where
  rootId : String
  path : String
  kind : String
  size : Nat
  info : Metadata
  xattrs : Entries String
  payload : FilePayload Oid MOid

/-- What the upload of the journal fills in. -/
structure DurableEvent (Oid MOid : Type) where
  tombstone : Option Bool
  entryKind : Option String
  info : Option Metadata
  symlinkTarget : Option String
  specialKind : Option String
  payloadOid : Option Oid
  payloadKey : Option (BlobKey Oid)
  payloadSize : Option Nat
  largeManifestKey : Option MOid
  largeChunkCount : Option Nat

namespace DurableEvent

variable {Oid MOid : Type} (event : DurableEvent Oid MOid)

def blank : DurableEvent Oid MOid := ⟨none, none, none, none, none, none, none, none, none, none⟩

def isEnriched : Bool :=
  event.entryKind.isSome || event.payloadKey.isSome || event.tombstone = some true

def payload : Option (FilePayload Oid MOid) :=
  match event.payloadOid, event.largeManifestKey, event.largeChunkCount with
  | some oid, some manifestKey, some chunkCount => some (.chunkedBlob oid manifestKey chunkCount)
  | some oid, _, _ => event.payloadKey.map (.normalBlob oid)
  | none, _, _ => none

end DurableEvent

namespace Visit

variable {Oid MOid : Type} [DecidableEq Oid] [DecidableEq MOid] (env : LargeEnv Oid MOid)
  (visit : Visit)

def storeLargePayload (make : Oid → MOid → Nat → FilePayload Oid MOid) (config : LargeConfig)
    (reuse : Reuse Oid) (time : Nat) (s : PayloadStore Oid MOid) :
    Option (Except String (FilePayload Oid MOid × Option Nat) × PayloadStore Oid MOid) :=
  (visit.storeLargeFile env config (visit.looksBinary time) reuse.remotePayloadsAreDurable
    (time + 2) s.large).map fun (result, large) =>
      (result.map (fun (oid, key, count) => (make oid key count, none)), { s with large := large })

/-- Store the content of a file by its route. For a blob there is also the number of bytes. -/
def storePayload (reuse : Reuse Oid) (info : Metadata) (time : Nat) (s : PayloadStore Oid MOid) :
    Option (Except String (FilePayload Oid MOid × Option Nat) × PayloadStore Oid MOid) :=
  match visit.route info time with
  | .large => visit.storeLargePayload env .largeObject (visit.policy.configFor .large) reuse time s
  | .chunked =>
    visit.storeLargePayload env .chunkedBlob (visit.policy.configFor .chunked) reuse time s
  | .small =>
    (visit.stableRead visit.snapshotMode (time + 2)).map fun
      | .error err => (.error err, s)
      | .ok bytes =>
        let stored := s.storeBlob env reuse bytes
        (.ok (stored.1, some bytes.length), stored.2)

def scanFile (reuse : Reuse Oid) (s : PayloadStore Oid MOid) :
    Option (Except String (Option (RecordedFile Oid MOid)) × PayloadStore Oid MOid) :=
  match visit.regularFile with
  | .error err => some (.error err, s)
  | .ok none => some (.ok none, s)
  | .ok (some (info, time)) =>
    if !visit.known && visit.route info time ≠ .small then some (.ok none, s)
    else
      (visit.storePayload env reuse info time s).map fun (result, s) =>
        (result.map (fun (payload, _) =>
          some ⟨visit.rootId, pathToSlash visit.path, "file", info.len, info, visit.xattrs, payload⟩),
          s)

/-- The event of a file whose content was stored. Chunks count as long as the metadata say. -/
def completed (event : DurableEvent Oid MOid) (info : Metadata) :
    FilePayload Oid MOid × Option Nat → DurableEvent Oid MOid
  | (.chunkedBlob oid key count, length) | (.largeObject oid key count, length) =>
    { event with
      entryKind := some "file", info := some info, payloadOid := some oid,
      payloadSize := some (length.getD info.len), largeManifestKey := some key,
      largeChunkCount := some count }
  | (.inlineSmall oid key, length) | (.normalBlob oid key, length) =>
    { event with
      entryKind := some "file", info := some info, payloadOid := some oid,
      payloadSize := some (length.getD info.len), payloadKey := some key }

def enrichFile (event : DurableEvent Oid MOid) (s : PayloadStore Oid MOid) :
    Option (Except String (DurableEvent Oid MOid) × PayloadStore Oid MOid) :=
  match visit.regularFile with
  | .error err => some (.error err, s)
  | .ok none => some (.ok event, s)
  | .ok (some (info, time)) =>
    if !visit.known && visit.route info time ≠ .small then some (.ok event, s)
    else
      (visit.storePayload env Reuse.nothing info time s).map fun (result, s) =>
        (result.map (completed event info), s)

def enrichFrom (event : DurableEvent Oid MOid) (s : PayloadStore Oid MOid) :
    Option (Except String (DurableEvent Oid MOid) × PayloadStore Oid MOid) :=
  match (visit.history 0).entry, visit.follow with
  | .link _ target _, false =>
    some (.ok { event with entryKind := some "symlink", symlinkTarget := some target }, s)
  | .special _ kind, _ =>
    some (.ok { event with entryKind := some "special", specialKind := some kind }, s)
  | _, _ => visit.enrichFile env event s

/-- `enrich_remote_event_journal_payload` for an event of the visited path. -/
def enrich (event : DurableEvent Oid MOid) (s : PayloadStore Oid MOid) :
    Option (Except String (DurableEvent Oid MOid) × PayloadStore Oid MOid) :=
  if event.isEnriched then some (.ok event, s)
  else
    match (visit.history 0).symlinkMetadata with
    | none => some (.ok { event with tombstone := some true }, s)
    | some own => visit.enrichFrom env { event with info := some own } s

end Visit

inductive Work (Oid MOid : Type) where
  | scan (visit : Visit) (reuse : Reuse Oid)
  | enrich (visit : Visit) (event : DurableEvent Oid MOid)

/-- The size that a record or an event states, and the payload it leads to. -/
structure SizedPayload (Oid MOid : Type) where
  size : Nat
  payload : FilePayload Oid MOid
  deriving DecidableEq

namespace Work

variable {Oid MOid : Type}

def visit : Work Oid MOid → Visit
  | .scan visit _ | .enrich visit _ => visit

def reuse : Work Oid MOid → Reuse Oid
  | .scan _ reuse => reuse
  | .enrich _ _ => Reuse.nothing

/-- What an event that is completed as a file states. -/
def sized (event : DurableEvent Oid MOid) : Option (SizedPayload Oid MOid) :=
  if event.entryKind = some "file" then
    event.payload.map (fun payload => ⟨event.payloadSize.getD 0, payload⟩)
  else none

variable [DecidableEq Oid] [DecidableEq MOid] (env : LargeEnv Oid MOid)

/-- Do the work; an event that was complete before yields nothing new. -/
def step (work : Work Oid MOid) (s : PayloadStore Oid MOid) :
    Option (Except String (Option (SizedPayload Oid MOid)) × PayloadStore Oid MOid) :=
  match work with
  | .scan visit reuse =>
    (visit.scanFile env reuse s).map fun (result, s) =>
      (result.map (Option.map (fun record => ⟨record.size, record.payload⟩)), s)
  | .enrich visit event =>
    (visit.enrich env event s).map fun (result, s) =>
      (result.map (fun done => if event.isEnriched then none else sized done), s)

def runAll : List (Work Oid MOid) → PayloadStore Oid MOid →
    Option (List (Except String (Option (SizedPayload Oid MOid))) × PayloadStore Oid MOid)
  | [], s => some ([], s)
  | work :: rest, s =>
    (work.step env s).bind fun (result, s) =>
      (runAll rest s).map fun (results, s) => (result :: results, s)

end Work

namespace Source

variable (source : Source)

/-- The pass that a reader takes: its first call, and the time after its last one. -/
def takenPass (room : Nat → Nat) (retries : Bool) : Nat → Nat → Option (Nat × Nat)
  | 0, _ => none
  | attempts + 1, time =>
    match source.pass room time with
    | none => none
    | some (.ok attempt, done) =>
      if attempt.stable then some (time, done) else takenPass room retries attempts done
    | some (.error _, done) => if retries then takenPass room retries attempts done else none

/-- From one call to another, every file that the path leads to has the length. -/
def HasLength (start done len : Nat) : Prop :=
  ∀ early, start ≤ early → early < done → ∀ ino,
    (source.history early).resolve source.follow = .ok ino →
      ∀ time, start ≤ time → time < done →
        ((source.history time).inode ino).content.length = len

end Source

namespace Visit

variable (visit : Visit)

def takenRead (mode : String) (time : Nat) : Option (Nat × Nat) :=
  visit.takenPass visit.room (!visit.follow) (if mode = "strict" then 8 else 3) time

def takenLarge (config : LargeConfig) (time : Nat) : Option (Nat × Nat) :=
  if config.defaultChunking = "fixed" then
    visit.takenPass (fun _ => max config.chunkSize 1) false 8 time
  else visit.takenRead "strict" time

def taken (info : Metadata) (time : Nat) : Option (Nat × Nat) :=
  match visit.route info time with
  | .small => visit.takenRead visit.snapshotMode (time + 2)
  | .chunked => visit.takenLarge (visit.policy.configFor .chunked) (time + 2)
  | .large => visit.takenLarge (visit.policy.configFor .large) (time + 2)

/-- While the pass runs that is taken, the file has the length that the metadata said before. -/
def KeepsLength : Prop :=
  ∀ info time, visit.regularFile = .ok (some (info, time)) →
    ∀ start done, visit.taken info time = some (start, done) → visit.HasLength start done info.len

def isSmall : Bool :=
  match visit.regularFile with
  | .ok (some (info, time)) => visit.route info time = .small
  | _ => false

/-- The call for a file that is stored in chunks, when there is one. -/
def largeCall (config : LargeConfig) (binary reuseRemoteChunks : Bool) (time : Nat) :
    Option LargeCall :=
  if config.defaultChunking = "fixed" then
    (visit.streamPasses config time).map fun made =>
      visit.call config binary reuseRemoteChunks made.1 []
  else
    match visit.stableRead "strict" time with
    | some (.ok bytes) => some (visit.call config binary reuseRemoteChunks [] bytes)
    | _ => none

/-- The chunks of the file fit the objects of the store. -/
def Fits {Oid MOid : Type} (env : LargeEnv Oid MOid) (s : LargeStore Oid MOid)
    (reuseRemoteChunks : Bool) : Prop :=
  ∀ info time, visit.regularFile = .ok (some (info, time)) → visit.route info time ≠ .small →
    ∀ call ∈ visit.largeCall (visit.policy.configFor (visit.route info time))
      (visit.looksBinary time) reuseRemoteChunks (time + 2), s.Fits env call

end Visit

namespace PayloadStore

variable {Oid MOid : Type} (env : LargeEnv Oid MOid)

/-- Objects lie under their hashes, and manifests can be read. -/
structure Sound (s : PayloadStore Oid MOid) : Prop where
  blobs : ∀ key bytes, s.blobs key = some bytes → env.blake3 bytes = key.oid
  large : s.large.Sound env

structure Grows (s s' : PayloadStore Oid MOid) : Prop where
  blobs : ∀ key bytes, s.blobs key = some bytes → s'.blobs key = some bytes
  large : LargeStore.Grows s.large s'.large

variable {env} {s s' s'' : PayloadStore Oid MOid}

theorem Grows.refl (s : PayloadStore Oid MOid) : Grows s s := ⟨fun _ _ h => h, .refl _⟩

theorem Grows.trans (first : Grows s s') (second : Grows s' s'') : Grows s s'' :=
  ⟨fun key bytes h => second.blobs key bytes (first.blobs key bytes h),
    first.large.trans second.large⟩

variable {bytes : Bytes}

theorem Grows.readBack (grows : Grows s s') {payload : FilePayload Oid MOid}
    (read : s.readBack env payload = some bytes) : s'.readBack env payload = some bytes := by
  cases payload with
  | inlineSmall | normalBlob => exact grows.blobs _ _ read
  | chunkedBlob | largeObject =>
    obtain ⟨manifest, object, all⟩ := Option.bind_eq_some_iff.mp read
    exact Option.bind_eq_some_iff.mpr ⟨manifest, grows.large.manifest _ _ object,
      grows.large.readLarge all⟩

/-- The keys that may be reused lead to objects of the hash. -/
def Offers (s : PayloadStore Oid MOid) (reuse : Reuse Oid) : Prop :=
  ∀ oid key, reuse.blobKeys oid = some key → key.oid = oid ∧ (s.blobs key).isSome

theorem Sound.object_eq (sound : s.Sound env) {key : BlobKey Oid}
    (name : key.oid = env.blake3 bytes) (there : (s.blobs key).isSome) :
    s.blobs key = some bytes := by
  obtain ⟨found, object⟩ := Option.isSome_iff_exists.mp there
  have same : found = bytes := env.blake3_injective ((sound.blobs key found object).trans name)
  rw [object, same]

variable [DecidableEq Oid]

theorem storeBytes_spec (sound : s.Sound env) (bytes : Bytes) :
    (s.storeBytes env bytes).2.Sound env ∧ Grows s (s.storeBytes env bytes).2 ∧
      (s.storeBytes env bytes).2.blobs (s.storeBytes env bytes).1 = some bytes := by
  unfold storeBytes
  dsimp only
  split
  · next there => exact ⟨sound, .refl s, sound.object_eq rfl there⟩
  · next missing =>
    refine ⟨⟨?_, sound.large⟩, ⟨?_, .refl _⟩, Function.update_self ..⟩
    · intro key found object
      dsimp only at object
      by_cases own : key = ⟨"objects/blobs", env.blake3 bytes⟩
      · subst own
        rw [Function.update_self] at object
        cases object
        rfl
      · rw [Function.update_of_ne own] at object
        exact sound.blobs key found object
    · intro key found object
      dsimp only
      rw [Function.update_of_ne]
      · exact object
      · rintro rfl
        rw [object] at missing
        exact missing rfl

theorem storeBlob_spec (sound : s.Sound env) {reuse : Reuse Oid} (offers : s.Offers reuse)
    (bytes : Bytes) :
    (s.storeBlob env reuse bytes).2.Sound env ∧ Grows s (s.storeBlob env reuse bytes).2 ∧
      (s.storeBlob env reuse bytes).2.readBack env (s.storeBlob env reuse bytes).1 =
        some bytes := by
  cases reused : reuse.blobKeys (env.blake3 bytes) with
  | some key =>
    obtain ⟨name, there⟩ := offers _ _ reused
    have object := sound.object_eq name there
    simp only [storeBlob, reused]
    refine ⟨sound, .refl s, ?_⟩
    split <;> exact object
  | none =>
    obtain ⟨sound', grows, object⟩ := storeBytes_spec sound bytes
    simp only [storeBlob, reused]
    refine ⟨sound', grows, ?_⟩
    split <;> exact object

end PayloadStore

namespace Source

variable {source : Source} {room : Nat → Nat} {start time done len : Nat}

theorem HasLength.readPieces (keeps : source.HasLength start done len) (some_ : ∀ t, 0 < room t)
    {opened ino : Nat} (after : start ≤ opened) (before : opened < done)
    (named : (source.history opened).resolve source.follow = .ok ino) {patience offset last : Nat}
    {pieces : List Bytes} (inside : start ≤ time) (within : offset ≤ len)
    (read : source.readPieces room ino patience time offset = some (pieces, last))
    (ends : last ≤ done) :
    (∀ piece ∈ pieces, piece ≠ []) ∧ offset + pieces.flatten.length = len := by
  have length := keeps opened after before ino named
  induction patience generalizing time offset pieces with
  | zero => cases read
  | succ patience ih =>
    have early : time < last := readPieces_later read
    have now := length time inside (by omega)
    rw [Source.readPieces] at read
    split at read
    · next ended =>
      cases read
      have positive := some_ time
      rw [List.isEmpty_iff, List.take_eq_nil_iff, List.drop_eq_nil_iff] at ended
      exact ⟨by simp, by rw [List.flatten_nil, List.length_nil]; omega⟩
    · next more =>
      obtain ⟨⟨rest, last'⟩, tail, result⟩ := Option.map_eq_some_iff.mp read
      cases result
      have short : ((((source.history time).inode ino).content.drop offset).take
          (room time)).length ≤ len - offset := by
        rw [List.length_take, List.length_drop, now]
        exact Nat.min_le_right _ _
      obtain ⟨full, joined⟩ := ih (by omega) (by omega) tail
      dsimp only at joined ⊢
      refine ⟨?_, by rw [List.flatten_cons, List.length_append]; omega⟩
      rintro piece (_ | ⟨_, behind⟩)
      · rwa [ne_eq, ← List.isEmpty_iff]
      · exact full piece behind

theorem HasLength.pass (keeps : source.HasLength start done len) (some_ : ∀ t, 0 < room t)
    {attempt : Attempt} (made : source.pass room start = some (.ok attempt, done)) :
    attempt.read.flatten.length = len := by
  obtain ⟨opened, ino, last, -, -, rfl, after, soon, named, read, -, -⟩ := pass_inv made
  have late : start + 2 < last := readPieces_later read
  obtain ⟨full, joined⟩ := keeps.readPieces some_ after (by omega) named (by omega) (Nat.zero_le _)
    read (Nat.le_succ last)
  have whole : attempt.pieces.takeWhile (fun piece => !piece.isEmpty) = attempt.pieces := by
    simpa [List.takeWhile_eq_self_iff] using full
  rw [Attempt.read, whole]
  omega

/-- The bytes are those of the pass that is taken. -/
theorem stableReadFrom_taken {attempts : Nat} {err : String} {bytes : Bytes}
    (read : source.stableReadFrom attempts time err = some (.ok bytes)) :
    ∃ start done attempt, source.takenPass source.room (!source.follow) attempts time =
        some (start, done) ∧ source.pass source.room start = some (.ok attempt, done) ∧
      attempt.read.flatten = bytes := by
  induction attempts generalizing time err with
  | zero => cases read
  | succ attempts ih =>
    unfold stableReadFrom at read
    unfold takenPass
    cases made : source.pass source.room time with
    | none => simp [made] at read
    | some ended =>
      obtain ⟨_ | attempt, after⟩ := ended
      · cases follow : source.follow with
        | true => simp [made, follow] at read
        | false =>
          simp only [made, follow, Bool.false_eq_true, if_false] at read
          simpa only [follow, Bool.not_false, if_true] using ih read
      · simp only [made] at read ⊢
        split at read
        · next stable =>
          cases read
          exact ⟨time, after, attempt, by rw [if_pos stable], made, rfl⟩
        · next unstable =>
          rw [if_neg unstable]
          exact ih read

theorem passes_taken {attempts : Nat} {result : List Attempt × Option String}
    (made : source.passes room attempts time = some result) {attempt : Attempt}
    (found : result.1.find? Attempt.stable = some attempt) :
    ∃ start done, source.takenPass room false attempts time = some (start, done) ∧
      source.pass room start = some (.ok attempt, done) := by
  induction attempts generalizing time result with
  | zero =>
    cases made
    cases found
  | succ attempts ih =>
    unfold passes at made
    unfold takenPass
    cases first : source.pass room time with
    | none => simp [first] at made
    | some ended =>
      obtain ⟨_ | attempt', after⟩ := ended
      · simp only [first] at made
        cases made
        cases found
      · simp only [first] at made ⊢
        split at made
        · next stable =>
          cases made
          rw [List.find?_cons_of_pos stable] at found
          cases found
          exact ⟨time, after, by rw [if_pos stable], first⟩
        · next unstable =>
          obtain ⟨rest, more, rfl⟩ := Option.map_eq_some_iff.mp made
          rw [List.find?_cons_of_neg unstable] at found
          rw [if_neg unstable]
          exact ih more found

end Source

namespace Visit

variable {visit : Visit} {config : LargeConfig} {bytes : Bytes} {time len : Nat}

/-- The bytes of the pass that is taken over a file that is stored in chunks. -/
def acceptedLarge (visit : Visit) (config : LargeConfig) (time : Nat) : Option Bytes :=
  if config.defaultChunking = "fixed" then
    (visit.streamPasses config time).bind fun made =>
      (made.1.find? Attempt.stable).map (fun attempt => attempt.read.flatten)
  else (visit.stableRead "strict" time).bind Except.toOption

def accepted (visit : Visit) (info : Metadata) (time : Nat) : Option Bytes :=
  match visit.route info time with
  | .small => (visit.stableRead visit.snapshotMode (time + 2)).bind Except.toOption
  | .chunked => visit.acceptedLarge (visit.policy.configFor .chunked) (time + 2)
  | .large => visit.acceptedLarge (visit.policy.configFor .large) (time + 2)

theorem length_stableRead (roomy : ∀ t, 0 < visit.room t) {mode : String}
    (keeps : ∀ start done, visit.takenRead mode time = some (start, done) →
      visit.HasLength start done len)
    (read : (visit.stableRead mode time).bind Except.toOption = some bytes) :
    bytes.length = len := by
  obtain ⟨result, made, ok⟩ := Option.bind_eq_some_iff.mp read
  cases result with
  | error err => cases ok
  | ok bytes =>
    cases ok
    obtain ⟨start, done, attempt, taken, pass, rfl⟩ := Source.stableReadFrom_taken made
    exact (keeps start done taken).pass roomy pass

theorem length_acceptedLarge (roomy : ∀ t, 0 < visit.room t)
    (keeps : ∀ start done, visit.takenLarge config time = some (start, done) →
      visit.HasLength start done len)
    (accepted : visit.acceptedLarge config time = some bytes) : bytes.length = len := by
  unfold acceptedLarge at accepted
  unfold takenLarge at keeps
  split at accepted
  · next fixed =>
    simp only [if_pos fixed] at keeps
    obtain ⟨made, passes, found⟩ := Option.bind_eq_some_iff.mp accepted
    obtain ⟨attempt, stable, rfl⟩ := Option.map_eq_some_iff.mp found
    obtain ⟨start, done, taken, pass⟩ := Source.passes_taken passes stable
    exact (keeps start done taken).pass
      (fun _ => Nat.lt_of_lt_of_le Nat.one_pos (Nat.le_max_right _ _)) pass
  · next buffered =>
    simp only [if_neg buffered] at keeps
    exact length_stableRead roomy keeps accepted

theorem KeepsLength.accepted (keeps : visit.KeepsLength) (roomy : ∀ t, 0 < visit.room t)
    {info : Metadata} (regular : visit.regularFile = .ok (some (info, time)))
    (accepted : visit.accepted info time = some bytes) : bytes.length = info.len := by
  have keeps := keeps info time regular
  unfold taken at keeps
  unfold Visit.accepted at accepted
  cases route : visit.route info time with
  | small =>
    simp only [route] at keeps accepted
    exact length_stableRead roomy keeps accepted
  | chunked | large =>
    simp only [route] at keeps accepted
    exact length_acceptedLarge roomy keeps accepted

section Storing

variable {Oid MOid : Type} [DecidableEq Oid] [DecidableEq MOid] {env : LargeEnv Oid MOid}
  {binary reuseRemoteChunks : Bool} {s s' : PayloadStore Oid MOid} {event : DurableEvent Oid MOid}

theorem content_call {attempts : List Attempt} (few : attempts.length ≤ 8) :
    (visit.call config binary reuseRemoteChunks attempts bytes).content =
      if config.defaultChunking = "fixed" then
        (attempts.find? Attempt.stable).map (fun attempt => attempt.read.flatten)
      else some bytes := by
  simp only [LargeCall.content, call, List.take_of_length_le few]

theorem storeCall_spec {s : LargeStore Oid MOid} (sound : s.Sound env) {call : LargeCall}
    (fits : s.Fits env call) :
    let stored := s.storeLargeFile env call
    stored.2.Sound env ∧ LargeStore.Grows s stored.2 ∧
      ∀ oid key count, stored.1 = .ok (oid, key, count) → ∃ bytes, call.content = some bytes ∧
        (stored.2.manifestObjects key).bind (stored.2.readLarge env) = some bytes := by
  obtain ⟨sound', grows, names, fails⟩ := LargeStore.storeLargeFile_spec sound fits
  refine ⟨sound', grows, ?_⟩
  intro oid key count ok
  cases content : call.content with
  | none =>
    obtain ⟨err, failed⟩ := fails content
    rw [failed] at ok
    cases ok
  | some bytes =>
    obtain ⟨_, _, _, manifest, ok', object, read⟩ := names bytes content
    rw [ok] at ok'
    cases ok'
    exact ⟨bytes, rfl, by rw [object, Option.bind_some, read]⟩

theorem storeLargeFile_spec {s s' : LargeStore Oid MOid} (sound : s.Sound env)
    {result : Except String (LargeStore.Stored Oid MOid)}
    (fits : ∀ call ∈ visit.largeCall config binary reuseRemoteChunks time, s.Fits env call)
    (ran : visit.storeLargeFile env config binary reuseRemoteChunks time s = some (result, s')) :
    s'.Sound env ∧ LargeStore.Grows s s' ∧
      ∀ oid key count, result = .ok (oid, key, count) → ∃ bytes,
        visit.acceptedLarge config time = some bytes ∧
          (s'.manifestObjects key).bind (s'.readLarge env) = some bytes := by
  unfold storeLargeFile at ran
  unfold largeCall at fits
  unfold acceptedLarge
  by_cases fixed : config.defaultChunking = "fixed"
  · simp only [if_pos fixed] at ran fits ⊢
    obtain ⟨⟨attempts, failure⟩, made, ended⟩ := Option.map_eq_some_iff.mp ran
    rw [made] at fits
    have spec := storeCall_spec sound (fits _ rfl)
    rw [content_call (visit.length_passes made), if_pos fixed] at spec
    obtain ⟨sound', grows, taken⟩ := spec
    rw [made, Option.bind_some]
    cases failure with
    | none =>
      dsimp only at ended
      rw [ended] at sound' grows taken
      exact ⟨sound', grows, taken⟩
    | some err =>
      cases ended
      exact ⟨sound', grows, fun _ _ _ ok => by cases ok⟩
  · simp only [if_neg fixed] at ran fits ⊢
    obtain ⟨read, made, ended⟩ := Option.map_eq_some_iff.mp ran
    rw [made] at fits ⊢
    cases read with
    | error err =>
      cases ended
      exact ⟨sound, .refl s, fun _ _ _ ok => by cases ok⟩
    | ok bytes =>
      have spec := storeCall_spec sound (fits _ rfl)
      rw [content_call (show ([] : List Attempt).length ≤ 8 from Nat.zero_le 8), if_neg fixed]
        at spec
      dsimp only at ended
      rw [ended] at spec
      exact spec

/-- What is stored is what was accepted; a blob is counted as long as it is. -/
structure Keeps (env : LargeEnv Oid MOid) (visit : Visit) (info : Metadata) (time : Nat)
    (s : PayloadStore Oid MOid) (stored : FilePayload Oid MOid × Option Nat) (bytes : Bytes) :
    Prop where
  accepted : visit.accepted info time = some bytes
  read : s.readBack env stored.1 = some bytes
  counted : stored.2 = if visit.route info time = .small then some bytes.length else none

theorem storeLargePayload_spec (sound : s.Sound env)
    {make : Oid → MOid → Nat → FilePayload Oid MOid}
    (leads : ∀ s oid key count, PayloadStore.readBack env s (make oid key count) =
      (s.large.manifestObjects key).bind (s.large.readLarge env)) {reuse : Reuse Oid}
    (fits : ∀ call ∈ visit.largeCall config (visit.looksBinary time)
      reuse.remotePayloadsAreDurable (time + 2), s.large.Fits env call)
    {result : Except String (FilePayload Oid MOid × Option Nat)}
    (ran : visit.storeLargePayload env make config reuse time s = some (result, s')) :
    s'.Sound env ∧ PayloadStore.Grows s s' ∧ ∀ stored, result = .ok stored → ∃ bytes,
      visit.acceptedLarge config (time + 2) = some bytes ∧
        s'.readBack env stored.1 = some bytes ∧ stored.2 = none := by
  obtain ⟨⟨inner, large⟩, stored, ended⟩ := Option.map_eq_some_iff.mp ran
  obtain ⟨good, grows, taken⟩ := storeLargeFile_spec sound.large fits stored
  cases ended
  refine ⟨⟨sound.blobs, good⟩, ⟨fun _ _ h => h, grows⟩, ?_⟩
  intro stored ok
  cases inner with
  | error err => cases ok
  | ok triple =>
    obtain ⟨oid, key, count⟩ := triple
    cases ok
    obtain ⟨bytes, accepted, read⟩ := taken oid key count rfl
    exact ⟨bytes, accepted, (leads ..).trans read, rfl⟩

theorem storePayload_spec (sound : s.Sound env) {reuse : Reuse Oid} (offers : s.Offers reuse)
    {info : Metadata} (regular : visit.regularFile = .ok (some (info, time)))
    (fits : visit.Fits env s.large reuse.remotePayloadsAreDurable)
    {result : Except String (FilePayload Oid MOid × Option Nat)}
    (ran : visit.storePayload env reuse info time s = some (result, s')) :
    s'.Sound env ∧ PayloadStore.Grows s s' ∧
      ∀ stored, result = .ok stored → ∃ bytes, visit.Keeps env info time s' stored bytes := by
  have fits := fits info time regular
  cases route : visit.route info time with
  | large | chunked =>
    simp only [storePayload, route] at ran
    rw [route] at fits
    obtain ⟨sound', grows, taken⟩ :=
      storeLargePayload_spec sound (fun _ _ _ _ => rfl) (fits (by decide)) ran
    refine ⟨sound', grows, ?_⟩
    intro stored ok
    obtain ⟨bytes, accepted, read, counted⟩ := taken stored ok
    exact ⟨bytes, by simpa only [Visit.accepted, route] using accepted, read, by simpa [route]⟩
  | small =>
    simp only [storePayload, route] at ran
    obtain ⟨read, made, ended⟩ := Option.map_eq_some_iff.mp ran
    cases read with
    | error err =>
      cases ended
      exact ⟨sound, .refl s, fun _ ok => by cases ok⟩
    | ok bytes =>
      obtain ⟨sound', grows, read⟩ := PayloadStore.storeBlob_spec sound offers bytes
      cases ended
      refine ⟨sound', grows, ?_⟩
      rintro _ ⟨⟩
      exact ⟨bytes, by simp [Visit.accepted, route, made, Except.toOption], read, by simp [route]⟩

theorem scanFile_spec (sound : s.Sound env) {reuse : Reuse Oid} (offers : s.Offers reuse)
    (fits : visit.Fits env s.large reuse.remotePayloadsAreDurable)
    (roomy : ∀ t, 0 < visit.room t) (keeps : visit.KeepsLength)
    {result : Except String (Option (RecordedFile Oid MOid))}
    (ran : visit.scanFile env reuse s = some (result, s')) :
    s'.Sound env ∧ PayloadStore.Grows s s' ∧ ∀ record, result = .ok (some record) → ∃ bytes,
      s'.readBack env record.payload = some bytes ∧ record.size = bytes.length := by
  unfold scanFile at ran
  split at ran
  · cases ran
    exact ⟨sound, .refl s, fun _ ok => by cases ok⟩
  · cases ran
    exact ⟨sound, .refl s, fun _ ok => by cases ok⟩
  · next info time regular =>
    split at ran
    · cases ran
      exact ⟨sound, .refl s, fun _ ok => by cases ok⟩
    · obtain ⟨⟨inner, after⟩, stored, ended⟩ := Option.map_eq_some_iff.mp ran
      obtain ⟨sound', grows, kept⟩ := storePayload_spec sound offers regular fits stored
      cases ended
      refine ⟨sound', grows, ?_⟩
      intro record ok
      cases inner with
      | error err => cases ok
      | ok pair =>
        obtain ⟨bytes, accepted, read, -⟩ := kept pair rfl
        cases ok
        exact ⟨bytes, read, (keeps.accepted roomy regular accepted).symm⟩

omit [DecidableEq Oid] [DecidableEq MOid] in
theorem completed_spec (fresh : event.largeManifestKey = none) {payload : FilePayload Oid MOid}
    (read : s.readBack env payload = some bytes) (info : Metadata) (length : Option Nat) :
    ∃ other, Work.sized (completed event info (payload, length)) =
        some ⟨length.getD info.len, other⟩ ∧ s.readBack env other = some bytes := by
  cases payload with
  | inlineSmall oid key | normalBlob oid key =>
    exact ⟨.normalBlob oid key, by simp [Work.sized, completed, DurableEvent.payload, fresh], read⟩
  | chunkedBlob oid key count | largeObject oid key count =>
    exact ⟨.chunkedBlob oid key count, by simp [Work.sized, completed, DurableEvent.payload], read⟩

theorem enrichFile_spec (sound : s.Sound env) (fits : visit.Fits env s.large false)
    (roomy : ∀ t, 0 < visit.room t) (keeps : visit.isSmall = false → visit.KeepsLength)
    (open_ : event.entryKind = none) (fresh : event.largeManifestKey = none)
    {result : Except String (DurableEvent Oid MOid)}
    (ran : visit.enrichFile env event s = some (result, s')) :
    s'.Sound env ∧ PayloadStore.Grows s s' ∧ ∀ done sized, result = .ok done →
      Work.sized done = some sized → ∃ bytes,
        s'.readBack env sized.payload = some bytes ∧ sized.size = bytes.length := by
  have offers : s.Offers Reuse.nothing := fun _ _ reused => by cases reused
  have idle : ∀ done sized, (Except.ok event : Except String (DurableEvent Oid MOid)) = .ok done →
      Work.sized done = some sized → ∃ bytes, s.readBack env sized.payload = some bytes ∧
        sized.size = bytes.length := by
    rintro _ sized ⟨⟩ states
    simp [Work.sized, open_] at states
  unfold enrichFile at ran
  split at ran
  · cases ran
    exact ⟨sound, .refl s, fun _ _ ok => by cases ok⟩
  · cases ran
    exact ⟨sound, .refl s, idle⟩
  · next info time regular =>
    split at ran
    · cases ran
      exact ⟨sound, .refl s, idle⟩
    · obtain ⟨⟨inner, after⟩, stored, ended⟩ := Option.map_eq_some_iff.mp ran
      obtain ⟨sound', grows, kept⟩ := storePayload_spec sound offers regular fits stored
      cases ended
      refine ⟨sound', grows, ?_⟩
      intro done sized ok states
      cases inner with
      | error err => cases ok
      | ok pair =>
        obtain ⟨bytes, accepted, read, counted⟩ := kept pair rfl
        obtain ⟨payload, length⟩ := pair
        cases ok
        obtain ⟨other, states', read'⟩ := completed_spec fresh read info length
        rw [states] at states'
        cases states'
        refine ⟨bytes, read', ?_⟩
        dsimp only at counted
        subst counted
        -- A blob is counted; chunks have the length of the metadata.
        by_cases small : visit.route info time = .small
        · simp [small]
        · have large : visit.isSmall = false := by simp [isSmall, regular, small]
          simp [small, (keeps large).accepted roomy regular accepted]

theorem enrich_spec (sound : s.Sound env) (fits : visit.Fits env s.large false)
    (roomy : ∀ t, 0 < visit.room t) (keeps : visit.isSmall = false → visit.KeepsLength)
    (fresh : event.isEnriched = false → event.largeManifestKey = none)
    {result : Except String (DurableEvent Oid MOid)}
    (ran : visit.enrich env event s = some (result, s')) :
    s'.Sound env ∧ PayloadStore.Grows s s' ∧ ∀ done sized, event.isEnriched = false →
      result = .ok done → Work.sized done = some sized → ∃ bytes,
        s'.readBack env sized.payload = some bytes ∧ sized.size = bytes.length := by
  unfold enrich at ran
  split at ran
  · next enriched =>
    cases ran
    exact ⟨sound, .refl s, fun _ _ blank => by simp [enriched] at blank⟩
  · next enriched =>
    have blank : event.isEnriched = false := by simpa using enriched
    have open_ : event.entryKind = none := by
      simp only [DurableEvent.isEnriched, Bool.or_eq_false_iff, Option.isSome_eq_false_iff,
        Option.isNone_iff_eq_none] at blank
      exact blank.1.1
    split at ran
    · cases ran
      refine ⟨sound, .refl s, ?_⟩
      rintro _ sized - ⟨⟩ states
      simp [Work.sized, open_] at states
    · unfold enrichFrom at ran
      split at ran
      · cases ran
        refine ⟨sound, .refl s, ?_⟩
        rintro _ sized - ⟨⟩ states
        simp [Work.sized] at states
      · cases ran
        refine ⟨sound, .refl s, ?_⟩
        rintro _ sized - ⟨⟩ states
        simp [Work.sized] at states
      · obtain ⟨sound', grows, states⟩ := enrichFile_spec sound fits roomy keeps (by exact open_)
          (by exact fresh blank) ran
        exact ⟨sound', grows, fun done sized _ => states done sized⟩

end Storing

end Visit

namespace Work

variable {Oid MOid : Type}

/-- The length stays while the content is read. The journal needs that of chunks only, for it
counts the bytes of a blob. -/
def Undisturbed : Work Oid MOid → Prop
  | .scan visit _ => visit.KeepsLength
  | .enrich visit _ => visit.isSmall = false → visit.KeepsLength

/-- An event is complete, or says nothing of a large object yet. -/
def Fresh : Work Oid MOid → Prop
  | .scan _ _ => True
  | .enrich _ event => event.isEnriched = false → event.largeManifestKey = none

/-- What a work needs of its file and of the store that it comes to. -/
structure Ready (env : LargeEnv Oid MOid) (s : PayloadStore Oid MOid) (work : Work Oid MOid) :
    Prop where
  undisturbed : work.Undisturbed
  fits : work.visit.Fits env s.large work.reuse.remotePayloadsAreDurable
  offers : s.Offers work.reuse
  fresh : work.Fresh
  /-- `read_to_end` makes room before it reads. -/
  roomy : ∀ t, 0 < work.visit.room t

variable [DecidableEq Oid] [DecidableEq MOid]

/-- Each work of a run is ready when its turn comes. -/
def ReadyAll (env : LargeEnv Oid MOid) : List (Work Oid MOid) → PayloadStore Oid MOid → Prop
  | [], _ => True
  | work :: rest, s =>
    work.Ready env s ∧ ∀ done ∈ work.step env s, ReadyAll env rest done.2

variable {env : LargeEnv Oid MOid} {s s' : PayloadStore Oid MOid}

/-- The payload leads to bytes, and their number is the stated size. -/
def States (env : LargeEnv Oid MOid) (s : PayloadStore Oid MOid)
    (result : Except String (Option (SizedPayload Oid MOid))) : Prop :=
  ∀ sized, result = .ok (some sized) → ∃ bytes,
    s.readBack env sized.payload = some bytes ∧ sized.size = bytes.length

omit [DecidableEq Oid] [DecidableEq MOid] in
theorem States.mono {result : Except String (Option (SizedPayload Oid MOid))}
    (states : States env s result) (grows : PayloadStore.Grows s s') : States env s' result := by
  intro sized ok
  obtain ⟨bytes, read, size⟩ := states sized ok
  exact ⟨bytes, grows.readBack read, size⟩

theorem step_spec {work : Work Oid MOid} (sound : s.Sound env) (ready : work.Ready env s)
    {result : Except String (Option (SizedPayload Oid MOid))}
    (ran : work.step env s = some (result, s')) :
    s'.Sound env ∧ PayloadStore.Grows s s' ∧ States env s' result := by
  obtain ⟨undisturbed, fits, offers, fresh, roomy⟩ := ready
  cases work with
  | scan visit reuse =>
    obtain ⟨⟨inner, after⟩, scanned, ended⟩ := Option.map_eq_some_iff.mp ran
    obtain ⟨sound', grows, recorded⟩ :=
      Visit.scanFile_spec sound offers fits roomy undisturbed scanned
    cases ended
    refine ⟨sound', grows, ?_⟩
    intro sized ok
    obtain _ | (_ | record) := inner
    · cases ok
    · cases ok
    · cases ok
      exact recorded record rfl
  | enrich visit event =>
    obtain ⟨⟨inner, after⟩, enriched, ended⟩ := Option.map_eq_some_iff.mp ran
    obtain ⟨sound', grows, completes⟩ :=
      Visit.enrich_spec sound fits roomy undisturbed fresh enriched
    cases ended
    refine ⟨sound', grows, ?_⟩
    intro sized ok
    cases inner with
    | error err => cases ok
    | ok done =>
      simp only [Except.map, Except.ok.injEq, ite_eq_iff, reduceCtorEq, and_false, false_or,
        Bool.not_eq_true] at ok
      exact completes done sized ok.1 rfl ok.2

theorem runAll_spec {works : List (Work Oid MOid)} (sound : s.Sound env)
    (ready : ReadyAll env works s)
    {results : List (Except String (Option (SizedPayload Oid MOid)))}
    (ran : runAll env works s = some (results, s')) :
    PayloadStore.Grows s s' ∧ ∀ result ∈ results, States env s' result := by
  induction works generalizing s results with
  | nil =>
    cases ran
    exact ⟨.refl _, fun _ member => by cases member⟩
  | cons work rest ih =>
    obtain ⟨⟨result, middle⟩, first, more⟩ := Option.bind_eq_some_iff.mp ran
    obtain ⟨⟨later, last⟩, tail, ended⟩ := Option.map_eq_some_iff.mp more
    cases ended
    obtain ⟨sound', grows, states⟩ := step_spec sound ready.1 first
    obtain ⟨grows', all⟩ := ih sound' (ready.2 _ first) tail
    refine ⟨grows.trans grows', ?_⟩
    rintro _ (_ | ⟨_, member⟩)
    · exact states.mono grows'
    · exact all _ member

/-- In every run of scans and journals whose files keep their length while they are read,
every stated size is the length of what the payload reads back to at the end. -/
theorem recorded_size {works : List (Work Oid MOid)} (sound : s.Sound env)
    (ready : ReadyAll env works s)
    {results : List (Except String (Option (SizedPayload Oid MOid)))}
    (ran : runAll env works s = some (results, s')) :
    ∀ sized, .ok (some sized) ∈ results → ∃ bytes,
      s'.readBack env sized.payload = some bytes ∧ sized.size = bytes.length :=
  fun sized member => (runAll_spec sound ready ran).2 _ member sized rfl

end Work

namespace GrowingLog

def compression : CompressionConfig :=
  { enabled := true, algorithm := "zstd", level := 3, sampleBytes := 1024,
    minGainRatio := .finite (nearest (1 / 20)), skipExtensions := [] }

def policy (enabled : Bool) : LargePolicy where
  enabled := enabled
  minSize := 100
  binaryMinSize := 100
  chunkedMinSize := 3
  chunkedChunkSize := 2
  always := []
  never := []
  config := { defaultChunking := "fixed", chunkSize := 4, compression }

def file (content : Bytes) : FileState := ⟨0o100644, none, none, some 0, content⟩

def log (enabled : Bool) (first later : Bytes) : Visit where
  history time := ⟨.file 7, fun _ => file (if time = 0 then first else later)⟩
  follow := false
  displayPath := "/srv/log"
  snapshotMode := "strict"
  room := fun _ => 32
  patience := 8
  rootId := "srv"
  path := [[0x6C, 0x6F, 0x67]]
  known := true
  mediaType := none
  xattrs := []
  policy := policy enabled

def nothing : PayloadStore Bytes (LargeManifest Bytes) := ⟨fun _ => none, .empty⟩

abbrev LogWork := Work Bytes (LargeManifest Bytes)

/-- Each stated size, and the length of what the payload reads back to at the end. -/
def sizes (works : List LogWork) : Option (List (Option (Nat × Option Nat))) :=
  (Work.runAll LargeStore.plainEnv works nothing).map fun (results, s) =>
    results.map fun
      | .ok (some sized) =>
        some (sized.size, (s.readBack LargeStore.plainEnv sized.payload).map List.length)
      | _ => none

/-- Chunks and a blob of a file at rest, and a blob of a file that grows. -/
def mostlyQuiet : List LogWork :=
  [.scan (log true [1, 1, 1] [1, 1, 1]) .nothing, .scan (log false [1, 1, 1] [1, 1, 1]) .nothing,
    .enrich (log false [1, 1, 1] [1, 1, 1, 1, 1]) .blank]

/-- A blob of the scan and chunks of the journal, of a file that grows. -/
def growing : List LogWork :=
  [.scan (log false [1, 1, 1] [1, 1, 1, 1, 1]) .nothing,
    .enrich (log true [1, 1, 1] [1, 1, 1, 1, 1]) .blank]

theorem keepsLength (enabled : Bool) (content : Bytes) :
    (log enabled content content).KeepsLength := by
  intro info time regular start done _ early _ _ ino _ later _ _
  simp only [Source.regularFile, log, Except.ok.injEq, Option.some.injEq, Prod.mk.injEq] at regular
  rw [← regular.1]
  simp [log, file, Instant.stat]

theorem offers_nothing (s : PayloadStore Bytes (LargeManifest Bytes)) : s.Offers .nothing :=
  fun _ _ reused => by cases reused

theorem route_log (first later : Bytes) (info : Metadata) (time : Nat) :
    (log false first later).route info time = .small := by
  simp [Visit.route, LargePolicy.route, LargePolicy.classifyLarge, log, policy]

/-- A store without chunks has none that does not fit. -/
theorem fits_nothing (visit : Visit) (reuse : Bool) :
    visit.Fits LargeStore.plainEnv nothing.large reuse := by
  intro info time _ _ call _ pieces _
  exact Or.inr fun piece _ bytes there => by cases there

theorem fits_blob (s : LargeStore Bytes (LargeManifest Bytes)) (first later : Bytes)
    (reuse : Bool) : (log false first later).Fits LargeStore.plainEnv s reuse :=
  fun info time _ large => absurd (route_log first later info time) large

theorem readyAll : Work.ReadyAll LargeStore.plainEnv mostlyQuiet nothing := by
  refine ⟨⟨keepsLength true _, fits_nothing _ _, offers_nothing _, trivial,
    fun _ => Nat.succ_pos 31⟩, ?_⟩
  intro done _
  refine ⟨⟨keepsLength false _, fits_blob _ _ _ _, offers_nothing _, trivial,
    fun _ => Nat.succ_pos 31⟩, ?_⟩
  intro done _
  refine ⟨⟨?_, fits_blob _ _ _ _, offers_nothing _, fun _ => rfl, fun _ => Nat.succ_pos 31⟩,
    fun _ _ => trivial⟩
  intro large
  exact absurd large (by decide)

theorem sound_nothing : nothing.Sound LargeStore.plainEnv :=
  ⟨fun _ _ object => (by cases object), LargeStore.Sound.empty⟩

end GrowingLog

open GrowingLog in
theorem Work.recorded_size_quiet :
    sizes mostlyQuiet = some [some (3, some 3), some (3, some 3), some (5, some 5)] ∧
    ∃ results s', Work.runAll LargeStore.plainEnv mostlyQuiet nothing = some (results, s') ∧
      ∀ sized, .ok (some sized) ∈ results → ∃ bytes,
        s'.readBack LargeStore.plainEnv sized.payload = some bytes ∧ sized.size = bytes.length := by
  refine ⟨by decide +kernel, ?_⟩
  have ends : (Work.runAll LargeStore.plainEnv mostlyQuiet nothing).isSome = true := by
    decide +kernel
  obtain ⟨⟨results, s'⟩, ran⟩ := Option.isSome_iff_exists.mp ends
  exact ⟨results, s', ran, Work.recorded_size sound_nothing readyAll ran⟩

open GrowingLog in
/-- The file grows from three bytes to five between the metadata and the read. -/
theorem Work.recorded_size_growing :
    sizes growing = some [some (3, some 5), some (3, some 5)] := by
  decide +kernel

end Majutsu.Repo
