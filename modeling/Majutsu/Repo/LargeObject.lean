import Majutsu.Repo.Chunking
import Mathlib.Data.List.Forall2

/-!
# Large objects

A large file is stored as chunk objects and a manifest. A chunk object is found
by the hash of the chunk's content, so files share chunks; how the bytes of the
object are compressed is written in the manifest of each file.

The manifest is kept here as the value that its JSON stands for, under the hash
of that JSON.
-/

namespace Majutsu.Repo

open Ranges

/-- Where a chunk object lies: its directory and the name made from its hash. -/
structure ChunkKey (Oid : Type) where
  fastcdc : Bool
  oid : Oid
  deriving DecidableEq

structure LargeChunk (Oid : Type) where
  index : Nat
  offset : Nat
  len : Nat
  storedLen : Option Nat
  compression : Compression
  oid : Oid
  objectKey : ChunkKey Oid
  deriving DecidableEq

structure LargeManifest (Oid : Type) where
  version : Nat
  oid : Oid
  size : Nat
  mediaType : Option String
  binary : Bool
  chunking : String
  chunkSize : Nat
  chunks : List (LargeChunk Oid)
  deriving DecidableEq

structure ChunkRow (Oid : Type) where
  size : Nat
  objectKey : ChunkKey Oid

structure LargeRow (MOid : Type) where
  size : Nat
  chunkCount : Nat
  manifestKey : MOid

/-- What storing large files reads and writes: two kinds of objects and two tables. -/
structure LargeStore (Oid MOid : Type) where
  chunkObjects : ChunkKey Oid → Option Bytes
  manifestObjects : MOid → Option (LargeManifest Oid)
  chunks : Oid → Option (ChunkRow Oid)
  largeObjects : Oid → Option (LargeRow MOid)

/-- The hashes, without collisions, and the compressor. -/
structure LargeEnv (Oid MOid : Type) where
  blake3 : Bytes → Oid
  manifestOid : LargeManifest Oid → MOid
  zstd : Zstd
  /-- `MAJUTSU_REBUILD_MISSING_LARGE_CHUNKS`. -/
  rebuildMissingLargeChunks : Bool
  blake3_injective : Function.Injective blake3
  manifestOid_injective : Function.Injective manifestOid

/-- One pass over a file: what the reads returned, and whether the file's metadata
was the same before and after. -/
structure Attempt where
  pieces : List Bytes
  stable : Bool

/-- The chunks of a pass; an empty read ends it. -/
def Attempt.read (attempt : Attempt) : List Bytes :=
  attempt.pieces.takeWhile (fun piece => !piece.isEmpty)

/-- A call of `store_large_file` or `store_large_file_in_root`. -/
structure LargeCall where
  displayPath : String
  fileName : Text
  mediaType : Option String
  config : LargeConfig
  binary : Bool
  reuseRemoteChunks : Bool
  /-- The passes of the streaming reader, in order. -/
  attempts : List Attempt
  /-- What `stable_read` returns to the buffered reader. -/
  bytes : Bytes

namespace LargeStore

variable {Oid MOid : Type} [DecidableEq Oid] [DecidableEq MOid]

def empty : LargeStore Oid MOid where
  chunkObjects _ := none
  manifestObjects _ := none
  chunks _ := none
  largeObjects _ := none

variable (env : LargeEnv Oid MOid) (call : LargeCall)

def largeChunkBase (chunking : String) : Bool := chunking = "fastcdc"

/-- `store_bytes` for a chunk: an object that is there is left as it is. -/
def storeChunkObject (s : LargeStore Oid MOid) (key : ChunkKey Oid) (bytes : Bytes) :
    LargeStore Oid MOid :=
  if (s.chunkObjects key).isSome then s
  else { s with chunkObjects := Function.update s.chunkObjects key (some bytes) }

def existingChunkObjectKey (s : LargeStore Oid MOid) (oid : Oid) : Option (ChunkKey Oid) :=
  match s.chunks oid with
  | none => none
  | some row =>
    if (s.chunkObjects row.objectKey).isSome ||
        call.reuseRemoteChunks && !env.rebuildMissingLargeChunks then
      some row.objectKey
    else none

def storeLargeChunkBytes (s : LargeStore Oid MOid) (oid : Oid) (bytes : Bytes) :
    ChunkKey Oid × LargeStore Oid MOid :=
  match s.existingChunkObjectKey env call oid with
  | some key => (key, s)
  | none =>
    let key := ⟨largeChunkBase call.config.defaultChunking, oid⟩
    (key, s.storeChunkObject key bytes)

def compressLargeChunk (bytes : Bytes) : StoredLargeChunk :=
  compressChunkIfUseful env.zstd call.config.compression call.fileName bytes

/-- The chunk's entry in the manifest, and the store with its object. -/
def storeChunk (s : LargeStore Oid MOid) (index offset : Nat) (piece : Bytes) :
    LargeChunk Oid × LargeStore Oid MOid :=
  let oid := env.blake3 piece
  let stored := compressLargeChunk env call piece
  let result := s.storeLargeChunkBytes env call oid stored.bytes
  ({ index, offset, len := piece.length, storedLen := some stored.bytes.length,
     compression := stored.compression, oid, objectKey := result.1 }, result.2)

def insertChunkRow (s : LargeStore Oid MOid) (chunk : LargeChunk Oid) : LargeStore Oid MOid :=
  { s with chunks := Function.update s.chunks chunk.oid (some ⟨chunk.len, chunk.objectKey⟩) }

/-- The loop over the chunks; only the buffered writer inserts the row of a chunk at once. -/
def storeChunks (rows : Bool) :
    List Bytes → Nat → Nat → LargeStore Oid MOid → List (LargeChunk Oid) × LargeStore Oid MOid
  | [], _, _, s => ([], s)
  | piece :: rest, index, offset, s =>
    let stored := s.storeChunk env call index offset piece
    let s := if rows then stored.2.insertChunkRow stored.1 else stored.2
    let tail := storeChunks rows rest (index + 1) (offset + piece.length) s
    (stored.1 :: tail.1, tail.2)

def existingLargeObjectManifest (s : LargeStore Oid MOid) (oid : Oid) : Option (MOid × Nat) :=
  match s.largeObjects oid with
  | none => none
  | some row =>
    match s.manifestObjects row.manifestKey with
    | none => none
    | some manifest =>
      if manifest.chunking = call.config.defaultChunking ∧
          manifest.chunkSize = call.config.chunkSize then
        some (row.manifestKey, row.chunkCount)
      else none

/-- Store the manifest and the rows that name it. -/
def commitManifest (s : LargeStore Oid MOid) (manifest : LargeManifest Oid) : LargeStore Oid MOid :=
  let key := env.manifestOid manifest
  { s with
    manifestObjects :=
      if (s.manifestObjects key).isSome then s.manifestObjects
      else Function.update s.manifestObjects key (some manifest)
    largeObjects := Function.update s.largeObjects manifest.oid
      (some ⟨manifest.size, manifest.chunks.length, key⟩) }

def manifestFor (bytes : Bytes) (chunks : List (LargeChunk Oid)) : LargeManifest Oid where
  version := 1
  oid := env.blake3 bytes
  size := bytes.length
  mediaType := call.mediaType
  binary := call.binary
  chunking := call.config.defaultChunking
  chunkSize := call.config.chunkSize
  chunks := chunks

abbrev Stored (Oid MOid : Type) := Oid × MOid × Nat

def storeLargeBytesBuffered (s : LargeStore Oid MOid) : Stored Oid MOid × LargeStore Oid MOid :=
  let oid := env.blake3 call.bytes
  match s.existingLargeObjectManifest call oid with
  | some (key, count) => ((oid, key, count), s)
  | none =>
    let ranges := chunkRangesForBytes call.config.defaultChunking call.config.chunkSize call.bytes
    let stored := storeChunks env call true (ranges.map (slice call.bytes)) 0 0 s
    let manifest := manifestFor env call call.bytes stored.1
    ((oid, env.manifestOid manifest, manifest.chunks.length), stored.2.commitManifest env manifest)

def storeLargeFileFixedStreamingOnce (s : LargeStore Oid MOid) (attempt : Attempt) :
    Except String (Stored Oid MOid) × LargeStore Oid MOid :=
  let pieces := attempt.read
  let stored := storeChunks env call false pieces 0 0 s
  let s := stored.2
  if !attempt.stable then (.error s!"file changed while reading: {call.displayPath}", s)
  else
    let oid := env.blake3 pieces.flatten
    match s.existingLargeObjectManifest call oid with
    | some (key, count) => (.ok (oid, key, count), s)
    | none =>
      let manifest := manifestFor env call pieces.flatten stored.1
      let s := stored.1.foldl insertChunkRow (s.commitManifest env manifest)
      (.ok (oid, env.manifestOid manifest, manifest.chunks.length), s)

/-- Try again after a change of the file; the chunks of a failed pass stay. -/
def storeLargeFileFixedStreaming :
    List Attempt → String → LargeStore Oid MOid →
      Except String (Stored Oid MOid) × LargeStore Oid MOid
  | [], last, s => (.error last, s)
  | attempt :: rest, _, s =>
    match s.storeLargeFileFixedStreamingOnce env call attempt with
    | (.ok stored, s) => (.ok stored, s)
    | (.error err, s) => storeLargeFileFixedStreaming rest err s

def storeLargeFile (s : LargeStore Oid MOid) :
    Except String (Stored Oid MOid) × LargeStore Oid MOid :=
  if call.config.defaultChunking = "fixed" then
    storeLargeFileFixedStreaming env call (call.attempts.take 8)
      s!"file changed while reading: {call.displayPath}" s
  else
    let stored := s.storeLargeBytesBuffered env call
    (.ok stored.1, stored.2)

def readLargeChunk (s : LargeStore Oid MOid) (chunk : LargeChunk Oid) : Option Bytes :=
  (s.chunkObjects chunk.objectKey).bind (decodeLargeChunkPayload env.zstd chunk.compression)

/-- All chunks of a manifest, one after the other. -/
def readLarge (s : LargeStore Oid MOid) (manifest : LargeManifest Oid) : Option Bytes :=
  (manifest.chunks.mapM (s.readLargeChunk env)).map List.flatten

/-- The calls of a sequence, one after the other. -/
def storeAll : List LargeCall → LargeStore Oid MOid →
    List (Except String (Stored Oid MOid)) × LargeStore Oid MOid
  | [], s => ([], s)
  | call :: rest, s =>
    let first := s.storeLargeFile env call
    let tail := storeAll rest first.2
    (first.1 :: tail.1, tail.2)

end LargeStore

namespace LargeCall

/-- The chunks that a call writes into a manifest: those of the first pass that was not disturbed. -/
def recorded (call : LargeCall) : Option (List Bytes) :=
  if call.config.defaultChunking = "fixed" then
    ((call.attempts.take 8).find? Attempt.stable).map Attempt.read
  else some ((chunkRangesForBytes call.config.defaultChunking call.config.chunkSize call.bytes).map
    (slice call.bytes))

def content (call : LargeCall) : Option Bytes :=
  if call.config.defaultChunking = "fixed" then
    ((call.attempts.take 8).find? Attempt.stable).map (fun attempt => attempt.read.flatten)
  else some call.bytes

end LargeCall

namespace LargeStore

section Conditions

variable {Oid MOid : Type} [DecidableEq Oid] [DecidableEq MOid] (env : LargeEnv Oid MOid)

/-- Where a call finds or puts the object of a chunk. -/
def chunkKeyFor (s : LargeStore Oid MOid) (call : LargeCall) (piece : Bytes) : ChunkKey Oid :=
  (s.existingChunkObjectKey env call (env.blake3 piece)).getD
    ⟨largeChunkBase call.config.defaultChunking, env.blake3 piece⟩

/-- An object that is already there can be read in the form that the call notes for the chunk. -/
def FitsAt (s : LargeStore Oid MOid) (call : LargeCall) (piece : Bytes) : Prop :=
  ∀ bytes ∈ s.chunkObjects (s.chunkKeyFor env call piece),
    decodeLargeChunkPayload env.zstd (compressLargeChunk env call piece).compression bytes =
      some piece

/-- The call takes the manifest of an earlier call, or fits the objects it finds. -/
def Fits (s : LargeStore Oid MOid) (call : LargeCall) : Prop :=
  ∀ pieces ∈ call.recorded,
    (s.existingLargeObjectManifest call (env.blake3 pieces.flatten)).isSome ∨
      ∀ piece ∈ pieces, s.FitsAt env call piece

/-- Each call of a sequence fits the store that it comes to. -/
def Fitting : List LargeCall → LargeStore Oid MOid → Prop
  | [], _ => True
  | call :: rest, s => s.Fits env call ∧ Fitting rest (s.storeLargeFile env call).2

end Conditions

variable {Oid MOid : Type} (env : LargeEnv Oid MOid)

/-- The manifest is one of the bytes and reads back to them. -/
structure Describes (s : LargeStore Oid MOid) (manifest : LargeManifest Oid) (bytes : Bytes) :
    Prop where
  oid : manifest.oid = env.blake3 bytes
  read : s.readLarge env manifest = some bytes

structure Sound (s : LargeStore Oid MOid) : Prop where
  rows : ∀ oid row, s.chunks oid = some row →
    row.objectKey.oid = oid ∧ (s.chunkObjects row.objectKey).isSome
  manifests : ∀ key manifest, s.manifestObjects key = some manifest →
    key = env.manifestOid manifest ∧ ∃ bytes, s.Describes env manifest bytes
  large : ∀ oid row, s.largeObjects oid = some row →
    ∃ manifest, s.manifestObjects row.manifestKey = some manifest ∧ manifest.oid = oid

/-- No object is lost or changed. -/
structure Grows (s s' : LargeStore Oid MOid) : Prop where
  chunk : ∀ key bytes, s.chunkObjects key = some bytes → s'.chunkObjects key = some bytes
  manifest : ∀ key m, s.manifestObjects key = some m → s'.manifestObjects key = some m

theorem Grows.refl (s : LargeStore Oid MOid) : Grows s s := ⟨fun _ _ h => h, fun _ _ h => h⟩

theorem Grows.trans {s t u : LargeStore Oid MOid} (first : Grows s t) (second : Grows t u) :
    Grows s u :=
  ⟨fun key bytes h => second.chunk key bytes (first.chunk key bytes h),
    fun key m h => second.manifest key m (first.manifest key m h)⟩

variable {env} {s s' : LargeStore Oid MOid}

theorem Grows.isSome (grows : Grows s s') {key : ChunkKey Oid} (there : (s.chunkObjects key).isSome) :
    (s'.chunkObjects key).isSome := by
  obtain ⟨bytes, found⟩ := Option.isSome_iff_exists.mp there
  rw [grows.chunk key bytes found]
  rfl

theorem Grows.readLargeChunk (grows : Grows s s') {chunk : LargeChunk Oid} {piece : Bytes}
    (read : s.readLargeChunk env chunk = some piece) :
    s'.readLargeChunk env chunk = some piece := by
  obtain ⟨bytes, object, decoded⟩ := Option.bind_eq_some_iff.mp read
  exact Option.bind_eq_some_iff.mpr ⟨bytes, grows.chunk _ _ object, decoded⟩

theorem Grows.mapM_readLargeChunk (grows : Grows s s') {chunks : List (LargeChunk Oid)}
    {pieces : List Bytes} (read : chunks.mapM (s.readLargeChunk env) = some pieces) :
    chunks.mapM (s'.readLargeChunk env) = some pieces := by
  induction chunks generalizing pieces with
  | nil => exact read
  | cons chunk rest ih =>
    simp only [List.mapM_cons, Option.bind_eq_bind, Option.bind_eq_some_iff, Option.pure_def,
      Option.some.injEq] at read ⊢
    obtain ⟨piece, first, tail, more, rfl⟩ := read
    exact ⟨piece, grows.readLargeChunk first, tail, ih more, rfl⟩

theorem Grows.readLarge (grows : Grows s s') {manifest : LargeManifest Oid} {bytes : Bytes}
    (read : s.readLarge env manifest = some bytes) : s'.readLarge env manifest = some bytes := by
  obtain ⟨pieces, all, rfl⟩ := Option.map_eq_some_iff.mp read
  exact Option.map_eq_some_iff.mpr ⟨pieces, grows.mapM_readLargeChunk all, rfl⟩

theorem Describes.mono {manifest : LargeManifest Oid} {bytes : Bytes}
    (h : s.Describes env manifest bytes) (grows : Grows s s') :
    s'.Describes env manifest bytes :=
  ⟨h.oid, grows.readLarge h.read⟩

theorem Sound.empty : (empty : LargeStore Oid MOid).Sound env where
  rows _ _ h := by cases h
  manifests _ _ h := by cases h
  large _ _ h := by cases h

section Storing

variable [DecidableEq Oid] [DecidableEq MOid] {call : LargeCall} {piece bytes : Bytes}

omit [DecidableEq Oid] [DecidableEq MOid] in
theorem Sound.existingChunkObjectKey_eq (sound : s.Sound env) (call : LargeCall) (oid : Oid) :
    s.existingChunkObjectKey env call oid = (s.chunks oid).map ChunkRow.objectKey := by
  unfold existingChunkObjectKey
  cases found : s.chunks oid with
  | none => rfl
  | some row => simp [(sound.rows oid row found).2]

omit [DecidableEq Oid] [DecidableEq MOid] in
theorem Sound.oid_chunkKeyFor (sound : s.Sound env) (call : LargeCall) (piece : Bytes) :
    (s.chunkKeyFor env call piece).oid = env.blake3 piece := by
  rw [chunkKeyFor, sound.existingChunkObjectKey_eq]
  cases found : s.chunks (env.blake3 piece) with
  | none => rfl
  | some row => exact (sound.rows _ _ found).1

omit [DecidableEq Oid] [DecidableEq MOid] in
/-- Objects that are added leave the key of a chunk as it was. -/
theorem Sound.chunkKeyFor_eq (sound : s.Sound env) (sound' : s'.Sound env)
    (rows : s'.chunks = s.chunks) (call : LargeCall) (piece : Bytes) :
    s'.chunkKeyFor env call piece = s.chunkKeyFor env call piece := by
  rw [chunkKeyFor, chunkKeyFor, sound.existingChunkObjectKey_eq, sound'.existingChunkObjectKey_eq,
    rows]

/-- What storing chunks does to the rest of the store. -/
structure Extends (env : LargeEnv Oid MOid) (call : LargeCall) (s s' : LargeStore Oid MOid) :
    Prop where
  sound : s'.Sound env
  grows : Grows s s'
  fits : ∀ piece, s.FitsAt env call piece → s'.FitsAt env call piece
  manifests : s'.manifestObjects = s.manifestObjects
  large : s'.largeObjects = s.largeObjects

omit [DecidableEq Oid] [DecidableEq MOid] in
theorem Extends.refl (sound : s.Sound env) : Extends env call s s :=
  ⟨sound, .refl s, fun _ h => h, rfl, rfl⟩

omit [DecidableEq Oid] [DecidableEq MOid] in
theorem Extends.trans {t u : LargeStore Oid MOid} (first : Extends env call s t)
    (second : Extends env call t u) : Extends env call s u :=
  ⟨second.sound, first.grows.trans second.grows, fun p h => second.fits p (first.fits p h),
    second.manifests.trans first.manifests, second.large.trans first.large⟩

omit [DecidableEq MOid] in
theorem storeChunkObject_grows (s : LargeStore Oid MOid) (key : ChunkKey Oid) (bytes : Bytes) :
    Grows s (s.storeChunkObject key bytes) := by
  unfold storeChunkObject
  split
  · exact .refl s
  · next absent =>
    refine ⟨fun key' bytes' found => ?_, fun _ _ found => found⟩
    have other : key' ≠ key := by
      rintro rfl
      simp [found] at absent
    exact (Function.update_of_ne other _ _).trans found

omit [DecidableEq MOid] in
theorem storeChunkObject_chunkObjects (s : LargeStore Oid MOid) (key : ChunkKey Oid)
    (bytes : Bytes) : (s.storeChunkObject key bytes).chunkObjects key =
      some ((s.chunkObjects key).getD bytes) := by
  unfold storeChunkObject
  cases found : s.chunkObjects key with
  | none => simp
  | some old => simp [found]

omit [DecidableEq MOid] in
theorem storeChunkObject_rest (s : LargeStore Oid MOid) (key : ChunkKey Oid) (bytes : Bytes) :
    (s.storeChunkObject key bytes).chunks = s.chunks ∧
      (s.storeChunkObject key bytes).manifestObjects = s.manifestObjects ∧
      (s.storeChunkObject key bytes).largeObjects = s.largeObjects ∧
      ∀ key', key' ≠ key → (s.storeChunkObject key bytes).chunkObjects key' =
        s.chunkObjects key' := by
  unfold storeChunkObject
  split
  · exact ⟨rfl, rfl, rfl, fun _ _ => rfl⟩
  · exact ⟨rfl, rfl, rfl, fun key' other => Function.update_of_ne other _ _⟩

omit [DecidableEq MOid] in
theorem storeChunkObject_sound (sound : s.Sound env) (key : ChunkKey Oid) (bytes : Bytes) :
    (s.storeChunkObject key bytes).Sound env := by
  have grows := s.storeChunkObject_grows key bytes
  obtain ⟨rows, manifests, large, -⟩ := s.storeChunkObject_rest key bytes
  refine ⟨?_, ?_, ?_⟩
  · rw [rows]
    exact fun oid row found => ⟨(sound.rows oid row found).1, grows.isSome (sound.rows oid row found).2⟩
  · rw [manifests]
    intro key' manifest found
    obtain ⟨name, bytes', described⟩ := sound.manifests key' manifest found
    exact ⟨name, bytes', described.mono grows⟩
  · rw [manifests, large]
    exact sound.large

omit [DecidableEq MOid] in
/-- A row leads to an object that is there, so nothing is written over. -/
theorem Sound.storeLargeChunkBytes_eq (sound : s.Sound env) (call : LargeCall) (piece bytes : Bytes) :
    s.storeLargeChunkBytes env call (env.blake3 piece) bytes =
      (s.chunkKeyFor env call piece, s.storeChunkObject (s.chunkKeyFor env call piece) bytes) := by
  unfold storeLargeChunkBytes chunkKeyFor
  rw [sound.existingChunkObjectKey_eq]
  cases found : s.chunks (env.blake3 piece) with
  | none => rfl
  | some row => simp [storeChunkObject, (sound.rows _ row found).2]

omit [DecidableEq MOid] in
theorem storeChunkObject_extends (sound : s.Sound env) (call : LargeCall) (piece : Bytes) :
    Extends env call s (s.storeChunkObject (s.chunkKeyFor env call piece)
      (compressLargeChunk env call piece).bytes) := by
  have sound' := storeChunkObject_sound sound (s.chunkKeyFor env call piece)
    (compressLargeChunk env call piece).bytes
  obtain ⟨rows, manifests, large, others⟩ := s.storeChunkObject_rest
    (s.chunkKeyFor env call piece) (compressLargeChunk env call piece).bytes
  refine ⟨sound', s.storeChunkObject_grows _ _, fun p fits object found => ?_, manifests, large⟩
  rw [sound.chunkKeyFor_eq sound' rows] at found
  by_cases same : p = piece
  · subst same
    rw [storeChunkObject_chunkObjects] at found
    cases before : s.chunkObjects (s.chunkKeyFor env call p) with
    | none =>
      rw [before] at found
      cases found
      exact decode_compressChunkIfUseful ..
    | some old =>
      rw [before] at found
      cases found
      exact fits old before
  · rw [others] at found
    · exact fits object found
    · intro equal
      apply same
      apply env.blake3_injective
      rw [← sound.oid_chunkKeyFor call p, ← sound.oid_chunkKeyFor call piece, equal]

/-- The entry of a piece: named by its hash, with the key that the call has for it. -/
structure Entry (env : LargeEnv Oid MOid) (call : LargeCall) (s : LargeStore Oid MOid)
    (chunk : LargeChunk Oid) (piece : Bytes) : Prop where
  oid : chunk.oid = env.blake3 piece
  key : chunk.objectKey = s.chunkKeyFor env call piece
  there : (s.chunkObjects chunk.objectKey).isSome

omit [DecidableEq MOid] in
theorem storeChunk_spec (sound : s.Sound env) (call : LargeCall) (index offset : Nat)
    (piece : Bytes) :
    let stored := s.storeChunk env call index offset piece
    Extends env call s stored.2 ∧ Entry env call stored.2 stored.1 piece ∧
      (s.FitsAt env call piece → stored.2.readLargeChunk env stored.1 = some piece) := by
  have extends_ := storeChunkObject_extends sound call piece
  have object := s.storeChunkObject_chunkObjects (s.chunkKeyFor env call piece)
    (compressLargeChunk env call piece).bytes
  have key := sound.chunkKeyFor_eq extends_.sound (s.storeChunkObject_rest
    (s.chunkKeyFor env call piece) (compressLargeChunk env call piece).bytes).1 call piece
  simp only [storeChunk, sound.storeLargeChunkBytes_eq]
  refine ⟨extends_, ⟨rfl, key.symm, by rw [object]; rfl⟩, fun fits => ?_⟩
  simp only [readLargeChunk, object, Option.bind_some]
  exact extends_.fits piece fits _ (by rw [key]; exact object)

omit [DecidableEq MOid] in
theorem insertChunkRow_sound (sound : s.Sound env) {chunk : LargeChunk Oid}
    (name : chunk.objectKey.oid = chunk.oid) (there : (s.chunkObjects chunk.objectKey).isSome) :
    (s.insertChunkRow chunk).Sound env := by
  refine ⟨?_, fun key manifest found => ?_, sound.large⟩
  · intro oid row found
    simp only [insertChunkRow, Function.update_apply] at found
    split at found
    · next same =>
      cases found
      exact ⟨same ▸ name, there⟩
    · exact sound.rows oid row found
  · obtain ⟨name, bytes, described⟩ := sound.manifests key manifest found
    exact ⟨name, bytes, described.oid, described.read⟩

omit [DecidableEq MOid] in
theorem insertChunkRow_extends (sound : s.Sound env) {chunk : LargeChunk Oid}
    (entry : Entry env call s chunk piece) :
    Extends env call s (s.insertChunkRow chunk) ∧
      ∀ p, (s.insertChunkRow chunk).chunkKeyFor env call p = s.chunkKeyFor env call p := by
  have name : chunk.objectKey.oid = chunk.oid := by
    rw [entry.key, sound.oid_chunkKeyFor, entry.oid]
  have sound' := insertChunkRow_sound sound name entry.there
  have keys : ∀ p, (s.insertChunkRow chunk).chunkKeyFor env call p = s.chunkKeyFor env call p := by
    intro p
    by_cases same : p = piece
    · subst same
      rw [← entry.key, chunkKeyFor, sound'.existingChunkObjectKey_eq]
      simp [insertChunkRow, entry.oid]
    · have other : env.blake3 p ≠ chunk.oid := fun equal =>
        same (env.blake3_injective (equal.trans entry.oid))
      rw [chunkKeyFor, chunkKeyFor, sound'.existingChunkObjectKey_eq,
        sound.existingChunkObjectKey_eq]
      simp [insertChunkRow, Function.update_of_ne other]
  refine ⟨⟨sound', ⟨fun _ _ found => found, fun _ _ found => found⟩, fun p fits object found => ?_,
    rfl, rfl⟩, keys⟩
  rw [keys p] at found
  exact fits object found

omit [DecidableEq MOid] in
theorem storeChunks_spec (sound : s.Sound env) (call : LargeCall) (rows : Bool)
    (pieces : List Bytes) (index offset : Nat) :
    let stored := storeChunks env call rows pieces index offset s
    Extends env call s stored.2 ∧
      (∀ chunk ∈ stored.1, chunk.objectKey.oid = chunk.oid ∧
        (stored.2.chunkObjects chunk.objectKey).isSome) ∧
      ((∀ piece ∈ pieces, s.FitsAt env call piece) →
        stored.1.mapM (stored.2.readLargeChunk env) = some pieces) := by
  induction pieces generalizing s index offset with
  | nil => exact ⟨.refl sound, by simp [storeChunks], fun _ => rfl⟩
  | cons piece rest ih =>
    obtain ⟨first, entry, read⟩ := storeChunk_spec sound call index offset piece
    have name : (s.storeChunk env call index offset piece).1.objectKey.oid =
        (s.storeChunk env call index offset piece).1.oid := by
      rw [entry.key, first.sound.oid_chunkKeyFor, entry.oid]
    -- the state in which the rest is stored
    obtain ⟨middle, eq, step⟩ : ∃ middle, middle = (if rows then
        (s.storeChunk env call index offset piece).2.insertChunkRow
          (s.storeChunk env call index offset piece).1
        else (s.storeChunk env call index offset piece).2) ∧
        Extends env call (s.storeChunk env call index offset piece).2 middle := by
      refine ⟨_, rfl, ?_⟩
      split
      · exact (insertChunkRow_extends first.sound entry).1
      · exact .refl first.sound
    obtain ⟨tail, entries, reads⟩ := ih step.sound (index + 1) (offset + piece.length)
    simp only [storeChunks, ← eq]
    refine ⟨(first.trans step).trans tail, ?_, fun fits => ?_⟩
    · rintro chunk (_ | ⟨_, inside⟩)
      · exact ⟨name, (step.trans tail).grows.isSome entry.there⟩
      · exact entries chunk inside
    · have head := (step.trans tail).grows.readLargeChunk (read (fits piece List.mem_cons_self))
      have later := reads (fun p inside => step.fits p (first.fits p
        (fits p (List.mem_cons_of_mem piece inside))))
      simp only [List.mapM_cons, Option.bind_eq_bind, Option.bind_eq_some_iff, Option.pure_def,
        Option.some.injEq]
      exact ⟨piece, head, rest, later, rfl⟩

theorem commitManifest_spec (sound : s.Sound env) {manifest : LargeManifest Oid}
    (described : s.Describes env manifest bytes) :
    (s.commitManifest env manifest).Sound env ∧ Grows s (s.commitManifest env manifest) ∧
      (s.commitManifest env manifest).manifestObjects (env.manifestOid manifest) =
        some manifest := by
  -- an object that is already there under this name holds the same manifest
  have objects : (s.commitManifest env manifest).manifestObjects =
      Function.update s.manifestObjects (env.manifestOid manifest) (some manifest) := by
    simp only [commitManifest]
    by_cases there : (s.manifestObjects (env.manifestOid manifest)).isSome
    · obtain ⟨old, found⟩ := Option.isSome_iff_exists.mp there
      have same : old = manifest :=
        env.manifestOid_injective (sound.manifests _ _ found).1.symm
      rw [if_pos there, ← same, ← found, Function.update_eq_self_iff.mpr (by rw [same])]
    · rw [if_neg there]
  have grows : Grows s (s.commitManifest env manifest) := by
    constructor
    · exact fun _ _ found => found
    · intro key m found
      rw [objects, Function.update_apply]
      split
      · next same =>
        have old := (sound.manifests key m found).1
        rw [env.manifestOid_injective (old.symm.trans same)]
      · exact found
  refine ⟨⟨sound.rows, ?_, ?_⟩, grows, by rw [objects, Function.update_self]⟩
  · intro key m found
    rw [objects, Function.update_apply] at found
    split at found
    · next same =>
      cases found
      exact ⟨same, bytes, described.mono grows⟩
    · obtain ⟨name, bytes', described'⟩ := sound.manifests key m found
      exact ⟨name, bytes', described'.mono grows⟩
  · intro oid row found
    simp only [commitManifest, Function.update_apply] at found
    split at found
    · next same =>
      cases found
      exact ⟨manifest, by rw [objects, Function.update_self], same.symm⟩
    · obtain ⟨m, at_key, name⟩ := sound.large oid row found
      exact ⟨m, grows.manifest _ _ at_key, name⟩

/-- The result names a manifest that reads back to the bytes. -/
def Names (env : LargeEnv Oid MOid) (s : LargeStore Oid MOid)
    (result : Except String (Stored Oid MOid)) (bytes : Bytes) : Prop :=
  ∃ oid key count manifest, result = .ok (oid, key, count) ∧
    s.manifestObjects key = some manifest ∧ s.readLarge env manifest = some bytes

omit [DecidableEq Oid] [DecidableEq MOid] in
theorem Names.mono {result : Except String (Stored Oid MOid)} (h : Names env s result bytes)
    (grows : Grows s s') : Names env s' result bytes := by
  obtain ⟨oid, key, count, manifest, ok, object, read⟩ := h
  exact ⟨oid, key, count, manifest, ok, grows.manifest _ _ object, grows.readLarge read⟩

omit [DecidableEq Oid] [DecidableEq MOid] in
theorem existingLargeObjectManifest_names (sound : s.Sound env) {key : MOid} {count : Nat}
    (found : s.existingLargeObjectManifest call (env.blake3 bytes) = some (key, count)) :
    Names env s (.ok (env.blake3 bytes, key, count)) bytes := by
  unfold existingLargeObjectManifest at found
  cases row : s.largeObjects (env.blake3 bytes) with
  | none => simp [row] at found
  | some row =>
    obtain ⟨manifest, object, name⟩ := sound.large _ _ row
    simp only [row, object] at found
    split at found
    · cases found
      obtain ⟨-, bytes', described⟩ := sound.manifests _ _ object
      have same : bytes' = bytes := env.blake3_injective (described.oid.symm.trans name)
      exact ⟨_, _, _, manifest, rfl, object, same ▸ described.read⟩
    · cases found

theorem commitManifest_names (sound : s.Sound env) (call : LargeCall)
    {chunks : List (LargeChunk Oid)} {pieces : List Bytes}
    (read : chunks.mapM (s.readLargeChunk env) = some pieces) :
    let manifest := manifestFor env call pieces.flatten chunks
    let s' := s.commitManifest env manifest
    s'.Sound env ∧ Grows s s' ∧
      Names env s' (.ok (env.blake3 pieces.flatten, env.manifestOid manifest,
        manifest.chunks.length)) pieces.flatten := by
  have described : s.Describes env (manifestFor env call pieces.flatten chunks) pieces.flatten :=
    ⟨rfl, Option.map_eq_some_iff.mpr ⟨pieces, read, rfl⟩⟩
  obtain ⟨sound', grows, object⟩ := commitManifest_spec sound described
  exact ⟨sound', grows, _, _, _, _, rfl, object, (described.mono grows).read⟩

theorem storeLargeBytesBuffered_spec (sound : s.Sound env)
    (fits : (s.existingLargeObjectManifest call (env.blake3 call.bytes)).isSome ∨
      ∀ piece ∈ (chunkRangesForBytes call.config.defaultChunking call.config.chunkSize
        call.bytes).map (slice call.bytes), s.FitsAt env call piece) :
    let stored := s.storeLargeBytesBuffered env call
    stored.2.Sound env ∧ Grows s stored.2 ∧ Names env stored.2 (.ok stored.1) call.bytes := by
  simp only [storeLargeBytesBuffered]
  cases found : s.existingLargeObjectManifest call (env.blake3 call.bytes) with
  | some existing =>
    obtain ⟨key, count⟩ := existing
    exact ⟨sound, .refl s, existingLargeObjectManifest_names sound found⟩
  | none =>
    obtain ⟨step, -, read⟩ := storeChunks_spec sound call true _ 0 0
    obtain ⟨sound', grows, names⟩ := commitManifest_names step.sound call
      (read (fits.resolve_left (by simp [found])))
    rw [flatten_chunkRangesForBytes] at sound' grows names
    exact ⟨sound', step.grows.trans grows, names⟩

omit [DecidableEq MOid] in
theorem foldl_insertChunkRow_spec {chunks : List (LargeChunk Oid)} (sound : s.Sound env)
    (placed : ∀ chunk ∈ chunks, chunk.objectKey.oid = chunk.oid ∧
      (s.chunkObjects chunk.objectKey).isSome) :
    (chunks.foldl insertChunkRow s).Sound env ∧ Grows s (chunks.foldl insertChunkRow s) := by
  induction chunks generalizing s with
  | nil => exact ⟨sound, .refl s⟩
  | cons chunk rest ih =>
    obtain ⟨name, there⟩ := placed chunk List.mem_cons_self
    obtain ⟨sound', grows⟩ := ih (insertChunkRow_sound sound name there)
      (fun c inside => placed c (List.mem_cons_of_mem chunk inside))
    exact ⟨sound', ⟨fun _ _ h => grows.chunk _ _ h, fun _ _ h => grows.manifest _ _ h⟩⟩

omit [DecidableEq Oid] [DecidableEq MOid] in
theorem Extends.existing (step : Extends env call s s') (oid : Oid) :
    s'.existingLargeObjectManifest call oid = s.existingLargeObjectManifest call oid := by
  rw [existingLargeObjectManifest, existingLargeObjectManifest, step.manifests, step.large]

theorem storeLargeFileFixedStreamingOnce_spec (sound : s.Sound env) (attempt : Attempt)
    (stable : attempt.stable = true)
    (fits : (s.existingLargeObjectManifest call (env.blake3 attempt.read.flatten)).isSome ∨
      ∀ piece ∈ attempt.read, s.FitsAt env call piece) :
    let stored := s.storeLargeFileFixedStreamingOnce env call attempt
    stored.2.Sound env ∧ Grows s stored.2 ∧ Names env stored.2 stored.1 attempt.read.flatten := by
  obtain ⟨step, placed, read⟩ := storeChunks_spec sound call false attempt.read 0 0
  have found := step.existing (env.blake3 attempt.read.flatten)
  simp only [storeLargeFileFixedStreamingOnce, stable, Bool.not_true, Bool.false_eq_true, if_false,
    found]
  cases existing : s.existingLargeObjectManifest call (env.blake3 attempt.read.flatten) with
  | some pair =>
    obtain ⟨key, count⟩ := pair
    exact ⟨step.sound, step.grows, (existingLargeObjectManifest_names sound existing).mono step.grows⟩
  | none =>
    obtain ⟨sound', grows, names⟩ := commitManifest_names step.sound call
      (read (fits.resolve_left (by simp [existing])))
    obtain ⟨sound'', grows'⟩ := foldl_insertChunkRow_spec sound'
      (fun chunk inside => ⟨(placed chunk inside).1, grows.isSome (placed chunk inside).2⟩)
    exact ⟨sound'', (step.grows.trans grows).trans grows', names.mono grows'⟩

theorem storeLargeFileFixedStreamingOnce_disturbed (sound : s.Sound env) (call : LargeCall)
    (attempt : Attempt) (disturbed : attempt.stable = false) :
    ∃ err, (s.storeLargeFileFixedStreamingOnce env call attempt).1 = .error err ∧
      Extends env call s (s.storeLargeFileFixedStreamingOnce env call attempt).2 := by
  obtain ⟨step, -, -⟩ := storeChunks_spec sound call false attempt.read 0 0
  exact ⟨s!"file changed while reading: {call.displayPath}",
    by simp [storeLargeFileFixedStreamingOnce, disturbed],
    by simpa [storeLargeFileFixedStreamingOnce, disturbed] using step⟩

theorem storeLargeFileFixedStreaming_spec (sound : s.Sound env) (call : LargeCall)
    (attempts : List Attempt) (last : String) (fits : ∀ attempt ∈ attempts.find? Attempt.stable,
      (s.existingLargeObjectManifest call (env.blake3 attempt.read.flatten)).isSome ∨
        ∀ piece ∈ attempt.read, s.FitsAt env call piece) :
    let stored := storeLargeFileFixedStreaming env call attempts last s
    stored.2.Sound env ∧ Grows s stored.2 ∧
      (∀ attempt ∈ attempts.find? Attempt.stable,
        Names env stored.2 stored.1 attempt.read.flatten) ∧
      (attempts.find? Attempt.stable = none → ∃ err, stored.1 = .error err) := by
  induction attempts generalizing s last with
  | nil => exact ⟨sound, .refl s, by simp, fun _ => ⟨last, rfl⟩⟩
  | cons attempt rest ih =>
    cases pass : s.storeLargeFileFixedStreamingOnce env call attempt with
    | mk result s₁ =>
      cases stable : attempt.stable with
      | true =>
        have found : (attempt :: rest).find? Attempt.stable = some attempt := by
          simp [stable]
        obtain ⟨sound', grows, names⟩ :=
          storeLargeFileFixedStreamingOnce_spec sound attempt stable (fits attempt found)
        rw [pass] at sound' grows names
        obtain ⟨oid, key, count, manifest, rfl, object, read⟩ := names
        simp only [storeLargeFileFixedStreaming, pass, found]
        refine ⟨sound', grows, ?_, by simp⟩
        rintro _ ⟨⟩
        exact ⟨oid, key, count, manifest, rfl, object, read⟩
      | false =>
        obtain ⟨err, error, step⟩ :=
          storeLargeFileFixedStreamingOnce_disturbed sound call attempt stable
        rw [pass] at error step
        cases error
        have found : (attempt :: rest).find? Attempt.stable = rest.find? Attempt.stable := by
          simp [stable]
        obtain ⟨sound', grows, names, fails⟩ := ih step.sound err (fun a first => by
          rw [step.existing]
          exact (fits a (found ▸ first)).imp_right (fun all p inside => step.fits p (all p inside)))
        simp only [storeLargeFileFixedStreaming, pass, found]
        exact ⟨sound', step.grows.trans grows, names, fails⟩

theorem storeLargeFile_spec (sound : s.Sound env) (fits : s.Fits env call) :
    let stored := s.storeLargeFile env call
    stored.2.Sound env ∧ Grows s stored.2 ∧
      (∀ bytes, call.content = some bytes → Names env stored.2 stored.1 bytes) ∧
      (call.content = none → ∃ err, stored.1 = .error err) := by
  unfold Fits LargeCall.recorded at fits
  unfold storeLargeFile LargeCall.content
  by_cases fixed : call.config.defaultChunking = "fixed"
  · simp only [if_pos fixed] at fits ⊢
    obtain ⟨sound', grows, names, fails⟩ := storeLargeFileFixedStreaming_spec sound call
      (call.attempts.take 8) s!"file changed while reading: {call.displayPath}"
      (fun attempt found => fits attempt.read (by rw [found]; rfl))
    refine ⟨sound', grows, ?_, fun none => fails (by simpa using none)⟩
    intro bytes content
    obtain ⟨attempt, found, rfl⟩ := Option.map_eq_some_iff.mp content
    exact names attempt found
  · simp only [if_neg fixed] at fits ⊢
    have here := fits _ rfl
    rw [flatten_chunkRangesForBytes] at here
    obtain ⟨sound', grows, names⟩ := storeLargeBytesBuffered_spec sound here
    refine ⟨sound', grows, ?_, by simp⟩
    rintro _ ⟨⟩
    exact names

theorem storeAll_spec (sound : s.Sound env) {calls : List LargeCall}
    (fitting : Fitting env calls s) :
    let stored := storeAll env calls s
    Grows s stored.2 ∧ List.Forall₂ (fun call result =>
      ∀ bytes, call.content = some bytes → Names env stored.2 result bytes) calls stored.1 := by
  induction calls generalizing s with
  | nil => exact ⟨.refl s, .nil⟩
  | cons call rest ih =>
    obtain ⟨sound', grows, names, -⟩ := storeLargeFile_spec sound fitting.1
    obtain ⟨grows', tail⟩ := ih sound' fitting.2
    exact ⟨grows.trans grows',
      .cons (fun bytes content => (names bytes content).mono grows') tail⟩

/-- After any sequence of calls that fit, each manifest gives back the bytes of its call. -/
theorem readLarge_storeAll {calls : List LargeCall} (fitting : Fitting env calls empty) :
    List.Forall₂ (fun call result => ∀ bytes, call.content = some bytes →
      ∃ oid key count manifest, result = .ok (oid, key, count) ∧
        (storeAll env calls empty).2.manifestObjects key = some manifest ∧
        (storeAll env calls empty).2.readLarge env manifest = some bytes)
      calls (storeAll env calls empty).1 :=
  (storeAll_spec Sound.empty fitting).2

end Storing

/-- Two equal halves are written once. -/
def halving : Zstd where
  encodeAll bytes _ :=
    if bytes = bytes.take (bytes.length / 2) ++ bytes.take (bytes.length / 2) then
      1 :: bytes.take (bytes.length / 2)
    else 0 :: bytes
  decodeAll
    | 1 :: half => some (half ++ half)
    | 0 :: bytes => some bytes
    | _ => none
  decodeAll_encodeAll bytes _ := by
    split_ifs with halves
    · exact congrArg some halves.symm
    · rfl

/-- Hashes that are the hashed values. -/
def plainEnv : LargeEnv Bytes (LargeManifest Bytes) where
  blake3 := id
  manifestOid := id
  zstd := halving
  rebuildMissingLargeChunks := false
  blake3_injective := Function.injective_id
  manifestOid_injective := Function.injective_id

/-- A file of one or more chunks of four bytes, read without disturbance. -/
def chunkFile (fileName : String) (pieces : List Bytes) : LargeCall where
  displayPath := fileName
  fileName := fileName.toList
  mediaType := none
  config :=
    { defaultChunking := "fixed"
      chunkSize := 4
      compression :=
        { enabled := true, algorithm := "zstd", level := 3, sampleBytes := 1024
          minGainRatio := .finite (nearest (1 / 20)), skipExtensions := ["*.zip".toList] } }
  binary := true
  reuseRemoteChunks := false
  attempts := [⟨pieces, true⟩]
  bytes := []

/-- Two texts that share a compressed chunk. -/
def texts : List LargeCall :=
  [chunkFile "a.txt" [[7, 7, 7, 7]], chunkFile "b.txt" [[7, 7, 7, 7], [1, 2, 3, 4]]]

theorem readLarge_storeAll_texts :
    List.Forall₂ (fun call result => ∀ bytes, call.content = some bytes →
      ∃ oid key count manifest, result = .ok (oid, key, count) ∧
        (storeAll plainEnv texts empty).2.manifestObjects key = some manifest ∧
        (storeAll plainEnv texts empty).2.readLarge plainEnv manifest = some bytes)
      texts (storeAll plainEnv texts empty).1 := by
  have fitting : Fitting plainEnv texts empty := by
    simp only [Fitting, texts, Fits, FitsAt, and_true]
    decide +kernel
  exact readLarge_storeAll fitting

/-- A text, and an archive whose name keeps its chunks from being compressed. -/
def textAndArchive : List LargeCall :=
  [chunkFile "a.txt" [[7, 7, 7, 7]], chunkFile "b.zip" [[7, 7, 7, 7], [1, 2, 3, 4]]]

/-- The manifest that the last call of a sequence returned, read at the end. -/
def readLast (calls : List LargeCall) : Option Bytes :=
  match (storeAll plainEnv calls empty).1.getLast? with
  | some (.ok (_, key, _)) =>
    ((storeAll plainEnv calls empty).2.manifestObjects key).bind
      ((storeAll plainEnv calls empty).2.readLarge plainEnv)
  | _ => none

theorem readLarge_storeAll_archive :
    (chunkFile "b.zip" [[7, 7, 7, 7], [1, 2, 3, 4]]).content = some [7, 7, 7, 7, 1, 2, 3, 4] ∧
    readLast textAndArchive = some [1, 7, 7, 1, 2, 3, 4] := by
  constructor
  · decide +kernel
  · decide +kernel

end LargeStore

end Majutsu.Repo
