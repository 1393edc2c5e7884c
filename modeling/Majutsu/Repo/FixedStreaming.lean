import Majutsu.Repo.ChangingFile

/-!
# Streaming a large file in fixed chunks

The streaming writer makes a chunk of every read, whatever the read returned. So where the
chunks end depends on the reads; that they lie one behind the other, and what they hash
to, does not. If each read fills the buffer, the chunks are those that the buffered writer
cuts.

A manifest that is already there for the same bytes and the same setting is used again. It
was made by an earlier call, so what holds of the manifests of a store is an invariant of
all calls.
-/

namespace Majutsu.Repo

open Ranges

variable {Oid MOid : Type}

structure Outline (Oid : Type) where
  index : Nat
  offset : Nat
  len : Nat
  oid : Oid
  deriving DecidableEq

def Outline.span (outline : Outline Oid) : Nat × Nat :=
  (outline.offset, outline.offset + outline.len)

def LargeChunk.outline (chunk : LargeChunk Oid) : Outline Oid :=
  ⟨chunk.index, chunk.offset, chunk.len, chunk.oid⟩

/-- Pieces that lie one behind the other. -/
def outlines (blake3 : Bytes → Oid) : List Bytes → Nat → Nat → List (Outline Oid)
  | [], _, _ => []
  | piece :: rest, index, offset =>
    ⟨index, offset, piece.length, blake3 piece⟩ ::
      outlines blake3 rest (index + 1) (offset + piece.length)

section Outlines

variable (blake3 : Bytes → Oid) (pieces : List Bytes) (index offset : Nat)

theorem map_index_outlines :
    (outlines blake3 pieces index offset).map Outline.index =
      List.range' index pieces.length := by
  induction pieces generalizing index offset with
  | nil => rfl
  | cons piece rest ih =>
    rw [outlines, List.map_cons, ih, List.length_cons, List.range'_succ]

theorem map_len_outlines :
    (outlines blake3 pieces index offset).map Outline.len = pieces.map List.length := by
  induction pieces generalizing index offset with
  | nil => rfl
  | cons piece rest ih => rw [outlines, List.map_cons, ih, List.map_cons]

theorem covers_outlines :
    Covers offset ((outlines blake3 pieces index offset).map Outline.span)
      (offset + pieces.flatten.length) := by
  induction pieces generalizing index offset with
  | nil => exact .nil
  | cons piece rest ih =>
    rw [outlines, List.map_cons, List.flatten_cons, List.length_append, ← Nat.add_assoc]
    exact .cons (Nat.le_add_right _ _) (ih _ _)

theorem oid_outlines (before : Bytes) (behind : before.length = offset) {outline : Outline Oid}
    (inside : outline ∈ outlines blake3 pieces index offset) :
    outline.oid = blake3 (slice (before ++ pieces.flatten) outline.span) := by
  induction pieces generalizing index offset before with
  | nil => cases inside
  | cons piece rest ih =>
    rcases List.mem_cons.mp inside with rfl | later
    · rw [Outline.span, slice, ← behind, List.drop_left, Nat.add_sub_cancel_left,
        List.flatten_cons, List.take_left]
    · have next : (before ++ piece).length = offset + piece.length := by
        rw [List.length_append, behind]
      rw [List.flatten_cons, ← List.append_assoc]
      exact ih _ _ (before ++ piece) next later

end Outlines

structure LargeManifest.Faithful (env : LargeEnv Oid MOid) (manifest : LargeManifest Oid)
    (bytes : Bytes) : Prop where
  oid : manifest.oid = env.blake3 bytes
  size : manifest.size = bytes.length
  indexes : manifest.chunks.map LargeChunk.index = List.range manifest.chunks.length
  contiguous : Covers 0
    (manifest.chunks.map (fun chunk => (chunk.offset, chunk.offset + chunk.len))) bytes.length
  short : ∀ chunk ∈ manifest.chunks, chunk.len ≤ max manifest.chunkSize 1
  sum : (manifest.chunks.map LargeChunk.len).sum = bytes.length
  hashes : ∀ chunk ∈ manifest.chunks,
    chunk.oid = env.blake3 (slice bytes (chunk.offset, chunk.offset + chunk.len))

/-- No read returned more than the buffer holds. -/
def LargeCall.Bounded (call : LargeCall) : Prop :=
  ∀ attempt ∈ call.attempts, ∀ piece ∈ attempt.pieces, piece.length ≤ max call.config.chunkSize 1

namespace LargeStore

variable [DecidableEq Oid] (env : LargeEnv Oid MOid) (call : LargeCall)

section Chunks

variable (rows : Bool) (pieces : List Bytes) (index offset : Nat) (s : LargeStore Oid MOid)

theorem outline_storeChunks :
    (storeChunks env call rows pieces index offset s).1.map LargeChunk.outline =
      outlines env.blake3 pieces index offset := by
  induction pieces generalizing index offset s with
  | nil => rfl
  | cons piece rest ih => rw [storeChunks, List.map_cons, ih]; rfl

theorem storeChunk_frame (piece : Bytes) :
    (s.storeChunk env call index offset piece).2.manifestObjects = s.manifestObjects ∧
    (s.storeChunk env call index offset piece).2.largeObjects = s.largeObjects ∧
    (s.storeChunk env call index offset piece).2.chunks = s.chunks := by
  simp only [storeChunk, storeLargeChunkBytes]
  split
  · exact ⟨rfl, rfl, rfl⟩
  · unfold storeChunkObject
    split
    · exact ⟨rfl, rfl, rfl⟩
    · exact ⟨rfl, rfl, rfl⟩

theorem storeChunks_frame :
    (storeChunks env call rows pieces index offset s).2.manifestObjects = s.manifestObjects ∧
    (storeChunks env call rows pieces index offset s).2.largeObjects = s.largeObjects ∧
    (rows = false → (storeChunks env call rows pieces index offset s).2.chunks = s.chunks) := by
  induction pieces generalizing index offset s with
  | nil => exact ⟨rfl, rfl, fun _ => rfl⟩
  | cons piece rest ih =>
    obtain ⟨manifests, large, chunks⟩ := storeChunk_frame env call index offset s piece
    rw [storeChunks]
    cases rows with
    | true =>
      obtain ⟨later, later', -⟩ := ih (index + 1) (offset + piece.length)
        ((s.storeChunk env call index offset piece).2.insertChunkRow
          (s.storeChunk env call index offset piece).1)
      exact ⟨later.trans manifests, later'.trans large, by simp⟩
    | false =>
      obtain ⟨later, later', later''⟩ := ih (index + 1) (offset + piece.length)
        (s.storeChunk env call index offset piece).2
      exact ⟨later.trans manifests, later'.trans large, fun _ => (later'' rfl).trans chunks⟩

theorem foldl_insertChunkRow_frame (chunks : List (LargeChunk Oid)) :
    (chunks.foldl insertChunkRow s).manifestObjects = s.manifestObjects ∧
    (chunks.foldl insertChunkRow s).largeObjects = s.largeObjects := by
  induction chunks generalizing s with
  | nil => exact ⟨rfl, rfl⟩
  | cons chunk rest ih => exact ih (s.insertChunkRow chunk)

omit [DecidableEq Oid] in
theorem existingLargeObjectManifest_congr {s t : LargeStore Oid MOid}
    (manifests : t.manifestObjects = s.manifestObjects) (large : t.largeObjects = s.largeObjects)
    (oid : Oid) : t.existingLargeObjectManifest call oid = s.existingLargeObjectManifest call oid := by
  rw [existingLargeObjectManifest, existingLargeObjectManifest, manifests, large]

theorem faithful_manifestFor
    (short : ∀ piece ∈ pieces, piece.length ≤ max call.config.chunkSize 1) :
    (manifestFor env call pieces.flatten
      (storeChunks env call rows pieces 0 0 s).1).Faithful env pieces.flatten := by
  have same := outline_storeChunks env call rows pieces 0 0 s
  have lengths := map_len_outlines env.blake3 pieces 0 0
  have count : (storeChunks env call rows pieces 0 0 s).1.length = pieces.length := by
    have := congrArg List.length (same ▸ lengths)
    simpa using this
  refine ⟨rfl, rfl, ?_, ?_, ?_, ?_, ?_⟩
  · have indexes := map_index_outlines env.blake3 pieces 0 0
    rw [← same, List.map_map] at indexes
    rw [manifestFor, count, List.range_eq_range']
    exact indexes
  · have covers := covers_outlines env.blake3 pieces 0 0
    rw [← same, List.map_map, Nat.zero_add] at covers
    exact covers
  · intro chunk inside
    have listed : chunk.len ∈ pieces.map List.length := by
      rw [← lengths, ← same, List.map_map]
      exact List.mem_map_of_mem inside
    obtain ⟨piece, member, length⟩ := List.mem_map.mp listed
    rw [← length]
    exact short piece member
  · rw [← same, List.map_map] at lengths
    rw [List.length_flatten, ← lengths]
    rfl
  · intro chunk inside
    have listed : chunk.outline ∈ outlines env.blake3 pieces 0 0 := by
      rw [← same]
      exact List.mem_map_of_mem inside
    exact oid_outlines env.blake3 pieces 0 0 [] rfl listed

end Chunks

/-- Every manifest lies under its own name, those in fixed chunks are faithful to some
bytes, and the rows name manifests of their hash. -/
structure Tidy (s : LargeStore Oid MOid) : Prop where
  names : ∀ key manifest, s.manifestObjects key = some manifest → key = env.manifestOid manifest
  fixed : ∀ key manifest, s.manifestObjects key = some manifest → manifest.chunking = "fixed" →
    ∃ bytes, manifest.Faithful env bytes
  large : ∀ oid row, s.largeObjects oid = some row →
    ∃ manifest, s.manifestObjects row.manifestKey = some manifest ∧ manifest.oid = oid

variable {env call} {s : LargeStore Oid MOid}

omit [DecidableEq Oid] in
theorem Tidy.congr {t : LargeStore Oid MOid} (tidy : s.Tidy env)
    (manifests : t.manifestObjects = s.manifestObjects) (large : t.largeObjects = s.largeObjects) :
    t.Tidy env := by
  refine ⟨?_, ?_, ?_⟩
  · rw [manifests]
    exact tidy.names
  · rw [manifests]
    exact tidy.fixed
  · rw [manifests, large]
    exact tidy.large

omit [DecidableEq Oid] in
theorem Tidy.existing (tidy : s.Tidy env) (fixed : call.config.defaultChunking = "fixed")
    {bytes : Bytes} {key : MOid} {count : Nat}
    (found : s.existingLargeObjectManifest call (env.blake3 bytes) = some (key, count)) :
    ∃ manifest, s.manifestObjects key = some manifest ∧ manifest.Faithful env bytes := by
  unfold existingLargeObjectManifest at found
  split at found
  · cases found
  · next row named =>
    split at found
    · cases found
    · next manifest object =>
      split at found
      · next setting =>
        cases found
        obtain ⟨bytes', faithful⟩ := tidy.fixed _ _ object (setting.1.trans fixed)
        obtain ⟨manifest', object', name⟩ := tidy.large _ _ named
        rw [object] at object'
        cases object'
        have same : bytes' = bytes := env.blake3_injective (faithful.oid.symm.trans name)
        exact ⟨manifest, object, same ▸ faithful⟩
      · cases found

variable [DecidableEq MOid]

theorem Tidy.manifestObjects_commitManifest (tidy : s.Tidy env) (manifest : LargeManifest Oid) :
    (s.commitManifest env manifest).manifestObjects =
      Function.update s.manifestObjects (env.manifestOid manifest) (some manifest) := by
  unfold commitManifest
  cases there : s.manifestObjects (env.manifestOid manifest) with
  | none => simp [there]
  | some old =>
    have same : old = manifest := env.manifestOid_injective (tidy.names _ _ there).symm
    simp only [there, Option.isSome_some, if_true]
    rw [← same, ← there, Function.update_eq_self_iff.mpr (by rw [same])]

theorem Tidy.commitManifest (tidy : s.Tidy env) {manifest : LargeManifest Oid}
    (faithful : manifest.chunking = "fixed" → ∃ bytes, manifest.Faithful env bytes) :
    (s.commitManifest env manifest).Tidy env := by
  have objects := tidy.manifestObjects_commitManifest manifest
  -- what the committed store has under a key is the new manifest or an old one
  have cases_ : ∀ key m, (s.commitManifest env manifest).manifestObjects key = some m →
      key = env.manifestOid manifest ∧ m = manifest ∨ s.manifestObjects key = some m := by
    intro key m found
    rw [objects, Function.update_apply] at found
    split at found
    · next same => exact .inl ⟨same, (Option.some.inj found).symm⟩
    · exact .inr found
  refine ⟨?_, ?_, ?_⟩
  · intro key m found
    rcases cases_ key m found with ⟨same, rfl⟩ | old
    · exact same
    · exact tidy.names key m old
  · intro key m found
    rcases cases_ key m found with ⟨-, rfl⟩ | old
    · exact faithful
    · exact tidy.fixed key m old
  · intro oid row named
    change Function.update s.largeObjects manifest.oid _ oid = some row at named
    rw [Function.update_apply] at named
    split at named
    · next same =>
      cases named
      exact ⟨manifest, by rw [objects, Function.update_self], same.symm⟩
    · obtain ⟨old, object, name⟩ := tidy.large oid row named
      refine ⟨old, ?_, name⟩
      rw [objects, Function.update_apply]
      split
      · next same =>
        have again := (tidy.names _ _ object).symm.trans same
        rw [env.manifestOid_injective again]
      · exact object

/-- The rows that a pass puts into `large_object_chunks`. -/
def indexedChunks (env : LargeEnv Oid MOid) (call : LargeCall) (s : LargeStore Oid MOid)
    (attempt : Attempt) : List (Oid × Oid) :=
  let pieces := attempt.read
  let stored := storeChunks env call false pieces 0 0 s
  if !attempt.stable then []
  else
    let manifest :=
      match stored.2.existingLargeObjectManifest call (env.blake3 pieces.flatten) with
      | some (key, _) => stored.2.manifestObjects key
      | none => some (manifestFor env call pieces.flatten stored.1)
    match manifest with
    | some manifest => manifest.chunks.map (fun chunk => (manifest.oid, chunk.oid))
    | none => []

variable {attempt : Attempt}

theorem storeLargeFileFixedStreamingOnce_unstable (env : LargeEnv Oid MOid) (call : LargeCall)
    (unstable : attempt.stable = false) (s : LargeStore Oid MOid) :
    let after := s.storeLargeFileFixedStreamingOnce env call attempt
    (∃ err, after.1 = .error err) ∧ after.2.manifestObjects = s.manifestObjects ∧
      after.2.largeObjects = s.largeObjects ∧ after.2.chunks = s.chunks ∧
      s.indexedChunks env call attempt = [] := by
  obtain ⟨manifests, large, chunks⟩ := storeChunks_frame env call false attempt.read 0 0 s
  simp only [storeLargeFileFixedStreamingOnce, indexedChunks, unstable, Bool.not_false, if_true]
  exact ⟨⟨_, rfl⟩, manifests, large, chunks rfl, trivial⟩

theorem storeLargeFileFixedStreamingOnce_stable (tidy : s.Tidy env)
    (fixed : call.config.defaultChunking = "fixed")
    (short : ∀ piece ∈ attempt.read, piece.length ≤ max call.config.chunkSize 1)
    (stable : attempt.stable = true) :
    let after := s.storeLargeFileFixedStreamingOnce env call attempt
    after.2.Tidy env ∧ ∃ key count manifest,
      after.1 = .ok (env.blake3 attempt.read.flatten, key, count) ∧
      after.2.manifestObjects key = some manifest ∧
      manifest.Faithful env attempt.read.flatten := by
  obtain ⟨manifests, large, -⟩ := storeChunks_frame env call false attempt.read 0 0 s
  have tidy₁ := tidy.congr manifests large
  have faithful := faithful_manifestFor env call false attempt.read s short
  simp only [storeLargeFileFixedStreamingOnce, stable, Bool.not_true, Bool.false_eq_true, if_false]
  cases found : (storeChunks env call false attempt.read 0 0 s).2.existingLargeObjectManifest call
      (env.blake3 attempt.read.flatten) with
  | some existing =>
    obtain ⟨key, count⟩ := existing
    obtain ⟨manifest, object, described⟩ := tidy₁.existing fixed found
    exact ⟨tidy₁, key, count, manifest, rfl, object, described⟩
  | none =>
    obtain ⟨manifests', large'⟩ := foldl_insertChunkRow_frame
      ((storeChunks env call false attempt.read 0 0 s).2.commitManifest env
        (manifestFor env call attempt.read.flatten
          (storeChunks env call false attempt.read 0 0 s).1))
      (storeChunks env call false attempt.read 0 0 s).1
    refine ⟨(tidy₁.commitManifest fun _ => ⟨_, faithful⟩).congr manifests' large',
      _, _, _, rfl, ?_, faithful⟩
    rw [manifests', tidy₁.manifestObjects_commitManifest, Function.update_self]

theorem Tidy.storeLargeFileFixedStreaming (fixed : call.config.defaultChunking = "fixed")
    {attempts : List Attempt} (tidy : s.Tidy env) (last : String)
    (short : ∀ attempt ∈ attempts, ∀ piece ∈ attempt.read,
      piece.length ≤ max call.config.chunkSize 1) :
    (storeLargeFileFixedStreaming env call attempts last s).2.Tidy env := by
  induction attempts generalizing s last with
  | nil => exact tidy
  | cons attempt rest ih =>
    have later := fun a member => short a (List.mem_cons_of_mem attempt member)
    cases pass : s.storeLargeFileFixedStreamingOnce env call attempt with
    | mk result s₁ =>
      have tidy₁ : s₁.Tidy env := by
        cases stable : attempt.stable with
        | true =>
          have kept := (storeLargeFileFixedStreamingOnce_stable tidy fixed
            (short attempt List.mem_cons_self) stable).1
          rwa [pass] at kept
        | false =>
          obtain ⟨-, manifests, large, -⟩ :=
            storeLargeFileFixedStreamingOnce_unstable env call stable s
          rw [pass] at manifests large
          exact tidy.congr manifests large
      simp only [LargeStore.storeLargeFileFixedStreaming, pass]
      cases result with
      | ok stored => exact tidy₁
      | error err => exact ih tidy₁ err later

theorem Tidy.storeLargeFile (tidy : s.Tidy env) (bounded : call.Bounded) :
    (s.storeLargeFile env call).2.Tidy env := by
  unfold LargeStore.storeLargeFile
  by_cases fixed : call.config.defaultChunking = "fixed"
  · rw [if_pos fixed]
    refine tidy.storeLargeFileFixedStreaming fixed _ (fun attempt member piece inside => ?_)
    exact bounded attempt (List.mem_of_mem_take member) piece (List.takeWhile_subset _ inside)
  · rw [if_neg fixed]
    simp only [storeLargeBytesBuffered]
    split
    · exact tidy
    · obtain ⟨manifests, large, -⟩ := storeChunks_frame env call true
        ((chunkRangesForBytes call.config.defaultChunking call.config.chunkSize call.bytes).map
          (slice call.bytes)) 0 0 s
      exact (tidy.congr manifests large).commitManifest (fun setting => absurd setting fixed)

theorem Tidy.storeAll {calls : List LargeCall} (tidy : s.Tidy env)
    (bounded : ∀ call ∈ calls, call.Bounded) : (storeAll env calls s).2.Tidy env := by
  induction calls generalizing s with
  | nil => exact tidy
  | cons call rest ih =>
    exact ih (tidy.storeLargeFile (bounded call List.mem_cons_self))
      (fun c member => bounded c (List.mem_cons_of_mem call member))

omit [DecidableEq Oid] [DecidableEq MOid] in
theorem Tidy.empty : (empty : LargeStore Oid MOid).Tidy env where
  names _ _ found := by cases found
  fixed _ _ found := by cases found
  large _ _ found := by cases found

theorem outline_storeLargeBytesBuffered (tidy : s.Tidy env)
    (absent : s.existingLargeObjectManifest call (env.blake3 call.bytes) = none) :
    ∃ key count manifest,
      (s.storeLargeBytesBuffered env call).1 = (env.blake3 call.bytes, key, count) ∧
      (s.storeLargeBytesBuffered env call).2.manifestObjects key = some manifest ∧
      manifest.chunks.map LargeChunk.outline = outlines env.blake3
        ((chunkRangesForBytes call.config.defaultChunking call.config.chunkSize call.bytes).map
          (slice call.bytes)) 0 0 := by
  simp only [storeLargeBytesBuffered, absent]
  generalize pieces : (chunkRangesForBytes call.config.defaultChunking call.config.chunkSize
    call.bytes).map (slice call.bytes) = cut
  obtain ⟨manifests, large, -⟩ := storeChunks_frame env call true cut 0 0 s
  refine ⟨_, _, manifestFor env call call.bytes (storeChunks env call true cut 0 0 s).1,
    rfl, ?_, outline_storeChunks env call true cut 0 0 s⟩
  rw [(tidy.congr manifests large).manifestObjects_commitManifest, Function.update_self]

theorem outline_streamed_eq_buffered (tidy : s.Tidy env)
    (fixed : call.config.defaultChunking = "fixed") {bytes : Bytes} (stable : attempt.stable = true)
    (full : attempt.read = (fixedRanges bytes.length call.config.chunkSize).map (slice bytes))
    (whole : attempt.read.flatten = bytes) {key : MOid} {count : Nat} {manifest : LargeManifest Oid}
    (ok : (s.storeLargeFileFixedStreamingOnce env call attempt).1 =
      .ok (env.blake3 bytes, key, count))
    (object : (s.storeLargeFileFixedStreamingOnce env call attempt).2.manifestObjects key =
      some manifest) :
    ∃ key' count' manifest',
      (s.storeLargeBytesBuffered env { call with bytes := bytes }).1 =
        (env.blake3 bytes, key', count') ∧
      (s.storeLargeBytesBuffered env { call with bytes := bytes }).2.manifestObjects key' =
        some manifest' ∧
      manifest.chunks.map LargeChunk.outline = manifest'.chunks.map LargeChunk.outline := by
  obtain ⟨manifests, large, -⟩ := storeChunks_frame env call false attempt.read 0 0 s
  have tidy₁ := tidy.congr manifests large
  have existing := existingLargeObjectManifest_congr call manifests large (env.blake3 bytes)
  have setting : s.existingLargeObjectManifest { call with bytes := bytes } (env.blake3 bytes) =
      s.existingLargeObjectManifest call (env.blake3 bytes) := rfl
  simp only [storeLargeFileFixedStreamingOnce, stable, Bool.not_true, Bool.false_eq_true, if_false,
    whole, existing] at ok object
  cases found : s.existingLargeObjectManifest call (env.blake3 bytes) with
  | some pair =>
    simp only [found] at ok object
    cases ok
    simp only [storeLargeBytesBuffered, setting, found]
    exact ⟨_, _, manifest, rfl, manifests ▸ object, rfl⟩
  | none =>
    simp only [found] at ok object
    cases ok
    obtain ⟨manifests', -⟩ := foldl_insertChunkRow_frame
      ((storeChunks env call false attempt.read 0 0 s).2.commitManifest env
        (manifestFor env call bytes (storeChunks env call false attempt.read 0 0 s).1))
      (storeChunks env call false attempt.read 0 0 s).1
    rw [manifests', tidy₁.manifestObjects_commitManifest, Function.update_self] at object
    cases object
    obtain ⟨key', count', manifest', stored, object', outline⟩ :=
      outline_storeLargeBytesBuffered tidy (setting.trans found)
    have ranges : chunkRangesForBytes call.config.defaultChunking call.config.chunkSize bytes =
        fixedRanges bytes.length call.config.chunkSize := by
      rw [chunkRangesForBytes, fixed, if_neg (by decide)]
    refine ⟨key', count', manifest', stored, object', ?_⟩
    rw [outline, manifestFor, outline_storeChunks, full]
    exact congrArg (fun cut => outlines env.blake3 (cut.map (slice bytes)) 0 0) ranges.symm

end LargeStore

namespace Source

variable {source : Source} {room : Nat → Nat} {time : Nat}

variable {done : Nat}

theorem readPieces_sizes {limit : Nat} (small : ∀ t, room t ≤ limit) {ino patience offset : Nat}
    {pieces : List Bytes}
    (read : source.readPieces room ino patience time offset = some (pieces, done)) :
    ∀ piece ∈ pieces, piece.isEmpty = false ∧ piece.length ≤ limit := by
  induction patience generalizing time offset pieces done with
  | zero => cases read
  | succ patience ih =>
    rw [readPieces] at read
    split at read
    · cases read
      exact fun piece inside => absurd inside List.not_mem_nil
    · next more =>
      obtain ⟨⟨rest, last⟩, later, result⟩ := Option.map_eq_some_iff.mp read
      cases result
      intro piece inside
      rcases List.mem_cons.mp inside with rfl | behind
      · refine ⟨Bool.eq_false_iff.mpr more, ?_⟩
        rw [List.length_take]
        exact Nat.le_trans (Nat.min_le_left _ _) (small time)
      · exact ih later piece behind

variable {ino : Nat} {file : FileState}

theorem Quiet.readPieces_full (quiet : source.Quiet time ino file) {size : Nat}
    (positive : 0 < size) {patience fuel offset : Nat} {pieces : List Bytes}
    (within : offset ≤ file.content.length) (enough : file.content.length ≤ offset + fuel)
    (read : source.readPieces (fun _ => size) ino patience time offset = some (pieces, done)) :
    pieces = (fixedRangesFrom file.content.length size fuel offset).map (slice file.content) := by
  induction patience generalizing time offset fuel pieces done with
  | zero => cases read
  | succ patience ih =>
    rw [Source.readPieces] at read
    simp only [quiet.kept time (Nat.le_refl time)] at read
    by_cases more : offset < file.content.length
    · cases fuel with
      | zero => omega
      | succ fuel =>
        have stop : slice file.content (offset, min (offset + size) file.content.length) =
            (file.content.drop offset).take size := by
          rw [slice, List.take_eq_take_iff, List.length_drop]
          omega
        have length : ((file.content.drop offset).take size).length =
            min (offset + size) file.content.length - offset := by
          rw [List.length_take, List.length_drop]
          omega
        have nonempty : ¬ ((file.content.drop offset).take size).isEmpty = true := by
          rw [List.isEmpty_iff, ← List.length_eq_zero_iff, length]
          omega
        rw [if_neg nonempty] at read
        obtain ⟨⟨rest, last⟩, later, result⟩ := Option.map_eq_some_iff.mp read
        cases result
        have next : offset + ((file.content.drop offset).take size).length =
            min (offset + size) file.content.length := by
          rw [length]
          omega
        rw [next] at later
        rw [fixedRangesFrom, if_pos more]
        dsimp only
        have inside : min (offset + size) file.content.length ≤ file.content.length :=
          Nat.min_le_right _ _
        have left : file.content.length ≤ min (offset + size) file.content.length + fuel := by
          omega
        rw [List.map_cons, stop, ih (quiet.mono (Nat.le_succ time)) inside left later]
    · have ended : (file.content.drop offset).take size = [] := by
        rw [List.drop_eq_nil_of_le (by omega), List.take_nil]
      rw [ended] at read
      cases read
      cases fuel with
      | zero => rfl
      | succ fuel => rw [fixedRangesFrom, if_neg more]; rfl

end Source

namespace LargeStore

variable [DecidableEq Oid] [DecidableEq MOid] (env : LargeEnv Oid MOid)

/-- In a store that calls have built: a pass over a file that does not change, with any
schedule of reads, gives a faithful manifest, and one with full reads cuts as the buffered
writer does. A pass that sees another size or time leaves no manifest and no row. -/
theorem fixedStreaming_faithful {calls : List LargeCall} (bounded : ∀ call ∈ calls, call.Bounded)
    (call : LargeCall) (fixed : call.config.defaultChunking = "fixed") (source : Source)
    (room : Nat → Nat) (schedule : ∀ t, 1 ≤ room t ∧ room t ≤ max call.config.chunkSize 1)
    (time : Nat) :
    let s := (storeAll env calls empty).2
    (∀ ino file, source.Quiet time ino file → file.content.length < source.patience →
      ∃ attempt done key count manifest,
        source.pass room time = some (.ok attempt, done) ∧
        (s.storeLargeFileFixedStreamingOnce env call attempt).1 =
          .ok (env.blake3 file.content, key, count) ∧
        (s.storeLargeFileFixedStreamingOnce env call attempt).2.manifestObjects key =
          some manifest ∧
        manifest.Faithful env file.content ∧
        ((∀ t, room t = max call.config.chunkSize 1) → ∃ key' count' manifest',
          (s.storeLargeBytesBuffered env { call with bytes := file.content }).1 =
            (env.blake3 file.content, key', count') ∧
          (s.storeLargeBytesBuffered env { call with bytes := file.content }).2.manifestObjects
            key' = some manifest' ∧
          manifest.chunks.map LargeChunk.outline = manifest'.chunks.map LargeChunk.outline)) ∧
    ∀ attempt done, source.pass room time = some (.ok attempt, done) →
      ∃ before after, source.observed time (done - 1) = some (before, after) ∧
        (before.len ≠ after.len ∨ before.modified ≠ after.modified →
          (∃ err, (s.storeLargeFileFixedStreamingOnce env call attempt).1 = .error err) ∧
          (s.storeLargeFileFixedStreamingOnce env call attempt).2.manifestObjects =
            s.manifestObjects ∧
          (s.storeLargeFileFixedStreamingOnce env call attempt).2.largeObjects = s.largeObjects ∧
          (s.storeLargeFileFixedStreamingOnce env call attempt).2.chunks = s.chunks ∧
          s.indexedChunks env call attempt = []) := by
  have tidy : (storeAll env calls empty).2.Tidy env := Tidy.empty.storeAll bounded
  refine ⟨?_, ?_⟩
  · intro ino file quiet enough
    obtain ⟨attempt, done, made, stable, whole⟩ := quiet.pass (fun t => (schedule t).1) enough
    obtain ⟨opened, ino', last, -, -, -, after, -, named, read, -, -⟩ := Source.pass_inv made
    have same : ino' = ino := by
      rw [quiet.resolve _ after] at named
      exact (Except.ok.inj named).symm
    subst same
    have sizes := Source.readPieces_sizes (fun t => (schedule t).2) read
    have all : attempt.read = attempt.pieces := by
      rw [Attempt.read, List.takeWhile_eq_self_iff]
      intro piece inside
      rw [(sizes piece inside).1, Bool.not_false]
    have short : ∀ piece ∈ attempt.read, piece.length ≤ max call.config.chunkSize 1 := by
      rw [all]
      exact fun piece inside => (sizes piece inside).2
    obtain ⟨-, key, count, manifest, ok, object, faithful⟩ :=
      storeLargeFileFixedStreamingOnce_stable tidy fixed short stable
    rw [whole] at ok faithful
    refine ⟨attempt, done, key, count, manifest, made, ok, object, faithful, fun full => ?_⟩
    obtain rfl : room = fun _ => max call.config.chunkSize 1 := funext full
    have pieces := (quiet.mono (Nat.le_add_right time 2)).readPieces_full
      (Nat.lt_of_lt_of_le Nat.one_pos (Nat.le_max_right _ _)) (Nat.zero_le _)
      (Nat.le_add_left file.content.length 0) read
    exact outline_streamed_eq_buffered tidy fixed stable (all.trans pieces) whole ok object
  · intro attempt done made
    obtain ⟨-, -, last, before, after, rfl, -, -, -, -, seen, stable⟩ := Source.pass_inv made
    refine ⟨before, after, seen, fun differs => ?_⟩
    have unstable : attempt.stable = false := by
      rw [stable, stableMetadataMatches]
      rcases differs with size | modified
      · simp [size]
      · simp [modified]
    exact storeLargeFileFixedStreamingOnce_unstable env call unstable _

namespace StillFile

def content : Bytes := [1, 2, 3, 4, 5, 6]

/-- One file, in whose root nothing happens. -/
def source : Source where
  history _ := ⟨.file 3, fun _ => ⟨0o100644, none, none, some 0, content⟩⟩
  follow := false
  displayPath := "a.bin"
  snapshotMode := "strict"
  room _ := 1
  patience := 7

theorem quiet : source.Quiet 0 3 ⟨0o100644, none, none, some 0, content⟩ :=
  ⟨fun _ _ => rfl, fun _ _ => rfl⟩

end StillFile

open StillFile in
/-- Read three bytes at a time into a buffer of four, after another file with such chunks. -/
theorem fixedStreaming_faithful_short :
    (∀ call ∈ [chunkFile "b.bin" [[1, 2, 3]]], call.Bounded) ∧
    ∃ attempt done key count manifest,
      source.pass (fun _ => 3) 0 = some (.ok attempt, done) ∧
      ((storeAll plainEnv [chunkFile "b.bin" [[1, 2, 3]]] empty).2.storeLargeFileFixedStreamingOnce
        plainEnv (chunkFile "a.bin" []) attempt).1 = .ok (content, key, count) ∧
      ((storeAll plainEnv [chunkFile "b.bin" [[1, 2, 3]]] empty).2.storeLargeFileFixedStreamingOnce
        plainEnv (chunkFile "a.bin" []) attempt).2.manifestObjects key = some manifest ∧
      manifest.Faithful plainEnv content := by
  have bounded : ∀ call ∈ [chunkFile "b.bin" [[1, 2, 3]]], call.Bounded := by
    unfold LargeCall.Bounded
    decide
  obtain ⟨still, -⟩ := fixedStreaming_faithful plainEnv bounded (chunkFile "a.bin" []) rfl source
    (fun _ => 3) (fun _ => by decide) 0
  obtain ⟨attempt, done, key, count, manifest, made, ok, object, faithful, -⟩ :=
    still 3 _ quiet (by decide)
  exact ⟨bounded, attempt, done, key, count, manifest, made, ok, object, faithful⟩

end LargeStore

end Majutsu.Repo
