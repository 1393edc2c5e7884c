import Majutsu.Cluster.Keys
import Majutsu.Lib.Chunks
import Majutsu.Lib.Interaction
import Mathlib.Data.List.Sort

/-!
# Multipart uploads

A large object is sent in parts of the configured size, raised until the parts are few
enough and large enough for the store, and in batches whose parts are uploaded at the same
time. A file is read into a buffer of the size of a part, by as many reads as it takes.

The calls of an upload are the actions of a program: each part may fail, each read may fail
or return less than was asked for. How requests are repeated is not part of this module.
-/

namespace Majutsu.Remote

open Cluster (Key Bytes Failure startsWith endsWith containsText)
open Prog

def minMultipartPartSize : Nat := 5 * 1024 * 1024
def defaultLocalMultipartPartSize : Nat := 16 * 1024 * 1024
def defaultCloudMultipartPartSize : Nat := 64 * 1024 * 1024
def defaultMaxMultipartParts : Nat := 10000
def defaultMetadataMultipartParallelism : Nat := 2

/-- The largest allocation of the Rust library, `isize::MAX`. -/
def isizeMax : Nat := 2 ^ 63 - 1

/-- The settings of an upload. Those from the environment are there if they are numbers. -/
structure UploadConfig where
  endpoint : String
  maxParallelUploads : Nat
  /-- `MAJUTSU_S3_MULTIPART_PART_SIZE`. -/
  partSize : Option Nat
  /-- `MAJUTSU_S3_MAX_MULTIPART_PARTS`. -/
  maxParts : Option Nat
  /-- `MAJUTSU_S3_METADATA_MAX_PARALLEL_UPLOADS`. -/
  metadataParallelism : Option Nat
  /-- `MAJUTSU_S3_FILE_MAX_PARALLEL_UPLOADS`. -/
  fileParallelism : Option Nat

def defaultPartSizeForEndpoint (endpoint : String) : Nat :=
  let endpoint := endpoint.toLower
  if containsText endpoint "127.0.0.1" || containsText endpoint "localhost" ||
      containsText endpoint "minio" then
    defaultLocalMultipartPartSize
  else defaultCloudMultipartPartSize

namespace UploadConfig

variable (config : UploadConfig)

def partLimit : Nat := (config.maxParts.filter (0 < ·)).getD defaultMaxMultipartParts

def adaptiveMultipartPartSize (len : Nat) : Nat :=
  let requested := config.partSize.getD (defaultPartSizeForEndpoint config.endpoint)
  let required := max ((len + config.partLimit - 1) / config.partLimit) minMultipartPartSize
  max (max requested required) minMultipartPartSize

/-- `s3_object_class` is `metadata`. -/
def isMetadataKey (key : Key) : Bool :=
  let key := String.ofList (key.toList.dropWhile (· == '/'))
  startsWith key "metadata/" || endsWith key "/metadata/export.json" ||
    endsWith key "/metadata/export.json.zst"

def multipartParallelismForKey (key : Key) : Nat :=
  if isMetadataKey key then
    min ((config.metadataParallelism.filter (0 < ·)).getD defaultMetadataMultipartParallelism)
      (max config.maxParallelUploads 1)
  else max config.maxParallelUploads 1

def multipartFileParallelismForKey (key : Key) : Nat :=
  (config.fileParallelism.filter (0 < ·)).getD (min (config.multipartParallelismForKey key) 2)

end UploadConfig

structure CompletedPart where
  partNumber : Nat
  etag : String
  deriving DecidableEq

/-- What an upload does outside of itself. -/
inductive UploadCall where
  | openFile
  /-- The buffer for a part. -/
  | allocate (size : Nat)
  | readFile (room : Nat)
  | uploadPart (uploadId : String) (partNumber : Nat) (bytes : Bytes)
  | completeMultipart (uploadId : String) (parts : List CompletedPart)
  | abortMultipart (uploadId : String)
  deriving DecidableEq

def UploadCall.Answer : UploadCall → Type
  | openFile => Except Failure Unit
  | allocate _ => Unit
  | readFile _ => Except Failure Bytes
  | uploadPart _ _ _ => Except Failure String
  | completeMultipart _ _ | abortMultipart _ => Except Failure Unit

/-- Parts with their numbers. -/
def numberFrom : Nat → List Bytes → List (Nat × Bytes)
  | _, [] => []
  | number, chunk :: rest => (number, chunk) :: numberFrom (number + 1) rest

/-- The first answer that is an error, or all parts of a batch. -/
def collectParts : List Nat → List (Except Failure String) → Except Failure (List CompletedPart)
  | number :: numbers, answer :: answers => do
    let etag ← answer
    let parts ← collectParts numbers answers
    pure (⟨number, etag⟩ :: parts)
  | _, _ => .ok []

/-! The programs take how a call is made as an argument. -/

section Programs

variable {Label : Type} {Answer : Label → Type} (call : (c : UploadCall) → Prog Answer c.Answer)

/-- The uploads of a batch run side by side, and all of them are waited for. -/
def uploadBatch (uploadId : String) (batch : List (Nat × Bytes)) :
    Fallible Answer Failure (List CompletedPart) :=
  Prog.bind (parAll (batch.map fun part => call (.uploadPart uploadId part.1 part.2)))
    fun answers => .ret (collectParts (batch.map Prod.fst) answers)

def uploadBatches (uploadId : String) :
    List (List (Nat × Bytes)) → Fallible Answer Failure (List CompletedPart)
  | [] => pure []
  | batch :: rest => do
    let parts ← uploadBatch call uploadId batch
    let others ← uploadBatches uploadId rest
    pure (parts ++ others)

def uploadMultipartParts (config : UploadConfig) (key : Key) (uploadId : String) (bytes : Bytes) :
    Fallible Answer Failure (List CompletedPart) :=
  let chunks := numberFrom 1 (Chunks.cut (config.adaptiveMultipartPartSize bytes.length) bytes)
  uploadBatches call uploadId (Chunks.cut (config.multipartParallelismForKey key) chunks)

/-- Fill a buffer, up to the end of the file. Each read but the last adds something, so the
room is fuel enough. -/
def fillPart : Nat → Nat → Bytes → Fallible Answer Failure Bytes
  | 0, _, chunk => pure chunk
  | fuel + 1, room, chunk =>
    if room = 0 then pure chunk
    else do
      let piece ← (call (.readFile room) : Fallible Answer Failure Bytes)
      if piece.isEmpty then pure chunk
      else fillPart fuel (room - piece.length) (chunk ++ piece)

/-- The loop over a file. A file of `len` bytes is at its end after `len` parts. -/
def uploadFileLoop (partSize parallelism : Nat) (uploadId : String) :
    Nat → Nat → List (Nat × Bytes) → List CompletedPart →
      Fallible Answer Failure (List CompletedPart)
  | 0, _, _, _ => Fallible.fail .io
  | fuel + 1, number, batch, parts => do
    let _ ← (Prog.bind (call (.allocate partSize)) (fun _ => .ret (.ok ())) :
      Fallible Answer Failure Unit)
    let chunk ← fillPart call partSize partSize []
    if chunk.isEmpty then
      if batch.isEmpty then pure parts
      else do
        let last ← uploadBatch call uploadId batch
        pure (parts ++ last)
    else
      let batch := batch ++ [(number, chunk)]
      if parallelism ≤ batch.length then do
        let done ← uploadBatch call uploadId batch
        uploadFileLoop partSize parallelism uploadId fuel (number + 1) [] (parts ++ done)
      else uploadFileLoop partSize parallelism uploadId fuel (number + 1) batch parts

def uploadMultipartFileParts (config : UploadConfig) (key : Key) (uploadId : String) (len : Nat) :
    Fallible Answer Failure (List CompletedPart) := do
  let _ ← (call .openFile : Fallible Answer Failure Unit)
  uploadFileLoop call (config.adaptiveMultipartPartSize len)
    (config.multipartFileParallelismForKey key) uploadId (len + 1) 1 [] []

def sortParts (parts : List CompletedPart) : List CompletedPart :=
  parts.insertionSort (fun a b => a.partNumber ≤ b.partNumber)

/-- What follows on `initiate_multipart`. -/
def finishMultipart (uploadId context : String)
    (upload : Fallible Answer Failure (List CompletedPart)) : Fallible Answer Failure Unit := do
  let result ← Fallible.outcome (do
    let parts ← upload
    (call (.completeMultipart uploadId (sortParts parts)) : Fallible Answer Failure Unit))
  match result with
  | .ok () => pure ()
  | .error _ => do
    let _ ← Fallible.outcome (call (.abortMultipart uploadId) : Fallible Answer Failure Unit)
    Fallible.fail (.message context)

/-- What is uploaded, and from where. -/
inductive UploadSource where
  | bytes (content : Bytes)
  | file (content : Bytes)

def UploadSource.content : UploadSource → Bytes
  | bytes content | file content => content

/-- `put_multipart` and `put_multipart_file`, once the upload has an id. -/
def putMultipart (config : UploadConfig) (key : Key) (uploadId : String) :
    UploadSource → Fallible Answer Failure Unit
  | .bytes content =>
    finishMultipart call uploadId ("multipart upload failed for " ++ key)
      (uploadMultipartParts call config key uploadId content)
  | .file content =>
    finishMultipart call uploadId ("multipart file upload failed for " ++ key)
      (uploadMultipartFileParts call config key uploadId content.length)

end Programs

end Majutsu.Remote
