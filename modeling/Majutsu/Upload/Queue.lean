import Majutsu.Lib.Directory
import Majutsu.Upload.Keys

/-!
# The upload queue

An item of the queue names a remote key and where its payload is: in the item
itself or in a local file. Objects named by their content are uploaded with a
conditional put, so that what a remote already holds stays as it is; whether an
item is such an object is decided by its key.
-/

namespace Majutsu.Upload

open Cluster

structure UploadQueueItem where
  id : String
  key : Key
  source : Option String
  inlined : Option Bytes
  createdAt : Nat
  attempts : Nat
  retryAfter : Option Nat
  overwrite : Bool
  deriving DecidableEq

inductive RemoteStore where
  | file
  | s3 (signatureV2 : Bool)
  | masterProxy
  deriving DecidableEq

namespace RemoteStore

def isS3Like : RemoteStore → Bool
  | .file => false
  | .s3 _ | .masterProxy => true

/-- The field `conditional_put` of the capabilities of a remote. -/
def conditionalPut : RemoteStore → Bool
  | .file => true
  | .s3 signatureV2 => !signatureV2
  | .masterProxy => true

end RemoteStore

/-- Which of `put` and `put_if_absent` an item is sent with, by `upload_queue_item` or, through
the master, by `send_cluster_upload_batch`. -/
def sentConditionally (remote : RemoteStore) (item : UploadQueueItem) : Bool :=
  match remote with
  | .masterProxy => !item.overwrite && isContentAddressedRemoteKey item.key
  | _ => !item.overwrite && isContentAddressedRemoteKey item.key && remote.conditionalPut

/-- The objects of a remote. -/
abbrev Bucket := Directory Key Bytes

/-- A put that has been carried out. A conditional one leaves an existing object alone. -/
def Bucket.put (bucket : Bucket) (key : Key) (bytes : Bytes) (conditional : Bool) : Bucket :=
  if conditional && (bucket.lookup key).isSome then bucket else bucket.insert key bytes

theorem Bucket.lookup_put (bucket : Bucket) (key : Key) (bytes : Bytes) (conditional : Bool) :
    (bucket.put key bytes conditional).lookup key =
      some (if conditional then (bucket.lookup key).getD bytes else bytes) := by
  unfold Bucket.put
  cases conditional with
  | false => simp
  | true => cases held : bucket.lookup key <;> simp [held]

/-- No put of an item replaces what the remote holds under the item's key. -/
def NeverReplaces (remote : RemoteStore) (item : UploadQueueItem) : Prop :=
  ∀ (bucket : Bucket) (held bytes : Bytes), bucket.lookup item.key = some held →
    (bucket.put item.key bytes (sentConditionally remote item)).lookup item.key = some held

theorem neverReplaces_iff {remote : RemoteStore} {item : UploadQueueItem} :
    NeverReplaces remote item ↔ sentConditionally remote item = true := by
  constructor
  · intro h
    by_contra plain
    have replaced := h (Finmap.singleton item.key []) [] [0] (by simp)
    simp [Bucket.lookup_put, plain] at replaced
  · intro conditional bucket held bytes there
    rw [Bucket.lookup_put, conditional, there]
    rfl

theorem sentConditionally_iff {remote : RemoteStore} {item : UploadQueueItem}
    (plain : item.overwrite = false) :
    sentConditionally remote item = true ↔
      isContentAddressedRemoteKey item.key = true ∧ remote.conditionalPut = true := by
  cases remote <;> simp [sentConditionally, plain, RemoteStore.conditionalPut]

section Objects

variable (host : String) {localKey key : Key}

/-- Under the label of a host a content key is recognised, an object sent with a conditional put
and a stored object safe from replacement exactly if the label hides no content directory and the
remote has conditional puts. -/
theorem hostRemoteKey_recognised_iff (object : startsWith localKey "objects/" = true)
    (named : key ∈ objectRemoteKeys localKey) :
    (isContentAddressedRemoteKey (hostRemoteKey host key) = isContentAddressedRemoteKey key ↔
      Recognised host key) ∧
    ∀ remote : RemoteStore, remote.isS3Like = true → ∀ item : UploadQueueItem,
      item.key = hostRemoteKey host key → item.overwrite = false →
        (sentConditionally remote item = true ↔
          Recognised host key ∧ remote.conditionalPut = true) ∧
        (NeverReplaces remote item ↔ Recognised host key ∧ remote.conditionalPut = true) := by
  have content := objectRemoteKeys_isContentAddressed object named
  have law := isContentAddressed_hostRemoteKey host content
  refine ⟨by rw [content, law], ?_⟩
  intro remote _ item keyed plain
  have sent : sentConditionally remote item = true ↔
      Recognised host key ∧ remote.conditionalPut = true := by
    rw [sentConditionally_iff plain, keyed, law]
  exact ⟨sent, neverReplaces_iff.trans sent⟩

end Objects

namespace Fixture

/-- The queued upload of a tree of host `alpha`. -/
def treeItem : UploadQueueItem where
  id := "upload-0"
  key := "alpha/trees/00.cbor.zst.enc"
  source := some "objects/trees/00"
  inlined := none
  createdAt := 0
  attempts := 0
  retryAfter := none
  overwrite := false

end Fixture

open Fixture in
/-- The canonical alias of a tree under the label `alpha` is an ordinary key to the classifier,
and its upload replaces the stored object. -/
theorem hostRemoteKey_hides_content :
    "trees/00.cbor.zst.enc" ∈ objectRemoteKeys "objects/trees/00" ∧
      treeItem.key = hostRemoteKey "alpha" "trees/00.cbor.zst.enc" ∧
      isContentAddressedRemoteKey "trees/00.cbor.zst.enc" = true ∧
      isContentAddressedRemoteKey treeItem.key = false ∧
      sentConditionally (.s3 false) treeItem = false ∧
      sentConditionally .masterProxy treeItem = false ∧
      (Bucket.put (Finmap.singleton treeItem.key [1]) treeItem.key [2]
        (sentConditionally (.s3 false) treeItem)).lookup treeItem.key = some [2] := by
  decide +kernel

open Fixture in
/-- A label that begins like a content directory hides nothing. -/
theorem hostRemoteKey_recognised_packs :
    Recognised "packs" "trees/00.cbor.zst.enc" ∧
      isContentAddressedRemoteKey (hostRemoteKey "packs" "trees/00.cbor.zst.enc") = true ∧
      NeverReplaces (.s3 false) { treeItem with key := "packs/trees/00.cbor.zst.enc" } := by
  have label : Recognised "packs" "trees/00.cbor.zst.enc" := by decide +kernel
  have object : startsWith "objects/trees/00" "objects/" = true := by decide +kernel
  have named : "trees/00.cbor.zst.enc" ∈ objectRemoteKeys "objects/trees/00" := by decide +kernel
  have laws := hostRemoteKey_recognised_iff "packs" object named
  have content : isContentAddressedRemoteKey "trees/00.cbor.zst.enc" = true := by decide +kernel
  exact ⟨label, (laws.1.mpr label).trans content,
    (laws.2 (.s3 false) rfl _ (by decide +kernel) rfl).2.mpr ⟨label, rfl⟩⟩

end Majutsu.Upload
