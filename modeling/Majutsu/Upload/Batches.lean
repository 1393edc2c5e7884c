import Majutsu.Cluster.Requests
import Majutsu.Lib.Batching
import Majutsu.Upload.Queue

/-!
# Batches for the cluster master

A slave sends its upload queue to the master in batches. Three parties set the
limits: the environment of the slave, the capabilities that the master derives
from its own environment, and the checks of the master itself. The frame that
crosses the wire is the CBOR text of the request, in which a payload is an
array of numbers, so that a byte of 24 or more takes two bytes. A batch that is
refused stops the drain, and the next drain forms the same batches again.
-/

namespace Majutsu.Upload

open Cluster

/-- An item of the queue with its payload in memory. The file of an item is named after its key,
so that a queue holds one item for a key. -/
structure Loaded where
  item : UploadQueueItem
  bytes : Bytes
  deriving DecidableEq

def Loaded.putItem (x : Loaded) : ClusterPutItem where
  key := x.item.key
  bytes := x.bytes
  conditional := sentConditionally .masterProxy x.item

/-- The order in which the items are sent: by priority, then by key. -/
def sendsBefore (a b : Key) : Prop :=
  uploadPublishPriority a < uploadPublishPriority b ∨
    (uploadPublishPriority a = uploadPublishPriority b ∧ a ≤ b)

instance : DecidableRel sendsBefore := fun _ _ => inferInstanceAs (Decidable (_ ∨ _))

section Limits

/-- A number from the environment, ignored if it is too small. -/
def setting (value : Option Nat) (least otherwise : Nat) : Nat :=
  (value.filter (least ≤ ·)).getD otherwise

/-- `MAJUTSU_CLUSTER_MAX_FRAME_BYTES` and `MAJUTSU_CLUSTER_MAX_INFLIGHT_FRAME_BYTES`. -/
structure MasterEnvironment where
  maxFrameBytes : Option Nat
  maxInflightFrameBytes : Option Nat

/-- `MAJUTSU_CLUSTER_BATCH_MAX_OBJECTS`, `MAJUTSU_CLUSTER_BATCH_MAX_BYTES` and the frame limit of
the slave itself, `MAJUTSU_CLUSTER_MAX_FRAME_BYTES`. -/
structure SlaveEnvironment where
  batchMaxObjects : Option Nat
  batchMaxBytes : Option Nat
  maxFrameBytes : Option Nat

def mebibyte : Nat := 1024 * 1024

/-- `cluster_max_frame_bytes`, which either side reads from its own environment. -/
def clusterMaxFrameBytes (maxFrameBytes : Option Nat) : Nat :=
  setting maxFrameBytes mebibyte (512 * mebibyte)

def MasterEnvironment.clusterMaxFrameBytes (env : MasterEnvironment) : Nat :=
  Upload.clusterMaxFrameBytes env.maxFrameBytes

def MasterEnvironment.clusterMaxInflightFrameBytes (env : MasterEnvironment) : Nat :=
  setting env.maxInflightFrameBytes mebibyte (512 * mebibyte)

structure ClusterCapabilities where
  maxRequestFrameBytes : Nat
  maxResponseFrameBytes : Nat
  maxBatchObjects : Nat
  maxBatchPayloadBytes : Nat
  deriving DecidableEq

def advertisedClusterCapabilities (env : MasterEnvironment) : ClusterCapabilities where
  maxRequestFrameBytes := min env.clusterMaxFrameBytes env.clusterMaxInflightFrameBytes
  maxResponseFrameBytes := env.clusterMaxFrameBytes
  maxBatchObjects := Cluster.maxBatchObjects
  maxBatchPayloadBytes := min Cluster.maxBatchBytes (env.clusterMaxFrameBytes - 64 * 1024)

structure BatchLimits where
  maxObjects : Nat
  maxBytes : Nat

/-- The limits that `drain_upload_queue_via_master` works with. -/
def batchLimits (env : SlaveEnvironment) (capabilities : ClusterCapabilities) : BatchLimits where
  maxObjects := min (setting env.batchMaxObjects 1 128) capabilities.maxBatchObjects
  maxBytes := min (setting env.batchMaxBytes mebibyte (64 * mebibyte))
    capabilities.maxBatchPayloadBytes

theorem le_setting (value : Option Nat) {least otherwise : Nat} (h : least ≤ otherwise) :
    least ≤ setting value least otherwise := by
  unfold setting
  cases kept : value.filter (least ≤ ·) with
  | none => exact h
  | some n => simpa using (Option.filter_eq_some_iff.mp kept).2

end Limits

section Batches

def payloadBytes (batch : List Loaded) : Nat := (batch.map (fun x => x.bytes.length)).sum

/-- The test before an item joins the open batch. The sums stay far below the bound at which
`saturating_add` would matter. -/
def BatchLimits.full (limits : BatchLimits) (batch : List Loaded) (x : Loaded) : Bool :=
  decide (limits.maxObjects ≤ batch.length) ||
    decide (limits.maxBytes < payloadBytes batch + x.bytes.length)

def sendOrder (queue : List Loaded) : List Loaded :=
  queue.insertionSort (fun a b => sendsBefore a.item.key b.item.key)

/-- The batches that one drain of a queue sends when every request succeeds. -/
def sentBatches (limits : BatchLimits) (queue : List Loaded) : List (List Loaded) :=
  Batching.split limits.full [] (sendOrder queue)

@[simp] theorem payloadBytes_append (batch more : List Loaded) :
    payloadBytes (batch ++ more) = payloadBytes batch + payloadBytes more := by
  simp [payloadBytes]

@[simp] theorem payloadBytes_singleton (x : Loaded) : payloadBytes [x] = x.bytes.length := by
  simp [payloadBytes]

theorem payloadBytes_perm {a b : List Loaded} (h : a.Perm b) : payloadBytes a = payloadBytes b :=
  (h.map _).sum_eq

theorem sendOrder_perm (queue : List Loaded) : (sendOrder queue).Perm queue :=
  List.perm_insertionSort _ _

/-- The items that the limits allow to travel together. -/
structure BatchLimits.Groups (limits : BatchLimits) (group : List Loaded) : Prop where
  nonempty : group ≠ []
  objects : group.length ≤ limits.maxObjects
  bytes : payloadBytes group ≤ limits.maxBytes ∨ group.length = 1

variable {limits : BatchLimits}

theorem sentBatches_groups (room : 0 < limits.maxObjects) (queue : List Loaded) :
    ∀ batch ∈ sentBatches limits queue, limits.Groups batch := by
  apply Batching.all_split
  · exact fun x _ => ⟨by simp, room, Or.inr rfl⟩
  · intro batch x _ _ notFull
    simp only [BatchLimits.full, Bool.or_eq_false_iff, decide_eq_false_iff_not, not_le, not_lt]
      at notFull
    exact ⟨by simp, by simp; omega, Or.inl (by simpa using notFull.2)⟩
  · simp

theorem mem_flatten_sentBatches (queue : List Loaded) (x : Loaded) :
    x ∈ (sentBatches limits queue).flatten ↔ x ∈ queue := by
  rw [sentBatches, Batching.flatten_split, List.nil_append]
  exact (sendOrder_perm queue).mem_iff

theorem sentBatches_of_groups {queue : List Loaded} (h : limits.Groups queue) :
    sentBatches limits queue = [sendOrder queue] := by
  have same := sendOrder_perm queue
  refine Batching.split_of_room ?_ ?_
  · intro nil
    rw [List.nil_append] at nil
    exact h.nonempty (nil ▸ same).nil_eq.symm
  · intro before x after cut opened
    have size := same.length_eq
    have weight := payloadBytes_perm same
    have objects := h.objects
    have opened := List.length_pos_of_ne_nil opened
    simp only [cut, payloadBytes_append, List.length_append, List.length_cons, List.nil_append,
      List.append_cons before x after, payloadBytes_singleton] at size weight opened
    simp only [BatchLimits.full, List.nil_append, Bool.or_eq_false_iff, decide_eq_false_iff_not,
      not_le, not_lt]
    rcases h.bytes with bytes | alone
    · omega
    · omega

end Batches

section Frames

/-- The first bytes of a CBOR item: its kind together with a number. -/
def headBytes (n : Nat) : Nat :=
  if n < 24 then 1
  else if n < 2 ^ 8 then 2
  else if n < 2 ^ 16 then 3
  else if n < 2 ^ 32 then 5
  else 9

def textBytes (text : String) : Nat := headBytes text.utf8ByteSize + text.utf8ByteSize

/-- A `Vec<u8>` is written as an array of numbers. -/
def arrayBytes (bytes : Bytes) : Nat :=
  headBytes bytes.length + (bytes.map (fun b => headBytes b.toNat)).sum

def putItemBytes (item : ClusterPutItem) : Nat :=
  headBytes 3 + textBytes "key" + textBytes item.key + textBytes "bytes" + arrayBytes item.bytes +
    textBytes "conditional" + 1

def clusterProtocolVersion : Nat := 2

/-- The length of the encoded `ClusterRequestFrame` of a `BatchPut`. -/
def requestFrameBytes (token hostId : String) (items : List ClusterPutItem) : Nat :=
  headBytes 4 + textBytes "protocol_version" + headBytes clusterProtocolVersion +
    textBytes "token" + textBytes token + textBytes "host_id" + textBytes hostId +
    textBytes "operation" + headBytes 1 + textBytes "BatchPut" + headBytes 1 + textBytes "items" +
    headBytes items.length + (items.map putItemBytes).sum

/-- The part of a frame that does not depend on the items. -/
def frameHead (token hostId : String) : Nat := 60 + textBytes token + textBytes hostId

/-- An item with a key of `k` bytes, without its payload. -/
def itemHead (k : Nat) : Nat := 24 + headBytes k + k

/-- The frame of items with keys of `k` bytes each, whose payloads have the given lengths and
hold no byte below 24. -/
def fullFrame (token hostId : String) (k : Nat) (lengths : List Nat) : Nat :=
  frameHead token hostId + headBytes lengths.length + lengths.length * itemHead k +
    (lengths.map headBytes).sum + 2 * lengths.sum

theorem headBytes_mono {m n : Nat} (h : m ≤ n) : headBytes m ≤ headBytes n := by
  unfold headBytes
  repeat' split
  all_goals omega

theorem itemHead_mono {m n : Nat} (h : m ≤ n) : itemHead m ≤ itemHead n := by
  have := headBytes_mono h
  unfold itemHead
  omega

theorem putItemBytes_eq (item : ClusterPutItem) :
    putItemBytes item = itemHead item.key.utf8ByteSize + headBytes item.bytes.length +
      (item.bytes.map (fun b => headBytes b.toNat)).sum := by
  have fixed :
      headBytes 3 + textBytes "key" + textBytes "bytes" + textBytes "conditional" = 23 := by
    decide +kernel
  unfold putItemBytes itemHead arrayBytes
  rw [textBytes.eq_1 item.key]
  omega

theorem requestFrameBytes_eq (token hostId : String) (items : List ClusterPutItem) :
    requestFrameBytes token hostId items =
      frameHead token hostId + headBytes items.length + (items.map putItemBytes).sum := by
  have fixed : headBytes 4 + textBytes "protocol_version" + headBytes clusterProtocolVersion +
      textBytes "token" + textBytes "host_id" + textBytes "operation" + headBytes 1 +
      textBytes "BatchPut" + headBytes 1 + textBytes "items" = 60 := by
    decide +kernel
  unfold requestFrameBytes frameHead
  omega

theorem requestFrameBytes_perm {token hostId : String} {a b : List ClusterPutItem} (h : a.Perm b) :
    requestFrameBytes token hostId a = requestFrameBytes token hostId b := by
  unfold requestFrameBytes
  rw [h.length_eq, (h.map putItemBytes).sum_eq]

theorem sum_headBytes_le (bytes : Bytes) :
    (bytes.map (fun b => headBytes b.toNat)).sum ≤ 2 * bytes.length := by
  induction bytes with
  | nil => simp
  | cons b rest ih =>
    have small : headBytes b.toNat ≤ headBytes 255 := headBytes_mono (by have := b.toNat_lt; omega)
    have two : headBytes 255 = 2 := rfl
    simp only [List.map_cons, List.sum_cons, List.length_cons]
    omega

theorem fullFrame_eq (token hostId : String) (k : Nat) (batch : List Loaded) :
    fullFrame token hostId k (batch.map (fun x => x.bytes.length)) =
      frameHead token hostId + headBytes batch.length + (batch.map (fun x =>
        itemHead k + headBytes x.bytes.length + 2 * x.bytes.length)).sum := by
  rw [fullFrame, List.length_map, Nat.add_assoc, Nat.add_assoc]
  refine congrArg (Nat.add _) ?_
  induction batch with
  | nil => simp
  | cons x rest ih =>
    simp only [List.map_cons, List.sum_cons, List.length_cons, Nat.succ_mul] at ih ⊢
    omega

theorem requestFrameBytes_le (token hostId : String) {k : Nat} {batch : List Loaded}
    (short : ∀ x ∈ batch, x.item.key.utf8ByteSize ≤ k) :
    requestFrameBytes token hostId (batch.map Loaded.putItem) ≤
      fullFrame token hostId k (batch.map (fun x => x.bytes.length)) := by
  rw [requestFrameBytes_eq, fullFrame_eq, List.length_map, List.map_map]
  refine Nat.add_le_add_left (List.sum_le_sum fun x member => ?_) _
  have key := itemHead_mono (short x member)
  have body := sum_headBytes_le x.bytes
  simp only [Function.comp_apply, putItemBytes_eq, Loaded.putItem]
  omega

/-- Items with keys of `k` bytes and nothing but large bytes in their payloads. -/
theorem requestFrameBytes_full (token hostId : String) {k : Nat} {batch : List Loaded}
    (long : ∀ x ∈ batch, x.item.key.utf8ByteSize = k)
    (large : ∀ x ∈ batch, x.bytes = List.replicate x.bytes.length 255) :
    requestFrameBytes token hostId (batch.map Loaded.putItem) =
      fullFrame token hostId k (batch.map (fun x => x.bytes.length)) := by
  rw [requestFrameBytes_eq, fullFrame_eq, List.length_map, List.map_map]
  refine congrArg (_ + List.sum ·) (List.map_congr_left fun x member => ?_)
  have body : (x.bytes.map (fun b => headBytes b.toNat)).sum = 2 * x.bytes.length := by
    rw [large x member, List.map_replicate, List.sum_replicate_nat, List.length_replicate]
    exact Nat.mul_comm _ _
  simp only [Function.comp_apply, putItemBytes_eq, Loaded.putItem, long x member, body]

end Frames

section Heads

/-!
A payload of 24, 256 or 65536 bytes begins with one, two or four bytes more
than a shorter one. How many payloads can be that long is limited by their
number and by their total length.
-/

/-- Some of at most `objects` payloads of at most `longest` bytes each and `total` bytes together:
`a` have 24 bytes or more, `b` of these 256 or more, and `c` of these 65536 or more. -/
structure Lengthy (longest objects total a b c : Nat) : Prop where
  objects : a ≤ objects
  first : b ≤ a
  second : c ≤ b
  total : 24 * a + 232 * b + 65280 * c ≤ total
  small : 0 < a → 24 ≤ longest
  middle : 0 < b → 256 ≤ longest
  large : 0 < c → 65536 ≤ longest

def most24 (longest objects total : Nat) : Nat :=
  if 24 ≤ longest then min objects (total / 24) else 0

def most256 (longest total a : Nat) : Nat :=
  if 256 ≤ longest then min a ((total - 24 * a) / 232) else 0

def most65536 (longest total a b : Nat) : Nat :=
  if 65536 ≤ longest then min b ((total - 24 * a - 232 * b) / 65280) else 0

/-- The most bytes that the lengths of at most `objects` payloads take in a frame, beyond one byte
each. As many as possible have 24 bytes. With one payload less of 256 bytes there may be room for
one more of 65536, which gains two bytes. -/
def lengthBytes (longest objects total : Nat) : Nat :=
  let a := most24 longest objects total
  let b := most256 longest total a
  a + max (b + 2 * most65536 longest total a b) (b - 1 + 2 * most65536 longest total a (b - 1))

variable {longest objects total a b c : Nat}

theorem Lengthy.le_lengthBytes (h : Lengthy longest objects total a b c) :
    a + b + 2 * c ≤ lengthBytes longest objects total := by
  obtain ⟨h₁, h₂, h₃, h₄, h₅, h₆, h₇⟩ := h
  unfold lengthBytes most24 most256 most65536
  by_cases small : 24 ≤ longest
  · by_cases middle : 256 ≤ longest
    · by_cases large : 65536 ≤ longest
      · simp only [small, middle, large, if_true]
        omega
      · simp only [small, middle, large, if_true, if_false]
        omega
    · have : ¬ 65536 ≤ longest := by omega
      simp only [small, middle, this, if_true, if_false]
      omega
  · have : a = 0 := by omega
    omega

theorem lengthy_most (few : b ≤ most256 longest total (most24 longest objects total)) :
    Lengthy longest objects total (most24 longest objects total) b
      (most65536 longest total (most24 longest objects total) b) := by
  generalize all : most24 longest objects total = a at few ⊢
  generalize rest : most65536 longest total a b = c
  unfold most24 at all
  unfold most256 at few
  unfold most65536 at rest
  split at all <;> split at few <;> split at rest <;> constructor <;> omega

theorem exists_lengthy (longest objects total : Nat) :
    ∃ a b c, Lengthy longest objects total a b c ∧
      a + b + 2 * c = lengthBytes longest objects total := by
  unfold lengthBytes
  rcases max_choice
    (most256 longest total (most24 longest objects total) + 2 * most65536 longest total _ _)
    (most256 longest total (most24 longest objects total) - 1 + 2 * most65536 longest total _ _)
    with most | most
  · exact ⟨_, _, _, lengthy_most le_rfl, (Nat.add_assoc _ _ _).trans (congrArg _ most.symm)⟩
  · exact ⟨_, _, _, lengthy_most (Nat.sub_le _ 1),
      (Nat.add_assoc _ _ _).trans (congrArg _ most.symm)⟩

/-- What the lengths of a list of payloads take. -/
theorem exists_lengthy_of_lengths {lengths : List Nat} (short : ∀ n ∈ lengths, n ≤ longest)
    (bounded : longest < 2 ^ 32) :
    ∃ a b c, Lengthy longest lengths.length lengths.sum a b c ∧
      (lengths.map headBytes).sum = lengths.length + a + b + 2 * c := by
  induction lengths with
  | nil => exact ⟨0, 0, 0, by constructor <;> simp, rfl⟩
  | cons n rest ih =>
    have own := short n (List.mem_cons_self ..)
    obtain ⟨a, b, c, ⟨h₁, h₂, h₃, h₄, h₅, h₆, h₇⟩, heads⟩ :=
      ih (fun m hm => short m (List.mem_cons_of_mem _ hm))
    simp only [List.map_cons, List.sum_cons, List.length_cons, heads]
    by_cases small : n < 24
    · exact ⟨a, b, c, by constructor <;> omega, by simp only [headBytes, small, if_true]; omega⟩
    by_cases middle : n < 2 ^ 8
    · exact ⟨a + 1, b, c, by constructor <;> omega, by
        simp only [headBytes, small, middle, if_true, if_false]; omega⟩
    by_cases large : n < 2 ^ 16
    · exact ⟨a + 1, b + 1, c, by constructor <;> omega, by
        simp only [headBytes, small, middle, large, if_true, if_false]; omega⟩
    · have limited : n < 2 ^ 32 := by omega
      exact ⟨a + 1, b + 1, c + 1, by constructor <;> omega, by
        simp only [headBytes, small, middle, large, limited, if_true, if_false]; omega⟩

/-- Payloads can be made longer, up to a total and none beyond `longest`. -/
theorem exists_filled {lengths : List Nat} (short : ∀ n ∈ lengths, n ≤ longest)
    (least : lengths.sum ≤ total) (room : total ≤ lengths.length * longest) :
    ∃ filled : List Nat, filled.length = lengths.length ∧ filled.sum = total ∧
      (∀ n ∈ filled, n ≤ longest) ∧
      (lengths.map headBytes).sum ≤ (filled.map headBytes).sum := by
  induction lengths generalizing total with
  | nil =>
    simp only [List.sum_nil, List.length_nil, Nat.zero_mul] at least room
    exact ⟨[], rfl, by simp; omega, by simp, le_rfl⟩
  | cons n rest ih =>
    have own := short n (List.mem_cons_self ..)
    have others := fun m hm => short m (List.mem_cons_of_mem n hm)
    have most : rest.sum ≤ rest.length * longest := by
      simpa using List.sum_le_card_nsmul rest longest others
    simp only [List.sum_cons, List.length_cons, Nat.succ_mul] at least room
    -- the first payload takes all that it can
    have left : rest.sum ≤ total - min longest (total - rest.sum) := by omega
    obtain ⟨filled, length, sum, within, heads⟩ := ih others left (by omega)
    refine ⟨min longest (total - rest.sum) :: filled, by simp [length], ?_, ?_, ?_⟩
    · rw [List.sum_cons, sum]
      omega
    · simpa using within
    · have : headBytes n ≤ headBytes (min longest (total - rest.sum)) :=
        headBytes_mono (by omega)
      simp only [List.map_cons, List.sum_cons]
      omega

theorem Lengthy.exists_lengths (h : Lengthy longest objects total a b c)
    (room : total ≤ objects * longest) :
    ∃ lengths : List Nat, lengths.length = objects ∧ lengths.sum = total ∧
      (∀ n ∈ lengths, n ≤ longest) ∧ objects + a + b + 2 * c ≤ (lengths.map headBytes).sum := by
  obtain ⟨h₁, h₂, h₃, h₄, h₅, h₆, h₇⟩ := h
  let least := List.replicate c (2 ^ 16) ++ List.replicate (b - c) (2 ^ 8) ++
    List.replicate (a - b) 24 ++ List.replicate (objects - a) 0
  have length : least.length = objects := by
    simp only [least, List.length_append, List.length_replicate]
    omega
  have sum : least.sum ≤ total := by
    simp only [least, List.sum_append, List.sum_replicate_nat]
    omega
  have short : ∀ n ∈ least, n ≤ longest := by
    intro n hn
    simp only [least, List.mem_append, List.mem_replicate] at hn
    omega
  have heads : (least.map headBytes).sum = objects + a + b + 2 * c := by
    have : headBytes (2 ^ 16) = 5 ∧ headBytes (2 ^ 8) = 3 ∧ headBytes 24 = 2 ∧ headBytes 0 = 1 := by
      decide
    simp only [least, List.map_append, List.sum_append, List.map_replicate, List.sum_replicate_nat,
      this]
    omega
  obtain ⟨filled, same, whole, within, most⟩ := exists_filled short sum (length.symm ▸ room)
  exact ⟨filled, same.trans length, whole, within, heads ▸ most⟩

end Heads

section Acceptance

/-- What stands between a batch and the master: the length that `write_frame` of the slave allows,
the length of the frame that the master takes, and the two checks of `dispatch_operation`. -/
structure Acceptable (slave : SlaveEnvironment) (master : MasterEnvironment)
    (token hostId : String) (batch : List Loaded) : Prop where
  written : requestFrameBytes token hostId (batch.map Loaded.putItem) ≤
    min (clusterMaxFrameBytes slave.maxFrameBytes) (2 ^ 32 - 1)
  frame : requestFrameBytes token hostId (batch.map Loaded.putItem) ≤
    (advertisedClusterCapabilities master).maxRequestFrameBytes
  objects : batch.length ≤ Cluster.maxBatchObjects
  payload : payloadBytes batch ≤ Cluster.maxBatchBytes

variable (slave : SlaveEnvironment) (master : MasterEnvironment) (token hostId : String)

instance (batch : List Loaded) : Decidable (Acceptable slave master token hostId batch) :=
  decidable_of_iff (_ ∧ _ ∧ _ ∧ _)
    ⟨fun h => ⟨h.1, h.2.1, h.2.2.1, h.2.2.2⟩, fun h => ⟨h.1, h.2, h.3, h.4⟩⟩

def Loaded.recordAttempt (retryAfter : Nat) (x : Loaded) : Loaded :=
  { x with item := { x.item with attempts := x.item.attempts + 1, retryAfter := some retryAfter } }

/-- The items that stay in the queue when the batches are sent one after the other. The items of
a refused batch are written back, and the later ones are not sent. -/
def leftInQueue (retryAfter : Nat) : List (List Loaded) → List Loaded
  | [] => []
  | batch :: later =>
    if Acceptable slave master token hostId batch then leftInQueue retryAfter later
    else batch.map (Loaded.recordAttempt retryAfter) ++ later.flatten

/-- The queue after a drain through a master that stores all that it accepts. -/
def drainUploadQueueViaMaster (retryAfter : Nat) (queue : List Loaded) : List Loaded :=
  leftInQueue slave master token hostId retryAfter
    (sentBatches (batchLimits slave (advertisedClusterCapabilities master)) queue)

variable {slave master token hostId}

theorem leftInQueue_eq_nil (retryAfter : Nat) {batches : List (List Loaded)}
    (accepted : ∀ batch ∈ batches, Acceptable slave master token hostId batch) :
    leftInQueue slave master token hostId retryAfter batches = [] := by
  induction batches with
  | nil => rfl
  | cons batch later ih =>
    rw [leftInQueue, if_pos (accepted batch (List.mem_cons_self ..))]
    exact ih (fun other h => accepted other (List.mem_cons_of_mem _ h))

/-- An object whose payload no batch can carry. -/
def Refused (slave : SlaveEnvironment) (master : MasterEnvironment) (token hostId : String)
    (bytes : Bytes) : Prop :=
  ∀ batch : List Loaded, (∃ x ∈ batch, x.bytes = bytes) →
    ¬ Acceptable slave master token hostId batch

/-- The object is waiting to be sent. -/
def Queued (key : Key) (bytes : Bytes) (queue : List Loaded) : Prop :=
  ∃ x ∈ queue, x.item.key = key ∧ x.bytes = bytes

theorem Refused.queued_left {key : Key} {bytes : Bytes} {batches : List (List Loaded)}
    (refused : Refused slave master token hostId bytes) (retryAfter : Nat)
    (queued : Queued key bytes batches.flatten) :
    Queued key bytes (leftInQueue slave master token hostId retryAfter batches) := by
  induction batches with
  | nil => exact queued
  | cons batch later ih =>
    obtain ⟨x, mem, named, holds⟩ := queued
    rw [leftInQueue]
    rcases List.mem_append.mp (List.flatten_cons ▸ mem) with mem | mem
    · rw [if_neg (refused batch ⟨x, mem, holds⟩)]
      exact ⟨x.recordAttempt retryAfter,
        List.mem_append_left _ (List.mem_map_of_mem mem), named, holds⟩
    · split
      · exact ih ⟨x, mem, named, holds⟩
      · exact ⟨x, List.mem_append_right _ mem, named, holds⟩

/-- However often the queue is drained, the object stays in it. -/
theorem Refused.queued_forever {key : Key} {bytes : Bytes} {queue : List Loaded}
    (refused : Refused slave master token hostId bytes) (queued : Queued key bytes queue)
    (times : List Nat) :
    Queued key bytes (times.foldl (fun queue time =>
      drainUploadQueueViaMaster slave master token hostId time queue) queue) := by
  induction times generalizing queue with
  | nil => exact queued
  | cons time later ih =>
    obtain ⟨x, mem, same⟩ := queued
    exact ih (refused.queued_left time ⟨x, (mem_flatten_sentBatches queue x).mpr mem, same⟩)

variable (slave master token hostId)

/-- The items that are enqueued: their keys are of some kind and no payload is longer than
`longest`. -/
structure Sized (keys : Key → Prop) (longest : Nat) (x : Loaded) : Prop where
  key : keys x.item.key
  bytes : x.bytes.length ≤ longest

/-- The keys have at most `k` bytes, and there are enough of that length to fill a batch. -/
structure LongestKeys (keys : Key → Prop) (k : Nat) : Prop where
  short : ∀ key, keys key → key.utf8ByteSize ≤ k
  plenty : ∃ long : List Key, long.Nodup ∧ long.length = Cluster.maxBatchObjects ∧
    ∀ key ∈ long, keys key ∧ key.utf8ByteSize = k

/-- Whatever queue of such items is drained, every batch is accepted and no item stays. -/
def DrainsAccepted (keys : Key → Prop) (longest : Nat) : Prop :=
  ∀ queue : List Loaded, (∀ x ∈ queue, Sized keys longest x) →
    (queue.map (fun x => x.item.key)).Nodup →
      (∀ batch ∈ sentBatches (batchLimits slave (advertisedClusterCapabilities master)) queue,
        Acceptable slave master token hostId batch) ∧
      ∀ retryAfter, drainUploadQueueViaMaster slave master token hostId retryAfter queue = []

/-- The shortest of the frames that the four limits allow. -/
def frameLimit : Nat :=
  min (min (setting slave.maxFrameBytes mebibyte (512 * mebibyte)) (2 ^ 32 - 1))
    (min (setting master.maxFrameBytes mebibyte (512 * mebibyte))
      (setting master.maxInflightFrameBytes mebibyte (512 * mebibyte)))

def objectLimit : Nat := min (setting slave.batchMaxObjects 1 128) 1024

def byteLimit : Nat :=
  min (setting slave.batchMaxBytes mebibyte (64 * mebibyte))
    (min (64 * mebibyte) (setting master.maxFrameBytes mebibyte (512 * mebibyte) - 64 * 1024))

/-- The longest payload is within 64 MiB, and two frames are within the limit: that of the longest
payload alone, and that of as many items and bytes as a batch may have. -/
structure LimitsAgree (longest k : Nat) : Prop where
  payload : longest ≤ 64 * mebibyte
  alone : frameHead token hostId + 1 + itemHead k + headBytes longest + 2 * longest ≤
    frameLimit slave master
  together : ∀ objects total, objects = objectLimit slave →
    total = min (byteLimit slave master) (objects * longest) →
      frameHead token hostId + headBytes objects + objects * (itemHead k + 1) + 2 * total +
        lengthBytes longest objects total ≤ frameLimit slave master

variable {slave master token hostId}

theorem acceptable_iff {batch : List Loaded} : Acceptable slave master token hostId batch ↔
    requestFrameBytes token hostId (batch.map Loaded.putItem) ≤ frameLimit slave master ∧
      batch.length ≤ Cluster.maxBatchObjects ∧ payloadBytes batch ≤ Cluster.maxBatchBytes := by
  unfold frameLimit
  rw [le_min_iff]
  exact ⟨fun h => ⟨⟨h.written, h.frame⟩, h.objects, h.payload⟩,
    fun h => ⟨h.1.1, h.1.2, h.2.1, h.2.2⟩⟩

theorem objectLimit_pos : 0 < objectLimit slave := by
  have := le_setting slave.batchMaxObjects (show 1 ≤ 128 by omega)
  unfold objectLimit
  omega

/-- The items with the given keys and payloads of the given lengths, all of whose bytes are
large. -/
def largeItems (keys : List Key) (lengths : List Nat) : List Loaded :=
  (keys.zip lengths).map fun p =>
    ⟨{ id := "", key := p.1, source := none, inlined := none, createdAt := 0, attempts := 0
       retryAfter := none, overwrite := false }, List.replicate p.2 255⟩

variable {keys : Key → Prop} {longest k : Nat}

theorem largeItems_keys {names : List Key} {lengths : List Nat}
    (enough : names.length = lengths.length) :
    (largeItems names lengths).map (fun x => x.item.key) = names := by
  simp only [largeItems, List.map_map, Function.comp_def]
  exact List.map_fst_zip enough.le

theorem largeItems_lengths {names : List Key} {lengths : List Nat}
    (enough : names.length = lengths.length) :
    (largeItems names lengths).map (fun x => x.bytes.length) = lengths := by
  simp only [largeItems, List.map_map, Function.comp_def, List.length_replicate]
  exact List.map_snd_zip enough.ge

/-- The frame of the longest items of given lengths has to fit if they travel together. -/
theorem DrainsAccepted.fullFrame_le
    (accepted : DrainsAccepted slave master token hostId keys longest)
    (named : LongestKeys keys k) {lengths : List Nat} (short : ∀ n ∈ lengths, n ≤ longest)
    (some : lengths ≠ []) (few : lengths.length ≤ objectLimit slave)
    (light : lengths.sum ≤ byteLimit slave master ∨ lengths.length = 1) :
    fullFrame token hostId k lengths ≤ frameLimit slave master ∧
      lengths.sum ≤ Cluster.maxBatchBytes := by
  obtain ⟨long, distinct, count, listed⟩ := named.plenty
  have enough : (long.take lengths.length).length = lengths.length := by
    have : objectLimit slave ≤ 1024 := Nat.min_le_right _ _
    rw [List.length_take, count, Cluster.maxBatchObjects]
    omega
  set queue := largeItems (long.take lengths.length) lengths with made
  have names := largeItems_keys enough
  have sizes := largeItems_lengths enough
  rw [← made] at names sizes
  have key : ∀ x ∈ queue, keys x.item.key ∧ x.item.key.utf8ByteSize = k := by
    intro x hx
    have taken : x.item.key ∈ long.take lengths.length := names ▸ List.mem_map_of_mem hx
    exact listed _ (List.mem_of_mem_take taken)
  have size : queue.length = lengths.length := by rw [← sizes, List.length_map]
  have whole : payloadBytes queue = lengths.sum := congrArg List.sum sizes
  have groups : (batchLimits slave (advertisedClusterCapabilities master)).Groups queue := by
    refine ⟨fun none => some ?_, size ▸ few, ?_⟩
    · rw [← sizes, none, List.map_nil]
    · rw [whole, size]
      exact light
  obtain ⟨batches, -⟩ := accepted queue
    (fun x hx => ⟨(key x hx).1, short _ (sizes ▸ List.mem_map_of_mem hx)⟩)
    (names ▸ distinct.sublist (List.take_sublist _ _))
  have fits := acceptable_iff.mp
    (batches (sendOrder queue) (by simp [sentBatches_of_groups groups]))
  rw [requestFrameBytes_perm ((sendOrder_perm queue).map Loaded.putItem),
    payloadBytes_perm (sendOrder_perm queue), whole,
    requestFrameBytes_full token hostId (fun x hx => (key x hx).2) ?_, sizes] at fits
  · exact ⟨fits.1, fits.2.2⟩
  · intro x hx
    obtain ⟨p, -, rfl⟩ := List.mem_map.mp (made ▸ hx)
    simp

/-- A batch that the limits of the slave put together fits the frame. -/
theorem LimitsAgree.fullFrame_le (agree : LimitsAgree slave master token hostId longest k)
    {lengths : List Nat} (short : ∀ n ∈ lengths, n ≤ longest)
    (few : lengths.length ≤ objectLimit slave)
    (light : lengths.sum ≤ byteLimit slave master ∨ lengths.length = 1) :
    fullFrame token hostId k lengths ≤ frameLimit slave master := by
  rcases light with light | alone
  · have bounded : longest < 2 ^ 32 := agree.payload.trans_lt (by decide)
    obtain ⟨a, b, c, lengthy, heads⟩ := exists_lengthy_of_lengths short bounded
    have most : lengths.sum ≤ objectLimit slave * longest := by
      refine le_trans ?_ (Nat.mul_le_mul_right longest few)
      simpa using List.sum_le_card_nsmul lengths longest short
    have fits := agree.together _ _ rfl rfl
    have count := headBytes_mono few
    have items := Nat.mul_le_mul_right (itemHead k + 1) few
    generalize total : min (byteLimit slave master) (objectLimit slave * longest) = most at fits
    have more : Lengthy longest (objectLimit slave) most a b c :=
      ⟨lengthy.objects.trans few, lengthy.first, lengthy.second,
        lengthy.total.trans (by omega), lengthy.small, lengthy.middle, lengthy.large⟩
    have extra := more.le_lengthBytes
    rw [fullFrame, heads]
    rw [Nat.mul_add, Nat.mul_one] at items
    omega
  · obtain ⟨n, rfl⟩ := List.length_eq_one_iff.mp alone
    have own := short n (by simp)
    have head := headBytes_mono own
    have fits := agree.alone
    have one : headBytes 1 = 1 := rfl
    simp only [fullFrame, List.length_singleton, List.map_singleton, List.sum_singleton, one]
    omega

/-- Exactly if the limits agree, every queue of items with keys of at most `k` bytes and payloads
of at most `longest` bytes is sent in batches that are accepted, and is empty afterwards. -/
theorem drainsAccepted_iff (named : LongestKeys keys k) :
    DrainsAccepted slave master token hostId keys longest ↔
      LimitsAgree slave master token hostId longest k := by
  constructor
  · intro accepted
    have own : ∀ n ∈ [longest], n ≤ longest := by simp
    obtain ⟨frame, payload⟩ :=
      accepted.fullFrame_le named own (by simp) objectLimit_pos (Or.inr rfl)
    have one : headBytes 1 = 1 := rfl
    simp only [fullFrame, List.length_singleton, List.map_singleton, List.sum_singleton, one]
      at frame payload
    refine ⟨payload, by omega, ?_⟩
    rintro objects total rfl rfl
    obtain ⟨a, b, c, lengthy, most⟩ := exists_lengthy longest (objectLimit slave)
      (min (byteLimit slave master) (objectLimit slave * longest))
    obtain ⟨lengths, count, sum, short, heads⟩ := lengthy.exists_lengths (Nat.min_le_right _ _)
    have := accepted.fullFrame_le named short (List.ne_nil_of_length_pos (count ▸ objectLimit_pos))
      count.le (Or.inl (sum ▸ Nat.min_le_left _ _))
    have frame := this.1
    rw [fullFrame, count, sum] at frame
    rw [Nat.mul_add, Nat.mul_one]
    omega
  · intro agree queue sized _
    have accepted : ∀ batch ∈ sentBatches (batchLimits slave
        (advertisedClusterCapabilities master)) queue,
        Acceptable slave master token hostId batch := by
      intro batch sent
      have groups := sentBatches_groups objectLimit_pos queue batch sent
      have members : ∀ x ∈ batch, Sized keys longest x := fun x hx =>
        sized x ((mem_flatten_sentBatches queue x).mp (List.mem_flatten.mpr ⟨batch, sent, hx⟩))
      have short : ∀ n ∈ batch.map (fun x => x.bytes.length), n ≤ longest := by
        intro n hn
        obtain ⟨x, hx, rfl⟩ := List.mem_map.mp hn
        exact (members x hx).bytes
      have fits := agree.fullFrame_le short ((List.length_map _).trans_le groups.objects)
        (groups.bytes.imp_right (List.length_map _).trans)
      refine acceptable_iff.mpr ⟨(requestFrameBytes_le token hostId
        (fun x hx => named.short _ (members x hx).key)).trans fits,
        groups.objects.trans (Nat.min_le_right _ _), ?_⟩
      rcases groups.bytes with light | alone
      · exact light.trans ((Nat.min_le_right _ _).trans (Nat.min_le_left _ _))
      · obtain ⟨x, rfl⟩ := List.length_eq_one_iff.mp alone
        exact (payloadBytes_singleton x).trans_le ((members x (by simp)).bytes.trans agree.payload)
    exact ⟨accepted, fun retryAfter => leftInQueue_eq_nil retryAfter accepted⟩

end Acceptance

namespace Fixture

def plainSlave : SlaveEnvironment := ⟨none, none, none⟩

def plainMaster : MasterEnvironment := ⟨none, none⟩

/-- A master that takes no more than one mebibyte at a time. -/
def narrowMaster : MasterEnvironment := ⟨none, some mebibyte⟩

/-- The queued metadata export of host `alpha`, of a given length. -/
def exportOf (length : Nat) : Loaded where
  item :=
    { id := "upload-0", key := "alpha/metadata/export.json.zst", source := some "payload"
      inlined := none, createdAt := 0, attempts := 0, retryAfter := none, overwrite := false }
  bytes := List.replicate length 0

/-- Keys of at most 1024 bytes. -/
def Short (key : Key) : Prop := key.utf8ByteSize ≤ 1024

/-- The `n`-th of 1024 keys of 1024 bytes. -/
def longKey (n : Nat) : Key :=
  String.ofList (List.replicate n 'a' ++ List.replicate (1024 - n) 'b')

theorem utf8Len_replicate (n : Nat) {c : Char} (narrow : c.utf8Size = 1) :
    String.utf8Len (List.replicate n c) = n := by
  induction n with
  | zero => rfl
  | succ n ih => rw [List.replicate_succ, String.utf8Len_cons, ih, narrow]

theorem longKey_size {n : Nat} (h : n ≤ 1024) : (longKey n).utf8ByteSize = 1024 := by
  rw [longKey, String.utf8ByteSize_ofList, String.utf8Len_append,
    utf8Len_replicate n (by decide), utf8Len_replicate (1024 - n) (by decide)]
  omega

theorem longKey_injective {m n : Nat} (h : longKey m = longKey n) : m = n := by
  have counted := congrArg (fun key : Key => key.toList.count 'a') h
  simpa [longKey, List.count_replicate] using counted

theorem longestKeys_short : LongestKeys Short 1024 := by
  refine ⟨fun _ h => h, (List.range 1024).map longKey,
    List.Nodup.map (fun _ _ => longKey_injective) List.nodup_range, by simp; rfl, ?_⟩
  intro key h
  obtain ⟨n, hn, rfl⟩ := List.mem_map.mp h
  have size := longKey_size (List.mem_range.mp hn).le
  exact ⟨size.le, size⟩

theorem refused_of_payload {slave : SlaveEnvironment} {master : MasterEnvironment}
    {token hostId : String} {bytes : Bytes} (long : Cluster.maxBatchBytes < bytes.length) :
    Refused slave master token hostId bytes := by
  rintro batch ⟨x, mem, rfl⟩ accepted
  have part : x.bytes.length ≤ payloadBytes batch :=
    List.single_le_sum (fun _ _ => Nat.zero_le _) _ (List.mem_map_of_mem mem)
  have payload := accepted.payload
  omega

theorem refused_of_frame {slave : SlaveEnvironment} {master : MasterEnvironment}
    {token hostId : String} {bytes : Bytes}
    (long : (advertisedClusterCapabilities master).maxRequestFrameBytes ≤ bytes.length) :
    Refused slave master token hostId bytes := by
  rintro batch ⟨x, mem, rfl⟩ accepted
  have part : putItemBytes x.putItem ≤ ((batch.map Loaded.putItem).map putItemBytes).sum :=
    List.single_le_sum (fun _ _ => Nat.zero_le _) _
      (List.mem_map_of_mem (List.mem_map_of_mem mem))
  have body : x.bytes.length ≤ (x.bytes.map (fun b => headBytes b.toNat)).sum := by
    have least : ∀ n ∈ x.bytes.map (fun b => headBytes b.toNat), 1 ≤ n := by
      intro n hn
      obtain ⟨b, -, rfl⟩ := List.mem_map.mp hn
      exact headBytes_mono (Nat.zero_le b.toNat)
    simpa using List.length_le_sum_of_one_le _ least
  have frame := accepted.frame
  rw [requestFrameBytes_eq] at frame
  rw [putItemBytes_eq, itemHead] at part
  simp only [Loaded.putItem] at part
  omega

end Fixture

open Fixture in
/-- An export of one byte more than 64 MiB is sent alone, exceeds the payload limit of a master
with default settings, and is still queued after any number of drains. So is one of a mebibyte
when a smaller in-flight budget makes the master advertise a shorter frame, although it is within
the payload limit. -/
theorem drain_sends_oversized :
    sentBatches (batchLimits plainSlave (advertisedClusterCapabilities plainMaster))
        [exportOf (64 * mebibyte + 1)] = [[exportOf (64 * mebibyte + 1)]] ∧
      ¬ Acceptable plainSlave plainMaster "" "alpha" [exportOf (64 * mebibyte + 1)] ∧
      (∀ times : List Nat, Queued "alpha/metadata/export.json.zst"
        (exportOf (64 * mebibyte + 1)).bytes (times.foldl (fun queue time =>
          drainUploadQueueViaMaster plainSlave plainMaster "" "alpha" time queue)
            [exportOf (64 * mebibyte + 1)])) ∧
      sentBatches (batchLimits plainSlave (advertisedClusterCapabilities narrowMaster))
        [exportOf mebibyte] = [[exportOf mebibyte]] ∧
      ¬ Acceptable plainSlave narrowMaster "" "alpha" [exportOf mebibyte] ∧
      ∀ times : List Nat, Queued "alpha/metadata/export.json.zst" (exportOf mebibyte).bytes
        (times.foldl (fun queue time =>
          drainUploadQueueViaMaster plainSlave narrowMaster "" "alpha" time queue)
            [exportOf mebibyte]) := by
  have heavy : Refused plainSlave plainMaster "" "alpha" (exportOf (64 * mebibyte + 1)).bytes :=
    refused_of_payload (by rw [exportOf, List.length_replicate]; decide)
  have long : Refused plainSlave narrowMaster "" "alpha" (exportOf mebibyte).bytes :=
    refused_of_frame (by rw [exportOf, List.length_replicate]; decide)
  have sent : ∀ master length, sentBatches (batchLimits plainSlave
      (advertisedClusterCapabilities master)) [exportOf length] = [[exportOf length]] :=
    fun master length => sentBatches_of_groups ⟨by simp, objectLimit_pos, Or.inr rfl⟩
  exact ⟨sent _ _, heavy _ ⟨_, List.mem_singleton_self _, rfl⟩,
    heavy.queued_forever ⟨_, List.mem_singleton_self _, rfl, rfl⟩, sent _ _,
    long _ ⟨_, List.mem_singleton_self _, rfl⟩,
    long.queued_forever ⟨_, List.mem_singleton_self _, rfl, rfl⟩⟩

open Fixture in
/-- With default settings on both sides every queue of items with keys of at most 1024 bytes and
payloads of at most 64 MiB is accepted. -/
theorem drainsAccepted_short :
    DrainsAccepted plainSlave plainMaster "" "alpha" Short (64 * mebibyte) :=
  (drainsAccepted_iff longestKeys_short).mpr ⟨le_rfl, by decide +kernel, by
    rintro objects total rfl rfl
    decide +kernel⟩

end Majutsu.Upload
