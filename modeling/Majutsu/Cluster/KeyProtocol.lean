import Majutsu.Cluster.State

/-!
# The protocol of one key

Every file of the master and every object of the backend belongs to one key.
This module lists the file operations on a single key and when they may happen;
all sections and transfers consist of them, and what holds across whole runs is
derived from this list alone. Under `honest` a pending PUT leaves the queue only
when the backend holds the payload that its receipt claims.
-/

namespace Majutsu.Cluster

/-- All that the master and the backend hold for one key. -/
structure KeyState where
  payload : Option Bytes
  item : Option BackendQueueItem
  intent : Option MasterWriteIntent
  tomb : Option LocalGcItem
  receipt : Option BackendPutReceipt
  object : Option Bytes

def Master.slice (s : Master) (key : Key) : KeyState where
  payload := s.store.files.lookup key
  item := s.queue.lookup key
  intent := s.intents.lookup key
  tomb := s.localGc.lookup key
  receipt := s.receipts.lookup key
  object := s.backend.lookup key

/-- On whose behalf an operation happens. -/
inductive Kind where
  | request
  | replay
  | hydrate
  | legacy
  | upload
  | collect
  deriving DecidableEq

def putOperation (C : Config) (item : ClusterPutItem) : BackendQueueOperation :=
  .put (C.digest item.bytes) item.bytes.length item.conditional

structure FreshItem (clock gen : Nat) (item : BackendQueueItem) : Prop where
  generation : item.generation = gen
  updatedAt : item.updatedAt = clock

/-- A queue entry after a failed attempt: the same write, to be tried again later. -/
structure SameWrite (key : Key) (old new : BackendQueueItem) : Prop where
  generation : new.generation = old.generation
  operation : new.operation = old.operation
  updatedAt : new.updatedAt = old.updatedAt
  sourceHost : new.sourceHost = (normalizeLegacyBackendSourceHost key old).sourceHost

/-- What a completed DELETE leaves of the key on the master. -/
def Retained (C : Config) (a : KeyState) : Prop :=
  (a.payload = none ∧ a.tomb = none) ∨
    ∃ bytes t, a.payload = some bytes ∧ a.tomb = some t ∧ t.digest = C.digest bytes

/-- `KeyOp C honest key clock gen gen' kind a b`: one file operation takes the key from
`a` to `b` and uses up the generations from `gen` to `gen'`. -/
inductive KeyOp (C : Config) (honest : Prop) (key : Key) (clock gen : Nat) :
    Nat → Kind → KeyState → KeyState → Prop where
  | writeIntent {a : KeyState} (i : MasterWriteIntent) :
      a.intent = none → i.item.key = key →
      KeyOp C honest key clock gen gen .request a { a with intent := some i }
  | storePut {a : KeyState} (i : MasterWriteIntent) :
      a.intent = some i → (i.item.conditional = true → a.payload = none) →
      KeyOp C honest key clock gen gen .replay a { a with payload := some i.item.bytes }
  | cancel {a : KeyState} (i : MasterWriteIntent) :
      a.intent = some i → a.payload = some i.item.bytes →
      KeyOp C honest key clock gen gen .replay a { a with tomb := none }
  | enqueuePut {a : KeyState} (i : MasterWriteIntent) (item : BackendQueueItem) :
      a.intent = some i → a.payload = some i.item.bytes →
      item.operation = putOperation C i.item → FreshItem clock gen item →
      KeyOp C honest key clock gen (gen + 1) .replay a { a with item := some item }
  | removeIntent {a : KeyState} (i : MasterWriteIntent) (item : BackendQueueItem) :
      a.intent = some i → a.payload = some i.item.bytes → a.item = some item →
      item.operation = putOperation C i.item → a.tomb = none →
      KeyOp C honest key clock gen gen .replay a { a with intent := none }
  | enqueueDelete {a : KeyState} (item : BackendQueueItem) :
      a.intent = none → item.operation = .delete → FreshItem clock gen item →
      KeyOp C honest key clock gen (gen + 1) .request a { a with item := some item }
  | hydrate {a : KeyState} (bytes : Bytes) :
      a.payload = none →
      KeyOp C honest key clock gen gen .hydrate a { a with payload := some bytes }
  | enqueueLegacy {a : KeyState} (item : BackendQueueItem) (bytes : Bytes) (size : Nat)
      (conditional : Bool) :
      a.item = none → a.receipt = none → a.tomb = none → a.payload = some bytes →
      item.operation = .put (C.digest bytes) size conditional → FreshItem clock gen item →
      KeyOp C honest key clock gen (gen + 1) .legacy a { a with item := some item }
  | gcStore {a : KeyState} (t : LocalGcItem) (bytes : Bytes) :
      a.tomb = some t → a.item = none → a.payload = some bytes → C.digest bytes = t.digest →
      KeyOp C honest key clock gen gen .collect a { a with payload := none }
  | gcTomb {a : KeyState} (t : LocalGcItem) :
      a.tomb = some t → a.item = none → a.payload.map C.digest ≠ some t.digest →
      KeyOp C honest key clock gen gen .collect a { a with tomb := none }
  | retainTomb {a : KeyState} (item : BackendQueueItem) (t : LocalGcItem) (bytes : Bytes) :
      a.item = some item → item.operation = .delete →
      a.payload = some bytes → t.digest = C.digest bytes → t.generation = gen →
      t.deletedFromBackendAt = clock → t.deleteAfter = clock + C.localDeleteGrace →
      KeyOp C honest key clock gen (gen + 1) .upload a { a with tomb := some t }
  | retainNone {a : KeyState} (item : BackendQueueItem) :
      a.item = some item → item.operation = .delete → a.payload = none →
      KeyOp C honest key clock gen gen .upload a { a with tomb := none }
  | receiptPut {a : KeyState} (item : BackendQueueItem) (digest : String) (size : Nat)
      (conditional : Bool) :
      a.item = some item → item.operation = .put digest size conditional →
      KeyOp C honest key clock gen gen .upload a { a with receipt := some { key, digest } }
  | receiptDrop {a : KeyState} (item : BackendQueueItem) :
      a.item = some item → item.operation = .delete →
      KeyOp C honest key clock gen gen .upload a { a with receipt := none }
  | removePut {a : KeyState} (item : BackendQueueItem) (digest : String) (size : Nat)
      (conditional : Bool) :
      a.item = some item → item.operation = .put digest size conditional →
      a.receipt = some { key, digest } → (honest → a.object.map C.digest = some digest) →
      KeyOp C honest key clock gen gen .upload a { a with item := none }
  | removeDelete {a : KeyState} (item : BackendQueueItem) :
      a.item = some item → item.operation = .delete → a.receipt = none → Retained C a →
      KeyOp C honest key clock gen gen .upload a { a with item := none }
  | markFailure {a : KeyState} (old new : BackendQueueItem) :
      a.item = some old → SameWrite key old new →
      KeyOp C honest key clock gen gen .upload a { a with item := some new }
  | backendPut {a : KeyState} (item : BackendQueueItem) (bytes : Bytes) :
      a.item = some item →
      KeyOp C honest key clock gen gen .upload a { a with object := some bytes }
  | backendDelete {a : KeyState} (item : BackendQueueItem) :
      a.item = some item →
      KeyOp C honest key clock gen gen .upload a { a with object := none }

/-- A move of the master: at most one operation on at most one key. `allow` says which. -/
structure Move (C : Config) (honest : Prop) (allow : Key → Kind → Prop) (s s' : Master) : Prop where
  clock : s.clock ≤ s'.clock
  generation : s.nextGeneration ≤ s'.nextGeneration
  key : (∀ k, s'.slice k = s.slice k) ∨
    ∃ k kind, allow k kind ∧
      KeyOp C honest k s.clock s.nextGeneration s'.nextGeneration kind (s.slice k) (s'.slice k) ∧
      ∀ k', k' ≠ k → s'.slice k' = s.slice k'

section Moves

variable {C : Config} {honest : Prop} {key : Key} {clock gen gen' : Nat} {kind : Kind}
  {a b : KeyState} {allow : Key → Kind → Prop} {s s' : Master}

theorem KeyOp.generation_le (op : KeyOp C honest key clock gen gen' kind a b) : gen ≤ gen' := by
  cases op <;> omega

theorem KeyOp.item_cases (op : KeyOp C honest key clock gen gen' kind a b) :
    b.item = a.item ∨ b.item = none ∨
      (gen' = gen + 1 ∧ ∃ item, b.item = some item ∧ FreshItem clock gen item) ∨
      ∃ old new, a.item = some old ∧ b.item = some new ∧ SameWrite key old new := by
  cases op with
  | enqueuePut i item _ _ _ fresh => exact Or.inr (Or.inr (Or.inl ⟨rfl, item, rfl, fresh⟩))
  | enqueueDelete item _ _ fresh => exact Or.inr (Or.inr (Or.inl ⟨rfl, item, rfl, fresh⟩))
  | enqueueLegacy item _ _ _ _ _ _ _ _ fresh =>
    exact Or.inr (Or.inr (Or.inl ⟨rfl, item, rfl, fresh⟩))
  | markFailure old new pending same =>
    exact Or.inr (Or.inr (Or.inr ⟨old, new, pending, rfl, same⟩))
  | removePut | removeDelete => exact Or.inr (Or.inl rfl)
  | _ => exact Or.inl rfl

theorem Move.quiet (clock : s.clock ≤ s'.clock) (gen : s.nextGeneration ≤ s'.nextGeneration)
    (same : ∀ k, s'.slice k = s.slice k) : Move C honest allow s s' :=
  ⟨clock, gen, Or.inl same⟩

theorem Move.rfl : Move C honest allow s s := Move.quiet le_rfl le_rfl (fun _ => Eq.refl _)

theorem Move.single (allowed : allow key kind) (clock : s'.clock = s.clock)
    (here : s.slice key = a)
    (op : KeyOp C honest key s.clock s.nextGeneration s'.nextGeneration kind a b)
    (there : s'.slice key = b) (others : ∀ k, k ≠ key → s'.slice k = s.slice k) :
    Move C honest allow s s' := by
  subst here there
  exact ⟨clock.ge, op.generation_le, Or.inr ⟨key, kind, allowed, op, others⟩⟩

theorem Move.mono {allow' : Key → Kind → Prop} (move : Move C honest allow s s')
    (h : ∀ k kind, allow k kind → allow' k kind) : Move C honest allow' s s' :=
  ⟨move.clock, move.generation, move.key.imp_right
    (fun ⟨k, kind, allowed, rest⟩ => ⟨k, kind, h k kind allowed, rest⟩)⟩

theorem Move.frame (move : Move C honest allow s s') (untouched : ∀ kind, ¬allow key kind) :
    s'.slice key = s.slice key := by
  rcases move.key with same | ⟨k, kind, allowed, _, others⟩
  · exact same key
  · refine others key ?_
    rintro rfl
    exact untouched kind allowed

theorem Move.invariant {I : KeyState → Prop} (move : Move C honest allow s s')
    (step : ∀ {kind gen gen' a b}, allow key kind →
      KeyOp C honest key s.clock gen gen' kind a b → I a → I b)
    (h : I (s.slice key)) : I (s'.slice key) := by
  rcases move.key with same | ⟨k, kind, allowed, op, others⟩
  · rwa [same key]
  · by_cases hk : key = k
    · subst hk
      exact step allowed op h
    · rwa [others key hk]

end Moves

end Majutsu.Cluster
