import Majutsu.Cluster.SectionMoves

/-!
# The worker's sections as key operations

The worker acts on queue items that it has read some time ago. `Known` is what
it may still rely on: a queue file with the generation it remembers is the very
write it remembers, since generations are never used twice. `Sent` is what a
successful transfer leaves in the backend.
-/

namespace Majutsu.Cluster

open Critical (Spec)

/-- The item was read from the queue at some earlier time. -/
structure Known (queued : Queued) (s : Master) : Prop where
  old : queued.2.generation < s.nextGeneration
  past : queued.2.updatedAt ≤ s.clock
  same : ∀ current, s.queue.lookup queued.1 = some current →
    current.generation = queued.2.generation → SameWrite queued.1 current queued.2

/-- The backend has carried out the PUT that the item asks for. -/
def Sent (C : Config) (honest : Prop) (queued : Queued) (object : Option Bytes) : Prop :=
  match queued.2.operation with
  | .put digest _ _ => honest → object.map C.digest = some digest
  | .delete => True

def PayloadOf (C : Config) (queued : Queued) (payload : Option Bytes) : Prop :=
  match queued.2.operation with
  | .put digest _ _ => ∃ bytes, payload = some bytes ∧ C.digest bytes = digest
  | .delete => payload = none

/-- Every generation in the queue has been issued, and no item is from the future. -/
def Issued (s : Master) : Prop :=
  ∀ key item, s.queue.lookup key = some item →
    item.generation < s.nextGeneration ∧ item.updatedAt ≤ s.clock

def uploadAllow (key k : Key) (kind : Kind) : Prop := k = key ∧ kind = .upload

def collectAllow (key k : Key) (kind : Kind) : Prop := k = key ∧ kind = .collect

def noneAllowed (_ : Key) (_ : Kind) : Prop := False

variable {C : Config} {honest : Prop} {queued : Queued} {a : KeyState}

theorem Known.current {s : Master} {current : BackendQueueItem} (known : Known queued s)
    (found : s.queueItem queued.1 = some current)
    (gen : current.generation = queued.2.generation) :
    ∃ raw, s.queue.lookup queued.1 = some raw ∧
      current = normalizeLegacyBackendSourceHost queued.1 raw ∧ SameWrite queued.1 raw queued.2 := by
  obtain ⟨raw, hraw, rfl⟩ := Option.map_eq_some_iff.mp found
  exact ⟨raw, hraw, rfl, known.same raw hraw (by simpa using gen)⟩

theorem moves_ifCurrent {α : Type} {allow : Key → Kind → Prop} {P : Master → Prop}
    {Q : α → Master → Prop} {idle : α} {act : BackendQueueItem → Locked α}
    (known : ∀ s, P s → Known queued s) (stays : ∀ s, P s → Q idle s)
    (acts : ∀ raw, SameWrite queued.1 raw queued.2 →
      Moves C honest allow (fun s => P s ∧ (s.slice queued.1).item = some raw)
        (act (normalizeLegacyBackendSourceHost queued.1 raw)) Q) :
    Moves C honest allow P (ifCurrent queued idle act) Q := by
  refine Moves.bind (Q := fun found s => found = s.queueItem queued.1 ∧ P s)
    (Moves.read _ (fun s hs => ⟨rfl, hs⟩)) (fun found => ?_)
  cases found with
  | none => exact Moves.pure _ (fun s hs => stays s hs.2)
  | some current =>
    refine Moves.ite (fun _ => Moves.pure _ (fun s hs => stays s hs.2)) (fun gen fates s hs => ?_)
    obtain ⟨raw, hraw, rfl, same⟩ := (known s hs.2).current hs.1.symm (by simpa using gen)
    exact acts raw same fates s ⟨hs.2, hraw⟩

section Complete

variable {allow : Key → Kind → Prop} (allowed : allow queued.1 .upload)

include allowed

variable {item : BackendQueueItem}

theorem moves_retain (pending : a.item = some item) (delete : item.operation = .delete) :
    Moves C honest allow (At False queued.1 a) (retainLocalAfterBackendDelete C queued)
      (fun _ s => ∃ b : KeyState, Retained C b ∧ b.item = a.item ∧ b.object = a.object ∧
        At False queued.1 b s) := by
  refine Moves.bind moves_storeGetOptional (fun found => Moves.known (fun heq => ?_))
  cases found with
  | none =>
    refine Moves.bind (moves_removeLocalGc allowed
      (fun _ _ => .retainNone item pending delete heq.symm)) (fun _ => Moves.conseq
        moves_updateCatalog (fun _ h => h) (fun _ s hs => ?_))
    exact ⟨{ a with tomb := none }, Or.inl ⟨heq.symm, rfl⟩, rfl, rfl, hs.slice, False.elim⟩
  | some bytes =>
    refine Moves.bind (Q := fun now s => At True queued.1 a s ∧ s.clock = now)
      (Moves.utcNow (fun s n hs => ⟨⟨hs.slice, hs.notDir⟩, rfl⟩)) (fun now => Moves.bind
        (Q := fun gen s => At True queued.1 a s ∧ s.clock = now ∧ s.nextGeneration = gen)
        (Moves.look _ (fun s hs => ⟨hs.1, hs.2, rfl⟩)) (fun gen => Moves.bind
          (Moves.write (R := fun s => ∃ b : KeyState, Retained C b ∧ b.item = a.item ∧
            b.object = a.object ∧ At False queued.1 b s) ?_) (fun _ => Moves.update ?_
              (fun _ _ => rfl) (fun _ => rfl) (fun _ => rfl) (fun _ => rfl))))
    · rintro s ⟨⟨rfl, notDir⟩, rfl, rfl⟩
      have there : ∀ t : LocalGcItem, Master.slice { s with
          localGc := s.localGc.insert queued.1 t, nextGeneration := s.nextGeneration + 1 }
            queued.1 = { s.slice queued.1 with tomb := some t } := by
        intro t
        simp [Master.slice]
      refine ⟨Move.single allowed rfl rfl (.retainTomb item _ bytes pending delete heq.symm
        rfl rfl rfl rfl) (there _) ?_, { s.slice queued.1 with tomb := some _ },
        Or.inr ⟨bytes, _, heq.symm, rfl, rfl⟩, rfl, rfl, there _, False.elim⟩
      intro k hk
      simp [Master.slice, Finmap.lookup_insert_of_ne _ hk]
    · rintro s s' same dirs clock gen ⟨b, retained, item, object, hs⟩
      exact ⟨b, retained, item, object, At.sliced s s' same dirs clock gen hs⟩

theorem moves_writeReceipt {digest : String} {size : Nat} {conditional : Bool}
    (pending : a.item = some item) (operation : item.operation = .put digest size conditional) :
    Moves C honest allow (At False queued.1 a) (Locked.write (fun s => { s with
      receipts := s.receipts.insert queued.1 { key := queued.1, digest } }))
      (fun _ => At False queued.1 { a with receipt := some { key := queued.1, digest } }) := by
  refine Moves.writeKey allowed
    (fun _ _ => .receiptPut item digest size conditional pending operation) ?_ ?_
    (fun _ => rfl) (fun _ => rfl)
  · rintro s rfl
    simp [Master.slice]
  · intro s k hk
    simp [Master.slice, Finmap.lookup_insert_of_ne _ hk]

theorem moves_dropReceipt (pending : a.item = some item) (delete : item.operation = .delete) :
    Moves C honest allow (At False queued.1 a) (Locked.write (fun s => { s with
      receipts := s.receipts.erase queued.1 }))
      (fun _ => At False queued.1 { a with receipt := none }) := by
  refine Moves.writeKey allowed (fun _ _ => .receiptDrop item pending delete) ?_ ?_
    (fun _ => rfl) (fun _ => rfl)
  · rintro s rfl
    simp [Master.slice]
  · intro s k hk
    simp [Master.slice, Finmap.lookup_erase_ne hk]

theorem moves_removeQueueItem
    (op : ∀ clock gen, KeyOp C honest queued.1 clock gen gen .upload a { a with item := none }) :
    Moves C honest allow (At False queued.1 a) (removeQueueItem queued.1)
      (fun _ => At False queued.1 { a with item := none }) := by
  refine Moves.writeKey allowed (fun _ _ => op _ _) ?_ ?_ (fun _ => rfl) (fun _ => rfl)
  · rintro s rfl
    simp [Master.slice]
  · intro s k hk
    simp [Master.slice, Finmap.lookup_erase_ne hk]

theorem moves_settle (pending : a.item = some item) (same : SameWrite queued.1 item queued.2)
    (sent : Sent C honest queued a.object)
    (retained : queued.2.operation = .delete → Retained C a) :
    Moves C honest allow (At False queued.1 a) (do
      recordBackendPutReceipt queued
      removeQueueItem queued.1
      pure true) (fun _ _ => True) := by
  unfold recordBackendPutReceipt
  unfold Sent at sent
  cases operation : queued.2.operation with
  | put digest size conditional =>
    have current : item.operation = .put digest size conditional :=
      same.operation.symm.trans operation
    rw [operation] at sent
    exact Moves.bind (moves_writeReceipt allowed pending current) (fun _ => Moves.bind
      (moves_removeQueueItem allowed (fun _ _ => .removePut item digest size conditional pending
        current rfl sent)) (fun _ => Moves.pure _ (fun _ _ => trivial)))
  | delete =>
    have current : item.operation = .delete := same.operation.symm.trans operation
    exact Moves.bind (moves_dropReceipt allowed pending current) (fun _ => Moves.bind
      (moves_removeQueueItem allowed (fun _ _ => .removeDelete item pending current rfl
        (retained operation))) (fun _ => Moves.pure _ (fun _ _ => trivial)))

end Complete

theorem moves_completeUploaded :
    Moves C honest (uploadAllow queued.1)
      (fun s => Known queued s ∧ Sent C honest queued (s.slice queued.1).object)
      (completeUploadedBackendQueueItem C queued) (fun _ _ => True) := by
  refine moves_ifCurrent (fun _ h => h.1) (fun _ _ => trivial) (fun raw same fates s hs => ?_)
  obtain ⟨⟨-, sent⟩, pending⟩ := hs
  have allowed : uploadAllow queued.1 queued.1 .upload := ⟨rfl, rfl⟩
  refine Moves.bind (P := At False queued.1 (s.slice queued.1)) (Q := fun _ t => ∃ b : KeyState,
    b.item = some raw ∧ Sent C honest queued b.object ∧
      (queued.2.operation = .delete → Retained C b) ∧ At False queued.1 b t)
    (Moves.when (fun delete => ?_) (fun put t ht => ?_)) ?_ fates s ⟨rfl, nofun⟩
  · have delete : queued.2.operation = .delete := by simpa using delete
    refine Moves.conseq (moves_retain allowed pending (same.operation.symm.trans delete))
      (fun _ h => h) ?_
    rintro _ t ⟨b, retained, item, object, ht⟩
    exact ⟨b, item.trans pending, object ▸ sent, fun _ => retained, ht⟩
  · exact ⟨_, pending, sent, fun delete => absurd delete (by simpa using put), ht⟩
  · intro _ fates t ⟨b, item, sent, retained, ht⟩
    exact moves_settle allowed item same sent retained fates t ht

theorem moves_completeWithoutUpload (put : queued.2.operation.isPut = true) :
    Moves C honest (uploadAllow queued.1)
      (fun s => Known queued s ∧ Sent C honest queued (s.slice queued.1).object)
      (completeBackendQueueItemWithoutUpload queued) (fun _ _ => True) := by
  refine moves_ifCurrent (fun _ h => h.1) (fun _ _ => trivial) (fun raw same fates s hs => ?_)
  obtain ⟨⟨-, sent⟩, pending⟩ := hs
  refine moves_settle ⟨rfl, rfl⟩ pending same sent (fun delete => ?_) fates s ⟨rfl, nofun⟩
  rw [delete] at put
  cases put

theorem moves_rewriteItem {old new : BackendQueueItem} (pending : a.item = some old)
    (same : SameWrite queued.1 old new) :
    Moves C honest (uploadAllow queued.1) (At False queued.1 a)
      (Locked.write (fun s => { s with queue := s.queue.insert queued.1 new }))
      (fun _ => At False queued.1 { a with item := some new }) := by
  refine Moves.writeKey (show uploadAllow queued.1 queued.1 .upload from ⟨rfl, rfl⟩)
    (fun _ _ => .markFailure old new pending same) ?_ ?_ (fun _ => rfl) (fun _ => rfl)
  · rintro s rfl
    simp [Master.slice]
  · intro s k hk
    simp [Master.slice, Finmap.lookup_insert_of_ne _ hk]

theorem moves_recordFailure :
    Moves C honest (uploadAllow queued.1) (Known queued) (recordBackendQueueFailure C queued)
      (fun _ _ => True) := by
  refine moves_ifCurrent (fun _ h => h) (fun _ _ => trivial) (fun raw same fates s hs => ?_)
  refine Moves.bind (P := At False queued.1 (s.slice queued.1))
    (Q := fun _ => At False queued.1 (s.slice queued.1))
    (Moves.utcNow (fun t n ht => ⟨ht.slice, nofun⟩)) (fun now => Moves.bind
      (Q := fun _ => At False queued.1 (s.slice queued.1))
      (Moves.random (fun _ _ ht => ht)) (fun random => ?_)) fates s ⟨rfl, nofun⟩
  refine Moves.conseq (moves_rewriteItem hs.2 ⟨?_, ?_, ?_, rfl⟩) (fun _ h => h)
    (fun _ _ _ => trivial)
  · exact normalize_generation ..
  · exact normalize_operation ..
  · exact normalize_updatedAt ..

theorem moves_collectPayload {key : Key} {t : LocalGcItem} (tomb : a.tomb = some t)
    (idle : a.item = none) :
    Moves C honest (collectAllow key) (At False key a) (collectPayload C key t)
      (fun _ s => ∃ b : KeyState, b.tomb = some t ∧ b.item = none ∧
        b.payload.map C.digest ≠ some t.digest ∧ At False key b s) := by
  refine Moves.bind moves_storeGetOptional (fun found => Moves.known (fun heq => ?_))
  cases found with
  | none =>
    refine Moves.pure _ (fun s hs => ⟨a, tomb, idle, ?_, hs.slice, False.elim⟩)
    simp [← heq]
  | some bytes =>
    refine Moves.ite (fun match_ => ?_) (fun other => ?_)
    · refine Moves.bind (Q := fun _ => At False key { a with payload := none })
        (Moves.attempt ?_) (fun _ => Moves.bind
          (Moves.fsync At.sliced) (fun _ => Moves.bind moves_updateStoreBytes (fun _ =>
            Moves.pure _ (fun s hs => ⟨{ a with payload := none }, tomb, idle, by simp, hs⟩))))
      intro s n _ s' hs ok
      split at ok
      · next store done =>
        cases ok
        obtain ⟨files, -⟩ := Store.delete_files done
        have there : Master.slice { s with store } key = { a with payload := none } := by
          rw [← hs.slice]
          simp [Master.slice, files]
        refine ⟨Move.single ⟨rfl, rfl⟩ rfl hs.slice
          (.gcStore t bytes tomb idle heq.symm match_) there ?_, there, False.elim⟩
        intro k hk
        simp [Master.slice, files, Finmap.lookup_erase_ne hk]
      · cases ok
    · refine Moves.pure _ (fun s hs => ⟨a, tomb, idle, ?_, hs.slice, False.elim⟩)
      simpa [← heq] using other

theorem moves_gcItem {now : Nat} {key : Key} {selected : LocalGcItem} :
    Moves C honest (collectAllow key) (fun _ => True) (gcItem C now key selected)
      (fun _ _ => True) := by
  refine Moves.conseq (moves_any key (Q := fun _ _ _ => True) (fun a => ?_))
    (fun _ h => h) (fun _ _ _ => trivial)
  refine Moves.bind (Q := fun found s => found = a.tomb ∧ At False key a s)
    (Spec.handle (Moves.read _ (fun s hs => ⟨?_, hs, nofun⟩)) (fun e => Moves.bind
      (Q := fun _ _ => True) (Spec.update _ (fun s _ => ⟨?_, trivial⟩)) (fun _ => Moves.fail e)))
    (fun found => Moves.known (fun heq => ?_))
  · rw [← hs]
    rfl
  · exact Move.quiet le_rfl le_rfl (fun _ => rfl)
  cases found with
  | none => exact Moves.bind moves_updateCatalog (fun _ => Moves.pure _ (fun _ _ => trivial))
  | some current =>
    refine Moves.ite (fun _ => ?_) (fun _ => ?_)
    · exact Moves.bind moves_updateCatalog (fun _ => Moves.pure _ (fun _ _ => trivial))
    refine Moves.bind (Q := fun busy s => busy = a.item.isSome ∧ At False key a s)
      (Moves.look _ (fun s hs => ⟨?_, hs⟩)) (fun busy => Moves.known (fun pending =>
        Moves.ite (fun _ => Moves.pure _ (fun _ _ => trivial)) (fun idle => ?_)))
    · rw [← hs.slice]
      rfl
    have idle : a.item = none := by simpa [pending] using idle
    refine Moves.bind (moves_collectPayload heq.symm idle) ?_
    intro removed fates s ⟨b, tomb, idle, other, hs⟩
    exact Moves.bind (moves_removeLocalGc ⟨rfl, rfl⟩ (fun _ _ => .gcTomb current tomb idle other))
      (fun _ => Moves.bind moves_updateCatalog (fun _ => Moves.pure _ (fun _ _ => trivial)))
      fates s hs

section Reads

variable {α : Type} {key : Key} {s₀ : Master}

def Reads (s₀ : Master) (m : Locked α) (Q : α → Prop) : Prop :=
  Spec (fun s s' => s' = s) (fun s => s = s₀) m (fun r s => s = s₀ ∧ Q r) (fun _ _ => True)

variable {m : Locked α} {Q : α → Prop}

theorem Reads.state (h : Reads s₀ m Q) (fates : List Critical.Fate) : (m fates s₀).state = s₀ := by
  have path := (h fates s₀ rfl).1
  generalize (m fates s₀).state = t at path
  induction path with
  | refl => rfl
  | tail _ last ih => exact last.trans ih

theorem Reads.bind {β : Type} {f : α → Locked β} {Q' : β → Prop} (first : Reads s₀ m Q)
    (rest : ∀ r, Q r → Reads s₀ (f r) Q') : Reads s₀ (m >>= f) Q' :=
  Spec.bind first (fun r fates s hs => rest r hs.2 fates s hs.1)

theorem Reads.pure {r : α} (h : Q r) : Reads s₀ (Pure.pure r) Q :=
  Spec.pure r (fun _ hs => ⟨hs, h⟩)

theorem Reads.fail {e : Failure} : Reads s₀ (Critical.fail e) Q :=
  Spec.fail e (fun _ _ => trivial)

theorem Reads.look (f : Master → α) : Reads s₀ (Critical.look f) (fun r => r = f s₀) :=
  Spec.look f (fun s hs => ⟨hs, by rw [hs]⟩)

theorem Reads.read (f : Master → α) : Reads s₀ (Locked.read f) (fun r => r = f s₀) := by
  refine Spec.attempt ?_ (fun _ _ _ _ _ => trivial) (fun _ _ => trivial)
  rintro s n r s' rfl heq
  cases heq
  exact ⟨rfl, rfl, rfl⟩

theorem Reads.require {c : Bool} {e : Failure} :
    Reads s₀ (Critical.require c e) (fun _ => c = true) :=
  Spec.require (fun hc _ hs => ⟨hs, hc⟩) (fun _ _ _ => trivial)

theorem Reads.validated {check : Except Failure Unit} :
    Reads s₀ (Cluster.validated check) (fun _ => check = .ok ()) := by
  cases check with
  | ok _ => exact Reads.pure rfl
  | error e => exact Reads.fail

theorem Reads.storeGetOptional :
    Reads s₀ (Locked.storeGetOptional key) (fun r => r = s₀.store.files.lookup key) := by
  refine Spec.attempt ?_ (fun _ _ _ _ _ => trivial) (fun _ _ => trivial)
  rintro s n r s' rfl heq
  split at heq
  · next ok =>
    cases heq
    exact ⟨rfl, rfl, (Store.getOptional_ok ok).1⟩
  · cases heq

theorem Reads.ite {c : Prop} [Decidable c] {m' : Locked α} (pos : c → Reads s₀ m Q)
    (neg : ¬c → Reads s₀ m' Q) : Reads s₀ (if c then m else m') Q :=
  Spec.ite pos neg

/-- The queue file of the item is still the one that was selected. -/
def Current (s : Master) (queued : Queued) : Prop :=
  ∃ raw, s.queue.lookup queued.1 = some raw ∧ raw.generation = queued.2.generation

theorem reads_ifCurrent {idle : α} {act : BackendQueueItem → Locked α} (stays : Q idle)
    (acts : ∀ current, Current s₀ queued → Reads s₀ (act current) Q) :
    Reads s₀ (ifCurrent queued idle act) Q := by
  refine Reads.bind (Reads.read _) (fun found heq => ?_)
  cases found with
  | none => exact Reads.pure stays
  | some current =>
    refine Reads.ite (fun _ => Reads.pure stays) (fun gen => acts current ?_)
    obtain ⟨raw, hraw, rfl⟩ := Option.map_eq_some_iff.mp heq.symm
    exact ⟨raw, hraw, by simpa using gen⟩

theorem reads_storeGet : Reads s₀ (Locked.storeGet key) (fun _ => True) := by
  refine Spec.attempt ?_ (fun _ _ _ _ _ => trivial) (fun _ _ => trivial)
  rintro s n r s' rfl heq
  split at heq
  · cases heq
    exact ⟨rfl, rfl, trivial⟩
  · cases heq

theorem reads_uploadCheck {deps : BackendQueueDependencies} :
    Reads s₀ (uploadCheck C queued deps) (fun r => ∀ payload, r = some payload →
      deps.blocks queued = false ∧ Current s₀ queued ∧ PayloadOf C queued payload) := by
  refine reads_ifCurrent nofun (fun _ current => Reads.ite (fun _ => Reads.pure nofun)
    (fun free => ?_))
  have free : deps.blocks queued = false := by simpa using free
  cases operation : queued.2.operation with
  | delete =>
    refine Reads.pure (fun payload heq => ⟨free, current, ?_⟩)
    cases heq
    simp [PayloadOf, operation]
  | put digest size conditional =>
    refine Reads.bind reads_storeGet (fun bytes _ => Reads.bind Reads.require (fun _ ok =>
      Reads.pure (fun payload heq => ⟨free, current, ?_⟩)))
    cases heq
    simpa [PayloadOf, operation] using ok

/-- What `BackendCommitted` has seen of a key that it reports. -/
structure KeyState.Committed (C : Config) (key : Key) (a : KeyState) : Prop where
  item : a.item = none
  intent : a.intent = none
  tomb : a.tomb = none
  receipt : ∃ digest, a.receipt = some { key, digest } ∧ a.payload.map C.digest = some digest

theorem reads_isCommitted :
    Reads s₀ (isCommitted C key)
      (fun r => r = true → (s₀.slice key).Committed C key) := by
  refine Reads.bind Reads.validated (fun _ _ => Reads.bind (Reads.look _) (fun pending hp =>
    Reads.ite (fun _ => Reads.pure (by simp)) (fun idle => Reads.bind (Q := fun r => r = false →
      (s₀.slice key).tomb = none) ?_ (fun deleted hd => Reads.ite (fun _ => Reads.pure (by simp))
        (fun alive => Reads.bind (Q := fun r => ∀ found, r = some found →
          (s₀.slice key).receipt = some found) ?_ (fun receipt hr => ?_))))))
  · refine Reads.bind (Reads.read _) (fun item _ => Reads.ite (fun _ => Reads.pure (by simp))
      (fun _ => Spec.look _ (fun s hs => ⟨hs, fun none => ?_⟩)))
    rw [hs] at none
    simpa [Master.slice] using none
  · have found : Spec (fun s s' => s' = s) (fun s => s = s₀)
        (Locked.read (·.receipts.lookup key)) (fun r s => s = s₀ ∧ ∀ found, r = some found →
          (s₀.slice key).receipt = some found) (fun _ s => s = s₀) := by
      refine Spec.attempt ?_ (fun _ _ _ h _ => h) (fun _ h => h)
      rintro s n r s' rfl heq
      cases heq
      exact ⟨rfl, rfl, fun _ h => h⟩
    exact Spec.handle found (fun _ => Spec.pure _ (fun _ hs => ⟨hs, by simp⟩))
  · cases receipt with
    | none => exact Reads.pure (by simp)
    | some found =>
      refine Reads.bind Reads.storeGetOptional (fun bytes hb => Reads.pure (fun ok => ?_))
      have ok := of_decide_eq_true ok
      rw [hp] at idle
      have idle : s₀.queue.lookup key = none ∧ s₀.intents.lookup key = none := by
        simpa using idle
      refine ⟨idle.1, idle.2, hd (by simpa using alive), found.digest, ?_, ?_⟩
      · rw [hr found rfl, ← ok.1]
      · rw [← ok.2, hb]
        rfl

theorem reads_backendCommitted (keys : List Key) :
    Reads s₀ (backendCommitted C keys)
      (fun found => ∀ key ∈ found, (s₀.slice key).Committed C key) := by
  induction keys with
  | nil => exact Reads.pure (by simp)
  | cons key rest ih =>
    refine Reads.bind reads_isCommitted (fun committed hc => Reads.bind ih (fun others ho =>
      Reads.pure ?_))
    cases committed with
    | false => exact ho
    | true =>
      intro k hk
      rcases List.mem_cons.mp hk with rfl | hk
      · exact hc rfl
      · exact ho k hk

theorem reads_pendingHosts : Reads s₀ pendingHosts (fun r => r = s₀.pendingPutHosts) :=
  Reads.read _

/-- A DELETE item that is still the one in the queue. -/
def Active (s : Master) (queued : Queued) : Prop :=
  ∃ current, s.queueItem queued.1 = some current ∧
    current.generation = queued.2.generation ∧ current.operation = .delete

theorem reads_activeEach {hosts : Finset String} (chunk : List Queued) :
    Reads s₀ (activeEach hosts chunk)
      (fun found => found.Sublist chunk ∧ ∀ queued ∈ found, Active s₀ queued) := by
  induction chunk with
  | nil => exact Reads.pure ⟨List.Sublist.refl _, by simp⟩
  | cons first rest ih =>
    refine Reads.ite (fun _ => ?_) (fun _ => Reads.bind (Reads.read _) (fun current hc =>
      Reads.bind ih (fun found hf => Reads.ite (fun keep => Reads.pure ?_)
        (fun _ => Reads.pure ⟨hf.1.cons _, hf.2⟩))))
    · exact Spec.weaken ih (fun _ _ h => ⟨h.1, h.2.1.cons _, h.2.2⟩)
    · refine ⟨hf.1.cons_cons _, fun queued hq => ?_⟩
      rcases List.mem_cons.mp hq with rfl | hq
      · cases current with
        | none => simp at keep
        | some current => exact ⟨current, hc.symm, by simpa using keep⟩
      · exact hf.2 queued hq

theorem reads_activeDeletes (chunk : List Queued) :
    Reads s₀ (activeDeletes chunk)
      (fun found => found.Sublist chunk ∧ ∀ queued ∈ found, Active s₀ queued) :=
  Reads.bind reads_pendingHosts (fun _ _ => reads_activeEach chunk)

end Reads

end Majutsu.Cluster
