import Majutsu.Cluster.KeyProtocol
import Majutsu.Cluster.WorkerSections

/-!
# Sections are paths of key operations

`Moves C honest allow P m Q` is the path specification of a section with the
moves of the key protocol: wherever the section is interrupted, the files have
gone through allowed operations only. The state of the key at hand is followed
exactly, as `At key a`.
-/

namespace Majutsu.Cluster

open Critical (Spec)

def Moves {α : Type} (C : Config) (honest : Prop) (allow : Key → Kind → Prop)
    (P : Master → Prop) (m : Locked α) (Q : α → Master → Prop) : Prop :=
  Spec (Move C honest allow) P m Q (fun _ _ => True)

/-- The key is in state `a`; where `file` holds, its path is known not to be a directory. -/
structure At (file : Prop) (key : Key) (a : KeyState) (s : Master) : Prop where
  slice : s.slice key = a
  notDir : file → key ∉ s.store.dirs

/-- A predicate that only looks at the keys, the clock and the generations. -/
def Sliced (P : Master → Prop) : Prop :=
  ∀ s s', (∀ k, s'.slice k = s.slice k) → s'.store.dirs = s.store.dirs → s'.clock = s.clock →
    s'.nextGeneration = s.nextGeneration → P s → P s'

section Rules

variable {C : Config} {honest : Prop} {allow : Key → Kind → Prop} {α β : Type}
  {P : Master → Prop} {Q : α → Master → Prop}

variable {m : Locked α}

theorem Moves.bind {Q' : β → Master → Prop} {f : α → Locked β} (first : Moves C honest allow P m Q)
    (rest : ∀ a, Moves C honest allow (Q a) (f a) Q') : Moves C honest allow P (m >>= f) Q' :=
  Spec.bind first rest

theorem Moves.pure (a : α) (h : ∀ s, P s → Q a s) :
    Moves C honest allow P (Pure.pure a : Locked α) Q :=
  Spec.pure a h

theorem Moves.fail (e : Failure) : Moves C honest allow P (Critical.fail e : Locked α) Q :=
  Spec.fail e (fun _ _ => trivial)

theorem Moves.look (f : Master → α) (h : ∀ s, P s → Q (f s) s) :
    Moves C honest allow P (Critical.look f : Locked α) Q :=
  Spec.look f h

theorem Moves.conseq {P' : Master → Prop} {Q' : α → Master → Prop} (h : Moves C honest allow P m Q)
    (pre : ∀ s, P' s → P s) (post : ∀ a s, Q a s → Q' a s) : Moves C honest allow P' m Q' :=
  Spec.conseq h pre post (fun _ _ _ => trivial)

theorem Moves.require {Q : Unit → Master → Prop} {c : Bool} {e : Failure}
    (h : c = true → ∀ s, P s → Q () s) : Moves C honest allow P (Critical.require c e) Q :=
  Spec.require h (fun _ _ _ => trivial)

theorem Moves.when {Q : Unit → Master → Prop} {c : Bool} {m : Locked Unit}
    (pos : c = true → Moves C honest allow P m Q) (neg : c = false → ∀ s, P s → Q () s) :
    Moves C honest allow P (Critical.when c m) Q :=
  Spec.when pos neg

theorem Moves.ite {c : Prop} [Decidable c] {m' : Locked α} (pos : c → Moves C honest allow P m Q)
    (neg : ¬c → Moves C honest allow P m' Q) : Moves C honest allow P (if c then m else m') Q :=
  Spec.ite pos neg

theorem Moves.known {c : Prop} (h : c → Moves C honest allow P m Q) :
    Moves C honest allow (fun s => c ∧ P s) m Q :=
  fun fates s hs => h hs.1 fates s hs.2

theorem Moves.mono {allow' : Key → Kind → Prop} (h : Moves C honest allow P m Q)
    (sub : ∀ k kind, allow k kind → allow' k kind) : Moves C honest allow' P m Q := by
  intro fates s hs
  refine ⟨Relation.ReflTransGen.mono ?_ _ _ (h fates s hs).1, (h fates s hs).2⟩
  exact fun _ _ move => move.mono sub

theorem Moves.frame {key : Key} {a : KeyState} (h : Moves C honest allow P m Q)
    (untouched : ∀ kind, ¬allow key kind) :
    Moves C honest allow (fun s => P s ∧ s.slice key = a) m
      (fun r s => Q r s ∧ s.slice key = a) := by
  refine Spec.conseq (Spec.preserves (I := fun s => s.slice key = a) h ?_)
    (fun _ h => h) (fun _ _ h => h) (fun _ _ _ => trivial)
  exact fun s s' hs move => (move.frame untouched).trans hs

theorem Moves.attempt {refused : Failure} {f : Nat → Master → Except Failure (α × Master)}
    (h : ∀ s n a s', P s → f n s = .ok (a, s') → Move C honest allow s s' ∧ Q a s') :
    Moves C honest allow P (Critical.attempt refused f) Q :=
  Spec.attempt h (fun _ _ _ _ _ => trivial) (fun _ _ => trivial)

theorem Moves.read (f : Master → α) (h : ∀ s, P s → Q (f s) s) :
    Moves C honest allow P (Locked.read f) Q := by
  refine Moves.attempt ?_
  rintro s n a s' hs heq
  cases heq
  exact ⟨Move.rfl, h s hs⟩

theorem Moves.fsync (h : Sliced P) :
    Moves C honest allow P Locked.fsyncParentDir (fun _ => P) := by
  refine Moves.attempt ?_
  rintro s n a s' hs heq
  cases heq
  exact ⟨Move.rfl, h s s (fun _ => rfl) rfl rfl rfl hs⟩

theorem Moves.write {R : Master → Prop} {f : Master → Master}
    (h : ∀ s, P s → Move C honest allow s (f s) ∧ R (f s)) :
    Moves C honest allow P (Locked.write f) (fun _ => R) := by
  refine Moves.bind (Q := fun _ => R) (Moves.attempt ?_) (fun _ => Moves.attempt ?_)
  · rintro s n a s' hs heq
    cases heq
    exact h s hs
  · rintro s n a s' hs heq
    cases heq
    exact ⟨Move.rfl, hs⟩

theorem Moves.update (h : Sliced P) {f : Master → Master}
    (same : ∀ s k, (f s).slice k = s.slice k) (dirs : ∀ s, (f s).store.dirs = s.store.dirs)
    (clock : ∀ s, (f s).clock = s.clock) (gen : ∀ s, (f s).nextGeneration = s.nextGeneration) :
    Moves C honest allow P (Critical.update f) (fun _ => P) :=
  Spec.update f (fun s hs => ⟨Move.quiet (clock s).ge (gen s).ge (same s),
    h s (f s) (same s) (dirs s) (clock s) (gen s) hs⟩)

theorem Moves.utcNow {Q : Nat → Master → Prop}
    (h : ∀ s n, P s → Q (s.clock + n) { s with clock := s.clock + n }) :
    Moves C honest allow P Locked.utcNow Q :=
  Spec.elapse (fun s n hs =>
    ⟨Move.quiet (Nat.le_add_right _ _) le_rfl (fun _ => rfl), h s n hs⟩)

theorem Moves.random {Q : Nat → Master → Prop} (h : ∀ s n, P s → Q n s) :
    Moves C honest allow P Locked.random Q :=
  Spec.elapse (fun s n hs => ⟨Move.rfl, h s n hs⟩)

end Rules

theorem At.sliced {file : Prop} {key : Key} {a : KeyState} : Sliced (At file key a) := by
  intro s s' same dirs _ _ h
  exact ⟨(same key).trans h.slice, fun hf => dirs ▸ h.notDir hf⟩

section Files

variable {C : Config} {honest : Prop} {allow : Key → Kind → Prop} {file : Prop} {key : Key}
  {kind : Kind} {a : KeyState}

theorem Moves.writeKey {b : KeyState} {f : Master → Master} (allowed : allow key kind)
    (op : ∀ s, At file key a s → KeyOp C honest key s.clock s.nextGeneration
      (f s).nextGeneration kind a b)
    (there : ∀ s, s.slice key = a → (f s).slice key = b)
    (others : ∀ s k, k ≠ key → (f s).slice k = s.slice k)
    (store : ∀ s, (f s).store = s.store) (clock : ∀ s, (f s).clock = s.clock) :
    Moves C honest allow (At file key a) (Locked.write f) (fun _ => At file key b) := by
  refine Moves.write (fun s hs => ⟨?_, there s hs.slice, fun hf => by
    rw [store s]; exact hs.notDir hf⟩)
  exact Move.single allowed (clock s) hs.slice (op s hs) (there s hs.slice) (others s)

variable {i : MasterWriteIntent} {sourceHost : String} {s : Master} {store : Store} {bytes : Bytes}
  {item : ClusterPutItem}

theorem moves_writeIntent (allowed : allow key .request) (absent : a.intent = none)
    (keyed : i.item.key = key) :
    Moves C honest allow (At file key a) (writeIntent key i)
      (fun _ => At file key { a with intent := some i }) := by
  refine Moves.writeKey allowed (fun s hs => .writeIntent i absent keyed) ?_ ?_
    (fun _ => rfl) (fun _ => rfl)
  · rintro s rfl
    simp [Master.slice]
  · intro s k hk
    simp [Master.slice, Finmap.lookup_insert_of_ne _ hk]

theorem moves_removeIntent {item : BackendQueueItem} (allowed : allow key .replay)
    (intent : a.intent = some i) (payload : a.payload = some i.item.bytes)
    (queued : a.item = some item) (operation : item.operation = putOperation C i.item)
    (tomb : a.tomb = none) :
    Moves C honest allow (At file key a) (removeIntent key)
      (fun _ => At file key { a with intent := none }) := by
  refine Moves.writeKey allowed
    (fun s hs => .removeIntent i item intent payload queued operation tomb) ?_ ?_
    (fun _ => rfl) (fun _ => rfl)
  · rintro s rfl
    simp [Master.slice]
  · intro s k hk
    simp [Master.slice, Finmap.lookup_erase_ne hk]

theorem moves_updateCatalog {item : Option LocalGcItem} :
    Moves C honest allow (At file key a) (updateLocalGcCatalog key item)
      (fun _ => At file key a) :=
  Moves.update At.sliced (fun _ _ => rfl) (fun _ => rfl) (fun _ => rfl) (fun _ => rfl)

theorem moves_updateStoreBytes {old new : Nat} :
    Moves C honest allow (At file key a) (updateStoreBytes old new) (fun _ => At file key a) :=
  Moves.update At.sliced (fun _ _ => rfl) (fun _ => rfl) (fun _ => rfl) (fun _ => rfl)

theorem moves_removeLocalGc (allowed : allow key kind)
    (op : ∀ clock gen, KeyOp C honest key clock gen gen kind a { a with tomb := none }) :
    Moves C honest allow (At file key a) (removeLocalGc key)
      (fun _ => At file key { a with tomb := none }) := by
  refine Moves.writeKey allowed (fun s hs => op _ _) ?_ ?_ (fun _ => rfl) (fun _ => rfl)
  · rintro s rfl
    simp [Master.slice]
  · intro s k hk
    simp [Master.slice, Finmap.lookup_erase_ne hk]

theorem moves_cancelLocalGc (allowed : allow key .replay) (intent : a.intent = some i)
    (payload : a.payload = some i.item.bytes) :
    Moves C honest allow (At file key a) (cancelLocalGc key)
      (fun _ => At file key { a with tomb := none }) := by
  refine Moves.bind (Q := fun found s => (found = false → a.tomb = none) ∧ At file key a s)
    (Moves.look _ ?_) (fun found => Moves.known (fun tomb => Moves.ite ?_ ?_))
  · intro s hs
    refine ⟨fun absent => ?_, hs⟩
    rw [← hs.slice]
    simpa [Master.slice] using absent
  · intro _
    exact Moves.bind (moves_removeLocalGc allowed (fun _ _ => .cancel i intent payload))
      (fun _ => Moves.bind moves_updateCatalog (fun _ => Moves.pure _ (fun _ h => h)))
  · intro absent
    have same : a = { a with tomb := none } := by
      cases a
      simpa using tomb (by simpa using absent)
    refine Moves.bind moves_updateCatalog (fun _ => Moves.pure _ (fun s h => ?_))
    rwa [← same]

theorem any_operation_eq {found : Option BackendQueueItem} {operation : BackendQueueOperation} :
    found.any (fun item => item.operation == operation) = true ↔
      ∃ item, found = some item ∧ item.operation = operation := by
  cases found <;> simp

theorem moves_enqueue {operation : BackendQueueOperation} (allowed : allow key kind)
    (op : ∀ clock gen item, item.operation = operation → FreshItem clock gen item →
      KeyOp C honest key clock gen (gen + 1) kind a { a with item := some item }) :
    Moves C honest allow (At file key a) (writeBackendQueueItem sourceHost key operation)
      (fun _ s => ∃ item, item.operation = operation ∧
        At file key { a with item := some item } s) := by
  refine Moves.bind (Q := fun now s => At file key a s ∧ s.clock = now) (Moves.utcNow ?_) ?_
  · intro s n hs
    exact ⟨⟨hs.slice, hs.notDir⟩, rfl⟩
  intro now
  refine Moves.bind (Q := fun existing s =>
    (existing = a.item.map (normalizeLegacyBackendSourceHost key)) ∧ At file key a s ∧
      s.clock = now) (Moves.read _ ?_) (fun existing => Moves.known (fun found => Moves.ite ?_ ?_))
  · intro s hs
    refine ⟨?_, hs⟩
    rw [← hs.1.slice]
    rfl
  · intro reused
    obtain ⟨item, heq, same⟩ := any_operation_eq.mp reused
    rw [found, Option.map_eq_some_iff] at heq
    obtain ⟨raw, hraw, rfl⟩ := heq
    refine Moves.pure _ (fun s hs => ⟨raw, by simpa using same, ?_⟩)
    have : { a with item := some raw } = a := by cases a; simpa using hraw.symm
    rw [this]
    exact hs.1
  · intro _
    refine Moves.bind (Q := fun gen s => At file key a s ∧ s.clock = now ∧ s.nextGeneration = gen)
      (Moves.look _ (fun s hs => ⟨hs.1, hs.2, rfl⟩)) (fun gen => ?_)
    refine Moves.bind (Moves.write (R := fun s => ∃ item, item.operation = operation ∧
      At file key { a with item := some item } s) ?_) (fun _ => Moves.pure _ (fun _ h => h))
    rintro s ⟨⟨rfl, notDir⟩, rfl, rfl⟩
    have there : ∀ item : BackendQueueItem, Master.slice { s with
        queue := s.queue.insert key item, nextGeneration := s.nextGeneration + 1 } key =
          { s.slice key with item := some item } := by
      intro item
      simp [Master.slice]
    refine ⟨Move.single allowed rfl rfl (op _ _ _ rfl ⟨rfl, rfl⟩) (there _) ?_,
      _, rfl, there _, notDir⟩
    intro k hk
    simp [Master.slice, Finmap.lookup_insert_of_ne _ hk]

theorem moves_storeGetOptional :
    Moves C honest allow (At file key a) (Locked.storeGetOptional key)
      (fun found s => found = a.payload ∧ At True key a s) := by
  refine Moves.attempt ?_
  intro s n found s' hs heq
  split at heq
  · next ok =>
    cases heq
    obtain ⟨lookup, notDir⟩ := Store.getOptional_ok ok
    refine ⟨Move.rfl, ?_, hs.slice, fun _ => notDir⟩
    rw [lookup, ← hs.slice]
    rfl
  · cases heq

theorem slice_of_files (h : store.files = s.store.files) (k : Key) :
    Master.slice { s with store } k = s.slice k := by
  simp [Master.slice, h]

theorem moves_createDir {path : Key} (other : path ≠ key) :
    Moves C honest allow (At file key a) (Locked.createDir path) (fun _ => At file key a) := by
  refine Moves.attempt ?_
  intro s n _ s' hs heq
  split at heq
  · next store ok =>
    cases heq
    have same := slice_of_files (s := s) (Store.createDir_files ok)
    refine ⟨Move.quiet le_rfl le_rfl same, (same key).trans hs.slice, fun hf => ?_⟩
    exact fun hd => hs.notDir hf (Store.createDir_dirs ok hd other.symm)
  · cases heq

theorem moves_createDirs (dirs : List Key) (others : ∀ path ∈ dirs, path ≠ key) :
    Moves C honest allow (At file key a) (createDirs dirs) (fun _ => At file key a) := by
  induction dirs with
  | nil => exact Moves.pure _ (fun _ h => h)
  | cons path rest ih =>
    refine Moves.bind (moves_createDir (others path (List.mem_cons_self ..)))
      (fun _ => Moves.bind (Moves.fsync At.sliced) (fun _ => ih ?_))
    exact fun p hp => others p (List.mem_cons_of_mem _ hp)

theorem mem_of_mem_missingDirs {dirs : List Key} {path : Key} (h : path ∈ missingDirs store dirs) :
    path ∈ dirs := by
  unfold missingDirs at h
  exact List.mem_reverse.mp ((List.takeWhile_sublist _).subset (List.mem_reverse.mp h))

theorem moves_validated (check : Except Failure Unit) :
    Moves C honest allow (At file key a) (validated check) (fun _ => At file key a) := by
  cases check with
  | ok _ => exact Moves.pure _ (fun _ h => h)
  | error e => exact Moves.fail e

theorem moves_ensureStoreKeyParent :
    Moves C honest allow (At file key a) (ensureStoreKeyParent key) (fun _ => At file key a) := by
  refine Moves.bind (moves_validated _) (fun _ => Moves.bind (Q := fun _ => At file key a)
    (Moves.look _ (fun _ h => h)) (fun store => Moves.bind (Q := fun _ => At file key a)
      (Moves.require (fun _ _ h => h)) (fun _ => moves_createDirs _ ?_)))
  exact fun path hp => ne_of_mem_ancestors (mem_of_mem_missingDirs hp)

theorem slice_of_insert (h : store.files = s.store.files.insert key bytes) :
    Master.slice { s with store } key = { s.slice key with payload := some bytes } ∧
      ∀ k, k ≠ key → Master.slice { s with store } k = s.slice k := by
  refine ⟨by simp [Master.slice, h], fun k hk => ?_⟩
  simp [Master.slice, h, Finmap.lookup_insert_of_ne _ hk]

theorem At.of_insert (hs : s.slice key = a) (h : store.files = s.store.files.insert key bytes) :
    At True key { a with payload := some bytes } { s with store } := by
  have lookup : store.files.lookup key = some bytes := by simp [h]
  exact ⟨hs ▸ (slice_of_insert h).1, fun _ => Store.notMem_dirs_of_lookup lookup⟩

theorem moves_storePut (allowed : allow key kind)
    (op : ∀ clock gen, KeyOp C honest key clock gen gen kind a { a with payload := some bytes }) :
    Moves C honest allow (At file key a) (Locked.storePut key bytes)
      (fun _ => At True key { a with payload := some bytes }) := by
  refine Moves.attempt ?_
  intro s n _ s' hs heq
  split at heq
  · next store ok =>
    cases heq
    have files := Store.put_files ok
    refine ⟨Move.single allowed rfl hs.slice (op _ _) (At.of_insert hs.slice files).slice
      (slice_of_insert files).2, At.of_insert hs.slice files⟩
  · cases heq

theorem moves_storePutIfAbsent (allowed : allow key kind) (op : a.payload = none → ∀ clock gen,
      KeyOp C honest key clock gen gen kind a { a with payload := some bytes }) :
    Moves C honest allow (At file key a) (Locked.storePutIfAbsent key bytes)
      (fun stored s =>
        (stored = true ∧ a.payload = none ∧ At True key { a with payload := some bytes } s) ∨
        (stored = false ∧ s.store.has key = true ∧ At file key a s)) := by
  refine Moves.attempt ?_
  intro s n stored s' hs heq
  split at heq
  · next store ok =>
    cases heq
    rcases Store.putIfAbsent_files ok with ⟨rfl, absent, files⟩ | ⟨rfl, rfl, there⟩
    · have payload : a.payload = none := by rw [← hs.slice]; exact absent
      exact ⟨Move.single allowed rfl hs.slice (op payload _ _) (At.of_insert hs.slice files).slice
        (slice_of_insert files).2, Or.inl ⟨rfl, payload, At.of_insert hs.slice files⟩⟩
    · exact ⟨Move.rfl, Or.inr ⟨rfl, there, hs⟩⟩
  · cases heq

theorem At.has_eq_false (h : At True key a s) (absent : a.payload = none) :
    s.store.has key = false := by
  have lookup : s.store.files.lookup key = none := by
    rw [← h.slice] at absent
    exact absent
  simp [Store.has, lookup, h.notDir trivial]

theorem map_digest_eq {found : Option Bytes} :
    found.map C.digest = some (C.digest bytes) ↔ found = some bytes := by
  cases found <;> simp

theorem moves_enforceStoreQuota {P : Master → Prop} {old new : Nat} :
    Moves C honest allow P (enforceStoreQuota C old new) (fun _ => P) :=
  Moves.bind (Q := fun _ => P) (Moves.look _ (fun _ h => h))
    (fun _ => Moves.require (fun _ _ h => h))

def KeyState.written (a : KeyState) (bytes : Bytes) (item : BackendQueueItem) : KeyState :=
  { a with payload := some bytes, item := some item, tomb := none, intent := none }

theorem moves_replayIntent (allowed : allow key .replay) (intent : a.intent = some i) :
    Moves C honest allow (At file key a) (replayIntent C key i) (fun _ s =>
      ∃ item, item.operation = putOperation C i.item ∧
        At True key (a.written i.item.bytes item) s) := by
  refine Moves.bind (Q := fun _ s => i.item.key = key ∧ At file key a s)
    (Moves.require (fun keyed _ h => ⟨by simpa using keyed, h⟩)) (fun _ => Moves.known ?_)
  intro keyed
  refine Moves.bind (moves_validated _) (fun _ => Moves.bind moves_storeGetOptional (fun old =>
    Moves.known (fun found => ?_)))
  subst found
  refine Moves.bind (Q := fun _ => At True key { a with payload := some i.item.bytes }) ?_ ?_
  · refine Moves.when (fun changed => ?_) (fun unchanged s hs => ?_)
    · refine Moves.bind (Q := fun _ s => (i.item.conditional = true → a.payload = none) ∧
        At True key a s) (Moves.require (fun fits s hs => ⟨fun cond => ?_, hs⟩))
        (fun _ => Moves.known (fun fits => ?_))
      · simpa [cond] using fits
      · exact Moves.bind moves_enforceStoreQuota (fun _ =>
          Moves.bind moves_ensureStoreKeyParent (fun _ =>
            Moves.bind (moves_storePut allowed (fun _ _ => .storePut i intent fits))
              (fun _ => moves_updateStoreBytes)))
    · have payload : a.payload = some i.item.bytes := by
        simpa [map_digest_eq] using unchanged
      rwa [← payload]
  intro _
  refine Moves.bind (Q := fun _ s => ∃ item, item.operation = putOperation C i.item ∧
    At True key { a with payload := some i.item.bytes, item := some item } s) ?_ ?_
  · unfold enqueueBackendPut
    rw [keyed]
    exact moves_enqueue allowed (fun _ _ item operation fresh =>
      .enqueuePut i item intent rfl operation fresh)
  · intro _ fates s ⟨item, operation, hs⟩
    refine Moves.bind (moves_cancelLocalGc (a := { a with
      payload := some i.item.bytes, item := some item }) allowed intent rfl) (fun _ => ?_) fates s hs
    exact Moves.conseq (moves_removeIntent (a := { a with
      payload := some i.item.bytes, item := some item, tomb := none }) allowed intent rfl rfl
      operation rfl) (fun _ h => h) (fun _ _ h => ⟨item, operation, h⟩)

/-- What a recovery does to the key: nothing, or the whole pending write. -/
def Recovered (C : Config) (a b : KeyState) : Prop :=
  (a.intent = none ∧ b = a) ∨
    ∃ i item, a.intent = some i ∧ item.operation = putOperation C i.item ∧
      b = a.written i.item.bytes item

theorem Recovered.intent {b : KeyState} (h : Recovered C a b) : b.intent = none := by
  rcases h with ⟨absent, rfl⟩ | ⟨i, item, _, _, rfl⟩
  · exact absent
  · rfl

theorem moves_recoverForKey (allowed : allow key .replay) :
    Moves C honest allow (fun s => s.slice key = a) (recoverMasterWriteIntentForKey C key)
      (fun _ s => ∃ b, Recovered C a b ∧ At False key b s) := by
  refine Moves.bind (Q := fun found s => found = a.intent ∧ At False key a s)
    (Moves.read _ (fun s hs => ⟨?_, hs, nofun⟩)) (fun found => Moves.known (fun heq => ?_))
  · rw [← hs]
    rfl
  · cases found with
    | none => exact Moves.pure _ (fun s hs => ⟨a, Or.inl ⟨heq.symm, rfl⟩, hs.slice, nofun⟩)
    | some i =>
      refine Moves.conseq (moves_replayIntent allowed heq.symm) (fun _ h => h) ?_
      rintro _ s ⟨item, operation, hs⟩
      exact ⟨_, Or.inr ⟨i, item, heq.symm, operation, rfl⟩, hs.slice, nofun⟩

theorem moves_needsBackup {digest : String} {changed wasTombstoned : Bool} :
    Moves C honest allow (At file key a) (needsBackup key digest changed wasTombstoned)
      (fun backup s => (backup = false → changed = false ∧ wasTombstoned = false ∧ a.item = none) ∧
        At file key a s) := by
  refine Moves.bind (Q := fun queued s => (queued = a.item.isSome) ∧ At file key a s)
    (Moves.look _ (fun s hs => ⟨?_, hs⟩)) (fun queued => Moves.known (fun heq => Moves.ite ?_ ?_))
  · rw [← hs.slice]
    rfl
  · exact fun _ => Moves.pure _ (fun s hs => ⟨nofun, hs⟩)
  · intro none
    refine Moves.bind (Q := fun _ => At file key a) (Moves.bind (Q := fun _ => At file key a)
      (Moves.read _ (fun _ h => h)) (fun _ => Moves.pure _ (fun _ h => h)))
      (fun _ => Moves.pure _ (fun s hs => ⟨fun _ => ?_, hs⟩))
    simpa [heq, and_assoc] using none

theorem moves_storePayload_same (same : a.payload = some item.bytes) :
    Moves C honest allow (At True key a) (storePayload C item a.payload)
      (fun stored s => stored = false ∧ At True key a s) := by
  rw [same]
  refine Moves.ite (fun _ => ?_) (fun _ => ?_)
  · exact Moves.bind (Q := fun _ => At True key a) (Moves.require (fun _ _ h => h))
      (fun _ => Moves.pure _ (fun _ h => ⟨rfl, h⟩))
  · refine Moves.bind moves_enforceStoreQuota (fun _ => Moves.ite (fun _ => ?_) (fun other => ?_))
    · exact Moves.pure _ (fun _ h => ⟨rfl, h⟩)
    · exact absurd rfl other

theorem moves_storePayload (keyed : item.key = key) (allowed : allow key .replay)
    (intent : a.intent = some i) (carries : i.item = item)
    (fits : item.conditional = true → a.payload = none ∨ a.payload = some item.bytes) :
    Moves C honest allow (At True key a) (storePayload C item a.payload)
      (fun _ => At True key { a with payload := some item.bytes }) := by
  by_cases same : a.payload = some item.bytes
  · refine Moves.conseq (moves_storePayload_same same) (fun _ h => h) (fun _ s h => ?_)
    rw [← same]
    exact h.2
  have op : (item.conditional = true → a.payload = none) → ∀ clock gen,
      KeyOp C honest key clock gen gen .replay a { a with payload := some item.bytes } := by
    intro absent clock gen
    exact carries ▸ KeyOp.storePut i intent (carries ▸ absent)
  refine Moves.ite (fun cond => ?_) (fun uncond => ?_)
  · have absent : a.payload = none := (fits cond).resolve_right same
    rw [absent]
    refine Moves.bind moves_enforceStoreQuota (fun _ => ?_)
    rw [keyed]
    refine Moves.bind moves_ensureStoreKeyParent (fun _ => Moves.conseq
      (moves_storePutIfAbsent allowed (fun _ => op (fun _ => absent))) (fun _ h => h) ?_)
    rintro stored s (⟨-, -, hs⟩ | ⟨-, there, hs⟩)
    · exact hs
    · rw [hs.has_eq_false absent] at there
      cases there
  · refine Moves.bind moves_enforceStoreQuota (fun _ => Moves.ite (fun same' => ?_) (fun _ => ?_))
    · exact absurd (map_digest_eq.mp same') same
    · rw [keyed]
      exact Moves.bind moves_ensureStoreKeyParent (fun _ => Moves.bind
        (moves_storePut allowed (op (fun cond => absurd cond uncond)))
        (fun _ => Moves.pure _ (fun _ h => h)))

/-- A key whose acknowledged content is `bytes`. -/
structure KeyState.Holds (b : KeyState) (bytes : Bytes) : Prop where
  payload : b.payload = some bytes
  intent : b.intent = none
  tomb : b.tomb = none
  item : ∀ item, b.item = some item → item.operation ≠ .delete

theorem holds_written {item : BackendQueueItem} {put : ClusterPutItem}
    (operation : item.operation = putOperation C put) : (a.written bytes item).Holds bytes := by
  refine ⟨rfl, rfl, rfl, fun found heq => ?_⟩
  cases heq
  simp [operation, putOperation]

theorem moves_finishPut_unchanged (same : a.payload = some item.bytes) :
    Moves C honest allow (At True key a) (finishPut C sourceHost item a.payload false false)
      (fun _ => At True key a) := by
  refine Moves.bind (moves_storePayload_same same) (fun stored => Moves.bind
    (Q := fun _ => At True key a) (Moves.when (fun new => ?_) (fun _ _ h => h.2))
    (fun _ => Moves.pure _ (fun _ h => h)))
  refine Moves.known (fun old => ?_)
  rw [new] at old
  cases old

theorem moves_finishPut {wasTombstoned : Bool} (keyed : item.key = key)
    (allowed : allow key .replay) (intent : a.intent = some { sourceHost, item })
    (fits : item.conditional = true → a.payload = none ∨ a.payload = some item.bytes)
    (alive : wasTombstoned = false → a.tomb = none) :
    Moves C honest allow (At True key a)
      (finishPut C sourceHost item a.payload wasTombstoned true) (fun _ s =>
        ∃ queued, queued.operation = putOperation C item ∧
          At True key (a.written item.bytes queued) s) := by
  refine Moves.bind (moves_storePayload keyed allowed intent rfl fits) (fun stored => Moves.bind
    (Q := fun _ => At True key { a with payload := some item.bytes })
    (Moves.when (fun _ => moves_updateStoreBytes) (fun _ _ h => h)) (fun _ => Moves.bind
      (Q := fun _ => At True key { a with payload := some item.bytes, tomb := none })
      (Moves.when (fun _ => ?_) (fun live s h => ?_)) (fun _ => Moves.bind
        (Q := fun _ s => ∃ queued, queued.operation = putOperation C item ∧
          At True key (a.written item.bytes queued) s)
        (Moves.when (fun _ => ?_) nofun) (fun _ => Moves.pure _ (fun _ h => h)))))
  · rw [keyed]
    exact Moves.bind (moves_cancelLocalGc (a := { a with payload := some item.bytes }) allowed
      intent rfl) (fun _ => Moves.pure _ (fun _ h => h))
  · rwa [← alive live]
  · unfold enqueueBackendPut
    rw [keyed]
    refine Moves.bind (moves_enqueue (a := { a with payload := some item.bytes, tomb := none })
      allowed (fun _ _ queued operation fresh =>
        .enqueuePut _ queued intent rfl operation fresh)) ?_
    intro _ fates s ⟨queued, operation, hs⟩
    exact Moves.conseq (moves_removeIntent (a := { a with
      payload := some item.bytes, item := some queued, tomb := none }) allowed intent rfl rfl
      operation rfl) (fun _ h => h) (fun _ _ h => ⟨queued, operation, h⟩) fates s hs

theorem moves_processPut (keyed : item.key = key) (request : allow key .request)
    (replay : allow key .replay) :
    Moves C honest allow (fun s => s.slice key = a) (processPut C sourceHost item)
      (fun _ s => ∃ b : KeyState, b.Holds item.bytes ∧ s.slice key = b) := by
  subst keyed
  refine Moves.bind (moves_recoverForKey replay) ?_
  intro _ fates s ⟨b, recovered, hs⟩
  refine Moves.bind (Q := fun wasTombstoned s => wasTombstoned = b.tomb.isSome ∧
    At False item.key b s) (Moves.look _ (fun s hs => ⟨?_, hs⟩)) (fun wasTombstoned =>
      Moves.known (fun tomb => Moves.bind moves_storeGetOptional (fun existing =>
        Moves.known (fun found => ?_)))) fates s hs
  · rw [← hs.slice]
    rfl
  subst found
  refine Moves.bind (Q := fun _ s => (item.conditional = true →
    b.payload = none ∨ b.payload = some item.bytes) ∧ At True item.key b s)
    (Moves.require (fun fits s hs => ⟨fun cond => ?_, hs⟩)) (fun _ => Moves.known (fun fits => ?_))
  · cases found : b.payload with
    | none => exact Or.inl rfl
    | some bytes =>
      have := fits
      simp only [cond, found] at this
      simpa using this
  refine Moves.bind moves_needsBackup (fun backup => Moves.known (fun unchanged => ?_))
  cases backup with
  | false =>
    obtain ⟨same, dead, idle⟩ := unchanged rfl
    have payload : b.payload = some item.bytes := by simpa [map_digest_eq] using same
    subst dead
    refine Moves.bind (Q := fun _ => At True item.key b) (Moves.pure _ (fun _ h => h))
      (fun _ => Moves.conseq (moves_finishPut_unchanged payload) (fun _ h => h)
        (fun _ s hs => ⟨b, ⟨payload, recovered.intent, by simpa using tomb.symm, ?_⟩, hs.slice⟩))
    intro queued heq
    rw [idle] at heq
    cases heq
  | true =>
    refine Moves.bind (Moves.bind moves_enforceStoreQuota (fun _ =>
      moves_writeIntent request recovered.intent rfl)) (fun _ => ?_)
    refine Moves.conseq (moves_finishPut (a := { b with intent := some { sourceHost, item } })
      rfl replay rfl fits (fun live => ?_)) (fun _ h => h) ?_
    · simpa [live] using tomb.symm
    · rintro _ s ⟨queued, operation, hs⟩
      exact ⟨_, holds_written operation, hs.slice⟩

end Files

section Requests

variable {C : Config} {honest : Prop} {key : Key} {a : KeyState}

def putsAllow (items : List ClusterPutItem) (k : Key) (kind : Kind) : Prop :=
  (∃ item ∈ items, item.key = k) ∧ (kind = .request ∨ kind = .replay)

def lastFor (key : Key) : List ClusterPutItem → Option ClusterPutItem
  | [] => none
  | first :: rest => (lastFor key rest).or (if first.key = key then some first else none)

theorem lastFor_eq_none {items : List ClusterPutItem} :
    lastFor key items = none ↔ ∀ item ∈ items, item.key ≠ key := by
  induction items with
  | nil => simp [lastFor]
  | cons first rest ih => simp [lastFor, ih, and_comm]

theorem moves_any (key : Key) {α : Type} {allow : Key → Kind → Prop} {m : Locked α}
    {Q : KeyState → α → Master → Prop}
    (h : ∀ a, Moves C honest allow (fun s => s.slice key = a) m (Q a)) :
    Moves C honest allow (fun _ => True) m (fun r s => ∃ a, Q a r s) := by
  intro fates s _
  exact Moves.conseq (h (s.slice key)) (fun _ h => h) (fun _ _ h => ⟨_, h⟩) fates s rfl

theorem moves_processPuts (key : Key) {sourceHost : String} (items : List ClusterPutItem) :
    Moves C honest (putsAllow items) (fun _ => True) (processPuts C sourceHost items)
      (fun _ s => ∀ item, lastFor key items = some item → (s.slice key).Holds item.bytes) := by
  induction items with
  | nil => exact Moves.pure _ (fun _ _ item h => by cases h)
  | cons first rest ih =>
    have round : Moves C honest (putsAllow (first :: rest)) (fun _ => True)
        (processPut C sourceHost first) (fun _ s => (s.slice first.key).Holds first.bytes) := by
      refine Moves.conseq (moves_any first.key (fun a => moves_processPut rfl ?_ ?_)) (fun _ h => h) ?_
      · exact ⟨⟨first, List.mem_cons_self .., rfl⟩, Or.inl rfl⟩
      · exact ⟨⟨first, List.mem_cons_self .., rfl⟩, Or.inr rfl⟩
      · rintro _ s ⟨_, b, holds, rfl⟩
        exact holds
    have sub : ∀ k kind, putsAllow rest k kind → putsAllow (first :: rest) k kind :=
      fun k kind ⟨⟨item, mem, heq⟩, hk⟩ => ⟨⟨item, List.mem_cons_of_mem _ mem, heq⟩, hk⟩
    refine Moves.bind round (fun _ => ?_)
    cases later : lastFor key rest with
    | some last =>
      refine Moves.bind (Moves.conseq (ih.mono sub) (fun _ _ => trivial) (fun _ _ h => h))
        (fun _ => Moves.pure _ (fun s hs item hitem => hs item ?_))
      simpa [lastFor, later] using hitem
    | none =>
      -- no later item writes the key, so the rest of the batch frames it
      have untouched : ∀ kind, ¬putsAllow rest key kind := by
        rintro kind ⟨⟨item, mem, heq⟩, _⟩
        exact lastFor_eq_none.mp later item mem heq
      intro fates s hs
      refine Moves.bind (Moves.conseq ((ih.frame untouched).mono sub)
        (fun s' (h : s'.slice key = s.slice key) => ⟨trivial, h⟩) (fun _ _ h => h.2))
        (fun _ => Moves.pure _ (fun s' hs' item hitem => ?_)) fates s rfl
      by_cases here : first.key = key
      · have : first = item := by simpa [lastFor, here, later] using hitem
        rw [hs', ← this, ← here]
        exact hs
      · simp [lastFor, here, later] at hitem

def deleteAllow (key k : Key) (kind : Kind) : Prop := k = key ∧ (kind = .request ∨ kind = .replay)

/-- A key with a pending DELETE and no write to replay. -/
structure KeyState.Condemned (b : KeyState) : Prop where
  intent : b.intent = none
  item : ∃ item, b.item = some item ∧ item.operation = .delete

theorem moves_durableDelete {sourceHost : String} :
    Moves C honest (deleteAllow key) (fun _ => True) (durableDelete C sourceHost key)
      (fun _ s => (s.slice key).Condemned) := by
  refine Moves.bind (moves_any key (fun a => moves_recoverForKey ⟨rfl, Or.inr rfl⟩)) ?_
  intro _ fates s ⟨a, b, recovered, hs⟩
  refine Moves.bind (moves_enqueue (show deleteAllow key key .request from ⟨rfl, Or.inl rfl⟩)
    (fun _ _ item operation fresh => .enqueueDelete item recovered.intent operation fresh))
    (fun _ => Moves.pure _ ?_) fates s hs
  rintro s' ⟨item, operation, hs'⟩
  rw [hs'.slice]
  exact ⟨recovered.intent, item, rfl, operation⟩

def hydrateAllow (key k : Key) (kind : Kind) : Prop := k = key ∧ kind = .hydrate

theorem moves_hydrate {bytes : Bytes} :
    Moves C honest (hydrateAllow key) (fun _ => True) (hydrate C key bytes) (fun _ _ => True) := by
  refine Moves.conseq (moves_any key (Q := fun _ _ _ => True) (fun a => ?_))
    (fun _ h => h) (fun _ _ _ => trivial)
  refine Moves.conseq (P := At False key a) (Q := fun _ _ => True) ?_ (fun s h => ⟨h, nofun⟩)
    (fun _ _ h => h)
  refine Moves.bind (Moves.bind (moves_validated _) (fun _ => Moves.look _ (fun _ h => h)))
    (fun found => Moves.bind (Q := fun _ => At False key a) (Moves.look _ (fun _ h => h))
      (fun allowed => Moves.when (fun _ => ?_) (fun _ _ _ => trivial)))
  refine Moves.bind moves_ensureStoreKeyParent (fun _ => Moves.bind
    (moves_storePutIfAbsent (show hydrateAllow key key .hydrate from ⟨rfl, rfl⟩)
      (fun absent _ _ => .hydrate bytes absent)) (fun stored => ?_))
  refine Moves.when (fun new => ?_) (fun _ _ _ => trivial)
  refine Moves.conseq (P := At True key { a with payload := some bytes }) (Q := fun _ _ => True)
    (Moves.conseq moves_updateStoreBytes (fun _ h => h) (fun _ _ _ => trivial)) ?_
    (fun _ _ h => h)
  rintro s (⟨-, -, hs⟩ | ⟨old, -, -⟩)
  · exact hs
  · rw [new] at old
    cases old

def replayAllow (_ : Key) (kind : Kind) : Prop := kind = .replay

theorem moves_recoverEntry :
    Moves C honest replayAllow (fun _ => True) (recoverEntry C key) (fun _ _ => True) := by
  refine Moves.bind (Q := fun _ _ => True) (Moves.read _ (fun _ _ => trivial)) (fun found => ?_)
  cases found with
  | none => exact Moves.fail _
  | some intent =>
    refine Moves.bind (Q := fun _ _ => True) (Moves.require (fun _ _ _ => trivial)) (fun _ => ?_)
    refine Moves.conseq (moves_any key (Q := fun _ _ _ => True) (fun a => ?_))
      (fun _ h => h) (fun _ _ _ => trivial)
    exact Moves.conseq (moves_recoverForKey rfl) (fun _ h => h) (fun _ _ _ => trivial)

theorem moves_recoverEach (keys : List Key) :
    Moves C honest replayAllow (fun _ => True) (recoverEach C keys) (fun _ _ => True) := by
  induction keys with
  | nil => exact Moves.pure _ (fun _ _ => trivial)
  | cons key rest ih => exact Moves.bind moves_recoverEntry (fun _ => ih)

theorem moves_recoverMasterWriteIntents {order : List Key} :
    Moves C honest replayAllow (fun _ => True) (recoverMasterWriteIntents C order)
      (fun _ _ => True) :=
  Moves.bind (Q := fun _ _ => True) (Moves.read _ (fun _ _ => trivial))
    (fun names => moves_recoverEach names)

def legacyAllow (_ : Key) (kind : Kind) : Prop := kind = .legacy

theorem moves_storeGet {allow : Key → Kind → Prop} {file : Prop} :
    Moves C honest allow (At file key a) (Locked.storeGet key)
      (fun bytes s => a.payload = some bytes ∧ At file key a s) := by
  refine Moves.attempt ?_
  intro s n bytes s' hs heq
  split at heq
  · next ok =>
    cases heq
    refine ⟨Move.rfl, ?_, hs⟩
    rw [← hs.slice]
    exact Store.get_ok ok
  · cases heq

theorem moves_reconcileEntry :
    Moves C honest legacyAllow (fun _ => True) (reconcileEntry C key) (fun _ _ => True) := by
  refine Moves.conseq (moves_any key (Q := fun _ _ _ => True) (fun a => ?_))
    (fun _ h => h) (fun _ _ _ => trivial)
  refine Moves.bind (Q := fun skipped s => (skipped = false → a.item = none ∧ a.receipt = none ∧
    a.tomb = none) ∧ At False key a s) (Moves.look _ (fun s hs => ⟨fun kept => ?_, hs, nofun⟩))
    (fun skipped => Moves.known (fun old => Moves.when (fun kept => ?_) (fun _ _ _ => trivial)))
  · rw [← hs]
    have kept := kept
    simp only [Bool.or_eq_false_iff, Option.isSome_eq_false_iff, Option.isNone_iff_eq_none] at kept
    exact ⟨kept.1.1.2, kept.1.2, kept.2⟩
  · obtain ⟨item, receipt, tomb⟩ := old (by simpa using kept)
    refine Moves.bind (moves_validated _) (fun _ => Moves.bind moves_storeGet (fun bytes =>
      Moves.known (fun payload => Moves.bind (moves_enqueue (show legacyAllow key .legacy from rfl)
        (fun _ _ queued operation fresh => ?_)) (fun _ => Moves.pure _ (fun _ _ => trivial)))))
    exact .enqueueLegacy queued bytes _ _ item receipt tomb payload operation fresh

theorem moves_reconcileEach (keys : List Key) :
    Moves C honest legacyAllow (fun _ => True) (reconcileEach C keys) (fun _ _ => True) := by
  induction keys with
  | nil => exact Moves.pure _ (fun _ _ => trivial)
  | cons key rest ih => exact Moves.bind moves_reconcileEntry (fun _ => ih)

theorem moves_reconcileLegacyBackendQueue {order : List Key} :
    Moves C honest legacyAllow (fun _ => True) (reconcileLegacyBackendQueue C order)
      (fun _ _ => True) := by
  refine Moves.bind (Q := fun _ _ => True) (Moves.look _ (fun _ _ => trivial)) (fun _ =>
    Moves.when (fun _ => ?_) (fun _ _ _ => trivial))
  refine Moves.bind (Q := fun _ _ => True) (Moves.read _ (fun _ _ => trivial)) (fun names =>
    Moves.bind (moves_reconcileEach names) (fun _ => Moves.write (fun s _ => ⟨?_, trivial⟩)))
  exact Move.quiet le_rfl le_rfl (fun _ => rfl)

end Requests

end Majutsu.Cluster
