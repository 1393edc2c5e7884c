import Majutsu.Cluster.WorkerSafety

/-!
# A worker pass is safe

The walk over the program of the worker: transfers of one item, batches that
run side by side, layers, batch deletes, rounds of the drain and the local
garbage collection. Each part keeps the facts about the scan it works on and
performs only actions of the protocol.
-/

namespace Majutsu.Cluster

open Prog Relation

section Transfers

variable {C : Config} {honest : Prop} {s s' : Master}

/-- Transfers for one key only. -/
def ActsOn (C : Config) (honest : Prop) (M : Semantics) (J : List Queued → Master → Prop)
    (key : Key) (a : Action) (s s' : Master) : Prop :=
  Acts C honest M J a s s' ∧ ∀ k kind, a.allow k kind → k = key

/-- An environment that leaves the transfers for a key to one thread. -/
structure Spares (R : Master → Master → Prop) (key : Key) : Prop where
  pending : Stable R (fun s => (s.slice key).item ≠ none)
  object : ∀ object, Stable R (fun s => (s.slice key).object = object)

variable {queued : Queued} {digest : String} {size : Nat} {bytes : Bytes}

theorem sendToBackend_delete (operation : queued.2.operation = .delete) :
    sendToBackend queued none = call (.backendDelete queued) := by
  unfold sendToBackend
  rw [operation]

theorem sendToBackend_put (operation : queued.2.operation = .put digest size false) :
    sendToBackend queued (some bytes) = call (.backendPut queued bytes) := by
  unfold sendToBackend
  rw [operation]

theorem sendToBackend_putIfAbsent (operation : queued.2.operation = .put digest size true) :
    sendToBackend queued (some bytes) = (do
      let _ ← (call (.backendPutIfAbsent queued bytes) : Program Bool)
      pure ()) := by
  unfold sendToBackend
  rw [operation]

theorem Spares.sent {r : Master → Master → Prop} (spares : Spares r queued.1) :
    Stable r (fun s => Sent C honest queued (s.slice queued.1).object) := by
  intro s s' h sent
  rwa [spares.object _ s s' h rfl]

theorem sent_of_put {v : Unit} {conditional : Bool}
    (operation : queued.2.operation = .put digest size conditional) (hash : C.digest bytes = digest)
    (does : (Action.backendPut queued bytes).Does C s (some (.ok v)) s') :
    Sent C honest queued (s'.slice queued.1).object := by
  rcases does with ⟨-, rfl⟩ | ⟨e, heq, -⟩
  · simp [Sent, operation, Master.slice, hash]
  · cases heq

/-- The answer of `put_if_absent` says nothing about the object that was there. -/
theorem sent_of_putIfAbsent {v : Bool} {conditional : Bool}
    (operation : queued.2.operation = .put digest size conditional) (hash : C.digest bytes = digest)
    (absent : honest → s.backend.lookup queued.1 = none ∨ s.backend.lookup queued.1 = some bytes)
    (does : (Action.backendPutIfAbsent queued bytes).Does C s (some (.ok v)) s') :
    Sent C honest queued (s'.slice queued.1).object := by
  simp only [Sent, operation]
  intro hon
  have does : PutIfAbsentCall s queued.1 bytes (some (.ok v)) s' := does
  unfold PutIfAbsentCall at does
  rcases absent hon with none | same
  · rw [none] at does
    rcases does with ⟨-, rfl⟩ | ⟨e, heq, -⟩
    · simp [Master.slice, hash]
    · cases heq
  · rw [same] at does
    obtain ⟨rfl, -⟩ := does
    simp [Master.slice, same, hash]

end Transfers

section Tame

variable {C : Config} {honest : Prop} {M : Semantics} {R : Master → Master → Prop}
  {J : List Queued → Master → Prop} {I : Master → Prop} {α β : Type} {s : Master}

/-- A part of the worker that may run whenever `I` holds, and keeps it. -/
def Tame (C : Config) (honest : Prop) (M : Semantics) (R : Master → Master → Prop)
    (J : List Queued → Master → Prop) (I : Master → Prop) (p : Program α) : Prop :=
  Keeps M R (Acts C honest M J) I (fun _ => True) p (fun _ _ => True)

theorem Tame.pure {v : α} (lasting : Lasting C honest M R I) :
    Tame C honest M R J I (Pure.pure v : Program α) :=
  Keeps.pure lasting.stable stable_true (fun _ _ _ => trivial)

theorem Tame.checked {result : Except Failure α} (lasting : Lasting C honest M R I) :
    Tame C honest M R J I (Cluster.checked result) :=
  fun _ hI _ _ path => ⟨lasting.stable.path path hI, fun _ _ => trivial⟩

variable {p : Program α}

theorem Tame.bind {f : α → Program β} (lasting : Lasting C honest M R I)
    (first : Tame C honest M R J I p) (rest : ∀ v, Tame C honest M R J I (f v)) :
    Tame C honest M R J I (p >>= f) :=
  Keeps.bind lasting.stable first rest

theorem Tame.outcome (h : Tame C honest M R J I p) :
    Tame C honest M R J I (Fallible.outcome p : Program (Except Failure α)) :=
  Keeps.conseq (Keeps.outcome h) (fun _ _ h => h) (fun _ _ _ => trivial)

theorem tame_of_safe (h : ∀ s, I s → Safe M R (Acts C honest M J) (fun _ t => I t) p s) :
    Tame C honest M R J I p :=
  fun s hI _ => (h s hI).mono (fun _ _ h => h) (fun _ _ _ h => h)
    (fun _ _ h => ⟨h, fun _ _ => trivial⟩)

theorem safe_quiet (a : Action) (lasting : Lasting C honest M R I) (worker : a.OfWorker)
    (ready : ∀ s, I s → a.Ready C honest s ∧ a.Tells C J s) (hI : I s) :
    Safe M R (Acts C honest M J) (fun _ t => I t) (call a) s :=
  (safe_call (Q := fun _ _ => True) (fun h => h) lasting stable_true (fun _ => stable_true) worker
    (fun s _ _ hI _ _ => ready s hI) (fun _ _ _ _ _ _ => trivial) hI trivial).mono
    (fun _ _ h => h) (fun _ _ _ h => h) (fun _ _ h => h.1)

theorem tame_locked {S : Section} (lasting : Lasting C honest M R I)
    (worker : (Action.locked S).OfWorker) (ready : ∀ s, I s →
      (Action.locked S).Ready C honest s ∧ (Action.locked S).Tells C J s) :
    Tame C honest M R J I (locked S) :=
  keeps_locked (fun h => h) lasting stable_true (fun _ => stable_true) worker
    (fun s _ _ hI _ _ => ready s hI) (fun _ _ _ _ _ _ => trivial)

theorem tame_ask {a : Action} (lasting : Lasting C honest M R I) (worker : a.OfWorker)
    (ready : ∀ s, I s → a.Ready C honest s ∧ a.Tells C J s) :
    Tame C honest M R J I (ask a) :=
  keeps_ask lasting stable_true (fun _ => stable_true) worker (fun s hI _ => ready s hI)
    (fun _ _ _ _ _ _ => trivial)

end Tame

theorem put_of_isConditionalPut {operation : BackendQueueOperation}
    (h : isConditionalPut operation = true) : ∃ digest size, operation = .put digest size true := by
  cases operation with
  | put digest size conditional =>
    cases conditional with
    | true => exact ⟨digest, size, rfl⟩
    | false => cases h
  | delete => cases h

theorem sublist_of_mem_chunks {α : Type} {n : Nat} {xs chunk : List α} (h : chunk ∈ chunks n xs) :
    chunk.Sublist xs := by
  have go : ∀ (fuel : Nat) (ys : List α), chunk ∈ chunks.go n fuel ys → chunk.Sublist ys := by
    intro fuel
    induction fuel with
    | zero => exact fun _ h => absurd h List.not_mem_nil
    | succ fuel ih =>
      intro ys h
      cases ys with
      | nil => exact absurd h List.not_mem_nil
      | cons y ys =>
        rcases List.mem_cons.mp h with rfl | h
        · exact List.take_sublist n _
        · exact (ih _ h).trans (List.drop_sublist n _)
  exact go _ _ h

section Worker

variable {C : Config} {honest : Prop} {M : Semantics} {R : Master → Master → Prop}
  {J : List Queued → Master → Prop} {s s' : Master} (D : Discipline C honest M R J)

include D

theorem Discipline.spares (key : Key) : Spares R key where
  pending := fun _ _ h pending => (pending_of_request (D.rely h)).2 pending
  object := fun _ _ _ h heq => (pending_of_request (D.rely h)).1.trans heq

section Upload

variable {r : Master → Master → Prop} {items : List Queued} {queued : Queued}
  (lasting : Lasting C honest M r (Round J items)) (spares : Spares r queued.1)
  (mem : queued ∈ items)

include lasting spares mem

theorem keeps_sendToBackend {payload : Option Bytes} (payloadOf : PayloadOf C queued payload)
    (free : (BackendQueueDependencies.fromItems items).blocks queued = false) :
    Keeps M r (ActsOn C honest M J queued.1) (Round J items)
      (fun s => (s.slice queued.1).item ≠ none) (sendToBackend queued payload)
      (fun _ s => Sent C honest queued (s.slice queued.1).object) := by
  have unblocked : queued.2.operation.isPut = true → Unblocked items queued :=
    fun isPut put hput isPut' host prio =>
      (BackendQueueDependencies.lists_fromItems hput isPut').lt_of_not_blocks free isPut host prio
  have tells : ∀ bytes, payload = some bytes → queued.2.operation.isPut = true → ∀ s,
      Round J items s → PayloadOf C queued (some bytes) ∧ Known queued s ∧
        ∃ items, J items s ∧ queued ∈ items ∧ Unblocked items queued := by
    rintro bytes rfl isPut s ⟨-, known, scan⟩
    exact ⟨payloadOf, known queued mem, items, scan, mem, unblocked isPut⟩
  have stable : ∀ {β : Type} (answer : Except Failure β), Stable r (fun t => ∀ v, answer = .ok v →
      Sent C honest queued (t.slice queued.1).object) :=
    fun answer s s' h sent v ok => spares.sent s s' h (sent v ok)
  have here : ∀ k kind, uploadAllow queued.1 k kind → k = queued.1 := fun _ _ h => h.1
  cases operation : queued.2.operation with
  | delete =>
    have : payload = none := by simpa [PayloadOf, operation] using payloadOf
    subst this
    rw [sendToBackend_delete operation]
    intro s hI pending
    refine safe_call (J := J) (a := .backendDelete queued) (fun h => ⟨h, here⟩) lasting
      spares.pending stable trivial (fun _ _ _ _ pending _ => ⟨pending, trivial⟩) ?_ hI pending
    rintro t answer t' - - h v rfl
    simp [Sent, operation]
  | put digest size conditional =>
    obtain ⟨bytes, rfl, hash⟩ : ∃ bytes, payload = some bytes ∧ C.digest bytes = digest := by
      simpa [PayloadOf, operation] using payloadOf
    have isPut : queued.2.operation.isPut = true := by rw [operation]; rfl
    cases conditional with
    | false =>
      rw [sendToBackend_put operation]
      intro s hI pending
      refine safe_call (J := J) (a := .backendPut queued bytes) (fun h => ⟨h, here⟩) lasting
        spares.pending stable trivial
        (fun t _ _ hI pending _ => ⟨pending, tells bytes rfl isPut t hI⟩) ?_ hI pending
      rintro t answer t' - - h v rfl
      exact sent_of_put operation hash (D.sound h)
    | true =>
      rw [sendToBackend_putIfAbsent operation]
      refine Keeps.bind lasting.stable
        (Q := fun _ s => Sent C honest queued (s.slice queued.1).object) (fun s hI pending => ?_)
        (fun _ => Keeps.pure lasting.stable spares.sent (fun _ _ h => h))
      refine safe_call (J := J) (a := .backendPutIfAbsent queued bytes) (fun h => ⟨h, here⟩)
        lasting spares.pending stable trivial
        (fun t _ _ hI pending _ => ⟨pending, tells bytes rfl isPut t hI⟩) ?_ hI pending
      rintro t answer t' - - h v rfl
      exact sent_of_putIfAbsent operation hash (fun hon => D.absent hon h) (D.sound h)

theorem keeps_uploadBackendQueueItem :
    Keeps M r (ActsOn C honest M J queued.1) (Round J items) (fun _ => True)
      (uploadBackendQueueItem (.fromItems items) queued) (fun _ _ => True) := by
  have trueStable : Stable r (fun _ : Master => True) := fun _ _ _ _ => trivial
  refine Keeps.bind lasting.stable (Q := fun check s => ∀ payload, check = some payload →
    (BackendQueueDependencies.fromItems items).blocks queued = false ∧
      (s.slice queued.1).item ≠ none ∧ PayloadOf C queued payload)
    (keeps_locked (J := J) (fun h => ⟨h, nofun⟩) lasting trueStable ?_ trivial
      (fun _ _ _ _ _ _ => ⟨trivial, trivial⟩) ?_) (fun check => ?_)
  · intro check s s' h hs payload heq
    obtain ⟨free, pending, payloadOf⟩ := hs payload heq
    exact ⟨free, spares.pending s s' h pending, payloadOf⟩
  · rintro s check s' - - h payload rfl
    obtain ⟨order, fates, -, rfl, ok⟩ := D.sound h
    have reads : Reads s (uploadCheck C queued (.fromItems items)) _ := reads_uploadCheck
    obtain ⟨same, checked⟩ := answer_ok reads rfl ok
    obtain ⟨free, ⟨raw, found, -⟩, payloadOf⟩ := checked payload rfl
    refine ⟨free, ?_, payloadOf⟩
    change ((uploadCheck C queued (.fromItems items) fates s).state.slice queued.1).item ≠ none
    rw [same]
    exact fun none => nomatch found.symm.trans none
  cases check with
  | none => exact Keeps.pure lasting.stable (fun _ _ _ _ => nofun) (fun _ _ _ => trivial)
  | some payload =>
    intro s hI hP
    obtain ⟨free, pending, payloadOf⟩ := hP payload rfl
    refine Keeps.bind lasting.stable (keeps_sendToBackend D lasting spares mem payloadOf free)
      (fun _ => keeps_locked (J := J) (S := .completeUploaded queued)
        (fun h => ⟨h, fun k _ h => h.1⟩) lasting spares.sent (fun _ => trueStable) trivial (fun s _ _ hI hP _ => ⟨⟨hI.2.1 queued mem, hP⟩, trivial⟩)
        (fun _ _ _ _ _ _ => trivial)) s hI pending

end Upload

theorem slice_of_actsOn {key other : Key} {a : Action} (acts : ActsOn C honest M J other a s s')
    (ne : key ≠ other) : s'.slice key = s.slice key := by
  have path := acts.1.path D
  refine along_path (I := fun t => t.slice key = s.slice key) (fun move h => ?_) path rfl
  exact (move.frame (fun kind allowed => ne (acts.2 key kind allowed))).trans h

section Round

variable {items batch : List Queued}

theorem tame_runBackendQueueUploadBatch (sub : batch ⊆ items)
    (nodup : (batch.map Prod.fst).Nodup) :
    Tame C honest M R J (Round J items)
      (runBackendQueueUploadBatch (.fromItems items) batch) := by
  intro s hI _
  have round := D.lasting_round items
  have each : ∀ queued ∈ batch, Safe M (fun a b => R a b ∨ ∃ other ∈ batch, other ≠ queued ∧
      ∃ l, ActsOn C honest M J other.1 l a b) (ActsOn C honest M J queued.1) (fun _ _ => True)
      (uploadBackendQueueItem (.fromItems items) queued) s := by
    intro queued hq
    refine (keeps_uploadBackendQueueItem D ⟨?_, round.own⟩ ⟨?_, ?_⟩ (sub hq) s hI trivial).mono
      (fun _ _ h => h) (fun _ _ _ h => h) (fun _ _ _ => trivial)
    · rintro a b (h | ⟨other, -, -, l, acts⟩) holds
      · exact round.stable a b h holds
      · exact round.acts l a b acts.1 holds
    · rintro a b (h | ⟨other, ho, ne, l, acts⟩) pending
      · exact (D.spares queued.1).pending a b h pending
      · rwa [slice_of_actsOn D acts (fun heq =>
          ne (List.inj_on_of_nodup_map nodup hq ho heq).symm)]
    · rintro object a b (h | ⟨other, ho, ne, l, acts⟩) holds
      · exact (D.spares queued.1).object object a b h holds
      · rwa [slice_of_actsOn D acts (fun heq =>
          ne (List.inj_on_of_nodup_map nodup hq ho heq).symm)]
  have all : Safe M R (Acts C honest M J) (fun _ _ => True)
      (Prog.parAll (batch.map (uploadBackendQueueItem (.fromItems items)))) s :=
    (Safe.parAll (G := fun queued => ActsOn C honest M J queued.1) (Q := fun _ _ _ => True)
      (uploadBackendQueueItem (.fromItems items)) batch (List.Nodup.of_map _ nodup) each).mono
      (fun _ _ h => h) (fun _ _ _ ⟨_, _, acts⟩ => acts.1) (fun _ _ _ => trivial)
  exact Safe.bind (all.frame round.stable round.acts hI)
    (fun results t holds u later => ⟨(holds u later).2, fun _ _ => trivial⟩)

variable {queued : Queued}

theorem tame_recordFailure (mem : queued ∈ items) :
    Tame C honest M R J (Round J items) (locked (.recordFailure queued)) :=
  tame_locked (D.lasting_round items) trivial (fun _ h => ⟨h.2.1 queued mem, trivial⟩)

theorem tame_writeMasterStatus : Tame C honest M R J (Round J items) writeMasterStatus :=
  tame_of_safe (fun _ hI => safe_quiet .writeMasterStatus (D.lasting_round items) trivial
    (fun _ _ => ⟨trivial, trivial⟩) hI)

theorem tame_recordResults (results : List (Queued × Except Failure Bool))
    (sub : ∀ result ∈ results, result.1 ∈ items) :
    Tame C honest M R J (Round J items) (recordResults results) := by
  have round := D.lasting_round items
  induction results with
  | nil => exact Tame.pure round
  | cons result rest ih =>
    have ih := ih (fun result h => sub result (List.mem_cons_of_mem _ h))
    obtain ⟨queued, result⟩ := result
    cases result with
    | ok done => exact Tame.bind round ih (fun _ => Tame.pure round)
    | error e =>
      exact Tame.bind round (tame_recordFailure D (sub _ (List.mem_cons_self ..))) (fun _ =>
        Tame.bind round (tame_writeMasterStatus D) (fun _ =>
          Tame.bind round ih (fun _ => Tame.pure round)))

theorem tame_uploadBatches (batches : List (List Queued)) (sub : ∀ batch ∈ batches, batch ⊆ items)
    (nodup : ∀ batch ∈ batches, (batch.map Prod.fst).Nodup) :
    Tame C honest M R J (Round J items) (uploadBatches (.fromItems items) batches) := by
  have round := D.lasting_round items
  induction batches with
  | nil => exact Tame.pure round
  | cons batch rest ih =>
    have ih := ih (fun batch h => sub batch (List.mem_cons_of_mem _ h))
      (fun batch h => nodup batch (List.mem_cons_of_mem _ h))
    have here : batch ⊆ items := sub batch (List.mem_cons_self ..)
    refine Tame.bind round (tame_runBackendQueueUploadBatch D here
      (nodup batch (List.mem_cons_self ..))) (fun results => Tame.bind round
        (tame_recordResults D _ (fun result h => here (List.of_mem_zip h).1)) (fun _ =>
          Tame.bind round (tame_writeMasterStatus D) (fun _ =>
            Tame.bind round ih (fun _ => Tame.pure round))))

theorem keeps_completeExisting (existing : Directory String (Finset Key))
    (candidates : List Queued) (sub : candidates ⊆ items) :
    Keeps M R (Acts C honest M J) (Round J items) (fun _ => True)
      (completeExisting existing candidates) (fun settled _ => settled.2.Sublist candidates) := by
  have round := D.lasting_round items
  induction candidates with
  | nil => exact Keeps.pure round.stable stable_true (fun _ _ _ => List.Sublist.refl _)
  | cons queued rest ih =>
    have ih := ih (fun other h => sub (List.mem_cons_of_mem _ h))
    refine Keeps.ite (fun listed => ?_) (fun _ => Keeps.bind round.stable ih (fun others =>
      Keeps.pure round.stable (fun _ _ _ h => h) (fun _ _ h => h.cons_cons _)))
    obtain ⟨digest, size, operation⟩ := put_of_isConditionalPut (Bool.and_eq_true_iff.mp listed).1
    refine Keeps.bind round.stable (keeps_locked (J := J) (Q := fun _ _ => True) (fun h => h) round
      stable_true (fun _ => stable_true) trivial (fun s o s' hI _ h => ⟨⟨?_, ?_, ?_⟩, trivial⟩)
      (fun _ _ _ _ _ _ => trivial)) (fun done => Keeps.bind round.stable ih (fun others =>
        Keeps.pure round.stable (fun _ _ _ h => h) (fun _ _ h => h.cons _)))
    · rw [operation]
      rfl
    · exact hI.2.1 queued (sub (List.mem_cons_self ..))
    · by_cases hon : honest
      · exact D.skipped hon h
      · simp [Sent, operation, hon]

theorem tame_uploadLayers (existing : Directory String (Finset Key)) (layers : List (List Queued))
    (sub : ∀ layer ∈ layers, layer ⊆ items) (nodup : ∀ layer ∈ layers, (layer.map Prod.fst).Nodup) :
    Tame C honest M R J (Round J items) (uploadLayers C (.fromItems items) existing layers) := by
  have round := D.lasting_round items
  induction layers with
  | nil => exact Tame.pure round
  | cons layer rest ih =>
    have ih := ih (fun layer h => sub layer (List.mem_cons_of_mem _ h))
      (fun layer h => nodup layer (List.mem_cons_of_mem _ h))
    have layerSub := sub layer (List.mem_cons_self ..)
    have layerNodup := nodup layer (List.mem_cons_self ..)
    refine Keeps.bind round.stable (keeps_completeExisting D existing layer layerSub)
      (fun settled s hI kept => ?_)
    have inLayer : ∀ batch ∈ chunks (max C.maxConcurrency 1) settled.2, batch.Sublist layer :=
      fun batch hb => (sublist_of_mem_chunks hb).trans kept
    refine Tame.bind round (tame_uploadBatches D _
      (fun batch hb => List.Subset.trans (inLayer batch hb).subset layerSub)
      (fun batch hb => layerNodup.sublist ((inLayer batch hb).map _))) (fun progress => ?_) s hI trivial
    obtain ⟨done, failure⟩ := progress
    cases failure with
    | some e => exact Tame.pure round
    | none => exact Tame.bind round ih (fun _ => Tame.pure round)

theorem tame_listHosts (hosts : List String) :
    Tame C honest M R J (Round J items) (listHosts hosts) := by
  have round := D.lasting_round items
  induction hosts with
  | nil => exact Tame.pure round
  | cons host rest ih =>
    refine Tame.bind round (tame_ask round trivial (fun _ _ => ⟨trivial, trivial⟩)) (fun answer =>
      Tame.bind round ih (fun others => ?_))
    cases answer with
    | ok objects => exact Tame.pure round
    | error e => exact Tame.pure round

theorem tame_uploadBackendQueueItem (mem : queued ∈ items) :
    Tame C honest M R J (Round J items) (uploadBackendQueueItem (.fromItems items) queued) :=
  fun s hI _ => (keeps_uploadBackendQueueItem D (D.lasting_round items) (D.spares queued.1) mem s hI
    trivial).mono (fun _ _ h => h) (fun _ _ _ h => h.1) (fun _ _ h => h)

theorem tame_deleteEach (hosts : Finset String) (deletes : List Queued) (sub : deletes ⊆ items) :
    Tame C honest M R J (Round J items) (deleteEach (.fromItems items) hosts deletes) := by
  have round := D.lasting_round items
  induction deletes with
  | nil => exact Tame.pure round
  | cons queued rest ih =>
    have ih := ih (fun other h => sub (List.mem_cons_of_mem _ h))
    have mem := sub (List.mem_cons_self ..)
    refine Keeps.ite (fun _ => ih) (fun _ => Tame.bind round
      (tame_uploadBackendQueueItem D mem).outcome (fun result => ?_))
    cases result with
    | ok done => exact Tame.bind round ih (fun _ => Tame.pure round)
    | error e => exact Tame.bind round (tame_recordFailure D mem) (fun _ => Tame.checked round)

theorem tame_uploadBackendDeleteItemsIndividually (deletes : List Queued) (sub : deletes ⊆ items) :
    Tame C honest M R J (Round J items)
      (uploadBackendDeleteItemsIndividually (.fromItems items) deletes) :=
  Tame.bind (D.lasting_round items)
    (tame_locked (D.lasting_round items) trivial (fun _ _ => ⟨trivial, trivial⟩))
    (fun hosts => tame_deleteEach D hosts deletes sub)

theorem tame_recordFailures (failed : List Queued) (sub : failed ⊆ items) :
    Tame C honest M R J (Round J items) (recordFailures failed) := by
  have round := D.lasting_round items
  induction failed with
  | nil => exact Tame.pure round
  | cons queued rest ih =>
    exact Tame.bind round (tame_recordFailure D (sub (List.mem_cons_self ..)))
      (fun _ => ih (fun other h => sub (List.mem_cons_of_mem _ h)))

theorem tame_settleBatch (results : List (Key × Option String)) (batch : List Queued)
    (sub : batch ⊆ items) (deletes : ∀ queued ∈ batch, queued.2.operation = .delete) :
    Tame C honest M R J (Round J items) (settleBatch results batch) := by
  have round := D.lasting_round items
  induction batch with
  | nil => exact Tame.pure round
  | cons queued rest ih =>
    have mem := sub (List.mem_cons_self ..)
    have ih := ih (fun other h => sub (List.mem_cons_of_mem _ h))
      (fun other h => deletes other (List.mem_cons_of_mem _ h))
    have operation := deletes queued (List.mem_cons_self ..)
    have next : ∀ progress : Progress, Tame C honest M R J (Round J items)
        (settleBatch results rest >>= fun others =>
          (pure (Progress.add progress others) : Program Progress)) :=
      fun progress => Tame.bind round ih (fun others => Tame.pure round)
    unfold settleBatch
    cases verdict : verdictOn results queued.1 with
    | none => exact Tame.bind round (tame_recordFailure D mem) (fun _ => next _)
    | some outcome =>
      cases outcome with
      | some message => exact Tame.bind round (tame_recordFailure D mem) (fun _ => next _)
      | none =>
        refine Tame.bind round (tame_locked round trivial (fun s hI => ⟨⟨hI.2.1 queued mem, ?_⟩,
          trivial⟩)) (fun _ => next _)
        simp [Sent, operation]

section Deletes

variable {chunk : List Queued} (sub : chunk ⊆ items)
  (deletes : ∀ queued ∈ chunk, queued.2.operation = .delete)

include sub deletes

theorem keeps_deleteBatch :
    Keeps M R (Acts C honest M J) (Round J items)
      (fun s => ∀ queued ∈ chunk, (s.slice queued.1).item ≠ none)
      (deleteBatch (.fromItems items) chunk) (fun _ _ => True) := by
  have round := D.lasting_round items
  refine Keeps.bind round.stable (Q := fun _ _ => True) (keeps_ask round ?_ (fun _ => stable_true)
    trivial (fun s hI pending => ⟨pending, trivial⟩) (fun _ _ _ _ _ _ => trivial)) (fun answer => ?_)
  · exact fun s s' h pending queued hq => (D.spares queued.1).pending s s' h (pending queued hq)
  · cases answer with
    | unsupported =>
      refine Tame.bind round (tame_ask (J := J) round trivial (fun _ _ => ⟨trivial, trivial⟩))
        (fun _ => ?_)
      exact tame_uploadBackendDeleteItemsIndividually D chunk sub
    | failed e =>
      exact Tame.bind round (tame_recordFailures D chunk sub) (fun _ => Tame.checked round)
    | answered results =>
      refine Tame.bind round (tame_settleBatch D results chunk sub deletes) (fun progress => ?_)
      obtain ⟨done, failure⟩ := progress
      cases failure with
      | some e => exact Tame.checked round
      | none => exact Tame.pure round

theorem tame_deleteChunk :
    Tame C honest M R J (Round J items) (deleteChunk (.fromItems items) chunk) := by
  have round := D.lasting_round items
  refine Tame.bind round (tame_ask round trivial (fun _ _ => ⟨trivial, trivial⟩)) (fun enabled =>
    Keeps.ite (fun _ => tame_uploadBackendDeleteItemsIndividually D chunk sub) (fun _ => ?_))
  refine Keeps.bind round.stable (Q := fun (active : List Queued) s => active.Sublist chunk ∧
    ∀ queued ∈ active, (s.slice queued.1).item ≠ none) (keeps_locked (J := J) (fun h => h) round
      stable_true ?_ trivial (fun _ _ _ _ _ _ => ⟨trivial, trivial⟩) ?_) (fun active => Keeps.ite
        (fun _ => Keeps.conseq (Tame.pure round) (fun _ _ _ => trivial) (fun _ _ _ => trivial))
        (fun _ s hI h => ?_))
  · exact fun active s s' h hs => ⟨hs.1, fun queued hq =>
      (D.spares queued.1).pending s s' h (hs.2 queued hq)⟩
  · rintro s active s' - - h
    obtain ⟨order, fates, -, rfl, ok⟩ := D.sound h
    have reads : Reads s (activeDeletes chunk) _ := reads_activeDeletes chunk
    obtain ⟨same, part, present⟩ := answer_ok reads rfl ok
    refine ⟨part, fun queued hq => ?_⟩
    obtain ⟨current, found, -⟩ := present queued hq
    obtain ⟨raw, hraw, -⟩ := Option.map_eq_some_iff.mp found
    change ((activeDeletes chunk fates s).state.slice queued.1).item ≠ none
    rw [same]
    exact fun none => nomatch hraw.symm.trans none
  · exact keeps_deleteBatch D (fun queued hq => sub (h.1.subset hq))
      (fun queued hq => deletes queued (h.1.subset hq)) s hI h.2

end Deletes

theorem tame_deleteChunks (parts : List (List Queued)) (sub : ∀ chunk ∈ parts, chunk ⊆ items)
    (deletes : ∀ chunk ∈ parts, ∀ queued ∈ chunk, queued.2.operation = .delete) :
    Tame C honest M R J (Round J items) (deleteChunks (.fromItems items) parts) := by
  have round := D.lasting_round items
  induction parts with
  | nil => exact Tame.pure round
  | cons chunk rest ih =>
    refine Tame.bind round (tame_deleteChunk D (sub chunk (List.mem_cons_self ..))
      (deletes chunk (List.mem_cons_self ..))) (fun _ => Tame.bind round (ih ?_ ?_) (fun _ => Tame.pure round))
    · exact fun chunk h => sub chunk (List.mem_cons_of_mem _ h)
    · exact fun chunk h => deletes chunk (List.mem_cons_of_mem _ h)

theorem tame_uploadBackendDeleteItems (sub : batch ⊆ items)
    (deletes : ∀ queued ∈ batch, queued.2.operation = .delete) :
    Tame C honest M R J (Round J items) (uploadBackendDeleteItems C (.fromItems items) batch) := by
  have round := D.lasting_round items
  refine Keeps.ite (fun _ => Tame.pure round) (fun _ => Tame.bind round
    (tame_ask round trivial (fun _ _ => ⟨trivial, trivial⟩)) (fun enabled => Keeps.ite
      (fun _ => tame_uploadBackendDeleteItemsIndividually D batch sub) (fun _ => ?_)))
  refine tame_deleteChunks D _ (fun chunk h => ?_) (fun chunk h queued hq => ?_)
  · exact List.Subset.trans (sublist_of_mem_chunks h).subset sub
  · exact deletes queued ((sublist_of_mem_chunks h).subset hq)

theorem tame_drainRound {selected : List Queued} (sub : selected ⊆ items)
    (nodup : (selected.map Prod.fst).Nodup) :
    Tame C honest M R J (Round J items) (drainRound C (.fromItems items) selected) := by
  have round := D.lasting_round items
  have part : ∀ p : Queued → Bool, selected.filter p ⊆ items ∧
      ((selected.filter p).map Prod.fst).Nodup := fun p =>
    ⟨List.Subset.trans List.filter_sublist.subset sub,
      nodup.sublist (List.filter_sublist.map _)⟩
  have layers : ∀ layer ∈ layersOf selected, layer ⊆ items ∧ (layer.map Prod.fst).Nodup := by
    intro layer h
    obtain ⟨priority, -, rfl⟩ := List.mem_map.mp h
    exact part _
  refine Tame.bind round (tame_listHosts D _) (fun existing => Tame.bind round
    (tame_uploadLayers D existing _ (fun layer h => (layers layer h).1)
      (fun layer h => (layers layer h).2)) (fun uploads => Tame.bind round ?_ (fun deletes =>
        Tame.bind round (tame_writeMasterStatus D) (fun _ => ?_))))
  · obtain ⟨done, failure⟩ := uploads
    cases failure with
    | some e => exact Tame.pure round
    | none =>
      refine Tame.bind round (tame_uploadBackendDeleteItems D (part _).1 ?_).outcome
        (fun result => ?_)
      · intro queued hq
        have notPut := (List.mem_filter.mp hq).2
        cases operation : queued.2.operation with
        | delete => rfl
        | put digest size conditional => simp [operation, BackendQueueOperation.isPut] at notPut
      · cases result with
        | ok done => exact Tame.pure round
        | error e => exact Tame.pure round
  · obtain ⟨done, failure⟩ := deletes
    cases failure with
    | some e => exact Tame.checked round
    | none => exact Tame.pure round

end Round

/-- What holds of the items the worker has just read from the queue. -/
def Scanned (J : List Queued → Master → Prop) (items : List Queued) (s : Master) : Prop :=
  (items.map Prod.fst).Nodup ∧ Round J items s

theorem keeps_drainRound {items selected : List Queued} (part : selected.Sublist items) :
    Keeps M R (Acts C honest M J) Issued (Scanned J items)
      (drainRound C (.fromItems items) selected) (fun _ _ => True) := by
  intro s _ scanned
  have nodup := scanned.1.sublist (part.map _)
  exact (tame_drainRound D part.subset nodup s scanned.2 trivial).mono (fun _ _ h => h)
    (fun _ _ _ h => h) (fun _ _ h => ⟨h.1.1, h.2⟩)

theorem keeps_drainRounds (force : Bool) (now : Nat) (putHosts : Finset String)
    (fuel room : Nat) (items : List Queued) :
    Keeps M R (Acts C honest M J) Issued (Scanned J items)
      (drainRounds C force now putHosts fuel room items) (fun _ _ => True) := by
  have issued := D.lasting_issued
  have done : ∀ n : Nat, Tame C honest M R J Issued (pure n : Program Nat) :=
    fun _ => Tame.pure issued
  induction fuel generalizing room items with
  | zero => exact Keeps.conseq (done 0) (fun _ _ _ => trivial) (fun _ _ h => h)
  | succ fuel ih =>
    have part : (selectItems force now putHosts room items).Sublist items :=
      (List.take_sublist _ _).trans List.filter_sublist
    refine Keeps.ite (fun _ => Keeps.conseq (done 0) (fun _ _ _ => trivial) (fun _ _ h => h))
      (fun _ => Keeps.bind issued.stable (keeps_drainRound D part) (fun count => Keeps.ite
        (fun _ => done count) (fun _ => Keeps.bind issued.stable (keeps_backendQueueItems D)
          (fun next => Keeps.bind issued.stable (ih _ next) (fun _ => done _)))))

theorem tame_backendQueueItems : Tame C honest M R J Issued backendQueueItems :=
  Keeps.conseq (keeps_backendQueueItems D) (fun _ _ h => h) (fun _ _ _ => trivial)

theorem tame_drainBackendQueue (force : Bool) :
    Tame C honest M R J Issued (drainBackendQueue C force) := by
  have issued := D.lasting_issued
  exact Tame.bind issued (tame_ask issued trivial (fun _ _ => ⟨trivial, trivial⟩)) (fun now =>
    Tame.bind issued (tame_backendQueueItems D) (fun items => Keeps.ite
      (fun _ => Tame.pure issued) (fun _ => Keeps.bind issued.stable (keeps_backendQueueItems D)
        (fun queued => keeps_drainRounds D force now _ _ _ queued))))

theorem tame_collectEach (now : Nat) (due : List (Key × LocalGcItem)) :
    Tame C honest M R J Issued (collectEach now due) := by
  have issued := D.lasting_issued
  induction due with
  | nil => exact Tame.pure issued
  | cons first rest ih =>
    exact Tame.bind issued (tame_locked issued trivial (fun _ _ => ⟨trivial, trivial⟩)) (fun _ =>
      Tame.bind issued ih (fun _ => Tame.pure issued))

theorem tame_runLocalGc : Tame C honest M R J Issued runLocalGc := by
  have issued := D.lasting_issued
  refine Tame.bind issued (tame_ask issued trivial (fun _ _ => ⟨trivial, trivial⟩)) (fun now =>
    Tame.bind issued (tame_of_safe (fun _ hI => ?_)) (fun due => tame_collectEach D now due))
  exact safe_quiet (.localGcDue now) issued trivial (fun _ _ => ⟨trivial, trivial⟩) hI

theorem tame_endFlush (force : Bool) : Tame C honest M R J Issued (endFlush force) := by
  have issued := D.lasting_issued
  refine Keeps.ite (fun _ => Tame.bind issued (tame_backendQueueItems D) (fun items => Keeps.ite
    (fun _ => tame_of_safe (fun _ hI => ?_)) (fun _ => Tame.pure issued)))
    (fun _ => Tame.pure issued)
  exact safe_quiet .removeFlushRequest issued trivial (fun _ _ => ⟨trivial, trivial⟩) hI

theorem tame_runBackendWorkerOnce : Tame C honest M R J Issued (runBackendWorkerOnce C) := by
  have issued := D.lasting_issued
  have asks : ∀ a : Action, a.OfWorker → (∀ s, a.Ready C honest s ∧ a.Tells C J s) →
      Tame C honest M R J Issued (ask a) :=
    fun a worker ready => tame_ask issued worker (fun s _ => ready s)
  refine Tame.bind issued (tame_locked issued trivial (fun _ _ => ⟨trivial, trivial⟩)) (fun _ =>
    Tame.bind issued (tame_backendQueueItems D) (fun items =>
    Tame.bind issued (asks .flushRequested trivial (fun _ => ⟨trivial, trivial⟩)) (fun force =>
    Tame.bind issued (asks .utcNow trivial (fun _ => ⟨trivial, trivial⟩)) (fun now =>
    Tame.bind issued ?_ (fun _ => Tame.bind issued (tame_endFlush D force) (fun _ =>
    Tame.bind issued (tame_runLocalGc D) (fun _ => tame_of_safe (fun _ hI => ?_))))))))
  · exact Keeps.ite (fun _ => Tame.bind issued (tame_drainBackendQueue D force) (fun _ =>
      Tame.pure issued)) (fun _ => Tame.pure issued)
  · exact safe_quiet .writeMasterStatus issued trivial (fun _ _ => ⟨trivial, trivial⟩) hI

end Worker

end Majutsu.Cluster
