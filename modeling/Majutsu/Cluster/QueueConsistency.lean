import Majutsu.Cluster.Runs
import Majutsu.Cluster.Simulator

/-!
# The queue and the store agree

A PUT in the backend queue names the digest of a payload. Unless a write of
the same key is only half done, that payload is in the store, so the worker
finds what it has to send. The worker in turn leaves a queue file alone that
is no longer the one it has selected.
-/

namespace Majutsu.Cluster

/-- A queued PUT of a key without write intent has its payload in the store. -/
def KeyState.Consistent (C : Config) (a : KeyState) : Prop :=
  a.intent = none → ∀ item digest size conditional, a.item = some item →
    item.operation = .put digest size conditional → a.payload.map C.digest = some digest

section Invariant

variable {C : Config} {honest : Prop} {key : Key} {clock gen gen' : Nat} {kind : Kind}
  {a b : KeyState}

theorem KeyOp.consistent (op : KeyOp C honest key clock gen gen' kind a b)
    (h : a.Consistent C) : b.Consistent C := by
  cases op with
  | writeIntent => exact nofun
  | storePut i intent => exact fun none => nomatch intent.symm.trans none
  | cancel i intent | enqueuePut i item intent => exact fun none => nomatch intent.symm.trans none
  | removeIntent i item _ payload pending operation =>
    rintro - _ digest size conditional heq put
    cases pending.symm.trans heq
    cases operation.symm.trans put
    simp [payload]
  | enqueueDelete item _ delete =>
    rintro - _ digest size conditional ⟨⟩ put
    cases delete.symm.trans put
  | hydrate bytes absent =>
    intro none item digest size conditional pending put
    have := h none item digest size conditional pending put
    rw [absent] at this
    cases this
  | enqueueLegacy item bytes size conditional _ _ _ payload operation =>
    rintro - _ digest size' conditional' ⟨⟩ put
    cases operation.symm.trans put
    simp [payload]
  | gcStore t bytes _ pending =>
    exact fun _ item digest size conditional heq => nomatch pending.symm.trans heq
  | removePut | removeDelete => exact nofun
  | markFailure old new pending same =>
    rintro none _ digest size conditional ⟨⟩ put
    exact h none old digest size conditional pending (same.operation.symm.trans put)
  | gcTomb | retainTomb | retainNone | receiptPut | receiptDrop | backendPut | backendDelete =>
    exact h

end Invariant

def Action.Processes (queued : Queued) : Action → Prop
  | locked (.uploadCheck q _) | locked (.completeUploaded q) | locked (.completeWithoutUpload q)
  | locked (.recordFailure q) | backendPut q _ | backendPutIfAbsent q _ | backendDelete q =>
    q = queued
  | backendDeleteBatch items => queued ∈ items
  | _ => False

/-- The queue file of the item is not the one that was selected any more. -/
def Master.Replaced (s : Master) (queued : Queued) : Prop :=
  ∀ item, s.queue.lookup queued.1 = some item → item.generation ≠ queued.2.generation

section Replaced

variable {C : Config} {queued : Queued} {s s' : Master}

theorem ifCurrent_of_replaced {α : Type} {idle : α} {act : BackendQueueItem → Locked α}
    (replaced : s.Replaced queued) (fates : List Critical.Fate) :
    (ifCurrent queued idle act fates s).state = s := by
  refine Reads.state (Q := fun _ => True) (reads_ifCurrent trivial (fun _ current => ?_)) fates
  obtain ⟨item, found, same⟩ := current
  exact absurd same (replaced item found)

theorem Action.Processes.replaced {a : Action} {o : Option a.Answer} (process : a.Processes queued)
    (replaced : s.Replaced queued) (does : a.Does C s o s') :
    s'.queue = s.queue ∧ s'.receipts = s.receipts := by
  have still : s' = s → s'.queue = s.queue ∧ s'.receipts = s.receipts := by
    rintro rfl
    exact ⟨rfl, rfl⟩
  have transfer : ∀ {changed : Directory Key Bytes}, s' = s ∨ s' = { s with backend := changed } →
      s'.queue = s.queue ∧ s'.receipts = s.receipts := by
    rintro changed (same | rfl)
    · exact still same
    · exact ⟨rfl, rfl⟩
  cases a with
  | locked S =>
    obtain ⟨order, fates, -, rfl, -⟩ := does
    cases S with
    | uploadCheck q deps | completeUploaded q | completeWithoutUpload q | recordFailure q =>
      have process : q = queued := process
      subst process
      exact still (ifCurrent_of_replaced replaced fates)
    | _ => cases process
  | backendPut q bytes | backendDelete q => exact transfer (BackendCall.cases does)
  | backendPutIfAbsent q bytes =>
    rcases PutIfAbsentCall.cases does with same | call
    · exact still same
    · exact transfer call.cases
  | backendDeleteBatch items =>
    obtain ⟨gone, answer, -, -, rfl⟩ := does
    exact ⟨rfl, rfl⟩
  | _ => cases process

end Replaced

/-- In every reachable state the queue and the store agree; what the worker sends is the payload
of the item it is processing, and it does nothing to a queue file that has been replaced. -/
theorem queue_consistent {C : Config} {sys : System}
    (reachable : System.Reachable C (.does C) sys) :
    (∀ key item digest size conditional, sys.master.intents.lookup key = none →
      sys.master.queue.lookup key = some item → item.operation = .put digest size conditional →
      (sys.master.store.files.lookup key).map C.digest = some digest) ∧
    (∀ e sys' queued bytes, System.Step C (.does C) sys e sys' →
      e.Performs (.backendPut queued bytes) ∨ e.Performs (.backendPutIfAbsent queued bytes) →
      ∃ size conditional, queued.2.operation = .put (C.digest bytes) size conditional) ∧
    ∀ e sys' queued a, System.Step C (.does C) sys e sys' → e.Performs a → a.Processes queued →
      sys.master.Replaced queued →
      sys'.master.queue = sys.master.queue ∧ sys'.master.receipts = sys.master.receipts := by
  have D : Discipline C False (.does C) (Environment (.does C)) (fun _ _ => True) :=
    Discipline.plain (fun h => h)
  refine ⟨fun key item digest size conditional noIntent found operation => ?_,
    fun e sys' queued bytes step sends => ?_, fun e sys' queued a step performs process replaced => ?_⟩
  · have holds : (sys.master.slice key).Consistent C := reachable.slice D KeyOp.consistent
      (fun a none _ _ _ _ _ _ _ _ heq => nomatch none.symm.trans heq)
    exact holds noIntent item digest size conditional found operation
  · have payloadOf : PayloadOf C queued (some bytes) := by
      rcases sends with performs | performs
      · rcases (reachable.good D).performs step performs with h | h | acts
        · cases h
        · cases h
        · exact acts.tells.1
      · rcases (reachable.good D).performs step performs with h | h | acts
        · cases h
        · cases h
        · exact acts.tells.1
    unfold PayloadOf at payloadOf
    cases operation : queued.2.operation with
    | delete =>
      rw [operation] at payloadOf
      cases payloadOf
    | put digest size conditional =>
      rw [operation] at payloadOf
      obtain ⟨_, ⟨⟩, rfl⟩ := payloadOf
      exact ⟨size, conditional, rfl⟩
  · obtain ⟨o, does⟩ := step.does performs
    exact process.replaced replaced does

/-- After an acknowledged PUT the queue holds it, and the store its payload. -/
theorem queue_consistent_after_put : ∃ sys item, System.Reachable sample (.does sample) sys ∧
    sys.master.queue.lookup "h/a" = some item ∧
    item.operation = .put (sample.digest [7]) 1 false ∧
    (sys.master.store.files.lookup "h/a").map sample.digest = some (sample.digest [7]) := by
  obtain ⟨sys, reachable, holds⟩ := System.reachable_of_script (C := sample) does_of_anyAction
    (bootScript [] ++ requestScript 0 "h" (.put "h/a" [7] false) ["h/a"] 3)
    (fun sys => sys.master.intents.lookup "h/a" = none ∧
      (sys.master.queue.lookup "h/a").map (·.operation) =
        some (.put (sample.digest [7]) 1 false))
    (installed_initial .empty ∅) (by decide +kernel)
  obtain ⟨noIntent, queued⟩ := holds
  obtain ⟨item, found, operation⟩ := Option.map_eq_some_iff.mp queued
  exact ⟨sys, item, reachable, found, operation,
    (queue_consistent reachable).1 "h/a" item _ _ _ noIntent found operation⟩

end Majutsu.Cluster
