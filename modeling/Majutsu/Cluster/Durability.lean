import Majutsu.Cluster.BackendCommit
import Majutsu.Cluster.QueueConsistency

/-!
# Acknowledged writes last

From the moment a PUT batch or a DELETE has come back from its section without
an error, the key keeps what was acknowledged through every later run: other
requests, passes of the worker whose uploads fail, collections and crashes may
come in any order. Only another PUT or DELETE of the key itself ends this, and
for a DELETE also a GET that puts the object it has read back into the store.
-/

namespace Majutsu.Cluster

/-- What a request thread has been told about a key: its new content, `none` for a DELETE. -/
def Event.acknowledged (key : Key) : Event → Option (Option Bytes)
  | .client _ (.locked (.processPuts _ items)) (.ok _) =>
    (lastFor key items).map (fun item => some item.bytes)
  | .client _ (.locked (.durableDelete _ k)) (.ok _) => if k = key then some none else none
  | _ => none

/-- The completed deletion: a copy on the master only waits to be collected. -/
structure KeyState.Erased (C : Config) (a : KeyState) : Prop where
  intent : a.intent = none
  item : a.item = none
  receipt : a.receipt = none
  payload : ∀ bytes, a.payload = some bytes → ∃ t, a.tomb = some t ∧ t.digest = C.digest bytes

/-- A key as its acknowledged content demands. -/
def KeyState.Carries (a : KeyState) : Option Bytes → Prop
  | some bytes => a.Holds bytes
  | none => a.Condemned

section Operations

variable {C : Config} {honest : Prop} {key : Key} {clock gen gen' : Nat} {kind : Kind}
  {a b : KeyState} {bytes : Bytes}

theorem KeyOp.holds (op : KeyOp C honest key clock gen gen' kind a b) (quiet : kind ≠ .request)
    (h : a.Holds bytes) : b.Holds bytes := by
  obtain ⟨payload, intent, tomb, item⟩ := h
  cases op with
  | writeIntent | enqueueDelete => exact absurd rfl quiet
  | storePut i there | cancel i there | enqueuePut i _ there | removeIntent i _ there =>
    cases there.symm.trans intent
  | hydrate _ absent => cases absent.symm.trans payload
  | gcStore t _ there | gcTomb t there => cases there.symm.trans tomb
  | retainTomb old _ _ pending delete | retainNone old pending delete
  | receiptDrop old pending delete | removeDelete old pending delete =>
    exact absurd delete (item old pending)
  | enqueueLegacy new _ _ _ _ _ _ _ operation =>
    refine ⟨payload, intent, tomb, ?_⟩
    rintro _ ⟨⟩ delete
    cases operation.symm.trans delete
  | markFailure old new pending same =>
    refine ⟨payload, intent, tomb, ?_⟩
    rintro _ ⟨⟩ delete
    exact item old pending (same.operation.symm.trans delete)
  | removePut => exact ⟨payload, intent, tomb, nofun⟩
  | receiptPut | backendPut | backendDelete => exact ⟨payload, intent, tomb, item⟩

theorem KeyOp.erased (op : KeyOp C honest key clock gen gen' kind a b) (quiet : kind ≠ .request)
    (unread : kind ≠ .hydrate) (h : a.Condemned ∨ a.Erased C) : b.Condemned ∨ b.Erased C := by
  have intent : a.intent = none := h.elim (·.intent) (·.intent)
  have busy : ∀ item, a.item = some item → item.operation = .delete := by
    intro item pending
    rcases h with ⟨-, item', pending', delete⟩ | erased
    · cases pending.symm.trans pending'
      exact delete
    · cases pending.symm.trans erased.item
  have idle : a.item = none → a.Erased C := by
    refine fun none => h.resolve_left (fun condemned => ?_)
    obtain ⟨item, pending, -⟩ := condemned.item
    cases pending.symm.trans none
  cases op with
  | writeIntent | enqueueDelete => exact absurd rfl quiet
  | hydrate => exact absurd rfl unread
  | storePut i there | cancel i there | enqueuePut i _ there | removeIntent i _ there =>
    cases there.symm.trans intent
  | enqueueLegacy new bytes _ _ none _ alive payload =>
    obtain ⟨t, there, -⟩ := (idle none).payload bytes payload
    cases there.symm.trans alive
  | gcStore t bytes _ none =>
    refine Or.inr { idle none with payload := ?_ }
    rintro _ ⟨⟩
  | gcTomb t there none other =>
    refine Or.inr { idle none with payload := fun bytes payload => absurd ?_ other }
    obtain ⟨t', there', digest⟩ := (idle none).payload bytes payload
    cases there.symm.trans there'
    rw [payload, Option.map_some, digest]
  | receiptPut item _ _ _ pending operation | removePut item _ _ _ pending operation =>
    cases operation.symm.trans (busy item pending)
  | removeDelete item pending _ receipt retained =>
    refine Or.inr ⟨intent, rfl, receipt, fun bytes payload => ?_⟩
    rcases retained with ⟨absent, -⟩ | ⟨bytes', t, payload', there, digest⟩
    · cases absent.symm.trans payload
    · cases payload'.symm.trans payload
      exact ⟨t, there, digest⟩
  | markFailure old new pending same =>
    exact Or.inl ⟨intent, new, rfl, same.operation.trans (busy old pending)⟩
  | retainTomb item _ _ pending | retainNone item pending | receiptDrop item pending
  | backendPut item _ pending | backendDelete item pending =>
    exact Or.inl ⟨intent, item, pending, busy item pending⟩

/-- A generation that was issued before cannot come back to the queue file of the key. -/
theorem Move.replaced {allow : Key → Kind → Prop} {s s' : Master} {queued : Queued}
    (move : Move C honest allow s s') (issued : queued.2.generation < s.nextGeneration)
    (h : s.Replaced queued) : s'.Replaced queued := by
  have kept : (s'.slice queued.1).item = (s.slice queued.1).item → s'.Replaced queued :=
    fun same item found => h item (same.symm.trans found)
  rcases move.key with same | ⟨k, kind, -, op, others⟩
  · exact kept (congrArg KeyState.item (same queued.1))
  · by_cases hk : queued.1 = k
    · subst hk
      rcases op.item_cases with same | none | ⟨-, new, there, fresh⟩ | ⟨old, new, there, now, same⟩
      · exact kept same
      · exact fun item found => nomatch none.symm.trans found
      · intro item found
        cases there.symm.trans found
        exact fun equal => absurd (equal.symm.trans fresh.generation) issued.ne
      · intro item found
        cases now.symm.trans found
        exact fun equal => h old there (same.generation.symm.trans equal)
    · exact kept (congrArg KeyState.item (others queued.1 hk))

end Operations

section Runs

theorem plainDiscipline (C : Config) :
    Discipline C False (.does C) (Environment (.does C)) (fun _ _ => True) :=
  Discipline.plain (fun h => h)

variable {C : Config} {M : Semantics} {sys mid sys' : System} {e : Event} {events : List Event}
  {key : Key} {bytes : Bytes}

theorem System.Step.carries {content : Option Bytes} (step : System.Step C M sys e mid)
    (sound : ∀ {a s o s'}, M a s o s' → a.Does C s o s')
    (ack : e.acknowledged key = some content) : (mid.master.slice key).Carries content := by
  cases step with
  | @client t p p' a r m hp step =>
    cases a with
    | locked S =>
      cases r with
      | ok answer =>
        obtain ⟨order, fates, -, rfl, ok⟩ := sound step.does
        cases S with
        | processPuts host items =>
          obtain ⟨item, last, rfl⟩ := Option.map_eq_some_iff.mp ack
          exact answer_ok (@moves_processPuts C True key host items) trivial ok item last
        | durableDelete host k =>
          obtain ⟨rfl, ⟨⟩⟩ := Option.ite_none_right_eq_some.mp ack
          exact answer_ok (@moves_durableDelete C True k host) trivial ok
        | _ => cases ack
      | error => cases S <;> cases ack
    | _ => cases ack
  | _ => cases ack

theorem exists_acknowledged {content : Option Bytes} {next : Command}
    (h : (System.exec sample anyAction sys next).any (fun done =>
      done.1.acknowledged key = some content) = true) :
    ∃ e mid, System.Step sample (.does sample) sys e mid ∧ e.acknowledged key = some content := by
  simp only [Option.any_eq_true, decide_eq_true_eq] at h
  obtain ⟨done, step, test⟩ := h
  exact ⟨done.1, done.2, System.exec_step does_of_anyAction step, test⟩

/-- An acknowledged PUT: through every later run without another PUT or DELETE of the key the
store keeps the bytes, and what waits in the queue is this PUT. -/
theorem acknowledged_put_kept (reachable : System.Reachable C (.does C) sys)
    (step : System.Step C (.does C) sys e mid) (ack : e.acknowledged key = some (some bytes))
    (run : System.Run C (.does C) mid events sys') (quiet : ∀ e ∈ events, ¬e.allow key .request) :
    sys'.master.store.files.lookup key = some bytes ∧ sys'.master.localGc.lookup key = none ∧
      ∀ queued, sys'.master.queue.lookup key = some queued →
        ∃ size conditional, queued.operation = .put (C.digest bytes) size conditional := by
  have D := plainDiscipline C
  have good := reachable.good D
  have before : (sys.master.slice key).Consistent C := reachable.slice D KeyOp.consistent
    (fun a none _ _ _ _ _ _ _ _ heq => nomatch none.symm.trans heq)
  have start := good.run_slice D (.cons step .nil) (fun _ _ _ _ _ _ _ _ _ op => op.consistent) before
  obtain ⟨consistent, holds⟩ := (good.step D step).run_slice D run
    (I := fun a => a.Consistent C ∧ a.Holds bytes)
    (fun e he _ _ _ _ _ _ allowed op h =>
      ⟨op.consistent h.1, op.holds (fun heq => quiet e he (heq ▸ allowed)) h.2⟩)
    ⟨start, step.carries D.sound ack⟩
  refine ⟨holds.payload, holds.tomb, fun queued found => ?_⟩
  cases operation : queued.operation with
  | delete => exact absurd operation (holds.item queued found)
  | put digest size conditional =>
    have stored := consistent holds.intent queued digest size conditional found operation
    rw [holds.payload, Option.map_some, Option.some.injEq] at stored
    exact ⟨size, conditional, by rw [stored]⟩

/-- The master crashes after the PUT and starts again. -/
theorem acknowledged_put_kept_after_crash :
    ∃ sys' : System, sys'.master.store.files.lookup "h/a" = some [7] := by
  obtain ⟨sys, reachable, ran⟩ := System.reachable_of_script (C := sample) does_of_anyAction
    (bootScript [] ++ [.accept 0 "h" (.put "h/a" [7] false)])
    (fun sys => (System.exec sample anyAction sys (.client 0 (smooth ["h/a"]))).any (fun done =>
      done.1.acknowledged "h/a" = some (some [7])) = true)
    (installed_initial .empty ∅) (by decide +kernel)
  obtain ⟨e, mid, step, ack⟩ := exists_acknowledged ran
  exact ⟨_, (acknowledged_put_kept reachable step ack (.cons .crash (.cons (.start rfl) .nil))
    (by simp [Event.allow, noneAllowed])).1⟩

/-- An acknowledged DELETE: through every later run without a PUT, a DELETE or a hydrating GET of
the key, the deletion waits in the queue or is complete. -/
theorem acknowledged_delete_kept (reachable : System.Reachable C (.does C) sys)
    (step : System.Step C (.does C) sys e mid) (ack : e.acknowledged key = some none)
    (run : System.Run C (.does C) mid events sys')
    (quiet : ∀ e ∈ events, ¬e.allow key .request ∧ ¬e.allow key .hydrate) :
    (sys'.master.slice key).Condemned ∨ (sys'.master.slice key).Erased C := by
  have D := plainDiscipline C
  exact ((reachable.good D).step D step).run_slice D run
    (I := fun a => a.Condemned ∨ a.Erased C)
    (fun e he _ _ _ _ _ _ allowed op => op.erased (fun heq => (quiet e he).1 (heq ▸ allowed))
      (fun heq => (quiet e he).2 (heq ▸ allowed))) (Or.inl (step.carries D.sound ack))

theorem acknowledged_delete_kept_after_crash : ∃ sys' : System,
    (sys'.master.slice "h/a").Condemned ∨ (sys'.master.slice "h/a").Erased sample := by
  obtain ⟨sys, reachable, ran⟩ := System.reachable_of_script (C := sample) does_of_anyAction
    (bootScript [] ++ [.accept 0 "h" (.delete "h/a")])
    (fun sys => (System.exec sample anyAction sys (.client 0 (smooth ["h/a"]))).any (fun done =>
      done.1.acknowledged "h/a" = some none) = true)
    (installed_initial .empty ∅) (by decide +kernel)
  obtain ⟨e, mid, step, ack⟩ := exists_acknowledged ran
  exact ⟨_, acknowledged_delete_kept reachable step ack (.cons .crash (.cons (.start rfl) .nil))
    (by simp [Event.allow, noneAllowed])⟩

theorem Good.run_moves {honest : Prop} {J : List Queued → Master → Prop} {I : Master → Prop}
    (D : Discipline C honest M (Environment M) J) (good : Good C honest M J sys)
    (run : System.Run C M sys events sys')
    (keeps : ∀ {allow s s'}, Move C honest allow s s' → I s → I s') (start : I sys.master) :
    Good C honest M J sys' ∧ I sys'.master :=
  run.invariant (P := fun sys => Good C honest M J sys ∧ I sys.master)
    (fun _ first h => ⟨h.1.step D first, along_path keeps (h.1.path D first) h.2⟩) ⟨good, start⟩

/-- A queue entry that was replaced or removed never comes back: no later entry of the key has
its generation, by which the worker recognises the entry it has selected. -/
theorem replaced_for_good {later : List Event} {item : BackendQueueItem}
    (reachable : System.Reachable C (.does C) sys) (found : sys.master.queue.lookup key = some item)
    (run : System.Run C (.does C) sys events mid) (lost : mid.master.Replaced (key, item))
    (rest : System.Run C (.does C) mid later sys') : sys'.master.Replaced (key, item) := by
  have D := plainDiscipline C
  have good := reachable.good D
  obtain ⟨good', issued⟩ := good.run_moves D run (I := fun s => item.generation < s.nextGeneration)
    (fun move h => h.trans_le move.generation) (good.issued key item found).1
  exact (good'.run_moves D rest
    (I := fun s => item.generation < s.nextGeneration ∧ s.Replaced (key, item))
    (fun move h => ⟨h.1.trans_le move.generation, move.replaced h.1 h.2⟩) ⟨issued, lost⟩).2.2

/-- A second PUT replaces the queue entry of the first one, and the master crashes. -/
theorem replaced_for_good_by_put : ∃ (sys' : System) (item : BackendQueueItem),
    sys'.master.Replaced ("h/a", item) := by
  obtain ⟨sys, reachable, ran⟩ := System.reachable_of_script (C := sample) does_of_anyAction
    (bootScript [] ++ requestScript 0 "h" (.put "h/a" [7] false) ["h/a"] 3)
    (fun sys => (sys.master.queue.lookup "h/a").any (fun item => (System.execAll sample anyAction sys
      (requestScript 0 "h" (.put "h/a" [8] false) ["h/a"] 3)).any (fun last =>
        (last.2.master.queue.lookup "h/a").all (·.generation ≠ item.generation))) = true)
    (installed_initial .empty ∅) (by decide +kernel)
  simp only [Option.any_eq_true, Option.all_eq_true, decide_eq_true_eq] at ran
  obtain ⟨item, found, last, run, lost⟩ := ran
  exact ⟨_, item, replaced_for_good reachable found (System.execAll_run does_of_anyAction run) lost
    (.cons .crash .nil)⟩

end Runs

end Majutsu.Cluster
