import Majutsu.Cluster.Runs
import Majutsu.Cluster.Simulator

/-!
# What a receipt says about the backend

A receipt is written when a PUT leaves the queue. For an unconditional PUT the
backend then holds the payload. For a conditional one it does only if the
object that `put_if_absent` or the deduplicating LIST came across had the same
bytes, which the code does not look at.
-/

namespace Majutsu.Cluster

/-- A key without queue item is in the backend as its receipt says. -/
def KeyState.Backed (C : Config) (key : Key) (a : KeyState) : Prop :=
  a.item = none → ∀ digest, a.receipt = some { key, digest } → a.object.map C.digest = some digest

theorem KeyOp.backed {C : Config} {key : Key} {clock gen gen' : Nat} {kind : Kind}
    {a b : KeyState} (op : KeyOp C True key clock gen gen' kind a b) (h : a.Backed C key) :
    b.Backed C key := by
  cases op with
  | enqueuePut | enqueueDelete | enqueueLegacy | markFailure => exact nofun
  | removePut item digest size conditional _ _ receipt sent =>
    rintro - digest' heq
    cases receipt.symm.trans heq
    exact sent trivial
  | removeDelete item _ _ receipt => exact fun _ digest heq => nomatch receipt.symm.trans heq
  | receiptPut item _ _ _ pending | receiptDrop item pending | backendPut item _ pending
  | backendDelete item pending | retainTomb item _ _ pending | retainNone item pending =>
    exact fun none => nomatch pending.symm.trans none
  | writeIntent | storePut | cancel | removeIntent | hydrate | gcStore | gcTomb => exact h

/-- Conditional uploads that come across an object find their own payload. -/
def MatchingObjects (C : Config) : Semantics := fun a s _ _ =>
  match a with
  | .backendPutIfAbsent queued bytes =>
    s.backend.lookup queued.1 = none ∨ s.backend.lookup queued.1 = some bytes
  | .locked (.completeWithoutUpload queued) =>
    Sent C True queued (s.backend.lookup queued.1)
  | _ => True

theorem matchingObjects_discipline (C : Config) :
    Discipline C True (Semantics.only (.does C) (MatchingObjects C))
      (Environment (Semantics.only (.does C) (MatchingObjects C))) (fun _ _ => True) where
  sound := fun h => h.1
  rely := Environment.path (fun h => h.1)
  scan := fun _ _ _ _ => trivial
  spared := fun _ _ => trivial
  own := fun _ _ _ _ => trivial
  absent := fun _ _ _ _ _ _ h => h.2
  skipped := fun _ _ _ _ _ h => h.2

/-- If conditional uploads only ever come across their own payload, a key that
`BackendCommitted` reports is in the backend with the bytes of the store. -/
theorem backendCommitted_sound {C : Config} {sys : System} {keys found : List Key} {s' : Master}
    (reachable : System.Reachable C (Semantics.only (.does C) (MatchingObjects C)) sys)
    (reports : (Action.locked (.backendCommitted keys)).Does C sys.master (some (.ok found)) s') :
    ∀ key ∈ found, ∃ bytes, sys.master.backend.lookup key = some bytes ∧
      sys.master.store.files.lookup key = some bytes := by
  intro key hk
  obtain ⟨order, fates, -, rfl, ok⟩ := reports
  have committed : (sys.master.slice key).Committed C key :=
    (answer_ok (reads_backendCommitted keys) rfl ok).2 key hk
  have backed : (sys.master.slice key).Backed C key :=
    reachable.slice (matchingObjects_discipline C) KeyOp.backed
      (fun a _ _ none _ _ _ heq => nomatch none.symm.trans heq)
  obtain ⟨digest, receipt, stored⟩ := committed.receipt
  obtain ⟨bytes, object, rfl⟩ := Option.map_eq_some_iff.mp (backed committed.item digest receipt)
  obtain ⟨bytes', payload, same⟩ := Option.map_eq_some_iff.mp stored
  rw [Config.digest_inj] at same
  exact ⟨bytes, object, same ▸ payload⟩

/-- Runs without deduplication in which no conditional upload comes across an object. -/
def absentObjects (a : Action) (s : Master) : Bool :=
  match a with
  | .backendPutIfAbsent queued _ => (s.backend.lookup queued.1).isNone
  | .locked (.completeWithoutUpload _) => false
  | _ => true

theorem matchingObjects_of_absent {C : Config} {a : Action} {s s' : Master} {o : Option a.Answer}
    (permitted : absentObjects a s = true) (does : a.Does C s o s') :
    Semantics.only (.does C) (MatchingObjects C) a s o s' := by
  refine ⟨does, ?_⟩
  cases a with
  | backendPutIfAbsent queued bytes => exact Or.inl (Option.isNone_iff_eq_none.mp permitted)
  | locked S =>
    cases S with
    | completeWithoutUpload => cases permitted
    | _ => trivial
  | _ => trivial

def committedNow (C : Config) (keys : List Key) (s : Master) : Option (Except Failure (List Key)) :=
  ((Action.locked (.backendCommitted keys)).perform C (smooth keys) s).map Prod.fst

theorem committedNow_does {C : Config} {keys found : List Key} {s : Master}
    (h : committedNow C keys s = some (.ok found)) :
    ∃ s', (Action.locked (.backendCommitted keys)).Does C s (some (.ok found)) s' := by
  obtain ⟨⟨_, s'⟩, done, rfl⟩ := Option.map_eq_some_iff.mp h
  exact ⟨s', Action.perform_does done⟩

/-- A conditional PUT into an empty backend, uploaded and reported. -/
theorem backendCommitted_sound_of_absent : ∃ sys, System.Reachable sample
    (Semantics.only (.does sample) (MatchingObjects sample)) sys ∧
      ∃ bytes, sys.master.backend.lookup "h/a" = some bytes ∧
        sys.master.store.files.lookup "h/a" = some bytes := by
  obtain ⟨sys, reachable, reports⟩ := System.reachable_of_script
    (M := Semantics.only (.does sample) (MatchingObjects sample))
    (matchingObjects_of_absent (C := sample))
    (bootScript [] ++ requestScript 0 "h" (.put "h/a" [2] true) ["h/a"] 3 ++
      .tick 20 :: passScript ["h/a"] 24)
    (fun sys => committedNow sample ["h/a"] sys.master = some (.ok ["h/a"]))
    (installed_initial .empty ∅) (by decide +kernel)
  obtain ⟨s', does⟩ := committedNow_does reports
  exact ⟨sys, reachable, backendCommitted_sound reachable does "h/a" (List.mem_singleton_self _)⟩

/-- The backend holds another object under the key of a conditional PUT. The upload leaves it
there, and the key is reported as committed all the same. -/
theorem backendCommitted_foreign_object :
    ∃ sys s', System.Reachable sample (.does sample) sys ∧
      (Action.locked (.backendCommitted ["h/a"])).Does sample sys.master (some (.ok ["h/a"])) s' ∧
      sys.master.backend.lookup "h/a" = some [1] ∧
      sys.master.store.files.lookup "h/a" = some [2] := by
  obtain ⟨sys, reachable, reports, object, payload⟩ := System.reachable_of_script (C := sample)
    does_of_anyAction (bootScript [] ++ requestScript 0 "h" (.put "h/a" [2] true) ["h/a"] 3 ++
      .tick 20 :: passScript ["h/a"] 24)
    (fun sys => committedNow sample ["h/a"] sys.master = some (.ok ["h/a"]) ∧
      sys.master.backend.lookup "h/a" = some [1] ∧
      sys.master.store.files.lookup "h/a" = some [2])
    (installed_initial .empty ((∅ : Directory Key Bytes).insert "h/a" [1])) (by decide +kernel)
  obtain ⟨s', does⟩ := committedNow_does reports
  exact ⟨sys, s', reachable, does, object, payload⟩

end Majutsu.Cluster
