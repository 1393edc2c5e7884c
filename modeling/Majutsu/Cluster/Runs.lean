import Majutsu.Cluster.WorkerPass

/-!
# Runs of the whole system

Every step of the system, crashes included, moves the master along the key
protocol, whatever the threads are in the middle of. Invariants of single keys
therefore hold in every reachable state as soon as the operations of the
protocol preserve them.
-/

namespace Majutsu.Cluster

open Prog Relation

def Environment (M : Semantics) (s s' : Master) : Prop :=
  (∃ (a : Action) (o : Option a.Answer), a.OfRequest ∧ M a s o s') ∨
    (∃ elapsed, s' = { s with clock := s.clock + elapsed }) ∨ s' = { s with flushRequest := true }

def Event.allow : Event → Key → Kind → Prop
  | client _ a _ | worker a _ | boot a _ | halt a => a.allow
  | _ => noneAllowed

/-- The event is the action `a` of some thread, completed or not. -/
def Event.Performs (a : Action) : Event → Prop
  | client _ b _ | worker b _ | boot b _ | halt b => b = a
  | _ => False

section Quiet

variable {C : Config} {honest : Prop} {allow : Key → Kind → Prop}

theorem path_tick (s : Master) (elapsed : Nat) :
    ReflTransGen (Move C honest allow) s { s with clock := s.clock + elapsed } :=
  .single (Move.quiet (Nat.le_add_right ..) le_rfl (fun _ => rfl))

theorem path_flushRequest (s : Master) :
    ReflTransGen (Move C honest allow) s { s with flushRequest := true } :=
  path_of_same rfl rfl (fun _ => rfl)

theorem path_restarted (s : Master) : ReflTransGen (Move C honest allow) s s.restarted :=
  path_of_same rfl rfl (fun _ => rfl)

theorem Environment.path {M : Semantics} {s s' : Master}
    (sound : ∀ {a s o s'}, M a s o s' → a.Does C s o s') (h : Environment M s s') :
    ReflTransGen (Move C honest requestAllow) s s' := by
  rcases h with ⟨a, o, request, does⟩ | ⟨elapsed, rfl⟩ | rfl
  · obtain ⟨path, allowed⟩ := Action.OfRequest.path request (sound does)
    exact path_mono path allowed
  · exact path_tick s elapsed
  · exact path_flushRequest s

end Quiet

/-- The threads of the system are where their programs can have taken them. -/
structure Good (C : Config) (honest : Prop) (M : Semantics) (J : List Queued → Master → Prop)
    (sys : System) : Prop where
  issued : Issued sys.master
  clients : ∀ t p, sys.clients t = some p → Uses Action.OfRequest p
  boot : ∀ p, sys.mode = .booting p → Uses Action.OfBoot p
  worker : ∀ p, sys.mode = .serving (some p) →
    Safe M (Environment M) (Acts C honest M J) (fun _ t => Issued t) p sys.master

section Steps

variable {C : Config} {honest : Prop} {M : Semantics} {J : List Queued → Master → Prop}
  {sys sys' : System} {e : Event} (D : Discipline C honest M (Environment M) J)

include D

theorem Good.path (good : Good C honest M J sys) (step : System.Step C M sys e sys') :
    ReflTransGen (Move C honest e.allow) sys.master sys'.master := by
  cases step with
  | accept | reply | wake | sleep | crash | serve | abandon => exact .refl
  | client hp step =>
    exact ((good.clients _ _ hp).step step).1.path (D.sound step.does) |>.1
  | worker hp step => exact ((good.worker _ hp).step step).1.path D
  | haltClient hp stops =>
    exact ((good.clients _ _ hp).stops stops).path (D.sound stops.does) |>.1
  | haltWorker hp stops => exact ((good.worker _ hp).stops stops).path D
  | haltBoot hp stops => exact ((good.boot _ hp).stops stops).path (D.sound stops.does)
  | start => exact path_restarted _
  | boot hp step => exact ((good.boot _ hp).step step).1.path (D.sound step.does)
  | tick => exact path_tick _ _
  | requestFlush => exact path_flushRequest _

theorem Good.step (good : Good C honest M J sys) (step : System.Step C M sys e sys') :
    Good C honest M J sys' := by
  have issued : Issued sys'.master := along_path Issued.move (good.path D step) good.issued
  -- the worker waits while somebody else moves
  have waits : ∀ {m : Master}, Environment M sys.master m → ∀ p, sys.mode = .serving (some p) →
      Safe M (Environment M) (Acts C honest M J) (fun _ t => Issued t) p m :=
    fun env p hp => (good.worker p hp).move (.single env)
  have others : ∀ {t : Nat} {next : Option (Program ClusterValue)},
      (∀ p, next = some p → Uses Action.OfRequest p) →
      ∀ t' p, sys.setClient t next t' = some p → Uses Action.OfRequest p := by
    intro t next uses t' p hp
    by_cases ht : t' = t
    · subst ht
      rw [System.setClient_self] at hp
      exact uses p hp
    · rw [System.setClient_of_ne ht] at hp
      exact good.clients t' p hp
  cases step with
  | accept serving idle =>
    refine ⟨issued, others ?_, good.boot, good.worker⟩
    rintro p ⟨⟩
    exact uses_handleRequest _ _
  | client hp step =>
    obtain ⟨request, rest⟩ := (good.clients _ _ hp).step step
    refine ⟨issued, others ?_, good.boot, waits (Or.inl ⟨_, _, request, step.does⟩)⟩
    rintro p ⟨⟩
    exact rest
  | reply => exact ⟨issued, others nofun, good.boot, good.worker⟩
  | wake =>
    refine ⟨issued, good.clients, nofun, ?_⟩
    rintro p ⟨⟩
    exact (tame_runBackendWorkerOnce D _ good.issued trivial).mono (fun _ _ h => h)
      (fun _ _ _ h => h) (fun _ _ h => h.1)
  | worker hp step =>
    refine ⟨issued, good.clients, nofun, ?_⟩
    rintro p ⟨⟩
    exact ((good.worker _ hp).step step).2
  | sleep => exact ⟨issued, good.clients, nofun, nofun⟩
  | crash | haltClient | haltWorker | haltBoot | abandon => exact ⟨issued, nofun, nofun, nofun⟩
  | start =>
    refine ⟨issued, good.clients, ?_, nofun⟩
    rintro p ⟨⟩
    exact uses_bootProgram
  | boot hp step =>
    refine ⟨issued, good.clients, ?_, nofun⟩
    rintro p ⟨⟩
    exact ((good.boot _ hp).step step).2
  | serve => exact ⟨issued, good.clients, nofun, nofun⟩
  | tick => exact ⟨issued, good.clients, good.boot, waits (Or.inr (Or.inl ⟨_, rfl⟩))⟩
  | requestFlush => exact ⟨issued, good.clients, good.boot, waits (Or.inr (Or.inr rfl))⟩

omit D in
theorem System.Step.does {a : Action} (step : System.Step C M sys e sys') (performs : e.Performs a) :
    ∃ o, M a sys.master o sys'.master := by
  cases step with
  | client _ step | worker _ step | boot _ step =>
    cases performs
    exact ⟨_, step.does⟩
  | haltClient _ stops | haltWorker _ stops | haltBoot _ stops =>
    cases performs
    exact ⟨_, stops.does⟩
  | _ => cases performs

omit D in
theorem Good.performs {a : Action} (good : Good C honest M J sys)
    (step : System.Step C M sys e sys') (performs : e.Performs a) :
    a.OfRequest ∨ a.OfBoot ∨ Acts C honest M J a sys.master sys'.master := by
  cases step with
  | client hp step =>
    cases performs
    exact Or.inl ((good.clients _ _ hp).step step).1
  | worker hp step =>
    cases performs
    exact Or.inr (Or.inr ((good.worker _ hp).step step).1)
  | boot hp step =>
    cases performs
    exact Or.inr (Or.inl ((good.boot _ hp).step step).1)
  | haltClient hp stops =>
    cases performs
    exact Or.inl ((good.clients _ _ hp).stops stops)
  | haltWorker hp stops =>
    cases performs
    exact Or.inr (Or.inr ((good.worker _ hp).stops stops))
  | haltBoot hp stops =>
    cases performs
    exact Or.inr (Or.inl ((good.boot _ hp).stops stops))
  | _ => cases performs

theorem Good.run {events : List Event} (good : Good C honest M J sys)
    (run : System.Run C M sys events sys') : Good C honest M J sys' := by
  induction run with
  | nil => exact good
  | cons step _ ih => exact ih (good.step D step)

omit D in
theorem System.Initial.good (init : System.Initial sys) : Good C honest M J sys where
  issued := by
    intro key item found
    rw [init.queue] at found
    cases found
  clients := by
    intro t p hp
    rw [init.idle] at hp
    cases hp
  boot := by
    intro p hp
    rw [init.down] at hp
    cases hp
  worker := by
    intro p hp
    rw [init.down] at hp
    cases hp

theorem System.Reachable.good (reachable : System.Reachable C M sys) : Good C honest M J sys := by
  obtain ⟨init, events, initial, run⟩ := reachable
  exact initial.good.run D run

omit D in
theorem System.Run.invariant {P : System → Prop} {events : List Event}
    (run : System.Run C M sys events sys')
    (step : ∀ {sys sys' e}, e ∈ events → System.Step C M sys e sys' → P sys → P sys')
    (start : P sys) : P sys' := by
  induction run with
  | nil => exact start
  | cons first _ ih =>
    exact ih (fun he => step (List.mem_cons_of_mem _ he)) (step (List.mem_cons_self ..) first start)

theorem Good.run_slice {I : KeyState → Prop} {key : Key} {events : List Event}
    (good : Good C honest M J sys) (run : System.Run C M sys events sys')
    (step : ∀ e ∈ events, ∀ {kind clock gen gen' a b}, e.allow key kind →
      KeyOp C honest key clock gen gen' kind a b → I a → I b)
    (start : I (sys.master.slice key)) : I (sys'.master.slice key) := by
  have all : Good C honest M J sys' ∧ I (sys'.master.slice key) := by
    refine run.invariant (P := fun sys => Good C honest M J sys ∧ I (sys.master.slice key))
      (fun {_ _ e} he first holds => ⟨holds.1.step D first, ?_⟩) ⟨good, start⟩
    exact along_path (I := fun s => I (s.slice key)) (fun move => move.invariant
      (fun allowed op => step e he allowed op)) (holds.1.path D first) holds.2
  exact all.2

theorem System.Reachable.slice {I : KeyState → Prop} {key : Key}
    (reachable : System.Reachable C M sys)
    (step : ∀ {kind clock gen gen' a b}, KeyOp C honest key clock gen gen' kind a b → I a → I b)
    (start : ∀ a : KeyState, a.item = none → a.intent = none → a.receipt = none → a.tomb = none →
      I a) : I (sys.master.slice key) := by
  obtain ⟨init, events, initial, run⟩ := reachable
  refine Good.run_slice D initial.good run (fun _ _ _ _ _ _ _ _ _ op => step op) (start _ ?_ ?_ ?_ ?_)
  · exact (congrArg (Finmap.lookup key) initial.queue).trans (Finmap.lookup_empty _)
  · exact (congrArg (Finmap.lookup key) initial.intents).trans (Finmap.lookup_empty _)
  · exact (congrArg (Finmap.lookup key) initial.receipts).trans (Finmap.lookup_empty _)
  · exact (congrArg (Finmap.lookup key) initial.localGc).trans (Finmap.lookup_empty _)

end Steps

/-- Without conditions on the actions the worker still follows the protocol; only what a
receipt says about the backend is left open. -/
theorem Discipline.plain {C : Config} {M : Semantics}
    (sound : ∀ {a s o s'}, M a s o s' → a.Does C s o s') :
    Discipline C False M (Environment M) (fun _ _ => True) where
  sound := sound
  rely := Environment.path sound
  scan := fun _ _ _ _ => trivial
  spared := fun _ _ => trivial
  own := fun _ _ _ _ => trivial
  absent := nofun
  skipped := nofun

end Majutsu.Cluster
