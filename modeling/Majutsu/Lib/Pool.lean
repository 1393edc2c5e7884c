import Majutsu.Lib.Interaction
import Majutsu.Lib.Machine

/-!
# Calls in flight

Threads call programs on a shared state: a call starts, its actions are interleaved with
those of the others, and it returns or its thread is lost. A discipline says when calls may
be in flight together and what an action owes to the others; the rely-guarantee
conditions of each call then hold in every run that keeps to it.
-/

open Relation

namespace Pool

variable {Label : Type} {Answer : Label → Type} {σ C β : Type}

/-- The calls, and what is around them. -/
structure System (Answer : Label → Type) (σ C β : Type) where
  program : C → Prog Answer β
  does : (l : Label) → σ → Option (Answer l) → σ → Prop
  begins : C → σ → σ → Prop
  returns : C → β → σ → σ → Prop
  /-- What happens between the actions. -/
  moves : σ → σ → Prop

structure State (Answer : Label → Type) (σ C β : Type) where
  shared : σ
  threads : Nat → Option (C × Prog Answer β)

inductive Event (Label C : Type) where
  | start (thread : Nat) (call : C)
  | act (thread : Nat) (label : Label)
  | finish (thread : Nat)
  | crash (thread : Nat)
  | move

def idle (s : σ) : State Answer σ C β := ⟨s, fun _ => none⟩

namespace State

variable (pool : State Answer σ C β)

def set (s : σ) (t : Nat) (now : Option (C × Prog Answer β)) : State Answer σ C β :=
  ⟨s, fun u => if u = t then now else pool.threads u⟩

@[simp]
theorem threads_set_self (s : σ) (t : Nat) (now : Option (C × Prog Answer β)) :
    (pool.set s t now).threads t = now := if_pos rfl

theorem threads_set_of_ne (s : σ) {t u : Nat} (now : Option (C × Prog Answer β)) (ne : u ≠ t) :
    (pool.set s t now).threads u = pool.threads u := if_neg ne

end State

inductive Step (S : System Answer σ C β) :
    State Answer σ C β → Event Label C → State Answer σ C β → Prop where
  | start {pool : State Answer σ C β} {t : Nat} {c : C} {s' : σ} :
      pool.threads t = none → S.begins c pool.shared s' →
      Step S pool (.start t c) (pool.set s' t (some (c, S.program c)))
  | act {pool : State Answer σ C β} {t : Nat} {c : C} {p p' : Prog Answer β} {l : Label}
      {r : Answer l} {s' : σ} :
      pool.threads t = some (c, p) → Prog.Step S.does p pool.shared l r p' s' →
      Step S pool (.act t l) (pool.set s' t (some (c, p')))
  | finish {pool : State Answer σ C β} {t : Nat} {c : C} {r : β} {s' : σ} :
      pool.threads t = some (c, .ret r) → S.returns c r pool.shared s' →
      Step S pool (.finish t) (pool.set s' t none)
  | crash {pool : State Answer σ C β} {t : Nat} {call : C × Prog Answer β} :
      pool.threads t = some call → Step S pool (.crash t) (pool.set pool.shared t none)
  | move {pool : State Answer σ C β} {s' : σ} :
      S.moves pool.shared s' → Step S pool .move { pool with shared := s' }

/-- What the calls owe to each other. -/
structure Discipline (S : System Answer σ C β) where
  /-- The first call may start while the second one is in flight. -/
  admits : C → C → Prop
  /-- What two calls in flight at the same time have to do with each other. -/
  together : C → C → Prop
  /-- What holds while a call is in flight. -/
  alive : C → σ → Prop
  /-- The call may take an action in a state. -/
  permits : C → Label → σ → Prop
  /-- An action of the first call may be taken while the second one is in flight. -/
  spares : C → Label → C → Prop
  invariant : σ → Prop
  rely : C → σ → σ → Prop
  guarantee : C → Label → σ → σ → Prop
  post : C → β → σ → Prop
  symmetric : ∀ {c d}, together c d → together d c
  safe : ∀ {c s s'}, invariant s → S.begins c s s' → invariant s' ∧
    Prog.Safe (fun l s o s' => S.does l s o s' ∧ permits c l s) (rely c) (guarantee c) (post c)
      (S.program c) s'
  lives : ∀ {c s s'}, S.begins c s s' → alive c s'
  relies : ∀ {d s s'}, rely d s s' → alive d s → alive d s'
  stays : ∀ {c l s s'}, guarantee c l s s' → alive c s → alive c s'
  joined : ∀ {c d s s'}, S.begins c s s' → alive d s → admits c d → together c d
  kept : ∀ {c l s s'}, invariant s → guarantee c l s s' → invariant s'
  spared : ∀ {c d l s s'}, invariant s → guarantee c l s s' → together c d → spares c l d →
    rely d s s'
  begun : ∀ {c d s s'}, invariant s → S.begins c s s' → together c d → rely d s s'
  returned : ∀ {c r s s'}, invariant s → post c r s → S.returns c r s s' →
    invariant s' ∧ ∀ {d}, together c d → rely d s s'
  moved : ∀ {s s'}, invariant s → S.moves s s' → invariant s' ∧ ∀ d, rely d s s'

namespace Discipline

variable {S : System Answer σ C β} (D : Discipline S)

def Allows (pool : State Answer σ C β) : Event Label C → Prop
  | .start t c => ∀ u d p, u ≠ t → pool.threads u = some (d, p) → D.admits c d
  | .act t l => ∀ c p, pool.threads t = some (c, p) → D.permits c l pool.shared ∧
      ∀ u d q, u ≠ t → pool.threads u = some (d, q) → D.spares c l d
  | _ => True

structure Holds (pool : State Answer σ C β) : Prop where
  invariant : D.invariant pool.shared
  alive : ∀ t c p, pool.threads t = some (c, p) → D.alive c pool.shared
  safe : ∀ t c p, pool.threads t = some (c, p) →
    Prog.Safe (fun l s o s' => S.does l s o s' ∧ D.permits c l s) (D.rely c) (D.guarantee c)
      (D.post c) p pool.shared
  together : ∀ t u c d p q, t ≠ u → pool.threads t = some (c, p) → pool.threads u = some (d, q) →
    D.together c d

variable {D} {pool pool' : State Answer σ C β}

theorem holds_idle {s : σ} (invariant : D.invariant s) : D.Holds (idle s) :=
  ⟨invariant, nofun, nofun, nofun⟩

theorem Holds.set (holds : D.Holds pool) {s' : σ} {t : Nat} {now : Option (C × Prog Answer β)}
    (invariant : D.invariant s') (alive : ∀ c p, now = some (c, p) → D.alive c s')
    (own : ∀ c p, now = some (c, p) →
      Prog.Safe (fun l s o s' => S.does l s o s' ∧ D.permits c l s) (D.rely c) (D.guarantee c)
        (D.post c) p s')
    (others : ∀ u d q, u ≠ t → pool.threads u = some (d, q) → D.rely d pool.shared s')
    (compatible : ∀ c p u d q, now = some (c, p) → u ≠ t → pool.threads u = some (d, q) →
      D.together c d) :
    D.Holds (pool.set s' t now) := by
  refine ⟨invariant, ?_, ?_, ?_⟩
  · intro u c p here
    by_cases same : u = t
    · subst same
      rw [State.threads_set_self] at here
      exact alive c p here
    · rw [State.threads_set_of_ne _ _ _ same] at here
      exact D.relies (others u c p same here) (holds.alive u c p here)
  · intro u c p here
    by_cases same : u = t
    · subst same
      rw [State.threads_set_self] at here
      exact own c p here
    · rw [State.threads_set_of_ne _ _ _ same] at here
      exact (holds.safe u c p here).move (.single (others u c p same here))
  · intro u v c d p q apart here there
    by_cases first : u = t
    · subst first
      rw [State.threads_set_self] at here
      rw [State.threads_set_of_ne _ _ _ (Ne.symm apart)] at there
      exact compatible c p v d q here (Ne.symm apart) there
    · rw [State.threads_set_of_ne _ _ _ first] at here
      by_cases second : v = t
      · subst second
        rw [State.threads_set_self] at there
        exact D.symmetric (compatible d q u c p there first here)
      · rw [State.threads_set_of_ne _ _ _ second] at there
        exact holds.together u v c d p q apart here there

theorem Holds.step (holds : D.Holds pool) {event : Event Label C} (step : Step S pool event pool')
    (allowed : D.Allows pool event) : D.Holds pool' := by
  cases step with
  | start idle begins =>
    obtain ⟨invariant, safe⟩ := D.safe holds.invariant begins
    have compatible := fun u d q apart there =>
      D.joined begins (holds.alive u d q there) (allowed u d q apart there)
    refine holds.set invariant ?_ ?_ ?_ ?_
    · rintro c p ⟨⟩
      exact D.lives begins
    · rintro c p ⟨⟩
      exact safe
    · exact fun u d q apart there => D.begun holds.invariant begins (compatible u d q apart there)
    · rintro c p u d q ⟨⟩ apart there
      exact compatible u d q apart there
  | @act t c p p' l r s' here acts =>
    obtain ⟨permitted, spared⟩ := allowed c p here
    obtain ⟨moved, safe⟩ := (holds.safe _ c p here).step (acts.restrict ⟨acts.does, permitted⟩)
    have compatible := fun u d q apart there =>
      holds.together t u c d p q (Ne.symm apart) here there
    refine holds.set (D.kept holds.invariant moved) ?_ ?_ ?_ ?_
    · rintro c p ⟨⟩
      exact D.stays moved (holds.alive t c _ here)
    · rintro c p ⟨⟩
      exact safe
    · exact fun u d q apart there => D.spared holds.invariant moved
        (compatible u d q apart there) (spared u d q apart there)
    · rintro c p u d q ⟨⟩ apart there
      exact compatible u d q apart there
  | @finish t c r s' here returns =>
    have post : D.post c r pool.shared := holds.safe _ c _ here pool.shared .refl
    obtain ⟨invariant, others⟩ := D.returned holds.invariant post returns
    refine holds.set invariant nofun nofun ?_ nofun
    exact fun u d q apart there => others (holds.together t u c d _ q (Ne.symm apart) here there)
  | @crash t call here =>
    have lost : ∀ {u c p}, (pool.set pool.shared t none).threads u = some (c, p) →
        pool.threads u = some (c, p) := by
      intro u c p there
      rw [State.set] at there
      dsimp only at there
      split at there
      · cases there
      · exact there
    exact ⟨holds.invariant, fun u c p there => holds.alive u c p (lost there),
      fun u c p there => holds.safe u c p (lost there),
      fun u v c d p q apart there other =>
        holds.together u v c d p q apart (lost there) (lost other)⟩
  | move moves =>
    obtain ⟨invariant, others⟩ := D.moved holds.invariant moves
    exact ⟨invariant, fun u c p there => D.relies (others c) (holds.alive u c p there),
      fun u c p there => (holds.safe u c p there).move (.single (others c)), holds.together⟩

theorem Holds.run {events : List (Event Label C)} (holds : D.Holds pool)
    (run : Machine.Run (Machine.Meeting (Step S) D.Allows) pool events pool') : D.Holds pool' :=
  run.invariant (I := D.Holds) (fun step before => before.step step.1 step.2) holds

theorem Holds.post (holds : D.Holds pool) {t : Nat} {c : C} {r : β}
    (here : pool.threads t = some (c, .ret r)) : D.post c r pool.shared :=
  holds.safe t c _ here pool.shared .refl

end Discipline

/-! ### Schedules

A schedule of a few threads can be computed, with the conditions of its steps. -/

inductive Command (C : Type) where
  | start (thread : Nat) (call : C)
  | act (thread : Nat)
  | finish (thread : Nat)
  | crash (thread : Nat)

/-- No thread from the bound on is in use. -/
def State.Below (bound : Nat) (pool : State Answer σ C β) : Prop :=
  ∀ t, bound ≤ t → pool.threads t = none

/-- The system as functions, for threads below a bound. -/
structure Simulator (S : System Answer σ C β)
    (meets : State Answer σ C β → Event Label C → Prop) where
  bound : Nat
  perform : (l : Label) → σ → Option (Answer l × σ)
  begins : C → σ → Option σ
  returns : C → β → σ → Option σ
  check : State Answer σ C β → Event Label C → Bool
  performs : ∀ {l s r s'}, perform l s = some (r, s') → S.does l s (some r) s'
  begun : ∀ {c s s'}, begins c s = some s' → S.begins c s s'
  returned : ∀ {c r s s'}, returns c r s = some s' → S.returns c r s s'
  checked : ∀ {pool : State Answer σ C β} {event}, pool.Below bound →
    check pool event = true → meets pool event

namespace Simulator

variable {S : System Answer σ C β} {meets : State Answer σ C β → Event Label C → Prop}
  (sim : Simulator S meets) {pool pool' : State Answer σ C β}

def exec (pool : State Answer σ C β) :
    Command C → Option (Event Label C × State Answer σ C β)
  | .start t c =>
    if t < sim.bound ∧ (pool.threads t).isNone ∧ sim.check pool (.start t c) then
      (sim.begins c pool.shared).map fun s' => (.start t c, pool.set s' t (some (c, S.program c)))
    else none
  | .act t => (pool.threads t).bind fun (c, p) =>
    (p.advance sim.perform pool.shared).bind fun (done, p', s') =>
      if sim.check pool (.act t done.1) then some (.act t done.1, pool.set s' t (some (c, p')))
      else none
  | .finish t =>
    match pool.threads t with
    | some (c, .ret r) =>
      if sim.check pool (.finish t) then
        (sim.returns c r pool.shared).map fun s' => (.finish t, pool.set s' t none)
      else none
    | _ => none
  | .crash t =>
    if (pool.threads t).isSome ∧ sim.check pool (.crash t) then
      some (.crash t, pool.set pool.shared t none)
    else none

def execAll (pool : State Answer σ C β) :
    List (Command C) → Option (List (Event Label C) × State Answer σ C β)
  | [] => some ([], pool)
  | command :: rest => (sim.exec pool command).bind fun (event, mid) =>
    (execAll mid rest).map fun (events, last) => (event :: events, last)

end Simulator

theorem State.Below.set {bound : Nat} {pool : State Answer σ C β} (below : pool.Below bound)
    {s : σ} {t : Nat} {now : Option (C × Prog Answer β)} (inside : t < bound) :
    (pool.set s t now).Below bound := by
  intro u far
  rw [threads_set_of_ne _ _ _ (show u ≠ t by omega)]
  exact below u far

theorem State.Below.lt {bound : Nat} {pool : State Answer σ C β} (below : pool.Below bound)
    {t : Nat} {call : C × Prog Answer β} (here : pool.threads t = some call) : t < bound := by
  by_contra far
  rw [below t (by omega)] at here
  cases here

namespace Simulator

variable {S : System Answer σ C β} {meets : State Answer σ C β → Event Label C → Prop}
  {sim : Simulator S meets} {pool pool' : State Answer σ C β}

theorem exec_step (below : pool.Below sim.bound) {command : Command C} {event : Event Label C}
    (h : sim.exec pool command = some (event, pool')) :
    Machine.Meeting (Step S) meets pool event pool' ∧ pool'.Below sim.bound := by
  cases command with
  | start t c =>
    rw [exec] at h
    split at h
    · next guard =>
      obtain ⟨s', begins, eq⟩ := Option.map_eq_some_iff.mp h
      cases eq
      exact ⟨⟨.start (Option.isNone_iff_eq_none.mp guard.2.1) (sim.begun begins),
        sim.checked below guard.2.2⟩, below.set guard.1⟩
    · cases h
  | act t =>
    obtain ⟨⟨c, p⟩, here, h⟩ := Option.bind_eq_some_iff.mp h
    obtain ⟨⟨done, p', s'⟩, advanced, h⟩ := Option.bind_eq_some_iff.mp h
    dsimp only at h
    split at h
    · next guard =>
      cases h
      exact ⟨⟨.act here (Prog.advance_step (M := S.does) sim.performs advanced), sim.checked below guard⟩,
        below.set (below.lt here)⟩
    · cases h
  | finish t =>
    rw [exec] at h
    split at h
    · next c r here =>
      split at h
      · next guard =>
        obtain ⟨s', returns, eq⟩ := Option.map_eq_some_iff.mp h
        cases eq
        exact ⟨⟨.finish here (sim.returned returns), sim.checked below guard⟩,
          below.set (below.lt here)⟩
      · cases h
    · cases h
  | crash t =>
    rw [exec] at h
    split at h
    · next guard =>
      obtain ⟨call, here⟩ := Option.isSome_iff_exists.mp guard.1
      cases h
      exact ⟨⟨.crash here, sim.checked below guard.2⟩, below.set (below.lt here)⟩
    · cases h

theorem run_of_execAll (below : pool.Below sim.bound) {commands : List (Command C)}
    {events : List (Event Label C)} (h : sim.execAll pool commands = some (events, pool')) :
    Machine.Run (Machine.Meeting (Step S) meets) pool events pool' := by
  induction commands generalizing pool events with
  | nil =>
    cases h
    exact .nil
  | cons command rest ih =>
    obtain ⟨⟨event, mid⟩, first, h⟩ := Option.bind_eq_some_iff.mp h
    obtain ⟨⟨more, last⟩, later, eq⟩ := Option.map_eq_some_iff.mp h
    cases eq
    obtain ⟨step, below⟩ := exec_step below first
    exact .cons step (ih below later)

theorem exists_run (sim : Simulator S meets) (s : σ) (commands : List (Command C))
    (p : State Answer σ C β → Bool)
    (h : ((sim.execAll (idle s) commands).any fun done => p done.2) = true) :
    ∃ events pool, Machine.Run (Machine.Meeting (Step S) meets) (idle s) events pool ∧
      p pool = true := by
  cases last : sim.execAll (idle s) commands with
  | none => simp [last] at h
  | some done =>
    obtain ⟨events, pool⟩ := done
    exact ⟨events, pool, run_of_execAll (fun _ _ => rfl) last, by simpa [last] using h⟩

end Simulator

end Pool
