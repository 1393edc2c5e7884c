import Majutsu.Remote.ConditionalPuts

/-!
# One winner of a conditional put

Where hard links work for every call or for none, or where no link is tried while a lock
file stands and the object is absent, one caller wins and the object is its content from
then on. Without that condition two callers can both answer `true`, and the second one has
replaced the object of the first.
-/

namespace Majutsu.Remote

open Cluster
open Prog

section Discipline

variable {key : String} {c d : ConditionalPut} {s s' : FileWorld}

theorem Orderly.chosen (orderly : Orderly key s) (tmp : String) :
    Orderly key { s with temps := tmp :: s.temps } where
  bounded := orderly.bounded
  won win mem := by
    obtain ⟨chosen, object⟩ := orderly.won win mem
    exact ⟨List.mem_cons_of_mem _ chosen, object⟩
  once := orderly.once

theorem Orderly.win {tmp : String} {content : Bytes} (mine : Mine key tmp s)
    (won : Won key tmp content s) : Orderly key { s with wins := (tmp, content) :: s.wins } := by
  obtain ⟨file, there, old, creator, data⟩ := won
  have nobody : s.wins = [] := by
    refine List.eq_nil_iff_forall_not_mem.mpr fun win mem => mine.unwon win mem ?_
    obtain ⟨-, other, there', creator', -⟩ := mine.orderly.won win mem
    rw [← creator', ← creator, Option.some.inj (there.symm.trans there')]
  refine ⟨mine.orderly.bounded, ?_, by rw [nobody, List.length_singleton]⟩
  intro win mem
  rw [nobody, List.mem_singleton] at mem
  rw [mem]
  exact ⟨mine.chosen, file, there, creator, data⟩

theorem Leaves.aside {support : LinkSupport} {tmp : String} (orderly : Orderly key s')
    (names : s'.names = s.names) (data : s'.data = s.data) (next : s'.next = s.next)
    (creator : s'.creator = s.creator) (temps : tmp ∈ s.temps → tmp ∈ s'.temps)
    (unwon : (∀ win ∈ s.wins, win.1 ≠ tmp) → ∀ win ∈ s'.wins, win.1 ≠ tmp) :
    Leaves support key tmp s s' where
  orderly _ := orderly
  next := Nat.le_of_eq next.symm
  creator file _ := congrFun creator file
  mine := congrFun names tmp
  kept file there := ⟨(congrFun names key).trans there, congrFun data file⟩
  lock _ := ⟨congrFun names _, fun _ absent => (congrFun names key).trans absent⟩
  publishes file absent there := by
    rw [names, absent] at there
    cases there
  data file _ _ := congrFun data file
  temps := temps
  unwon := unwon

end Discipline

/-- The conditional puts of one object keep to their conditions. -/
def conditionalPutDiscipline (support : LinkSupport) (key : String) :
    Pool.Discipline (conditionalPuts support key) where
  admits _ _ := True
  together c d := c.tmp key ≠ d.tmp key
  alive c s := c.tmp key ∈ s.temps
  permits _ step s := LinksApart support key s step
  spares _ _ _ := True
  invariant := Orderly key
  rely c := Leaves support key (c.tmp key)
  guarantee c _ := Acts support key (c.tmp key)
  post c r s := Mine key (c.tmp key) s ∧
    ∀ result, r = .ok result → Outcome key (c.tmp key) c.content result s
  symmetric := Ne.symm
  safe := by
    rintro c s _ orderly ⟨unused, free, rfl⟩
    have mine : Mine key (c.tmp key) { s with temps := c.tmp key :: s.temps } := by
      refine ⟨orderly.chosen _, List.mem_cons_self, ?_⟩
      intro win mem same
      exact unused (same ▸ (orderly.won win mem).1)
    refine ⟨mine.orderly, ?_⟩
    refine (fileRemotePutIfAbsentAtomic_tries (c.own key) c.pieces _ mine free).mono
      (fun _ _ rely => rely) (fun _ _ _ acts => acts) ?_
    rintro r t ⟨after, outcome⟩
    refine ⟨after, ?_⟩
    rintro result rfl
    exact outcome
  lives := by
    rintro c s _ ⟨-, -, rfl⟩
    exact List.mem_cons_self
  relies leaves := leaves.temps
  stays acts chosen := by rwa [acts.temps]
  joined := by
    rintro c d s _ ⟨unused, -, -⟩ chosen - same
    exact unused (same ▸ chosen)
  kept orderly acts := acts.orderly orderly
  spared _ acts apart _ := acts.leaves (ConditionalPut.own key _) apart
  begun := by
    rintro c d s _ orderly ⟨-, -, rfl⟩ -
    exact .aside (orderly.chosen _) rfl rfl rfl rfl (List.mem_cons_of_mem _) id
  returned := by
    rintro c r s _ orderly ⟨mine, outcome⟩ rfl
    split
    · next won =>
      have wins := Orderly.win mine (outcome true won)
      refine ⟨wins, fun apart => .aside wins rfl rfl rfl rfl id ?_⟩
      intro unwon win mem
      obtain rfl | mem := List.mem_cons.mp mem
      · exact apart
      · exact unwon win mem
    · exact ⟨orderly, fun apart => Acts.refl.leaves (ConditionalPut.own key _) apart⟩
  moved _ none_ := none_.elim

/-- What is asked of the puts at any moment. -/
structure OneWinner (key : String) (calls : PutCalls) : Prop where
  /-- At most one call has returned `true`, and the object is its content. -/
  once : calls.shared.wins.length ≤ 1
  winner : ∀ win ∈ calls.shared.wins, calls.shared.object key = some win.2
  /-- So it is for a call that is about to return. -/
  wins : ∀ t c, calls.threads t = some (c, .ret (.ok true)) →
    calls.shared.object key = some c.content
  loses : ∀ t c, calls.threads t = some (c, .ret (.ok false)) → calls.shared.object key ≠ none

abbrev PutRun (support : LinkSupport) (key : String) :
    PutCalls → List (Pool.Event FileStep ConditionalPut) → PutCalls → Prop :=
  Machine.Run (Machine.Meeting (Pool.Step (conditionalPuts support key)) (Unmixed support key))

section Runs

variable {support : LinkSupport} {key : String} {s : FileWorld} {calls calls' : PutCalls}
  {events : List (Pool.Event FileStep ConditionalPut)}

theorem FileWorld.Before.orderly (before : s.Before key) : Orderly key s where
  bounded := before.bounded
  won win mem := by
    rw [before.noWins] at mem
    cases mem
  once := by simp [before.noWins]

theorem Unmixed.allows {event : Pool.Event FileStep ConditionalPut}
    (unmixed : Unmixed support key calls event) :
    (conditionalPutDiscipline support key).Allows calls event := by
  cases event with
  | start t c => exact fun _ _ _ _ _ => trivial
  | act t step => exact fun _ _ _ => ⟨unmixed, fun _ _ _ _ _ => trivial⟩
  | _ => trivial

theorem Outcome.object {tmp : String} {content : Bytes} (won : Outcome key tmp content true s) :
    s.object key = some content := by
  obtain ⟨file, there, -, -, data⟩ := won
  rw [FileWorld.object, there, Option.map_some, data]

theorem OneWinner.of_holds (holds : (conditionalPutDiscipline support key).Holds calls) :
    OneWinner key calls where
  once := holds.invariant.once
  winner win mem := by
    obtain ⟨-, file, there, -, data⟩ := holds.invariant.won win mem
    rw [FileWorld.object, there, Option.map_some, data]
  wins t c here := ((holds.post here).2 true rfl).object
  loses t c here gone := (holds.post here).2 false rfl (Option.map_eq_none_iff.mp gone)

/-- The object, once it is there, is the same file with the same bytes. -/
def Lasting (key : String) (a b : FileWorld) : Prop :=
  ∀ file, a.names key = some file → b.names key = some file ∧ b.data file = a.data file

theorem step_lasting (holds : (conditionalPutDiscipline support key).Holds calls)
    {event : Pool.Event FileStep ConditionalPut}
    (step : Pool.Step (conditionalPuts support key) calls event calls')
    (unmixed : Unmixed support key calls event) : Lasting key calls.shared calls'.shared := by
  intro file there
  cases step with
  | start _ begins =>
    obtain ⟨-, -, rfl⟩ := begins
    exact ⟨there, rfl⟩
  | @act t c p p' l r s' here acts =>
    have moved := ((holds.safe _ c p here).step (acts.restrict ⟨acts.does, unmixed⟩)).1
    exact moved.kept file there
  | finish _ returns =>
    obtain rfl := returns
    exact ⟨by split <;> exact there, by split <;> rfl⟩
  | crash _ => exact ⟨there, rfl⟩
  | move moves => exact moves.elim

theorem PutRun.lasting (holds : (conditionalPutDiscipline support key).Holds calls)
    (run : PutRun support key calls events calls') : Lasting key calls.shared calls'.shared := by
  refine (run.invariant (I := fun now => (conditionalPutDiscipline support key).Holds now ∧
    Lasting key calls.shared now.shared) ?_ ⟨holds, fun _ there => ⟨there, rfl⟩⟩).2
  rintro now event later ⟨step, unmixed⟩ ⟨before, lasting⟩
  refine ⟨before.step step unmixed.allows, fun file there => ?_⟩
  obtain ⟨here, data⟩ := lasting file there
  obtain ⟨still, same⟩ := step_lasting before step unmixed file here
  exact ⟨still, same.trans data⟩

end Runs

/-- Conditional puts of an absent object have one winner at any moment, and an object that
is there is not replaced. -/
theorem putIfAbsent_one_winner (support : LinkSupport) (key : String) {s : FileWorld}
    (before : s.Before key) {events : List (Pool.Event FileStep ConditionalPut)}
    {calls : PutCalls} (run : PutRun support key (Pool.idle s) events calls) :
    OneWinner key calls ∧ ∀ later calls', PutRun support key calls later calls' →
      Lasting key calls.shared calls'.shared := by
  have holds : (conditionalPutDiscipline support key).Holds calls :=
    (Pool.Discipline.holds_idle before.orderly).run
      (run.mono fun step => ⟨step.1, step.2.allows⟩)
  exact ⟨.of_holds holds, fun _ _ more => more.lasting holds⟩

theorem before_emptyDirectory (key : String) : emptyDirectory.Before key :=
  ⟨rfl, nofun, rfl, rfl⟩

def beginPut (key : String) (c : ConditionalPut) (s : FileWorld) : Option FileWorld :=
  if c.tmp key ∉ s.temps ∧ s.names (c.tmp key) = none then
    some { s with temps := c.tmp key :: s.temps }
  else none

/-- Calls on a file system where the links of some callers work. -/
def putSimulator (key : String) (links : String → Bool)
    (meets : PutCalls → Pool.Event FileStep ConditionalPut → Prop)
    (check : PutCalls → Pool.Event FileStep ConditionalPut → Bool)
    (checked : ∀ {calls event}, check calls event = true → meets calls event) :
    Pool.Simulator (conditionalPuts .mixed key) meets where
  bound := 2
  perform := FileStep.perform links fun _ => none
  begins := beginPut key
  returns c r s :=
    some (if r = .ok true then { s with wins := (c.tmp key, c.content) :: s.wins } else s)
  check := check
  performs := FileStep.does_of_perform
  begun h := by
    obtain ⟨⟨unused, free⟩, eq⟩ := Option.ite_none_right_eq_some.mp h
    exact ⟨unused, free, (Option.some.inj eq).symm⟩
  returned h := (Option.some.inj h).symm
  checked _ h := checked h

instance (support : LinkSupport) (key : String) (s : FileWorld) (step : FileStep) :
    Decidable (LinksApart support key s step) :=
  match step with
  | ⟨_, .hardLink source path⟩ =>
    decidable_of_iff (path = key → support = .mixed →
        s.names (fileRemoteLockPath key) = none ∨ s.names key ≠ none) (by
      constructor
      · rintro h _ ⟨⟩
        exact h rfl
      · rintro h rfl
        exact h source rfl)
  | ⟨_, .createDirs _⟩ | ⟨_, .isDirectory _⟩ | ⟨_, .createNew _⟩ | ⟨_, .writeFile _ _⟩
  | ⟨_, .syncFile _⟩ | ⟨_, .rename _ _⟩ | ⟨_, .removeFile _⟩ | ⟨_, .pathExists _⟩
  | ⟨_, .syncParentDir _⟩ | ⟨_, .nextFile⟩ | ⟨_, .fileLen _⟩ => .isTrue nofun

instance (support : LinkSupport) (key : String) (calls : PutCalls)
    (event : Pool.Event FileStep ConditionalPut) : Decidable (Unmixed support key calls event) :=
  match event with
  | .act _ step => inferInstanceAs (Decidable (LinksApart support key calls.shared step))
  | .start _ _ | .finish _ | .crash _ | .move => .isTrue trivial

/-- A caller whose links fail, and one whose links work. -/
def callerWithout : ConditionalPut := ⟨"1", [[1]]⟩

def callerWith : ConditionalPut := ⟨"2", [[2], [3]]⟩

def linksOf (tmp : String) : Bool := tmp = callerWith.tmp "k"

/-- The first caller publishes under the lock, and the link of the second one then finds
the object. -/
theorem putIfAbsent_one_winner_in_turn : ∃ events calls, emptyDirectory.Before "k" ∧
    PutRun .mixed "k" (Pool.idle emptyDirectory) events calls ∧
    calls.shared.wins = [(callerWithout.tmp "k", [1])] ∧ OneWinner "k" calls := by
  obtain ⟨events, calls, run, computed⟩ :=
    (putSimulator "k" linksOf (Unmixed .mixed "k")
      (fun calls event => decide (Unmixed .mixed "k" calls event)) of_decide_eq_true).exists_run
    emptyDirectory
    [.start 0 callerWithout, .start 1 callerWith, .act 0, .act 1, .act 0, .act 1, .act 0, .act 1,
      .act 0, .act 1, .act 0, .act 0, .act 0, .act 0, .act 0, .act 0, .act 1, .act 1, .act 1,
      .finish 0, .finish 1]
    (fun calls => calls.shared.wins = [(callerWithout.tmp "k", [1])]) (by decide +kernel)
  exact ⟨events, calls, before_emptyDirectory "k", run, of_decide_eq_true computed,
    (putIfAbsent_one_winner .mixed "k" (before_emptyDirectory "k") run).1⟩

/-- The first caller holds the lock and has seen no object; the second one links its file
and answers `true`; the first one renames its own over it and answers `true` as well. -/
theorem putIfAbsent_two_winners : ∃ events calls, emptyDirectory.Before "k" ∧
    Machine.Run (Pool.Step (conditionalPuts .mixed "k")) (Pool.idle emptyDirectory) events calls ∧
    calls.shared.wins = [(callerWithout.tmp "k", [1]), (callerWith.tmp "k", [2, 3])] ∧
    calls.shared.object "k" = some [1] ∧ ¬OneWinner "k" calls := by
  obtain ⟨events, calls, run, computed⟩ :=
    (putSimulator "k" linksOf (fun _ _ => True) (fun _ _ => true) fun _ => trivial).exists_run
    emptyDirectory
    [.start 0 callerWithout, .act 0, .act 0, .act 0, .act 0, .act 0, .act 0, .act 0,
      .start 1 callerWith, .act 1, .act 1, .act 1, .act 1, .act 1, .act 1, .act 1, .act 1,
      .finish 1, .act 0, .act 0, .act 0, .finish 0]
    (fun calls =>
      calls.shared.wins = [(callerWithout.tmp "k", [1]), (callerWith.tmp "k", [2, 3])] ∧
        calls.shared.object "k" = some [1]) (by decide +kernel)
  obtain ⟨wins, object⟩ := of_decide_eq_true computed
  refine ⟨events, calls, before_emptyDirectory "k", run.mono fun step => step.1, wins, object,
    fun one => ?_⟩
  have once := one.once
  rw [wins] at once
  exact absurd once (by decide)

end Majutsu.Remote
