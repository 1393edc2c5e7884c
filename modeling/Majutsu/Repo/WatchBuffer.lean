import Majutsu.Lib.Machine
import Majutsu.Repo.SnapshotRules

/-!
# The event buffer of the watcher

`drain_watch_event_buffer` collects file events until the files are quiet, and
`settle_before_flush` waits once more. Both take an event only if the watcher's own
rules connect it to a root. A round is one pass through a loop; what the memory guard,
the clock, the channel and the journal answer in it is given.
-/

open Machine

namespace Majutsu.Repo.Watch

inductive EventKind where
  | any | access | create | modify | remove | other
deriving DecidableEq

/-- A path by its components, and what `is_dir` answers for it. -/
structure EventPath where
  components : List String
  isDir : Bool

structure Event where
  kind : EventKind
  paths : List EventPath

/-- What the watcher reads of a `RootConfig`; `ignore` is the matcher of `build_ignore`. -/
structure Root where
  id : String
  path : List String
  rules : RootPatterns
  ignore : String → Bool → Bool

def isTransientWatchPath : List String → Bool
  | first :: second :: rest =>
    first == ".git" && Cluster.endsWith second ".lock" || isTransientWatchPath (second :: rest)
  | _ => false

def snapshotRelevantEvent (event : Event) : Bool :=
  event.kind ≠ .access && event.paths.any fun path => !isTransientWatchPath path.components

def slashPath (path : List String) : String := String.intercalate "/" path

section Rules

variable (glob : String → String → Bool)

def Root.matchers (root : Root) : Matchers := ⟨glob, root.ignore⟩

def rootIgnoresRelativePath (root : Root) (relative : List String) (isDir : Bool) : Bool :=
  root.rules.explicitlyUntracked (root.matchers glob) (slashPath relative) ||
    root.rules.isVolatile (root.matchers glob) (slashPath relative) ||
    root.ignore (slashPath relative) isDir

/-- The path below the root, if the root does not ignore it. -/
def Root.seen (root : Root) (path : EventPath) : Option (List String) :=
  (path.components.dropPrefix? root.path).filter fun relative =>
    relative.isEmpty || !rootIgnoresRelativePath glob root relative path.isDir

/-- `max_by_key` over the depths of the roots: of the deepest ones the last. -/
def deepest : List (Root × List String) → Option (Root × List String)
  | [] => none
  | head :: tail =>
    match deepest tail with
    | none => some head
    | some best => some (if best.1.path.length < head.1.path.length then head else best)

variable (roots : List Root)

def eventPathForRoots (path : EventPath) : Option (String × String) :=
  (deepest (roots.filterMap fun root => (root.seen glob path).map (root, ·))).map
    fun (root, relative) => (root.id, if relative.isEmpty then "." else slashPath relative)

def eventRelevantForRoots (event : Event) : Bool :=
  roots.isEmpty || event.paths.any fun path => (eventPathForRoots glob roots path).isSome

def eventRootIdsForPath (path : EventPath) : Finset String :=
  (roots.filterMap fun root => (root.seen glob path).map fun _ => root.id).toFinset

/-- The loop of `changed_roots_for_paths`; a path without a root means all roots. -/
def changedRootsFrom (changed : Finset String) : List EventPath → Option (Finset String)
  | [] => if changed = ∅ then none else some changed
  | path :: paths =>
    if eventRootIdsForPath glob roots path = ∅ then none
    else changedRootsFrom (changed ∪ eventRootIdsForPath glob roots path) paths

def notifyEventChangedRoots (event : Event) : Option (Finset String) :=
  if roots.isEmpty then none else changedRootsFrom glob roots ∅ event.paths

def mergeChangedRoots : Option (Finset String) → Option (Finset String) → Option (Finset String)
  | some changed, some next => some (changed ∪ next)
  | _, _ => none

structure WatchEventBufferConfig where
  quiet : Nat
  settle : Nat
  maxLatency : Nat
  maxEvents : Nat

/-- The variables of the loops. The source does not keep `received`, the events that the channel
handed over to them. -/
structure Buffer where
  started : Nat
  lastEvent : Nat
  events : Nat
  changedRoots : Option (Finset String)
  received : List Event

inductive Received where
  | event (event : Event)
  | error
  | timeout
  | disconnected

/-- The answers in one round. `journal` is for the one entry that a round can write. -/
structure Round where
  guard : Option String
  now : Nat
  quietCheck : Nat
  received : Received
  journal : Option String
  after : Nat

inductive Phase where
  | draining (buffer : Buffer)
  | settling (buffer : Buffer)
  | flushed (reason : String) (buffer : Buffer)
  | failed (error : String)

def counted (event : Event) : Bool :=
  snapshotRelevantEvent event && eventRelevantForRoots glob roots event

/-- `?` on an answer. -/
def unlessFailed (answer : Option String) (next : Phase) : Phase := answer.elim next .failed

/-- The buffer after the channel handed over an event. The settling loop does not read
`lastEvent`. -/
def Buffer.take (buffer : Buffer) (event : Event) (now : Nat) : Buffer :=
  if counted glob roots event then
    { buffer with
      changedRoots := mergeChangedRoots buffer.changedRoots (notifyEventChangedRoots glob roots event)
      events := buffer.events + 1
      lastEvent := now
      received := event :: buffer.received }
  else { buffer with received := event :: buffer.received }

/-- The match on `recv_timeout`, the same in both loops but for the loop that goes on. -/
def receive (again : Buffer → Phase) (timeout : Phase) (buffer : Buffer) (round : Round) : Phase :=
  match round.received with
  | .event event =>
    let next := again (buffer.take glob roots event round.after)
    if counted glob roots event then unlessFailed round.journal next else next
  | .error => unlessFailed round.journal (again buffer)
  | .timeout => timeout
  | .disconnected => .failed "watch channel disconnected"

variable (config : WatchEventBufferConfig)

def settleBeforeFlush (reason : String) (buffer : Buffer) (round : Round) : Phase :=
  if config.settle ≠ 0 ∧ reason = "quiet" then unlessFailed round.journal (.settling buffer)
  else .flushed reason buffer

def drainRound (buffer : Buffer) (round : Round) : Phase :=
  if config.maxEvents ≤ buffer.events then settleBeforeFlush config "max-events" buffer round
  else if config.maxLatency ≤ round.now - buffer.started then
    settleBeforeFlush config "max-latency" buffer round
  else if config.quiet - (round.quietCheck - buffer.lastEvent) = 0 then
    settleBeforeFlush config "quiet" buffer round
  else
    let reason := if config.maxLatency ≤ round.after - buffer.started then "max-latency" else "quiet"
    receive glob roots .draining (settleBeforeFlush config reason buffer round) buffer round

def settleRound (buffer : Buffer) (round : Round) : Phase :=
  if config.maxEvents ≤ buffer.events then .flushed "max-events" buffer
  else if config.maxLatency ≤ round.now - buffer.started then .flushed "max-latency" buffer
  else receive glob roots .settling (.flushed "quiet" buffer) buffer round

def step (phase : Phase) (round : Round) : Option Phase :=
  match phase with
  | .draining buffer => some (unlessFailed round.guard (drainRound glob roots config buffer round))
  | .settling buffer => some (unlessFailed round.guard (settleRound glob roots config buffer round))
  | _ => none

/-- The first event came to the caller, which passes what it changed. -/
def drainWatchEventBuffer (now : Nat) (changed : Option (Finset String)) : Phase :=
  .draining ⟨now, now, 1, changed, []⟩

/-- The snapshot would take the path for the root, and it is neither volatile nor a lock of git. -/
def Root.backsUp (root : Root) (path : EventPath) : Bool :=
  !isTransientWatchPath path.components &&
    (path.components.dropPrefix? root.path).any fun relative =>
      root.rules.rootRecordIsManaged (root.matchers glob) (slashPath relative) path.isDir &&
        !root.rules.isVolatile (root.matchers glob) (slashPath relative)

/-- All roots, or at least this one, are to be scanned. -/
def Scans (changed : Option (Finset String)) (id : String) : Prop := ∀ ids ∈ changed, id ∈ ids

def MissesNothing (buffer : Buffer) : Prop :=
  ∀ event ∈ buffer.received, event.kind ≠ .access → ∀ path ∈ event.paths, ∀ root ∈ roots,
    root.backsUp glob path = true →
      counted glob roots event = true ∧ Scans buffer.changedRoots root.id

/-- No path that the root backs up matches its exclude patterns. -/
def Root.SeesBackups (root : Root) : Prop :=
  ∀ path relative, root.backsUp glob path = true →
    path.components.dropPrefix? root.path = some relative → relative ≠ [] →
      root.ignore (slashPath relative) path.isDir = false

/-- The active roots of the database, whose table has each id once. -/
structure ActiveRoots where
  list : List Root
  once : (list.map Root.id).Nodup

end Rules

variable {glob : String → String → Bool} {roots : List Root} {config : WatchEventBufferConfig}
  {event : Event} {path : EventPath} {root : Root} {id : String} {buffer : Buffer} {round : Round}
  {condition : Buffer → Prop}

theorem deepest_isSome (found : List (Root × List String)) :
    (deepest found).isSome = !found.isEmpty := by
  cases found with
  | nil => rfl
  | cons head tail =>
    simp only [deepest]
    split <;> rfl

theorem eventPathForRoots_isSome :
    (eventPathForRoots glob roots path).isSome = true ↔
      ∃ root ∈ roots, (root.seen glob path).isSome = true := by
  rw [eventPathForRoots, Option.isSome_map, deepest_isSome]
  simp [List.filterMap_eq_nil_iff, Option.isSome_iff_ne_none]

theorem mem_eventRootIdsForPath :
    id ∈ eventRootIdsForPath glob roots path ↔
      ∃ root ∈ roots, root.id = id ∧ (root.seen glob path).isSome = true := by
  simp [eventRootIdsForPath, Option.isSome_iff_exists, and_comm]

theorem changedRootsFrom_subset {paths : List EventPath} {changed ids : Finset String}
    (found : changedRootsFrom glob roots changed paths = some ids) :
    changed ⊆ ids ∧ ∀ path ∈ paths, eventRootIdsForPath glob roots path ⊆ ids := by
  induction paths generalizing changed with
  | nil =>
    simp only [changedRootsFrom, Option.ite_none_left_eq_some] at found
    cases found.2
    simp
  | cons path paths ih =>
    simp only [changedRootsFrom, Option.ite_none_left_eq_some] at found
    obtain ⟨before, rest⟩ := ih found.2
    have both := Finset.union_subset_iff.1 before
    exact ⟨both.1, List.forall_mem_cons.2 ⟨both.2, rest⟩⟩

theorem scans_of_mem_paths (mem : path ∈ event.paths)
    (seen : id ∈ eventRootIdsForPath glob roots path) :
    Scans (notifyEventChangedRoots glob roots event) id := by
  intro ids found
  simp only [notifyEventChangedRoots, Option.mem_def, Option.ite_none_left_eq_some] at found
  exact (changedRootsFrom_subset found.2).2 path mem seen

theorem scans_merge {changed next : Option (Finset String)}
    (scans : Scans changed id ∨ Scans next id) : Scans (mergeChangedRoots changed next) id := by
  rintro ids found
  cases changed with
  | none => cases found
  | some changed =>
    cases next with
    | none => cases found
    | some next =>
      cases found
      simpa [Scans] using scans

variable (glob roots) in
/-- What an event that was taken changed is scanned. -/
def Buffer.Accounts (buffer : Buffer) : Prop :=
  ∀ event ∈ buffer.received, counted glob roots event = true →
    ∀ id, Scans (notifyEventChangedRoots glob roots event) id → Scans buffer.changedRoots id

theorem Buffer.Accounts.take (accounts : buffer.Accounts glob roots) (event : Event) (now : Nat) :
    (buffer.take glob roots event now).Accounts glob roots := by
  unfold Buffer.take
  split
  · intro other mem taken id scans
    rcases List.mem_cons.1 mem with rfl | mem
    · exact scans_merge (.inr scans)
    · exact scans_merge (.inl (accounts other mem taken id scans))
  · rename_i skipped
    intro other mem taken
    rcases List.mem_cons.1 mem with rfl | mem
    · exact absurd taken skipped
    · exact accounts other mem taken

/-- A condition on the buffer, in every phase that has one. -/
def Phase.Holds (condition : Buffer → Prop) : Phase → Prop
  | .draining buffer | .settling buffer | .flushed _ buffer => condition buffer
  | .failed _ => True

theorem holds_unlessFailed {answer : Option String} {next : Phase} (holds : next.Holds condition) :
    (unlessFailed answer next).Holds condition := by
  cases answer with
  | none => exact holds
  | some error => trivial

theorem holds_settleBeforeFlush {reason : String} (holds : condition buffer) :
    (settleBeforeFlush config reason buffer round).Holds condition := by
  unfold settleBeforeFlush
  split
  · exact holds_unlessFailed holds
  · exact holds

theorem accounts_receive {again : Buffer → Phase} {timeout : Phase}
    (accounts : buffer.Accounts glob roots)
    (loops : ∀ {next : Buffer}, next.Accounts glob roots →
      (again next).Holds (Buffer.Accounts glob roots))
    (stops : timeout.Holds (Buffer.Accounts glob roots)) :
    (receive glob roots again timeout buffer round).Holds (Buffer.Accounts glob roots) := by
  unfold receive
  split
  case h_1 event _ =>
    have next := loops (accounts.take event round.after)
    dsimp only
    split
    · exact holds_unlessFailed next
    · exact next
  case h_2 => exact holds_unlessFailed (loops accounts)
  case h_3 => exact stops
  case h_4 => trivial

theorem step_accounts {phase next : Phase}
    (moved : Computes (step glob roots config) phase round next)
    (accounts : phase.Holds (Buffer.Accounts glob roots)) :
    next.Holds (Buffer.Accounts glob roots) := by
  cases phase with
  | draining buffer =>
    cases moved
    refine holds_unlessFailed ?_
    unfold drainRound
    split_ifs
    · exact holds_settleBeforeFlush accounts
    · exact holds_settleBeforeFlush accounts
    · exact holds_settleBeforeFlush accounts
    · exact accounts_receive accounts id (holds_settleBeforeFlush accounts)
    · exact accounts_receive accounts id (holds_settleBeforeFlush accounts)
  | settling buffer =>
    cases moved
    refine holds_unlessFailed ?_
    unfold settleRound
    split_ifs
    · exact accounts
    · exact accounts
    · exact accounts_receive accounts id accounts
  | flushed => cases moved
  | failed => cases moved

theorem seen_of_backsUp (backed : root.backsUp glob path = true) :
    (root.seen glob path).isSome = true ↔ ∀ relative,
      path.components.dropPrefix? root.path = some relative → relative ≠ [] →
        root.ignore (slashPath relative) path.isDir = false := by
  have rules := (Bool.and_eq_true_iff.1 backed).2
  unfold Root.seen
  cases below : path.components.dropPrefix? root.path with
  | none => simp [below] at rules
  | some relative =>
    simp only [below, Option.any_some, Bool.and_eq_true, Bool.not_eq_true'] at rules
    have tracked : root.rules.explicitlyUntracked (root.matchers glob) (slashPath relative) =
        false := by
      by_contra untracked
      simp [RootPatterns.rootRecordIsManaged, untracked] at rules
    simp [rootIgnoresRelativePath, tracked, rules.2, Option.isSome_filter, ← or_iff_not_imp_left]

theorem missesNothing_of_sees (accounts : buffer.Accounts glob roots)
    (sees : ∀ root ∈ roots, root.SeesBackups glob) : MissesNothing glob roots buffer := by
  intro event received kind path mem root rooted backed
  have seen := (seen_of_backsUp backed).2 fun relative => sees root rooted path relative backed
  have lasting : isTransientWatchPath path.components = false := by
    simpa using (Bool.and_eq_true_iff.1 backed).1
  have relevant : counted glob roots event = true := by
    simp only [counted, snapshotRelevantEvent, eventRelevantForRoots, Bool.and_eq_true,
      Bool.or_eq_true, List.any_eq_true]
    exact ⟨⟨by simpa using kind, path, mem, by simp [lasting]⟩,
      .inr ⟨path, mem, eventPathForRoots_isSome.2 ⟨root, rooted, seen⟩⟩⟩
  exact ⟨relevant, accounts event received relevant root.id
    (scans_of_mem_paths mem (mem_eventRootIdsForPath.2 ⟨root, rooted, rfl, seen⟩))⟩

theorem notifyEventChangedRoots_single (mem : root ∈ roots)
    (relevant : counted glob roots ⟨.modify, [path]⟩ = true) :
    notifyEventChangedRoots glob roots ⟨.modify, [path]⟩ =
      some (eventRootIdsForPath glob roots path) := by
  have some_root : roots.isEmpty = false := by cases mem <;> rfl
  simp only [counted, eventRelevantForRoots, some_root, Bool.false_or, List.any_cons,
    List.any_nil, Bool.or_false, Bool.and_eq_true] at relevant
  obtain ⟨other, otherMem, seen⟩ := eventPathForRoots_isSome.1 relevant.2
  have ids : eventRootIdsForPath glob roots path ≠ ∅ :=
    Finset.ne_empty_of_mem (mem_eventRootIdsForPath.2 ⟨other, otherMem, rfl, seen⟩)
  simp [notifyEventChangedRoots, some_root, changedRootsFrom, ids]

def at0 (received : Received) : Round := ⟨none, 0, 0, received, none, 0⟩

/-- The loops miss no change of a file that is backed up, in any run, exactly if no root excludes
what it backs up. -/
theorem flush_missesNothing_iff (glob : String → String → Bool) (active : ActiveRoots) :
    (∀ config now changed rounds reason buffer, Run (Computes (step glob active.list config))
      (drainWatchEventBuffer now changed) rounds (.flushed reason buffer) →
        MissesNothing glob active.list buffer) ↔
      ∀ root ∈ active.list, root.SeesBackups glob := by
  obtain ⟨roots, once⟩ := active
  constructor
  · intro holds root mem path relative backed
    -- an event for the path alone, after one like it
    let event : Event := ⟨.modify, [path]⟩
    let changed := notifyEventChangedRoots glob roots event
    let buffer := Buffer.take glob roots ⟨0, 0, 1, changed, []⟩ event 0
    have taken : event ∈ buffer.received := by
      unfold buffer Buffer.take
      split <;> exact .head _
    have flush : Run (Computes (step glob roots ⟨1, 0, 1, 3⟩)) (drainWatchEventBuffer 0 changed)
        [at0 (.event event), at0 .timeout] (.flushed "quiet" buffer) := by
      apply run_of_execAll id
      by_cases relevant : counted glob roots event = true
      all_goals
        simp [execAll, step, drainWatchEventBuffer, drainRound, receive, at0, unlessFailed,
          settleBeforeFlush, buffer, Buffer.take, relevant]
    obtain ⟨relevant, scans⟩ := holds _ _ _ _ _ _ flush event taken nofun path (.head _) root mem
      backed
    have ids := notifyEventChangedRoots_single mem relevant
    have listed := scans (eventRootIdsForPath glob roots path)
      (by simp [buffer, Buffer.take, relevant, changed, event, ids, mergeChangedRoots])
    obtain ⟨other, otherMem, same, seen⟩ := mem_eventRootIdsForPath.1 listed
    obtain rfl := List.inj_on_of_nodup_map once otherMem mem same
    exact (seen_of_backsUp backed).1 seen relative
  · intro sees config now changed rounds reason buffer run
    have start : (drainWatchEventBuffer now changed).Holds (Buffer.Accounts glob roots) := nofun
    exact missesNothing_of_sees (run.invariant step_accounts start) sees

/-- `build/` is excluded and one file in it is tracked. -/
def excludedBuild : Root where
  id := "src"
  path := ["/", "src"]
  rules := ⟨[], none, ["build/a.bin"], []⟩
  ignore rel _ := isBelow rel "build"

/-- The tracked file is backed up, and its event is neither counted nor recorded in the buffer. -/
theorem flush_misses_tracked_file :
    excludedBuild.backsUp (· == ·) ⟨["/", "src", "build", "a.bin"], false⟩ = true ∧
    ∃ buffer,
      execAll (step (· == ·) [excludedBuild] ⟨300, 0, 5000, 100⟩)
        (drainWatchEventBuffer 0 (some {"src"}))
        [at0 (.event ⟨.modify, [⟨["/", "src", "build", "a.bin"], false⟩]⟩), at0 .timeout] =
          some (.flushed "quiet" buffer) ∧
      buffer.events = 1 ∧
      ¬ MissesNothing (· == ·) [excludedBuild] buffer := by
  have backed : excludedBuild.backsUp (· == ·) ⟨["/", "src", "build", "a.bin"], false⟩ = true := by
    decide +kernel
  refine ⟨backed, _, rfl, rfl, fun misses => ?_⟩
  have taken := (misses _ (.head _) (nofun) _ (.head _) excludedBuild (.head _) backed).1
  exact absurd taken (by decide +kernel)

end Majutsu.Repo.Watch
