import Majutsu.Lib.Machine
import Majutsu.Lib.SortedMap
import Majutsu.Repo.RelativeTime

/-!
# Branch refs

The refs `current`, `current-branch` and `branches/*` under the commands that move them. A
command that fails leaves no next state. Loading a manifest and restoring files touch no
ref; their failures only make a command fail, so loading is the row of the snapshots table
and a restore is taken to succeed.
-/

open Machine

namespace BranchRefs

/-- The refs, and the ids of the snapshots table. -/
structure State where
  current : Option String
  currentBranch : Option String
  branches : List (String × String)
  snapshots : List String
deriving DecidableEq

def init : State := ⟨none, none, [], []⟩

def branchHead (s : State) (name : String) : Option String := SortedMap.get s.branches name

def setBranch (s : State) (name id : String) : State :=
  { s with branches := SortedMap.insert name id s.branches }

def deleteBranchRef (s : State) (name : String) : State :=
  { s with branches := SortedMap.erase name s.branches }

def validateBranchName (name : String) : Bool :=
  let chars := name.toList
  !chars.all RelativeTime.isWhitespace && !chars.tails.any (['.', '.'].isPrefixOf ·) &&
    name != "." && !chars.contains '/' && !chars.contains '\\' &&
    !chars.any RelativeTime.isWhitespace &&
    !(["current", "last-synced", "current-branch"].contains name)

/-- The active branch, or the default one, takes the snapshot. -/
def updateActiveBranchHead (s : State) (id : String) : Option State :=
  let branch := s.currentBranch.getD "main"
  if validateBranchName branch then
    some { setBranch s branch id with currentBranch := some branch, current := some id }
  else none

/-- What every branch command does first. -/
def ensureDefaultBranch (s : State) : State :=
  match s.branches with
  | first :: _ =>
    if s.currentBranch.isNone then
      let selected := s.current.bind fun current => s.branches.find? fun head => head.2 = current
      { s with currentBranch := some (selected.getD first).1 }
    else s
  | [] =>
    match s.current with
    | some current => { setBranch s "main" current with currentBranch := some "main" }
    | none => s

/-- `--snapshot`, `--at` with the answer of `snapshot_id_at`, or neither. -/
structure Selection where
  snapshot : Option String
  at_ : Option (Option String)
deriving DecidableEq

def loads (s : State) (id : String) : Bool := s.snapshots.contains id

def resolveSnapshot (s : State) : Selection → Option String
  | ⟨some _, some _⟩ => none
  | ⟨some id, none⟩ => if loads s id then some id else none
  | ⟨none, some answer⟩ => answer
  | ⟨none, none⟩ => s.current

inductive Command where
  | snapshot (id : String)
  | create (name : String) (selection : Selection) (force switch restore : Bool)
  | setHead (name : String) (selection : Selection)
  | delete (name : String) (force : Bool)
  | rename (old new : String) (force : Bool)
  | switch (name : String) (restore : Bool)
  | opRestore (before after : Option String)
deriving DecidableEq

def switchToBranch (s : State) (name : String) : Option State := do
  let id ← branchHead s name
  if loads s id then some { s with currentBranch := some name, current := some id } else none

/-- Set a branch, and `current` with it where the branch is the active one. -/
def moveBranch (s : State) (name id : String) : State :=
  let moved := setBranch s name id
  if s.currentBranch = some name then { moved with current := some id } else moved

def createBranch (s : State) (name : String) (selection : Selection)
    (force switch restore : Bool) : Option State := do
  let id ← resolveSnapshot s selection
  if (branchHead s name).isSome && !force then none
  else if loads s id then
    let created := moveBranch s name id
    if switch || restore then switchToBranch created name else some created
  else none

def setBranchHead (s : State) (name : String) (selection : Selection) : Option State := do
  let _ ← branchHead s name
  let id ← resolveSnapshot s selection
  if loads s id then some (moveBranch s name id) else none

def deleteBranch (s : State) (name : String) (force : Bool) : Option State := do
  let _ ← branchHead s name
  if s.currentBranch = some name then
    if force then
      let rest := deleteBranchRef s name
      match rest.branches.head? with
      | some next => some { rest with currentBranch := some next.1, current := some next.2 }
      | none => some { rest with currentBranch := none }
    else none
  else some (deleteBranchRef s name)

def renameBranch (s : State) (old new : String) (force : Bool) : Option State := do
  let sourceWasActive := s.currentBranch = some old
  let destinationWasActive := s.currentBranch = some new
  if old = new then none
  else if (branchHead s new).isSome && !force then none
  else
    let head ← branchHead s old
    if destinationWasActive ∧ ¬sourceWasActive ∧ !force then none
    else
      let moved := deleteBranchRef (setBranch s new head) old
      let named := if sourceWasActive then { moved with currentBranch := some new } else moved
      some (if sourceWasActive ∨ destinationWasActive then { named with current := some head }
        else named)

def Command.names : Command → List String
  | .create name .. => [name]
  | .setHead name _ => [name]
  | .delete name _ => [name]
  | .rename old new _ => [old, new]
  | .switch name _ => [name]
  | _ => []

/-- A branch command on valid names, from the refs with a default branch. -/
def branchCmd (s : State) (command : Command) : Option State :=
  if command.names.all validateBranchName then
    let s := ensureDefaultBranch s
    match command with
    | .create name selection force switch restore =>
      createBranch s name selection force switch restore
    | .setHead name selection => setBranchHead s name selection
    | .delete name force => deleteBranch s name force
    | .rename old new force => renameBranch s old new force
    | .switch name _ => switchToBranch s name
    | _ => none
  else none

def exec (s : State) : Command → Option State
  | .snapshot id => updateActiveBranchHead { s with snapshots := id :: s.snapshots } id
  | .opRestore before after => do
    let id ← before <|> after
    updateActiveBranchHead s id
  | command => branchCmd s command

variable {s s' : State} {name id : String}

theorem branchHead_setBranch (s : State) (name id other : String) :
    branchHead (setBranch s name id) other =
      if name = other then some id else branchHead s other :=
  SortedMap.get_insert name id s.branches other

theorem branchHead_deleteBranchRef (s : State) (name other : String) :
    branchHead (deleteBranchRef s name) other =
      if name = other then none else branchHead s other :=
  SortedMap.get_erase name s.branches other

theorem branchHead_moveBranch (s : State) (name id other : String) :
    branchHead (moveBranch s name id) other =
      if name = other then some id else branchHead s other := by
  rw [← branchHead_setBranch]
  unfold moveBranch
  split <;> rfl

/-- The branch `name` is active, and its head is current. -/
structure Active (s : State) (name id : String) : Prop where
  branch : s.currentBranch = some name
  head : branchHead s name = some id
  current : s.current = some id

def Tracks (s : State) : Prop :=
  (s.branches = [] ∧ s.currentBranch = none) ∨ ∃ name id, Active s name id

structure Inv (s : State) : Prop where
  tracks : Tracks s
  taken : s.snapshots ≠ [] → s.current ≠ none

structure Moved (s s' : State) (names : List String) : Prop where
  tracks : Tracks s'
  snapshots : s'.snapshots = s.snapshots
  current : s'.current ≠ none
  spares : ∀ other v, branchHead s other = some v → other ∉ names →
    branchHead s' other = some v

theorem Inv.active_of_head (inv : Inv s) (head : branchHead s name = some id) :
    ∃ active v, Active s active v := by
  rcases inv.tracks with ⟨none, -⟩ | active
  · rw [branchHead, none] at head
    exact nomatch head
  · exact active

theorem ensureDefaultBranch_inv (inv : Inv s) : Inv (ensureDefaultBranch s) ∧
    (s.snapshots ≠ [] → ∃ name id, Active (ensureDefaultBranch s) name id) ∧
    (ensureDefaultBranch s).snapshots = s.snapshots ∧
    ∀ other v, branchHead s other = some v → branchHead (ensureDefaultBranch s) other = some v := by
  rcases inv.tracks with ⟨none, inactive⟩ | ⟨name, id, active⟩
  · unfold ensureDefaultBranch
    rw [none]
    cases current : s.current with
    | none =>
      exact ⟨inv, fun taken => absurd current (inv.taken taken), rfl, fun _ _ head => head⟩
    | some id =>
      have main : Active { setBranch s "main" id with currentBranch := some "main" } "main" id :=
        ⟨rfl, (branchHead_setBranch s "main" id "main").trans (if_pos rfl), current⟩
      refine ⟨⟨Or.inr ⟨_, _, main⟩, fun _ => by simp [setBranch, current]⟩,
        fun _ => ⟨_, _, main⟩, rfl, fun other v head => ?_⟩
      rw [branchHead, none] at head
      exact nomatch head
  · have same : ensureDefaultBranch s = s := by
      unfold ensureDefaultBranch
      split
      · simp [active.branch]
      · next none =>
        have head := active.head
        rw [branchHead, none] at head
        exact nomatch head
    rw [same]
    exact ⟨inv, fun _ => ⟨name, id, active⟩, rfl, fun _ _ head => head⟩

variable {active v : String} {selection : Selection} {force : Bool}

theorem Active.moved_moveBranch (h : Active s active v) (name id : String) :
    Moved s (moveBranch s name id) [name] := by
  have spares : ∀ other w, branchHead s other = some w → other ∉ [name] →
      branchHead (moveBranch s name id) other = some w := by
    intro other w head new
    rw [branchHead_moveBranch, if_neg, head]
    rintro rfl
    exact new List.mem_cons_self
  by_cases same : name = active
  · have moved : moveBranch s name id = { setBranch s name id with current := some id } :=
      if_pos (by rw [same, h.branch])
    refine ⟨Or.inr ⟨active, id, ?_, ?_, ?_⟩, ?_, ?_, spares⟩
    · rw [moved]
      exact h.branch
    · rw [branchHead_moveBranch, if_pos same]
    · rw [moved]
    · rw [moved]
      rfl
    · rw [moved]
      nofun
  · have moved : moveBranch s name id = setBranch s name id := by
      refine if_neg fun eq => same ?_
      rw [h.branch, Option.some.injEq] at eq
      exact eq.symm
    refine ⟨Or.inr ⟨active, v, ?_, ?_, ?_⟩, ?_, ?_, spares⟩
    · rw [moved]
      exact h.branch
    · rw [branchHead_moveBranch, if_neg same, h.head]
    · rw [moved]
      exact h.current
    · rw [moved]
      rfl
    · rw [moved]
      exact fun none => nomatch h.current.symm.trans none

theorem moved_switchToBranch (h : switchToBranch s name = some s') : Moved s s' [] := by
  obtain ⟨id, head, rest⟩ := Option.bind_eq_some_iff.1 h
  split at rest
  · cases rest
    exact ⟨Or.inr ⟨name, id, rfl, head, rfl⟩, rfl, nofun, fun _ _ head _ => head⟩
  · exact nomatch rest

theorem Moved.trans {s'' : State} {names : List String} (first : Moved s s' names)
    (next : Moved s' s'' []) : Moved s s'' names :=
  ⟨next.tracks, next.snapshots.trans first.snapshots, next.current, fun other v head new =>
    next.spares other v (first.spares other v head new) (by simp)⟩

theorem Active.moved_createBranch (h : Active s active v) {switch restore : Bool}
    (created : createBranch s name selection force switch restore = some s') :
    Moved s s' [name] := by
  obtain ⟨id, -, rest⟩ := Option.bind_eq_some_iff.1 created
  split at rest
  · exact nomatch rest
  split at rest
  · split at rest
    · exact (h.moved_moveBranch name id).trans (moved_switchToBranch rest)
    · cases rest
      exact h.moved_moveBranch name id
  · exact nomatch rest

theorem Active.moved_setBranchHead (h : Active s active v)
    (moved : setBranchHead s name selection = some s') : Moved s s' [name] := by
  obtain ⟨_, -, rest⟩ := Option.bind_eq_some_iff.1 moved
  obtain ⟨id, -, rest⟩ := Option.bind_eq_some_iff.1 rest
  split at rest
  · cases rest
    exact h.moved_moveBranch name id
  · exact nomatch rest

theorem spares_deleteBranchRef (s : State) (name : String) : ∀ other v,
    branchHead s other = some v → other ∉ [name] →
      branchHead (deleteBranchRef s name) other = some v := by
  intro other v head new
  rw [branchHead_deleteBranchRef, if_neg, head]
  rintro rfl
  exact new List.mem_cons_self

theorem Active.moved_deleteBranch (h : Active s active v)
    (deleted : deleteBranch s name force = some s') : Moved s s' [name] := by
  obtain ⟨_, -, rest⟩ := Option.bind_eq_some_iff.1 deleted
  have current : s.current ≠ none := fun none => nomatch h.current.symm.trans none
  split at rest
  · split at rest
    · dsimp only at rest
      split at rest
      · -- The first of the remaining branches becomes active.
        next next first =>
        cases rest
        refine ⟨Or.inr ⟨next.1, next.2, rfl, ?_, rfl⟩, rfl, nofun, spares_deleteBranchRef s name⟩
        obtain ⟨tail, eq⟩ := List.head?_eq_some_iff.1 first
        change SortedMap.get (deleteBranchRef s name).branches next.1 = some next.2
        rw [eq, SortedMap.get_cons, if_pos rfl]
      · next none =>
        cases rest
        exact ⟨Or.inl ⟨List.head?_eq_none_iff.1 none, rfl⟩, rfl, current,
          spares_deleteBranchRef s name⟩
    · exact nomatch rest
  · next other =>
    cases rest
    refine ⟨Or.inr ⟨active, v, h.branch, ?_, h.current⟩, rfl, current,
      spares_deleteBranchRef s name⟩
    rw [branchHead_deleteBranchRef, if_neg, h.head]
    rintro rfl
    exact other h.branch

theorem branchHead_renamed (s : State) (old new head other : String) :
    branchHead (deleteBranchRef (setBranch s new head) old) other =
      if old = other then none else if new = other then some head else branchHead s other := by
  rw [branchHead_deleteBranchRef, branchHead_setBranch]

theorem Inv.moved_renameBranch {old new : String} (inv : Inv s)
    (renamed : renameBranch s old new force = some s') : Moved s s' [old, new] := by
  unfold renameBranch at renamed
  dsimp only at renamed
  split at renamed
  · cases renamed
  next differ =>
  split at renamed
  · cases renamed
  obtain ⟨head, found, rest⟩ := Option.bind_eq_some_iff.1 renamed
  obtain ⟨active, v, h⟩ := inv.active_of_head found
  split at rest
  · cases rest
  have spares : ∀ other w, branchHead s other = some w → other ∉ [old, new] →
      branchHead (deleteBranchRef (setBranch s new head) old) other = some w := by
    intro other w there outside
    simp only [List.mem_cons, List.not_mem_nil, or_false, not_or] at outside
    rw [branchHead_renamed, if_neg (Ne.symm outside.1), if_neg (Ne.symm outside.2), there]
  have atNew : branchHead (deleteBranchRef (setBranch s new head) old) new = some head := by
    rw [branchHead_renamed, if_neg differ, if_pos rfl]
  by_cases source : s.currentBranch = some old
  · simp only [source, if_true, true_or, Option.some.injEq] at rest
    subst rest
    exact ⟨Or.inr ⟨new, head, rfl, atNew, rfl⟩, rfl, by simp, spares⟩
  · by_cases destination : s.currentBranch = some new
    · have inactive : new ≠ old := fun eq => differ eq.symm
      simp only [destination, Option.some.injEq, inactive, if_false, or_true, if_true] at rest
      subst rest
      exact ⟨Or.inr ⟨new, head, destination, atNew, rfl⟩, rfl, by simp, spares⟩
    · simp only [destination, source, if_false, or_self, Option.some.injEq] at rest
      subst rest
      refine ⟨Or.inr ⟨active, v, h.branch, ?_, h.current⟩, rfl,
        (fun none => by cases h.current.symm.trans none), spares⟩
      rw [branchHead_renamed, if_neg, if_neg, h.head]
      · rintro rfl
        exact destination h.branch
      · rintro rfl
        exact source h.branch

theorem updateActiveBranchHead_inv (tracked : s.branches = [] ∨ s.currentBranch ≠ none)
    (updated : updateActiveBranchHead s id = some s') :
    Inv s' ∧ ∀ other v, branchHead s other = some v → s.currentBranch ≠ some other →
      branchHead s' other = some v := by
  unfold updateActiveBranchHead at updated
  dsimp only at updated
  split at updated
  · cases updated
    have lookup := branchHead_setBranch s (s.currentBranch.getD "main") id
    refine ⟨⟨Or.inr ⟨_, id, rfl, (lookup _).trans (if_pos rfl), rfl⟩, nofun⟩,
      fun other v head inactive => ?_⟩
    refine (lookup other).trans ?_
    rcases tracked with none | some_
    · rw [branchHead, none] at head
      exact nomatch head
    · obtain ⟨active, branch⟩ := Option.ne_none_iff_exists'.1 some_
      rw [branch] at inactive ⊢
      rw [Option.getD_some, if_neg fun eq => inactive (congrArg some eq), head]
  · exact nomatch updated

theorem snapshots_ne_nil_of_createBranch {switch restore : Bool}
    (created : createBranch s name selection force switch restore = some s') :
    s.snapshots ≠ [] := by
  obtain ⟨id, -, rest⟩ := Option.bind_eq_some_iff.1 created
  split at rest
  · exact nomatch rest
  split at rest
  · next loaded =>
    intro none
    rw [loads, none] at loaded
    exact nomatch loaded
  · exact nomatch rest

theorem branchCmd_inv {command : Command} (inv : Inv s) (done : branchCmd s command = some s') :
    Inv s' ∧ ∀ other v, branchHead s other = some v → other ∉ command.names →
      branchHead s' other = some v := by
  obtain ⟨ensured, taken, snapshots, keeps⟩ := ensureDefaultBranch_inv inv
  have moves : Moved (ensureDefaultBranch s) s' command.names := by
    unfold branchCmd at done
    split at done
    · dsimp only at done
      split at done
      · obtain ⟨active, v, h⟩ := taken (snapshots ▸ snapshots_ne_nil_of_createBranch done)
        exact h.moved_createBranch done
      · obtain ⟨_, head, -⟩ := Option.bind_eq_some_iff.1 done
        obtain ⟨active, v, h⟩ := ensured.active_of_head head
        exact h.moved_setBranchHead done
      · obtain ⟨_, head, -⟩ := Option.bind_eq_some_iff.1 done
        obtain ⟨active, v, h⟩ := ensured.active_of_head head
        exact h.moved_deleteBranch done
      · exact ensured.moved_renameBranch done
      · have moved := moved_switchToBranch done
        exact ⟨moved.tracks, moved.snapshots, moved.current,
          fun other v head _ => moved.spares other v head (by simp)⟩
      · exact nomatch done
    · exact nomatch done
  refine ⟨⟨moves.tracks, fun _ => moves.current⟩, fun other v head outside => ?_⟩
  exact moves.spares other v (keeps other v head) outside

theorem exec_inv {command : Command} (inv : Inv s) (done : exec s command = some s') :
    Inv s' ∧ ∀ other v, branchHead s other = some v → branchHead s' other ≠ some v →
      other ∈ command.names ∨ s.currentBranch = some other := by
  -- The commands outside `branchCmd` update the active branch only.
  have active : ∀ {u : State} {id : String}, u.branches = s.branches →
      u.currentBranch = s.currentBranch → updateActiveBranchHead u id = some s' →
      Inv s' ∧ ∀ other v, branchHead s other = some v → branchHead s' other ≠ some v →
        other ∈ command.names ∨ s.currentBranch = some other := by
    intro u id branches branch updated
    have tracked : u.branches = [] ∨ u.currentBranch ≠ none := by
      rw [branches, branch]
      rcases inv.tracks with ⟨none, -⟩ | ⟨name, v, h⟩
      · exact Or.inl none
      · exact Or.inr fun none => nomatch h.branch.symm.trans none
    obtain ⟨inv', spares⟩ := updateActiveBranchHead_inv tracked updated
    refine ⟨inv', fun other v head changed => Or.inr ?_⟩
    by_contra inactive
    refine changed (spares other v ?_ ?_)
    · rwa [branchHead, branches]
    · rwa [branch]
  have named : ∀ {other v}, branchCmd s command = some s' → branchHead s other = some v →
      branchHead s' other ≠ some v → other ∈ command.names := by
    intro other v done head changed
    by_contra outside
    exact changed ((branchCmd_inv inv done).2 other v head outside)
  cases command with
  | snapshot id => exact active (u := { s with snapshots := id :: s.snapshots }) rfl rfl done
  | opRestore before after =>
    obtain ⟨id, -, updated⟩ := Option.bind_eq_some_iff.1 done
    exact active rfl rfl updated
  | _ => exact ⟨(branchCmd_inv inv done).1, fun other v head changed =>
      Or.inl (named done head changed)⟩

/-- After every sequence of successful commands the active branch has the current snapshot as
its head, or there is no branch at all; and a command changes no branch but those it names and
the active one. -/
theorem activeBranch_tracks_current {commands : List Command} {s : State}
    (run : Run (Computes exec) init commands s) :
    Tracks s ∧ ∀ command s', exec s command = some s' → ∀ name id, branchHead s name = some id →
      branchHead s' name ≠ some id → name ∈ command.names ∨ s.currentBranch = some name := by
  have start : Inv init := ⟨Or.inl ⟨rfl, rfl⟩, fun taken => absurd rfl taken⟩
  have inv : Inv s := run.invariant (fun step before => (exec_inv before step).1) start
  exact ⟨inv.tracks, fun command s' done => (exec_inv inv done).2⟩

/-- Two snapshots, a branch at the first, a switch to it, a snapshot there and the deletion of
the active branch. -/
theorem activeBranch_tracks_current_after_delete :
    ∃ s, Run (Computes exec) init [.snapshot "a", .snapshot "b",
        .create "fix" ⟨some "a", none⟩ false false false, .switch "fix" false, .snapshot "c",
        .delete "fix" true] s ∧
      s = ⟨some "b", some "main", [("main", "b")], ["c", "b", "a"]⟩ ∧ Tracks s := by
  have last : execAll exec init [.snapshot "a", .snapshot "b",
      .create "fix" ⟨some "a", none⟩ false false false, .switch "fix" false, .snapshot "c",
      .delete "fix" true] =
      some ⟨some "b", some "main", [("main", "b")], ["c", "b", "a"]⟩ := by decide +kernel
  have run := run_of_execAll (fun {_ _ _} step => step) last
  exact ⟨_, run, rfl, (activeBranch_tracks_current run).1⟩

end BranchRefs
