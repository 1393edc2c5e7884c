import Majutsu.Repo.FileMaps
import Majutsu.Repo.Metadata
import Majutsu.Repo.SnapshotRules

/-!
# Hooks of a clone

The roots of a remote reach the database of a clone by two ways. Its metadata export
lists them as they stood in the database of the other host, and its configuration
lists them again. Cloning takes the commands out of the configuration only. Every
later opening of the database writes the roots of the configuration over the rows.
-/

namespace Majutsu.Repo

open Loops

structure RootConfig where
  id : String
  name : String
  path : SourcePath
  status : String
  snapshotMode : String
  preSnapshot : Option String
  postSnapshot : Option String
  snapshotSource : Option SourcePath
  applicationPlugin : Option String
  largeChunking : Option String
  volatile : Option RootVolatileConfig
  deriving DecidableEq

structure ConfigRoot where
  id : String
  name : Option String
  path : SourcePath
  status : Option String
  snapshotMode : String
  preSnapshot : Option String
  postSnapshot : Option String
  snapshotSource : Option SourcePath
  applicationPlugin : Option String
  largeChunking : Option String
  volatile : Option RootVolatileConfig
  deriving DecidableEq

def defaultRootStatus : String := "active"

def validateSnapshotMode (mode : String) : Except String Unit :=
  if mode ∈ ["default", "strict", "transactional"] then .ok ()
  else .error "snapshot mode must be default, strict, or transactional"

def validateLargeChunking (chunking : String) : Except String Unit :=
  if chunking ∈ ["fixed", "fastcdc"] then .ok ()
  else .error "large chunking must be fixed or fastcdc"

def validateVolatileMode (mode : String) : Except String Unit :=
  if mode ∈ ["checkpoint", "exclude"] then .ok ()
  else .error s!"unsupported volatile mode {mode}; supported modes: checkpoint, exclude"

def configRelativePath (base path : SourcePath) : SourcePath :=
  if path.absolute then path else { base with parts := base.parts ++ path.parts }

def validateVolatile (id : String) : Option RootVolatileConfig → Except String Unit
  | none => .ok ()
  | some volatile => do
    validateVolatileMode volatile.mode
    if volatile.patterns.isEmpty then
      .error s!"root {id} volatile policy requires at least one pattern"

def validateSnapshotSource (root : ConfigRoot) : Except String Unit :=
  if root.snapshotSource.isSome && root.snapshotMode ≠ "transactional" then
    .error s!"root {root.id} snapshot_source requires snapshot_mode transactional"
  else .ok ()

def ConfigRoot.toRootConfig (base : SourcePath) (root : ConfigRoot)
    (existing : Option RootConfig) : Except String RootConfig := do
  validateSnapshotMode root.snapshotMode
  root.largeChunking.forM validateLargeChunking
  validateVolatile root.id root.volatile
  validateSnapshotSource root
  .ok
    { id := root.id
      name := root.name.getD root.id
      path := configRelativePath base root.path
      status := (root.status.or (existing.map RootConfig.status)).getD defaultRootStatus
      snapshotMode := root.snapshotMode
      preSnapshot := root.preSnapshot
      postSnapshot := root.postSnapshot
      snapshotSource := root.snapshotSource.map (configRelativePath base)
      applicationPlugin := root.applicationPlugin
      largeChunking := root.largeChunking
      volatile := root.volatile }

/-- The rows of the table of roots and the roots in the configuration file. -/
structure CloneHome where
  config : List ConfigRoot
  roots : Entries RootConfig
  deriving DecidableEq

def syncConfigRoots (base : SourcePath) (config : List ConfigRoot) (roots : Entries RootConfig) :
    Except String (Entries RootConfig) :=
  config.foldlM (fun roots configRoot => do
    let root ← configRoot.toRootConfig base (roots.get configRoot.id)
    .ok (roots.insert root.id root)) roots

def CloneHome.openDb (base : SourcePath) (home : CloneHome) : Except String CloneHome := do
  let roots ← syncConfigRoots base home.config home.roots
  .ok { home with roots }

def quarantineRoot (root : ConfigRoot) : ConfigRoot :=
  { root with preSnapshot := none, postSnapshot := none, applicationPlugin := none }

/-- The configuration without its commands, and how many there were. -/
def quarantineRemoteHooks (config : List ConfigRoot) : List ConfigRoot × Nat :=
  (config.map quarantineRoot,
    (config.map fun root =>
      root.preSnapshot.toList.length + root.postSnapshot.toList.length
        + root.applicationPlugin.toList.length).sum)

/-- The part of a metadata export that speaks of roots. -/
structure RootsExport where
  config : List ConfigRoot
  roots : List RootConfig

/-- `insert or replace into roots`. -/
def importRoots (listed : List RootConfig) (roots : Entries RootConfig) : Entries RootConfig :=
  listed.foldl (fun roots root => roots.insert root.id root) roots

/-- `clone_cmd` on the roots. The checks of the clone that read no root are left out. -/
def cloneCmd (base : SourcePath) (trustRemoteHooks : Bool) (remote : RootsExport) :
    Except String CloneHome := do
  let config :=
    if trustRemoteHooks then remote.config else (quarantineRemoteHooks remote.config).1
  let home ← CloneHome.openDb base { config, roots := [] }
  .ok { home with roots := importRoots remote.roots home.roots }

/-- What a root has run. -/
structure RootCommands where
  preSnapshot : Option String
  postSnapshot : Option String
  applicationPlugin : Option String
  deriving DecidableEq

namespace RootCommands

def none : RootCommands := ⟨.none, .none, .none⟩

def NoHook (commands : RootCommands) : Prop :=
  commands.preSnapshot = .none ∧ commands.postSnapshot = .none

def NoPlugin (commands : RootCommands) : Prop := commands.applicationPlugin = .none

end RootCommands

def RootConfig.commands (root : RootConfig) : RootCommands :=
  ⟨root.preSnapshot, root.postSnapshot, root.applicationPlugin⟩

def ConfigRoot.commands (root : ConfigRoot) : RootCommands :=
  ⟨root.preSnapshot, root.postSnapshot, root.applicationPlugin⟩

def runPreSnapshotHook (root : RootConfig) : List String :=
  if root.snapshotMode = "transactional" then
    root.applicationPlugin.toList ++ root.preSnapshot.toList
  else []

def runPostSnapshotHook (root : RootConfig) : List String :=
  if root.snapshotMode = "transactional" then
    root.postSnapshot.toList ++ root.applicationPlugin.toList
  else []

/-- The commands that a snapshot runs, where `scans` says which roots it comes to. -/
def CloneHome.snapshotCommands (base : SourcePath) (scans : RootConfig → Bool)
    (home : CloneHome) : Except String (List String) := do
  let opened ← home.openDb base
  .ok ((opened.roots.values.filter scans).flatMap fun root =>
    runPreSnapshotHook root ++ runPostSnapshotHook root)

/-- The database was opened so many times more. -/
def CloneHome.reopen (base : SourcePath) (home : CloneHome) : Nat → Except String CloneHome
  | 0 => .ok home
  | times + 1 => do
    let opened ← home.openDb base
    opened.reopen base times

/-- The commands of every root in the configuration and in the database are such. -/
structure CloneHome.All (P : RootCommands → Prop) (home : CloneHome) : Prop where
  config : ∀ root ∈ home.config, P root.commands
  roots : ∀ root ∈ home.roots.values, P root.commands

/-- The last root of its id in a list. -/
def LastOfId (roots : List RootConfig) (root : RootConfig) : Prop :=
  roots.reverse.find? (fun other => other.id = root.id) = some root

theorem mem_importRoots {listed : List RootConfig} {roots : Entries RootConfig}
    {entry : String × RootConfig} :
    entry ∈ importRoots listed roots ↔ (entry ∈ roots ∧ ∀ root ∈ listed, root.id ≠ entry.1) ∨
      (entry.1 = entry.2.id ∧ LastOfId listed entry.2) := by
  induction listed using List.reverseRecOn with
  | nil => simp [importRoots, LastOfId]
  | append_singleton before new ih =>
    have last : importRoots (before ++ [new]) roots =
        (importRoots before roots).insert new.id new := by
      rw [importRoots, List.foldl_append]
      rfl
    rw [last, Entries.mem_insert, ih]
    obtain ⟨id, row⟩ := entry
    simp only [LastOfId, List.reverse_append, List.reverse_cons, List.reverse_nil, List.nil_append,
      List.singleton_append, List.find?_cons, Prod.mk.injEq]
    grind

section Opening

variable {base : SourcePath} {config : List ConfigRoot} {roots synced : Entries RootConfig}

theorem ConfigRoot.toRootConfig_ok {root : ConfigRoot} {existing : Option RootConfig}
    {row : RootConfig} (h : root.toRootConfig base existing = .ok row) :
    row.id = root.id ∧ row.commands = root.commands ∧
      ∀ other, ∃ row', root.toRootConfig base other = .ok row' := by
  unfold ConfigRoot.toRootConfig at h ⊢
  obtain ⟨_, mode, h⟩ := of_bind h
  obtain ⟨_, chunking, h⟩ := of_bind h
  obtain ⟨_, volatile, h⟩ := of_bind h
  obtain ⟨_, source, h⟩ := of_bind h
  cases h
  refine ⟨rfl, rfl, fun other => ?_⟩
  rw [mode, chunking, volatile, source]
  exact ⟨_, rfl⟩

/-- Opening keeps exactly the rows that the configuration does not list. -/
theorem mem_syncConfigRoots (h : syncConfigRoots base config roots = .ok synced) :
    (∀ entry ∈ synced, (entry ∈ roots ∧ ∀ root ∈ config, root.id ≠ entry.1) ∨
      ∃ root ∈ config, entry.2.commands = root.commands) ∧
    ∀ entry ∈ roots, (∀ root ∈ config, root.id ≠ entry.1) → entry ∈ synced := by
  refine foldlM_invariant (I := fun done rows =>
    (∀ entry ∈ rows, (entry ∈ roots ∧ ∀ root ∈ done, root.id ≠ entry.1) ∨
      ∃ root ∈ done, entry.2.commands = root.commands) ∧
    ∀ entry ∈ roots, (∀ root ∈ done, root.id ≠ entry.1) → entry ∈ rows) ?_ ?_ h
  · exact ⟨fun entry inside => Or.inl ⟨inside, by simp⟩, fun entry inside _ => inside⟩
  · rintro done new rows rows' ⟨listed, kept⟩ step
    obtain ⟨row, converted, result⟩ := of_bind step
    obtain ⟨id, commands, -⟩ := ConfigRoot.toRootConfig_ok converted
    cases result
    simp only [List.forall_mem_append, List.forall_mem_singleton]
    refine ⟨fun entry inside => ?_, fun entry inside others => ?_⟩
    · rcases Entries.mem_insert.mp inside with ⟨old, ne⟩ | rfl
      · rcases listed entry old with ⟨older, others⟩ | ⟨root, earlier, same⟩
        · exact Or.inl ⟨older, others, id ▸ ne.symm⟩
        · exact Or.inr ⟨root, List.mem_append_left _ earlier, same⟩
      · exact Or.inr ⟨new, by simp, commands⟩
    · exact Entries.mem_insert.mpr
        (Or.inl ⟨kept entry inside others.1, id ▸ others.2.symm⟩)

/-- Whether the configuration is accepted does not depend on the rows. -/
theorem exists_syncConfigRoots (h : syncConfigRoots base config roots = .ok synced)
    (others : Entries RootConfig) :
    ∃ synced', syncConfigRoots base config others = .ok synced' := by
  induction config generalizing roots others with
  | nil => exact ⟨others, rfl⟩
  | cons root config ih =>
    rw [syncConfigRoots, List.foldlM_cons] at h
    obtain ⟨rows, step, rest⟩ := of_bind h
    obtain ⟨row, converted, -⟩ := of_bind step
    obtain ⟨row', converted'⟩ :=
      (ConfigRoot.toRootConfig_ok converted).2.2 (Entries.get others root.id)
    obtain ⟨synced', rest'⟩ := ih rest (Entries.insert others row'.id row')
    exact ⟨synced', bind_ok ⟨_, bind_ok ⟨row', converted', rfl⟩, rest'⟩⟩

end Opening

theorem runHooks_eq_nil {root : RootConfig}
    (transactional : root.snapshotMode = "transactional") :
    runPreSnapshotHook root ++ runPostSnapshotHook root = [] ↔
      root.commands.NoHook ∧ root.commands.NoPlugin := by
  simp only [runPreSnapshotHook, runPostSnapshotHook, if_pos transactional, RootConfig.commands,
    RootCommands.NoHook, RootCommands.NoPlugin, List.append_eq_nil_iff, Option.toList_eq_nil_iff]
  tauto

/-- What the home of a clone is made of: the configuration without commands, and rows without
commands or from the exported table. -/
structure CloneHome.Cloned (remote : RootsExport) (home : CloneHome) : Prop where
  config : home.config = (quarantineRemoteHooks remote.config).1
  roots : ∀ entry ∈ home.roots, entry.2.commands = .none ∨
    (entry.1 = entry.2.id ∧ LastOfId remote.roots entry.2)

section Clones

variable {base : SourcePath} {remote : RootsExport} {home opened : CloneHome}

theorem quarantineRemoteHooks_commands {config : List ConfigRoot} {root : ConfigRoot}
    (inside : root ∈ (quarantineRemoteHooks config).1) : root.commands = .none := by
  obtain ⟨old, -, rfl⟩ := List.mem_map.mp inside
  rfl

theorem CloneHome.Cloned.mem_openDb (cloned : home.Cloned remote)
    (h : home.openDb base = .ok opened) {entry : String × RootConfig}
    (inside : entry ∈ opened.roots) :
    entry.2.commands = .none ∨ (entry.1 = entry.2.id ∧ LastOfId remote.roots entry.2 ∧
      ∀ root ∈ remote.config, root.id ≠ entry.1) := by
  obtain ⟨roots, synced, result⟩ := of_bind h
  cases result
  rcases (mem_syncConfigRoots synced).1 entry inside with ⟨old, unlisted⟩ | ⟨root, listed, same⟩
  · refine (cloned.roots entry old).imp_right fun exported => ⟨exported.1, exported.2, ?_⟩
    rw [cloned.config] at unlisted
    exact fun root listed => unlisted (quarantineRoot root) (List.mem_map_of_mem listed)
  · rw [cloned.config] at listed
    exact Or.inl (same.trans (quarantineRemoteHooks_commands listed))

theorem CloneHome.Cloned.reopen (cloned : home.Cloned remote) {times : Nat} {later : CloneHome}
    (h : home.reopen base times = .ok later) : later.Cloned remote := by
  induction times generalizing home with
  | zero =>
    cases h
    exact cloned
  | succ times ih =>
    obtain ⟨opened, first, rest⟩ := of_bind h
    refine ih ⟨?_, ?_⟩ rest
    · obtain ⟨roots, -, result⟩ := of_bind first
      cases result
      exact cloned.config
    · intro entry inside
      exact (cloned.mem_openDb first inside).imp_right fun exported => ⟨exported.1, exported.2.1⟩

theorem CloneHome.Cloned.all (cloned : home.Cloned remote) {P : RootCommands → Prop}
    (empty : P .none) (quiet : ∀ root, LastOfId remote.roots root → P root.commands) :
    home.All P := by
  constructor
  · intro root inside
    rw [cloned.config] at inside
    rwa [quarantineRemoteHooks_commands inside]
  · intro root inside
    obtain ⟨entry, member, rfl⟩ := List.mem_map.mp inside
    rcases cloned.roots entry member with none | ⟨-, last⟩
    · rwa [none]
    · exact quiet entry.2 last

/-- What a clone leaves: the rows of the exported table, and a configuration that can be opened
again. -/
theorem cloneCmd_cloned (h : cloneCmd base false remote = .ok home) : home.Cloned remote ∧
    (∀ root, LastOfId remote.roots root → (root.id, root) ∈ home.roots) ∧
      ∃ opened, home.openDb base = .ok opened := by
  obtain ⟨opened, first, result⟩ := of_bind h
  obtain ⟨roots, synced, opening⟩ := of_bind first
  cases opening
  cases result
  refine ⟨⟨rfl, fun entry inside => ?_⟩, fun root last => ?_, ?_⟩
  · refine (mem_importRoots.mp inside).imp_left fun old => ?_
    rcases (mem_syncConfigRoots synced).1 entry old.1 with ⟨none, -⟩ | ⟨root, listed, same⟩
    · cases none
    · exact same.trans (quarantineRemoteHooks_commands listed)
  · exact mem_importRoots.mpr (Or.inr ⟨rfl, last⟩)
  · obtain ⟨synced', again⟩ := exists_syncConfigRoots synced (importRoots remote.roots roots)
    exact ⟨_, bind_ok ⟨synced', again, rfl⟩⟩

theorem cloneCmd_all_iff (h : cloneCmd base false remote = .ok home) {P : RootCommands → Prop}
    (empty : P .none) :
    (∀ times later, home.reopen base times = .ok later → later.All P) ↔
      ∀ root, LastOfId remote.roots root → P root.commands := by
  obtain ⟨cloned, listed, -⟩ := cloneCmd_cloned h
  constructor
  · intro safe root last
    exact (safe 0 home rfl).roots root (List.mem_map_of_mem (listed root last))
  · intro quiet times later opened
    exact (cloned.reopen opened).all empty quiet

end Clones

/-- After a clone that does not trust the hooks of its remote, and after every later opening of
its database, no root has a hook exactly if no root of the exported table has one, and the same
for plugins. Snapshots run nothing exactly if the transactional roots of the exported table that
the exported configuration does not list have no command. -/
theorem cloneCmd_quarantines_iff {base : SourcePath} {remote : RootsExport} {home : CloneHome}
    (cloned : cloneCmd base false remote = .ok home) :
    ((∀ times later, home.reopen base times = .ok later → later.All RootCommands.NoHook) ↔
      ∀ root, LastOfId remote.roots root → root.commands.NoHook) ∧
    ((∀ times later, home.reopen base times = .ok later → later.All RootCommands.NoPlugin) ↔
      ∀ root, LastOfId remote.roots root → root.commands.NoPlugin) ∧
    ((∀ times later, home.reopen base times = .ok later →
        ∀ scans commands, later.snapshotCommands base scans = .ok commands → commands = []) ↔
      ∀ root, LastOfId remote.roots root → (∀ listed ∈ remote.config, listed.id ≠ root.id) →
        root.snapshotMode = "transactional" →
        root.commands.NoHook ∧ root.commands.NoPlugin) := by
  refine ⟨cloneCmd_all_iff cloned ⟨rfl, rfl⟩, cloneCmd_all_iff cloned rfl, ?_, ?_⟩
  · intro silent root last unlisted transactional
    obtain ⟨made, listed, opened, first⟩ := cloneCmd_cloned cloned
    have commands := silent 0 home rfl (fun _ => true) _ (bind_ok ⟨opened, first, rfl⟩)
    obtain ⟨roots, synced, result⟩ := of_bind first
    cases result
    have kept : (root.id, root) ∈ roots := by
      refine (mem_syncConfigRoots synced).2 _ (listed root last) fun other inside => ?_
      rw [made.config] at inside
      obtain ⟨listed, member, rfl⟩ := List.mem_map.mp inside
      exact unlisted listed member
    refine (runHooks_eq_nil transactional).mp (List.flatMap_eq_nil_iff.mp commands root ?_)
    exact List.mem_filter.mpr ⟨List.mem_map_of_mem kept, rfl⟩
  · intro quiet times later reopened scans commands h
    obtain ⟨opened, first, result⟩ := of_bind h
    cases result
    refine List.flatMap_eq_nil_iff.mpr fun root inside => ?_
    obtain ⟨entry, member, rfl⟩ := List.mem_map.mp (List.mem_of_mem_filter inside)
    by_cases transactional : entry.2.snapshotMode = "transactional"
    · rw [runHooks_eq_nil transactional]
      rcases ((cloneCmd_cloned cloned).1.reopen reopened).mem_openDb first member with
        none | ⟨key, last, unlisted⟩
      · rw [none]
        exact ⟨⟨rfl, rfl⟩, rfl⟩
      · rw [key] at unlisted
        exact quiet entry.2 last unlisted transactional
    · simp [runPreSnapshotHook, runPostSnapshotHook, transactional]

namespace HookedRemote

def home : SourcePath := ⟨true, ["home", "majutsu"]⟩

def row : RootConfig :=
  ⟨"notes", "notes", ⟨true, ["srv", "notes"]⟩, "active", "transactional", some "fetch-and-run",
    none, none, none, none, none⟩

def configured : ConfigRoot :=
  ⟨"notes", some "notes", ⟨true, ["srv", "notes"]⟩, some "active", "transactional",
    some "fetch-and-run", none, none, none, none, none⟩

def harmless : RootConfig := { row with preSnapshot := none }

end HookedRemote

open HookedRemote in
theorem cloneCmd_quarantines_configured :
    ∃ cloned, cloneCmd home false ⟨[configured], [harmless]⟩ = .ok cloned ∧
      ∀ times later, cloned.reopen home times = .ok later →
        later.All RootCommands.NoHook ∧
          ∀ scans commands, later.snapshotCommands home scans = .ok commands → commands = [] := by
  obtain ⟨cloned, result, -⟩ : ∃ cloned,
      cloneCmd home false ⟨[configured], [harmless]⟩ = .ok cloned ∧ cloned.roots ≠ [] :=
    exists_ok_of_decide (by decide +kernel)
  obtain ⟨hooks, -, commands⟩ := cloneCmd_quarantines_iff result
  have none : ∀ root, LastOfId [harmless] root → root.commands = .none := by
    intro root last
    obtain rfl := List.mem_singleton.mp (List.mem_of_find?_eq_some last)
    rfl
  refine ⟨cloned, result, fun times later opened => ⟨?_, ?_⟩⟩
  · refine hooks.mpr (fun root last => ?_) times later opened
    rw [none root last]
    exact ⟨rfl, rfl⟩
  · refine commands.mpr (fun root last _ _ => ?_) times later opened
    rw [none root last]
    exact ⟨⟨rfl, rfl⟩, rfl⟩

open HookedRemote in
/-- The configuration lists no root, so nothing is quarantined and nothing replaces the row. -/
theorem snapshot_runs_remote_hook :
    ∃ cloned, cloneCmd home false ⟨[], [row]⟩ = .ok cloned ∧
      ∃ later, cloned.reopen home 1 = .ok later ∧ ¬ later.All RootCommands.NoHook ∧
        later.snapshotCommands home (fun _ => true) = .ok ["fetch-and-run"] := by
  refine ⟨⟨[], [("notes", row)]⟩, rfl, ⟨[], [("notes", row)]⟩, rfl, ?_, rfl⟩
  intro safe
  have none := (safe.roots row (by simp [Entries.values])).1
  cases none

end Majutsu.Repo
