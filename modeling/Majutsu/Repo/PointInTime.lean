import Mathlib.Data.Fintype.EquivFin
import Majutsu.Repo.RestorePlan

/-!
# Restores of a point in time

A restore for a time takes the latest snapshot at that time and the events between the
snapshot and the time. The time up to which the journal is read is that of `--at`, and
the present for every other selector.
-/

namespace Majutsu.Repo

open Loops FileTree SortedMap

/-- The time that a selector names. -/
def RestoreSource.selectorTime (source : RestoreSource) (now : Int) (args : RestoreArgs) :
    Except String Int :=
  match args.op, args.atTime, args.ago with
  | some opId, _, _ => do
    let op ← source.queryOperationResolved opId
    .ok op.createdAt
  | none, some text, _ => text.parse now
  | none, none, some text => text.parseAgo now
  | none, none, none => .error "the selector names no time"

/-- The same restore with its time spelled out. -/
def RestoreArgs.spelled (args : RestoreArgs) (time : Int) : RestoreArgs :=
  { args with ago := none, atTime := some (.absolute time) }

def eventsUpTo (time : Int) (journal : List JournalEvent) : List JournalEvent :=
  journal.filter (fun event => event.observedAt ≤ time)

theorem exists_other_mode (files : List FileRecord) : ∃ mode, ∀ record ∈ files, record.mode ≠ mode := by
  obtain ⟨mode, fresh⟩ := Infinite.exists_notMem_finset (files.map FileRecord.mode).toFinset
  refine ⟨mode, ?_⟩
  intro record inside same
  exact fresh (by simpa using ⟨record, inside, same⟩)

section Reading

variable {clock : PlanClock} {source : RestoreSource} {args : RestoreArgs} {plan : RestorePlan}
  {snapshot : SnapshotHeader} {time last : Int}

theorem Path.startsWith_self (path : Path) : path.startsWith path := by
  simp [Path.startsWith]

theorem takesRoot_getD (filter : Option String) : takesRoot filter (filter.getD "") := by
  cases filter with
  | none => rfl
  | some wanted => simp [takesRoot]

theorem takesPath_getD (filter : Option String) : takesPath filter (filter.getD "") := by
  cases filter with
  | none => rfl
  | some wanted => exact Path.startsWith_self _

/-- A durable event that a restore takes, with a mode of its own. -/
def lateEvent (args : RestoreArgs) (observedAt : Int) (mode : Nat) : JournalEvent :=
  { JournalEvent.newFileEvent "event" observedAt (args.root.getD "") (args.path.getD "") with
    remoteJournalSyncedAt := some observedAt, durableEntryKind := some "symlink",
    durableSymlinkTarget := some "", durableMode := some mode }

theorem target_lateEvent (after : snapshot.timestamp < last) (mode : Nat) :
    (journalWindow args snapshot last).target (lateEvent args last mode) =
      some (args.root.getD "", args.path.getD "") := by
  simp [JournalWindow.target, journalWindow, lateEvent, JournalEvent.newFileEvent,
    JournalEvent.new, takesRoot_getD, takesPath_getD, after]

theorem mem_overlay_lateEvent (args : RestoreArgs) {journal : List JournalEvent}
    (early : ∀ event ∈ journal, event.observedAt < last) (after : snapshot.timestamp < last)
    (mode : Nat) (files : List FileRecord) :
    ∃ record ∈ (journalWindow args snapshot last).overlay (lateEvent args last mode :: journal) files,
      record.mode = mode := by
  rw [JournalWindow.overlay, eventJournalRecords_cons early, List.foldl_append, List.foldl_cons,
    List.foldl_nil, JournalWindow.overlayEvent, target_lateEvent after]
  refine ⟨_, List.mem_map.mpr ⟨_, mem_insert_self _ _ _, rfl⟩, ?_⟩
  rfl

theorem loadSnapshotHeader_journal (journal : List JournalEvent) (now : Int) :
    ({ source with journal } : RestoreSource).loadSnapshotHeader now args =
      source.loadSnapshotHeader now args := rfl

theorem loadSnapshotHeader_spelled {now duration : Int}
    (chosen : source.loadSnapshotHeader now args = .ok snapshot)
    (ago : args.ago = some (.parsed duration)) :
    args.snapshot = none ∧ args.op = none ∧ args.atTime = none ∧
      source.loadSnapshotHeader now (args.spelled (now - duration)) = .ok snapshot := by
  unfold RestoreSource.loadSnapshotHeader at chosen
  split at chosen
  · cases chosen
  · rename_i single
    have rest : args.snapshot.toList.length = 0 ∧ args.op.toList.length = 0 ∧
        args.atTime.toList.length = 0 := by
      simp only [RestoreArgs.selectorCount, ago, Option.toList_some, List.length_singleton] at single
      omega
    obtain ⟨noSnapshot, noOp, noTime⟩ := rest
    rw [List.length_eq_zero_iff, Option.toList_eq_nil_iff] at noSnapshot noOp noTime
    refine ⟨noSnapshot, noOp, noTime, ?_⟩
    rw [RestoreSource.selectedSnapshotId, noSnapshot, noOp, noTime, ago] at chosen
    have few : ¬ (args.spelled (now - duration)).selectorCount > 1 := by
      simp [RestoreArgs.selectorCount, RestoreArgs.spelled, noSnapshot, noOp]
    rw [RestoreSource.loadSnapshotHeader, if_neg few, RestoreSource.selectedSnapshotId]
    simp only [RestoreArgs.spelled, noSnapshot, noOp]
    exact chosen

theorem observedAt_le_of_target (args : RestoreArgs)
    (past : last ≤ time ∨ last ≤ snapshot.timestamp)
    (event : JournalEvent) (key : String × String)
    (taken : (journalWindow args snapshot last).target event = some key) :
    event.observedAt ≤ time := by
  obtain ⟨after, before⟩ := JournalWindow.target_times taken
  simp only [journalWindow] at after before
  omega

theorem overlayDurable_of_some {now : Int} {journal : List JournalEvent}
    {base : List FileRecord} (noSnapshot : args.snapshot = none)
    (read : overlayUpTo now args = .ok last) :
    overlayDurableJournalRecords now journal args snapshot base =
      .ok ((journalWindow args snapshot last).overlay journal base) := by
  rw [overlayDurableJournalRecords, noSnapshot, read]
  rfl

end Reading

/-- A plan for a time is the same for all journals with the same events up to that time, and
`--ago` gives the plan of `--at`, exactly if the journal is read no further than that time or
than the snapshot. -/
theorem buildRestorePlan_reads_past_iff {clock : PlanClock} {source : RestoreSource}
    {args : RestoreArgs} {plan : RestorePlan} {snapshot : SnapshotHeader} {time last : Int}
    (noSnapshot : args.snapshot = none)
    (named : source.selectorTime clock.selecting args = .ok time)
    (chosen : source.loadSnapshotHeader clock.selecting args = .ok snapshot)
    (read : overlayUpTo clock.overlaying args = .ok last)
    (built : buildRestorePlan clock source args = .ok plan) :
    ((∀ journal, eventsUpTo time journal = eventsUpTo time source.journal →
        buildRestorePlan clock { source with journal } args = .ok plan) ∧
      ∀ duration, args.ago = some (.parsed duration) → 0 ≤ duration →
        buildRestorePlan clock source (args.spelled time) = .ok plan) ↔
      (last ≤ time ∨ last ≤ snapshot.timestamp) := by
  obtain ⟨valid, snapshot', base, files, header, collected, overlaid, rest⟩ :=
    buildRestorePlan_ok.mp built
  cases chosen.symm.trans header
  rw [overlayDurable_of_some noSnapshot read] at overlaid
  cases overlaid
  constructor
  · rintro ⟨same, -⟩
    by_contra later
    have after : time < last ∧ snapshot.timestamp < last := by omega
    obtain ⟨mode, fresh⟩ := exists_other_mode plan.files
    have early : ∀ event ∈ eventsUpTo time source.journal, event.observedAt < last := by
      intro event inside
      have before : event.observedAt ≤ time := by simpa using (List.mem_filter.mp inside).2
      omega
    have alike : eventsUpTo time (lateEvent args last mode :: eventsUpTo time source.journal) =
        eventsUpTo time source.journal := by
      have gone : ¬ (lateEvent args last mode).observedAt ≤ time := not_le.mpr after.1
      rw [eventsUpTo, List.filter_cons_of_neg (by simpa using gone), eventsUpTo, List.filter_filter]
      simp
    obtain ⟨-, snapshot', base', files', header', collected', overlaid', rest'⟩ :=
      buildRestorePlan_ok.mp (same _ alike)
    rw [loadSnapshotHeader_journal] at header'
    cases chosen.symm.trans header'
    rw [overlayDurable_of_some noSnapshot read] at overlaid'
    cases overlaid'
    obtain ⟨record, inside, mine⟩ :=
      mem_overlay_lateEvent args early after.2 mode base'
    rw [← (planOf_ok rest').2.1] at inside
    exact fresh record inside mine
  · intro past
    have before := observedAt_le_of_target args past
    constructor
    · intro journal same
      refine buildRestorePlan_ok.mpr ⟨valid, snapshot, base, _, header, collected,
        overlayDurable_of_some noSnapshot read, ?_⟩
      rw [JournalWindow.overlay_congr before same]
      exact rest
    · intro duration ago nonneg
      obtain ⟨-, noOp, noTime, spelled⟩ := loadSnapshotHeader_spelled chosen ago
      rw [RestoreSource.selectorTime, noOp, noTime, ago] at named
      rw [overlayUpTo, noTime] at read
      cases named
      cases read
      have inOrder := clock.forward
      have sameTarget : ∀ event,
          (journalWindow (args.spelled (clock.selecting - duration)) snapshot
            (clock.selecting - duration)).target event =
            (journalWindow args snapshot clock.overlaying).target event := by
        intro event
        have sameTimes : (event.observedAt ≤ snapshot.timestamp ∨
            clock.selecting - duration < event.observedAt) ↔
            (event.observedAt ≤ snapshot.timestamp ∨ clock.overlaying < event.observedAt) := by
          omega
        simp only [JournalWindow.target, journalWindow, RestoreArgs.spelled, sameTimes]
        rfl
      refine buildRestorePlan_ok.mpr ⟨valid, snapshot, base, _, spelled, collected,
        overlayDurable_of_some noSnapshot rfl, ?_⟩
      rw [JournalWindow.overlay_of_target sameTarget]
      exact rest

namespace TimedRestore

def record (target : String) : FileRecord := .plain "notes" "a" "symlink" 0 (.symlink target)

def manifest : SnapshotManifest := ⟨"snap-1", none, "op-1", [], [("notes", [record "old"])]⟩

def row : DatedSnapshotRow := ⟨⟨"snap-1", "", .parsed manifest⟩, 10, 10⟩

/-- The link was changed at a time, and the remote knows. -/
def changed (observedAt : Int) (target : String) : JournalEvent :=
  { JournalEvent.newFileEvent "event" observedAt "notes" "a" with
    remoteJournalSyncedAt := some observedAt, durableEntryKind := some "symlink",
    durableSymlinkTarget := some target }

def source : RestoreSource where
  view := fun _ => none
  depth := 0
  snapshots := [row]
  operations := []
  current := some "snap-1"
  rootPaths := []
  journal := [changed 20 "new", changed 28 "newest"]
  live := .bare
  cwd := []

def args : RestoreArgs := ⟨none, none, none, none, none, none, some "/out", false, true⟩

def clock : PlanClock := .still 30

end TimedRestore

open TimedRestore in
theorem buildRestorePlan_reads_past_at : ∃ plan,
    buildRestorePlan clock source { args with atTime := some (.absolute 25) } = .ok plan ∧
      ∀ journal, eventsUpTo 25 journal = eventsUpTo 25 source.journal →
        buildRestorePlan clock { source with journal }
          { args with atTime := some (.absolute 25) } = .ok plan := by
  obtain ⟨plan, built, -⟩ : ∃ plan,
      buildRestorePlan clock source { args with atTime := some (.absolute 25) } = .ok plan ∧
        plan.files.map FileRecord.payload = [.symlink "new"] :=
    exists_ok_of_decide (by decide +kernel)
  have named : source.selectorTime clock.selecting { args with atTime := some (.absolute 25) } =
      .ok 25 := rfl
  have chosen : source.loadSnapshotHeader clock.selecting
      { args with atTime := some (.absolute 25) } = .ok { manifest with timestamp := 10 } := rfl
  have read : overlayUpTo clock.overlaying { args with atTime := some (.absolute 25) } = .ok 25 :=
    rfl
  have past := (buildRestorePlan_reads_past_iff rfl named chosen read built).mpr
    (Or.inl (Int.le_refl 25))
  exact ⟨plan, built, past.1⟩

open TimedRestore in
/-- Five before thirty is twenty-five, and the event of twenty-eight is in the plan. -/
theorem buildRestorePlan_ago_reads_later_event :
    source.selectorTime clock.selecting { args with ago := some (.parsed 5) } = .ok 25 ∧
      ((buildRestorePlan clock source { args with ago := some (.parsed 5) }).toOption.map
        fun plan => plan.files.map FileRecord.payload) = some [.symlink "newest"] ∧
      ((buildRestorePlan clock source { args with atTime := some (.absolute 25) }).toOption.map
        fun plan => plan.files.map FileRecord.payload) = some [.symlink "new"] := by
  refine ⟨rfl, ?_, ?_⟩
  · decide +kernel
  · decide +kernel

end Majutsu.Repo
