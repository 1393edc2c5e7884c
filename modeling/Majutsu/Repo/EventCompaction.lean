import Majutsu.Repo.Journal

/-!
# Compaction of the event journal

A finished snapshot makes events before it superfluous. The compaction looks at the times
of the events that say that a snapshot finished: other events go if they are older than
the finish before the last one, and a file event goes if it is older than the last finish
and the remote has it. In the strict mode the snapshot must also say what the event says.
-/

namespace Majutsu.Repo

open SortedMap

def journalPayloadOid : Payload → Option Oid
  | .inlineSmall oid _ | .normalBlob oid _ | .blob oid _ => some oid
  | .chunkedBlob oid _ _ | .largeObject oid _ _ _ | .large oid _ _ => some oid
  | .directory | .symlink _ | .special _ => none

/-- Whether the durable fields of an event say what a payload says. -/
def JournalEvent.agrees (event : JournalEvent) : Payload → Bool
  | .symlink target => event.durableEntryKind = some "symlink" &&
      event.durableSymlinkTarget = some target
  | .special kind => event.durableEntryKind = some "special" &&
      event.durableSpecialKind = some kind
  | payload =>
    match journalPayloadOid payload with
    | some oid => event.durablePayloadOid = some oid
    | none => false

def durablePayloadMatches (event : JournalEvent) (live : FileRecord) : Bool :=
  event.agrees live.payload

def durableEventMatchesSnapshotRecord (event : JournalEvent) (record : FileRecord) : Bool :=
  event.agrees record.payload

abbrev FileMap := List (String × FileRecord)

/-- The records of a root that are no directories, by path. -/
def nonDirectories (records : List FileRecord) : FileMap :=
  (records.filter (fun record => record.kind ≠ "directory")).foldl
    (fun files record => insert record.path record files) []

/-- The current snapshot as the journal sees it. -/
structure CurrentSnapshot where
  timestamp : Int
  /-- `snapshot_root_file_map`. -/
  rootFileMap : String → FileMap

def durableEventCoveredBySnapshot (event : JournalEvent) (snapshot : CurrentSnapshot) : Bool :=
  match event.rootId, event.path with
  | some rootId, some path =>
    match get (snapshot.rootFileMap rootId) path with
    | none => event.durableTombstone = some true
    | some record => event.durableTombstone ≠ some true &&
        durableEventMatchesSnapshotRecord event record
  | _, _ => event.observedAt ≤ snapshot.timestamp

/-- The times at which snapshots finished. -/
def snapshotFinishes (records : List JournalEvent) : List Int :=
  (records.filter JournalEvent.isSnapshotFinish).map JournalEvent.observedAt

def lastSnapshotFinish (records : List JournalEvent) : Option Int := (snapshotFinishes records).max?

/-- The finish before the last one. -/
def previousSnapshotFinish (finishes : List Int) : Option Int :=
  (finishes.insertionSort (· ≤ ·)).dedup.reverse[1]?

/-- `event_removable_after_snapshot`. The flag is set unless the strict mode is on. -/
def eventRemovableAfterSnapshot (trustsFinish : Bool) (event : JournalEvent)
    (compactBefore lastFinish : Option Int) (current : Option CurrentSnapshot) : Bool :=
  if event.isSnapshotFinish || !event.isPendingTrigger then
    match compactBefore with
    | some cutoff => event.observedAt < cutoff
    | none => false
  else
    match lastFinish with
    | none => false
    | some finishedAt =>
      if finishedAt ≤ event.observedAt then false
      else if event.remoteJournalSyncedAt.isNone then false
      else if trustsFinish then true
      else
        match current with
        | none => false
        | some snapshot => durableEventCoveredBySnapshot event snapshot

def compactEventJournalForce (trustsFinish : Bool) (current : Option CurrentSnapshot)
    (journal : List JournalEvent) : List JournalEvent :=
  match lastSnapshotFinish journal with
  | none => journal
  | some finishedAt => journal.filter (fun event =>
      !eventRemovableAfterSnapshot trustsFinish event
        (previousSnapshotFinish (snapshotFinishes journal)) (some finishedAt) current)

section Compacting

variable {trustsFinish : Bool} {current : Option CurrentSnapshot} {journal : List JournalEvent}
  {event : JournalEvent}

theorem mem_of_mem_compact (h : event ∈ compactEventJournalForce trustsFinish current journal) :
    event ∈ journal := by
  unfold compactEventJournalForce at h
  split at h
  · exact h
  · exact List.mem_of_mem_filter h

theorem isSnapshotFinish_of_trigger (trigger : event.isPendingTrigger) :
    event.isSnapshotFinish = false := by
  simp only [JournalEvent.isPendingTrigger, List.mem_cons, List.not_mem_nil, or_false,
    decide_eq_true_eq] at trigger
  rcases trigger with same | same
  · simp [JournalEvent.isSnapshotFinish, same]
  · simp [JournalEvent.isSnapshotFinish, same]

theorem compact_filter {keep : JournalEvent → Bool}
    (trigger : ∀ event ∈ journal, keep event → event.isPendingTrigger)
    (after : ∀ event ∈ journal, keep event → ∀ finish ∈ journal, finish.isSnapshotFinish →
      finish.observedAt ≤ event.observedAt) :
    (compactEventJournalForce trustsFinish current journal).filter keep = journal.filter keep := by
  unfold compactEventJournalForce
  split
  · rfl
  · rename_i finishedAt last
    obtain ⟨finish, finished, time⟩ := List.mem_map.mp (List.max?_mem last)
    rw [List.filter_filter]
    apply List.filter_congr
    intro event inside
    cases kept : keep event with
    | false => rfl
    | true =>
      have started := trigger event inside kept
      have late := after event inside kept finish (List.mem_of_mem_filter finished)
        (List.of_mem_filter finished)
      simp [eventRemovableAfterSnapshot, isSnapshotFinish_of_trigger started, started, ← time, late]

end Compacting

end Majutsu.Repo
