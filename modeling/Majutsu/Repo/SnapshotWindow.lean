import Majutsu.Repo.LiveOverlay

/-!
# Changes during a snapshot

A snapshot reads the roots, takes its timestamp, stores the manifest and records that it
finished. A file that changes after it was read is in the snapshot as it was before. Three
readers of the journal decide what becomes of the event of such a change: the check for
pending events and the compaction compare its time with the finish, and the restore
compares it with the timestamp.
-/

namespace Majutsu.Repo

open Loops SortedMap

/-- The end of a snapshot. Without a manifest the snapshot was unchanged. -/
structure SnapshotEnd where
  taken : Option CurrentSnapshot
  noopId : String
  finishId : String
  finishedAt : Int

/-- What happens to the journal after a snapshot. -/
inductive JournalStep where
  | edit (edit : LiveEdit)
  /-- `record_file_event`. -/
  | observe (eventId rootId path : String) (observedAt : Int)
  | sync (inputs : SyncInputs)
  /-- `event compact`. -/
  | compact
  | snapshot (ending : SnapshotEnd)

namespace JournalHost

variable (store : LiveStore) (host : JournalHost)

def currentAfter (ending : SnapshotEnd) : Option CurrentSnapshot := ending.taken.or host.current

def recordEnd (ending : SnapshotEnd) : List JournalEvent :=
  let noop := if ending.taken.isNone then
    [JournalEvent.new ending.noopId "snapshot-noop" ending.finishedAt] else []
  JournalEvent.new ending.finishId "snapshot-finish" ending.finishedAt :: (noop ++ host.journal)

def finishSnapshot (ending : SnapshotEnd) : JournalHost :=
  { host with
    current := host.currentAfter ending
    journal := compactEventJournalForce host.trustsFinish (host.currentAfter ending)
      (host.recordEnd ending) }

def act : JournalStep → JournalHost
  | .edit edit => host.edit edit
  | .observe eventId rootId path observedAt =>
    { host with journal := JournalEvent.newFileEvent eventId observedAt rootId path :: host.journal }
  | .sync inputs => host.sync store inputs
  | .compact =>
    { host with journal := compactEventJournalForce host.trustsFinish host.current host.journal }
  | .snapshot ending => host.finishSnapshot ending

end JournalHost

/-- The last finish that a journal knows. -/
structure FinishedAt (journal : List JournalEvent) (time : Int) : Prop where
  finish : ∃ finish ∈ journal, finish.isSnapshotFinish ∧ finish.observedAt = time
  last : ∀ finish ∈ journal, finish.isSnapshotFinish → finish.observedAt ≤ time

section Finishes

variable {journal : List JournalEvent} {time : Int} {trustsFinish : Bool}
  {current : Option CurrentSnapshot} {event : JournalEvent}

theorem FinishedAt.lastSnapshotFinish_eq (finished : FinishedAt journal time) :
    lastSnapshotFinish journal = some time := by
  obtain ⟨⟨finish, inside, ends, rfl⟩, last⟩ := finished
  rw [lastSnapshotFinish, List.max?_eq_some_iff]
  refine ⟨List.mem_map_of_mem (List.mem_filter.mpr ⟨inside, ends⟩), ?_⟩
  intro other member
  obtain ⟨earlier, listed, rfl⟩ := List.mem_map.mp member
  exact last earlier (List.mem_of_mem_filter listed) (List.of_mem_filter listed)

theorem FinishedAt.hasPending_iff (finished : FinishedAt journal time) :
    hasPendingJournalEvents journal = true ↔
      ∃ event ∈ journal, event.isPendingTrigger ∧ time < event.observedAt := by
  have last : ((journal.filter JournalEvent.isSnapshotFinish).map JournalEvent.observedAt).max? =
      some time := finished.lastSnapshotFinish_eq
  simp [hasPendingJournalEvents, last, List.any_eq_true]

theorem previousSnapshotFinish_mem {finishes : List Int} {cutoff : Int}
    (h : previousSnapshotFinish finishes = some cutoff) : cutoff ∈ finishes := by
  have listed := List.mem_of_getElem? h
  rwa [List.mem_reverse, List.mem_dedup, List.mem_insertionSort] at listed

theorem mem_compact_iff (finished : FinishedAt journal time) :
    event ∈ compactEventJournalForce trustsFinish current journal ↔ event ∈ journal ∧
      eventRemovableAfterSnapshot trustsFinish event
        (previousSnapshotFinish (snapshotFinishes journal)) (some time) current = false := by
  rw [compactEventJournalForce, finished.lastSnapshotFinish_eq, List.mem_filter]
  simp

theorem FinishedAt.compact (finished : FinishedAt journal time) :
    FinishedAt (compactEventJournalForce trustsFinish current journal) time := by
  constructor
  · obtain ⟨finish, inside, ends, same⟩ := finished.finish
    refine ⟨finish, (mem_compact_iff finished).mpr ⟨inside, ?_⟩, ends, same⟩
    unfold eventRemovableAfterSnapshot
    rw [ends, Bool.true_or, if_pos rfl]
    cases before : previousSnapshotFinish (snapshotFinishes journal) with
    | none => rfl
    | some cutoff =>
      obtain ⟨earlier, listed, rfl⟩ := List.mem_map.mp (previousSnapshotFinish_mem before)
      have order := finished.last earlier (List.mem_of_mem_filter listed) (List.of_mem_filter listed)
      rw [decide_eq_false_iff_not, same]
      omega
  · intro finish inside ends
    exact finished.last finish (mem_of_mem_compact inside) ends

theorem removable_iff (trigger : event.isPendingTrigger) {compactBefore : Option Int} :
    eventRemovableAfterSnapshot trustsFinish event compactBefore (some time) current = true ↔
      event.observedAt < time ∧ event.remoteJournalSyncedAt.isSome ∧
        (trustsFinish = true ∨ ∃ snapshot, current = some snapshot ∧
          durableEventCoveredBySnapshot event snapshot = true) := by
  unfold eventRemovableAfterSnapshot
  rw [isSnapshotFinish_of_trigger trigger, trigger]
  simp only [Bool.not_true, Bool.or_self, Bool.false_eq_true, if_false]
  by_cases late : time ≤ event.observedAt
  · rw [if_pos late]
    simp only [Bool.false_eq_true, false_iff]
    omega
  · rw [if_neg late]
    cases synced : event.remoteJournalSyncedAt with
    | none => simp
    | some at_ =>
      cases trustsFinish with
      | true =>
        simp
        omega
      | false =>
        cases current with
        | none => simp
        | some snapshot =>
          simp
          omega

end Finishes

/-- An event that says nothing yet, or something that the snapshot does not say. -/
structure Waiting (snapshot : CurrentSnapshot) (event : JournalEvent) : Prop where
  waits : (event.remoteJournalSyncedAt = none ∧ event.Blank) ∨
    ((event.remoteJournalSyncedAt.isSome ∨ event.isEnriched) ∧
      durableEventCoveredBySnapshot event snapshot = false)

/-- What a path holds is not what the snapshot has. -/
def JournalHost.Differs (store : LiveStore) (host : JournalHost) (snapshot : CurrentSnapshot)
    (id path : String) : Prop :=
  (get host.roots id).bind (fun root => (get root.live path).bind (LiveFile.content store)) ≠
    (get (snapshot.rootFileMap id) path).bind (fun record => record.payload.content)

section Upload

variable {store : LiveStore} {host : JournalHost} {snapshot : CurrentSnapshot}
  {event : JournalEvent} {id path : String} {root : JournalRoot} {files : FileMap}
  (inputs : SyncInputs)

theorem not_covered_blank (blank : event.Blank) (own : event.rootId = some id)
    (at_ : event.path = some path) : durableEventCoveredBySnapshot event snapshot = false := by
  obtain ⟨tombstone, entryKind, oid, -, -⟩ := blank
  rw [durableEventCoveredBySnapshot, own, at_]
  cases found : get (snapshot.rootFileMap id) path with
  | none => simp [found, tombstone]
  | some record =>
    cases payload : record.payload with
    | _ => simp [found, durableEventMatchesSnapshotRecord, JournalEvent.agrees, payload, entryKind, oid,
        journalPayloadOid]

theorem content_of_agrees (blank : event.Blank) {file : LiveFile} {payload : Payload}
    (agrees : (root.enrichContent store files path (event.withMetadata file) file.entry).agrees payload =
      true) :
    file.content store = payload.content := by
  obtain ⟨-, entryKind, oid, -, -⟩ := blank
  unfold LiveFile.content
  cases entry : file.entry with
  | directory =>
    rw [entry] at agrees
    cases payload with
    | _ => simp [JournalRoot.enrichContent, JournalEvent.withMetadata, JournalEvent.agrees,
        journalPayloadOid, entryKind, oid] at agrees
  | symlink target =>
    rw [entry] at agrees
    cases payload with
    | symlink => simpa [JournalRoot.enrichContent, JournalEvent.agrees, Payload.content] using agrees
    | _ => simp [JournalRoot.enrichContent, JournalEvent.withMetadata, JournalEvent.agrees,
        journalPayloadOid, oid] at agrees
  | special kind =>
    rw [entry] at agrees
    cases payload with
    | special => simpa [JournalRoot.enrichContent, JournalEvent.agrees, Payload.content] using agrees
    | _ => simp [JournalRoot.enrichContent, JournalEvent.withMetadata, JournalEvent.agrees,
        journalPayloadOid, oid] at agrees
  | file bytes =>
    rw [entry, JournalRoot.enrichContent] at agrees
    split at agrees
    · cases payload with
      | _ => simp [JournalEvent.withMetadata, JournalEvent.agrees, journalPayloadOid, entryKind, oid]
          at agrees
    · split at agrees
      all_goals
        cases payload with
        | symlink | special | directory => simp [JournalEvent.agrees, journalPayloadOid] at agrees
        | _ => simpa [JournalEvent.agrees, Payload.content, journalPayloadOid] using agrees

theorem tombstone_enrichContent (entry : LiveEntry) :
    (root.enrichContent store files path event entry).durableTombstone =
      event.durableTombstone := by
  unfold JournalRoot.enrichContent
  split
  · rfl
  · rfl
  · rfl
  · split
    · rfl
    · split
      · rfl
      · rfl

theorem content_of_covered (blank : event.Blank) (own : event.rootId = some id)
    (at_ : event.path = some path)
    (covered : durableEventCoveredBySnapshot (root.enrich store files path event) snapshot = true) :
    (get root.live path).bind (LiveFile.content store) =
      (get (snapshot.rootFileMap id) path).bind (fun record => record.payload.content) := by
  rw [durableEventCoveredBySnapshot, sameEvent_enrich.rootId, sameEvent_enrich.path, own, at_]
    at covered
  unfold JournalRoot.enrich at covered
  cases live : get root.live path with
  | none =>
    cases found : get (snapshot.rootFileMap id) path with
    | none => rfl
    | some record => simp [live, found] at covered
  | some file =>
    cases found : get (snapshot.rootFileMap id) path with
    | none =>
      simp only [live, found, tombstone_enrichContent] at covered
      simp [JournalEvent.withMetadata, blank.tombstone] at covered
    | some record =>
      simp only [live, found, Bool.and_eq_true] at covered
      exact content_of_agrees blank covered.2

theorem remote_enrichRemote :
    (host.enrichRemoteEventJournalPayload store event).remoteJournalKey = event.remoteJournalKey ∧
      (host.enrichRemoteEventJournalPayload store event).remoteJournalSyncedAt =
        event.remoteJournalSyncedAt := by
  unfold JournalHost.enrichRemoteEventJournalPayload
  split
  · exact ⟨rfl, rfl⟩
  · split
    · split
      · exact ⟨rfl, rfl⟩
      · exact remote_enrich
    · exact ⟨rfl, rfl⟩

theorem enrichRemote_of_blank (blank : event.Blank) (own : event.rootId = some id)
    (at_ : event.path = some path) :
    host.enrichRemoteEventJournalPayload store event =
      ((get host.roots id).map (fun root =>
        root.enrich store (host.rootFiles id) path event)).getD event := by
  rw [JournalHost.enrichRemoteEventJournalPayload, if_neg (by
    simp [JournalEvent.isEnriched, blank.entryKind, blank.payloadKey, blank.tombstone])]
  simp only [own, at_]
  cases get host.roots id with
  | none => rfl
  | some root => rfl

theorem finishEvent_of_pending (pending : event.isRemoteJournalPending) :
    host.finishEvent store inputs event = (host.enrichRemoteEventJournalPayload store
      (event.withKey (host.remoteEventJournalKey event.eventId))).syncedAt inputs.acknowledged := by
  have still : (host.enrichRemoteEventJournalPayload store
      (event.withKey (host.remoteEventJournalKey event.eventId))).isRemoteJournalPending = true := by
    rw [JournalEvent.isRemoteJournalPending, JournalEvent.isPendingTrigger,
      sameEvent_enrichRemote.kind, remote_enrichRemote.2]
    exact pending
  rw [JournalHost.finishEvent, JournalHost.uploadEvent, if_pos pending,
    JournalHost.acknowledgeEvent, if_pos]
  rw [still, remote_enrichRemote.1]
  rfl

theorem isPending_iff (trigger : event.isPendingTrigger) :
    event.isRemoteJournalPending = true ↔ event.remoteJournalSyncedAt = none := by
  rw [JournalEvent.isRemoteJournalPending, trigger, Bool.true_and, Option.isNone_iff_eq_none]

theorem synced_finishEvent (trigger : event.isPendingTrigger) :
    (host.finishEvent store inputs event).remoteJournalSyncedAt.isSome := by
  cases synced : event.remoteJournalSyncedAt with
  | some time =>
    rw [finishEvent_of_synced (by simp [synced]), synced]
    rfl
  | none =>
    rw [finishEvent_of_pending _ ((isPending_iff trigger).mpr synced)]
    rfl

/-- An upload that finds something else than the snapshot has leaves an event that the
snapshot does not cover. -/
theorem waiting_finishEvent (trigger : event.isPendingTrigger) (own : event.rootId = some id)
    (at_ : event.path = some path) (waiting : Waiting snapshot event)
    (differs : event.remoteJournalSyncedAt = none → event.Blank →
      host.Differs store snapshot id path) :
    Waiting snapshot (host.finishEvent store inputs event) := by
  refine ⟨Or.inr ⟨Or.inl (synced_finishEvent _ trigger), ?_⟩⟩
  cases synced : event.remoteJournalSyncedAt with
  | some time =>
    rw [finishEvent_of_synced (by simp [synced])]
    rcases waiting.waits with ⟨unsynced, -⟩ | ⟨-, uncovered⟩
    · simp [unsynced] at synced
    · exact uncovered
  | none =>
    rw [finishEvent_of_pending _ ((isPending_iff trigger).mpr synced)]
    change durableEventCoveredBySnapshot (host.enrichRemoteEventJournalPayload store
      (event.withKey (host.remoteEventJournalKey event.eventId))) snapshot = false
    rcases waiting.waits with ⟨-, blank⟩ | ⟨enriched, uncovered⟩
    · have blank' : (event.withKey (host.remoteEventJournalKey event.eventId)).Blank :=
        ⟨blank.tombstone, blank.entryKind, blank.oid, blank.payloadKey, blank.manifestKey⟩
      have own' : (event.withKey (host.remoteEventJournalKey event.eventId)).rootId = some id := own
      have at' : (event.withKey (host.remoteEventJournalKey event.eventId)).path = some path := at_
      rw [enrichRemote_of_blank blank' own' at']
      cases found : get host.roots id with
      | none => exact not_covered_blank blank' own' at'
      | some root =>
        rw [← Bool.not_eq_true]
        intro covered
        apply differs synced blank
        rw [found, Option.bind_some]
        exact content_of_covered blank' own' at' covered
    · have done : (event.withKey (host.remoteEventJournalKey event.eventId)).isEnriched = true := by
        rcases enriched with already | enriched
        · simp [synced] at already
        · exact enriched
      rw [JournalHost.enrichRemoteEventJournalPayload, if_pos done]
      exact uncovered

end Upload

/-- No snapshot ends before an earlier one. -/
def Ordered (host : JournalHost) (ending : SnapshotEnd) : Prop :=
  ∀ finish ∈ host.journal, finish.isSnapshotFinish → finish.observedAt ≤ ending.finishedAt

/-- The times at the end of a snapshot, one for each reader of the journal: some recorded file event
is later than the finish; the event of the change is later than the timestamp of the snapshot that
is then the current one; and it is not earlier than the finish, unless the compaction is strict. -/
structure Spares (host : JournalHost) (ending : SnapshotEnd) (event : JournalEvent) : Prop where
  pending : ∃ other ∈ host.journal, other.isPendingTrigger ∧ ending.finishedAt < other.observedAt
  stamped : ∀ snapshot, host.currentAfter ending = some snapshot →
    snapshot.timestamp < event.observedAt
  finished : host.trustsFinish = true → ending.finishedAt ≤ event.observedAt

/-- A step that does not save the change in a snapshot: a sync that uploads the event finds
something else than the snapshot has, and a later snapshot does not say what the event says and
spares it too. -/
def Continues (store : LiveStore) (id path : String) (event : JournalEvent) (host : JournalHost) :
    JournalStep → Prop
  | .sync _ => ∀ now ∈ host.journal, SameEvent event now → now.remoteJournalSyncedAt = none →
      now.Blank → ∀ snapshot, host.current = some snapshot → host.Differs store snapshot id path
  | .snapshot ending => Ordered host ending ∧ Spares host ending event ∧
      ∀ taken, ending.taken = some taken → ∀ now ∈ host.journal, SameEvent event now →
        Waiting taken now
  | _ => True

/-- A state in which the change is not lost: some file event is pending, the event is still
there, and a restore of the latest state looks at it once the remote has it. -/
structure JournalHost.KeepsChange (host : JournalHost) (id path : String) (event : JournalEvent) :
    Prop where
  pending : hasPendingJournalEvents host.journal = true
  kept : ∃ now ∈ host.journal, SameEvent event now
  overlaid : ∀ now ∈ host.journal, SameEvent event now → now.remoteJournalSyncedAt.isSome →
    ∀ snapshot, host.current = some snapshot → ∀ window, Latest window snapshot id host.journal →
    window.target now = some (id, path)

section Journals

variable {store : LiveStore} {host : JournalHost} {snapshot : CurrentSnapshot}
  {event now : JournalEvent} {id path : String} {time : Int} {inputs : SyncInputs}
  {trustsFinish : Bool} {journal : List JournalEvent}

theorem SameEvent.isPendingTrigger (same : SameEvent event now) :
    now.isPendingTrigger = event.isPendingTrigger := by
  rw [JournalEvent.isPendingTrigger, JournalEvent.isPendingTrigger, same.kind]

theorem FinishedAt.upload {other : JournalHost} (finished : FinishedAt host.journal time) :
    FinishedAt ((host.newEvents store snapshot inputs ++ host.journal).map
      (other.finishEvent store inputs)) time := by
  constructor
  · obtain ⟨finish, inside, ends, same⟩ := finished.finish
    refine ⟨_, List.mem_map_of_mem (List.mem_append_right _ inside), ?_, ?_⟩
    · rw [isSnapshotFinish_finishEvent]
      exact ends
    · exact sameEvent_finishEvent.observedAt.trans same
  · intro finish inside ends
    obtain ⟨before, member, rfl⟩ := List.mem_map.mp inside
    rw [isSnapshotFinish_finishEvent] at ends
    rw [sameEvent_finishEvent.observedAt]
    rcases List.mem_append.mp member with new | old
    · simp [(kind_new new).2] at ends
    · exact finished.last before old ends

theorem finishedAt_recordEnd {ending : SnapshotEnd} (ordered : Ordered host ending) :
    FinishedAt (host.recordEnd ending) ending.finishedAt := by
  refine ⟨⟨_, List.mem_cons_self, rfl, rfl⟩, ?_⟩
  intro finish inside ends
  rcases List.mem_cons.mp inside with rfl | inside
  · exact le_rfl
  · rcases List.mem_append.mp inside with noop | old
    · split at noop
      · rw [List.mem_singleton.mp noop] at ends
        simp [JournalEvent.isSnapshotFinish, JournalEvent.new] at ends
      · cases noop
    · exact ordered finish old ends

theorem mem_of_mem_recordEnd {ending : SnapshotEnd} (inside : now ∈ host.recordEnd ending)
    (trigger : now.isPendingTrigger) : now ∈ host.journal := by
  rcases List.mem_cons.mp inside with rfl | inside
  · simp [JournalEvent.isPendingTrigger, JournalEvent.new] at trigger
  · rcases List.mem_append.mp inside with noop | old
    · split at noop
      · rw [List.mem_singleton.mp noop] at trigger
        simp [JournalEvent.isPendingTrigger, JournalEvent.new] at trigger
      · cases noop
    · exact old

/-- The compaction leaves an event that is not earlier than the finish, and in the strict mode
one that waits. -/
theorem stays_compact (finished : FinishedAt journal time) (inside : now ∈ journal)
    (trigger : now.isPendingTrigger)
    (stays : time ≤ now.observedAt ∨ trustsFinish = false ∧ Waiting snapshot now) :
    now ∈ compactEventJournalForce trustsFinish (some snapshot) journal := by
  refine (mem_compact_iff finished).mpr ⟨inside, ?_⟩
  rw [← Bool.not_eq_true, removable_iff trigger]
  rintro ⟨early, synced, covered⟩
  rcases stays with late | ⟨strict, waiting⟩
  · omega
  · rcases covered with lax | ⟨current, same, covered⟩
    · simp [strict] at lax
    · cases same
      rcases waiting.waits with ⟨unsynced, -⟩ | ⟨-, uncovered⟩
      · simp [unsynced] at synced
      · simp [uncovered] at covered

/-- A journal that spares the event. -/
structure Kept (trustsFinish : Bool) (event : JournalEvent) (snapshot : CurrentSnapshot)
    (time : Int) (journal : List JournalEvent) : Prop where
  finished : FinishedAt journal time
  pending : ∃ other ∈ journal, other.isPendingTrigger ∧ time < other.observedAt
  stamped : snapshot.timestamp < event.observedAt
  spared : trustsFinish = true → time ≤ event.observedAt
  held : ∃ now ∈ journal, SameEvent event now ∧ Waiting snapshot now

theorem Kept.compact (trigger : event.isPendingTrigger)
    (kept : Kept trustsFinish event snapshot time journal) :
    Kept trustsFinish event snapshot time
      (compactEventJournalForce trustsFinish (some snapshot) journal) := by
  obtain ⟨finished, ⟨other, member, triggers, late⟩, stamped, spared, now, inside, same, waiting⟩ :=
    kept
  refine ⟨finished.compact, ⟨other, ?_, triggers, late⟩, stamped, spared, now, ?_, same, waiting⟩
  · exact stays_compact finished member triggers (Or.inl late.le)
  · refine stays_compact finished inside (same.isPendingTrigger.trans trigger) ?_
    cases trustsFinish with
    | true => exact Or.inl (same.observedAt ▸ spared rfl)
    | false => exact Or.inr ⟨rfl, waiting⟩

theorem Kept.upload {other : JournalHost} (trigger : event.isPendingTrigger)
    (own : event.rootId = some id) (at_ : event.path = some path)
    (differs : ∀ now ∈ host.journal, SameEvent event now → now.remoteJournalSyncedAt = none →
      now.Blank → other.Differs store snapshot id path)
    (kept : Kept trustsFinish event snapshot time host.journal) :
    Kept trustsFinish event snapshot time
      ((host.newEvents store snapshot inputs ++ host.journal).map
        (other.finishEvent store inputs)) := by
  obtain ⟨finished, ⟨later, member, triggers, late⟩, stamped, spared, now, inside, same, waiting⟩ :=
    kept
  refine ⟨finished.upload, ⟨_, List.mem_map_of_mem (List.mem_append_right _ member), ?_, ?_⟩,
    stamped, spared, _, List.mem_map_of_mem (List.mem_append_right _ inside),
    same.trans sameEvent_finishEvent, ?_⟩
  · rw [isPendingTrigger_finishEvent]
    exact triggers
  · rw [sameEvent_finishEvent.observedAt]
    exact late
  · exact waiting_finishEvent inputs (same.isPendingTrigger.trans trigger) (same.rootId.trans own)
      (same.path.trans at_) waiting (differs now inside same)

theorem Kept.cons {new : JournalEvent} (plain : new.isSnapshotFinish = false)
    (kept : Kept trustsFinish event snapshot time journal) :
    Kept trustsFinish event snapshot time (new :: journal) := by
  obtain ⟨⟨⟨finish, listed, ends⟩, last⟩, ⟨other, member, late⟩, stamped, spared,
    now, inside, held⟩ := kept
  refine ⟨⟨⟨finish, List.mem_cons_of_mem _ listed, ends⟩, ?_⟩,
    ⟨other, List.mem_cons_of_mem _ member, late⟩, stamped, spared, now,
    List.mem_cons_of_mem _ inside, held⟩
  intro finish inside ends
  rcases List.mem_cons.mp inside with rfl | old
  · simp [plain] at ends
  · exact last finish old ends

theorem kept_recordEnd {ending : SnapshotEnd} (ordered : Ordered host ending)
    (taken : host.currentAfter ending = some snapshot) (spares : Spares host ending event)
    (inside : now ∈ host.journal) (same : SameEvent event now) (waiting : Waiting snapshot now) :
    Kept host.trustsFinish event snapshot ending.finishedAt (host.recordEnd ending) := by
  have recorded : ∀ event ∈ host.journal, event ∈ host.recordEnd ending := fun event listed =>
    List.mem_cons_of_mem _ (List.mem_append_right _ listed)
  obtain ⟨other, member, late⟩ := spares.pending
  exact ⟨finishedAt_recordEnd ordered, ⟨other, recorded other member, late⟩,
    spares.stamped snapshot taken, spares.finished, now, recorded now inside, same, waiting⟩

end Journals

/-- A host whose journal spares the event. -/
def JournalHost.Keeps (host : JournalHost) (event : JournalEvent) : Prop :=
  ∃ snapshot time, host.current = some snapshot ∧
    Kept host.trustsFinish event snapshot time host.journal

section After

variable {store : LiveStore} {host : JournalHost} {snapshot : CurrentSnapshot}
  {event now : JournalEvent} {id path : String} {time : Int} {step : JournalStep}
  {inputs : SyncInputs} {ending : SnapshotEnd}

theorem trustsFinish_act : (host.act store step).trustsFinish = host.trustsFinish := by
  cases step with
  | edit | observe | compact | snapshot => rfl
  | sync inputs =>
    simp only [JournalHost.act, JournalHost.sync, JournalHost.acknowledgeRemoteEventJournalUploads,
      JournalHost.enqueueRemoteEventJournalUploads, JournalHost.enqueueLiveDiffEventJournals]
    split
    · rfl
    · rfl

theorem differs_enqueue (current : host.current = some snapshot) :
    (host.enqueueLiveDiffEventJournals store inputs).Differs store snapshot id path ↔
      host.Differs store snapshot id path := by
  have roots : get (host.enqueueLiveDiffEventJournals store inputs).roots id =
      (get host.roots id).map (host.markTracked store snapshot inputs id) := by
    unfold JournalHost.enqueueLiveDiffEventJournals
    rw [current]
    exact get_mapWithKey _ host.roots id
  rw [JournalHost.Differs, JournalHost.Differs, roots]
  cases get host.roots id with
  | none => rfl
  | some root => rw [Option.map_some, Option.bind_some, Option.bind_some, live_markTracked]

theorem keeps_finishSnapshot (trigger : event.isPendingTrigger) (ordered : Ordered host ending)
    (taken : host.currentAfter ending = some snapshot) (spares : Spares host ending event)
    (inside : now ∈ host.journal) (same : SameEvent event now) (waiting : Waiting snapshot now) :
    (host.finishSnapshot ending).Keeps event := by
  refine ⟨snapshot, ending.finishedAt, taken, ?_⟩
  have kept := (kept_recordEnd ordered taken spares inside same waiting).compact trigger
  rw [← taken] at kept
  exact kept

variable (store) in
/-- What one step preserves. -/
theorem keeps_act (trigger : event.isPendingTrigger) (own : event.rootId = some id)
    (at_ : event.path = some path) (continues : Continues store id path event host step)
    (keeps : host.Keeps event) : (host.act store step).Keeps event := by
  obtain ⟨snapshot, time, current, kept⟩ := keeps
  cases step with
  | edit edit => exact ⟨snapshot, time, current, kept⟩
  | observe eventId rootId path observedAt =>
    refine ⟨snapshot, time, current, kept.cons ?_⟩
    simp [JournalEvent.isSnapshotFinish, JournalEvent.newFileEvent, JournalEvent.new]
  | compact =>
    have compacted := kept.compact trigger
    rw [← current] at compacted
    exact ⟨snapshot, time, current, compacted⟩
  | sync inputs =>
    have uploaded : Kept host.trustsFinish event snapshot time
        ((host.newEvents store snapshot inputs ++ host.journal).map
          ((host.enqueueLiveDiffEventJournals store inputs).finishEvent store inputs)) :=
      kept.upload trigger own at_ (fun now inside same unsynced blank =>
        (differs_enqueue current).mpr (continues now inside same unsynced blank snapshot current))
    refine ⟨snapshot, time, current_sync.trans current, ?_⟩
    rw [trustsFinish_act, JournalHost.act, journal_sync current, JournalHost.compacted]
    split
    · exact uploaded
    · rw [current]
      exact uploaded.compact trigger
  | snapshot ending =>
    obtain ⟨ordered, spares, unsaved⟩ := continues
    obtain ⟨now, inside, same, waiting⟩ := kept.held
    cases taken : ending.taken with
    | none =>
      refine keeps_finishSnapshot trigger ordered ?_ spares inside same waiting
      rw [JournalHost.currentAfter, taken, current]
      rfl
    | some new =>
      refine keeps_finishSnapshot trigger ordered ?_ spares inside same
        (unsaved new taken now inside same)
      rw [JournalHost.currentAfter, taken]
      rfl

theorem JournalHost.Keeps.keepsChange (own : event.rootId = some id) (at_ : event.path = some path)
    (keeps : host.Keeps event) : host.KeepsChange id path event := by
  obtain ⟨snapshot, time, current, finished, pending, stamped, -, now, inside, same, -⟩ := keeps
  refine ⟨finished.hasPending_iff.mpr pending, ⟨now, inside, same⟩, ?_⟩
  intro now inside same synced snapshot' current' window latest
  cases current.symm.trans current'
  have after : snapshot.timestamp < now.observedAt := same.observedAt ▸ stamped
  have mine := same.rootId.trans own
  exact JournalWindow.target_eq synced (by rwa [latest.after]) (latest.upTo now inside mine after)
    mine (same.path.trans at_) ⟨latest.root, latest.paths path⟩

/-- After a sync that compacts, every file event is on the remote, and a host that trusts the
finish has none from before it. -/
theorem mem_sync_compacted (current : host.current = some snapshot)
    (finished : FinishedAt host.journal time) (changed : inputs.unchanged = false)
    (inside : now ∈ (host.sync store inputs).journal) (trigger : now.isPendingTrigger) :
    now.remoteJournalSyncedAt.isSome ∧ (host.trustsFinish = true → time ≤ now.observedAt) := by
  rw [journal_sync current, JournalHost.compacted, changed, if_neg Bool.false_ne_true,
    mem_compact_iff finished.upload, ← Bool.not_eq_true, removable_iff trigger] at inside
  obtain ⟨uploaded, stays⟩ := inside
  obtain ⟨before, -, rfl⟩ := List.mem_map.mp uploaded
  rw [isPendingTrigger_finishEvent] at trigger
  have synced : ((host.enqueueLiveDiffEventJournals store inputs).finishEvent store inputs
      before).remoteJournalSyncedAt.isSome := synced_finishEvent inputs trigger
  refine ⟨synced, fun lax => ?_⟩
  by_contra early
  exact stays ⟨by omega, synced, Or.inl lax⟩

theorem stamped_of_target {window : JournalWindow} {journal : List JournalEvent}
    (latest : Latest window snapshot id journal) (synced : now.remoteJournalSyncedAt.isSome)
    (looks : window.target now = some (id, path)) : snapshot.timestamp < now.observedAt := by
  by_contra early
  rw [JournalWindow.target, if_neg (by simpa [Option.isSome_iff_ne_none] using synced), if_pos]
    at looks
  · cases looks
  · rw [latest.after]
    omega

end After

namespace ChangedNotes

open EditedNotes

def ending : SnapshotEnd := ⟨some snapshot, "noop", "finish", 12⟩

def event (time : Int) : JournalEvent := JournalEvent.newFileEvent "change" time "notes" "a"

/-- The file changes while the snapshot is taken, and its event is observed. -/
def changed (trustsFinish : Bool) (time : Int) : JournalHost :=
  { host.edit ⟨"notes", "a", some (file 66 time)⟩ with
    trustsFinish := trustsFinish
    journal := [event time] }

/-- Another file changes later, and a sync follows. -/
def later : List JournalStep :=
  [.observe "other" "notes" "b" 14,
    .sync ⟨fun _ path => path, fun _ _ => 15, 15, fun _ => true, false⟩]

end ChangedNotes

end Majutsu.Repo
