import Mathlib.Data.List.Dedup
import Majutsu.Lib.Machine
import Majutsu.Repo.LiveDiff

/-!
# The journal over the snapshot

A sync after each edit is to keep the snapshot with its journal equal to the live root.
It does so as long as every edit that changes what a path holds is noticed: the live diff
compares with the snapshot and with all events since then, so a path that comes back to
what it was before is not written down again.
-/

namespace Majutsu.Repo

open Loops SortedMap

section Diff

variable {store : LiveStore} {host : JournalHost} {snapshot : CurrentSnapshot} {id path : String}
  {root : JournalRoot} {inputs : SyncInputs}

theorem get_liveFiles : get (host.liveFiles store snapshot id root) path =
    (get root.live path).bind (root.scanRecord store (snapshot.rootFileMap id) id
      (host.tooMany snapshot id root) path) :=
  root.sorted.get_filterMap _ path

theorem mem_livePaths : path ∈ host.pathsAll store snapshot id root ↔
    (get (snapshot.rootFileMap id) path).isSome ∨
      (get (host.liveFiles store snapshot id root) path).isSome := by
  rw [JournalHost.pathsAll, List.mem_dedup, List.mem_insertionSort, List.mem_append,
    List.mem_filter, mem_keys, mem_keys]
  cases get (snapshot.rootFileMap id) path with
  | none => simp
  | some => simp

theorem diffKind_of_notMem (outside : path ∉ host.pathsAll store snapshot id root) :
    host.diffKind store snapshot id root path = none := by
  rw [mem_livePaths, not_or, Option.not_isSome_iff_eq_none, Option.not_isSome_iff_eq_none] at outside
  rw [JournalHost.diffKind, outside.1, outside.2]
  rfl

theorem liveDiffEvent_of_notMem (outside : path ∉ host.pathsAll store snapshot id root) :
    host.liveDiffEvent store snapshot inputs id root path = none := by
  simp [JournalHost.liveDiffEvent, diffKind_of_notMem outside]

theorem diffKind_create (new : get (snapshot.rootFileMap id) path = none)
    (live : (get (host.liveFiles store snapshot id root) path).isSome) :
    host.diffKind store snapshot id root path = some .create := by
  obtain ⟨record, found⟩ := Option.isSome_iff_exists.mp live
  rw [JournalHost.diffKind, new, found]
  rfl

theorem live_markTracked :
    (host.markTracked store snapshot inputs id root).live = root.live := by
  unfold JournalHost.markTracked
  split
  · rfl
  · rfl

theorem knows_markTracked (looks : inputs.looksAt id root) :
    (host.markTracked store snapshot inputs id root).knows (snapshot.rootFileMap id) path =
      (root.knows (snapshot.rootFileMap id) path ||
        (get (host.liveFiles store snapshot id root) path).isSome) := by
  rw [JournalHost.markTracked, if_pos looks]
  cases inSnapshot : get (snapshot.rootFileMap id) path with
  | some record => simp [JournalRoot.knows, inSnapshot]
  | none =>
    cases live : get (host.liveFiles store snapshot id root) path with
    | none => simp [JournalRoot.knows, inSnapshot, live]
    | some record =>
      have created := diffKind_create inSnapshot (by simp [live] :
        (get (host.liveFiles store snapshot id root) path).isSome = true)
      have inside : path ∈ host.pathsAll store snapshot id root :=
        mem_livePaths.mpr (Or.inr (by simp [live]))
      simp [JournalRoot.knows, inSnapshot, live, created, inside]

theorem knows_of_diffKind (looks : inputs.looksAt id root)
    (differs : (host.diffKind store snapshot id root path).isSome) :
    (host.markTracked store snapshot inputs id root).knows (snapshot.rootFileMap id) path = true := by
  rw [knows_markTracked looks, Bool.or_eq_true]
  by_contra unknown
  rw [not_or, JournalRoot.knows, Bool.or_eq_true, not_or] at unknown
  obtain ⟨⟨-, notInSnapshot⟩, notLive⟩ := unknown
  rw [diffKind_of_notMem (by simp [mem_livePaths, notInSnapshot, notLive])] at differs
  cases differs

end Diff

/-- Two events of the same time about the same path. -/
structure SameEvent (event other : JournalEvent) : Prop where
  eventId : other.eventId = event.eventId
  kind : other.kind = event.kind
  observedAt : other.observedAt = event.observedAt
  rootId : other.rootId = event.rootId
  path : other.path = event.path

theorem SameEvent.refl (event : JournalEvent) : SameEvent event event :=
  ⟨rfl, rfl, rfl, rfl, rfl⟩

theorem SameEvent.trans {a b c : JournalEvent} (first : SameEvent a b) (second : SameEvent b c) :
    SameEvent a c :=
  ⟨second.eventId.trans first.eventId, second.kind.trans first.kind,
    second.observedAt.trans first.observedAt, second.rootId.trans first.rootId,
    second.path.trans first.path⟩

/-- The upload and the acknowledgement of an event. -/
def JournalHost.finishEvent (store : LiveStore) (host : JournalHost) (inputs : SyncInputs)
    (event : JournalEvent) : JournalEvent :=
  JournalHost.acknowledgeEvent inputs (host.uploadEvent store event)

section Finish

variable {store : LiveStore} {host : JournalHost} {inputs : SyncInputs} {event : JournalEvent}
  {files : FileMap} {root : JournalRoot} {id path : String}

theorem sameEvent_enrichContent (entry : LiveEntry) :
    SameEvent event (root.enrichContent store files path event entry) := by
  unfold JournalRoot.enrichContent
  split
  · exact ⟨rfl, rfl, rfl, rfl, rfl⟩
  · exact ⟨rfl, rfl, rfl, rfl, rfl⟩
  · exact .refl _
  · split
    · exact .refl _
    · split
      · exact ⟨rfl, rfl, rfl, rfl, rfl⟩
      · exact ⟨rfl, rfl, rfl, rfl, rfl⟩

theorem sameEvent_enrich : SameEvent event (root.enrich store files path event) := by
  unfold JournalRoot.enrich
  split
  · exact ⟨rfl, rfl, rfl, rfl, rfl⟩
  · rename_i file _
    have named : SameEvent event (event.withMetadata file) := ⟨rfl, rfl, rfl, rfl, rfl⟩
    exact named.trans (sameEvent_enrichContent _)

theorem remote_enrich :
    (root.enrich store files path event).remoteJournalKey = event.remoteJournalKey ∧
      (root.enrich store files path event).remoteJournalSyncedAt = event.remoteJournalSyncedAt := by
  unfold JournalRoot.enrich
  split
  · exact ⟨rfl, rfl⟩
  · unfold JournalRoot.enrichContent
    split
    · exact ⟨rfl, rfl⟩
    · exact ⟨rfl, rfl⟩
    · exact ⟨rfl, rfl⟩
    · split
      · exact ⟨rfl, rfl⟩
      · split
        · exact ⟨rfl, rfl⟩
        · exact ⟨rfl, rfl⟩

theorem sameEvent_enrichRemote :
    SameEvent event (host.enrichRemoteEventJournalPayload store event) := by
  unfold JournalHost.enrichRemoteEventJournalPayload
  split
  · exact .refl _
  · split
    · split
      · exact .refl _
      · exact sameEvent_enrich
    · exact .refl _

theorem sameEvent_finishEvent : SameEvent event (host.finishEvent store inputs event) := by
  have uploaded : SameEvent event (host.uploadEvent store event) := by
    unfold JournalHost.uploadEvent
    split
    · have keyed : SameEvent event (event.withKey (host.remoteEventJournalKey event.eventId)) :=
        ⟨rfl, rfl, rfl, rfl, rfl⟩
      exact keyed.trans sameEvent_enrichRemote
    · exact .refl _
  unfold JournalHost.finishEvent JournalHost.acknowledgeEvent
  split
  · exact uploaded.trans ⟨rfl, rfl, rfl, rfl, rfl⟩
  · exact uploaded

theorem isPendingTrigger_finishEvent :
    (host.finishEvent store inputs event).isPendingTrigger = event.isPendingTrigger := by
  rw [JournalEvent.isPendingTrigger, JournalEvent.isPendingTrigger, sameEvent_finishEvent.kind]

theorem isSnapshotFinish_finishEvent :
    (host.finishEvent store inputs event).isSnapshotFinish = event.isSnapshotFinish := by
  rw [JournalEvent.isSnapshotFinish, JournalEvent.isSnapshotFinish, sameEvent_finishEvent.kind]

theorem finishEvent_of_synced (synced : event.remoteJournalSyncedAt.isSome) :
    host.finishEvent store inputs event = event := by
  have done : event.isRemoteJournalPending = false := by
    simp [JournalEvent.isRemoteJournalPending, Option.isNone_eq_false_iff.mpr synced]
  simp [JournalHost.finishEvent, JournalHost.uploadEvent, JournalHost.acknowledgeEvent, done]

def JournalRoot.isDirectory (root : JournalRoot) (path : String) : Bool :=
  (get root.live path).any (fun file => file.entry = .directory)

/-- An event that says nothing durable yet. -/
structure JournalEvent.Blank (event : JournalEvent) : Prop where
  tombstone : event.durableTombstone = none
  entryKind : event.durableEntryKind = none
  oid : event.durablePayloadOid = none
  payloadKey : event.durablePayloadKey = none
  manifestKey : event.durableLargeManifestKey = none

theorem effect_enrich (store : LiveStore) (id : String) (blank : event.Blank) (known : root.knows files path) :
    if root.isDirectory path then (root.enrich store files path event).effect id path = none
    else ∃ outcome, (root.enrich store files path event).effect id path = some outcome ∧
      outcome.bind (fun record => record.payload.content) =
        (get root.live path).bind (LiveFile.content store) := by
  obtain ⟨tombstone, entryKind, oid, payloadKey, manifestKey⟩ := blank
  unfold JournalRoot.isDirectory JournalRoot.enrich
  cases get root.live path with
  | none => exact ⟨none, by simp [JournalEvent.effect], rfl⟩
  | some file =>
    cases entry : file.entry with
    | directory =>
      simp [entry, JournalRoot.enrichContent, JournalEvent.withMetadata, JournalEvent.effect,
        EventJournalRecord.payload, tombstone, entryKind, oid]
    | symlink target | special kind =>
      simp [entry, JournalRoot.enrichContent, JournalEvent.withMetadata, JournalEvent.effect,
        JournalEvent.record, LiveFile.content, Payload.content, tombstone]
    | file bytes =>
      by_cases large : root.classifyLarge path bytes || root.chunked bytes
      all_goals
        simp [entry, JournalRoot.enrichContent, JournalEvent.withMetadata, JournalEvent.effect,
          JournalEvent.record, LiveFile.content, Payload.content, EventJournalRecord.payload,
          journalPayloadOid, tombstone, known, large, manifestKey]

theorem blank_new (eventId : String) (time : Int) (id path : String) (key : Key) :
    ((JournalEvent.newFileEvent eventId time id path).withKey key).Blank :=
  ⟨rfl, rfl, rfl, rfl, rfl⟩

theorem finishEvent_new (found : get host.roots id = some root) (eventId : String) (time : Int) :
    host.finishEvent store inputs (JournalEvent.newFileEvent eventId time id path) =
      (root.enrich store (host.rootFiles id) path
        ((JournalEvent.newFileEvent eventId time id path).withKey
          (host.remoteEventJournalKey eventId))).syncedAt inputs.acknowledged := by
  have pending : (JournalEvent.newFileEvent eventId time id path).isRemoteJournalPending = true :=
    rfl
  have uploaded : host.uploadEvent store (JournalEvent.newFileEvent eventId time id path) =
      root.enrich store (host.rootFiles id) path
        ((JournalEvent.newFileEvent eventId time id path).withKey
          (host.remoteEventJournalKey eventId)) := by
    rw [JournalHost.uploadEvent, if_pos pending, JournalHost.enrichRemoteEventJournalPayload,
      if_neg (by simp [JournalEvent.isEnriched, JournalEvent.newFileEvent, JournalEvent.new,
        JournalEvent.withKey])]
    simp only [JournalEvent.newFileEvent, JournalEvent.new, JournalEvent.withKey, found]
  have kind : (root.enrich store (host.rootFiles id) path
      ((JournalEvent.newFileEvent eventId time id path).withKey
        (host.remoteEventJournalKey eventId))).kind = "fs-event" := sameEvent_enrich.kind
  rw [JournalHost.finishEvent, uploaded, JournalHost.acknowledgeEvent, if_pos]
  rw [JournalEvent.isRemoteJournalPending, JournalEvent.isPendingTrigger, kind, remote_enrich.1,
    remote_enrich.2]
  rfl

end Finish

/-- What the journal of a root is like after a sync. -/
structure Journaled (host : JournalHost) (snapshot : CurrentSnapshot) (id : String)
    (root : JournalRoot) : Prop where
  trigger : ∀ event ∈ host.journal, event.rootId = some id →
    snapshot.timestamp < event.observedAt → event.isPendingTrigger
  synced : ∀ event ∈ host.journal, event.rootId = some id →
    snapshot.timestamp < event.observedAt → event.remoteJournalSyncedAt.isSome
  known : ∀ event ∈ host.journal, event.rootId = some id →
    snapshot.timestamp < event.observedAt → ∀ path, event.path = some path →
      root.knows (snapshot.rootFileMap id) path
  finished : ∀ event ∈ host.journal, event.rootId = some id →
    snapshot.timestamp < event.observedAt → ∀ finish ∈ host.journal, finish.isSnapshotFinish →
      finish.observedAt ≤ event.observedAt

theorem journaled_of_nil {host : JournalHost} {snapshot : CurrentSnapshot} {id : String}
    {root : JournalRoot} (empty : host.journal = []) : Journaled host snapshot id root := by
  constructor
  · simp [empty]
  · simp [empty]
  · simp [empty]
  · simp [empty]

/-- The clock of a sync is ahead of the journal. -/
def JournalHost.Timely (host : JournalHost) (snapshot : CurrentSnapshot) (inputs : SyncInputs) :
    Prop :=
  ∀ rootId path, snapshot.timestamp < inputs.observed rootId path ∧
    ∀ event ∈ host.journal, event.observedAt < inputs.observed rootId path

/-- The window of a restore of the latest state. -/
structure Latest (window : JournalWindow) (snapshot : CurrentSnapshot) (id : String)
    (journal : List JournalEvent) : Prop where
  after : window.after = snapshot.timestamp
  root : window.takesRoot id
  paths : ∀ path, window.takesPath path
  upTo : ∀ event ∈ journal, event.rootId = some id → snapshot.timestamp < event.observedAt →
    event.observedAt ≤ window.upTo

section Sync

variable {store : LiveStore} {host : JournalHost} {snapshot : CurrentSnapshot} {id path : String}
  {root : JournalRoot} {inputs : SyncInputs} {window : JournalWindow} {event : JournalEvent}

def JournalHost.newEvents (store : LiveStore) (host : JournalHost) (snapshot : CurrentSnapshot)
    (inputs : SyncInputs) : List JournalEvent :=
  host.roots.flatMap (fun entry => host.rootEvents store snapshot inputs entry.1 entry.2)

theorem journal_sync (current : host.current = some snapshot) :
    (host.sync store inputs).journal =
      host.compacted inputs ((host.newEvents store snapshot inputs ++ host.journal).map
        ((host.enqueueLiveDiffEventJournals store inputs).finishEvent store inputs)) := by
  unfold JournalHost.sync JournalHost.acknowledgeRemoteEventJournalUploads
    JournalHost.enqueueRemoteEventJournalUploads
  simp only [List.map_map]
  congr 2
  unfold JournalHost.enqueueLiveDiffEventJournals
  rw [current]
  rfl

theorem current_sync : (host.sync store inputs).current = host.current := by
  unfold JournalHost.sync JournalHost.acknowledgeRemoteEventJournalUploads
    JournalHost.enqueueRemoteEventJournalUploads JournalHost.enqueueLiveDiffEventJournals
  split
  · rfl
  · rfl

theorem root_enqueue (current : host.current = some snapshot) (found : get host.roots id = some root) :
    get (host.enqueueLiveDiffEventJournals store inputs).roots id =
      some (host.markTracked store snapshot inputs id root) := by
  unfold JournalHost.enqueueLiveDiffEventJournals
  rw [current]
  exact (get_mapWithKey _ host.roots id).trans (by rw [found]; rfl)

theorem root_sync (current : host.current = some snapshot) (found : get host.roots id = some root) :
    get (host.sync store inputs).roots id =
      some (host.markTracked store snapshot inputs id root) :=
  root_enqueue current found

theorem of_mem_newEvents (h : event ∈ host.newEvents store snapshot inputs) :
    ∃ rootId root path, get host.roots rootId = some root ∧ inputs.looksAt rootId root ∧
      host.liveDiffEvent store snapshot inputs rootId root path = some event := by
  obtain ⟨entry, inside, made⟩ := List.mem_flatMap.mp h
  unfold JournalHost.rootEvents at made
  split at made
  · rename_i looks
    obtain ⟨path, -, made⟩ := List.mem_filterMap.mp made
    exact ⟨entry.1, entry.2, path, host.rootsSorted.get_eq_some.mpr inside, looks, made⟩
  · cases made

theorem of_liveDiffEvent
    (h : host.liveDiffEvent store snapshot inputs id root path = some event) :
    event = JournalEvent.newFileEvent (inputs.newId id path) (inputs.observed id path) id path ∧
      (host.diffKind store snapshot id root path).isSome := by
  unfold JournalHost.liveDiffEvent at h
  split at h
  · rename_i made
    cases h
    rw [Bool.and_eq_true] at made
    exact ⟨rfl, made.1⟩
  · cases h

theorem of_effectOn (h : window.effectOn (toLex (id, path)) event ≠ none) :
    event.rootId = some id ∧ event.path = some path ∧ window.after < event.observedAt ∧
      event.remoteJournalSyncedAt.isSome := by
  unfold JournalWindow.effectOn at h
  split at h
  · rename_i taken
    obtain ⟨found, target, same⟩ := Option.map_eq_some_iff.mp taken
    have times := (JournalWindow.target_times target).1
    unfold JournalWindow.target at target
    split at target
    · cases target
    · rename_i synced
      split at target
      · cases target
      · split at target
        · rename_i rootId ownPath root' path'
          split at target
          · cases target
            obtain ⟨rfl, rfl⟩ : rootId = id ∧ ownPath = path := by simpa using same
            exact ⟨root', path', times, by simpa [Option.isSome_iff_ne_none] using synced⟩
          · cases target
        · cases target
  · exact absurd rfl h

theorem observedAt_new (timely : host.Timely snapshot inputs)
    (new : event ∈ host.newEvents store snapshot inputs) {other : JournalEvent}
    (old : other ∈ host.journal) : other.observedAt < event.observedAt := by
  obtain ⟨rootId, root, path, -, -, made⟩ := of_mem_newEvents new
  rw [(of_liveDiffEvent made).1]
  exact (timely rootId path).2 other old

theorem kind_new (new : event ∈ host.newEvents store snapshot inputs) :
    event.isPendingTrigger = true ∧ event.isSnapshotFinish = false := by
  obtain ⟨rootId, root, path, -, -, made⟩ := of_mem_newEvents new
  rw [(of_liveDiffEvent made).1]
  exact ⟨rfl, rfl⟩

def Since (snapshot : CurrentSnapshot) (id : String) (event : JournalEvent) : Bool :=
  event.rootId = some id && snapshot.timestamp < event.observedAt

theorem since_iff : Since snapshot id event = true ↔
    event.rootId = some id ∧ snapshot.timestamp < event.observedAt := by
  simp [Since]

theorem since_finishEvent {other : JournalHost} :
    Since snapshot id (other.finishEvent store inputs event) = Since snapshot id event := by
  rw [Since, Since, sameEvent_finishEvent.rootId, sameEvent_finishEvent.observedAt]

theorem mem_of_mem_compacted {journal : List JournalEvent}
    (kept : event ∈ host.compacted inputs journal) : event ∈ journal := by
  unfold JournalHost.compacted at kept
  split at kept
  · exact kept
  · exact mem_of_mem_compact kept

theorem compacted_since (journaled : Journaled host snapshot id root)
    (timely : host.Timely snapshot inputs) {other : JournalHost} :
    (host.compacted inputs ((host.newEvents store snapshot inputs ++ host.journal).map
        (other.finishEvent store inputs))).filter (Since snapshot id) =
      ((host.newEvents store snapshot inputs ++ host.journal).map
        (other.finishEvent store inputs)).filter (Since snapshot id) := by
  unfold JournalHost.compacted
  split
  · rfl
  apply compact_filter
  · intro event inside since
    obtain ⟨before, member, rfl⟩ := List.mem_map.mp inside
    rw [since_finishEvent, since_iff] at since
    rw [isPendingTrigger_finishEvent]
    rcases List.mem_append.mp member with new | old
    · exact (kind_new new).1
    · exact journaled.trigger before old since.1 since.2
  · intro event inside since finish finishes ends
    obtain ⟨before, member, rfl⟩ := List.mem_map.mp inside
    obtain ⟨ended, listed, rfl⟩ := List.mem_map.mp finishes
    rw [since_finishEvent, since_iff] at since
    rw [isSnapshotFinish_finishEvent] at ends
    rw [sameEvent_finishEvent.observedAt, sameEvent_finishEvent.observedAt]
    rcases List.mem_append.mp listed with new | earlier
    · simp [(kind_new new).2] at ends
    · rcases List.mem_append.mp member with new | old
      · exact (observedAt_new timely new earlier).le
      · exact journaled.finished before old since.1 since.2 ended earlier ends

theorem filterMap_newEvents {β : Type} {f : JournalEvent → Option β}
    (found : get host.roots id = some root) (looks : inputs.looksAt id root)
    (own : ∀ event, f event ≠ none → event.rootId = some id ∧ event.path = some path) :
    (host.newEvents store snapshot inputs).filterMap f =
      ((host.liveDiffEvent store snapshot inputs id root path).bind f).toList := by
  have elsewhere : ∀ rootId root path', (rootId, path') ≠ (id, path) →
      (host.liveDiffEvent store snapshot inputs rootId root path').bind f = none := by
    intro rootId root path' ne
    rw [Option.bind_eq_none_iff]
    intro event made
    by_contra done
    obtain ⟨root', path''⟩ := own event done
    rw [(of_liveDiffEvent made).1] at root' path''
    exact ne (by rw [Option.some.inj root', Option.some.inj path''])
  have perRoot : ∀ rootId root, (host.rootEvents store snapshot inputs rootId root).filterMap f =
      if inputs.looksAt rootId root then (host.pathsAll store snapshot rootId root).filterMap
        (fun path' => (host.liveDiffEvent store snapshot inputs rootId root path').bind f)
      else [] := by
    intro rootId root
    unfold JournalHost.rootEvents
    split
    · rw [List.filterMap_filterMap]
    · rfl
  have others : ∀ rootId root, rootId ≠ id →
      (host.rootEvents store snapshot inputs rootId root).filterMap f = [] := by
    intro rootId root ne
    rw [perRoot]
    split
    · rw [List.filterMap_eq_nil_iff]
      intro path' _
      exact elsewhere rootId root path' (by simp [ne])
    · rfl
  rw [JournalHost.newEvents, List.filterMap_flatMap]
  refine (host.rootsSorted.flatMap_of_key others).trans ?_
  rw [found, Option.map_some, Option.getD_some, perRoot, if_pos looks]
  apply Sorting.filterMap_of_single (List.nodup_dedup _)
  · intro path' _ ne
    exact elsewhere id root path' (by simp [ne])
  · intro outside
    rw [liveDiffEvent_of_notMem outside]
    rfl

/-- A sync that looks at a root whose journal is in order. -/
structure Syncing (host : JournalHost) (snapshot : CurrentSnapshot) (id : String)
    (root : JournalRoot) (inputs : SyncInputs) : Prop where
  current : host.current = some snapshot
  found : get host.roots id = some root
  looks : inputs.looksAt id root
  journaled : Journaled host snapshot id root
  timely : host.Timely snapshot inputs

theorem lastEffect_sync (sync : Syncing host snapshot id root inputs)
    (after : window.after = snapshot.timestamp) :
    window.lastEffect (host.sync store inputs).journal (toLex (id, path)) =
      ((host.liveDiffEvent store snapshot inputs id root path).bind (fun event =>
        window.effectOn (toLex (id, path))
          ((host.enqueueLiveDiffEventJournals store inputs).finishEvent store inputs event))).or
        (window.lastEffect host.journal (toLex (id, path))) := by
  have since : ∀ event, window.effectOn (toLex (id, path)) event ≠ none →
      Since snapshot id event := by
    intro event done
    obtain ⟨own, -, late, -⟩ := of_effectOn done
    exact since_iff.mpr ⟨own, after ▸ late⟩
  rw [journal_sync sync.current, ← JournalWindow.lastEffect_filter (fun event _ => since event),
    compacted_since sync.journaled sync.timely,
    JournalWindow.lastEffect_filter (fun event _ => since event), List.map_append,
    JournalWindow.lastEffect_append]
  · congr 1
    · apply JournalWindow.lastEffect_of_single
      rw [List.filterMap_map]
      refine filterMap_newEvents sync.found sync.looks fun event done => ?_
      obtain ⟨root', path', -⟩ := of_effectOn done
      exact ⟨sameEvent_finishEvent.rootId.symm.trans root',
        sameEvent_finishEvent.path.symm.trans path'⟩
    · apply JournalWindow.lastEffect_map (fun event => sameEvent_finishEvent.observedAt)
      intro event old
      by_cases own : Since snapshot id event
      · rw [finishEvent_of_synced (sync.journaled.synced event old (since_iff.mp own).1
          (since_iff.mp own).2)]
      · have quiet : ∀ other, Since snapshot id other = Since snapshot id event →
            window.effectOn (toLex (id, path)) other = none := by
          intro other same
          by_contra done
          exact own (same ▸ since other done)
        rw [quiet event rfl, quiet _ since_finishEvent]
  · intro event new other old
    obtain ⟨before, member, rfl⟩ := List.mem_map.mp new
    obtain ⟨earlier, listed, rfl⟩ := List.mem_map.mp old
    rw [sameEvent_finishEvent.observedAt, sameEvent_finishEvent.observedAt]
    exact observedAt_new sync.timely member listed

theorem mem_newEvents (sync : Syncing host snapshot id root inputs)
    (made : host.liveDiffEvent store snapshot inputs id root path = some event) :
    event ∈ host.newEvents store snapshot inputs := by
  refine List.mem_flatMap.mpr ⟨(id, root), host.rootsSorted.get_eq_some.mp sync.found, ?_⟩
  rw [JournalHost.rootEvents, if_pos sync.looks]
  refine List.mem_filterMap.mpr ⟨path, ?_, made⟩
  by_contra outside
  rw [liveDiffEvent_of_notMem outside] at made
  cases made

theorem mem_sync_iff (sync : Syncing host snapshot id root inputs)
    (since : Since snapshot id event) :
    event ∈ (host.sync store inputs).journal ↔
      ∃ before ∈ host.newEvents store snapshot inputs ++ host.journal,
        (host.enqueueLiveDiffEventJournals store inputs).finishEvent store inputs before = event := by
  rw [journal_sync sync.current, ← List.mem_map]
  have filtered : ∀ list : List JournalEvent, event ∈ list ↔
      event ∈ list.filter (Since snapshot id) := by
    intro list
    simp [since]
  rw [filtered, compacted_since sync.journaled sync.timely, ← filtered]

theorem finishEvent_liveDiff (current : host.current = some snapshot)
    (found : get host.roots id = some root) (eventId : String) (time : Int) :
    (host.enqueueLiveDiffEventJournals store inputs).finishEvent store inputs
        (JournalEvent.newFileEvent eventId time id path) =
      ((host.markTracked store snapshot inputs id root).enrich store (snapshot.rootFileMap id) path
        ((JournalEvent.newFileEvent eventId time id path).withKey
          (host.remoteEventJournalKey eventId))).syncedAt inputs.acknowledged := by
  have files : (host.enqueueLiveDiffEventJournals store inputs).rootFiles id =
      snapshot.rootFileMap id := by
    simp [JournalHost.enqueueLiveDiffEventJournals, JournalHost.rootFiles, current]
  have key : (host.enqueueLiveDiffEventJournals store inputs).remoteEventJournalKey =
      host.remoteEventJournalKey := by
    simp only [JournalHost.enqueueLiveDiffEventJournals, current]
    rfl
  rw [finishEvent_new (root_enqueue current found), files, key]

theorem effectOn_of_latest {journal : List JournalEvent} (latest : Latest window snapshot id journal)
    (kept : event ∈ journal) (since : Since snapshot id event) (atPath : event.path = some path)
    (synced : event.remoteJournalSyncedAt.isSome) :
    window.effectOn (toLex (id, path)) event = event.effect id path := by
  obtain ⟨own, late⟩ := since_iff.mp since
  rw [JournalWindow.effectOn, JournalWindow.target_eq synced (latest.after ▸ late)
    (latest.upTo _ kept own late) own atPath ⟨latest.root, latest.paths path⟩, Option.map_some,
    if_pos rfl]
  rfl

theorem effectOn_new (sync : Syncing host snapshot id root inputs)
    (latest : Latest window snapshot id (host.sync store inputs).journal)
    (made : host.liveDiffEvent store snapshot inputs id root path = some event) :
    window.effectOn (toLex (id, path))
        ((host.enqueueLiveDiffEventJournals store inputs).finishEvent store inputs event) =
      ((host.markTracked store snapshot inputs id root).enrich store (snapshot.rootFileMap id) path
        ((JournalEvent.newFileEvent (inputs.newId id path) (inputs.observed id path) id path).withKey
          (host.remoteEventJournalKey (inputs.newId id path)))).effect id path := by
  have new := mem_newEvents sync made
  obtain ⟨rfl, -⟩ := of_liveDiffEvent made
  have since : Since snapshot id (JournalEvent.newFileEvent (inputs.newId id path)
      (inputs.observed id path) id path) := since_iff.mpr ⟨rfl, (sync.timely id path).1⟩
  rw [← since_finishEvent] at since
  have kept := (mem_sync_iff sync since).mpr ⟨_, List.mem_append_left _ new, rfl⟩
  rw [effectOn_of_latest latest kept since sameEvent_finishEvent.path,
    finishEvent_liveDiff sync.current sync.found]
  · rfl
  · rw [finishEvent_liveDiff sync.current sync.found]
    rfl

def JournalWindow.planContent (window : JournalWindow) (journal : List JournalEvent)
    (base : List FileRecord) (id path : String) : Option Content :=
  ((window.lastEffect journal (toLex (id, path))).getD
    (get (recordMap base) (toLex (id, path)))).bind (fun record => record.payload.content)

theorem planContent_sync (sync : Syncing host snapshot id root inputs)
    (latest : Latest window snapshot id (host.sync store inputs).journal)
    (base : List FileRecord) (path : String) :
    window.planContent (host.sync store inputs).journal base id path =
      if (host.liveDiffEvent store snapshot inputs id root path).isSome && !root.isDirectory path
      then (get root.live path).bind (LiveFile.content store)
      else window.planContent host.journal base id path := by
  unfold JournalWindow.planContent
  rw [lastEffect_sync sync latest.after]
  cases made : host.liveDiffEvent store snapshot inputs id root path with
  | none => simp
  | some event =>
    have sameDirectory : (host.markTracked store snapshot inputs id root).isDirectory path =
        root.isDirectory path := by
      rw [JournalRoot.isDirectory, live_markTracked, JournalRoot.isDirectory]
    have known := knows_of_diffKind sync.looks (of_liveDiffEvent made).2
    have effect := effect_enrich store id (blank_new (inputs.newId id path)
      (inputs.observed id path) id path (host.remoteEventJournalKey (inputs.newId id path))) known
    rw [sameDirectory, live_markTracked] at effect
    rw [Option.bind_some, effectOn_new sync latest made]
    cases directory : root.isDirectory path with
    | true =>
      rw [directory, if_pos rfl] at effect
      simp [effect]
    | false =>
      rw [directory, if_neg (by simp)] at effect
      obtain ⟨outcome, effect, content⟩ := effect
      simp [effect, content]

theorem journaled_sync (sync : Syncing host snapshot id root inputs) :
    Journaled (host.sync store inputs) snapshot id (host.markTracked store snapshot inputs id root) := by
  -- every event since the snapshot is a new one or an old one that was synced before
  have cases : ∀ event ∈ (host.sync store inputs).journal, event.rootId = some id →
      snapshot.timestamp < event.observedAt →
      (∃ path new, host.liveDiffEvent store snapshot inputs id root path = some new ∧
        (host.enqueueLiveDiffEventJournals store inputs).finishEvent store inputs new = event) ∨
      event ∈ host.journal := by
    intro event inside own late
    obtain ⟨before, member, finished⟩ := (mem_sync_iff sync (since_iff.mpr ⟨own, late⟩)).mp inside
    rw [← finished, sameEvent_finishEvent.rootId] at own
    rw [← finished, sameEvent_finishEvent.observedAt] at late
    rcases List.mem_append.mp member with new | old
    · obtain ⟨rootId, root', path, found', -, made⟩ := of_mem_newEvents new
      rw [(of_liveDiffEvent made).1] at own
      cases own
      cases sync.found.symm.trans found'
      exact Or.inl ⟨path, before, made, finished⟩
    · rw [finishEvent_of_synced (sync.journaled.synced before old own late)] at finished
      exact Or.inr (finished ▸ old)
  constructor
  · intro event inside own late
    rcases cases event inside own late with ⟨path, new, made, rfl⟩ | old
    · rw [isPendingTrigger_finishEvent]
      exact (kind_new (mem_newEvents sync made)).1
    · exact sync.journaled.trigger event old own late
  · intro event inside own late
    rcases cases event inside own late with ⟨path, new, made, rfl⟩ | old
    · rw [(of_liveDiffEvent made).1, finishEvent_liveDiff sync.current sync.found]
      rfl
    · exact sync.journaled.synced event old own late
  · intro event inside own late path at_
    rcases cases event inside own late with ⟨path', new, made, rfl⟩ | old
    · rw [sameEvent_finishEvent.path, (of_liveDiffEvent made).1] at at_
      cases at_
      exact knows_of_diffKind sync.looks (of_liveDiffEvent made).2
    · rw [knows_markTracked sync.looks, sync.journaled.known event old own late path at_,
        Bool.true_or]
  · intro event inside own late finish finishes ends
    rw [journal_sync sync.current] at finishes
    obtain ⟨ended, listed, rfl⟩ := List.mem_map.mp (mem_of_mem_compacted finishes)
    rw [isSnapshotFinish_finishEvent] at ends
    rw [sameEvent_finishEvent.observedAt]
    rcases List.mem_append.mp listed with new | earlier
    · simp [(kind_new new).2] at ends
    · rcases cases event inside own late with ⟨path, new, made, rfl⟩ | old
      · rw [sameEvent_finishEvent.observedAt]
        exact (observedAt_new sync.timely (mem_newEvents sync made) earlier).le
      · exact sync.journaled.finished event old own late ended earlier ends

end Sync

def JournalRoot.trackedContent (store : LiveStore) (files : FileMap) (root : JournalRoot)
    (path : String) : Option Content :=
  if root.knows files path then (get root.live path).bind (LiveFile.content store) else none

def JournalHost.content (store : LiveStore) (host : JournalHost) (snapshot : CurrentSnapshot)
    (id path : String) : Option Content :=
  (get host.roots id).bind (fun root => root.trackedContent store (snapshot.rootFileMap id) path)

/-- A sync writes down what a path holds: it differs from the snapshot, no event since the
snapshot seems to say the same, and it is no directory. -/
def JournalHost.notices (store : LiveStore) (host : JournalHost) (snapshot : CurrentSnapshot)
    (id path : String) : Bool :=
  (get host.roots id).any fun root => (host.diffKind store snapshot id root path).isSome &&
    !host.covered store snapshot id root path && !root.isDirectory path

/-- The journal over the snapshot is the live root. -/
def JournalHost.Reproduces (store : LiveStore) (host : JournalHost) (snapshot : CurrentSnapshot)
    (id : String) (base : List FileRecord) : Prop :=
  ∀ window, Latest window snapshot id host.journal → ∀ path,
    window.planContent host.journal base id path = host.content store snapshot id path

/-- A host with an active root whose journal is in order. -/
structure Watched (host : JournalHost) (snapshot : CurrentSnapshot) (id : String) : Prop where
  current : host.current = some snapshot
  root : ∃ root, get host.roots id = some root ∧ root.active ∧ Journaled host snapshot id root

/-- A sync that looks at the root and whose clock is ahead. -/
structure Allowed (snapshot : CurrentSnapshot) (id : String) (host : JournalHost)
    (step : LiveEdit × SyncInputs) : Prop where
  selects : step.2.selects id
  timely : host.Timely snapshot step.2

/-- The edit is noticed, or it leaves what its path holds. -/
def Noticed (store : LiveStore) (snapshot : CurrentSnapshot) (id : String) (host : JournalHost)
    (step : LiveEdit × SyncInputs) : Prop :=
  step.1.rootId = id → (host.edit step.1).notices store snapshot id step.1.path ∨
    (host.edit step.1).content store snapshot id step.1.path =
      host.content store snapshot id step.1.path

section Edits

variable {store : LiveStore} {host : JournalHost} {snapshot : CurrentSnapshot} {id path : String}
  {root : JournalRoot} {inputs : SyncInputs} {edit : LiveEdit} {base : List FileRecord}
  {step : LiveEdit × SyncInputs}

theorem get_live_edit (file : Option LiveFile) (other : String) :
    get (root.edit path file).live other = if path = other then file else get root.live other := by
  cases file with
  | none => exact get_erase path root.live other
  | some file => exact get_insert path file root.live other

theorem knows_edit (files : FileMap) (file : Option LiveFile) (other : String) :
    (root.edit path file).knows files other = root.knows files other := by
  cases file with
  | none => rfl
  | some file => rfl

theorem active_edit (file : Option LiveFile) : (root.edit path file).active = root.active := by
  cases file with
  | none => rfl
  | some file => rfl

def editedRoot (id : String) (root : JournalRoot) (edit : LiveEdit) : JournalRoot :=
  if id = edit.rootId then root.edit edit.path edit.file else root

theorem root_edit (edit : LiveEdit) (found : get host.roots id = some root) :
    get (host.edit edit).roots id = some (editedRoot id root edit) := by
  refine (get_mapWithKey (fun id root => editedRoot id root edit) host.roots id).trans ?_
  rw [found, Option.map_some]

theorem knows_editedRoot (files : FileMap) (other : String) :
    (editedRoot id root edit).knows files other = root.knows files other := by
  unfold editedRoot
  split
  · exact knows_edit files _ other
  · rfl

theorem active_editedRoot : (editedRoot id root edit).active = root.active := by
  unfold editedRoot
  split
  · exact active_edit _
  · rfl

theorem journaled_edit (edit : LiveEdit) (journaled : Journaled host snapshot id root) :
    Journaled (host.edit edit) snapshot id (editedRoot id root edit) where
  trigger := journaled.trigger
  synced := journaled.synced
  known := by
    intro event inside own late path at_
    rw [knows_editedRoot]
    exact journaled.known event inside own late path at_
  finished := journaled.finished

theorem Watched.syncing (watched : Watched host snapshot id)
    (allowed : Allowed snapshot id host step) : ∃ root, get host.roots id = some root ∧
      root.active ∧ Syncing (host.edit step.1) snapshot id (editedRoot id root step.1) step.2 := by
  obtain ⟨current, root, found, active, journaled⟩ := watched
  refine ⟨root, found, active, current, root_edit step.1 found, ?_, journaled_edit step.1 journaled,
    allowed.timely⟩
  rw [SyncInputs.looksAt, active_editedRoot, active, allowed.selects]
  rfl

theorem watched_editAndSync (allowed : Allowed snapshot id host step)
    (watched : Watched host snapshot id) :
    Watched (host.editAndSync store step) snapshot id := by
  obtain ⟨root, -, active, sync⟩ := watched.syncing allowed
  refine ⟨current_sync.trans watched.current, _, root_sync sync.current sync.found, ?_,
    journaled_sync sync⟩
  unfold JournalHost.markTracked
  split
  · exact active_editedRoot.trans active
  · exact active_editedRoot.trans active

theorem exists_latest (snapshot : CurrentSnapshot) (id : String) (journal : List JournalEvent) :
    ∃ window, Latest window snapshot id journal := by
  obtain ⟨upTo, bound⟩ : ∃ upTo, ∀ event ∈ journal, event.observedAt ≤ upTo := by
    induction journal with
    | nil => exact ⟨0, by simp⟩
    | cons event journal ih =>
      obtain ⟨upTo, bound⟩ := ih
      refine ⟨max event.observedAt upTo, ?_⟩
      intro other inside
      rcases List.mem_cons.mp inside with rfl | later
      · exact le_max_left _ _
      · exact (bound other later).trans (le_max_right _ _)
  exact ⟨⟨snapshot.timestamp, upTo, fun _ => true, fun _ => true⟩, rfl, rfl, fun _ => rfl,
    fun event inside _ _ => bound event inside⟩

theorem latest_of_sync {window : JournalWindow} (sync : Syncing host snapshot id root inputs)
    (latest : Latest window snapshot id (host.sync store inputs).journal) :
    Latest window snapshot id host.journal := by
  refine ⟨latest.after, latest.root, latest.paths, ?_⟩
  intro event inside own late
  refine latest.upTo event ?_ own late
  refine (mem_sync_iff sync (since_iff.mpr ⟨own, late⟩)).mpr
    ⟨event, List.mem_append_right _ inside, ?_⟩
  exact finishEvent_of_synced (sync.journaled.synced event inside own late)

theorem notices_eq (found : get host.roots id = some root) :
    host.notices store snapshot id path =
      ((host.liveDiffEvent store snapshot inputs id root path).isSome && !root.isDirectory path) := by
  rw [JournalHost.notices, found, Option.any_some, JournalHost.liveDiffEvent]
  cases (host.diffKind store snapshot id root path).isSome && !host.covered store snapshot id root path
  · rfl
  · rfl

theorem notices_of_unknown (found : get host.roots id = some root)
    (journaled : Journaled host snapshot id root)
    (unknown : root.knows (snapshot.rootFileMap id) path = false)
    (scanned : (get (host.liveFiles store snapshot id root) path).isSome) :
    host.notices store snapshot id path = true := by
  have new : get (snapshot.rootFileMap id) path = none := by
    simp only [JournalRoot.knows, Bool.or_eq_false_iff] at unknown
    simpa using unknown.2
  have uncovered : host.covered store snapshot id root path = false := by
    rw [← Bool.not_eq_true]
    intro covered
    obtain ⟨event, inside, -⟩ := List.any_eq_true.mp covered
    obtain ⟨inside, about⟩ := List.mem_filter.mp inside
    simp only [Bool.and_eq_true, decide_eq_true_eq] at about
    have known := journaled.known event inside about.1.1 about.2 path about.1.2
    simp [unknown] at known
  have file : root.isDirectory path = false := by
    rw [get_liveFiles] at scanned
    unfold JournalRoot.isDirectory
    cases live : get root.live path with
    | none => rfl
    | some file =>
      rw [Option.any_some, decide_eq_false_iff_not]
      intro directory
      simp [live, JournalRoot.scanRecord, directory] at scanned
  rw [JournalHost.notices, found, Option.any_some, diffKind_create new scanned, uncovered, file]
  rfl

theorem content_sync (sync : Syncing host snapshot id root inputs)
    (unnoticed : host.notices store snapshot id path = false) :
    (host.sync store inputs).content store snapshot id path =
      host.content store snapshot id path := by
  rw [JournalHost.content, root_sync sync.current sync.found, JournalHost.content, sync.found,
    Option.bind_some, Option.bind_some, JournalRoot.trackedContent, JournalRoot.trackedContent,
    knows_markTracked sync.looks, live_markTracked]
  cases known : root.knows (snapshot.rootFileMap id) path with
  | true => simp
  | false =>
    cases scanned : (get (host.liveFiles store snapshot id root) path).isSome with
    | false => simp
    | true => simp [notices_of_unknown sync.found sync.journaled known scanned] at unnoticed

theorem content_sync_of_notices (sync : Syncing host snapshot id root inputs)
    (noticed : host.notices store snapshot id path = true) :
    (host.sync store inputs).content store snapshot id path =
      (get root.live path).bind (LiveFile.content store) := by
  rw [JournalHost.notices, sync.found, Option.any_some, Bool.and_eq_true, Bool.and_eq_true]
    at noticed
  rw [JournalHost.content, root_sync sync.current sync.found, Option.bind_some,
    JournalRoot.trackedContent, knows_of_diffKind sync.looks noticed.1.1, live_markTracked]
  rfl

theorem content_edit_of_ne (found : get host.roots id = some root)
    (other : edit.rootId = id → edit.path ≠ path) :
    (host.edit edit).content store snapshot id path = host.content store snapshot id path := by
  have live : get (editedRoot id root edit).live path = get root.live path := by
    unfold editedRoot
    split
    · rename_i same
      rw [get_live_edit, if_neg (other same.symm)]
    · rfl
  rw [JournalHost.content, root_edit edit found, JournalHost.content, found, Option.bind_some,
    Option.bind_some, JournalRoot.trackedContent, JournalRoot.trackedContent, knows_editedRoot, live]

/-- An edit and its sync keep the journal equal to the live root exactly if the edit is
noticed. -/
theorem reproduces_step (allowed : Allowed snapshot id host step)
    (watched : Watched host snapshot id) (reproduces : host.Reproduces store snapshot id base) :
    (host.editAndSync store step).Reproduces store snapshot id base ↔
      Noticed store snapshot id host step := by
  obtain ⟨root, found, -, sync⟩ := watched.syncing allowed
  have restored : ∀ window path, Latest window snapshot id (host.editAndSync store step).journal →
      window.planContent (host.editAndSync store step).journal base id path =
        if (host.edit step.1).notices store snapshot id path then
          (host.editAndSync store step).content store snapshot id path
        else host.content store snapshot id path := by
    intro window path latest
    have before : Latest window snapshot id (host.edit step.1).journal :=
      latest_of_sync sync latest
    have planned := planContent_sync sync latest base path
    rw [← notices_eq sync.found] at planned
    refine planned.trans ?_
    cases noticed : (host.edit step.1).notices store snapshot id path with
    | true => exact (content_sync_of_notices sync noticed).symm
    | false => exact reproduces window before path
  constructor
  · intro after edited
    by_cases noticed : (host.edit step.1).notices store snapshot id step.1.path
    · exact Or.inl noticed
    · obtain ⟨window, latest⟩ := exists_latest snapshot id (host.editAndSync store step).journal
      have same := restored window step.1.path latest
      rw [if_neg noticed, after window latest] at same
      exact Or.inr ((content_sync sync (Bool.eq_false_iff.mpr noticed)).symm.trans same)
  · intro seen window latest path
    rw [restored window path latest]
    split
    · rfl
    · rename_i unnoticed
      have kept := content_sync sync (Bool.eq_false_iff.mpr unnoticed)
      by_cases here : step.1.rootId = id ∧ step.1.path = path
      · obtain ⟨edited, rfl⟩ := here
        rcases seen edited with noticed | same
        · exact absurd noticed unnoticed
        · exact (kept.trans same).symm
      · rw [content_edit_of_ne found (fun edited same => here ⟨edited, same⟩)] at kept
        exact kept.symm

end Edits

/-- The records of a root in a list are what its tracked paths hold. -/
def JournalHost.AreLive (store : LiveStore) (host : JournalHost) (snapshot : CurrentSnapshot)
    (id : String) (files : List FileRecord) : Prop :=
  ∀ path content, (∃ record ∈ files, record.rootId = id ∧ record.path = path ∧
    record.payload.content = some content) ↔ host.content store snapshot id path = some content

/-- Every restore of the latest state brings back the live root. -/
def JournalHost.RestoresLive (store : LiveStore) (host : JournalHost)
    (snapshot : CurrentSnapshot) (id : String) (base : List FileRecord) : Prop :=
  ∀ window, Latest window snapshot id host.journal →
    host.AreLive store snapshot id (window.overlay host.journal base)

structure LatestPlan (host : JournalHost) (snapshot : CurrentSnapshot) (id : String)
    (base : List FileRecord) (clock : PlanClock) (source : RestoreSource) (args : RestoreArgs)
    (plan : RestorePlan) : Prop where
  noSnapshot : args.snapshot = none
  noTime : args.atTime = none
  root : takesRoot args.root id
  noPath : args.path = none
  journal : source.journal = host.journal
  header : ∃ header, source.loadSnapshotHeader clock.selecting args = .ok header ∧
    header.timestamp = snapshot.timestamp ∧
    source.snapshotFiles args header.toSnapshotManifest = .ok base
  now : ∀ event ∈ host.journal, event.observedAt ≤ clock.overlaying
  built : buildRestorePlan clock source args = .ok plan

section Plans

variable {store : LiveStore} {host : JournalHost} {snapshot : CurrentSnapshot} {id : String}
  {base : List FileRecord}

theorem planContent_eq_some {window : JournalWindow} {journal : List JournalEvent} {path : String}
    {content : Content} :
    window.planContent journal base id path = some content ↔
      ∃ record ∈ window.overlay journal base, record.rootId = id ∧ record.path = path ∧
        record.payload.content = some content := by
  have key_iff : ∀ record : FileRecord, recordKey record = toLex (id, path) ↔
      record.rootId = id ∧ record.path = path := by
    intro record
    simp [recordKey]
  rw [JournalWindow.planContent, Option.bind_eq_some_iff]
  constructor
  · rintro ⟨record, found, holds⟩
    have own : recordKey record = toLex (id, path) := by
      have keyed : Keyed ((eventJournalRecords journal).foldl window.overlayEvent (recordMap base)) :=
        (keyed_recordMap base).foldl_overlayEvent _
      rw [← get_overlay, keyed.sorted.get_eq_some] at found
      exact keyed.keys _ found
    refine ⟨record, JournalWindow.mem_overlay.mpr (own ▸ found), ?_, ?_, holds⟩
    · exact ((key_iff record).mp own).1
    · exact ((key_iff record).mp own).2
  · rintro ⟨record, inside, root, path', holds⟩
    have own := (key_iff record).mpr ⟨root, path'⟩
    exact ⟨record, own ▸ JournalWindow.mem_overlay.mp inside, holds⟩

theorem restoresLive_iff : host.RestoresLive store snapshot id base ↔
    host.Reproduces store snapshot id base := by
  refine forall_congr' fun window => forall_congr' fun latest => forall_congr' fun path => ?_
  rw [Option.ext_iff]
  refine forall_congr' fun content => ?_
  rw [← planContent_eq_some]

theorem LatestPlan.areLive {clock : PlanClock} {source : RestoreSource} {args : RestoreArgs}
    {plan : RestorePlan} (latest : LatestPlan host snapshot id base clock source args plan)
    (restores : host.RestoresLive store snapshot id base) :
    host.AreLive store snapshot id plan.files := by
  obtain ⟨noSnapshot, noTime, root, noPath, journal, ⟨header, chosen, time, collected⟩, now, built⟩ :=
    latest
  obtain ⟨-, header', base', files, chosen', collected', overlaid, planned⟩ :=
    buildRestorePlan_ok.mp built
  cases chosen.symm.trans chosen'
  cases collected.symm.trans collected'
  have read : overlayUpTo clock.overlaying args = .ok clock.overlaying := by
    rw [overlayUpTo, noTime]
  rw [overlayDurableJournalRecords, noSnapshot, read, journal] at overlaid
  cases overlaid
  rw [(planOf_ok planned).2.1]
  refine restores _ ⟨time, root, ?_, fun event inside _ _ => now event inside⟩
  intro path
  rw [journalWindow, noPath]
  rfl

end Plans

/-- A run of edits, each with a sync after it. After every sync the plans of the latest state
are the live root exactly if each edit that changes what its path holds is noticed: the
scanned record differs from that of the snapshot, and no event since the snapshot says the
same. -/
theorem editAndSync_restoresLive_iff {store : LiveStore} {host : JournalHost}
    {snapshot : CurrentSnapshot} {id : String} {base : List FileRecord}
    {steps : List (LiveEdit × SyncInputs)} (watched : Watched host snapshot id)
    (start : host.RestoresLive store snapshot id base)
    (allowed : ∀ pair ∈ Machine.visited (JournalHost.editAndSync store) host steps,
      Allowed snapshot id pair.1 pair.2) :
    ((∀ pair ∈ Machine.visited (JournalHost.editAndSync store) host steps,
        (pair.1.editAndSync store pair.2).RestoresLive store snapshot id base) ↔
      ∀ pair ∈ Machine.visited (JournalHost.editAndSync store) host steps,
        Noticed store snapshot id pair.1 pair.2) ∧
    ((∀ pair ∈ Machine.visited (JournalHost.editAndSync store) host steps,
        Noticed store snapshot id pair.1 pair.2) →
      ∀ pair ∈ Machine.visited (JournalHost.editAndSync store) host steps,
        ∀ clock source args plan,
          LatestPlan (pair.1.editAndSync store pair.2) snapshot id base clock source args plan →
          (pair.1.editAndSync store pair.2).AreLive store snapshot id plan.files) := by
  have keeps : ∀ {host : JournalHost} {step : LiveEdit × SyncInputs}, Allowed snapshot id host step →
      Watched host snapshot id → Watched (host.editAndSync store step) snapshot id :=
    watched_editAndSync
  have single : ∀ {host : JournalHost} {step : LiveEdit × SyncInputs},
      Allowed snapshot id host step → Watched host snapshot id →
      host.RestoresLive store snapshot id base →
      ((host.editAndSync store step).RestoresLive store snapshot id base ↔
        Noticed store snapshot id host step) := by
    intro host step allowed watched restores
    rw [restoresLive_iff]
    exact reproduces_step allowed watched (restoresLive_iff.mp restores)
  have run := Machine.visited_iff keeps single allowed watched start
  refine ⟨run, ?_⟩
  intro noticed pair inside clock source args plan latest
  exact latest.areLive (run.mpr noticed pair inside)

namespace EditedNotes

/-- The bytes of a file are its name. -/
def store : LiveStore where
  blake3Hex := fun bytes => String.ofList (bytes.map (fun byte => Char.ofNat byte.toNat))
  objectKey := fun oid => "objects/" ++ oid
  storeLargeFile := fun path _ => (path, 1)

def file (byte : UInt8) (modified : Int) : LiveFile :=
  ⟨.file [byte], 0o644, some modified, none, none, []⟩

def record : FileRecord :=
  ⟨"notes", "a", "file", 1, 0o644, some 1, none, none, [], .normalBlob "A" "objects/A"⟩

def snapshot : CurrentSnapshot := ⟨10, fun id => if id = "notes" then nonDirectories [record] else []⟩

def root : JournalRoot where
  active := true
  managed := fun _ => true
  classifyLarge := fun _ _ => false
  chunked := fun _ => false
  tracked := []
  live := [("a", file 65 1)]
  sorted := List.pairwise_singleton _ _

/-- A file that is as the snapshot has it. -/
def host : JournalHost where
  hostId := "host"
  maxAutoTrackNewFiles := 100
  trustsFinish := true
  current := some snapshot
  roots := [("notes", root)]
  rootsSorted := List.pairwise_singleton _ _
  journal := []

def change (byte : UInt8) (time : Int) : LiveEdit × SyncInputs :=
  (⟨"notes", "a", some (file byte time)⟩,
    ⟨fun _ _ => toString time, fun _ _ => time, time, fun _ => true, false⟩)

def window : JournalWindow := ⟨10, 100, fun _ => true, fun _ => true⟩

/-- What a restore of the latest state brings back after a run, and what the live root holds. -/
def outcome (steps : List (LiveEdit × SyncInputs)) : List Payload × Option Content :=
  let last := steps.foldl (JournalHost.editAndSync store) host
  ((window.overlay last.journal [record]).map FileRecord.payload,
    last.content store snapshot "notes" "a")

theorem watched : Watched host snapshot "notes" :=
  ⟨rfl, root, rfl, rfl, journaled_of_nil rfl⟩

theorem start : host.RestoresLive store snapshot "notes" [record] := by
  rw [restoresLive_iff]
  intro window latest path
  by_cases here : path = "a"
  · subst here
    rfl
  · have planned : get (recordMap [record]) (toLex ("notes", path)) = none := by
      change get [(toLex ("notes", "a"), record)] (toLex ("notes", path)) = none
      rw [get_cons, if_neg (by simpa [eq_comm] using here), get_nil]
    have live : get root.live path = none := by
      change get [("a", file 65 1)] path = none
      rw [get_cons, if_neg (by simpa [eq_comm] using here), get_nil]
    change (get (recordMap [record]) (toLex ("notes", path))).bind _ =
      root.trackedContent store (snapshot.rootFileMap "notes") path
    rw [planned, JournalRoot.trackedContent, live]
    simp

theorem allowed_change {host : JournalHost} {byte : UInt8} {time : Int} (late : 10 < time)
    (ahead : ∀ event ∈ host.journal, event.observedAt < time) :
    Allowed snapshot "notes" host (change byte time) :=
  ⟨rfl, fun _ _ => ⟨late, ahead⟩⟩

end EditedNotes

open EditedNotes in
/-- Two new contents, one after the other. -/
theorem editAndSync_restoresLive_twice :
    (host.editAndSync store (change 66 20)).RestoresLive store snapshot "notes" [record] ∧
    ((host.editAndSync store (change 66 20)).editAndSync store (change 67 30)).RestoresLive store
      snapshot "notes" [record] := by
  have allowed : ∀ pair ∈ Machine.visited (JournalHost.editAndSync store) host
      [change 66 20, change 67 30], Allowed snapshot "notes" pair.1 pair.2 := by
    intro pair inside
    simp only [Machine.visited, List.mem_cons, List.not_mem_nil, or_false] at inside
    rcases inside with rfl | rfl
    · exact allowed_change (by decide) (by simp [host])
    · exact allowed_change (by decide) (by decide +kernel)
  have restores := (editAndSync_restoresLive_iff watched start allowed).1.mpr (by
    intro pair inside edited
    simp only [Machine.visited, List.mem_cons, List.not_mem_nil, or_false] at inside
    rcases inside with rfl | rfl
    · exact Or.inl (by decide +kernel)
    · exact Or.inl (by decide +kernel))
  exact ⟨restores (host, change 66 20) (by simp [Machine.visited]),
    restores (host.editAndSync store (change 66 20), change 67 30) (by simp [Machine.visited])⟩

open EditedNotes in
/-- The file comes back to its second content, and the restore still has the third. -/
theorem editAndSync_misses_return :
    outcome [change 66 20, change 67 30, change 66 40] =
      ([.normalBlob "C" "objects/C"], some (.file "B")) := by
  decide +kernel

end Majutsu.Repo
