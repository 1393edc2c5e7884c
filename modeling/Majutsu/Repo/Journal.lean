import Majutsu.Lib.SortedMap
import Majutsu.Repo.Repository

/-!
# The event journal

Changes of files that were seen before the next snapshot. An event is written without
a payload first. The sync stores the content of the file, fills in the durable fields
and uploads the event, and notes when the remote has it. A restore puts the durable
events over the files of its snapshot.
-/

namespace Majutsu.Repo

open SortedMap

/-- Times are nanoseconds since the epoch. -/
def seconds (time : Int) : Int := time / 1000000000

structure JournalEvent extends EventJournalRecord where
  eventId : String
  kind : String
  observedAt : Int
  rootId : Option String
  path : Option String
  remoteJournalKey : Option String
  remoteJournalSyncedAt : Option Int
  durableTombstone : Option Bool
  durableEntryKind : Option String
  durablePayloadSize : Option Nat
  durableSymlinkTarget : Option String
  durableSpecialKind : Option String
  durableMode : Option Nat
  durableModified : Option Int
  durableUid : Option Nat
  durableGid : Option Nat
  deriving DecidableEq

namespace JournalEvent

variable (event : JournalEvent)

def isSnapshotFinish : Bool := event.kind = "snapshot-finish"

def isPendingTrigger : Bool := event.kind ∈ ["fs-event", "periodic-rescan"]

def isRemoteJournalPending : Bool := event.isPendingTrigger && event.remoteJournalSyncedAt.isNone

def new (eventId kind : String) (observedAt : Int) : JournalEvent :=
  { durablePayloadOid := none, durablePayloadKey := none, durableLargeManifestKey := none,
    durableLargeChunkCount := none, eventId, kind, observedAt, rootId := none, path := none,
    remoteJournalKey := none, remoteJournalSyncedAt := none, durableTombstone := none,
    durableEntryKind := none, durablePayloadSize := none, durableSymlinkTarget := none,
    durableSpecialKind := none, durableMode := none, durableModified := none, durableUid := none,
    durableGid := none }

def newFileEvent (eventId : String) (observedAt : Int) (rootId path : String) : JournalEvent :=
  { new eventId "fs-event" observedAt with rootId := some rootId, path := some path }

/-- The record that a restore makes of a durable event. -/
def record (rootId path kind : String) (size : Nat) (payload : Payload) : FileRecord :=
  { rootId, path, kind, size, mode := event.durableMode.getD 0,
    modified := event.durableModified.or (some (seconds event.observedAt)),
    uid := event.durableUid, gid := event.durableGid, xattrs := [], payload }

/-- What a durable event does to its path: nothing, a removal, or a record. -/
def effect (rootId path : String) : Option (Option FileRecord) :=
  if event.durableTombstone = some true then some none
  else if event.durableEntryKind = some "symlink" then
    event.durableSymlinkTarget.map fun target =>
      some (event.record rootId path "symlink" 0 (.symlink target))
  else if event.durableEntryKind = some "special" then
    event.durableSpecialKind.map fun kind =>
      some (event.record rootId path "special" 0 (.special kind))
  else
    event.payload.map fun payload =>
      some (event.record rootId path "file" (event.durablePayloadSize.getD 0) payload)

end JournalEvent

/-- `event_journal_records`: the files of the journal in the order of their times. -/
def eventJournalRecords (journal : List JournalEvent) : List JournalEvent :=
  journal.insertionSort (fun a b => a.observedAt ≤ b.observedAt)

instance : IsTrans JournalEvent (fun a b => a.observedAt ≤ b.observedAt) :=
  ⟨fun _ _ _ first second => Int.le_trans first second⟩

instance : Std.Total (fun a b : JournalEvent => a.observedAt ≤ b.observedAt) :=
  ⟨fun a b => Int.le_total a.observedAt b.observedAt⟩

variable {journal : List JournalEvent}

theorem mem_eventJournalRecords {event : JournalEvent} :
    event ∈ eventJournalRecords journal ↔ event ∈ journal :=
  List.mem_insertionSort _

theorem eventJournalRecords_filter (keep : JournalEvent → Bool) (journal : List JournalEvent) :
    (eventJournalRecords journal).filter keep = eventJournalRecords (journal.filter keep) :=
  Sorting.filter_insertionSort keep journal

theorem eventJournalRecords_append {later : List JournalEvent}
    (last : ∀ event ∈ later, ∀ other ∈ journal, other.observedAt < event.observedAt) :
    eventJournalRecords (later ++ journal) =
      eventJournalRecords journal ++ eventJournalRecords later :=
  Sorting.insertionSort_append_of_last fun event inside other member =>
    not_le.mpr (last event inside other member)

theorem eventJournalRecords_cons {event : JournalEvent}
    (last : ∀ other ∈ journal, other.observedAt < event.observedAt) :
    eventJournalRecords (event :: journal) = eventJournalRecords journal ++ [event] := by
  rw [← List.singleton_append, eventJournalRecords_append]
  · rfl
  · intro only inside
    rw [List.mem_singleton.mp inside]
    exact last

theorem eventJournalRecords_map {f : JournalEvent → JournalEvent}
    (times : ∀ event, (f event).observedAt = event.observedAt) :
    eventJournalRecords (journal.map f) = (eventJournalRecords journal).map f := by
  refine (List.map_insertionSort _ _ f journal ?_).symm
  intro a _ b _
  rw [times, times]

def hasPendingJournalEvents (records : List JournalEvent) : Bool :=
  let lastSnapshotFinish := ((records.filter JournalEvent.isSnapshotFinish).map
    JournalEvent.observedAt).max?
  records.any fun event => event.isPendingTrigger &&
    match lastSnapshotFinish with
    | some finishedAt => event.observedAt > finishedAt
    | none => true

abbrev PathKey := String ×ₗ String

abbrev RecordMap := List (PathKey × FileRecord)

def recordKey (record : FileRecord) : PathKey := toLex (record.rootId, record.path)

def recordMap (files : List FileRecord) : RecordMap :=
  files.foldl (fun byPath record => insert (recordKey record) record byPath) []

/-- Which events a restore takes: those of a stretch of time, within its filters. -/
structure JournalWindow where
  after : Int
  upTo : Int
  takesRoot : String → Bool
  takesPath : String → Bool

/-- The path that a restore looks at for an event. -/
def JournalWindow.target (window : JournalWindow) (event : JournalEvent) :
    Option (String × String) :=
  if event.remoteJournalSyncedAt.isNone then none
  else if event.observedAt ≤ window.after ∨ window.upTo < event.observedAt then none
  else
    match event.rootId, event.path with
    | some rootId, some path =>
      if window.takesRoot rootId && window.takesPath path then some (rootId, path) else none
    | _, _ => none

def JournalWindow.overlayEvent (window : JournalWindow) (byPath : RecordMap)
    (event : JournalEvent) : RecordMap :=
  match window.target event with
  | none => byPath
  | some (rootId, path) =>
    match event.effect rootId path with
    | none => byPath
    | some none => erase (toLex (rootId, path)) byPath
    | some (some record) => insert (toLex (rootId, path)) record byPath

/-- The loop of `overlay_durable_journal_records`. -/
def JournalWindow.overlay (window : JournalWindow) (journal : List JournalEvent)
    (files : List FileRecord) : List FileRecord :=
  values ((eventJournalRecords journal).foldl window.overlayEvent (recordMap files))

section Overlay

variable {window other : JournalWindow}

variable {event : JournalEvent} {journal : List JournalEvent} {key : PathKey} {record : FileRecord}
  {byPath : RecordMap}

theorem JournalWindow.overlayEvent_of_target (byPath : RecordMap)
    (skipped : window.target event = none) : window.overlayEvent byPath event = byPath := by
  rw [overlayEvent, skipped]

theorem JournalWindow.overlay_eq (journal : List JournalEvent) (files : List FileRecord) :
    window.overlay journal files =
      values ((eventJournalRecords (journal.filter (fun event => (window.target event).isSome))).foldl
        window.overlayEvent (recordMap files)) := by
  rw [← eventJournalRecords_filter, List.foldl_filter, overlay]
  congr 2
  funext byPath event
  cases taken : window.target event with
  | none => rw [overlayEvent_of_target byPath taken]; simp
  | some => simp

theorem JournalWindow.overlay_congr {time : Int}
    (past : ∀ event key, window.target event = some key → event.observedAt ≤ time)
    {journal' : List JournalEvent} (same : journal'.filter (fun event => event.observedAt ≤ time) =
      journal.filter (fun event => event.observedAt ≤ time)) (files : List FileRecord) :
    window.overlay journal' files = window.overlay journal files := by
  have early : ∀ list : List JournalEvent,
      list.filter (fun event => (window.target event).isSome) =
        (list.filter (fun event => event.observedAt ≤ time)).filter
          (fun event => (window.target event).isSome) := by
    intro list
    rw [List.filter_filter]
    apply List.filter_congr
    intro event _
    cases taken : window.target event with
    | none => simp
    | some key => simp [past event key taken]
  rw [overlay_eq, overlay_eq, early journal', early journal, same]

theorem JournalWindow.overlay_of_target (same : ∀ event, window.target event = other.target event)
    (journal : List JournalEvent) (files : List FileRecord) :
    window.overlay journal files = other.overlay journal files := by
  have step : window.overlayEvent = other.overlayEvent := by
    funext byPath event
    rw [overlayEvent, overlayEvent, same]
  rw [overlay, overlay, step]

theorem JournalWindow.target_times {key : String × String}
    (taken : window.target event = some key) :
    window.after < event.observedAt ∧ event.observedAt ≤ window.upTo := by
  unfold target at taken
  split at taken
  · cases taken
  · split at taken
    · cases taken
    · rename_i inside
      omega

theorem JournalWindow.target_eq {rootId path : String} (synced : event.remoteJournalSyncedAt.isSome)
    (after : window.after < event.observedAt) (before : event.observedAt ≤ window.upTo)
    (inRoot : event.rootId = some rootId) (atPath : event.path = some path)
    (takes : window.takesRoot rootId ∧ window.takesPath path) :
    window.target event = some (rootId, path) := by
  have inside : ¬ (event.observedAt ≤ window.after ∨ window.upTo < event.observedAt) := by omega
  rw [target, if_neg (by simpa [Option.isSome_iff_ne_none] using synced), if_neg inside, inRoot,
    atPath]
  simp [takes]

/-- What an event does to a path. -/
def JournalWindow.effectOn (window : JournalWindow) (key : PathKey) (event : JournalEvent) :
    Option (Option FileRecord) :=
  if (window.target event).map toLex = some key then
    event.effect (ofLex key).1 (ofLex key).2
  else none

def JournalWindow.lastEffect (window : JournalWindow) (journal : List JournalEvent)
    (key : PathKey) : Option (Option FileRecord) :=
  (eventJournalRecords journal).foldl (fun last event => (window.effectOn key event).or last) none

theorem JournalWindow.lastEffect_eq (journal : List JournalEvent) (key : PathKey) :
    window.lastEffect journal key =
      ((eventJournalRecords journal).filterMap (window.effectOn key)).getLast? := by
  rw [lastEffect]
  induction eventJournalRecords journal using List.reverseRecOn with
  | nil => rfl
  | append_singleton events event ih =>
    rw [List.foldl_append, List.foldl_cons, List.foldl_nil, ih, List.filterMap_append,
      List.getLast?_append, List.filterMap_cons, List.filterMap_nil]
    cases window.effectOn key event with
    | none => simp
    | some effect => simp

theorem JournalWindow.lastEffect_append {later : List JournalEvent}
    (last : ∀ event ∈ later, ∀ other ∈ journal, other.observedAt < event.observedAt)
    (key : PathKey) :
    window.lastEffect (later ++ journal) key =
      (window.lastEffect later key).or (window.lastEffect journal key) := by
  rw [lastEffect_eq, lastEffect_eq, lastEffect_eq, eventJournalRecords_append last,
    List.filterMap_append, List.getLast?_append]

theorem JournalWindow.lastEffect_filter {keep : JournalEvent → Bool}
    (kept : ∀ event ∈ journal, window.effectOn key event ≠ none → keep event) :
    window.lastEffect (journal.filter keep) key = window.lastEffect journal key := by
  rw [lastEffect_eq, lastEffect_eq, ← eventJournalRecords_filter, List.filterMap_filter]
  congr 1
  apply List.filterMap_congr
  intro event inside
  cases done : window.effectOn key event with
  | none => simp
  | some effect =>
    rw [if_pos (kept event (mem_eventJournalRecords.mp inside) (by simp [done]))]

theorem JournalWindow.lastEffect_map {f : JournalEvent → JournalEvent}
    (times : ∀ event, (f event).observedAt = event.observedAt)
    (same : ∀ event ∈ journal, window.effectOn key (f event) = window.effectOn key event) :
    window.lastEffect (journal.map f) key = window.lastEffect journal key := by
  rw [lastEffect_eq, lastEffect_eq, eventJournalRecords_map times, List.filterMap_map]
  congr 1
  apply List.filterMap_congr
  intro event inside
  exact same event (mem_eventJournalRecords.mp inside)

theorem JournalWindow.lastEffect_of_single {effect : Option (Option FileRecord)}
    (single : journal.filterMap (window.effectOn key) = effect.toList) :
    window.lastEffect journal key = effect := by
  have perm : ((eventJournalRecords journal).filterMap (window.effectOn key)).Perm effect.toList :=
    single ▸ (List.perm_insertionSort _ journal).filterMap _
  rw [lastEffect_eq]
  cases effect with
  | none => rw [List.perm_nil.mp perm]; rfl
  | some outcome => rw [List.perm_singleton.mp perm]; rfl

theorem JournalWindow.get_overlayEvent (byPath : RecordMap) (event : JournalEvent)
    (key : PathKey) :
    get (window.overlayEvent byPath event) key =
      (window.effectOn key event).getD (get byPath key) := by
  rw [overlayEvent, effectOn]
  cases taken : window.target event with
  | none => simp
  | some found =>
    obtain ⟨rootId, path⟩ := found
    by_cases here : toLex (rootId, path) = key
    · subst here
      simp only [Option.map_some, if_pos, ofLex_toLex]
      cases event.effect rootId path with
      | none => rfl
      | some outcome =>
        cases outcome with
        | none => simp only [get_erase, if_pos, Option.getD_some]
        | some record => simp only [get_insert, if_pos, Option.getD_some]
    · simp only [Option.map_some, Option.some.injEq, if_neg here, Option.getD_none]
      cases event.effect rootId path with
      | none => rfl
      | some outcome =>
        cases outcome with
        | none => simp only [get_erase, if_neg here]
        | some record => simp only [get_insert, if_neg here]

theorem JournalWindow.get_foldl_overlayEvent (events : List JournalEvent) (byPath : RecordMap)
    (key : PathKey) :
    get (events.foldl window.overlayEvent byPath) key =
      (events.foldl (fun last event => (window.effectOn key event).or last) none).getD
        (get byPath key) := by
  induction events using List.reverseRecOn with
  | nil => rfl
  | append_singleton events event ih =>
    simp only [List.foldl_append, List.foldl_cons, List.foldl_nil, get_overlayEvent, ih]
    cases window.effectOn key event with
    | none => simp
    | some outcome => simp

/-- A map whose records stand under their own keys. -/
structure Keyed (byPath : RecordMap) : Prop where
  sorted : Sorted byPath
  keys : ∀ entry ∈ byPath, recordKey entry.2 = entry.1

theorem Keyed.insert (keyed : Keyed byPath) (own : recordKey record = key) :
    Keyed (insert key record byPath) := by
  refine ⟨keyed.sorted.insert key record, ?_⟩
  intro entry inside
  rcases mem_insert inside with rfl | old
  · exact own
  · exact keyed.keys entry old

theorem Keyed.erase (keyed : Keyed byPath) (key : PathKey) : Keyed (erase key byPath) :=
  ⟨keyed.sorted.erase key, fun entry inside => keyed.keys entry (List.mem_of_mem_filter inside)⟩

theorem JournalEvent.recordKey_effect {rootId path : String}
    (h : event.effect rootId path = some (some record)) :
    recordKey record = toLex (rootId, path) := by
  unfold JournalEvent.effect at h
  split at h
  · cases h
  · split at h
    · obtain ⟨target, -, made⟩ := Option.map_eq_some_iff.mp h
      cases made
      rfl
    · split at h
      · obtain ⟨kind, -, made⟩ := Option.map_eq_some_iff.mp h
        cases made
        rfl
      · obtain ⟨payload, -, made⟩ := Option.map_eq_some_iff.mp h
        cases made
        rfl

theorem Keyed.overlayEvent (keyed : Keyed byPath) (event : JournalEvent) :
    Keyed (window.overlayEvent byPath event) := by
  unfold JournalWindow.overlayEvent
  split
  · exact keyed
  · split
    · exact keyed
    · exact keyed.erase _
    · rename_i made
      exact keyed.insert (JournalEvent.recordKey_effect made)

theorem Keyed.foldl_overlayEvent (keyed : Keyed byPath) (events : List JournalEvent) :
    Keyed (events.foldl window.overlayEvent byPath) := by
  induction events generalizing byPath with
  | nil => exact keyed
  | cons event events ih => exact ih (keyed.overlayEvent event)

theorem keyed_recordMap (files : List FileRecord) : Keyed (recordMap files) := by
  induction files using List.reverseRecOn with
  | nil => exact ⟨List.Pairwise.nil, List.forall_mem_nil _⟩
  | append_singleton files record ih =>
    rw [recordMap, List.foldl_append]
    exact ih.insert rfl

theorem Keyed.mem_values (keyed : Keyed byPath) :
    record ∈ values byPath ↔ get byPath (recordKey record) = some record := by
  rw [keyed.sorted.get_eq_some]
  constructor
  · intro inside
    obtain ⟨entry, member, rfl⟩ := List.mem_map.mp inside
    rw [keyed.keys entry member]
    exact member
  · intro member
    exact List.mem_map.mpr ⟨_, member, rfl⟩

theorem get_overlay (window : JournalWindow) (journal : List JournalEvent)
    (base : List FileRecord) (key : PathKey) :
    get ((eventJournalRecords journal).foldl window.overlayEvent (recordMap base)) key =
      (window.lastEffect journal key).getD (get (recordMap base) key) :=
  JournalWindow.get_foldl_overlayEvent _ _ key

theorem JournalWindow.mem_overlay {base : List FileRecord} :
    record ∈ window.overlay journal base ↔
      (window.lastEffect journal (recordKey record)).getD (get (recordMap base) (recordKey record)) =
        some record := by
  have keyed : Keyed ((eventJournalRecords journal).foldl window.overlayEvent (recordMap base)) :=
    (keyed_recordMap base).foldl_overlayEvent _
  rw [overlay, keyed.mem_values, get_overlay]

end Overlay

end Majutsu.Repo
