import Majutsu.Cluster.System

/-!
# Running the system on a script

The system leaves much open: the order of directory listings, the fates of file
operations, the scheduling of threads. A script fixes these choices, and the
simulator then computes the run, so that a particular schedule can be looked at.
-/

namespace Majutsu.Cluster

open Prog

/-- What the environment decides about one action. `order` is the order of directory listings. -/
structure Choice where
  order : List Key
  fates : List Critical.Fate

def dueEntries (catalog : Directory Key LocalGcItem) (now : Nat) (order : List Key) :
    List (Key × LocalGcItem) :=
  order.filterMap (fun key => ((catalog.lookup key).filter (fun item =>
    decide (item.deleteAfter ≤ now))).map (fun item => (key, item)))

def dueOrder (a b : Key × LocalGcItem) : Prop :=
  a.2.deleteAfter < b.2.deleteAfter ∨ (a.2.deleteAfter = b.2.deleteAfter ∧ a.1 < b.1)

instance : DecidableRel dueOrder := fun _ _ => inferInstanceAs (Decidable (_ ∨ _))

/-- One action in which the backend works. -/
def Action.perform (C : Config) (choice : Choice) :
    (a : Action) → Master → Option (a.Answer × Master)
  | locked S, s =>
    if choice.order.Nodup ∧ s.intents.keys ∪ s.store.files.keys ⊆ choice.order.toFinset then
      (answerOf (S.run C choice.order choice.fates s).outcome).map (fun answer =>
        (answer, (S.run C choice.order choice.fates s).state))
    else none
  | readQueue key, s => some (s.queueItem key, s)
  | tombstoneExists key, s => some ((s.localGc.lookup key).isSome, s)
  | readStore key, s => some (s.store.getOptional key, s)
  | storeHas key, s => some (s.store.has key, s)
  | listStore start, s => some (objectsUnder s.store.files start, s)
  | storeCommonPrefixes start, s => some (s.store.commonPrefixes start, s)
  | backendGet key, s => some (.ok (s.backend.lookup key), s)
  | backendHas key, s => some (.ok (s.backend.lookup key).isSome, s)
  | backendList start, s => some (.ok (objectsUnder s.backend start), s)
  | backendCommonPrefixes start, s => some (.ok (backendPrefixes s.backend start), s)
  | backendPut queued bytes, s =>
    some (.ok (), { s with backend := s.backend.insert queued.1 bytes })
  | backendPutIfAbsent queued bytes, s =>
    if (s.backend.lookup queued.1).isSome then some (.ok false, s)
    else some (.ok true, { s with backend := s.backend.insert queued.1 bytes })
  | backendDelete queued, s => some (.ok (), { s with backend := s.backend.erase queued.1 })
  | backendDeleteBatch items, s =>
    some (.answered (items.map (fun queued => (queued.1, none))),
      { s with backend := eraseAll s.backend (items.map Prod.fst) })
  | backendMaintenance, s => some (.ok true, s)
  | readQueueDir, s =>
    if choice.order.Nodup ∧ s.queue.keys ⊆ choice.order.toFinset then some (choice.order, s)
    else none
  | scanned _, s => some ((), s)
  | localGcCatalog, s => some (catalogAnswer (refreshCatalog C s none), refreshCatalog C s none)
  | localGcDue now, s =>
    match catalogAnswer (refreshCatalog C s none) with
    | .ok catalog =>
      if catalog.keys ⊆ choice.order.toFinset ∧
          (dueEntries catalog now choice.order).Pairwise dueOrder then
        some (.ok (dueEntries catalog now choice.order), refreshCatalog C s none)
      else none
    | .error e => some (.error e, refreshCatalog C s none)
  | utcNow, s => some (s.clock, s)
  | flushRequested, s => some (s.flushRequest, s)
  | removeFlushRequest, s => some (.ok (), { s with flushRequest := false })
  | batchDeleteEnabled, s => some (s.batchDeleteEnabled, s)
  | disableBatchDelete, s => some ((), { s with batchDeleteEnabled := false })
  | readListCache key, s => some (Cluster.readListCache C s key)
  | writeListCache key value, s => some ((), Cluster.writeListCache C s key value)
  | clearListCache, s => some ((), { s with listCache := fun _ => none })
  | updateListCacheAfterPuts items, s => some ((), Cluster.updateListCacheAfterPuts C s items)
  | writeMasterStatus, s => some (.ok (), s)

theorem dueEntries_mem {catalog : Directory Key LocalGcItem} {now : Nat} {order : List Key}
    (all : catalog.keys ⊆ order.toFinset) (entry : Key × LocalGcItem) :
    entry ∈ dueEntries catalog now order ↔
      catalog.lookup entry.1 = some entry.2 ∧ entry.2.deleteAfter ≤ now := by
  simp only [dueEntries, List.mem_filterMap, Option.map_eq_some_iff, Option.filter_eq_some_iff,
    decide_eq_true_eq]
  constructor
  · rintro ⟨key, -, item, ⟨found, due⟩, rfl⟩
    exact ⟨found, due⟩
  · rintro ⟨found, due⟩
    refine ⟨entry.1, List.mem_toFinset.mp (all ?_), entry.2, ⟨found, due⟩, rfl⟩
    exact Finmap.mem_keys.mpr (Finmap.mem_of_lookup_eq_some found)

theorem Action.perform_does {C : Config} {choice : Choice} {a : Action} {s s' : Master}
    {r : a.Answer} (h : a.perform C choice s = some (r, s')) : a.Does C s (some r) s' := by
  cases a with
  | locked S =>
    simp only [Action.perform] at h
    split at h
    · next covers =>
      obtain ⟨answer, ok, heq⟩ := Option.map_eq_some_iff.mp h
      cases heq
      refine ⟨choice.order, choice.fates, ⟨covers.1, fun key hk => ?_⟩, rfl, ok⟩
      refine List.mem_toFinset.mp (covers.2 (Finset.mem_union.mpr ?_))
      exact hk.imp Finmap.mem_keys.mpr Finmap.mem_keys.mpr
    · cases h
  | readQueueDir =>
    simp only [Action.perform] at h
    split at h
    · next covers =>
      cases h
      refine ⟨rfl, choice.order, rfl, covers.1, fun key hk => ?_⟩
      exact List.mem_toFinset.mp (covers.2 (Finmap.mem_keys.mpr hk))
    · cases h
  | localGcDue now =>
    simp only [Action.perform] at h
    refine ⟨none, ?_⟩
    split at h
    · next catalog found =>
      split at h
      · next complete =>
        cases h
        refine ⟨rfl, ?_⟩
        rw [found]
        exact ⟨_, ⟨complete.2, dueEntries_mem complete.1⟩, rfl⟩
      · cases h
    · next e found =>
      cases h
      refine ⟨rfl, ?_⟩
      rw [found]
  | backendPutIfAbsent queued bytes =>
    simp only [Action.perform] at h
    change PutIfAbsentCall s queued.1 bytes (some r) s'
    unfold PutIfAbsentCall
    split at h
    · next there =>
      cases h
      rw [if_pos there]
      exact ⟨rfl, Or.inl rfl⟩
    · next absent =>
      cases h
      rw [if_neg absent]
      exact Or.inl ⟨rfl, rfl⟩
  | backendDeleteBatch items =>
    cases h
    exact ⟨items.map Prod.fst, _, List.Subset.refl _, rfl, rfl⟩
  | localGcCatalog =>
    cases h
    exact ⟨none, rfl, rfl⟩
  | backendGet | backendHas | backendList | backendCommonPrefixes =>
    cases h
    exact ⟨rfl, Or.inl rfl⟩
  | backendPut | backendDelete | removeFlushRequest =>
    cases h
    exact Or.inl ⟨rfl, rfl⟩
  | backendMaintenance =>
    cases h
    exact ⟨rfl, _, rfl⟩
  | writeMasterStatus =>
    cases h
    exact ⟨Or.inl rfl, _, rfl⟩
  | readListCache key =>
    have h := Option.some.inj h
    exact ⟨congrArg Prod.snd h.symm, congrArg (fun p => some p.1) h.symm⟩
  | _ =>
    cases h
    exact ⟨rfl, rfl⟩

def Action.performIf (C : Config) (permits : Action → Master → Bool) (choice : Choice)
    (a : Action) (s : Master) : Option (a.Answer × Master) :=
  if permits a s then a.perform C choice s else none

def anyAction (_ : Action) (_ : Master) : Bool := true

theorem does_of_anyAction {C : Config} {a : Action} {s s' : Master} {o : Option a.Answer}
    (_ : anyAction a s = true) (does : a.Does C s o s') : Semantics.does C a s o s' :=
  does

inductive Command where
  | accept (thread : Nat) (hostId : String) (operation : ClusterOperation)
  | client (thread : Nat) (choice : Choice)
  | reply (thread : Nat)
  | wake
  | worker (choice : Choice)
  | sleep
  | crash
  | start
  | boot (choice : Choice)
  | serve
  | tick (elapsed : Nat)
  | requestFlush

namespace System

variable (C : Config) (permits : Action → Master → Bool)

def exec (sys : System) : Command → Option (Event × System)
  | .accept t hostId operation =>
    match sys.mode, sys.clients t with
    | .serving _, none => some (.accept t hostId operation,
        { sys with clients := sys.setClient t (some (handleRequest hostId operation)) })
    | _, _ => none
  | .client t choice =>
    (sys.clients t).bind (fun p => (p.advance (Action.performIf C permits choice) sys.master).map
      (fun done => (.client t done.1.1 done.1.2,
        { sys with master := done.2.2, clients := sys.setClient t (some done.2.1) })))
  | .reply t =>
    match sys.clients t with
    | some (.ret answer) => some (.reply t answer, { sys with clients := sys.setClient t none })
    | _ => none
  | .wake =>
    match sys.mode with
    | .serving none => some (.wake, { sys with mode := .serving (some (runBackendWorkerOnce C)) })
    | _ => none
  | .worker choice =>
    match sys.mode with
    | .serving (some p) => (p.advance (Action.performIf C permits choice) sys.master).map (fun done =>
        (.worker done.1.1 done.1.2,
          { sys with master := done.2.2, mode := .serving (some done.2.1) }))
    | _ => none
  | .sleep =>
    match sys.mode with
    | .serving (some (.ret _)) => some (.sleep, { sys with mode := .serving none })
    | _ => none
  | .crash => some (.crash, stopped sys.master)
  | .start =>
    match sys.mode with
    | .down => some (.start,
        { sys with master := sys.master.restarted, mode := .booting bootProgram })
    | _ => none
  | .boot choice =>
    match sys.mode with
    | .booting p => (p.advance (Action.performIf C permits choice) sys.master).map (fun done =>
        (.boot done.1.1 done.1.2, { sys with master := done.2.2, mode := .booting done.2.1 }))
    | _ => none
  | .serve =>
    match sys.mode with
    | .booting (.ret (.ok ())) => some (.serve, { sys with mode := .serving none })
    | _ => none
  | .tick elapsed => some (.tick elapsed,
      { sys with master := { sys.master with clock := sys.master.clock + elapsed } })
  | .requestFlush => some (.requestFlush,
      { sys with master := { sys.master with flushRequest := true } })

def execAll (sys : System) : List Command → Option (List Event × System)
  | [] => some ([], sys)
  | command :: rest => (exec C permits sys command).bind (fun done =>
      (execAll done.2 rest).map (fun more => (done.1 :: more.1, more.2)))

variable {C permits} {M : Semantics} {sys sys' : System}
  (sound : ∀ {a s o s'}, permits a s = true → a.Does C s o s' → M a s o s')

include sound

theorem exec_step {command : Command} {e : Event}
    (h : exec C permits sys command = some (e, sys')) : Step C M sys e sys' := by
  have advances : ∀ {α : Type} {choice : Choice} {p p' : Program α} {m : Master}
      {performed : Σ a : Action, a.Answer},
      p.advance (Action.performIf C permits choice) sys.master = some (performed, p', m) →
      Prog.Step M p sys.master performed.1 performed.2 p' m := by
    refine fun h => advance_step (fun done => ?_) h
    unfold Action.performIf at done
    split at done
    · next permitted => exact sound permitted (Action.perform_does done)
    · cases done
  cases command with
  | accept t hostId operation =>
    simp only [exec] at h
    split at h
    · next serving idle =>
      cases h
      exact .accept serving idle
    · cases h
  | client t choice =>
    obtain ⟨p, hp, h⟩ := Option.bind_eq_some_iff.mp h
    obtain ⟨⟨performed, p', m⟩, done, heq⟩ := Option.map_eq_some_iff.mp h
    cases heq
    exact .client hp (advances done)
  | reply t =>
    simp only [exec] at h
    split at h
    · next hp =>
      cases h
      exact .reply hp
    · cases h
  | wake =>
    simp only [exec] at h
    split at h
    · next hm =>
      cases h
      exact .wake hm
    · cases h
  | worker choice =>
    simp only [exec] at h
    split at h
    · next hm =>
      obtain ⟨⟨performed, p', m⟩, done, heq⟩ := Option.map_eq_some_iff.mp h
      cases heq
      exact .worker hm (advances done)
    · cases h
  | sleep =>
    simp only [exec] at h
    split at h
    · next hm =>
      cases h
      exact .sleep hm
    · cases h
  | crash =>
    cases h
    exact .crash
  | start =>
    simp only [exec] at h
    split at h
    · next hm =>
      cases h
      exact .start hm
    · cases h
  | boot choice =>
    simp only [exec] at h
    split at h
    · next hm =>
      obtain ⟨⟨performed, p', m⟩, done, heq⟩ := Option.map_eq_some_iff.mp h
      cases heq
      exact .boot hm (advances done)
    · cases h
  | serve =>
    simp only [exec] at h
    split at h
    · next hm =>
      cases h
      exact .serve hm
    · cases h
  | tick elapsed =>
    cases h
    exact .tick
  | requestFlush =>
    cases h
    exact .requestFlush

theorem execAll_run {script : List Command} {events : List Event}
    (h : execAll C permits sys script = some (events, sys')) : Run C M sys events sys' := by
  induction script generalizing sys events with
  | nil =>
    cases h
    exact .nil
  | cons command rest ih =>
    obtain ⟨⟨e, mid⟩, first, h⟩ := Option.bind_eq_some_iff.mp h
    obtain ⟨⟨es, last⟩, more, heq⟩ := Option.map_eq_some_iff.mp h
    cases heq
    exact .cons (exec_step sound first) (ih more)

theorem reachable_of_script (script : List Command) (p : System → Prop) [DecidablePred p]
    (init : Initial sys)
    (h : (execAll C permits sys script).any (fun done => decide (p done.2)) = true) :
    ∃ last, Reachable C M last ∧ p last := by
  cases ran : execAll C permits sys script with
  | none => simp [ran] at h
  | some done =>
    rw [ran] at h
    exact ⟨done.2, ⟨sys, done.1, init, execAll_run sound ran⟩, of_decide_eq_true h⟩

end System

section Sample

/-- A digest that spells out the bytes. -/
def sampleBlake3 : Blake3 where
  hex bytes := String.ofList (bytes.map Char.ofUInt8)
  collisionFree := by
    intro a b h
    refine List.map_injective_iff.mpr ?_ (String.ofList_injective h)
    intro x y heq
    have same : x.toUInt32 = y.toUInt32 := congrArg Char.val heq
    exact UInt8.toUInt32_inj.mp same

/-- A small installation to run scripts on. -/
def sample : Config where
  blake3 := sampleBlake3
  ticksPerSecond := 1
  storeMaxBytes := some 100
  localDeleteGrace := 10
  localGcCatalogRefresh := 10
  listCacheTtl := some 10
  flushInterval := 10
  flushMaxBytes := 1000
  flushMaxObjects := 10
  maxConcurrency := 2
  dedupeListMinObjects := 10
  deleteBatchMaxObjects := 0

def installed (store : Store) (backend : Directory Key Bytes) : System where
  master :=
    { store, backend, queue := ∅, intents := ∅, receipts := ∅, localGc := ∅
      migrated := false, flushRequest := false, storeBytes := 0
      gcCatalog := { catalog := none, lastRefreshAttempt := none, error := none }
      batchDeleteEnabled := true, listCache := fun _ => none, clock := 0, nextGeneration := 0 }
  mode := .down
  clients := fun _ => none

theorem installed_initial (store : Store) (backend : Directory Key Bytes) :
    System.Initial (installed store backend) :=
  ⟨rfl, rfl, rfl, rfl, rfl, rfl⟩

/-- Everything works, and directories list their files in the given order. -/
def smooth (order : List Key) : Choice := { order, fates := [] }

def bootScript (order : List Key) : List Command :=
  [.start, .boot (smooth order), .boot (smooth order), .boot (smooth order), .serve]

def requestScript (thread : Nat) (hostId : String) (operation : ClusterOperation)
    (order : List Key) (actions : Nat) : List Command :=
  .accept thread hostId operation ::
    (List.replicate actions (.client thread (smooth order)) ++ [.reply thread])

def passScript (order : List Key) (actions : Nat) : List Command :=
  .wake :: (List.replicate actions (.worker (smooth order)) ++ [.sleep])

end Sample

end Majutsu.Cluster
