import Majutsu.Cluster.Threads

/-!
# The worker keeps to the protocol

A rely-guarantee proof over the worker's program. Between two of its actions
requests may do what requests do; the worker in turn only acts when it is
`Ready`, and what it sends is the payload of the item it holds.

The proof carries a statement `J items` about the result of the last directory
scan, of which only what `Discipline` lists is assumed.
-/

namespace Majutsu.Cluster

open Prog Relation

section Stability

variable {C : Config} {honest : Prop} {allow : Key → Kind → Prop} {s s' : Master} {queued : Queued}

variable {key : Key}

theorem normalize_sourceHost_congr {x y : BackendQueueItem} (h : x.sourceHost = y.sourceHost) :
    (normalizeLegacyBackendSourceHost key x).sourceHost =
      (normalizeLegacyBackendSourceHost key y).sourceHost := by
  unfold normalizeLegacyBackendSourceHost
  rw [h]
  split
  · exact h
  · split
    · rfl
    · exact h

theorem SameWrite.after {old new item : BackendQueueItem} (same : SameWrite key old item)
    (marked : SameWrite key old new) : SameWrite key new item where
  generation := same.generation.trans marked.generation.symm
  operation := same.operation.trans marked.operation.symm
  updatedAt := same.updatedAt.trans marked.updatedAt.symm
  sourceHost := by
    rw [same.sourceHost, normalize_sourceHost_congr marked.sourceHost, normalize_idem]

theorem Issued.move (move : Move C honest allow s s') (issued : Issued s) : Issued s' := by
  intro key item found
  have found : (s'.slice key).item = some item := found
  have later : ∀ old, s.queue.lookup key = some old → old.generation < s'.nextGeneration ∧
      old.updatedAt ≤ s'.clock := fun old was =>
    ⟨(issued key old was).1.trans_le move.generation, (issued key old was).2.trans move.clock⟩
  rcases move.key with same | ⟨k, kind, -, op, others⟩
  · exact later item ((congrArg KeyState.item (same key)).symm.trans found)
  by_cases hk : key = k
  · subst hk
    rcases op.item_cases with heq | heq | ⟨gen, fresh, heq, isFresh⟩ | ⟨old, new, was, heq, marked⟩
    · exact later item (heq.symm.trans found)
    · rw [heq] at found
      cases found
    · rw [heq] at found
      cases found
      rw [isFresh.generation, isFresh.updatedAt]
      exact ⟨by omega, move.clock⟩
    · rw [heq] at found
      cases found
      rw [marked.generation, marked.updatedAt]
      exact later old was
  · exact later item ((congrArg KeyState.item (others key hk)).symm.trans found)

theorem Known.move (move : Move C honest allow s s') (known : Known queued s) : Known queued s' := by
  refine ⟨known.old.trans_le move.generation, known.past.trans move.clock,
    fun current found gen => ?_⟩
  have found : (s'.slice queued.1).item = some current := found
  rcases move.key with same | ⟨k, kind, -, op, others⟩
  · exact known.same current ((congrArg KeyState.item (same queued.1)).symm.trans found) gen
  by_cases hk : queued.1 = k
  · subst hk
    rcases op.item_cases with heq | heq | ⟨_, fresh, heq, isFresh⟩ | ⟨old, new, was, heq, marked⟩
    · exact known.same current (heq.symm.trans found) gen
    · rw [heq] at found
      cases found
    · rw [heq] at found
      cases found
      have := isFresh.generation
      have := known.old
      omega
    · rw [heq] at found
      cases found
      exact (known.same old was (marked.generation.symm.trans gen)).after marked
  · exact known.same current ((congrArg KeyState.item (others _ hk)).symm.trans found) gen

theorem Issued.known {item : BackendQueueItem} (issued : Issued s)
    (found : s.queueItem key = some item) : Known (key, item) s := by
  obtain ⟨raw, hraw, rfl⟩ := Option.map_eq_some_iff.mp found
  refine ⟨by simpa using (issued key raw hraw).1, by simpa using (issued key raw hraw).2,
    fun current hcurrent _ => ?_⟩
  have : raw = current := Option.some.inj (hraw.symm.trans hcurrent)
  subst this
  exact ⟨by simp, by simp, by simp, rfl⟩

theorem along_path {I : Master → Prop} (step : ∀ {s s'}, Move C honest allow s s' → I s → I s')
    (path : ReflTransGen (Move C honest allow) s s') (h : I s) : I s' := by
  induction path with
  | refl => exact h
  | tail _ last ih => exact step last ih

theorem KeyOp.of_request {clock gen gen' : Nat} {kind : Kind} {a b : KeyState}
    (op : KeyOp C honest key clock gen gen' kind a b) (allowed : requestAllow key kind) :
    b.object = a.object ∧ (a.item ≠ none → b.item ≠ none) := by
  cases op with
  | enqueuePut | enqueueDelete => exact ⟨rfl, fun _ => nofun⟩
  | writeIntent | storePut | cancel | removeIntent | hydrate => exact ⟨rfl, id⟩
  | _ => rcases allowed with h | h | h <;> cases h

theorem pending_of_request (path : ReflTransGen (Move C honest requestAllow) s s') :
    (s'.slice key).object = (s.slice key).object ∧
      ((s.slice key).item ≠ none → (s'.slice key).item ≠ none) := by
  induction path with
  | refl => exact ⟨rfl, id⟩
  | @tail t u _ move ih =>
    have here : (u.slice key).object = (t.slice key).object ∧
        ((t.slice key).item ≠ none → (u.slice key).item ≠ none) := by
      rcases move.key with same | ⟨k, kind, allowed, op, others⟩
      · rw [same key]
        exact ⟨rfl, id⟩
      by_cases hk : key = k
      · subst hk
        exact op.of_request allowed
      · rw [others key hk]
        exact ⟨rfl, id⟩
    exact ⟨here.1.trans ih.1, here.2 ∘ ih.2⟩

end Stability

def Action.OfWorker : Action → Prop
  | locked .recoverMasterWriteIntents | locked (.uploadCheck _ _) | locked (.completeUploaded _)
  | locked (.completeWithoutUpload _) | locked (.recordFailure _) | locked .pendingHosts
  | locked (.activeDeletes _) | locked (.gcItem _ _ _) | readQueue _ | backendList _
  | backendPut _ _ | backendPutIfAbsent _ _ | backendDelete _ | backendDeleteBatch _
  | readQueueDir | scanned _ | localGcDue _ | utcNow | flushRequested | removeFlushRequest
  | batchDeleteEnabled | disableBatchDelete | writeMasterStatus => True
  | _ => False

/-- No PUT of the scan stands before the item: same host, lower priority, not newer. -/
def Unblocked (items : List Queued) (queued : Queued) : Prop :=
  ∀ other ∈ items, other.2.operation.isPut = true → other.2.sourceHost = queued.2.sourceHost →
    backendPublishPriority other.1 < backendPublishPriority queued.1 →
    queued.2.updatedAt < other.2.updatedAt

def Action.Tells (C : Config) (J : List Queued → Master → Prop) (s : Master) : Action → Prop
  | backendPut queued bytes | backendPutIfAbsent queued bytes =>
    PayloadOf C queued (some bytes) ∧ Known queued s ∧
      ∃ items, J items s ∧ queued ∈ items ∧ Unblocked items queued
  | _ => True

structure Acts (C : Config) (honest : Prop) (M : Semantics) (J : List Queued → Master → Prop)
    (a : Action) (s s' : Master) : Prop where
  does : ∃ o, M a s o s'
  worker : a.OfWorker
  ready : a.Ready C honest s
  tells : a.Tells C J s

/-- What the proof needs to know about the meaning `M` of the actions, the moves `R` of the
environment and the statement `J` about scans. -/
structure Discipline (C : Config) (honest : Prop) (M : Semantics)
    (R : Master → Master → Prop) (J : List Queued → Master → Prop) : Prop where
  sound : ∀ {a s o s'}, M a s o s' → a.Does C s o s'
  rely : ∀ {s s'}, R s s' → ReflTransGen (Move C honest requestAllow) s s'
  scan : ∀ {items s o s'}, M (.scanned items) s o s' → (∀ queued ∈ items, Known queued s) →
    ∀ found : List Queued, (∀ queued, queued ∈ found ↔ queued ∈ items) → J found s'
  spared : ∀ {items s s'}, R s s' → J items s → J items s'
  own : ∀ {items a s o s'}, M a s o s' → a.OfWorker → a.Ready C honest s → J items s → J items s'
  absent : honest → ∀ {queued : Queued} {bytes s o s'}, M (.backendPutIfAbsent queued bytes) s o s' →
    s.backend.lookup queued.1 = none ∨ s.backend.lookup queued.1 = some bytes
  skipped : honest → ∀ {queued : Queued} {s o s'},
    M (.locked (.completeWithoutUpload queued)) s o s' →
      Sent C honest queued (s.slice queued.1).object

section Worker

variable {C : Config} {honest : Prop} {M : Semantics} {R : Master → Master → Prop}
  {J : List Queued → Master → Prop} {s s' : Master} {a : Action}

/-- A statement that neither the environment nor the worker spoils. -/
structure Lasting (C : Config) (honest : Prop) (M : Semantics) (R : Master → Master → Prop)
    (I : Master → Prop) : Prop where
  stable : Stable R I
  own : ∀ {a s o s'}, M a s o s' → a.OfWorker → a.Ready C honest s → I s → I s'

variable {I P : Master → Prop}

theorem Lasting.acts (h : Lasting C honest M R I) (l : Action) (s s' : Master)
    (acts : Acts C honest M J l s s') (hI : I s) : I s' := by
  obtain ⟨o, does⟩ := acts.does
  exact h.own does acts.worker acts.ready hI

variable {Q : a.Answer → Master → Prop}

theorem safe_call {G : Action → Master → Master → Prop}
    (guar : ∀ {s s'}, Acts C honest M J a s s' → G a s s') (lasting : Lasting C honest M R I)
    (stableP : Stable R P) (stableQ : ∀ r, Stable R (Q r)) (worker : a.OfWorker)
    (ready : ∀ s o s', I s → P s → M a s o s' → a.Ready C honest s ∧ a.Tells C J s)
    (post : ∀ s r s', I s → P s → M a s (some r) s' → Q r s') (hI : I s) (hP : P s) :
    Safe M R G (fun r t => I t ∧ Q r t) (call a) s := by
  refine Safe.perform (fun t path o t' h => ?_)
  have hI := lasting.stable.path path hI
  have hP := stableP.path path hP
  obtain ⟨hready, htells⟩ := ready t o t' hI hP h
  refine ⟨guar ⟨⟨o, h⟩, worker, hready, htells⟩, ?_⟩
  rintro r rfl u later
  exact ⟨lasting.stable.path later (lasting.own h worker hready hI),
    (stableQ r).path later (post t r t' hI hP h)⟩

theorem keeps_locked {S : Section} {Q : S.Answer → Master → Prop}
    {G : Action → Master → Master → Prop}
    (guar : ∀ {s s'}, Acts C honest M J (.locked S) s s' → G (.locked S) s s')
    (lasting : Lasting C honest M R I) (stableP : Stable R P) (stableQ : ∀ r, Stable R (Q r))
    (worker : (Action.locked S).OfWorker)
    (ready : ∀ s o s', I s → P s → M (.locked S) s o s' →
      (Action.locked S).Ready C honest s ∧ (Action.locked S).Tells C J s)
    (post : ∀ s r s', I s → P s → M (.locked S) s (some (.ok r)) s' → Q r s') :
    Keeps M R G I P (locked S) Q := by
  intro s hI hP
  refine safe_call (J := J) (a := .locked S) (Q := fun (r : Except Failure S.Answer) t =>
    ∀ v, r = .ok v → Q v t) guar lasting stableP ?_ worker ready ?_ hI hP
  · intro r s s' h hQ v hv
    exact stableQ v s s' h (hQ v hv)
  · rintro t r t' hI hP h v rfl
    exact post t v t' hI hP h

theorem keeps_ask (lasting : Lasting C honest M R I) (stableP : Stable R P)
    (stableQ : ∀ r, Stable R (Q r)) (worker : a.OfWorker)
    (ready : ∀ s, I s → P s → a.Ready C honest s ∧ a.Tells C J s)
    (post : ∀ s r s', I s → P s → M a s (some r) s' → Q r s') :
    Keeps M R (Acts C honest M J) I P (ask a) Q := by
  refine Keeps.query lasting.stable stableP stableQ (fun s o s' hI hP h => ?_)
  obtain ⟨hready, htells⟩ := ready s hI hP
  refine ⟨⟨⟨o, h⟩, worker, hready, htells⟩, ?_⟩
  rintro r rfl
  exact ⟨lasting.own h worker hready hI, post s r s' hI hP h⟩

variable (D : Discipline C honest M R J)

include D

theorem Acts.path (acts : Acts C honest M J a s s') :
    ReflTransGen (Move C honest a.allow) s s' := by
  obtain ⟨o, h⟩ := acts.does
  exact Action.path acts.ready (D.sound h)

theorem Discipline.lasting (move : ∀ {allow s s'}, Move C honest allow s s' → I s → I s') :
    Lasting C honest M R I where
  stable := fun _ _ h hI => along_path move (D.rely h) hI
  own := fun h _ ready hI => along_path move (Action.path ready (D.sound h)) hI

theorem Discipline.lasting_issued : Lasting C honest M R Issued := D.lasting Issued.move

/-- The worker is in the middle of a round: it holds the items of one scan. -/
def Round (J : List Queued → Master → Prop) (items : List Queued) (s : Master) : Prop :=
  Issued s ∧ (∀ queued ∈ items, Known queued s) ∧ J items s

theorem Discipline.lasting_round (items : List Queued) :
    Lasting C honest M R (Round J items) where
  stable := fun _ _ h hI =>
    ⟨along_path Issued.move (D.rely h) hI.1,
      fun queued hq => along_path Known.move (D.rely h) (hI.2.1 queued hq), D.spared h hI.2.2⟩
  own := fun h worker ready hI =>
    have path := Action.path ready (D.sound h)
    ⟨along_path Issued.move path hI.1,
      fun queued hq => along_path Known.move path (hI.2.1 queued hq),
      D.own h worker ready hI.2.2⟩

theorem keeps_read (lasting : Lasting C honest M R I) (stableQ : ∀ r, Stable R (Q r))
    (worker : a.OfWorker) (ready : ∀ s, a.Ready C honest s) (tells : ∀ s, a.Tells C J s)
    (post : ∀ s r s', I s → a.Does C s (some r) s' → Q r s') :
    Keeps M R (Acts C honest M J) I (fun _ => True) (ask a) Q :=
  keeps_ask lasting stable_true stableQ worker (fun s _ _ => ⟨ready s, tells s⟩)
    (fun s r s' hI _ h => post s r s' hI (D.sound h))

def AllKnown (items : List Queued) (s : Master) : Prop := ∀ queued ∈ items, Known queued s

theorem Discipline.lasting_allKnown (items : List Queued) :
    Lasting C honest M R (AllKnown items) :=
  D.lasting (fun move known queued hq => (known queued hq).move move)

theorem Lasting.const (c : Prop) : Lasting C honest M R (fun _ => c) :=
  D.lasting (fun _ h => h)

theorem keeps_readQueueFiles (names : List Key) :
    Keeps M R (Acts C honest M J) Issued (fun _ => True) (readQueueFiles names)
      (fun items s => (items.map Prod.fst).Sublist names ∧ AllKnown items s) := by
  induction names with
  | nil =>
    exact Keeps.pure D.lasting_issued.stable stable_true (fun s _ _ => ⟨.refl _, by simp [AllKnown]⟩)
  | cons key rest ih =>
    refine Keeps.bind D.lasting_issued.stable (Q := fun (item : Option BackendQueueItem) s =>
      ∀ found, item = some found → Known (key, found) s) (keeps_read D D.lasting_issued ?_ trivial
        (fun _ => trivial) (fun _ => trivial) ?_) (fun item => ?_)
    · exact fun item s s' h known found heq =>
        (D.lasting Known.move).stable s s' h (known found heq)
    · rintro s item s' issued ⟨rfl, heq⟩ found rfl
      exact issued.known (Option.some.inj heq).symm
    · have lasting : Lasting C honest M R
          (fun s => ∀ found, item = some found → Known (key, found) s) :=
        D.lasting (fun move known found heq => (known found heq).move move)
      refine Keeps.bind D.lasting_issued.stable (Keeps.conseq
        (ih.frame lasting.stable lasting.acts) (fun _ _ h => ⟨trivial, h⟩) (fun _ _ h => h))
        (fun others => Keeps.pure D.lasting_issued.stable ?_ (fun s _ h => ?_))
      · intro s s' hR h
        exact ⟨⟨h.1.1, (D.lasting_allKnown others).stable s s' hR h.1.2⟩,
          lasting.stable s s' hR h.2⟩
      · obtain ⟨⟨sub, known⟩, here⟩ := h
        cases item with
        | none => exact ⟨sub.cons _, known⟩
        | some found =>
          refine ⟨sub.cons_cons _, fun queued hq => ?_⟩
          rcases List.mem_cons.mp hq with rfl | hq
          · exact here found rfl
          · exact known queued hq

theorem keeps_backendQueueItems :
    Keeps M R (Acts C honest M J) Issued (fun _ => True) backendQueueItems
      (fun items s => (items.map Prod.fst).Nodup ∧ Round J items s) := by
  refine Keeps.bind D.lasting_issued.stable (Q := fun (names : List Key) _ => names.Nodup)
    (keeps_read D D.lasting_issued (fun _ _ _ _ h => h) trivial (fun _ => trivial)
      (fun _ => trivial) ?_) (fun names => ?_)
  · rintro s names s' _ ⟨rfl, found, heq, nodup, -⟩
    cases heq
    exact nodup
  refine Keeps.bind D.lasting_issued.stable (Keeps.conseq ((keeps_readQueueFiles D names).frame
    (Lasting.const D names.Nodup).stable (Lasting.const D names.Nodup).acts)
    (fun _ _ h => ⟨trivial, h⟩) (fun _ _ h => h)) (fun items => ?_)
  refine Keeps.bind (P := fun s => ((items.map Prod.fst).Sublist names ∧ AllKnown items s) ∧
      names.Nodup) (Q := fun _ s => (items.map Prod.fst).Nodup ∧
      Round J (items.insertionSort queueBefore) s) D.lasting_issued.stable
    (keeps_ask D.lasting_issued ?_ ?_ trivial (fun _ _ _ => ⟨trivial, trivial⟩) ?_) (fun _ => ?_)
  · exact fun s s' hR h => ⟨⟨h.1.1, (D.lasting_allKnown items).stable s s' hR h.1.2⟩, h.2⟩
  · exact fun _ s s' hR h => ⟨h.1, (D.lasting_round _).stable s s' hR h.2⟩
  · rintro s r s' issued ⟨⟨sub, known⟩, nodup⟩ h
    obtain ⟨rfl, -⟩ := D.sound h
    have same : ∀ queued, queued ∈ items.insertionSort queueBefore ↔ queued ∈ items :=
      fun queued => List.mem_insertionSort _
    exact ⟨nodup.sublist sub, issued, fun queued hq => known queued ((same queued).mp hq),
      D.scan h known _ same⟩
  · refine Keeps.pure D.lasting_issued.stable
      (fun s s' hR h => ⟨h.1, (D.lasting_round _).stable s s' hR h.2⟩) (fun s _ h => ⟨?_, h.2⟩)
    exact ((List.perm_insertionSort queueBefore items).map Prod.fst).nodup_iff.mpr h.1

end Worker

end Majutsu.Cluster
