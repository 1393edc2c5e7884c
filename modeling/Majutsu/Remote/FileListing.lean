import Majutsu.Remote.FileCalls

/-!
# What a listing shows

A listing that never looks at the directory while a temporary file or a lock file stands in
it shows objects with their whole sizes, and so do the master's `List` and the prune that
rest on it. The walk has no filter: in general it shows the files that writers have staged,
and a prune removes them.
-/

namespace Majutsu.Remote

open Cluster
open Prog

def Known (c : FileCall) (s : FileWorld) : Prop := Tidy s ∧ Present c s

/-- A prune does not remove a temporary file. -/
def Careful (c : FileCall) (op : FileOp) (s : FileWorld) : Prop :=
  match c, op with
  | .prune _ _ _ _, .removeFile path => path ∉ s.temps
  | _, _ => True

/-- The object was put with a content of that size. -/
def Shown (object : String × Nat) (s : FileWorld) : Prop :=
  ∃ content, (object.1, content) ∈ s.published ∧ content.length = object.2

/-- A temporary file with its content so far, which is nowhere else. -/
structure Drafted (c : FileCall) (tmp : String) (file : Nat) (content : Bytes) (s : FileWorld) :
    Prop where
  old : file < s.next
  creator : s.creator file ∈ c.temps
  origin : s.origin file = tmp
  data : s.data file = content
  only : ∀ path, s.names path = some file → path = tmp
  named : ∀ other, s.names tmp = some other → other = file

/-- What is found at the temporary name is the whole content. -/
def Complete (c : FileCall) (tmp : String) (content : Bytes) (s : FileWorld) : Prop :=
  ∀ file, s.names tmp = some file → s.creator file ∈ c.temps ∧ s.data file = content

section Stability

variable {c : FileCall} {tmp : String} {file : Nat} {content : Bytes}

theorem stable_known : Stable (Spares c) (Known c) :=
  fun _ _ spares known => ⟨spares.tidy known.1, spares.present known.2⟩

theorem Shown.mono {object : String × Nat} {a b : FileWorld} (shown : Shown object a)
    (published : a.published ⊆ b.published) : Shown object b := by
  obtain ⟨content, put, size⟩ := shown
  exact ⟨content, published put, size⟩

theorem stable_shown {objects : List (String × Nat)} :
    Stable (Spares c) fun s => ∀ object ∈ objects, Shown object s :=
  fun _ _ spares shown object inside => (shown object inside).mono spares.published

theorem stable_drafted (mine : tmp ∈ c.temps) :
    Stable (Spares c) (Drafted c tmp file content) := by
  intro a b spares drafted
  refine ⟨Nat.lt_of_lt_of_le drafted.old spares.next, ?_, ?_, ?_, ?_, ?_⟩
  · rw [spares.creator file drafted.old]
    exact drafted.creator
  · rw [spares.origin file drafted.old, drafted.origin]
  · rw [spares.data file drafted.old drafted.creator, drafted.data]
  · intro path there
    exact drafted.only path (spares.unlinked path file drafted.old drafted.creator there)
  · exact fun other there => drafted.named other (spares.mine tmp mine other there)

theorem Drafted.complete {s : FileWorld} (drafted : Drafted c tmp file content s) :
    Complete c tmp content s := by
  intro other there
  rw [drafted.named other there]
  exact ⟨drafted.creator, drafted.data⟩

end Stability

section Programs

variable {support : LinkSupport} {c : FileCall} {key tmp : String} {file : Nat}
  {content : Bytes} {α : Type} {P : FileWorld → Prop} {Q : α → FileWorld → Prop}

/-- The semantics of a step, under the condition on a walk. -/
abbrev Walks (support : LinkSupport) (step : FileStep) (s : FileWorld)
    (answer : Option step.Answer) (s' : FileWorld) : Prop :=
  FileStep.Does support step s answer s' ∧ Undisturbed s step

/-- A part of a call, under what the other calls leave to it. -/
abbrev Calling (support : LinkSupport) (c : FileCall) (P : FileWorld → Prop) (p : FileProgram α)
    (Q : α → FileWorld → Prop) : Prop :=
  Tries (Walks support) (Spares c) (fun step a b => Stages c a b ∧ Careful c step.op a) (Known c)
    P p Q fun _ => True

theorem Stages.known {a b : FileWorld} (stages : Stages c a b) (known : Known c a) : Known c b :=
  ⟨stages.tidy known.1, stages.present known.2⟩

variable {op : FileOp} {s : FileWorld} {pieces : List Bytes} {keys : List String}

theorem Calling.act {next : op.Answer → Prog FileStep.Answer (Except Failure α)}
    (result : op.Answer → Except Failure α) (returns : ∀ r, next r = .ret (result r))
    (stableP : Stable (Spares c) P) (stableQ : ∀ a, Stable (Spares c) (Q a))
    (acts : ∀ s o s', Known c s → P s → op.Does support c.caller s o s' →
      Undisturbed s ⟨c.caller, op⟩ →
      Stages c s s' ∧ Careful c op s ∧ ∀ r, o = some r → ∀ a, result r = .ok a → Q a s') :
    Calling support c P (.act ⟨c.caller, op⟩ next) Q := by
  refine Tries.act result returns stable_known stableP stableQ stable_true ?_
  intro s o s' known before does
  obtain ⟨stages, careful, post⟩ := acts s o s' known before does.1 does.2
  refine ⟨⟨stages, careful⟩, fun r eq => ⟨stages.known known, ?_⟩⟩
  cases answer : result r with
  | ok a => exact post r eq a answer
  | error e => trivial

theorem Calling.quiet {next : op.Answer → Prog FileStep.Answer (Except Failure α)}
    (result : op.Answer → Except Failure α) (returns : ∀ r, next r = .ret (result r))
    (silent : ∀ s o s', op.Does support c.caller s o s' → s' = s) (careful : ∀ s, Careful c op s)
    (stableP : Stable (Spares c) P) :
    Calling support c P (.act ⟨c.caller, op⟩ next) fun _ => P := by
  refine .act result returns stableP (fun _ => stableP) ?_
  intro s o s' _ before does _
  obtain rfl := silent s o s' does
  exact ⟨.refl, careful s', fun _ _ _ _ => before⟩

/-- A call that puts an object. -/
structure Writes (c : FileCall) (key : String) (content : Bytes) : Prop where
  caller : c.caller ∈ c.temps
  put : (key, content) ∈ c.puts
  careful : ∀ op s, Careful c op s

/-- The operations after the content was written. -/
def Publishing (c : FileCall) (key tmp : String) (step : FileStep) : Prop :=
  step.caller = c.caller ∧
    match step.op with
    | .hardLink source path | .rename source path => source = tmp ∧ path = key
    | .createNew path => path = fileRemoteLockPath key
    | .removeFile _ | .pathExists _ | .syncParentDir _ | .syncFile _ => True
    | _ => False

theorem stable_complete (mine : tmp ∈ c.temps) :
    Stable (Spares c) fun s => Tidy s ∧ Complete c tmp content s := by
  rintro a b spares ⟨tidy, complete⟩
  refine ⟨spares.tidy tidy, fun file there => ?_⟩
  have before := spares.mine tmp mine file there
  have old := tidy.bounded tmp file before
  obtain ⟨creator, data⟩ := complete file before
  rw [spares.creator file old, spares.data file old creator]
  exact ⟨creator, data⟩

theorem Complete.removed (complete : Complete c tmp content s) (path : String) :
    Complete c tmp content (s.removed path) := by
  intro file there
  rw [FileWorld.names_removed] at there
  by_cases same : tmp = path
  · rw [same, Function.update_self] at there
    cases there
  · rw [Function.update_of_ne same] at there
    exact complete file there

theorem Complete.linked (complete : Complete c tmp content s) (apart : tmp ≠ key) (file : Nat) :
    Complete c tmp content (s.linked key file) := by
  intro other there
  rw [FileWorld.names_linked, Function.update_of_ne apart] at there
  exact complete other there

theorem publishing_acts (writes : Writes c key content) (mine : tmp ∈ c.temps) {step : FileStep}
    (publishing : Publishing c key tmp step) {s' : FileWorld} {o : Option step.Answer}
    (known : Known c s) (complete : Complete c tmp content s) (does : step.Does support s o s') :
    Stages c s s' ∧ Complete c tmp content s' := by
  obtain ⟨caller, op⟩ := step
  obtain ⟨rfl, sorted⟩ := publishing
  have begun := known.2.puts writes.put
  have apart : tmp ≠ key := FileCall.temps_ne_key mine writes.put
  cases op with
  | hardLink source path =>
    obtain ⟨rfl, rfl⟩ := sorted
    obtain ⟨-, -, -, file, there, rfl⟩ | ⟨-, -, rfl⟩ | ⟨-, -, rfl⟩ := does
    · obtain ⟨creator, data⟩ := complete file there
      exact ⟨.linked (known.1.bounded _ _ there) writes.put begun creator data,
        complete.linked apart file⟩
    all_goals exact ⟨.refl, complete⟩
  | rename source path =>
    obtain ⟨rfl, rfl⟩ := sorted
    obtain ⟨file, there, -, rfl⟩ | ⟨e, -, rfl⟩ := does
    · obtain ⟨creator, data⟩ := complete file there
      have removed : Stages c s (s.removed source) := .removed source
      have linked : Stages c (s.removed source) ((s.removed source).linked path file) :=
        .linked (known.1.bounded _ _ there) writes.put begun creator data
      exact ⟨removed.trans known.1 linked, (complete.removed source).linked apart file⟩
    · exact ⟨.refl, complete⟩
  | createNew path =>
    obtain rfl : path = fileRemoteLockPath key := sorted
    obtain ⟨-, -, rfl⟩ | ⟨-, -, rfl⟩ | ⟨-, rfl⟩ := does
    · refine ⟨.created writes.caller (Or.inr ⟨_, writes.put, rfl⟩), fun file there => ?_⟩
      have ne := FileCall.temps_ne_lock known.2.dotless mine key
      rw [FileWorld.names_created, Function.update_of_ne ne] at there
      have old := Nat.ne_of_lt (known.1.bounded _ _ there)
      rw [FileWorld.created]
      dsimp only
      rw [Function.update_of_ne old, Function.update_of_ne old]
      exact complete file there
    all_goals exact ⟨.refl, complete⟩
  | removeFile path =>
    obtain ⟨-, rfl⟩ | ⟨e, -, rfl⟩ := does
    · exact ⟨.removed path, complete.removed path⟩
    · exact ⟨.refl, complete⟩
  | pathExists path =>
    obtain ⟨-, rfl⟩ := does
    exact ⟨.refl, complete⟩
  | syncParentDir path | syncFile file =>
    obtain rfl := does
    exact ⟨.refl, complete⟩
  | _ => exact sorted.elim

theorem uses_publishLocked :
    Uses (Publishing c key tmp) (publishLocked c.caller key tmp) := by
  refine Uses.tryBind ⟨⟨rfl, trivial⟩, fun _ => trivial⟩ fun there => ?_
  refine Uses.ite (Uses.tryBind ⟨⟨rfl, trivial⟩, fun _ => trivial⟩ fun _ => trivial) ?_
  refine Uses.tryBind ⟨⟨rfl, rfl, rfl⟩, fun _ => trivial⟩ fun _ => ?_
  exact Uses.tryBind ⟨⟨rfl, trivial⟩, fun _ => trivial⟩ fun _ => trivial

theorem uses_fileRemotePutIfAbsentWithLock (retries : Nat) :
    Uses (Publishing c key tmp) (fileRemotePutIfAbsentWithLock c.caller key tmp retries) := by
  induction retries with
  | zero => trivial
  | succ left ih =>
    refine Uses.tryBind ⟨⟨rfl, rfl⟩, fun _ => trivial⟩ fun answer => ?_
    match answer with
    | .ok _ =>
      refine Uses.tryBind (Uses.bind uses_publishLocked fun _ => trivial) fun result => ?_
      refine Uses.tryBind ⟨⟨rfl, trivial⟩, fun _ => trivial⟩ fun _ => ?_
      cases result with
      | ok published => trivial
      | error e => trivial
    | .error .alreadyExists =>
      refine Uses.tryBind ⟨⟨rfl, trivial⟩, fun _ => trivial⟩ fun there => ?_
      exact Uses.ite (Uses.tryBind ⟨⟨rfl, trivial⟩, fun _ => trivial⟩ fun _ => trivial) ih
    | .error .other => trivial

theorem uses_publishIfAbsent :
    Uses (Publishing c key tmp) (publishIfAbsent c.caller key tmp) := by
  refine Uses.tryBind ⟨⟨rfl, rfl, rfl⟩, fun _ => trivial⟩ fun answer => ?_
  match answer with
  | .ok _ =>
    refine Uses.tryBind ⟨⟨rfl, trivial⟩, fun _ => trivial⟩ fun _ => ?_
    exact Uses.tryBind ⟨⟨rfl, trivial⟩, fun _ => trivial⟩ fun _ => trivial
  | .error .alreadyExists =>
    exact Uses.tryBind ⟨⟨rfl, trivial⟩, fun _ => trivial⟩ fun _ => trivial
  | .error .other => exact uses_fileRemotePutIfAbsentWithLock _

theorem Calling.publishes (writes : Writes c key content) (mine : tmp ∈ c.temps)
    {p : FileProgram α} (uses : Uses (Publishing c key tmp) p) :
    Calling support c (Complete c tmp content) p fun _ _ => True := by
  refine (Tries.of_uses uses stable_known (stable_complete mine) ?_).conseq
    (fun s known complete => ⟨known.1, complete⟩) (fun _ _ _ => trivial) fun _ _ => trivial
  rintro step publishing s o s' known ⟨-, complete⟩ ⟨does, -⟩
  obtain ⟨stages, complete⟩ := publishing_acts writes mine publishing known complete does
  exact ⟨⟨stages, writes.careful _ _⟩, stages.known known, stages.tidy known.1, complete⟩

theorem createNew_calling (writes : Writes c key content) (mine : tmp ∈ c.temps) :
    Calling support c (fun _ => True) (createNew c.caller tmp) fun answer s =>
      ∀ file, answer = .ok file → Drafted c tmp file [] s := by
  refine .act .ok (fun _ => rfl) stable_true ?_ ?_
  · exact fun _ a b spares before file eq => stable_drafted mine a b spares (before file eq)
  · rintro s _ _ known - (⟨free, rfl, rfl⟩ | ⟨-, rfl, rfl⟩ | ⟨rfl, rfl⟩) -
    · refine ⟨.created writes.caller (Or.inl mine), writes.careful _ _, ?_⟩
      rintro _ ⟨⟩ _ ⟨⟩ _ ⟨⟩
      refine ⟨Nat.lt_succ_self _, ?_, Function.update_self _ _ _, Function.update_self _ _ _, ?_, ?_⟩
      · rw [FileWorld.created]
        dsimp only
        rw [Function.update_self]
        exact writes.caller
      · intro path there
        by_contra other
        rw [FileWorld.names_created, Function.update_of_ne other] at there
        exact Nat.lt_irrefl _ (known.1.bounded path _ there)
      · intro other there
        rw [FileWorld.names_created, Function.update_self] at there
        exact (Option.some.inj there).symm
    all_goals
      refine ⟨.refl, writes.careful _ _, ?_⟩
      rintro _ ⟨⟩ _ ⟨⟩ _ ⟨⟩

theorem writeContents_calling (careful : ∀ op s, Careful c op s) (mine : tmp ∈ c.temps)
    (pieces : List Bytes) {written : Bytes} :
    Calling support c (Drafted c tmp file written) (writeContents c.caller file pieces) fun _ =>
      Drafted c tmp file (written ++ pieces.flatten) := by
  induction pieces generalizing written with
  | nil =>
    refine Tries.pure stable_known (stable_drafted mine) fun s _ drafted => ?_
    rwa [List.flatten_nil, List.append_nil]
  | cons piece rest ih =>
    have wrote : Calling support c (Drafted c tmp file written) (writeFile c.caller file piece)
        fun _ => Drafted c tmp file (written ++ piece) := by
      refine .act (fun r => r) (fun _ => rfl) (stable_drafted mine) (fun _ => stable_drafted mine) ?_
      rintro s o _ - drafted ⟨done, -, rfl, whole⟩ -
      have staged : ∀ path, s.names path = some file → s.origin file = path :=
        fun path there => drafted.origin.trans (drafted.only path there).symm
      refine ⟨.appended done drafted.creator staged, careful _ _, ?_⟩
      rintro _ rfl _ rfl
      obtain rfl := whole rfl
      refine ⟨drafted.old, drafted.creator, drafted.origin, ?_, drafted.only, drafted.named⟩
      exact (Function.update_self _ _ _).trans (by rw [drafted.data])
    refine Tries.bind stable_known stable_true wrote fun _ => ?_
    rw [List.flatten_cons, ← List.append_assoc]
    exact ih

theorem removeFile_calling (path : String) (careful : ∀ s, Careful c (.removeFile path) s) :
    Calling support c (fun _ => True) (removeFile c.caller path) fun _ _ => True := by
  refine .act (fun r => r) (fun _ => rfl) stable_true (fun _ => stable_true) ?_
  rintro s _ _ - - (⟨rfl, rfl⟩ | ⟨e, rfl, rfl⟩) -
  · exact ⟨.removed path, careful s, fun _ _ _ _ => trivial⟩
  · exact ⟨.refl, careful _, fun _ _ _ _ => trivial⟩

theorem orRemove_calling (writes : Writes c key content) (mine : tmp ∈ c.temps)
    (whole : pieces.flatten = content) {rest : FileProgram α}
    (uses : Uses (Publishing c key tmp) rest) :
    Calling support c (Drafted c tmp file []) (orRemove c.caller tmp do
      let _ ← writeContents c.caller file pieces
      let _ ← syncFile c.caller file
      rest) fun _ _ => True := by
  have body : Calling support c (Drafted c tmp file []) (do
      let _ ← writeContents c.caller file pieces
      let _ ← syncFile c.caller file
      rest : FileProgram α) fun _ _ => True := by
    refine Tries.bind stable_known stable_true
      (writeContents_calling writes.careful mine pieces) fun _ => ?_
    refine Tries.bind stable_known stable_true (Calling.quiet (fun r => r) (fun _ => rfl)
      (fun _ _ _ => id) (writes.careful _) (stable_drafted mine)) fun _ => ?_
    refine (Calling.publishes writes mine uses).conseq (fun s _ drafted => ?_)
      (fun _ _ => id) fun _ => id
    rw [List.nil_append, whole] at drafted
    exact drafted.complete
  refine Tries.bind stable_known stable_true body.outcome fun result => ?_
  have stable : Stable (Spares c) (Either (fun (_ : α) _ => True) (fun _ => True) result) := by
    intro a b _ _
    cases result with
    | ok _ => trivial
    | error _ => trivial
  cases result with
  | ok a => exact Tries.pure stable_known stable fun _ _ _ => trivial
  | error e =>
    exact Tries.bind stable_known stable_true
      (removeFile_calling tmp (writes.careful _)).ignored fun _ =>
        Tries.fail stable_known stable_true fun _ _ _ => trivial

theorem fileRemotePutIfAbsentAtomic_calling (writes : Writes c key pieces.flatten)
    (mine : tmp ∈ c.temps) :
    Calling support c (fun _ => True) (fileRemotePutIfAbsentAtomic c.caller key tmp pieces)
      fun _ _ => True := by
  refine Tries.bind stable_known stable_true (Calling.quiet (fun r => r) (fun _ => rfl)
    (fun _ _ _ => id) (writes.careful _) stable_true) fun _ => ?_
  refine Tries.bind stable_known stable_true (createNew_calling writes mine) fun answer => ?_
  match answer with
  | .error _ => exact Tries.fail stable_known (fun _ _ _ _ => nofun) fun _ _ _ => trivial
  | .ok file =>
    exact (orRemove_calling writes mine rfl uses_publishIfAbsent).conseq
      (fun s _ drafted => drafted file rfl) (fun _ _ => id) fun _ => id

theorem createAtomicTemp_calling (writes : Writes c key content) (uuids : List String)
    (mine : ∀ uuid ∈ uuids, fileRemoteTmpPath key uuid ∈ c.temps) :
    Calling support c (fun _ => True) (createAtomicTemp c.caller key uuids) fun made s =>
      made.1 ∈ c.temps ∧ Drafted c made.1 made.2 [] s := by
  induction uuids with
  | nil => exact Tries.fail stable_known stable_true fun _ _ _ => trivial
  | cons uuid rest ih =>
    have own := mine uuid List.mem_cons_self
    have stable : ∀ answer : Except OpenError Nat, Stable (Spares c) fun s =>
        ∀ file, answer = .ok file → Drafted c (fileRemoteTmpPath key uuid) file [] s :=
      fun answer a b spares before file eq => stable_drafted own a b spares (before file eq)
    refine Tries.bind stable_known stable_true (createNew_calling writes own) fun answer => ?_
    match answer with
    | .ok file =>
      exact Tries.pure stable_known (stable (.ok file)) fun s _ drafted =>
        ⟨own, drafted file rfl⟩
    | .error .alreadyExists =>
      exact (ih fun other inside => mine other (List.mem_cons_of_mem _ inside)).conseq
        (fun _ _ _ => trivial) (fun _ _ => id) fun _ => id
    | .error .other => exact Tries.fail stable_known (stable (.error .other)) fun _ _ _ => trivial

theorem fileRemotePutAtomic_calling (writes : Writes c key pieces.flatten) (uuids : List String)
    (mine : ∀ uuid ∈ uuids, fileRemoteTmpPath key uuid ∈ c.temps) :
    Calling support c (fun _ => True) (fileRemotePutAtomic c.caller key uuids pieces)
      fun _ _ => True := by
  refine Tries.bind stable_known stable_true (Calling.quiet (fun r => r) (fun _ => rfl)
    (fun _ _ _ => id) (writes.careful _) stable_true) fun _ => ?_
  refine Tries.bind stable_known stable_true (Calling.quiet .ok (fun _ => rfl)
    (fun _ _ _ => id) (writes.careful _) stable_true) fun directory => ?_
  refine Tries.ite (fun _ => Tries.fail stable_known stable_true fun _ _ _ => trivial) fun _ => ?_
  refine Tries.bind stable_known stable_true (createAtomicTemp_calling writes uuids mine)
    fun made => ?_
  obtain ⟨tmp, file⟩ := made
  intro s known before
  refine orRemove_calling writes before.1 rfl ?_ s known before.2
  refine Uses.tryBind ⟨⟨rfl, rfl, rfl⟩, fun _ => trivial⟩ fun _ => ?_
  exact ⟨⟨rfl, trivial⟩, fun _ => trivial⟩

theorem Tidy.shown (tidy : Tidy s) (settled : s.Settled) {path : String} {size : Nat}
    (measured : (s.object path).map List.length = some size) : Shown (path, size) s := by
  obtain ⟨bytes, object, rfl⟩ := Option.map_eq_some_iff.mp measured
  obtain ⟨file, there, rfl⟩ := Option.map_eq_some_iff.mp object
  obtain staged | put := tidy.named path file there
  · exact absurd (staged ▸ there) (settled file (tidy.bounded path file there))
  · exact ⟨s.data file, put, rfl⟩

theorem careful_of_ne (other : ∀ path, op ≠ .removeFile path) (s : FileWorld) : Careful c op s := by
  unfold Careful
  split
  · next path => exact absurd rfl (other path)
  · trivial

theorem listFileRemoteWithSizes_calling (start : String) (files : Nat) :
    Calling support c (fun _ => True) (listFileRemoteWithSizes c.caller start files)
      fun found s => ∀ object ∈ found, Shown object s := by
  induction files with
  | zero => exact Tries.pure stable_known stable_true fun _ _ _ => nofun
  | succ left ih =>
    refine Tries.bind stable_known stable_true (Q := fun _ _ => True) ?_ fun entry => ?_
    · refine Calling.act (fun r => r) (fun _ => rfl) stable_true (fun _ => stable_true) ?_
      rintro s _ _ - - ⟨rfl, -⟩ -
      exact ⟨.refl, careful_of_ne (by rintro _ ⟨⟩) _, fun _ _ _ _ => trivial⟩
    match entry with
    | none => exact Tries.pure stable_known stable_true fun _ _ _ => nofun
    | some path =>
      refine Tries.ite (fun _ => ?_) fun _ => ih
      refine Tries.bind stable_known stable_true (Q := fun size s => ∀ object ∈ [(path, size)],
        Shown object s) ?_ fun size => ?_
      · refine Calling.act (fun r => r) (fun _ => rfl) stable_true (fun _ => stable_shown) ?_
        rintro s _ _ known - ⟨rfl, measures⟩ settled
        refine ⟨.refl, careful_of_ne (by rintro _ ⟨⟩) _, ?_⟩
        rintro _ rfl size rfl object inside
        rw [List.mem_singleton.mp inside]
        exact known.1.shown settled (measures size rfl)
      · have stable : ∀ rest : List (String × Nat), Stable (Spares c) fun s =>
            (∀ object ∈ rest, Shown object s) ∧ ∀ object ∈ [(path, size)], Shown object s :=
          fun rest a b spares before =>
            ⟨stable_shown a b spares before.1, stable_shown a b spares before.2⟩
        refine Tries.bind stable_known stable_true ((ih.frame stable_shown ?_).conseq
          (fun s _ first => ⟨trivial, first⟩) (fun _ _ => id) fun _ => id) fun rest => ?_
        · exact fun _ a b stages shown object inside =>
            (shown object inside).mono stages.1.published
        · refine Tries.pure stable_known (stable rest) fun s _ shown object inside => ?_
          obtain rfl | inside := List.mem_cons.mp inside
          · exact shown.2 _ List.mem_cons_self
          · exact shown.1 object inside

/-- Some object was put under the key. -/
def ShownKey (key : String) (s : FileWorld) : Prop := ∃ size, Shown (key, size) s

theorem ShownKey.mono {a b : FileWorld} (shown : ShownKey key a)
    (published : a.published ⊆ b.published) : ShownKey key b := by
  obtain ⟨size, shown⟩ := shown
  exact ⟨size, shown.mono published⟩

theorem stable_shownKey : Stable (Spares c) fun s => ∀ key ∈ keys, ShownKey key s :=
  fun _ _ spares shown key inside => (shown key inside).mono spares.published

theorem shownKey_of_shown {objects : List (String × Nat)}
    (shown : ∀ object ∈ objects, Shown object s) :
    ∀ key ∈ objects.map Prod.fst, ShownKey key s := by
  intro key inside
  obtain ⟨object, member, rfl⟩ := List.mem_map.mp inside
  exact ⟨object.2, shown object member⟩

theorem ShownKey.not_mem_temps (shown : ShownKey key s) (tidy : Tidy s) : key ∉ s.temps := by
  obtain ⟨size, content, published, -⟩ := shown
  exact tidy.apart _ (tidy.begun published)

theorem remoteContentObjectKeys_calling (files : Nat) (starts : List String) :
    Calling support c (fun _ => True) (remoteContentObjectKeys c.caller files starts)
      fun found s => ∀ key ∈ found, ShownKey key s := by
  induction starts with
  | nil => exact Tries.pure stable_known stable_true fun _ _ _ => nofun
  | cons start rest ih =>
    refine Tries.bind stable_known stable_true (listFileRemoteWithSizes_calling start files)
      fun objects => ?_
    have stable : ∀ others : List String, Stable (Spares c) fun s =>
        (∀ key ∈ others, ShownKey key s) ∧ ∀ object ∈ objects, Shown object s :=
      fun _ a b spares before =>
        ⟨stable_shownKey a b spares before.1, stable_shown a b spares before.2⟩
    refine Tries.bind stable_known stable_true ((ih.frame stable_shown ?_).conseq
      (fun s _ first => ⟨trivial, first⟩) (fun _ _ => id) fun _ => id) fun others => ?_
    · exact fun _ a b stages shown object inside => (shown object inside).mono stages.1.published
    · refine Tries.pure stable_known (stable others) fun s _ shown key inside => ?_
      obtain inside | inside := List.mem_append.mp inside
      · exact shownKey_of_shown shown.2 key inside
      · exact shown.1 key inside

/-- The operations that remove some of the keys. -/
def Deleting (c : FileCall) (keys : List String) (step : FileStep) : Prop :=
  step.caller = c.caller ∧
    match step.op with
    | .pathExists _ => True
    | .removeFile path => path ∈ keys
    | _ => False

theorem uses_fileRemoteDelete (inside : key ∈ keys) :
    Uses (Deleting c keys) (fileRemoteDelete c.caller key) := by
  refine Uses.tryBind ⟨⟨rfl, trivial⟩, fun _ => trivial⟩ fun there => ?_
  exact Uses.ite ⟨⟨rfl, inside⟩, fun _ => trivial⟩ trivial

theorem uses_deleteRemoteBatches {batches : List (List String)} (inside : batches.flatten ⊆ keys) :
    Uses (Deleting c keys) (deleteRemoteBatches c.caller batches) := by
  induction batches with
  | nil => trivial
  | cons batch rest ih =>
    rw [List.flatten_cons, List.append_subset] at inside
    refine Uses.tryBind (Uses.bind (Uses.parAll fun p member => ?_) fun _ => trivial)
      fun _ => ih inside.2
    obtain ⟨key, found, rfl⟩ := List.mem_map.mp member
    exact uses_fileRemoteDelete (inside.1 found)

theorem Calling.deletes {p : FileProgram α} (uses : Uses (Deleting c keys) p)
    (stable : Stable (Spares c) P) (own : ∀ a b, Stages c a b → P a → P b)
    (careful : ∀ s, Known c s → P s → ∀ key ∈ keys, Careful c (.removeFile key) s) :
    Calling support c P p fun _ _ => True := by
  refine (Tries.of_uses uses stable_known stable ?_).conseq (fun _ _ => id)
    (fun _ _ _ => trivial) fun _ _ => trivial
  rintro ⟨caller, op⟩ ⟨rfl, sorted⟩ s o s' known before ⟨does, -⟩
  have moves : Stages c s s' ∧ Careful c op s := by
    cases op with
    | pathExists path =>
      obtain ⟨-, rfl⟩ := does
      exact ⟨.refl, careful_of_ne (by rintro _ ⟨⟩) _⟩
    | removeFile path =>
      refine ⟨?_, careful s known before path sorted⟩
      obtain ⟨-, rfl⟩ | ⟨e, -, rfl⟩ := does
      · exact .removed path
      · exact .refl
    | _ => exact sorted.elim
  exact ⟨moves, moves.1.known known, own s s' moves.1 before⟩

theorem pruneRemoteObjects_calling (starts : List String) (files : Nat) (live : List String)
    (parallel : Nat) :
    Calling support c (fun _ => True) (pruneRemoteObjects c.caller starts files live parallel)
      fun _ _ => True := by
  refine Tries.bind stable_known stable_true (remoteContentObjectKeys_calling files starts)
    fun found => ?_
  have uses : Uses (Deleting c found)
      (deleteRemoteKeys c.caller parallel (found.dedup.filter (· ∉ live))) := by
    refine uses_deleteRemoteBatches ?_
    rw [Chunks.flatten_cut (by omega)]
    exact fun key inside => List.mem_dedup.mp (List.mem_of_mem_filter inside)
  refine Calling.deletes uses stable_shownKey ?_ ?_
  · exact fun a b stages shown key inside => (shown key inside).mono stages.published
  · intro s known shown key inside
    have free := (shown key inside).not_mem_temps known.1
    unfold Careful
    split
    · next removed =>
      cases removed
      exact free
    · trivial

def ShowsObjects : FileCall → FileResult → FileWorld → Prop
  | .list _ _, .objects found, s => ∀ object ∈ found, Shown object s
  | .masterList _ _ _ backed, .keys found, s => ∀ key ∈ found, key ∈ backed ∨ ShownKey key s
  | _, _, _ => True

theorem program_calling :
    Calling support c (fun _ => True) c.program fun result => ShowsObjects c result := by
  cases c with
  | put key uuid more pieces =>
    have writes : Writes (.put key uuid more pieces) key pieces.flatten :=
      ⟨List.mem_cons_self, List.mem_cons_self, fun _ _ => trivial⟩
    refine Tries.bind stable_known stable_true (fileRemotePutAtomic_calling writes (uuid :: more)
      fun one inside => List.mem_map_of_mem inside) fun _ => ?_
    exact Tries.pure stable_known stable_true fun _ _ => id
  | putIfAbsent key uuid pieces =>
    have writes : Writes (.putIfAbsent key uuid pieces) key pieces.flatten :=
      ⟨List.mem_cons_self, List.mem_cons_self, fun _ _ => trivial⟩
    refine Tries.bind stable_known stable_true
      (fileRemotePutIfAbsentAtomic_calling writes List.mem_cons_self) fun _ => ?_
    exact Tries.pure stable_known stable_true fun _ _ => id
  | delete key =>
    refine Tries.bind stable_known stable_true (Calling.deletes
      (uses_fileRemoteDelete (List.mem_singleton_self key)) stable_true (fun _ _ _ => id)
      fun _ _ _ _ _ => trivial) fun _ => ?_
    exact Tries.pure stable_known stable_true fun _ _ => id
  | list start files =>
    refine Tries.bind stable_known stable_true (listFileRemoteWithSizes_calling start files)
      fun found => ?_
    exact Tries.pure stable_known stable_shown fun _ _ => id
  | masterList start files deleted backed =>
    refine Tries.bind stable_known stable_true (Q := fun found s =>
      ∀ key ∈ found, key ∈ backed ∨ ShownKey key s) ?_ fun found => ?_
    · refine Tries.bind stable_known stable_true (listFileRemoteWithSizes_calling start files)
        fun stored => ?_
      refine Tries.pure stable_known stable_shown fun s _ shown key inside => ?_
      obtain inside | inside := List.mem_append.mp inside
      · exact Or.inr (shownKey_of_shown shown key (List.mem_of_mem_filter inside))
      · exact Or.inl (List.mem_of_mem_filter inside)
    · refine Tries.pure stable_known ?_ fun _ _ => id
      intro a b spares shown key inside
      exact (shown key inside).imp_right fun before => before.mono spares.published
  | prune starts files live parallel =>
    refine Tries.bind stable_known stable_true
      (pruneRemoteObjects_calling starts files live parallel) fun _ => ?_
    exact Tries.pure stable_known stable_true fun _ _ => id

end Programs

section Begins

variable {c d : FileCall} {s s' : FileWorld}

theorem FileCall.Begins.tidy (begins : c.Begins s s') (tidy : Tidy s) : Tidy s' := by
  obtain ⟨-, unused, apart, rfl⟩ := begins
  refine ⟨tidy.bounded, tidy.named, List.subset_append_of_subset_right _ tidy.begun, ?_⟩
  intro object put temp
  obtain put | put := List.mem_append.mp put
  · obtain temp | temp := List.mem_append.mp temp
    · exact FileCall.temps_ne_key temp put rfl
    · exact apart object put temp
  · obtain temp | temp := List.mem_append.mp temp
    · exact (unused _ temp).2 (List.mem_map_of_mem put)
    · exact tidy.apart object put temp

theorem FileCall.Begins.present (begins : c.Begins s s') : Present c s' := by
  obtain ⟨dotless, -, -, rfl⟩ := begins
  exact ⟨dotless, List.subset_append_left _ _, List.subset_append_left _ _⟩

theorem FileCall.Begins.distinct (begins : c.Begins s s') (present : Present d s) :
    Distinct c d where
  temps tmp mine theirs := (begins.unused tmp mine).1 (present.temps theirs)
  left object put theirs := begins.apart object put (present.temps theirs)
  right _ put mine := (begins.unused _ mine).2 (List.mem_map_of_mem (present.puts put))
  dotless uuid inside := (List.mem_append.mp inside).elim (begins.dotless uuid)
    (present.dotless uuid)

theorem FileCall.Begins.spares (begins : c.Begins s s') : Spares d s s' where
  tidy := begins.tidy
  next := by rw [begins.begun]
  creator _ _ := by rw [begins.begun]
  origin _ _ := by rw [begins.begun]
  mine _ _ _ there := by rwa [begins.begun] at there
  unlinked _ _ _ _ there := by rwa [begins.begun] at there
  data _ _ _ := by rw [begins.begun]
  temps := by
    rw [begins.begun]
    exact List.subset_append_right _ _
  puts := by
    rw [begins.begun]
    exact List.subset_append_right _ _
  published := by
    rw [begins.begun]
    exact List.Subset.refl _

end Begins

/-- The calls on a file remote keep to their conditions. -/
def fileDiscipline (support : LinkSupport) : Pool.Discipline (fileCalls support) where
  admits _ _ := True
  together := Distinct
  alive := Present
  permits _ step s := Undisturbed s step
  spares _ _ _ := True
  invariant := Tidy
  rely := Spares
  guarantee c step a b := Stages c a b ∧ Careful c step.op a
  post c r s := ∀ result, r = .ok result → ShowsObjects c result s
  symmetric distinct := ⟨fun tmp theirs mine => distinct.temps tmp mine theirs, distinct.right,
    distinct.left, fun uuid inside => distinct.dotless uuid
      (List.mem_append.mpr (List.mem_append.mp inside).symm)⟩
  safe := by
    intro c s s' tidy begins
    have after := begins.tidy tidy
    refine ⟨after, (program_calling s' ⟨after, begins.present⟩ trivial).mono
      (fun _ _ rely => rely) (fun _ _ _ moved => moved) ?_⟩
    rintro r t ⟨-, either⟩ result rfl
    exact either
  lives begins := begins.present
  relies spares := spares.present
  stays stages := stages.1.present
  joined begins alive _ := begins.distinct alive
  kept tidy stages := stages.1.tidy tidy
  spared _ stages distinct _ := stages.1.spares distinct
  begun _ begins _ := begins.spares
  returned := by
    rintro c r s _ tidy - rfl
    exact ⟨tidy, fun distinct => Stages.refl.spares distinct⟩
  moved _ none_ := none_.elim

/-- The condition on the steps of a run. -/
def WalksAlone (calls : RemoteCalls) : Pool.Event FileStep FileCall → Prop
  | .act _ step => Undisturbed calls.shared step
  | _ => True

variable {calls : RemoteCalls}

theorem WalksAlone.allows {support : LinkSupport} {event : Pool.Event FileStep FileCall}
    (alone : WalksAlone calls event) : (fileDiscipline support).Allows calls event := by
  cases event with
  | start t c => exact fun _ _ _ _ _ => trivial
  | act t step => exact fun _ _ _ => ⟨alone, fun _ _ _ _ _ => trivial⟩
  | _ => trivial

/-- What is asked of the listings at any moment. -/
structure OnlyObjects (support : LinkSupport) (calls : RemoteCalls) : Prop where
  /-- What a listing is about to return are objects with their sizes. -/
  listed : ∀ t start files found,
    calls.threads t = some (.list start files, .ret (.ok (.objects found))) →
      ∀ object ∈ found, object.1 ∉ calls.shared.temps ∧
        ∃ content, (object.1, content) ∈ calls.shared.puts ∧
          (object.1, content) ∈ calls.shared.published ∧ content.length = object.2
  /-- What the master shows of its own files are objects. -/
  shown : ∀ t start files deleted backed found,
    calls.threads t = some (.masterList start files deleted backed, .ret (.ok (.keys found))) →
      ∀ key ∈ found, key ∈ backed ∨ key ∉ calls.shared.temps ∧
        ∃ content, (key, content) ∈ calls.shared.puts ∧ (key, content) ∈ calls.shared.published
  /-- A prune does not remove a temporary file. -/
  pruned : ∀ t starts files live parallel p me path calls',
    calls.threads t = some (.prune starts files live parallel, p) →
      Pool.Step (fileCalls support) calls (.act t ⟨me, .removeFile path⟩) calls' →
        path ∉ calls.shared.temps

theorem OnlyObjects.of_holds {support : LinkSupport}
    (holds : (fileDiscipline support).Holds calls) : OnlyObjects support calls where
  listed t start files found here object inside := by
    have shown : Shown object calls.shared := holds.post here _ rfl object inside
    have key : ShownKey object.1 calls.shared := ⟨object.2, shown⟩
    obtain ⟨content, published, size⟩ := shown
    exact ⟨key.not_mem_temps holds.invariant, content, holds.invariant.begun published, published,
      size⟩
  shown t start files deleted backed found here key inside := by
    obtain other | shown := holds.post here _ rfl key inside
    · exact Or.inl other
    · obtain ⟨size, content, published, -⟩ := id shown
      exact Or.inr ⟨shown.not_mem_temps holds.invariant, content,
        holds.invariant.begun published, published⟩
  pruned t starts files live parallel p me path calls' here step := by
    cases step with
    | act there acts =>
      cases here.symm.trans there
      have moved := ((holds.safe t _ _ here).step (acts.restrict ⟨acts.does, trivial⟩)).1
      exact moved.2

/-- In a run in which no listing looks at the directory while a temporary file or a lock
file stands in it, listings show objects with their sizes. -/
theorem list_shows_objects (support : LinkSupport) {s : FileWorld} (tidy : Tidy s)
    {events : List (Pool.Event FileStep FileCall)} {calls : RemoteCalls}
    (run : Machine.Run (Machine.Meeting (Pool.Step (fileCalls support)) WalksAlone)
      (Pool.idle s) events calls) : OnlyObjects support calls :=
  .of_holds ((Pool.Discipline.holds_idle tidy).run
    (run.mono fun step => ⟨step.1, step.2.allows⟩))

def beginFileCall (c : FileCall) (s : FileWorld) : Option FileWorld :=
  if (∀ uuid ∈ c.uuids, '.' ∉ uuid.toList) ∧
      (∀ tmp ∈ c.temps, tmp ∉ s.temps ∧ tmp ∉ s.puts.map Prod.fst) ∧
      ∀ object ∈ c.puts, object.1 ∉ s.temps then
    some { s with temps := c.temps ++ s.temps, puts := c.puts ++ s.puts }
  else none

instance (s : FileWorld) (step : FileStep) : Decidable (Undisturbed s step) :=
  match step with
  | ⟨_, .nextFile⟩ | ⟨_, .fileLen _⟩ => inferInstanceAs (Decidable s.Settled)
  | ⟨_, .createDirs _⟩ | ⟨_, .isDirectory _⟩ | ⟨_, .createNew _⟩ | ⟨_, .writeFile _ _⟩
  | ⟨_, .syncFile _⟩ | ⟨_, .hardLink _ _⟩ | ⟨_, .rename _ _⟩ | ⟨_, .removeFile _⟩
  | ⟨_, .pathExists _⟩ | ⟨_, .syncParentDir _⟩ => .isTrue trivial

instance (calls : RemoteCalls) (event : Pool.Event FileStep FileCall) :
    Decidable (WalksAlone calls event) :=
  match event with
  | .act _ step => inferInstanceAs (Decidable (Undisturbed calls.shared step))
  | .start _ _ | .finish _ | .crash _ | .move => .isTrue trivial

/-- Four threads on a file system where links work. -/
def fileSimulator (found : FileWorld → Option String)
    (meets : RemoteCalls → Pool.Event FileStep FileCall → Prop)
    (check : RemoteCalls → Pool.Event FileStep FileCall → Bool)
    (checked : ∀ {calls event}, check calls event = true → meets calls event) :
    Pool.Simulator (fileCalls .mixed) meets where
  bound := 4
  perform := FileStep.perform (fun _ => true) found
  begins := beginFileCall
  returns _ _ s := some s
  check := check
  performs := FileStep.does_of_perform
  begun h := by
    obtain ⟨⟨dotless, unused, apart⟩, eq⟩ := Option.ite_none_right_eq_some.mp h
    exact ⟨dotless, unused, apart, (Option.some.inj eq).symm⟩
  returned h := (Option.some.inj h).symm
  checked _ h := checked h

/-- The call of a thread with the result that it is about to return. -/
def answered (calls : RemoteCalls) (t : Nat) : Option (FileCall × FileResult) :=
  match calls.threads t with
  | some (c, .ret (.ok result)) => some (c, result)
  | _ => none

theorem threads_of_answered {t : Nat} {c : FileCall} {result : FileResult}
    (h : answered calls t = some (c, result)) : calls.threads t = some (c, .ret (.ok result)) := by
  unfold answered at h
  split at h
  · next here =>
    cases h
    exact here
  · cases h

theorem tidy_emptyDirectory : Tidy emptyDirectory :=
  ⟨nofun, nofun, List.nil_subset _, nofun⟩

/-- What a walk finds that looks for one file. -/
def finds (path : String) (s : FileWorld) : Option String :=
  if (s.names path).isSome then some path else none

/-- A put, and a listing after it. -/
theorem list_shows_objects_after_put : ∃ events calls, Tidy emptyDirectory ∧
    Machine.Run (Machine.Meeting (Pool.Step (fileCalls .mixed)) WalksAlone)
      (Pool.idle emptyDirectory) events calls ∧
    calls.threads 1 = some (.list "" 1, .ret (.ok (.objects [("k", 2)]))) ∧
    OnlyObjects .mixed calls := by
  obtain ⟨events, calls, run, computed⟩ :=
    (fileSimulator (finds "k") WalksAlone (fun calls event => decide (WalksAlone calls event))
      of_decide_eq_true).exists_run emptyDirectory
    [.start 0 (.put "k" "1" [] [[1], [2]]), .act 0, .act 0, .act 0, .act 0, .act 0, .act 0, .act 0,
      .act 0, .finish 0, .start 1 (.list "" 1), .act 1, .act 1]
    (fun calls => answered calls 1 = some (.list "" 1, .objects [("k", 2)])) (by decide +kernel)
  exact ⟨events, calls, tidy_emptyDirectory, run,
    threads_of_answered (of_decide_eq_true computed),
    list_shows_objects .mixed tidy_emptyDirectory run⟩

/-- The temporary file of a put that has written the first of two bytes is listed with its
size so far, shown by the master and removed by a prune. -/
theorem list_shows_staged : ∃ events calls, Tidy emptyDirectory ∧
    Machine.Run (Pool.Step (fileCalls .mixed)) (Pool.idle emptyDirectory) events calls ∧
    calls.threads 1 = some (.list "" 1, .ret (.ok (.objects [(fileRemoteTmpPath "k" "1", 1)]))) ∧
    calls.threads 2 =
      some (.masterList "" 1 [] [], .ret (.ok (.keys [fileRemoteTmpPath "k" "1"]))) ∧
    fileRemoteTmpPath "k" "1" ∈ calls.shared.temps ∧ (calls.threads 0).isSome = true ∧
    calls.shared.names (fileRemoteTmpPath "k" "1") = none ∧ ¬OnlyObjects .mixed calls := by
  obtain ⟨events, calls, run, computed⟩ :=
    (fileSimulator (finds (fileRemoteTmpPath "k" "1")) (fun _ _ => True) (fun _ _ => true)
      fun _ => trivial).exists_run emptyDirectory
    [.start 0 (.putIfAbsent "k" "1" [[1], [2]]), .act 0, .act 0, .act 0, .start 1 (.list "" 1),
      .act 1, .act 1, .start 2 (.masterList "" 1 [] []), .act 2, .act 2,
      .start 3 (.prune [""] 1 [] 1), .act 3, .act 3, .act 3, .act 3]
    (fun calls =>
      answered calls 1 = some (.list "" 1, .objects [(fileRemoteTmpPath "k" "1", 1)]) ∧
      answered calls 2 = some (.masterList "" 1 [] [], .keys [fileRemoteTmpPath "k" "1"]) ∧
      fileRemoteTmpPath "k" "1" ∈ calls.shared.temps ∧ (calls.threads 0).isSome = true ∧
      calls.shared.names (fileRemoteTmpPath "k" "1") = none) (by decide +kernel)
  obtain ⟨listed, shown, temp, flying, gone⟩ := of_decide_eq_true computed
  have here := threads_of_answered listed
  refine ⟨events, calls, tidy_emptyDirectory, run.mono fun step => step.1, here,
    threads_of_answered shown, temp, flying, gone, fun only => ?_⟩
  exact (only.listed 1 "" 1 _ here _ List.mem_cons_self).1 temp

end Majutsu.Remote
