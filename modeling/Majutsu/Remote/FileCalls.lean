import Majutsu.Remote.FileRemote
import Majutsu.Lib.Chunks
import Majutsu.Lib.Trying
import Mathlib.Data.List.Dedup

/-!
# Listings of a file remote

Writers stage their files in the directories that a listing walks over. The calls of many
processes on one file remote are put together here: unconditional and conditional puts,
deletes and listings, and the two consumers of a listing that the others depend on, the
cluster master's `List` and the prune of unreferenced objects.

A temporary name is new, and no object is put under the name of a temporary file; deletes
may name any file.
-/

namespace Majutsu.Remote

open Cluster
open Prog

section Consumers

variable (me : String)

def joinAll : List (Except Failure Unit) → Except Failure Unit
  | [] => .ok ()
  | answer :: rest => do
    answer
    joinAll rest

def deleteRemoteBatch (batch : List String) : FileProgram Unit :=
  Prog.bind (parAll (batch.map (fileRemoteDelete me))) fun answers => .ret (joinAll answers)

def deleteRemoteBatches : List (List String) → FileProgram Unit
  | [] => pure ()
  | batch :: rest => do
    let _ ← deleteRemoteBatch me batch
    deleteRemoteBatches rest

def deleteRemoteKeys (parallel : Nat) (keys : List String) : FileProgram Unit :=
  deleteRemoteBatches me (Chunks.cut (max parallel 1) keys)

/-- `remote_content_object_keys`, for the areas of the content objects. -/
def remoteContentObjectKeys (files : Nat) : List String → FileProgram (List String)
  | [] => pure []
  | start :: rest => do
    let objects ← listFileRemoteWithSizes me start files
    let others ← remoteContentObjectKeys files rest
    pure (objects.map Prod.fst ++ others)

/-- `prune_remote_unreferenced_content_objects`, for the keys that are live. -/
def pruneRemoteObjects (starts : List String) (files : Nat) (live : List String)
    (parallel : Nat) : FileProgram Unit := do
  let found ← remoteContentObjectKeys me files starts
  deleteRemoteKeys me parallel (found.dedup.filter (· ∉ live))

/-- `master_list` over the master's own files, with what the backend answered. -/
def masterListStore (start : String) (files : Nat) (deleted backed : List String) :
    FileProgram (List String) := do
  let stored ← listFileRemoteWithSizes me start files
  pure ((stored.map Prod.fst).filter (· ∉ deleted) ++ backed.filter (· ∉ deleted))

end Consumers

inductive FileCall where
  /-- `put` and `put_file`, with the names that `create_atomic_temp` tries. -/
  | put (key uuid : String) (more : List String) (pieces : List Bytes)
  /-- `put_if_absent` and `put_file_if_absent`. -/
  | putIfAbsent (key uuid : String) (pieces : List Bytes)
  | delete (key : String)
  /-- `list` and `list_with_sizes`. -/
  | list (start : String) (files : Nat)
  | masterList (start : String) (files : Nat) (deleted backed : List String)
  | prune (starts : List String) (files : Nat) (live : List String) (parallel : Nat)
  deriving DecidableEq

inductive FileResult where
  | done
  | published (first : Bool)
  | objects (found : List (String × Nat))
  | keys (found : List String)
  deriving DecidableEq

namespace FileCall

def temps : FileCall → List String
  | put key uuid more _ => (uuid :: more).map (fileRemoteTmpPath key)
  | putIfAbsent key uuid _ => [fileRemoteTmpPath key uuid]
  | _ => []

def uuids : FileCall → List String
  | put _ uuid more _ => uuid :: more
  | putIfAbsent _ uuid _ => [uuid]
  | _ => []

def puts : FileCall → List (String × Bytes)
  | put key _ _ pieces | putIfAbsent key _ pieces => [(key, pieces.flatten)]
  | _ => []

def caller : FileCall → String
  | put key uuid _ _ | putIfAbsent key uuid _ => fileRemoteTmpPath key uuid
  | _ => ""

def program (c : FileCall) : FileProgram FileResult :=
  match c with
  | put key uuid more pieces => do
    let _ ← fileRemotePutAtomic c.caller key (uuid :: more) pieces
    pure .done
  | putIfAbsent key uuid pieces => do
    let first ← fileRemotePutIfAbsentAtomic c.caller key (fileRemoteTmpPath key uuid) pieces
    pure (.published first)
  | delete key => do
    let _ ← fileRemoteDelete c.caller key
    pure .done
  | list start files => do
    let found ← listFileRemoteWithSizes c.caller start files
    pure (.objects found)
  | masterList start files deleted backed => do
    let found ← masterListStore c.caller start files deleted backed
    pure (.keys found)
  | prune starts files live parallel => do
    let _ ← pruneRemoteObjects c.caller starts files live parallel
    pure .done

/-- A UUID has no dot, and it was not used before. -/
structure Begins (c : FileCall) (s s' : FileWorld) : Prop where
  dotless : ∀ uuid ∈ c.uuids, '.' ∉ uuid.toList
  unused : ∀ tmp ∈ c.temps, tmp ∉ s.temps ∧ tmp ∉ s.puts.map Prod.fst
  apart : ∀ object ∈ c.puts, object.1 ∉ s.temps
  begun : s' = { s with temps := c.temps ++ s.temps, puts := c.puts ++ s.puts }

end FileCall

/-- The calls on one file remote. -/
def fileCalls (support : LinkSupport) :
    Pool.System FileStep.Answer FileWorld FileCall (Except Failure FileResult) where
  program := FileCall.program
  does := FileStep.Does support
  begins := FileCall.Begins
  returns _ _ s s' := s' = s
  moves _ _ := False

abbrev RemoteCalls : Type :=
  Pool.State FileStep.Answer FileWorld FileCall (Except Failure FileResult)

/-- No file stands under the name under which it was created: there is no temporary file
and no lock file. -/
def FileWorld.Settled (s : FileWorld) : Prop :=
  ∀ file < s.next, s.names (s.origin file) ≠ some file

instance (s : FileWorld) : Decidable s.Settled :=
  inferInstanceAs (Decidable (∀ file < s.next, _))

/-- The operations of a walk are taken while no writer is at work and none was lost. -/
def Undisturbed (s : FileWorld) (step : FileStep) : Prop :=
  match step.op with
  | .nextFile | .fileLen _ => s.Settled
  | _ => True

structure Tidy (s : FileWorld) : Prop where
  bounded : ∀ path file, s.names path = some file → file < s.next
  named : ∀ path file, s.names path = some file →
    s.origin file = path ∨ (path, s.data file) ∈ s.published
  begun : s.published ⊆ s.puts
  apart : ∀ object ∈ s.puts, object.1 ∉ s.temps

structure Present (c : FileCall) (s : FileWorld) : Prop where
  dotless : ∀ uuid ∈ c.uuids, '.' ∉ uuid.toList
  temps : c.temps ⊆ s.temps
  puts : c.puts ⊆ s.puts

/-- What an action of a call does at most. -/
structure Stages (c : FileCall) (a b : FileWorld) : Prop where
  tidy : Tidy a → Tidy b
  next : a.next ≤ b.next
  creator : ∀ file, file < a.next → b.creator file = a.creator file
  origin : ∀ file, file < a.next → b.origin file = a.origin file
  names : ∀ path file, b.names path = some file → a.names path = some file ∨
    b.creator file ∈ c.temps ∧
      (path ∈ c.temps ∨ ∃ object ∈ c.puts, path = object.1 ∨ path = fileRemoteLockPath object.1)
  data : ∀ file, file < a.next → b.data file = a.data file ∨ a.creator file ∈ c.temps
  temps : b.temps = a.temps
  puts : b.puts = a.puts
  published : a.published ⊆ b.published

/-- What a call may rely on. -/
structure Spares (c : FileCall) (a b : FileWorld) : Prop where
  tidy : Tidy a → Tidy b
  next : a.next ≤ b.next
  creator : ∀ file, file < a.next → b.creator file = a.creator file
  origin : ∀ file, file < a.next → b.origin file = a.origin file
  mine : ∀ path ∈ c.temps, ∀ file, b.names path = some file → a.names path = some file
  unlinked : ∀ path file, file < a.next → a.creator file ∈ c.temps → b.names path = some file →
    a.names path = some file
  data : ∀ file, file < a.next → a.creator file ∈ c.temps → b.data file = a.data file
  temps : a.temps ⊆ b.temps
  puts : a.puts ⊆ b.puts
  published : a.published ⊆ b.published

/-- Two calls in flight have different temporary names, and neither puts an object under a
temporary name of the other. -/
structure Distinct (c d : FileCall) : Prop where
  temps : ∀ tmp ∈ c.temps, tmp ∉ d.temps
  left : ∀ object ∈ c.puts, object.1 ∉ d.temps
  right : ∀ object ∈ d.puts, object.1 ∉ c.temps
  dotless : ∀ uuid ∈ c.uuids ++ d.uuids, '.' ∉ uuid.toList

theorem takeWhile_beside (path ending : String) (last : List Char)
    (splits : ending.toList = '.' :: last) (dotless : '.' ∉ last) :
    ((beside path ending).toList.reverse.takeWhile fun c => c ≠ '.') = last.reverse := by
  have plain : ∀ c ∈ last.reverse, decide (c ≠ '.') = true := by
    intro c inside
    refine decide_eq_true ?_
    rintro rfl
    exact dotless (List.mem_reverse.mp inside)
  rw [beside, String.toList_ofList, List.reverse_append, splits, List.reverse_cons,
    List.append_assoc, List.takeWhile_append_of_pos plain, List.singleton_append,
    List.takeWhile_cons_of_neg (by simp), List.append_nil]

theorem fileRemoteTmpPath_ne_any_lock {path uuid : String} (dotless : '.' ∉ uuid.toList)
    (other : String) : fileRemoteTmpPath path uuid ≠ fileRemoteLockPath other := by
  intro same
  have tmp := takeWhile_beside path (".mjtmp-" ++ uuid) ("mjtmp-".toList ++ uuid.toList)
    (by rw [String.toList_append]; rfl) (by simpa using dotless)
  have lock := takeWhile_beside other ".mjlock" "mjlock".toList rfl (by decide)
  rw [← fileRemoteTmpPath, same, fileRemoteLockPath, lock] at tmp
  have third := congrArg (fun text => text[2]?) (List.reverse_injective tmp)
  simp at third

theorem FileCall.temps_ne_lock {c : FileCall} (dotless : ∀ uuid ∈ c.uuids, '.' ∉ uuid.toList)
    {tmp : String} (mine : tmp ∈ c.temps) (key : String) : tmp ≠ fileRemoteLockPath key := by
  cases c with
  | put path uuid more pieces =>
    obtain ⟨one, inside, rfl⟩ := List.mem_map.mp mine
    exact fileRemoteTmpPath_ne_any_lock (dotless one inside) key
  | putIfAbsent path uuid pieces =>
    rw [List.mem_singleton.mp mine]
    exact fileRemoteTmpPath_ne_any_lock (dotless uuid List.mem_cons_self) key
  | _ => cases mine

theorem FileCall.temps_ne_key {c : FileCall} {tmp : String} (mine : tmp ∈ c.temps)
    {object : String × Bytes} (put : object ∈ c.puts) : tmp ≠ object.1 := by
  cases c with
  | put path uuid more pieces =>
    obtain ⟨one, -, rfl⟩ := List.mem_map.mp mine
    rw [List.mem_singleton.mp put]
    exact beside_ne path _
  | putIfAbsent path uuid pieces =>
    rw [List.mem_singleton.mp mine, List.mem_singleton.mp put]
    exact beside_ne path _
  | _ => cases mine

section Actions

variable {c d : FileCall} {a b : FileWorld}

theorem Stages.spares (stages : Stages c a b) (distinct : Distinct c d) : Spares d a b where
  tidy := stages.tidy
  next := stages.next
  creator := stages.creator
  origin := stages.origin
  mine path theirs file there := by
    obtain same | ⟨-, mine | ⟨object, put, rfl | rfl⟩⟩ := stages.names path file there
    · exact same
    · exact absurd theirs (distinct.temps path mine)
    · exact absurd theirs (distinct.left object put)
    · refine absurd rfl (FileCall.temps_ne_lock (fun uuid inside => ?_) theirs object.1)
      exact distinct.dotless uuid (List.mem_append_right _ inside)
  unlinked path file old theirs there := by
    obtain same | ⟨mine, -⟩ := stages.names path file there
    · exact same
    · rw [stages.creator file old] at mine
      exact absurd theirs (distinct.temps _ mine)
  data file old theirs := by
    obtain same | mine := stages.data file old
    · exact same
    · exact absurd theirs (distinct.temps _ mine)
  temps := by rw [stages.temps]; exact List.Subset.refl _
  puts := by rw [stages.puts]; exact List.Subset.refl _
  published := stages.published

theorem Stages.refl : Stages c a a where
  tidy := id
  next := Nat.le_refl _
  creator _ _ := rfl
  origin _ _ := rfl
  names _ _ := Or.inl
  data _ _ := Or.inl rfl
  temps := rfl
  puts := rfl
  published := List.Subset.refl _

theorem Stages.trans {b' : FileWorld} (tidy : Tidy a) (first : Stages c a b)
    (next : Stages c b b') : Stages c a b' where
  tidy before := next.tidy (first.tidy before)
  next := Nat.le_trans first.next next.next
  creator file old := by
    rw [next.creator file (Nat.lt_of_lt_of_le old first.next), first.creator file old]
  origin file old := by
    rw [next.origin file (Nat.lt_of_lt_of_le old first.next), first.origin file old]
  names path file there := by
    obtain before | mine := next.names path file there
    · obtain before | ⟨creator, mine⟩ := first.names path file before
      · exact Or.inl before
      · rw [← next.creator file ((first.tidy tidy).bounded path file before)] at creator
        exact Or.inr ⟨creator, mine⟩
    · exact Or.inr mine
  data file old := by
    obtain same | mine := next.data file (Nat.lt_of_lt_of_le old first.next)
    · rw [same]
      exact first.data file old
    · rw [first.creator file old] at mine
      exact Or.inr mine
  temps := next.temps.trans first.temps
  puts := next.puts.trans first.puts
  published := List.Subset.trans first.published next.published

theorem Stages.removed (path : String) : Stages c a (a.removed path) := by
  have names : ∀ other file, (a.removed path).names other = some file →
      a.names other = some file := by
    intro other file there
    rw [FileWorld.names_removed] at there
    by_cases same : other = path
    · rw [same, Function.update_self] at there
      cases there
    · rwa [Function.update_of_ne same] at there
  exact ⟨fun tidy => ⟨fun other file there => tidy.bounded other file (names other file there),
      fun other file there => tidy.named other file (names other file there), tidy.begun,
      tidy.apart⟩,
    Nat.le_refl _, fun _ _ => rfl, fun _ _ => rfl,
    fun other file there => Or.inl (names other file there),
    fun _ _ => Or.inl rfl, rfl, rfl, List.Subset.refl _⟩

theorem Stages.created (caller : c.caller ∈ c.temps) {path : String}
    (mine : path ∈ c.temps ∨ ∃ object ∈ c.puts, path = fileRemoteLockPath object.1) :
    Stages c a (a.created c.caller path) := by
  have names : ∀ other file, (a.created c.caller path).names other = some file →
      a.names other = some file ∨ other = path ∧ file = a.next := by
    intro other file there
    rw [FileWorld.names_created] at there
    by_cases same : other = path
    · rw [same, Function.update_self] at there
      exact Or.inr ⟨same, (Option.some.inj there).symm⟩
    · rw [Function.update_of_ne same] at there
      exact Or.inl there
  have older : ∀ {file}, file < a.next → file ≠ a.next := fun old => Nat.ne_of_lt old
  refine ⟨fun tidy => ⟨?_, ?_, tidy.begun, tidy.apart⟩, Nat.le_succ _,
    fun file old => Function.update_of_ne (older old) _ _,
    fun file old => Function.update_of_ne (older old) _ _, ?_,
    fun file old => Or.inl (Function.update_of_ne (older old) _ _), rfl, rfl, List.Subset.refl _⟩
  · intro other file there
    obtain before | ⟨-, rfl⟩ := names other file there
    · exact Nat.lt_succ_of_lt (tidy.bounded other file before)
    · exact Nat.lt_succ_self _
  · intro other file there
    obtain before | ⟨rfl, rfl⟩ := names other file there
    · have old := older (tidy.bounded other file before)
      rw [FileWorld.created]
      dsimp only
      rw [Function.update_of_ne old, Function.update_of_ne old]
      exact tidy.named other file before
    · exact Or.inl (Function.update_self _ _ _)
  · intro other file there
    obtain before | ⟨rfl, rfl⟩ := names other file there
    · exact Or.inl before
    · refine Or.inr ⟨?_, ?_⟩
      · rw [FileWorld.created]
        dsimp only
        rw [Function.update_self]
        exact caller
      · exact mine.imp_right fun ⟨object, put, lock⟩ => ⟨object, put, Or.inr lock⟩

theorem Stages.appended {file : Nat} (bytes : Bytes) (mine : a.creator file ∈ c.temps)
    (staged : ∀ path, a.names path = some file → a.origin file = path) :
    Stages c a (a.appended file bytes) := by
  refine ⟨fun tidy => ⟨tidy.bounded, ?_, tidy.begun, tidy.apart⟩, Nat.le_refl _, fun _ _ => rfl,
    fun _ _ => rfl, fun _ _ => Or.inl, ?_, rfl, rfl, List.Subset.refl _⟩
  · intro path other there
    by_cases same : other = file
    · exact Or.inl (same ▸ staged path (same ▸ there))
    · rw [FileWorld.appended]
      dsimp only
      rw [Function.update_of_ne same]
      exact tidy.named path other there
  · intro other _
    by_cases same : other = file
    · exact Or.inr (same ▸ mine)
    · exact Or.inl (Function.update_of_ne same _ _)

theorem Stages.linked {key : String} {content : Bytes} {file : Nat} (old : file < a.next)
    (put : (key, content) ∈ c.puts) (begun : (key, content) ∈ a.puts)
    (mine : a.creator file ∈ c.temps) (whole : a.data file = content) :
    Stages c a (a.linked key file) := by
  have names : ∀ other found, (a.linked key file).names other = some found →
      a.names other = some found ∨ other = key ∧ found = file := by
    intro other found there
    rw [FileWorld.names_linked] at there
    by_cases same : other = key
    · rw [same, Function.update_self] at there
      exact Or.inr ⟨same, (Option.some.inj there).symm⟩
    · rw [Function.update_of_ne same] at there
      exact Or.inl there
  refine ⟨fun tidy => ⟨?_, ?_, ?_, tidy.apart⟩, Nat.le_refl _, fun _ _ => rfl, fun _ _ => rfl, ?_,
    fun _ _ => Or.inl rfl, rfl, rfl, List.subset_cons_self _ _⟩
  · intro other found there
    obtain before | ⟨-, rfl⟩ := names other found there
    · exact tidy.bounded other found before
    · exact old
  · intro other found there
    obtain before | ⟨rfl, rfl⟩ := names other found there
    · exact (tidy.named other found before).imp_right (List.mem_cons_of_mem _)
    · exact Or.inr List.mem_cons_self
  · refine List.cons_subset.mpr ⟨?_, tidy.begun⟩
    rw [whole]
    exact begun
  · intro other found there
    obtain before | ⟨rfl, rfl⟩ := names other found there
    · exact Or.inl before
    · exact Or.inr ⟨mine, Or.inr ⟨_, put, Or.inl rfl⟩⟩

theorem Stages.present (stages : Stages c a b) (present : Present c a) : Present c b :=
  ⟨present.dotless, stages.temps ▸ present.temps, stages.puts ▸ present.puts⟩

theorem Spares.present (spares : Spares c a b) (present : Present c a) : Present c b :=
  ⟨present.dotless, List.Subset.trans present.temps spares.temps,
    List.Subset.trans present.puts spares.puts⟩

end Actions

end Majutsu.Remote
