import Majutsu.Cluster.Keys
import Majutsu.Lib.Pool

/-!
# File remotes

A file remote keeps its objects as files in a directory that many processes share. A writer
stages the content in a temporary file beside the object and publishes it by a rename, or,
for a conditional put, by a hard link. Where there are no hard links a lock file guards a
check and a rename.

Each operation on the file system is one action; it may fail, and a failed write may have
written a part. Of directories only errors in making or syncing them matter. A call carries
the random part of its temporary name, and the pieces in which its content is written.
-/

namespace Majutsu.Remote

open Cluster
open Prog

/-- A name in the directory of a path: a dot, the path's own name, and an ending. -/
def beside (path ending : String) : String :=
  let dir := (path.toList.reverse.dropWhile (· ≠ '/')).reverse
  let name := (path.toList.reverse.takeWhile (· ≠ '/')).reverse
  String.ofList (dir ++ '.' :: name ++ ending.toList)

def fileRemoteTmpPath (path uuid : String) : String := beside path (".mjtmp-" ++ uuid)

def fileRemoteLockPath (path : String) : String := beside path ".mjlock"

theorem length_beside (path ending : String) :
    (beside path ending).toList.length = path.toList.length + 1 + ending.toList.length := by
  have whole := congrArg List.length
    (List.takeWhile_append_dropWhile (p := fun c => decide (c ≠ '/')) (l := path.toList.reverse))
  rw [List.length_append, List.length_reverse] at whole
  rw [beside, String.toList_ofList]
  simp only [List.length_append, List.length_cons, List.length_reverse]
  omega

theorem beside_ne (path ending : String) : beside path ending ≠ path := by
  intro same
  have lengths := length_beside path ending
  rw [same] at lengths
  omega

theorem beside_inj {path ending other : String} (same : beside path ending = beside path other) :
    ending = other := by
  have lists := String.ofList_injective same
  exact String.toList_injective (List.append_cancel_left lists)

theorem fileRemoteTmpPath_ne_lock (path uuid : String) :
    fileRemoteTmpPath path uuid ≠ fileRemoteLockPath path := by
  intro same
  have endings := congrArg String.toList (beside_inj same)
  rw [String.toList_append] at endings
  have fourth := congrArg (fun text => text[3]?) endings
  simp at fourth

/-- Whether `hard_link` works: for every call, for none, or for some. -/
inductive LinkSupport where
  | always
  | never
  | mixed
  deriving DecidableEq

inductive OpenError where
  | alreadyExists
  | other
  deriving DecidableEq

inductive FileOp where
  | createDirs (path : String)
  | isDirectory (path : String)
  /-- `create_new`: the file must not be there. -/
  | createNew (path : String)
  | writeFile (file : Nat) (bytes : Bytes)
  | syncFile (file : Nat)
  | hardLink (source path : String)
  | rename (source path : String)
  | removeFile (path : String)
  | pathExists (path : String)
  | syncParentDir (path : String)
  /-- The next file of a walk over the root. -/
  | nextFile
  | fileLen (path : String)
  deriving DecidableEq

def FileOp.Answer : FileOp → Type
  | createDirs _ | writeFile _ _ | syncFile _ | rename _ _ | removeFile _ | syncParentDir _ =>
    Except Failure Unit
  | isDirectory _ | pathExists _ => Bool
  | createNew _ => Except OpenError Nat
  | hardLink _ _ => Except OpenError Unit
  | nextFile => Except Failure (Option String)
  | fileLen _ => Except Failure Nat

/-- An operation, and the temporary name of the call that performs it. -/
structure FileStep where
  caller : String
  op : FileOp
  deriving DecidableEq

def FileStep.Answer (step : FileStep) : Type := step.op.Answer

structure FileWorld where
  names : String → Option Nat
  data : Nat → Bytes
  /-- The files from here on do not exist yet. -/
  next : Nat
  /-- The name under which a file was created, and by whom. -/
  origin : Nat → String
  creator : Nat → String
  /-- The temporary names that were chosen so far, and the puts that were begun. -/
  temps : List String
  puts : List (String × Bytes)
  /-- What was put under which name. -/
  published : List (String × Bytes)
  /-- The conditional puts that returned `true`, by their temporary names. -/
  wins : List (String × Bytes)

namespace FileWorld

variable (s : FileWorld)

def object (path : String) : Option Bytes := (s.names path).map s.data

def created (caller path : String) : FileWorld :=
  { s with
    names := Function.update s.names path (some s.next)
    data := Function.update s.data s.next []
    next := s.next + 1
    origin := Function.update s.origin s.next path
    creator := Function.update s.creator s.next caller }

def appended (file : Nat) (bytes : Bytes) : FileWorld :=
  { s with data := Function.update s.data file (s.data file ++ bytes) }

def linked (path : String) (file : Nat) : FileWorld :=
  { s with
    names := Function.update s.names path (some file)
    published := (path, s.data file) :: s.published }

def removed (path : String) : FileWorld :=
  { s with names := Function.update s.names path none }

@[simp]
theorem names_created (caller path : String) :
    (s.created caller path).names = Function.update s.names path (some s.next) := rfl

@[simp]
theorem names_linked (path : String) (file : Nat) :
    (s.linked path file).names = Function.update s.names path (some file) := rfl

@[simp]
theorem names_removed (path : String) :
    (s.removed path).names = Function.update s.names path none := rfl

end FileWorld

def FileOp.Does (support : LinkSupport) (caller : String) :
    (op : FileOp) → FileWorld → Option op.Answer → FileWorld → Prop
  | .createDirs _, s, _, s' | .isDirectory _, s, _, s' | .syncFile _, s, _, s'
  | .syncParentDir _, s, _, s' => s' = s
  | .createNew path, s, answer, s' =>
    (s.names path = none ∧ answer = some (.ok s.next) ∧ s' = s.created caller path) ∨
      (s.names path ≠ none ∧ answer = some (.error .alreadyExists) ∧ s' = s) ∨
      (answer = some (.error .other) ∧ s' = s)
  | .writeFile file bytes, s, answer, s' =>
    ∃ written, written <+: bytes ∧ s' = s.appended file written ∧
      (answer = some (.ok ()) → written = bytes)
  | .hardLink source path, s, answer, s' =>
    (support ≠ .never ∧ s.names path = none ∧ answer = some (.ok ()) ∧
      ∃ file, s.names source = some file ∧ s' = s.linked path file) ∨
      (s.names path ≠ none ∧ answer = some (.error .alreadyExists) ∧ s' = s) ∨
      ((support ≠ .always ∨ s.names source = none) ∧ answer = some (.error .other) ∧ s' = s)
  | .rename source path, s, answer, s' =>
    (∃ file, s.names source = some file ∧ answer = some (.ok ()) ∧
      s' = (s.removed source).linked path file) ∨
      ∃ e, answer = some (.error e) ∧ s' = s
  | .removeFile path, s, answer, s' =>
    (answer = some (.ok ()) ∧ s' = s.removed path) ∨ ∃ e, answer = some (.error e) ∧ s' = s
  | .pathExists path, s, answer, s' => answer = some (s.names path).isSome ∧ s' = s
  | .nextFile, s, answer, s' =>
    s' = s ∧ ∀ path, answer = some (.ok (some path)) → s.names path ≠ none
  | .fileLen path, s, answer, s' =>
    s' = s ∧ ∀ size, answer = some (.ok size) → (s.object path).map List.length = some size

abbrev FileProgram (α : Type) : Type := Fallible FileStep.Answer Failure α

/-! The operations that a program performs, with their types. -/

section Operations

variable (me : String)

def createDirs (path : String) : FileProgram Unit := perform (FileStep.mk me (.createDirs path))

def isDirectory (path : String) : FileProgram Bool :=
  Fallible.query (FileStep.mk me (.isDirectory path))

def createNew (path : String) : FileProgram (Except OpenError Nat) :=
  Fallible.query (FileStep.mk me (.createNew path))

def writeFile (file : Nat) (bytes : Bytes) : FileProgram Unit :=
  perform (FileStep.mk me (.writeFile file bytes))

def syncFile (file : Nat) : FileProgram Unit := perform (FileStep.mk me (.syncFile file))

def hardLink (source path : String) : FileProgram (Except OpenError Unit) :=
  Fallible.query (FileStep.mk me (.hardLink source path))

def renameFile (source path : String) : FileProgram Unit :=
  perform (FileStep.mk me (.rename source path))

def removeFile (path : String) : FileProgram Unit := perform (FileStep.mk me (.removeFile path))

def pathExists (path : String) : FileProgram Bool :=
  Fallible.query (FileStep.mk me (.pathExists path))

def syncParentDir (path : String) : FileProgram Unit :=
  perform (FileStep.mk me (.syncParentDir path))

def nextFile : FileProgram (Option String) := perform (FileStep.mk me .nextFile)

def fileLen (path : String) : FileProgram Nat := perform (FileStep.mk me (.fileLen path))

end Operations

section Programs

variable (me : String)

def writeContents (file : Nat) : List Bytes → FileProgram Unit
  | [] => pure ()
  | piece :: rest => do
    let _ ← writeFile me file piece
    writeContents file rest

/-- Run the rest of a write, and remove the temporary file if it fails. -/
def orRemove {α : Type} (tmp : String) (rest : FileProgram α) : FileProgram α := do
  let result ← Fallible.outcome rest
  match result with
  | .ok a => pure a
  | .error e => do
    let _ ← Fallible.outcome (removeFile me tmp)
    Fallible.fail e

/-- `create_atomic_temp`, which takes a new name if one is in use. -/
def createAtomicTemp (dest : String) : List String → FileProgram (String × Nat)
  | [] => Fallible.fail (.message "failed to allocate temporary restore file")
  | uuid :: rest => do
    let tmp := fileRemoteTmpPath dest uuid
    let answer ← createNew me tmp
    match answer with
    | .ok file => pure (tmp, file)
    | .error .alreadyExists => createAtomicTemp dest rest
    | .error .other => Fallible.fail (.message ("create " ++ tmp))

def writeAtomicWith (dest : String) (uuids : List String) (pieces : List Bytes) :
    FileProgram Unit := do
  let directory ← isDirectory me dest
  if directory then Fallible.fail (.message ("restore target is a directory: " ++ dest))
  else do
    let (tmp, file) ← createAtomicTemp me dest uuids
    orRemove me tmp do
      let _ ← writeContents me file pieces
      let _ ← syncFile me file
      let _ ← renameFile me tmp dest
      syncParentDir me dest

/-- `file_remote_put_atomic` and `file_remote_put_file_atomic`. -/
def fileRemotePutAtomic (path : String) (uuids : List String) (pieces : List Bytes) :
    FileProgram Unit := do
  let _ ← createDirs me path
  writeAtomicWith me path uuids pieces

def fileRemoteLockRetries : Nat := 200

/-- What the holder of the lock does. -/
def publishLocked (path tmp : String) : FileProgram Bool := do
  let there ← pathExists me path
  if there then do
    let _ ← removeFile me tmp
    pure false
  else do
    let _ ← renameFile me tmp path
    let _ ← syncParentDir me path
    pure true

def fileRemotePutIfAbsentWithLock (path tmp : String) : Nat → FileProgram Bool
  | 0 => Fallible.fail (.message ("publish remote object " ++ path ++
      " after waiting for fallback lock " ++ fileRemoteLockPath path))
  | left + 1 => do
    let answer ← createNew me (fileRemoteLockPath path)
    match answer with
    | .ok _ => do
      let result ← Fallible.outcome (publishLocked me path tmp)
      let _ ← Fallible.outcome (removeFile me (fileRemoteLockPath path))
      match result with
      | .ok published => pure published
      | .error e => Fallible.fail e
    | .error .alreadyExists => do
      let there ← pathExists me path
      if there then do
        let _ ← removeFile me tmp
        pure false
      else fileRemotePutIfAbsentWithLock path tmp left
    | .error .other =>
      Fallible.fail (.message ("create remote object lock " ++ fileRemoteLockPath path))

/-- How a staged file becomes the object. -/
def publishIfAbsent (path tmp : String) : FileProgram Bool := do
  let answer ← hardLink me tmp path
  match answer with
  | .ok _ => do
    let _ ← removeFile me tmp
    let _ ← syncParentDir me path
    pure true
  | .error .alreadyExists => do
    let _ ← removeFile me tmp
    pure false
  | .error .other => fileRemotePutIfAbsentWithLock me path tmp fileRemoteLockRetries

def fileRemotePutIfAbsentAtomic (path tmp : String) (pieces : List Bytes) : FileProgram Bool := do
  let _ ← createDirs me path
  let answer ← createNew me tmp
  match answer with
  | .error _ => Fallible.fail (.message ("create temporary remote object " ++ tmp))
  | .ok file =>
    orRemove me tmp do
      let _ ← writeContents me file pieces
      let _ ← syncFile me file
      publishIfAbsent me path tmp

/-- `RemoteStore::delete` of a file remote. -/
def fileRemoteDelete (path : String) : FileProgram Unit := do
  let there ← pathExists me path
  if there then removeFile me path else pure ()

/-- `list_file_remote_with_sizes`, for a walk over at most so many files. -/
def listFileRemoteWithSizes (start : String) : Nat → FileProgram (List (String × Nat))
  | 0 => pure []
  | left + 1 => do
    let entry ← nextFile me
    match entry with
    | none => pure []
    | some path =>
      if startsWith path start then do
        let size ← fileLen me path
        let rest ← listFileRemoteWithSizes start left
        pure ((path, size) :: rest)
      else listFileRemoteWithSizes start left

end Programs

def FileStep.Does (support : LinkSupport) (step : FileStep) (s : FileWorld)
    (answer : Option step.Answer) (s' : FileWorld) : Prop :=
  step.op.Does support step.caller s answer s'

def emptyDirectory : FileWorld where
  names _ := none
  data _ := []
  next := 0
  origin _ := ""
  creator _ := ""
  temps := []
  puts := []
  published := []
  wins := []

/-- A file system on which nothing fails but the links of some callers. What a walk finds
next is given. -/
def FileStep.perform (links : String → Bool) (found : FileWorld → Option String) :
    (step : FileStep) → FileWorld → Option (step.Answer × FileWorld)
  | ⟨_, .createDirs _⟩, s | ⟨_, .syncFile _⟩, s | ⟨_, .syncParentDir _⟩, s => some (.ok (), s)
  | ⟨_, .isDirectory _⟩, s => some (false, s)
  | ⟨caller, .createNew path⟩, s =>
    if s.names path = none then some (.ok s.next, s.created caller path)
    else some (.error .alreadyExists, s)
  | ⟨_, .writeFile file bytes⟩, s => some (.ok (), s.appended file bytes)
  | ⟨caller, .hardLink source path⟩, s =>
    if s.names path = none then
      if links caller then (s.names source).map fun file => (.ok (), s.linked path file)
      else some (.error .other, s)
    else some (.error .alreadyExists, s)
  | ⟨_, .rename source path⟩, s =>
    (s.names source).map fun file => (.ok (), (s.removed source).linked path file)
  | ⟨_, .removeFile path⟩, s => some (.ok (), s.removed path)
  | ⟨_, .pathExists path⟩, s => some ((s.names path).isSome, s)
  | ⟨_, .nextFile⟩, s =>
    if (found s).all fun path => (s.names path).isSome then some (.ok (found s), s) else none
  | ⟨_, .fileLen path⟩, s => (s.object path).map fun bytes => (.ok bytes.length, s)

theorem FileStep.does_of_perform {links : String → Bool} {found : FileWorld → Option String}
    {step : FileStep} {s s' : FileWorld} {answer : step.Answer}
    (h : step.perform links found s = some (answer, s')) :
    step.Does .mixed s (some answer) s' := by
  obtain ⟨caller, op⟩ := step
  cases op with
  | createDirs _ | syncFile _ | syncParentDir _ | isDirectory _ =>
    cases h
    rfl
  | createNew path =>
    by_cases free : s.names path = none
    · cases (if_pos free).symm.trans h
      exact Or.inl ⟨free, rfl, rfl⟩
    · cases (if_neg free).symm.trans h
      exact Or.inr (Or.inl ⟨free, rfl, rfl⟩)
  | writeFile file bytes =>
    cases h
    exact ⟨bytes, List.prefix_refl _, rfl, fun _ => rfl⟩
  | hardLink source path =>
    by_cases free : s.names path = none
    · have linked := (if_pos free).symm.trans h
      by_cases works : links caller = true
      · obtain ⟨file, named, eq⟩ := Option.map_eq_some_iff.mp ((if_pos works).symm.trans linked)
        cases eq
        exact Or.inl ⟨nofun, free, rfl, file, named, rfl⟩
      · cases (if_neg works).symm.trans linked
        exact Or.inr (Or.inr ⟨Or.inl nofun, rfl, rfl⟩)
    · cases (if_neg free).symm.trans h
      exact Or.inr (Or.inl ⟨free, rfl, rfl⟩)
  | rename source path =>
    obtain ⟨file, named, eq⟩ := Option.map_eq_some_iff.mp h
    cases eq
    exact Or.inl ⟨file, named, rfl, rfl⟩
  | removeFile path =>
    cases h
    exact Or.inl ⟨rfl, rfl⟩
  | pathExists path =>
    cases h
    exact ⟨rfl, rfl⟩
  | nextFile =>
    obtain ⟨shown, eq⟩ := Option.ite_none_right_eq_some.mp h
    cases eq
    refine ⟨rfl, fun path answer gone => ?_⟩
    have next : found s = some path := Except.ok.inj (Option.some.inj answer)
    rw [next, Option.all_some, gone] at shown
    cases shown
  | fileLen path =>
    obtain ⟨bytes, object, eq⟩ := Option.map_eq_some_iff.mp h
    cases eq
    refine ⟨rfl, fun size answer => ?_⟩
    rw [object, Option.map_some]
    exact congrArg some (Except.ok.inj (Option.some.inj answer))

end Majutsu.Remote
