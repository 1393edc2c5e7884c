import Mathlib.Data.List.Induction
import Mathlib.Data.List.Nodup
import Majutsu.Lib.Utf8
import Majutsu.Repo.TreeStorage

/-!
# Scanning a root

`scan_root` walks the directory of a root and makes a record of every entry that
the rules manage. Names are bytes; the path of a record is text. The rules of a
root are arbitrary predicates on relative paths.
-/

namespace Majutsu.Repo

open Loops

abbrev FileName := Bytes

/-- A path below the directory of a root. -/
abbrev RelPath := List FileName

def pathToSlash (path : RelPath) : String :=
  String.ofList (['/'].intercalate (path.map Utf8.decodeLossy))

structure FileMeta where
  mode : Nat
  modified : Option Int
  uid : Option Nat
  gid : Option Nat
  xattrs : Entries String

mutual

inductive FsNode where
  | file (info : FileMeta) (content : Bytes)
  | directory (info : FileMeta) (children : FsChildren)
  | special (info : FileMeta) (kind : String)
  /-- A symbolic link, and what it leads to. -/
  | link (info : FileMeta) (target : Bytes) (node : FsNode)
  /-- A symbolic link that leads nowhere, or to a directory above it. -/
  | dangling (info : FileMeta) (target : Bytes)

/-- The entries of a directory, in the order the walker has them in. -/
inductive FsChildren where
  | nil
  | cons (name : FileName) (node : FsNode) (rest : FsChildren)

end

namespace FsNode

def info : FsNode → FileMeta
  | .file info _ | .directory info _ | .special info _ | .link info _ _ | .dangling info _ => info

/-- What `metadata` sees. -/
def resolved : FsNode → FsNode
  | .link _ _ node => node.resolved
  | node => node

/-- The file type of a walker that follows links or not. -/
def walked (follow : Bool) (node : FsNode) : FsNode := if follow then node.resolved else node

def isDir : FsNode → Bool
  | .directory _ _ => true
  | _ => false

end FsNode

structure WalkEntry where
  path : RelPath
  node : FsNode

mutual

/-- The walk at a path where `entry` is. -/
def FsNode.walk (follow : Bool) (descends : RelPath → Bool) (path : RelPath) (entry : FsNode) :
    FsNode → Except String (List WalkEntry)
  | .file _ _ | .special _ _ => .ok [⟨path, entry⟩]
  | .directory _ children =>
    if descends path then do
      let below ← children.walk follow descends path
      .ok (⟨path, entry⟩ :: below)
    else .ok []
  | .link _ _ node =>
    if follow then FsNode.walk follow descends path entry node else .ok [⟨path, entry⟩]
  | .dangling _ _ =>
    if follow then .error s!"IO error for operation on {pathToSlash path}"
    else .ok [⟨path, entry⟩]

def FsChildren.walk (follow : Bool) (descends : RelPath → Bool) (path : RelPath) :
    FsChildren → Except String (List WalkEntry)
  | .nil => .ok []
  | .cons name node rest => do
    let first ← FsNode.walk follow descends (path ++ [name]) node node
    let others ← rest.walk follow descends path
    .ok (first ++ others)

end

/-- What the configuration of a root says of relative paths. -/
structure RootRules where
  followSymlinks : Bool
  /-- `root_record_is_managed`. -/
  recordIsManaged : RelPath → Bool → Bool
  /-- `root_dir_allows_descend`. -/
  dirAllowsDescend : RelPath → Bool
  explicitlyTracked : RelPath → Bool
  explicitTrackMayMatchInsideDir : RelPath → Bool

structure AutoTrackPolicy where
  knownPaths : List String
  initialRootScan : Bool
  unknownAddCount : Nat
  maxAutoAdd : Nat

namespace AutoTrackPolicy

variable (policy : AutoTrackPolicy)

def known (rel : String) : Bool := policy.initialRootScan || policy.knownPaths.contains rel

def unknownBatchTooLarge : Bool :=
  !policy.initialRootScan && policy.maxAutoAdd < policy.unknownAddCount

def mayDescend (rules : RootRules) (rel : RelPath) : Bool :=
  if !policy.unknownBatchTooLarge then true
  else if rules.explicitlyTracked rel || rules.explicitTrackMayMatchInsideDir rel then true
  else
    let start := ((pathToSlash rel).toList.dropWhile (· = '/')).reverse.dropWhile (· = '/')
    policy.knownPaths.any (fun known => (start.reverse ++ ['/']).isPrefixOf known.toList)

end AutoTrackPolicy

/-- How the content of a file is classified and stored. -/
structure ContentStore where
  classifyLarge : RelPath → Bytes → Bool
  /-- The length from which a file is stored in chunks. -/
  isChunked : Bytes → Bool
  storeLarge : RelPath → Bytes → Except String (Oid × Key × Nat)
  storeChunked : RelPath → Bytes → Except String (Oid × Key × Nat)
  storeBlob : Bytes → Except String (Oid × Key)
  mediaTypeForPath : RelPath → Option String
  looksBinary : Bytes → Bool
  defaultChunking : String
  largePointerCompression : String
  encryption : String

structure BlobInsert where
  oid : Oid
  size : Nat
  objectKey : Key

structure ScannedRoot where
  records : List FileRecord
  blobs : List BlobInsert
  skippedAutoTrackLarge : Nat
  skippedAutoTrackBatch : Nat

/-- What becomes of an entry. -/
inductive ScanOutcome where
  | unmanaged
  | skippedBatch
  | skippedLarge
  /-- A link that is followed to something that is no file. -/
  | passed
  | recorded (record : FileRecord) (blob : Option BlobInsert)

section Scan

variable (rules : RootRules) (policy : AutoTrackPolicy) (store : ContentStore) (rootId : String)

def fileRecord (rel kind : String) (size : Nat) (info : FileMeta) (xattrs : Entries String)
    (payload : Payload) : FileRecord :=
  ⟨rootId, rel, kind, size, info.mode, info.modified, info.uid, info.gid, xattrs, payload⟩

/-- The content of a file, which is known or small enough to be stored. -/
def storeContent (path : RelPath) (content : Bytes) :
    Except String (Payload × Option BlobInsert) :=
  if store.classifyLarge path content then do
    let (oid, key, count) ← store.storeLarge path content
    let pointer : LargePointer := ⟨store.mediaTypeForPath path, store.looksBinary content,
      store.defaultChunking, store.largePointerCompression, store.encryption,
      "hot-manifest-cold-chunks", "on-demand"⟩
    .ok (.largeObject oid key count pointer, none)
  else if store.isChunked content then do
    let (oid, key, count) ← store.storeChunked path content
    .ok (.chunkedBlob oid key count, none)
  else do
    let (oid, key) ← store.storeBlob content
    let payload := if content.length ≤ smallBlobMaxSize then Payload.inlineSmall oid key
      else .normalBlob oid key
    .ok (payload, some ⟨oid, content.length, key⟩)

def scanFile (path : RelPath) (info : FileMeta) (xattrs : Entries String) (content : Bytes) :
    Except String ScanOutcome := do
  let rel := pathToSlash path
  if !policy.known rel && (store.classifyLarge path content || store.isChunked content) then
    .ok .skippedLarge
  else do
    let (payload, blob) ← storeContent store path content
    .ok (.recorded (fileRecord rootId rel "file" content.length info xattrs payload) blob)

/-- One round of the loop of `scan_root`. -/
def scanEntry (entry : WalkEntry) : Except String ScanOutcome :=
  let rel := pathToSlash entry.path
  let info := entry.node.info
  let isDir := (entry.node.walked rules.followSymlinks).isDir
  if !rules.recordIsManaged entry.path isDir then .ok .unmanaged
  else if isDir then
    .ok (.recorded (fileRecord rootId rel "directory" 0 info info.xattrs .directory) none)
  else if !policy.known rel && policy.unknownBatchTooLarge then .ok .skippedBatch
  else
    match entry.node with
    | .file info content => scanFile policy store rootId entry.path info info.xattrs content
    | .special info kind =>
      .ok (.recorded (fileRecord rootId rel "special" 0 info info.xattrs (.special kind)) none)
    | .directory _ _ => .ok .passed
    | .link info target node =>
      if !rules.followSymlinks then
        .ok (.recorded (fileRecord rootId rel "symlink" 0 info []
          (.symlink (String.ofList (Utf8.decodeLossy target)))) none)
      else
        match node.resolved with
        | .file target content => scanFile policy store rootId entry.path target info.xattrs content
        | .dangling _ _ => .error "No such file or directory (os error 2)"
        | _ => .ok .passed
    | .dangling info target =>
      if !rules.followSymlinks then
        .ok (.recorded (fileRecord rootId rel "symlink" 0 info []
          (.symlink (String.ofList (Utf8.decodeLossy target)))) none)
      else .error "No such file or directory (os error 2)"

def ScannedRoot.add (scanned : ScannedRoot) : ScanOutcome → ScannedRoot
  | .unmanaged | .passed => scanned
  | .skippedBatch => { scanned with skippedAutoTrackBatch := scanned.skippedAutoTrackBatch + 1 }
  | .skippedLarge => { scanned with skippedAutoTrackLarge := scanned.skippedAutoTrackLarge + 1 }
  | .recorded record blob =>
    { scanned with records := scanned.records ++ [record], blobs := scanned.blobs ++ blob.toList }

/-- The entries that the walker gives to `scan_root`. -/
def walkRoot (children : FsChildren) : Except String (List WalkEntry) :=
  children.walk rules.followSymlinks
    (fun rel => rules.dirAllowsDescend rel && policy.mayDescend rules rel) []

def scanRoot (children : FsChildren) : Except String ScannedRoot := do
  let entries ← walkRoot rules policy children
  let outcomes ← entries.mapM (scanEntry rules policy store rootId)
  .ok (outcomes.foldl ScannedRoot.add ⟨[], [], 0, 0⟩)

end Scan

/-- The names that a directory can have. -/
def IsFileName (name : FileName) : Prop := name ≠ [] ∧ 0x2F ∉ name ∧ 0x00 ∉ name

instance (name : FileName) : Decidable (IsFileName name) :=
  inferInstanceAs (Decidable (_ ∧ _ ∧ _))

def FsChildren.names : FsChildren → List FileName
  | .nil => []
  | .cons name _ rest => name :: rest.names

mutual

/-- A tree of a file system: valid names, and none twice in a directory. -/
def FsNode.Proper : FsNode → Prop
  | .directory _ children => children.Proper
  | .link _ _ node => node.Proper
  | .file _ _ | .special _ _ | .dangling _ _ => True

def FsChildren.Proper : FsChildren → Prop
  | .nil => True
  | .cons name node rest => IsFileName name ∧ name ∉ rest.names ∧ node.Proper ∧ rest.Proper

end

mutual

/-- What lies below a node at some names, by way of directories and of links that are followed. -/
def FsNode.find (follow : Bool) : FsNode → RelPath → Option FsNode
  | .directory _ children, rel => children.find follow rel
  | .link _ _ node, rel => if follow then node.find follow rel else none
  | .file _ _, _ | .special _ _, _ | .dangling _ _, _ => none

def FsChildren.find (follow : Bool) : FsChildren → RelPath → Option FsNode
  | .nil, _ | .cons _ _ _, [] => none
  | .cons name node rest, first :: more =>
    if name = first then if more.isEmpty then some node else node.find follow more
    else rest.find follow (first :: more)

end

theorem texts_of_pathToSlash {path other : RelPath} (some_ : path ≠ []) (some' : other ≠ [])
    (names : ∀ name ∈ path, IsFileName name) (names' : ∀ name ∈ other, IsFileName name)
    (same : pathToSlash path = pathToSlash other) :
    path.map Utf8.decodeLossy = other.map Utf8.decodeLossy := by
  have noSlash : ∀ {path : RelPath}, (∀ name ∈ path, IsFileName name) →
      ∀ text ∈ path.map Utf8.decodeLossy, '/' ∉ text := by
    intro path names text member inside
    obtain ⟨name, inPath, rfl⟩ := List.mem_map.mp member
    have single : String.utf8EncodeChar '/' = [0x2F] := by decide +kernel
    have slash := Utf8.mem_of_mem_decodeLossy single (by decide +kernel) inside
    exact (names name inPath).2.1 slash
  rw [← List.splitOn_intercalate '/' (noSlash names) (by simpa using some_),
    ← List.splitOn_intercalate '/' (noSlash names') (by simpa using some'),
    String.ofList_injective same]

section Walk

variable {follow : Bool} {descends : RelPath → Bool}

theorem FsChildren.find_nil (children : FsChildren) : children.find follow [] = none := by
  cases children <;> rfl

theorem FsChildren.mem_names_of_find {node : FsNode} {first : FileName} {more : RelPath} :
    ∀ {children : FsChildren}, children.find follow (first :: more) = some node →
      first ∈ children.names
  | .nil, h => by cases h
  | .cons name _ rest, h => by
    rw [FsChildren.find] at h
    split at h
    · next same => exact same ▸ List.mem_cons_self
    · exact List.mem_cons_of_mem _ (FsChildren.mem_names_of_find h)

theorem FsNode.isDir_of_find {rel : RelPath} {found : FsNode} :
    ∀ {node : FsNode}, node.find follow rel = some found → (node.walked follow).isDir = true
  | .directory _ _, _ => by
    unfold FsNode.walked
    split <;> rfl
  | .link _ _ node, h => by
    rw [FsNode.find] at h
    split at h
    · next followed =>
      have inner := FsNode.isDir_of_find h
      rw [FsNode.walked, if_pos followed] at inner ⊢
      exact inner
    · cases h
  | .file _ _, h | .special _ _, h | .dangling _ _, h => by cases h

mutual

theorem FsNode.valid_of_find {rel : RelPath} {found : FsNode} :
    ∀ {node : FsNode}, node.Proper → node.find follow rel = some found →
      ∀ name ∈ rel, IsFileName name
  | .directory _ children, proper, h => FsChildren.valid_of_find proper h
  | .link _ _ node, proper, h => by
    have inner : node.Proper := proper
    rw [FsNode.find] at h
    split at h
    · exact FsNode.valid_of_find inner h
    · cases h
  | .file _ _, _, h | .special _ _, _, h | .dangling _ _, _, h => by cases h

theorem FsChildren.valid_of_find {rel : RelPath} {found : FsNode} :
    ∀ {children : FsChildren}, children.Proper → children.find follow rel = some found →
      ∀ name ∈ rel, IsFileName name
  | .nil, _, h => by cases h
  | .cons name node rest, ⟨valid, _, inNode, inRest⟩, h => by
    cases rel with
    | nil => cases h
    | cons first more =>
      rw [FsChildren.find] at h
      split at h
      · next same =>
        subst same
        split at h
        · next last =>
          rw [List.isEmpty_iff.mp last]
          simpa using valid
        · exact List.forall_mem_cons.mpr ⟨valid, FsNode.valid_of_find inNode h⟩
      · exact FsChildren.valid_of_find inRest h

end

/-- The walker may enter the directories between a path and what lies below it at some names, and
that itself if it is a directory. -/
structure Opens (follow : Bool) (descends : RelPath → Bool) (path rel : RelPath) (node : FsNode) :
    Prop where
  between : ∀ above, above ≠ [] → above <+: rel → above ≠ rel → descends (path ++ above) = true
  own : (node.walked follow).isDir = true → descends (path ++ rel) = true

theorem opens_single {path : RelPath} {name : FileName} {node : FsNode} :
    Opens follow descends path [name] node ↔
      ((node.walked follow).isDir = true → descends (path ++ [name]) = true) := by
  refine ⟨fun opens => opens.own, fun own => ⟨?_, own⟩⟩
  intro above some_ start other
  rcases List.prefix_cons_iff.mp start with none | ⟨more, rfl, rest⟩
  · exact absurd none some_
  · exact absurd (by rw [List.prefix_nil.mp rest]) other

theorem opens_cons {path rel : RelPath} {name : FileName} {node : FsNode} (deeper : rel ≠ []) :
    Opens follow descends path (name :: rel) node ↔
      descends (path ++ [name]) = true ∧ Opens follow descends (path ++ [name]) rel node := by
  have shift : ∀ more : RelPath, path ++ name :: more = path ++ [name] ++ more := by simp
  constructor
  · rintro ⟨between, own⟩
    refine ⟨between [name] (by simp) (by simp) (by simpa using deeper.symm), ⟨?_, ?_⟩⟩
    · intro above _ start other
      rw [← shift]
      exact between (name :: above) (by simp) (by simpa using start) (by simpa using other)
    · rwa [← shift]
  · rintro ⟨first, between, own⟩
    refine ⟨?_, by rwa [shift]⟩
    intro above some_ start other
    rcases List.prefix_cons_iff.mp start with none | ⟨more, rfl, rest⟩
    · exact absurd none some_
    · rw [shift]
      by_cases last : more = []
      · rw [last, List.append_nil]
        exact first
      · exact between more last rest (by simpa using other)

mutual

theorem FsNode.mem_walk {path : RelPath} {entry : FsNode} {found : WalkEntry} :
    ∀ {node : FsNode} {entries : List WalkEntry}, node.Proper →
      FsNode.walk follow descends path entry node = .ok entries →
      (found ∈ entries ↔ ((node.walked follow).isDir = true → descends path = true) ∧
        (found = ⟨path, entry⟩ ∨ ∃ rel, rel ≠ [] ∧ found.path = path ++ rel ∧
          node.find follow rel = some found.node ∧
          Opens follow descends path rel found.node))
  | .file _ _, _, _, h => by
    obtain rfl := Except.ok.inj h
    cases follow <;> simp [FsNode.find, FsNode.walked, FsNode.resolved, FsNode.isDir]
  | .special _ _, _, _, h => by
    obtain rfl := Except.ok.inj h
    cases follow <;> simp [FsNode.find, FsNode.walked, FsNode.resolved, FsNode.isDir]
  | .dangling _ _, _, _, h => by
    rw [FsNode.walk] at h
    split at h
    · cases h
    · next unfollowed =>
      obtain rfl := Except.ok.inj h
      simp [FsNode.find, FsNode.walked, unfollowed, FsNode.isDir]
  | .link _ _ node, _, proper, h => by
    have inner : node.Proper := proper
    rw [FsNode.walk] at h
    split at h
    · next followed =>
      rw [FsNode.mem_walk inner h]
      simp [FsNode.find, FsNode.walked, followed, FsNode.resolved]
    · next unfollowed =>
      obtain rfl := Except.ok.inj h
      simp [FsNode.find, FsNode.walked, unfollowed, FsNode.isDir]
  | .directory info children, entries, proper, h => by
    have isDir : ((FsNode.directory info children).walked follow).isDir = true := by
      unfold FsNode.walked
      split <;> rfl
    rw [isDir]
    rw [FsNode.walk] at h
    split at h
    · next entered =>
      obtain ⟨inside, walked, result⟩ := of_bind h
      obtain rfl := Except.ok.inj result
      rw [List.mem_cons, FsChildren.mem_walk proper walked]
      simp only [entered, implies_true, true_and, FsNode.find]
      refine or_congr_right ⟨?_, ?_⟩
      · rintro ⟨rel, at_, there, opens⟩
        refine ⟨rel, ?_, at_, there, opens⟩
        rintro rfl
        rw [children.find_nil] at there
        cases there
      · rintro ⟨rel, -, at_, there, opens⟩
        exact ⟨rel, at_, there, opens⟩
    · next closed =>
      obtain rfl := Except.ok.inj h
      simp [closed]

/-- The walker visits what lies at some names exactly if it may enter the directories there. -/
theorem FsChildren.mem_walk {path : RelPath} {found : WalkEntry} :
    ∀ {children : FsChildren} {entries : List WalkEntry}, children.Proper →
      children.walk follow descends path = .ok entries →
      (found ∈ entries ↔ ∃ rel, found.path = path ++ rel ∧
        children.find follow rel = some found.node ∧ Opens follow descends path rel found.node)
  | .nil, _, _, h => by
    obtain rfl := Except.ok.inj h
    simp [FsChildren.find]
  | .cons name node rest, _, ⟨_, fresh, inNode, inRest⟩, h => by
    rw [FsChildren.walk] at h
    obtain ⟨first, walked, h⟩ := of_bind h
    obtain ⟨others, walked', h⟩ := of_bind h
    obtain rfl := Except.ok.inj h
    rw [List.mem_append, FsNode.mem_walk inNode walked, FsChildren.mem_walk inRest walked']
    constructor
    · rintro (⟨own, rfl | ⟨rel, deeper, at_, there, opens⟩⟩ | ⟨rel, at_, there, opens⟩)
      · exact ⟨[name], rfl, by simp [FsChildren.find], opens_single.mpr own⟩
      · refine ⟨name :: rel, by simpa using at_, ?_, (opens_cons deeper).mpr ⟨?_, opens⟩⟩
        · simp [FsChildren.find, deeper, there]
        · exact own (FsNode.isDir_of_find there)
      · refine ⟨rel, at_, ?_, opens⟩
        cases rel with
        | nil =>
          rw [rest.find_nil] at there
          cases there
        | cons one more =>
          have other : name ≠ one := fun same => fresh (same ▸ FsChildren.mem_names_of_find there)
          rw [FsChildren.find, if_neg other]
          exact there
    · rintro ⟨rel, at_, there, opens⟩
      cases rel with
      | nil => cases there
      | cons one more =>
        rw [FsChildren.find] at there
        split at there
        · next same =>
          subst same
          left
          split at there
          · next last =>
            rw [List.isEmpty_iff.mp last] at opens at_
            cases there
            exact ⟨opens_single.mp opens, Or.inl (by rw [← at_])⟩
          · next deeper =>
            rw [List.isEmpty_iff] at deeper
            obtain ⟨entered, opens⟩ := (opens_cons deeper).mp opens
            exact ⟨fun _ => entered, Or.inr ⟨more, deeper, by simpa using at_, there, opens⟩⟩
        · exact Or.inr ⟨one :: more, at_, there, opens⟩

end

end Walk

def FsNode.isSpecial : FsNode → Bool
  | .special _ _ => true
  | _ => false

/-- A link that is followed to a special file. -/
def FsNode.leadsToSpecial (follow : Bool) : FsNode → Bool
  | .link _ _ node => follow && node.resolved.isSpecial
  | _ => false

theorem FsNode.resolved_ne_link : ∀ (node : FsNode) {info : FileMeta} {target : Bytes}
    {other : FsNode}, node.resolved ≠ .link info target other
  | .link _ _ node => node.resolved_ne_link
  | .file _ _ | .directory _ _ | .special _ _ | .dangling _ _ => fun same => by cases same

def ScanOutcome.isReported : ScanOutcome → Bool
  | .skippedBatch | .skippedLarge => true
  | _ => false

def ScanOutcome.record : ScanOutcome → Option FileRecord
  | .recorded record _ => some record
  | _ => none

section Outcomes

variable (rules : RootRules) (policy : AutoTrackPolicy) (store : ContentStore) (rootId : String)

def isManaged (entry : WalkEntry) : Bool :=
  rules.recordIsManaged entry.path (entry.node.walked rules.followSymlinks).isDir

/-- The scan counts the entry as skipped. -/
def isReported (entry : WalkEntry) : Bool :=
  match scanEntry rules policy store rootId entry with
  | .ok outcome => outcome.isReported
  | .error _ => false

/-- An unknown entry that is no directory, of too many or too large. -/
def isSkipped (entry : WalkEntry) : Bool :=
  !policy.known (pathToSlash entry.path) &&
    match entry.node.walked rules.followSymlinks with
    | .directory _ _ => false
    | .file _ content => policy.unknownBatchTooLarge || store.classifyLarge entry.path content ||
        store.isChunked content
    | _ => policy.unknownBatchTooLarge

variable {rules policy store rootId}

theorem scanFile_cases {path : RelPath} {info : FileMeta} {xattrs : Entries String}
    {content : Bytes} {outcome : ScanOutcome}
    (h : scanFile policy store rootId path info xattrs content = .ok outcome) :
    if !policy.known (pathToSlash path) &&
        (store.classifyLarge path content || store.isChunked content) then outcome = .skippedLarge
    else ∃ record blob, outcome = .recorded record blob ∧ record.path = pathToSlash path := by
  unfold scanFile at h
  dsimp only at h
  split at h
  · next large =>
    rw [if_pos large]
    exact (Except.ok.inj h).symm
  · next small =>
    rw [if_neg small]
    obtain ⟨⟨payload, blob⟩, -, result⟩ := of_bind h
    exact ⟨_, blob, (Except.ok.inj result).symm, rfl⟩

/-- What becomes of an entry. -/
inductive Becomes (rules : RootRules) (policy : AutoTrackPolicy) (store : ContentStore)
    (entry : WalkEntry) : ScanOutcome → Prop
  | unmanaged : isManaged rules entry = false → Becomes rules policy store entry .unmanaged
  | skipped {outcome : ScanOutcome} : isManaged rules entry = true →
      isSkipped rules policy store entry = true → outcome.isReported = true →
      Becomes rules policy store entry outcome
  | passed : isManaged rules entry = true → isSkipped rules policy store entry = false →
      entry.node.leadsToSpecial rules.followSymlinks = true →
      Becomes rules policy store entry .passed
  | recorded {record : FileRecord} {blob : Option BlobInsert} : isManaged rules entry = true →
      isSkipped rules policy store entry = false →
      entry.node.leadsToSpecial rules.followSymlinks = false →
      record.path = pathToSlash entry.path →
      Becomes rules policy store entry (.recorded record blob)

theorem becomes_of_scanFile {entry : WalkEntry} {info info' : FileMeta} {xattrs : Entries String}
    {content : Bytes} {outcome : ScanOutcome} (managed : isManaged rules entry = true)
    (walked : entry.node.walked rules.followSymlinks = .file info' content)
    (few : ¬ (!policy.known (pathToSlash entry.path) && policy.unknownBatchTooLarge) = true)
    (plain : entry.node.leadsToSpecial rules.followSymlinks = false)
    (h : scanFile policy store rootId entry.path info xattrs content = .ok outcome) :
    Becomes rules policy store entry outcome := by
  have cases_ := scanFile_cases h
  have skipped : isSkipped rules policy store entry =
      (!policy.known (pathToSlash entry.path) &&
        (store.classifyLarge entry.path content || store.isChunked content)) := by
    rw [isSkipped, walked]
    cases known : policy.known (pathToSlash entry.path) with
    | true => rfl
    | false =>
      rw [known] at few
      simp only [Bool.not_false, Bool.true_and, Bool.not_eq_true] at few
      simp [few]
  split at cases_
  · next large =>
    subst cases_
    exact .skipped managed (skipped.trans large) rfl
  · next small =>
    obtain ⟨record, blob, rfl, path⟩ := cases_
    exact .recorded managed (skipped.trans (Bool.eq_false_iff.mpr small)) plain path

theorem leadsToSpecial_of_isDir {node : FsNode} {follow : Bool}
    (isDir : (node.walked follow).isDir = true) : node.leadsToSpecial follow = false := by
  cases node with
  | link info target inner =>
    cases follow with
    | false => rfl
    | true =>
      have resolved : inner.resolved.isDir = true := isDir
      cases shape : inner.resolved with
      | special => simp [shape, FsNode.isDir] at resolved
      | _ => simp [FsNode.leadsToSpecial, shape, FsNode.isSpecial]
  | _ => rfl

theorem isSkipped_of_isDir {entry : WalkEntry}
    (isDir : (entry.node.walked rules.followSymlinks).isDir = true) :
    isSkipped rules policy store entry = false := by
  unfold isSkipped
  cases walked : entry.node.walked rules.followSymlinks with
  | directory => simp
  | _ => simp [walked, FsNode.isDir] at isDir

theorem isSkipped_of_batch {entry : WalkEntry}
    (file : ¬ (entry.node.walked rules.followSymlinks).isDir = true)
    (batch : (!policy.known (pathToSlash entry.path) && policy.unknownBatchTooLarge) = true) :
    isSkipped rules policy store entry = true := by
  rw [Bool.and_eq_true] at batch
  unfold isSkipped
  cases walked : entry.node.walked rules.followSymlinks with
  | directory => simp [walked, FsNode.isDir] at file
  | _ => simp [batch]

/-- An entry that is neither a directory nor a file is skipped only with too many others. -/
theorem isSkipped_eq_false {entry : WalkEntry}
    (few : ¬ (!policy.known (pathToSlash entry.path) && policy.unknownBatchTooLarge) = true)
    (other : ∀ info content, entry.node.walked rules.followSymlinks ≠ .file info content) :
    isSkipped rules policy store entry = false := by
  rw [Bool.and_eq_true, not_and] at few
  unfold isSkipped
  cases known : policy.known (pathToSlash entry.path) with
  | true => rfl
  | false =>
    have room := few (by simp [known])
    cases walked : entry.node.walked rules.followSymlinks with
    | file info content => exact absurd walked (other info content)
    | _ => simp [room]

/-- What is no file, no directory and not missing is special. -/
theorem isSpecial_resolved {node : FsNode} (file : ∀ info content, node.resolved ≠ .file info content)
    (dangling : ∀ info target, node.resolved ≠ .dangling info target)
    (directory : ¬ node.resolved.isDir = true) : node.resolved.isSpecial = true := by
  cases resolved : node.resolved with
  | special => rfl
  | file info content => exact absurd resolved (file info content)
  | dangling info target => exact absurd resolved (dangling info target)
  | link info target inner => exact absurd resolved node.resolved_ne_link
  | directory info children =>
    rw [resolved] at directory
    exact absurd rfl directory

theorem scanEntry_becomes {entry : WalkEntry} {outcome : ScanOutcome}
    (h : scanEntry rules policy store rootId entry = .ok outcome) :
    Becomes rules policy store entry outcome := by
  unfold scanEntry at h
  dsimp only at h
  cases managed : isManaged rules entry with
  | false =>
    have unmanaged := managed
    unfold isManaged at unmanaged
    rw [unmanaged] at h
    obtain rfl := Except.ok.inj h
    exact .unmanaged managed
  | true =>
    have kept := managed
    unfold isManaged at kept
    rw [kept] at h
    split at h
    · cases ‹(!true) = true›
    split at h
    · next isDir =>
      obtain rfl := Except.ok.inj h
      exact .recorded managed (isSkipped_of_isDir isDir) (leadsToSpecial_of_isDir isDir) rfl
    next noDirectory =>
    split at h
    · next batch =>
      obtain rfl := Except.ok.inj h
      exact .skipped managed (isSkipped_of_batch noDirectory batch) rfl
    next few =>
    have unfollowed : ∀ {node : FsNode}, entry.node = node → node.resolved = node →
        entry.node.walked rules.followSymlinks = node := by
      intro node shape resolved
      rw [FsNode.walked, shape, resolved]
      exact ite_self node
    cases shape : entry.node with
    | file info content =>
      rw [shape] at h
      exact becomes_of_scanFile managed (unfollowed shape rfl) few (by rw [shape]; rfl) h
    | special info kind =>
      rw [shape] at h
      obtain rfl := Except.ok.inj h
      refine .recorded managed (isSkipped_eq_false few ?_) (by rw [shape]; rfl) rfl
      simp [unfollowed shape rfl]
    | directory info children =>
      rw [unfollowed shape rfl] at noDirectory
      exact absurd rfl noDirectory
    | dangling info target =>
      rw [shape] at h
      dsimp only at h
      split at h
      · obtain rfl := Except.ok.inj h
        refine .recorded managed (isSkipped_eq_false few ?_) (by rw [shape]; rfl) rfl
        simp [unfollowed shape rfl]
      · cases h
    | link info target node =>
      rw [shape] at h
      dsimp only at h
      cases follow : rules.followSymlinks with
      | false =>
        rw [follow] at h
        obtain rfl := Except.ok.inj h
        refine .recorded managed (isSkipped_eq_false few ?_) (by rw [shape, follow]; rfl) rfl
        simp [FsNode.walked, follow, shape]
      | true =>
        rw [follow] at h
        simp only [Bool.not_true, Bool.false_eq_true, if_false] at h
        have walked : entry.node.walked rules.followSymlinks = node.resolved := by
          rw [FsNode.walked, follow, shape]
          rfl
        split at h
        · next info' content resolved =>
          refine becomes_of_scanFile managed (walked.trans resolved) few ?_ h
          rw [shape, FsNode.leadsToSpecial, resolved]
          exact Bool.and_false _
        · cases h
        · next noFile noDangling =>
          obtain rfl := Except.ok.inj h
          refine .passed managed (isSkipped_eq_false few ?_) ?_
          · rw [walked]
            exact noFile
          · rw [shape, FsNode.leadsToSpecial, follow]
            exact isSpecial_resolved noFile noDangling (walked ▸ noDirectory)

theorem isReported_eq {entry : WalkEntry} {outcome : ScanOutcome}
    (h : scanEntry rules policy store rootId entry = .ok outcome)
    (managed : isManaged rules entry = true) :
    isReported rules policy store rootId entry = isSkipped rules policy store entry := by
  rw [isReported, h]
  cases scanEntry_becomes h with
  | unmanaged unmanaged => simp [managed] at unmanaged
  | skipped _ skipped reported => exact reported.trans skipped.symm
  | passed _ kept _ => exact kept.symm
  | recorded _ kept _ _ => exact kept.symm

theorem records_foldl_add (outcomes : List ScanOutcome) (scanned : ScannedRoot) :
    (outcomes.foldl ScannedRoot.add scanned).records =
      scanned.records ++ outcomes.filterMap ScanOutcome.record := by
  induction outcomes generalizing scanned with
  | nil => simp
  | cons outcome outcomes ih =>
    rw [List.foldl_cons, ih]
    cases outcome <;> simp [ScannedRoot.add, ScanOutcome.record, List.filterMap_cons]

theorem mem_names_recordsByPath {records : List FileRecord} {name : String} :
    name ∈ (recordsByPath records).map Prod.fst ↔ ∃ record ∈ records, record.path = name := by
  induction records using List.reverseRecOn with
  | nil => simp [recordsByPath]
  | append_singleton records record ih =>
    have others : name ∈ ((recordsByPath records).filter
        (fun entry => decide (entry.1 ≠ record.path))).map Prod.fst ↔
          name ≠ record.path ∧ name ∈ (recordsByPath records).map Prod.fst := by
      simp only [List.mem_map, List.mem_filter, decide_eq_true_eq]
      constructor
      · rintro ⟨entry, ⟨member, other⟩, rfl⟩
        exact ⟨other, entry, member, rfl⟩
      · rintro ⟨other, entry, member, rfl⟩
        exact ⟨entry, ⟨member, other⟩, rfl⟩
    rw [recordsByPath_append, Entries.insert, List.map_append, List.mem_append, others, ih]
    by_cases same : name = record.path
    · simp [same]
    · have other : record.path ≠ name := fun eq => same eq.symm
      simp [same, other]

theorem outcomes_of_scanRoot {children : FsChildren} {entries : List WalkEntry}
    {scanned : ScannedRoot} (walked : walkRoot rules policy children = .ok entries)
    (scan : scanRoot rules policy store rootId children = .ok scanned) :
    ∃ outcomes, entries.mapM (scanEntry rules policy store rootId) = .ok outcomes ∧
      scanned.records = outcomes.filterMap ScanOutcome.record := by
  obtain ⟨entries', walked', h⟩ := of_bind scan
  obtain rfl : entries' = entries := Except.ok.inj (walked'.symm.trans walked)
  obtain ⟨outcomes, visited, result⟩ := of_bind h
  obtain rfl := Except.ok.inj result
  exact ⟨outcomes, visited, records_foldl_add outcomes _⟩

/-- The paths of the tree are those of the entries that became records. -/
theorem mem_paths_scanRoot (names : TreeNames) {children : FsChildren} {entries : List WalkEntry}
    {scanned : ScannedRoot} {path : String} (walked : walkRoot rules policy children = .ok entries)
    (scan : scanRoot rules policy store rootId children = .ok scanned) :
    path ∈ (buildTreeManifest names rootId scanned.records).entries.map Prod.fst ↔
      ∃ entry ∈ entries, pathToSlash entry.path = path ∧ ∃ record blob,
        scanEntry rules policy store rootId entry = .ok (.recorded record blob) := by
  obtain ⟨outcomes, visited, records⟩ := outcomes_of_scanRoot walked scan
  show path ∈ (recordsByPath scanned.records).map Prod.fst ↔ _
  rw [mem_names_recordsByPath, records]
  constructor
  · rintro ⟨record, inside, rfl⟩
    obtain ⟨outcome, listed, isRecord⟩ := List.mem_filterMap.mp inside
    obtain ⟨entry, member, became⟩ := mem_of_mapM visited listed
    cases outcome with
    | recorded record' blob =>
      cases isRecord
      cases scanEntry_becomes became with
      | skipped _ _ reported => cases reported
      | recorded _ _ _ path => exact ⟨entry, member, path.symm, record, blob, became⟩
    | _ => cases isRecord
  · rintro ⟨entry, member, rfl, record, blob, became⟩
    obtain ⟨outcome, became', listed⟩ := mapM_mem visited member
    cases became.symm.trans became'
    refine ⟨record, List.mem_filterMap.mpr ⟨_, listed, rfl⟩, ?_⟩
    cases scanEntry_becomes became with
    | skipped _ _ reported => cases reported
    | recorded _ _ _ path => exact path

end Outcomes

section Apart

variable (rules : RootRules) (policy : AutoTrackPolicy) (store : ContentStore)
  (children : FsChildren)

/-- An entry that the tree should have: it lies in the root where the walker may go, and it is
managed and not skipped. -/
structure Due (entry : WalkEntry) : Prop where
  there : children.find rules.followSymlinks entry.path = some entry.node
  reached : Opens rules.followSymlinks
    (fun rel => rules.dirAllowsDescend rel && policy.mayDescend rules rel) [] entry.path entry.node
  managed : isManaged rules entry = true
  kept : isSkipped rules policy store entry = false

/-- No two entries have names that are the same as lossy texts, and no followed link leads to a
special file. -/
structure Separable : Prop where
  names : ∀ entry other, Due rules policy store children entry →
    Due rules policy store children other →
    entry.path.map Utf8.decodeLossy = other.path.map Utf8.decodeLossy → entry.path = other.path
  links : ∀ entry, Due rules policy store children entry →
    entry.node.leadsToSpecial rules.followSymlinks = false

variable {rules policy store children} {rootId : String}

theorem mem_walkRoot {entries : List WalkEntry} {entry : WalkEntry} (proper : children.Proper)
    (walked : walkRoot rules policy children = .ok entries) :
    entry ∈ entries ↔ children.find rules.followSymlinks entry.path = some entry.node ∧
      Opens rules.followSymlinks (fun rel => rules.dirAllowsDescend rel &&
        policy.mayDescend rules rel) [] entry.path entry.node := by
  rw [FsChildren.mem_walk proper walked]
  simp

theorem pathToSlash_eq_iff (proper : children.Proper) {entry other : WalkEntry}
    (due : Due rules policy store children entry) (due' : Due rules policy store children other) :
    pathToSlash entry.path = pathToSlash other.path ↔
      entry.path.map Utf8.decodeLossy = other.path.map Utf8.decodeLossy := by
  have some_ : ∀ {entry : WalkEntry}, Due rules policy store children entry → entry.path ≠ [] := by
    intro entry due empty
    have there := due.there
    rw [empty, children.find_nil] at there
    cases there
  constructor
  · exact texts_of_pathToSlash (some_ due) (some_ due') (FsChildren.valid_of_find proper due.there)
      (FsChildren.valid_of_find proper due'.there)
  · intro same
    rw [pathToSlash, pathToSlash, same]

/-- The entries that the tree should have are those that are visited, managed and not reported. -/
theorem due_iff_visited {entries : List WalkEntry} {scanned : ScannedRoot}
    (proper : children.Proper) (walked : walkRoot rules policy children = .ok entries)
    (scan : scanRoot rules policy store rootId children = .ok scanned) (entry : WalkEntry) :
    Due rules policy store children entry ↔ entry ∈ entries ∧
      isManaged rules entry = true ∧ isReported rules policy store rootId entry = false := by
  obtain ⟨outcomes, visited, -⟩ := outcomes_of_scanRoot walked scan
  have reported : entry ∈ entries → isManaged rules entry = true →
      isReported rules policy store rootId entry = isSkipped rules policy store entry := by
    intro inside managed
    obtain ⟨outcome, became, -⟩ := mapM_mem visited inside
    exact isReported_eq became managed
  rw [mem_walkRoot proper walked] at reported ⊢
  constructor
  · rintro ⟨there, reached, managed, kept⟩
    exact ⟨⟨there, reached⟩, managed, (reported ⟨there, reached⟩ managed).trans kept⟩
  · rintro ⟨there, managed, unreported⟩
    exact ⟨there.1, there.2, managed, (reported there managed).symm.trans unreported⟩

end Apart

/-- The scan keeps entries apart: those that are managed and not reported as skipped have paths of
their own, and these are the paths of the tree, each once. -/
structure KeepsApart (rules : RootRules) (policy : AutoTrackPolicy) (store : ContentStore)
    (rootId : String) (entries : List WalkEntry) (tree : TreeManifest) : Prop where
  apart : ∀ entry ∈ entries, ∀ other ∈ entries, isManaged rules entry = true →
    isManaged rules other = true → isReported rules policy store rootId entry = false →
    isReported rules policy store rootId other = false →
    pathToSlash entry.path = pathToSlash other.path → entry = other
  once : (tree.entries.map Prod.fst).Nodup
  paths : ∀ path, path ∈ tree.entries.map Prod.fst ↔ ∃ entry ∈ entries,
    isManaged rules entry = true ∧ isReported rules policy store rootId entry = false ∧
      pathToSlash entry.path = path

/-- A scan keeps the entries of a root apart exactly if those that the tree should have differ as
lossy texts and no link among them is followed to a special file. -/
theorem scanRoot_keeps_apart_iff {rules : RootRules} {policy : AutoTrackPolicy}
    {store : ContentStore} {rootId : String} {names : TreeNames} {children : FsChildren}
    {entries : List WalkEntry} {scanned : ScannedRoot} (proper : children.Proper)
    (walked : walkRoot rules policy children = .ok entries)
    (scan : scanRoot rules policy store rootId children = .ok scanned) :
    KeepsApart rules policy store rootId entries
        (buildTreeManifest names rootId scanned.records) ↔
      Separable rules policy store children := by
  obtain ⟨outcomes, visited, -⟩ := outcomes_of_scanRoot walked scan
  have due_iff := due_iff_visited proper walked scan
  constructor
  · intro keeps
    constructor
    · intro entry other due due' same
      obtain ⟨inside, managed, unreported⟩ := (due_iff entry).mp due
      obtain ⟨inside', managed', unreported'⟩ := (due_iff other).mp due'
      rw [keeps.apart entry inside other inside' managed managed' unreported unreported'
        ((pathToSlash_eq_iff proper due due').mpr same)]
    · -- the path of the link is in the tree, so some entry with this path has a record
      intro entry due
      obtain ⟨inside, managed, unreported⟩ := (due_iff entry).mp due
      have listed :=
        (keeps.paths (pathToSlash entry.path)).mpr ⟨entry, inside, managed, unreported, rfl⟩
      obtain ⟨other, inside', same, record, blob, became⟩ :=
        (mem_paths_scanRoot names walked scan).mp listed
      cases scanEntry_becomes became with
      | skipped _ _ reported => cases reported
      | recorded managed' kept plain _ =>
        rw [← keeps.apart other inside' entry inside managed' managed
          ((isReported_eq became managed').trans kept) unreported same]
        exact plain
  · intro separable
    constructor
    · intro entry inside other inside' managed managed' unreported unreported' same
      have due := (due_iff entry).mpr ⟨inside, managed, unreported⟩
      have due' := (due_iff other).mpr ⟨inside', managed', unreported'⟩
      have path := separable.names entry other due due'
        ((pathToSlash_eq_iff proper due due').mp same)
      have node : entry.node = other.node :=
        Option.some.inj (due.there.symm.trans (path ▸ due'.there))
      cases entry
      cases other
      cases path
      cases node
      rfl
    · exact (byPath_recordsByPath scanned.records).once
    · intro path
      rw [mem_paths_scanRoot names walked scan]
      constructor
      · rintro ⟨entry, inside, rfl, record, blob, became⟩
        cases scanEntry_becomes became with
        | skipped _ _ reported => cases reported
        | recorded managed kept _ _ =>
          exact ⟨entry, inside, managed, (isReported_eq became managed).trans kept, rfl⟩
      · rintro ⟨entry, inside, managed, unreported, rfl⟩
        have due := (due_iff entry).mpr ⟨inside, managed, unreported⟩
        obtain ⟨outcome, became, -⟩ := mapM_mem visited inside
        refine ⟨entry, inside, rfl, ?_⟩
        have becomes := scanEntry_becomes became
        cases becomes with
        | unmanaged unmanaged => simp [managed] at unmanaged
        | skipped _ skipped _ => simp [due.kept] at skipped
        | passed _ _ leads => simp [separable.links entry due] at leads
        | recorded => exact ⟨_, _, became⟩

namespace ByteNames

def info : FileMeta := ⟨0o100644, none, none, none, []⟩

def store : ContentStore where
  classifyLarge := fun _ _ => false
  isChunked := fun _ => false
  storeLarge := fun _ _ => .error "not large"
  storeChunked := fun _ _ => .error "not chunked"
  storeBlob := fun _ => .ok ("oid", "objects/blobs/oid")
  mediaTypeForPath := fun _ => none
  looksBinary := fun _ => false
  defaultChunking := "fixed"
  largePointerCompression := "none"
  encryption := "none"

def rules (follow : Bool) : RootRules where
  followSymlinks := follow
  recordIsManaged := fun _ _ => true
  dirAllowsDescend := fun _ => true
  explicitlyTracked := fun _ => false
  explicitTrackMayMatchInsideDir := fun _ => false

def policy : AutoTrackPolicy := ⟨[], true, 0, 100⟩

def treeNames : TreeNames where
  treeId := fun _ => "tree"
  nodeId := fun _ path _ _ => path
  tree := fun _ => "objects/trees/tree"
  node := fun node => "objects/trees/nodes/" ++ node.path

def oneByte : FsChildren :=
  .cons [0x61] (.directory info (.cons [0xC3, 0xA9] (.file info [1]) .nil))
    (.cons [0xFF] (.file info [2]) .nil)

def twoBytes : FsChildren :=
  .cons [0xFE] (.file info [1]) (.cons [0xFF] (.file info [2]) .nil)

def linked : FsChildren :=
  .cons [0x61] (.link info [0x62] (.special info "fifo")) .nil

/-- The entries that the walker visits, and the paths of the tree. -/
def visited (follow : Bool) (children : FsChildren) :
    Option (List RelPath × List String × Nat) := do
  let entries ← (walkRoot (rules follow) policy children).toOption
  let scanned ← (scanRoot (rules follow) policy store "docs" children).toOption
  some (entries.map WalkEntry.path,
    (buildTreeManifest treeNames "docs" scanned.records).entries.map Prod.fst,
    scanned.skippedAutoTrackLarge + scanned.skippedAutoTrackBatch)

end ByteNames

open ByteNames in
theorem scanRoot_keeps_apart_oneByte :
    ∃ entries scanned, walkRoot (rules false) policy oneByte = .ok entries ∧
      scanRoot (rules false) policy store "docs" oneByte = .ok scanned ∧ entries.length = 3 ∧
      KeepsApart (rules false) policy store "docs" entries
        (buildTreeManifest treeNames "docs" scanned.records) := by
  obtain ⟨entries, walked, three⟩ := exists_ok (x := walkRoot (rules false) policy oneByte)
    (p := fun entries => entries.length = 3 ∧
      (entries.map (fun entry => entry.path.map Utf8.decodeLossy)).Nodup) (by decide +kernel)
  obtain ⟨scanned, scan, -⟩ := exists_ok (x := scanRoot (rules false) policy store "docs" oneByte)
    (p := fun _ => true) (by decide +kernel)
  obtain ⟨length, apart⟩ := of_decide_eq_true three
  have proper : oneByte.Proper :=
    ⟨by decide, by decide, ⟨by decide, by decide, trivial, trivial⟩, by decide, by decide, trivial,
      trivial⟩
  refine ⟨entries, scanned, walked, scan, length,
    (scanRoot_keeps_apart_iff proper walked scan).mpr ⟨?_, ?_⟩⟩
  · intro entry other due due' same
    have inside := (mem_walkRoot proper walked).mpr ⟨due.there, due.reached⟩
    have inside' := (mem_walkRoot proper walked).mpr ⟨due'.there, due'.reached⟩
    rw [List.inj_on_of_nodup_map apart inside inside' same]
  · intro entry _
    cases entry.node <;> rfl

open ByteNames in
/-- Two files get one path, and the tree has one of them. A link that is followed to a FIFO is not
in the tree and not reported. -/
theorem scanRoot_merges_names :
    visited false twoBytes = some ([[[0xFE]], [[0xFF]]], [String.ofList [Utf8.replacement]], 0) ∧
    visited true linked = some ([[[0x61]]], [], 0) := by
  decide +kernel

end Majutsu.Repo
