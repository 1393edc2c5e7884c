import Mathlib.Data.List.Infix
import Mathlib.Data.String.Basic

/-!
# Keys, host ids and authorization

Keys are slash-separated relative paths. A request is authorized by a prefix
test on the raw key text, while the store joins the same text to a directory,
so both readings of a key are defined here: the text and the path it names.
-/

namespace Majutsu.Cluster

abbrev Key := String
abbrev Bytes := List UInt8

/-- An I/O error of the environment, or an error text of the program. -/
inductive Failure where
  | io
  | message (text : String)
  deriving DecidableEq

def startsWith (text start : String) : Bool := start.toList.isPrefixOf text.toList

def endsWith (text tail : String) : Bool := tail.toList.isSuffixOf text.toList

def containsText (text part : String) : Bool := text.toList.tails.any (part.toList.isPrefixOf ·)

/-- The parts of `key.split('/')`. -/
def slashParts (key : String) : List String := (key.toList.splitOn '/').map String.ofList

theorem startsWith_iff {text start : String} :
    startsWith text start = true ↔ start.toList <+: text.toList := by
  simp [startsWith]

inductive Component where
  | rootDir
  | curDir
  | parentDir
  | normal (name : String)
  deriving DecidableEq

/-- `Path::components` on a Unix host: empty parts and inner dots disappear. -/
def pathComponents (path : String) : List Component :=
  let named := (slashParts path).filterMap (fun part =>
    if part = "" ∨ part = "." then none
    else if part = ".." then some .parentDir
    else some (.normal part))
  if path.toList.head? = some '/' then .rootDir :: named
  else if (slashParts path).head? = some "." then .curDir :: named
  else named

def validateSlashRelativeKey (key : Key) : Except Failure Unit :=
  if key = "" then .error (.message "object key must not be empty")
  else if key.toList.contains '\\' then
    .error (.message ("object key must use '/' separators only: " ++ key))
  else if startsWith key "/" then .error (.message ("object key must be relative: " ++ key))
  else if (slashParts key).any (fun part => part = "" ∨ part = "." ∨ part = "..") then
    .error (.message
      ("object key must not contain empty, '.', or '..' components: " ++ key))
  else if (pathComponents key).any (fun c => match c with | .normal _ => false | _ => true) then
    .error (.message ("object key must not contain prefixes or root separators: " ++ key))
  else .ok ()

def validateClusterKey (key : Key) : Except Failure Unit := validateSlashRelativeKey key

def validateClusterPrefix (start : String) : Except Failure Unit :=
  if startsWith start "/" ∨ start.toList.contains '\\' then
    .error (.message ("cluster list prefix must be relative: " ++ start))
  else if (slashParts start).any (fun part => part = "." ∨ part = "..") then
    .error (.message ("cluster list prefix contains an unsafe component: " ++ start))
  else .ok ()

def isAsciiAlphanumeric (c : Char) : Bool :=
  ('a' ≤ c ∧ c ≤ 'z') ∨ ('A' ≤ c ∧ c ≤ 'Z') ∨ ('0' ≤ c ∧ c ≤ '9')

def validateClusterHostId (hostId : String) : Except Failure Unit :=
  if hostId.toList.all Char.isWhitespace ∨ 128 < hostId.utf8ByteSize then
    .error (.message "cluster host id must contain 1..=128 bytes")
  else if !hostId.toList.all (fun c => isAsciiAlphanumeric c || c == '-' || c == '_' || c == '.')
  then .error (.message ("cluster host id contains unsupported characters: " ++ hostId))
  else .ok ()

structure ClusterPutItem where
  key : Key
  bytes : Bytes
  conditional : Bool
  deriving DecidableEq

inductive ClusterOperation where
  | capabilities
  | heartbeat
  | put (key : Key) (bytes : Bytes) (conditional : Bool)
  | batchPut (items : List ClusterPutItem)
  | get (key : Key)
  | getOptional (key : Key)
  | getRange (key : Key) (start len : Nat)
  | exists (key : Key)
  | backendCommitted (keys : List Key)
  | list (start : String)
  | listCommonPrefixes (start : String)
  | listWithSizes (start : String)
  | listMasterLocalWithSizes (start : String)
  | delete (key : Key)
  | restoreArchive (key : Key) (days : Nat) (tier : String)
  | applyLifecycle
  deriving DecidableEq

def ownPrefix (hostId : String) : String := hostId ++ "/"

def requireOwnKey (hostId : String) (action : String) (key : Key) : Except Failure Unit :=
  if startsWith key (ownPrefix hostId) then .ok ()
  else .error (.message ("host " ++ hostId ++ " may only " ++ action ++
    " keys under its own prefix " ++ ownPrefix hostId ++ "; requested=" ++ key))

def authorizeClusterOperation (hostId : String) : ClusterOperation → Except Failure Unit
  | .capabilities | .heartbeat | .get _ | .getOptional _ | .getRange _ _ _ | .exists _
  | .backendCommitted _ | .list _ | .listCommonPrefixes _ | .listWithSizes _
  | .listMasterLocalWithSizes _ => .ok ()
  | .put key _ _ => requireOwnKey hostId "write" key
  | .batchPut items => items.forM (fun item => requireOwnKey hostId "write" item.key)
  | .delete key => requireOwnKey hostId "delete" key
  | .restoreArchive key _ _ => requireOwnKey hostId "restore" key
  | .applyLifecycle =>
    .error (.message "lifecycle policy changes are master-local maintenance operations")

/-- Content is 1, journals and metadata 2, refs and heads 3. -/
def backendPublishPriority (key : Key) : Nat :=
  if startsWith key "refs/" || containsText key "/refs/" || endsWith key "/current"
      || endsWith key "/head.cbor.zst.enc" then 3
  else if containsText key "/journal/" || startsWith key "journal/" || startsWith key "metadata/"
      || endsWith key "/metadata/export.json.zst" || endsWith key "/metadata/export.json"
      || key == "metadata/export.json" then 2
  else 1

end Majutsu.Cluster
