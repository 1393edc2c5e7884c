import Majutsu.Cluster.Keys

/-!
# Remote keys of objects

A local object key starts with `objects/`. On a remote the object may stand
under that key or under its canonical alias, and a remote that several hosts
share puts the label of the host in front of either. Whether a key is content
addressed is read off its text alone, by the directory it starts with.
-/

namespace Majutsu.Upload

open Cluster

/-- `str::strip_prefix`. -/
def stripStart (text start : String) : Option String :=
  if startsWith text start then some (String.ofList (text.toList.drop start.toList.length)) else none

/-- `str::strip_suffix`. -/
def stripEnd (text tail : String) : Option String :=
  if endsWith text tail then
    some (String.ofList (text.toList.take (text.toList.length - tail.toList.length)))
  else none

def hostRemoteKey (hostId : String) (key : Key) : Key :=
  if startsWith key (hostId ++ "/") then key else hostId ++ "/" ++ key

/-- One branch of `canonical_remote_alias`: a local directory becomes a remote one. -/
def renamed (key : Key) (start newStart ending : String) : Option Key :=
  (stripStart key start).map (fun rest => newStart ++ rest ++ ending)

def canonicalRemoteAlias (key : Key) : Option Key :=
  renamed key "objects/trees/" "trees/" ".cbor.zst.enc"
    <|> renamed key "objects/blobs/" "blobs/loose/" ".blob.enc"
    <|> renamed key "objects/packs/small/" "packs/small/" ""
    <|> renamed key "objects/packs/normal/" "packs/normal/" ""
    <|> (stripStart key "objects/indexes/pack/").map (fun rest =>
      "indexes/pack-index/" ++ (stripEnd rest ".json").getD rest ++ ".cbor.zst.enc")
    <|> renamed key "objects/large/manifests/" "large/manifests/" ".cbor.zst.enc"
    <|> renamed key "objects/large/chunks/fixed/" "large/chunks/fixed-8m/" ".chunk.enc"
    <|> renamed key "objects/large/chunks/fastcdc/" "large/chunks/fastcdc/" ".chunk.enc"

def canonicalRemoteAliases (key : Key) : List Key :=
  match canonicalRemoteAlias key with
  | none => []
  | some other => if other = key then [] else [other]

/-- The directories of content-addressed objects. -/
def contentStarts : List String :=
  ["objects/", "trees/", "blobs/loose/", "packs/", "indexes/pack-index/", "large/"]

def isContentAddressedRemoteKey (key : Key) : Bool := contentStarts.any (startsWith key ·)

/-- Content is published first, then journals and metadata, then refs and heads. -/
def uploadPublishPriority (key : Key) : Nat :=
  if startsWith key "refs/" || containsText key "/refs/" then 3
  else if endsWith key "/current" || containsText key "/refs/current"
      || endsWith key "/head.cbor.zst.enc" then 3
  else if containsText key "/journal/" || startsWith key "journal/" || startsWith key "metadata/"
      || endsWith key "/metadata/export.json.zst" || endsWith key "/metadata/export.json"
      || key == "metadata/export.json" then 2
  else 1

/-- The keys under which a remote may hold the object of a local key. -/
def objectRemoteKeys (localKey : Key) : List Key := localKey :: canonicalRemoteAliases localKey

theorem isContentAddressed_iff {key : Key} :
    isContentAddressedRemoteKey key = true ↔ ∃ start ∈ contentStarts, start.toList <+: key.toList := by
  simp only [isContentAddressedRemoteKey, List.any_eq_true, startsWith_iff]

theorem startsWith_append (start rest : String) : startsWith (start ++ rest) start = true := by
  rw [startsWith_iff, String.toList_append]
  exact List.prefix_append _ _

theorem startsWith_of_start {key start longer : String} (h : startsWith key longer = true)
    (sub : startsWith longer start = true) : startsWith key start = true := by
  rw [startsWith_iff] at *
  exact sub.trans h

theorem isContentAddressed_of_start {key newStart : String} (h : startsWith key newStart = true)
    (inside : isContentAddressedRemoteKey newStart = true) :
    isContentAddressedRemoteKey key = true := by
  obtain ⟨start, listed, begins⟩ := List.any_eq_true.mp inside
  exact List.any_eq_true.mpr ⟨start, listed, startsWith_of_start h begins⟩

theorem renamed_isContentAddressed {key start newStart ending other : String}
    (inside : isContentAddressedRemoteKey newStart = true)
    (h : renamed key start newStart ending = some other) :
    isContentAddressedRemoteKey other = true := by
  obtain ⟨rest, -, rfl⟩ := Option.map_eq_some_iff.mp h
  rw [String.append_assoc]
  exact isContentAddressed_of_start (startsWith_append _ _) inside

theorem canonicalRemoteAlias_isContentAddressed {key other : Key}
    (h : canonicalRemoteAlias key = some other) : isContentAddressedRemoteKey other = true := by
  simp only [canonicalRemoteAlias, Option.orElse_eq_orElse, Option.orElse_eq_or, Option.or_eq_some_iff] at h
  rcases h with h | ⟨-, h | ⟨-, h | ⟨-, h | ⟨-, h | ⟨-, h | ⟨-, h | ⟨-, h⟩⟩⟩⟩⟩⟩⟩
  case inr.inr.inr.inr.inl =>
    obtain ⟨rest, -, rfl⟩ := Option.map_eq_some_iff.mp h
    rw [String.append_assoc]
    exact isContentAddressed_of_start (startsWith_append _ _) (by decide +kernel)
  all_goals exact renamed_isContentAddressed (by decide +kernel) h

theorem objectRemoteKeys_isContentAddressed {localKey key : Key}
    (object : startsWith localKey "objects/" = true) (named : key ∈ objectRemoteKeys localKey) :
    isContentAddressedRemoteKey key = true := by
  rcases List.mem_cons.mp named with rfl | listed
  · exact List.any_eq_true.mpr ⟨"objects/", by simp [contentStarts], object⟩
  · cases found : canonicalRemoteAlias localKey with
    | none => simp [canonicalRemoteAliases, found] at listed
    | some other =>
      have same : key = other := by
        by_cases own : other = localKey <;> simp_all [canonicalRemoteAliases]
      exact canonicalRemoteAlias_isContentAddressed (same ▸ found)

theorem contentStarts_split : ∀ start ∈ contentStarts, ∀ n ≤ start.toList.length,
    (start.toList.take n).getLast? = some '/' →
      start.toList.drop n = [] ∨ ∀ other ∈ contentStarts,
        ¬ start.toList.drop n <+: other.toList ∧ ¬ other.toList <+: start.toList.drop n := by
  decide +kernel

theorem start_of_hosted {host : String} {key : Key} (content : isContentAddressedRemoteKey key = true)
    {start : String} (listed : start ∈ contentStarts)
    (begins : start.toList <+: (host ++ "/").toList ++ key.toList) :
    start.toList <+: (host ++ "/").toList := by
  rcases List.prefix_or_prefix_of_prefix begins (List.prefix_append _ _) with h | ⟨rest, whole⟩
  · exact h
  · -- the host ends inside `start`, so the rest of `start` and a content directory both begin `key`
    obtain ⟨other, known, otherBegins⟩ := isContentAddressed_iff.mp content
    have split := contentStarts_split start listed (host ++ "/").toList.length
    rw [← whole] at begins split
    rw [List.prefix_append_right_inj] at begins
    simp only [List.take_left, List.drop_left] at split
    rcases split (by simp) (by simp) with rfl | apart
    · rw [← whole, List.append_nil]
    · rcases List.prefix_or_prefix_of_prefix begins otherBegins with h | h
      · exact absurd h (apart other known).1
      · exact absurd h (apart other known).2

/-- The label of the host hides no content directory: the key has the label already, or the
label itself begins like a content directory. -/
def Recognised (host : String) (key : Key) : Prop :=
  startsWith key (host ++ "/") = true ∨ isContentAddressedRemoteKey (host ++ "/") = true

instance (host : String) (key : Key) : Decidable (Recognised host key) :=
  inferInstanceAs (Decidable (_ ∨ _))

theorem isContentAddressed_hostRemoteKey (host : String) {key : Key}
    (content : isContentAddressedRemoteKey key = true) :
    isContentAddressedRemoteKey (hostRemoteKey host key) = true ↔ Recognised host key := by
  unfold hostRemoteKey Recognised
  by_cases own : startsWith key (host ++ "/") = true
  · simp [own, content]
  · rw [if_neg own]
    constructor
    · intro h
      obtain ⟨start, listed, begins⟩ := isContentAddressed_iff.mp h
      rw [String.toList_append] at begins
      exact Or.inr (isContentAddressed_iff.mpr ⟨start, listed, start_of_hosted content listed begins⟩)
    · rintro (h | h)
      · exact absurd h own
      · exact isContentAddressed_of_start (startsWith_append _ _) h

end Majutsu.Upload
