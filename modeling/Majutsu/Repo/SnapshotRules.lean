import Majutsu.Cluster.StoreTree
import Majutsu.Repo.Basic
import Majutsu.Upload.Keys

/-!
# The rules of a root

Which files a root manages, and which directories its walker enters, is decided
by include, exclude, volatile, track and untrack patterns on the text of a
relative path. Exclude patterns belong to the gitignore library and other globs
to the glob library; both are parameters. All other forms of patterns are texts
that are compared here.
-/

namespace Majutsu.Repo

open Cluster (startsWith endsWith containsText slashParts ancestors mem_ancestors)
open Upload (stripStart stripEnd)

def isSlash (c : Char) : Bool := c == '/'

def trimStartMatches (drops : Char → Bool) (text : String) : String :=
  String.ofList (text.toList.dropWhile drops)

def trimEndMatches (drops : Char → Bool) (text : String) : String :=
  String.ofList (text.toList.reverse.dropWhile drops).reverse

def trimMatches (drops : Char → Bool) (text : String) : String :=
  trimEndMatches drops (trimStartMatches drops text)

/-- `str::trim`. -/
def trimBlanks (text : String) : String := trimMatches isWhitespace text

def toAsciiLowercase (text : String) : String := String.ofList (text.toList.map Char.toLower)

/-- `path.starts_with(&format!("{dir}/"))`. -/
def isBelow (path dir : String) : Bool := startsWith path (dir ++ "/")

/-- The text as it is compared: without blanks around it and without slashes in front. -/
def patternText (pattern : String) : String := trimStartMatches isSlash (trimBlanks pattern)

def patternHasGlobMeta (pattern : String) : Bool :=
  pattern.toList.any (fun c => c == '*' || c == '?' || c == '[' || c == '\x7b')

/-- What stands in front of the first wildcard. -/
def literalPrefix (pattern : String) : String :=
  trimEndMatches isSlash (trimStartMatches isSlash
    (String.ofList (pattern.toList.takeWhile (fun c => c != '*' && c != '?' && c != '['))))

/-- One of the two is the other, or a directory above it. -/
def onOneLine (a b : String) : Bool := a == b || isBelow a b || isBelow b a

def isCatchAllIncludePattern (pattern : String) : Bool :=
  patternText pattern == "**" || patternText pattern == "*"

section Patterns

-- the glob library, with literal separators; a glob that does not parse matches nothing
variable (glob : String → String → Bool)

def pathPatternMatch (pattern rel : String) : Bool :=
  let pattern := patternText pattern
  if pattern == "" then false
  else if pattern == "**" || pattern == "*" then true
  else match stripEnd pattern "/**" with
    | some start =>
      if patternHasGlobMeta start then glob pattern rel else rel == start || isBelow rel start
    | none =>
      match stripStart pattern "*." with
      | some ext => endsWith (toAsciiLowercase rel) ("." ++ toAsciiLowercase ext)
      | none =>
        if patternHasGlobMeta pattern && glob pattern rel then true
        else match stripStart pattern "**/" with
          | some tail =>
            match stripEnd tail "/**" with
            | some middle =>
              rel == middle || isBelow rel middle || containsText rel ("/" ++ middle ++ "/")
            | none => rel == tail || endsWith rel ("/" ++ tail)
          | none => rel == pattern || isBelow rel pattern

def globPartsMatch : List String → List String → Bool
  | pattern :: patterns, dir :: dirs =>
    pattern == "**" || (glob pattern dir && globPartsMatch patterns dirs)
  | _, _ => true

def globPatternMayMatchInsideDir (pattern dir : String) : Bool :=
  let patternParts := (slashParts pattern).filter (· ≠ "")
  let dirParts := (slashParts dir).filter (· ≠ "")
  decide (dirParts.length < patternParts.length) && globPartsMatch glob patternParts dirParts

def includePatternMayMatchInsideDir (pattern dir : String) : Bool :=
  let pattern := patternText pattern
  if pattern == "" then false
  else if pattern == "**" || pattern == "*" || startsWith pattern "**/" then true
  else if pathPatternMatch glob pattern dir then true
  else if patternHasGlobMeta pattern && globPatternMayMatchInsideDir glob pattern dir then true
  else literalPrefix pattern == "" || onOneLine (literalPrefix pattern) dir

def isIncluded (patterns : List String) (rel : String) : Bool :=
  patterns.isEmpty || patterns.any (pathPatternMatch glob · rel)

def allCatchAll (patterns : List String) : Bool :=
  patterns.isEmpty || patterns.all isCatchAllIncludePattern

def includeMayMatchInsideDir (patterns : List String) (rel : String) : Bool :=
  let dir := trimMatches isSlash rel
  !allCatchAll patterns && (dir == "" || patterns.any (includePatternMayMatchInsideDir glob · dir))

def includeAllowsDescend (patterns : List String) (rel : String) : Bool :=
  allCatchAll patterns || isIncluded glob patterns rel ||
    includeMayMatchInsideDir glob patterns rel

/-- One pattern of `path_list_covers`. -/
def listPatternCovers (rel pattern : String) : Bool :=
  let pattern := trimMatches isSlash (trimBlanks pattern)
  pattern != "" && (pattern == rel || isBelow rel pattern || pathPatternMatch glob pattern rel)

def pathListCovers (patterns : List String) (rel : String) : Bool :=
  patterns.any (listPatternCovers glob (trimMatches isSlash rel))

/-- One pattern of `path_list_may_match_inside_dir`. -/
def listPatternMayMatchInsideDir (dir pattern : String) : Bool :=
  let pattern := trimMatches isSlash (trimBlanks pattern)
  pattern != "" && (isBelow pattern dir || includePatternMayMatchInsideDir glob pattern dir)

def pathListMayMatchInsideDir (patterns : List String) (rel : String) : Bool :=
  patterns.any (listPatternMayMatchInsideDir glob (trimMatches isSlash rel))

def includePatternCanOverrideExclude (pattern : String) : Bool :=
  let pattern := patternText pattern
  if pattern == "" || isCatchAllIncludePattern pattern then false
  else if !patternHasGlobMeta pattern then true
  else if '/' ∈ pattern.toList then
    !patternHasGlobMeta (String.ofList (pattern.toList.takeWhile (· != '/')))
  else false

def includePatternCanDescendExcludedDir (pattern dir : String) : Bool :=
  let pattern := patternText pattern
  if pattern == "" || isCatchAllIncludePattern pattern then false
  else
    let first := ((slashParts pattern).find? (· ≠ "")).getD ""
    if first == "" || first == "**" || patternHasGlobMeta first then false
    else literalPrefix pattern != "" && onOneLine (literalPrefix pattern) dir

def includeOverrideMatchesPath (patterns : List String) (rel : String) : Bool :=
  patterns.any (fun pattern =>
    includePatternCanOverrideExclude pattern && pathPatternMatch glob pattern rel)

def explicitNonCatchallIncludeMatchesPath (patterns : List String) (rel : String) : Bool :=
  patterns.any (fun pattern =>
    !isCatchAllIncludePattern pattern && pathPatternMatch glob pattern rel)

def includeOverrideMayMatchInsideDir (patterns : List String) (rel : String) : Bool :=
  let dir := trimMatches isSlash rel
  dir != "" && patterns.any (fun pattern =>
    includePatternCanDescendExcludedDir pattern dir &&
      includePatternMayMatchInsideDir glob pattern dir)

end Patterns

structure RootVolatileConfig where
  mode : String
  patterns : List String
  deriving DecidableEq

/-- The parts of a `RootConfig` that the rules read. The exclude patterns are those that the
gitignore matcher was built from. -/
structure RootPatterns where
  includes : List String
  volatile : Option RootVolatileConfig
  explicitTrack : List String
  explicitUntrack : List String

structure Matchers where
  glob : String → String → Bool
  ignore : String → Bool → Bool

namespace RootPatterns

variable (m : Matchers) (root : RootPatterns) (rel : String)

def explicitlyTracked : Bool := pathListCovers m.glob root.explicitTrack rel

def explicitlyUntracked : Bool := pathListCovers m.glob root.explicitUntrack rel

def explicitTrackMayMatchInsideDir : Bool := pathListMayMatchInsideDir m.glob root.explicitTrack rel

def isVolatile : Bool :=
  root.volatile.any (fun volatile => volatile.patterns.any (pathPatternMatch m.glob · rel))

def isVolatileExcluded : Bool :=
  root.volatile.any (fun volatile => volatile.mode == "exclude") && root.isVolatile m rel

/-- The directories above a path, without the root. -/
def parents (rel : String) : List String := (ancestors rel).filter (· ≠ "")

def hasIgnoredParent : Bool := (parents rel).any (m.ignore · true)

def rootRecordIsManaged (isDir : Bool) : Bool :=
  if root.explicitlyUntracked m rel then false
  else if root.explicitlyTracked m rel then true
  else if !isIncluded m.glob root.includes rel then false
  else if root.isVolatileExcluded m rel then false
  else if m.ignore rel isDir then
    includeOverrideMatchesPath m.glob root.includes rel ||
      (!hasIgnoredParent m rel && explicitNonCatchallIncludeMatchesPath m.glob root.includes rel)
  else true

def rootDirAllowsDescend : Bool :=
  if root.explicitlyUntracked m rel then false
  else if root.explicitTrackMayMatchInsideDir m rel then true
  else if m.ignore rel true then
    !root.isVolatileExcluded m rel && includeOverrideMayMatchInsideDir m.glob root.includes rel
  else if includeAllowsDescend m.glob root.includes rel && !root.isVolatileExcluded m rel then true
  else !root.explicitTrack.isEmpty

end RootPatterns

end Majutsu.Repo
