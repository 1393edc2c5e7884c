import Majutsu.Repo.Scan
import Majutsu.Repo.SnapshotRules
import Mathlib.Data.List.TakeWhile

/-!
# Directories above managed files

The walker leaves out a directory that the rules do not let it enter, so it
comes to a managed file only if it may enter every directory above the file.
Both questions are answered by the same lists of patterns, but by different
functions of them. A pattern may match a directory and nothing below it, or
match a file without being recognised for a directory on the way to it.

Patterns that close directories with all that is below them, and patterns whose
wildcards begin with a part of the path, do neither. A root that has only these
is walked to every file that it manages.
-/

namespace Majutsu.Repo.RootPatterns

open Cluster (ancestors mem_ancestors startsWith_iff)

variable {m : Matchers} {root : RootPatterns} {path dir : String}

/-- No excluded volatile pattern matches the directory. -/
def Calm (m : Matchers) (root : RootPatterns) (dir : String) : Prop :=
  ∀ volatile ∈ root.volatile, volatile.mode = "exclude" →
    ∀ pattern ∈ volatile.patterns, pathPatternMatch m.glob pattern dir = false

/-- An include pattern with a literal start on the line of an ignored directory. -/
def Reopened (m : Matchers) (root : RootPatterns) (dir : String) : Prop :=
  dir ≠ "" ∧ ∃ pattern ∈ root.includes, includePatternCanDescendExcludedDir pattern dir = true ∧
    includePatternMayMatchInsideDir m.glob pattern dir = true

/-- The include patterns leave the directory in play. -/
def Includes (m : Matchers) (root : RootPatterns) (dir : String) : Prop :=
  allCatchAll root.includes = true ∨ isIncluded m.glob root.includes dir = true ∨
    trimMatches isSlash dir = "" ∨
    ∃ pattern ∈ root.includes,
      includePatternMayMatchInsideDir m.glob pattern (trimMatches isSlash dir) = true

/-- What it takes that the walker finds its way through `dir` to the managed file `path`. -/
structure Enters (m : Matchers) (root : RootPatterns) (path dir : String) : Prop where
  /-- An untrack pattern that covers the directory covers the file. -/
  untracked : ∀ pattern ∈ root.explicitUntrack,
    listPatternCovers m.glob (trimMatches isSlash dir) pattern = true →
    listPatternCovers m.glob (trimMatches isSlash path) pattern = true
  /-- A track pattern reaches into the directory, or the other rules leave it open. -/
  opened : (∃ pattern ∈ root.explicitTrack,
      listPatternMayMatchInsideDir m.glob (trimMatches isSlash dir) pattern = true) ∨
    if m.ignore dir true then Calm m root dir ∧ Reopened m root (trimMatches isSlash dir)
    else root.explicitTrack ≠ [] ∨ (Calm m root dir ∧ Includes m root dir)

theorem isVolatileExcluded_eq_false_iff :
    root.isVolatileExcluded m dir = false ↔ Calm m root dir := by
  unfold isVolatileExcluded isVolatile Calm
  cases root.volatile with
  | none => simp
  | some volatile => by_cases mode : volatile.mode = "exclude" <;> simp [mode]

theorem includeOverrideMayMatchInsideDir_iff :
    includeOverrideMayMatchInsideDir m.glob root.includes dir = true ↔
      Reopened m root (trimMatches isSlash dir) := by
  simp [includeOverrideMayMatchInsideDir, Reopened]

theorem includeAllowsDescend_iff :
    includeAllowsDescend m.glob root.includes dir = true ↔ Includes m root dir := by
  unfold includeAllowsDescend Includes includeMayMatchInsideDir
  cases allCatchAll root.includes <;> simp

theorem rootDirAllowsDescend_iff :
    root.rootDirAllowsDescend m dir = true ↔ root.explicitlyUntracked m dir = false ∧
      (root.explicitTrackMayMatchInsideDir m dir = true ∨
        if m.ignore dir true then Calm m root dir ∧ Reopened m root (trimMatches isSlash dir)
        else root.explicitTrack ≠ [] ∨ (Calm m root dir ∧ Includes m root dir)) := by
  rw [← isVolatileExcluded_eq_false_iff, ← includeOverrideMayMatchInsideDir_iff,
    ← includeAllowsDescend_iff]
  unfold rootDirAllowsDescend
  cases root.explicitlyUntracked m dir with
  | true => simp
  | false =>
    cases root.explicitTrackMayMatchInsideDir m dir with
    | true => simp
    | false =>
      cases m.ignore dir true with
      | true => simp
      | false =>
        cases includeAllowsDescend m.glob root.includes dir <;>
          cases root.isVolatileExcluded m dir <;> simp

theorem not_untracked_of_managed {isDir : Bool}
    (managed : root.rootRecordIsManaged m path isDir = true) :
    root.explicitlyUntracked m path = false := by
  unfold rootRecordIsManaged at managed
  cases untracked : root.explicitlyUntracked m path with
  | true => simp [untracked] at managed
  | false => rfl

theorem descends_iff_enters {isDir : Bool}
    (managed : root.rootRecordIsManaged m path isDir = true) :
    root.rootDirAllowsDescend m dir = true ↔ Enters m root path dir := by
  have file := not_untracked_of_managed managed
  have hidden : root.explicitlyUntracked m dir = false ↔ ∀ pattern ∈ root.explicitUntrack,
      listPatternCovers m.glob (trimMatches isSlash dir) pattern = true →
      listPatternCovers m.glob (trimMatches isSlash path) pattern = true := by
    unfold explicitlyUntracked pathListCovers at file ⊢
    rw [List.any_eq_false] at file ⊢
    exact ⟨fun open_ pattern listed covers => absurd covers (open_ pattern listed),
      fun agree pattern listed covers => file pattern listed (agree pattern listed covers)⟩
  have reached : root.explicitTrackMayMatchInsideDir m dir = true ↔
      ∃ pattern ∈ root.explicitTrack,
        listPatternMayMatchInsideDir m.glob (trimMatches isSlash dir) pattern = true := by
    rw [explicitTrackMayMatchInsideDir, pathListMayMatchInsideDir, List.any_eq_true]
  rw [rootDirAllowsDescend_iff, hidden, reached]
  exact ⟨fun ⟨a, b⟩ => ⟨a, b⟩, fun ⟨a, b⟩ => ⟨a, b⟩⟩

end Majutsu.Repo.RootPatterns

namespace Majutsu.Repo

open Cluster (startsWith endsWith startsWith_iff slashParts mem_ancestors)
open Upload (stripStart stripEnd startsWith_append)

/-! ## The walker

An entry is visited if and only if the walker may enter each directory above it. -/

theorem FsChildren.visited_iff {follow : Bool} {descends : RelPath → Bool} {children : FsChildren}
    {entries : List WalkEntry} {rel : RelPath} {node : FsNode} (proper : children.Proper)
    (walked : children.walk follow descends [] = .ok entries)
    (there : children.find follow rel = some node) (file : (node.walked follow).isDir = false) :
    (∃ entry ∈ entries, entry.path = rel) ↔
      ∀ above, above ≠ [] → above <+: rel → above ≠ rel → descends above = true := by
  constructor
  · rintro ⟨entry, inside, rfl⟩ above some_ start other
    obtain ⟨rel, at_, -, opens⟩ := (FsChildren.mem_walk proper walked).mp inside
    rw [List.nil_append] at at_
    rw [at_] at start other
    exact opens.between above some_ start other
  · intro enters
    refine ⟨⟨rel, node⟩, (FsChildren.mem_walk proper walked).mpr ⟨rel, rfl, there, enters, ?_⟩, rfl⟩
    intro isDir
    rw [file] at isDir
    cases isDir

/-! ## The text of a path -/

theorem decodeLossy_ne_nil {name : FileName} (some_ : name ≠ []) : Utf8.decodeLossy name ≠ [] := by
  obtain ⟨byte, rest, rfl⟩ := List.exists_cons_of_ne_nil some_
  rw [Utf8.decodeLossy, List.length_cons, Utf8.decodeLossyFrom]
  split <;> exact List.cons_ne_nil _ _

theorem slash_notMem_decodeLossy {name : FileName} (valid : IsFileName name) :
    '/' ∉ Utf8.decodeLossy name := by
  intro inside
  have single : String.utf8EncodeChar '/' = [0x2F] := by decide +kernel
  exact valid.2.1 (Utf8.mem_of_mem_decodeLossy single (by decide +kernel) inside)

theorem isBelow_iff {path dir : String} :
    isBelow path dir = true ↔ dir.toList ++ ['/'] <+: path.toList := by
  rw [isBelow, startsWith_iff]
  simp

theorem isBelow_trans {a b c : String} (first : isBelow a b = true)
    (rest : b = c ∨ isBelow b c = true) : isBelow a c = true := by
  rcases rest with rfl | rest
  · exact first
  · rw [isBelow_iff] at *
    exact rest.trans ((List.prefix_append _ _).trans first)

theorem line_of_below {t dir path : String} (above : isBelow path dir = true)
    (covered : path = t ∨ isBelow path t = true) : onOneLine t dir = true := by
  have close {a b : String} (h : a.toList ++ ['/'] <+: b.toList ++ ['/']) :
      a = b ∨ isBelow b a = true := by
    rcases List.prefix_concat_iff.mp h with same | inner
    · exact Or.inl (String.toList_inj.mp (List.append_cancel_right same))
    · exact Or.inr (isBelow_iff.mpr inner)
  simp only [onOneLine, Bool.or_eq_true, beq_iff_eq]
  rcases covered with rfl | below
  · exact Or.inl (Or.inr above)
  · rw [isBelow_iff] at above below
    rcases List.prefix_or_prefix_of_prefix above below with outer | inner
    · rcases close outer with same | h
      · exact Or.inl (Or.inl same.symm)
      · exact Or.inl (Or.inr h)
    · rcases close inner with same | h
      · exact Or.inl (Or.inl same)
      · exact Or.inr h

section Edges

variable {drops : Char → Bool} {t : String}

/-- Nothing to trim at either end. -/
def Edges (drops : Char → Bool) (t : String) : Prop :=
  (∀ c ∈ t.toList.head?, drops c = false) ∧ ∀ c ∈ t.toList.getLast?, drops c = false

theorem dropWhile_of_head {l : List Char} (h : ∀ c ∈ l.head?, drops c = false) :
    l.dropWhile drops = l := by
  cases l with
  | nil => rfl
  | cons c rest => exact List.dropWhile_cons_of_neg (by simpa using h c rfl)

theorem edges_of_all (first : (t.toList.head?.all fun c => !drops c) = true)
    (last : (t.toList.getLast?.all fun c => !drops c) = true) : Edges drops t := by
  refine ⟨fun c edge => ?_, fun c edge => ?_⟩
  · rw [Option.mem_def.mp edge] at first
    simpa using first
  · rw [Option.mem_def.mp edge] at last
    simpa using last

theorem trimStart_of_edges (h : Edges drops t) : trimStartMatches drops t = t := by
  rw [trimStartMatches, dropWhile_of_head h.1, String.ofList_toList]

theorem trimEnd_of_edges (h : Edges drops t) : trimEndMatches drops t = t := by
  have last : ∀ c ∈ t.toList.reverse.head?, drops c = false := by
    rw [List.head?_reverse]
    exact h.2
  rw [trimEndMatches, dropWhile_of_head last, List.reverse_reverse, String.ofList_toList]

theorem trimMatches_of_edges (h : Edges drops t) : trimMatches drops t = t := by
  rw [trimMatches, trimStart_of_edges h, trimEnd_of_edges h]

end Edges

/-- A text of parts begins with those of the parts in front. -/
theorem slash_prefix_iff {parts : List (List Char)} (clean : ∀ part ∈ parts, '/' ∉ part)
    {start : List Char} : start ++ ['/'] <+: ['/'].intercalate parts ↔
      ∃ above, above ≠ [] ∧ above <+: parts ∧ above ≠ parts ∧ start = ['/'].intercalate above := by
  constructor
  · rintro ⟨tail, joined⟩
    rw [List.append_assoc, List.singleton_append] at joined
    have some_ : parts ≠ [] := by
      rintro rfl
      simp at joined
    have cut := List.splitOn_intercalate '/' clean some_
    rw [← joined, List.splitOn_append_cons_self] at cut
    refine ⟨start.splitOn '/', List.splitOn_ne_nil _ _, ⟨_, cut⟩, ?_, ?_⟩
    · intro same
      rw [← cut] at same
      exact List.splitOn_ne_nil '/' tail (List.self_eq_append_right.mp same)
    · rw [List.intercalate_splitOn]
  · rintro ⟨above, some_, ⟨more, rfl⟩, other, rfl⟩
    have rest : more ≠ [] := fun none => other (by rw [none, List.append_nil])
    have cut := List.splitOn_append_cons_self (a := '/') (['/'].intercalate above)
      (['/'].intercalate more)
    rw [List.splitOn_intercalate '/' (fun part inside => clean part (List.mem_append_left _ inside))
        some_,
      List.splitOn_intercalate '/' (fun part inside => clean part (List.mem_append_right _ inside))
        rest] at cut
    have joined := congrArg (List.intercalate ['/']) cut
    rw [List.intercalate_splitOn] at joined
    exact ⟨['/'].intercalate more, by rw [← joined, List.append_assoc, List.singleton_append]⟩

section PathText

variable {rel : RelPath} (names : ∀ name ∈ rel, IsFileName name)

include names

theorem clean_texts : ∀ part ∈ rel.map Utf8.decodeLossy, '/' ∉ part ∧ part ≠ [] := by
  intro part inside
  obtain ⟨name, member, rfl⟩ := List.mem_map.mp inside
  exact ⟨slash_notMem_decodeLossy (names name member), decodeLossy_ne_nil (names name member).1⟩

theorem edges_pathToSlash : Edges isSlash (pathToSlash rel) := by
  have clean := clean_texts names
  have full : ∀ before after, (pathToSlash rel).toList = before ++ '/' :: after →
      before ≠ [] ∧ after ≠ [] := by
    intro before after cut
    rw [pathToSlash, String.toList_ofList] at cut
    have some_ : rel.map Utf8.decodeLossy ≠ [] := by
      intro none
      rw [none] at cut
      simp at cut
    have parts := List.splitOn_intercalate '/' (fun part inside => (clean part inside).1) some_
    rw [cut, List.splitOn_append_cons_self] at parts
    refine ⟨?_, ?_⟩ <;> rintro rfl
    · exact (clean [] (by rw [← parts]; simp)).2 rfl
    · exact (clean [] (by rw [← parts]; simp)).2 rfl
  constructor
  · intro c first
    rw [Bool.eq_false_iff]
    intro slash
    obtain rfl : c = '/' := by simpa [isSlash] using slash
    obtain ⟨tail, cut⟩ := List.head?_eq_some_iff.mp first
    exact (full [] tail cut).1 rfl
  · intro c last
    rw [Bool.eq_false_iff]
    intro slash
    obtain rfl : c = '/' := by simpa [isSlash] using slash
    obtain ⟨front, cut⟩ := List.getLast?_eq_some_iff.mp last
    exact (full front [] cut).2 rfl

theorem mem_parents_pathToSlash {dir : String} :
    dir ∈ RootPatterns.parents (pathToSlash rel) ↔
      ∃ above, above ≠ [] ∧ above <+: rel ∧ above ≠ rel ∧ dir = pathToSlash above := by
  have clean := clean_texts names
  rw [RootPatterns.parents, List.mem_filter, mem_ancestors, pathToSlash, String.toList_ofList,
    slash_prefix_iff (fun part inside => (clean part inside).1), decide_eq_true_eq]
  constructor
  · rintro ⟨⟨texts, some_, start, other, text⟩, -⟩
    have cut := List.prefix_iff_eq_take.mp start
    rw [← List.map_take] at cut
    refine ⟨rel.take texts.length, ?_, List.take_prefix _ _, ?_, ?_⟩
    · intro none
      rw [none] at cut
      exact some_ cut
    · intro same
      rw [same] at cut
      exact other cut
    · rw [pathToSlash, ← cut, ← text, String.ofList_toList]
  · rintro ⟨above, some_, start, other, rfl⟩
    refine ⟨⟨above.map Utf8.decodeLossy, by simpa using some_, start.map _, ?_,
      by simp [pathToSlash]⟩, ?_⟩
    · intro same
      exact other (start.eq_of_length (by simpa using congrArg List.length same))
    · intro empty
      obtain ⟨name, more, rfl⟩ := List.exists_cons_of_ne_nil some_
      have first : Utf8.decodeLossy name ≠ [] :=
        decodeLossy_ne_nil (names name (start.subset List.mem_cons_self)).1
      have none := congrArg String.toList empty
      rw [pathToSlash, String.toList_ofList, List.map_cons] at none
      cases more with
      | nil => exact first (by simpa using none)
      | cons second others =>
        rw [List.map_cons, List.intercalate_cons_cons] at none
        simp at none

end PathText

/-! ## Patterns that keep to directories -/

section Patterns

variable {t x pattern : String}

/-- The text that a pattern is compared by, with nothing more to trim. -/
structure Trimmed (pattern x : String) : Prop where
  text : patternText pattern = x
  nonempty : x ≠ ""
  blanks : Edges isWhitespace x
  slashes : Edges isSlash x

theorem Trimmed.self (h : Trimmed pattern x) : patternText x = x := by
  rw [patternText, trimBlanks, trimMatches_of_edges h.blanks, trimStart_of_edges h.slashes]

/-- The text in a list of tracked or untracked paths. -/
theorem Trimmed.listed (h : Trimmed pattern x) : trimMatches isSlash (trimBlanks pattern) = x := by
  have text := h.text
  rw [patternText] at text
  rw [trimMatches, text, trimEnd_of_edges h.slashes]

theorem Trimmed.match_eq (h : Trimmed pattern x) (glob : String → String → Bool) (rel : String) :
    pathPatternMatch glob pattern rel = pathPatternMatch glob x rel := by
  simp only [pathPatternMatch, h.text, h.self]

theorem Trimmed.may_eq (h : Trimmed pattern x) (glob : String → String → Bool) (dir : String) :
    includePatternMayMatchInsideDir glob pattern dir =
      includePatternMayMatchInsideDir glob x dir := by
  simp only [includePatternMayMatchInsideDir, h.text, h.self]

def isWildcard (c : Char) : Bool := c == '*' || c == '?' || c == '['

structure Literal (t : String) : Prop where
  nonempty : t ≠ ""
  plain : patternHasGlobMeta t = false
  slashes : Edges isSlash t

/-- A text that names a path, or wildcards below a path. -/
inductive Rooted : String → String → Prop where
  | exact {t : String} : Literal t → Rooted t t
  | deeper {t rest : String} : Literal t → '\\' ∉ t.toList →
      rest.toList.head?.any isWildcard = true → Rooted (t ++ "/" ++ rest) t

/-- What the documentation of the two libraries promises: an ignored directory is ignored with
all that is below it, a glob for all that is below a directory goes on below, and a glob matches
nothing outside of the directory that it starts with. -/
structure Documented (m : Matchers) : Prop where
  ignoreBelow : ∀ dir path isDir, m.ignore dir true = true → isBelow path dir = true →
    m.ignore path isDir = true
  treeBelow : ∀ pattern dir path, endsWith pattern "/**" = true → m.glob pattern dir = true →
    isBelow path dir = true → m.glob pattern path = true
  literalStart : ∀ t rest path, Literal t → '\\' ∉ t.toList →
    rest.toList.head?.any isWildcard = true → m.glob (t ++ "/" ++ rest) path = true →
      isBelow path t = true

theorem Literal.meta (h : Literal t) {c : Char} (hc : c ∈ t.toList) :
    c ≠ '*' ∧ c ≠ '?' ∧ c ≠ '[' := by
  have plain := h.plain
  rw [patternHasGlobMeta, List.any_eq_false] at plain
  have := plain c hc
  simp only [Bool.or_eq_true, beq_iff_eq, not_or] at this
  exact ⟨this.1.1.1, this.1.1.2, this.1.2⟩

/-- A text without wildcards has none of the forms that are recognised by a star. -/
theorem starless {u : String} (plain : patternHasGlobMeta x = false) (star : '*' ∈ u.toList) :
    x ≠ u ∧ startsWith x u = false ∧ endsWith x u = false := by
  have free : '*' ∉ x.toList := by
    rw [patternHasGlobMeta, List.any_eq_false] at plain
    intro inside
    exact plain '*' inside rfl
  refine ⟨?_, ?_, ?_⟩
  · rintro rfl
    exact free star
  · rw [Bool.eq_false_iff]
    intro begins
    exact free ((startsWith_iff.mp begins).subset star)
  · rw [Bool.eq_false_iff]
    intro ends
    rw [endsWith, List.isSuffixOf_iff_suffix] at ends
    exact free (ends.subset star)

theorem match_plain (text : patternText x = x) (plain : patternHasGlobMeta x = false)
    (nonempty : x ≠ "") (glob : String → String → Bool) (rel : String) :
    pathPatternMatch glob x rel = (rel == x || isBelow rel x) := by
  have all : x ≠ "**" ∧ x ≠ "*" := ⟨(starless plain (by decide)).1, (starless plain (by decide)).1⟩
  have tree : stripEnd x "/**" = none := by simp [stripEnd, starless plain]
  have ext : stripStart x "*." = none := by simp [stripStart, starless plain]
  have deep : stripStart x "**/" = none := by simp [stripStart, starless plain]
  unfold pathPatternMatch
  simp [text, nonempty, all, tree, ext, deep, plain]

theorem stripEnd_eq_some {u start : String} (cut : stripEnd x u = some start) : x = start ++ u := by
  unfold stripEnd at cut
  split at cut
  · next ends =>
    obtain ⟨front, joined⟩ := List.isSuffixOf_iff_suffix.mp ends
    cases cut
    rw [← String.toList_inj, String.toList_append, String.toList_ofList, ← joined]
    simp
  · cases cut

theorem match_tree (text : patternText x = x) {start : String} (cut : stripEnd x "/**" = some start)
    (glob : String → String → Bool) (rel : String) : pathPatternMatch glob x rel =
      if patternHasGlobMeta start then glob x rel else rel == start || isBelow rel start := by
  have joined := stripEnd_eq_some cut
  have slash : '/' ∈ x.toList := by simp [joined]
  have all : x ≠ "" ∧ x ≠ "**" ∧ x ≠ "*" := by
    refine ⟨?_, ?_, ?_⟩ <;> rintro rfl <;> revert slash <;> decide
  unfold pathPatternMatch
  simp [text, all, cut]

theorem Rooted.literal (h : Rooted x t) : Literal t := by
  cases h <;> assumption

theorem Rooted.at_or_below (h : Rooted x t) : x = t ∨ isBelow x t = true := by
  cases h with
  | exact _ => exact Or.inl rfl
  | deeper _ _ _ =>
    refine Or.inr (startsWith_iff.mpr ?_)
    simp

/-- A wildcard in front ends the literal start of a text. -/
theorem exists_wild (wild : x.toList.head?.any isWildcard = true) : ∃ c more, x.toList = c :: more ∧
    isWildcard c = true ∧ (c != '*' && c != '?' && c != '[') = false := by
  cases chars : x.toList with
  | nil => simp [chars] at wild
  | cons c more =>
    rw [chars, List.head?_cons, Option.any_some] at wild
    refine ⟨c, more, rfl, wild, Bool.eq_false_iff.mpr fun passes => ?_⟩
    simp only [Bool.and_eq_true, bne_iff_ne] at passes
    simp [isWildcard, passes] at wild

theorem takeWhile_rooted {rest : String} (literal : Literal t)
    (wild : rest.toList.head?.any isWildcard = true) :
    (t ++ "/" ++ rest).toList.takeWhile (fun c => c != '*' && c != '?' && c != '[') =
      t.toList ++ ['/'] := by
  have passes : ∀ c ∈ t.toList ++ ['/'], (c != '*' && c != '?' && c != '[') = true := by
    intro c inside
    rcases List.mem_append.mp inside with own | slash
    · simpa [and_assoc] using literal.meta own
    · obtain rfl := List.mem_singleton.mp slash
      decide
  obtain ⟨c, more, chars, -, stops⟩ := exists_wild wild
  rw [String.toList_append, String.toList_append, show "/".toList = ['/'] from rfl, chars,
    List.takeWhile_append_of_pos passes, List.takeWhile_cons_of_neg (by simp [stops]),
    List.append_nil]

theorem Rooted.literalPrefix_eq (h : Rooted x t) : literalPrefix x = t := by
  have literal := h.literal
  unfold literalPrefix
  cases h with
  | exact _ =>
    have passes : ∀ c ∈ t.toList, (c != '*' && c != '?' && c != '[') = true := by
      intro c hc
      simpa [and_assoc] using literal.meta hc
    rw [List.takeWhile_eq_self_iff.mpr passes, String.ofList_toList,
      trimStart_of_edges literal.slashes, trimEnd_of_edges literal.slashes]
  | deeper _ _ wild =>
    have head : (t.toList ++ ['/']).dropWhile isSlash = t.toList ++ ['/'] := by
      have left : t.toList ≠ [] := by simpa using literal.nonempty
      refine dropWhile_of_head ?_
      rw [List.head?_append_of_ne_nil _ left]
      exact literal.slashes.1
    rw [takeWhile_rooted literal wild, trimStartMatches, String.toList_ofList, head,
      trimEndMatches, String.toList_ofList, List.reverse_append, List.reverse_singleton,
      List.singleton_append, List.dropWhile_cons_of_pos (by decide)]
    exact trimEnd_of_edges literal.slashes

theorem Rooted.ne_stars (h : Rooted x t) :
    x ≠ "**" ∧ x ≠ "*" ∧ startsWith x "*." = false ∧ startsWith x "**/" = false := by
  have first : ∃ c more, x.toList = c :: more ∧ c ≠ '*' := by
    have literal := h.literal
    obtain ⟨c, more, chars⟩ := List.exists_cons_of_ne_nil
      (show t.toList ≠ [] by simpa using literal.nonempty)
    have other := (literal.meta (show c ∈ t.toList by simp [chars])).1
    cases h with
    | exact _ => exact ⟨c, more, chars, other⟩
    | deeper _ _ _ =>
      exact ⟨c, _, by rw [String.toList_append, String.toList_append, chars]; rfl, other⟩
  obtain ⟨c, more, chars, other⟩ := first
  have starts : ∀ u : String, u.toList.head? = some '*' → startsWith x u = false := by
    intro u star
    rw [Bool.eq_false_iff]
    intro begins
    obtain ⟨tail, cut⟩ := List.head?_eq_some_iff.mp star
    obtain ⟨rest, joined⟩ := startsWith_iff.mp begins
    rw [cut, chars] at joined
    exact other (List.cons.inj joined).1.symm
  refine ⟨?_, ?_, starts _ (by decide), starts _ (by decide)⟩ <;> rintro rfl
  · exact other (List.cons.inj (chars.symm.trans rfl)).1
  · exact other (List.cons.inj (chars.symm.trans rfl)).1

/-- What a rooted text matches lies at its root or below. -/
theorem Rooted.of_match {m : Matchers} (documented : Documented m) (h : Rooted x t)
    (text : patternText x = x) {rel : String} (matched : pathPatternMatch m.glob x rel = true) :
    rel = t ∨ isBelow rel t = true := by
  have inX : rel = x ∨ isBelow rel x = true → rel = t ∨ isBelow rel t = true := by
    rintro (rfl | below)
    · exact h.at_or_below
    · exact Or.inr (isBelow_trans below h.at_or_below)
  have stars := h.ne_stars
  cases h with
  | exact literal =>
    rw [match_plain text literal.plain literal.nonempty, Bool.or_eq_true, beq_iff_eq] at matched
    exact matched
  | @deeper t rest literal bare wild =>
    have below : m.glob (t ++ "/" ++ rest) rel = true → rel = t ∨ isBelow rel t = true :=
      fun found => Or.inr (documented.literalStart t rest rel literal bare wild found)
    cases cut : stripEnd (t ++ "/" ++ rest) "/**" with
    | some start =>
      rw [match_tree text cut] at matched
      split at matched
      · exact below matched
      · next plain =>
        -- Without wildcards the text in front of `/**` is the root itself.
        have same : start = t := by
          have plain : patternHasGlobMeta start = false := by simpa using plain
          have stem := takeWhile_rooted literal wild
          have other : ∀ c ∈ start.toList ++ ['/'], (c != '*' && c != '?' && c != '[') = true := by
            intro c inside
            rcases List.mem_append.mp inside with own | slash
            · rw [patternHasGlobMeta, List.any_eq_false] at plain
              have := plain c own
              simp only [Bool.or_eq_true, beq_iff_eq, not_or] at this
              simp [this]
            · obtain rfl := List.mem_singleton.mp slash
              decide
          rw [stripEnd_eq_some cut, String.toList_append,
            show "/**".toList = ['/'] ++ ['*', '*'] from rfl, ← List.append_assoc,
            List.takeWhile_append_of_pos other, List.takeWhile_cons_of_neg (by decide),
            List.append_nil] at stem
          exact String.toList_inj.mp (List.append_cancel_right stem)
        rw [same, Bool.or_eq_true, beq_iff_eq] at matched
        exact matched
    | none =>
      have ext : stripStart (t ++ "/" ++ rest) "*." = none := by simp [stripStart, stars]
      have deep : stripStart (t ++ "/" ++ rest) "**/" = none := by simp [stripStart, stars]
      unfold pathPatternMatch at matched
      simp only [text, cut, ext, deep, stars, beq_iff_eq, Bool.or_eq_true, or_self, if_false]
        at matched
      split at matched
      · cases matched
      · split at matched
        · next found => exact below (Bool.and_eq_true_iff.mp found).2
        · exact inX (by simpa using matched)

theorem Rooted.of_covers {m : Matchers} (documented : Documented m) (h : Rooted x t)
    (trimmed : Trimmed pattern x) {rel : String}
    (covers : listPatternCovers m.glob rel pattern = true) : rel = t ∨ isBelow rel t = true := by
  unfold listPatternCovers at covers
  simp only [trimmed.listed, Bool.and_eq_true, Bool.or_eq_true, beq_iff_eq] at covers
  rcases covers.2 with (rfl | below) | matched
  · exact h.at_or_below
  · exact Or.inr (isBelow_trans below h.at_or_below)
  · exact h.of_match documented trimmed.self matched

theorem Rooted.may_of_line (h : Rooted x t) (text : patternText x = x) (nonempty : x ≠ "")
    {glob : String → String → Bool} {dir : String} (line : onOneLine t dir = true) :
    includePatternMayMatchInsideDir glob x dir = true := by
  unfold includePatternMayMatchInsideDir
  simp only [text, h.literalPrefix_eq, line, nonempty, beq_iff_eq, if_false, Bool.or_true]
  split
  · rfl
  · split
    · rfl
    · split <;> rfl

theorem Rooted.firstPart (h : Rooted x t) : ∃ first,
    ((slashParts x).find? (· ≠ "")).getD "" = first ∧ first ≠ "" ∧
      ∀ c ∈ first.toList, c ∈ t.toList := by
  have literal := h.literal
  have stem : ∃ first rest, slashParts t = first :: rest ∧ first ≠ "" ∧
      ∀ c ∈ first.toList, c ∈ t.toList := by
    by_cases slash : '/' ∈ t.toList
    · obtain ⟨before, after, cut, free⟩ := List.eq_append_cons_of_mem slash
      refine ⟨String.ofList before, (after.splitOn '/').map String.ofList, ?_, ?_, ?_⟩
      · rw [slashParts, cut, List.splitOn_append_cons_self, List.splitOn_eq_singleton free]
        rfl
      · intro none
        have nil : before = [] := by simpa using none
        have := literal.slashes.1 '/' (by simp [cut, nil])
        revert this
        decide
      · intro c hc
        rw [cut]
        exact List.mem_append_left _ (by simpa using hc)
    · refine ⟨t, [], ?_, literal.nonempty, fun c hc => hc⟩
      rw [slashParts, List.splitOn_eq_singleton slash]
      simp
  obtain ⟨first, rest, parts, some_, chars⟩ := stem
  refine ⟨first, ?_, some_, chars⟩
  cases h with
  | exact _ => simp [parts, some_]
  | @deeper t more _ _ _ =>
    have joined : slashParts (t ++ "/" ++ more) = slashParts t ++ slashParts more := by
      have text : (t ++ "/" ++ more).toList = t.toList ++ '/' :: more.toList := by simp
      rw [slashParts, text, List.splitOn_append_cons_self, List.map_append]
      rfl
    simp [joined, parts, some_]

theorem Rooted.canDescend_of_line (h : Rooted x t) (trimmed : Trimmed pattern x) {dir : String}
    (line : onOneLine t dir = true) : includePatternCanDescendExcludedDir pattern dir = true := by
  have literal := h.literal
  have stars := h.ne_stars
  obtain ⟨first, found, some_, chars⟩ := h.firstPart
  have noMeta : patternHasGlobMeta first = false := by
    have plain := literal.plain
    rw [patternHasGlobMeta, List.any_eq_false] at plain ⊢
    exact fun c hc => plain c (chars c hc)
  have notDeep : first ≠ "**" := by
    rintro rfl
    exact (literal.meta (chars '*' (by decide))).1 rfl
  unfold includePatternCanDescendExcludedDir isCatchAllIncludePattern
  simp only [trimmed.text, trimmed.self, found, h.literalPrefix_eq]
  simp [trimmed.nonempty, stars, some_, notDeep, noMeta, literal.nonempty, line]

/-- A text with a wildcard in front is never ruled out for a directory. -/
theorem may_of_wild (wild : x.toList.head?.any isWildcard = true) (text : patternText x = x)
    (glob : String → String → Bool) (dir : String) :
    includePatternMayMatchInsideDir glob x dir = true := by
  obtain ⟨c, more, chars, -, stops⟩ := exists_wild wild
  have start : literalPrefix x = "" := by
    rw [literalPrefix, chars, List.takeWhile_cons_of_neg (by simp [stops])]
    rfl
  have nonempty : x ≠ "" := by
    rintro rfl
    cases chars
  unfold includePatternMayMatchInsideDir
  simp only [text, start, nonempty, beq_iff_eq, if_false, Bool.true_or, beq_self_eq_true]
  split
  · rfl
  · split
    · rfl
    · split <;> rfl

theorem overrides_of_wild (wild : x.toList.head?.any isWildcard = true)
    (text : patternText pattern = x) :
    includePatternCanOverrideExclude pattern = false := by
  obtain ⟨c, more, chars, wild, -⟩ := exists_wild wild
  have meta_ : (c == '*' || c == '?' || c == '[' || c == '\x7b') = true := by
    rw [isWildcard] at wild
    rw [wild, Bool.true_or]
  have own : patternHasGlobMeta x = true := by
    rw [patternHasGlobMeta, chars, List.any_cons, meta_, Bool.true_or]
  have notSlash : (c != '/') = true := by
    rw [bne_iff_ne]
    rintro rfl
    exact absurd wild (by decide)
  unfold includePatternCanOverrideExclude
  simp only [text, own, Bool.not_true, Bool.false_eq_true, if_false]
  split
  · rfl
  · split
    · rw [Bool.not_eq_false', patternHasGlobMeta, String.toList_ofList, chars,
        List.takeWhile_cons_of_pos (by exact notSlash), List.any_cons, meta_, Bool.true_or]
    · rfl

/-- The pattern is not lost on the way to what it matches: its wildcards begin with its text,
or with a part behind a literal path. -/
def Guiding (pattern : String) : Prop :=
  ∃ x, Trimmed pattern x ∧ (x.toList.head?.any isWildcard = true ∨ ∃ t, Rooted x t)

/-- The pattern matches a directory with all that is below. -/
def Closing (pattern : String) : Prop :=
  ∃ x, Trimmed pattern x ∧ (patternHasGlobMeta x = false ∨ endsWith x "/**" = true)

theorem Closing.match_below {m : Matchers} (documented : Documented m) (h : Closing pattern)
    {dir path : String} (matched : pathPatternMatch m.glob pattern dir = true)
    (below : isBelow path dir = true) : pathPatternMatch m.glob pattern path = true := by
  obtain ⟨x, trimmed, shape⟩ := h
  rw [trimmed.match_eq] at matched ⊢
  rcases shape with plain | tree
  · rw [match_plain trimmed.self plain trimmed.nonempty, Bool.or_eq_true, beq_iff_eq] at matched ⊢
    exact Or.inr (isBelow_trans below matched)
  · obtain ⟨start, cut⟩ : ∃ start, stripEnd x "/**" = some start := by
      simp [stripEnd, tree]
    rw [match_tree trimmed.self cut] at matched ⊢
    split
    · next meta_ =>
      rw [if_pos meta_] at matched
      exact documented.treeBelow x dir path tree matched below
    · next plain =>
      rw [if_neg plain, Bool.or_eq_true, beq_iff_eq] at matched
      rw [Bool.or_eq_true, beq_iff_eq]
      exact Or.inr (isBelow_trans below matched)

theorem Closing.covers_below {m : Matchers} (documented : Documented m) (h : Closing pattern)
    {dir path : String} (covers : listPatternCovers m.glob dir pattern = true)
    (below : isBelow path dir = true) : listPatternCovers m.glob path pattern = true := by
  have goesOn := fun matched => h.match_below documented matched below
  obtain ⟨x, trimmed, -⟩ := h
  rw [trimmed.match_eq, trimmed.match_eq] at goesOn
  unfold listPatternCovers at covers ⊢
  simp only [trimmed.listed, Bool.and_eq_true, Bool.or_eq_true, beq_iff_eq] at covers ⊢
  refine ⟨covers.1, ?_⟩
  rcases covers.2 with (rfl | inside) | matched
  · exact Or.inl (Or.inr below)
  · exact Or.inl (Or.inr (isBelow_trans below (Or.inr inside)))
  · exact Or.inr (goesOn matched)

/-- A pattern that matches a file may match inside each directory above. -/
theorem Guiding.may {m : Matchers} (documented : Documented m) (h : Guiding pattern)
    {dir path : String} (below : isBelow path dir = true)
    (matched : pathPatternMatch m.glob pattern path = true) :
    includePatternMayMatchInsideDir m.glob pattern dir = true := by
  obtain ⟨x, trimmed, wild | ⟨t, rooted⟩⟩ := h
  · rw [trimmed.may_eq]
    exact may_of_wild wild trimmed.self _ _
  · rw [trimmed.match_eq] at matched
    rw [trimmed.may_eq]
    exact rooted.may_of_line trimmed.self trimmed.nonempty
      (line_of_below below (rooted.of_match documented trimmed.self matched))

theorem Guiding.listMay {m : Matchers} (documented : Documented m) (h : Guiding pattern)
    {dir path : String} (below : isBelow path dir = true)
    (covers : listPatternCovers m.glob path pattern = true) :
    listPatternMayMatchInsideDir m.glob dir pattern = true := by
  obtain ⟨x, trimmed, shape⟩ := h
  unfold listPatternMayMatchInsideDir
  simp only [trimmed.listed, Bool.and_eq_true, bne_iff_ne, ne_eq, trimmed.nonempty,
    not_false_eq_true, true_and, Bool.or_eq_true]
  rcases shape with wild | ⟨t, rooted⟩
  · exact Or.inr (may_of_wild wild trimmed.self _ _)
  · exact Or.inr (rooted.may_of_line trimmed.self trimmed.nonempty
      (line_of_below below (rooted.of_covers documented trimmed covers)))

end Patterns

namespace RootPatterns

variable {m : Matchers} {root : RootPatterns} {path dir : String}

/-- The rules of the root keep to directories: those that close match whole directories, and
those that open show the way. -/
structure Aligned (root : RootPatterns) : Prop where
  includes : ∀ pattern ∈ root.includes, Guiding pattern
  track : ∀ pattern ∈ root.explicitTrack, Guiding pattern
  untrack : ∀ pattern ∈ root.explicitUntrack, Closing pattern
  volatile : ∀ volatile ∈ root.volatile, volatile.mode = "exclude" →
    ∀ pattern ∈ volatile.patterns, Closing pattern

theorem isBelow_of_parent (above : dir ∈ parents path) : isBelow path dir = true := by
  rw [parents, List.mem_filter, mem_ancestors] at above
  exact isBelow_iff.mpr above.1

theorem managed_cases (managed : root.rootRecordIsManaged m path false = true)
    (untracked : root.explicitlyTracked m path = false) :
    isIncluded m.glob root.includes path = true ∧ Calm m root path ∧
      (m.ignore path false = true → hasIgnoredParent m path = true →
        includeOverrideMatchesPath m.glob root.includes path = true) := by
  have open_ := not_untracked_of_managed managed
  unfold rootRecordIsManaged at managed
  rw [← isVolatileExcluded_eq_false_iff]
  simp only [open_, untracked] at managed
  cases included : isIncluded m.glob root.includes path with
  | false => simp [included] at managed
  | true =>
    cases volatile : root.isVolatileExcluded m path with
    | true => simp [included, volatile] at managed
    | false =>
      refine ⟨rfl, rfl, fun ignored parent => ?_⟩
      simpa [included, volatile, ignored, parent] using managed

theorem Aligned.enters (aligned : Aligned root) (documented : Documented m)
    (text : trimMatches isSlash dir = dir) (fileText : trimMatches isSlash path = path)
    (managed : root.rootRecordIsManaged m path false = true) (above : dir ∈ parents path) :
    Enters m root path dir := by
  have below := isBelow_of_parent above
  refine ⟨fun pattern listed covers => ?_, ?_⟩
  · rw [text] at covers
    rw [fileText]
    exact (aligned.untrack pattern listed).covers_below documented covers below
  · rw [text]
    cases tracked : root.explicitlyTracked m path with
    | true =>
      rw [explicitlyTracked, pathListCovers, List.any_eq_true] at tracked
      obtain ⟨pattern, listed, covers⟩ := tracked
      rw [fileText] at covers
      exact Or.inl ⟨pattern, listed,
        (aligned.track pattern listed).listMay documented below covers⟩
    | false =>
      obtain ⟨included, calm, override⟩ := managed_cases managed tracked
      have calmDir : Calm m root dir := by
        intro volatile here mode pattern listed
        have file := calm volatile here mode pattern listed
        rw [Bool.eq_false_iff] at file ⊢
        exact fun there => file ((aligned.volatile volatile here mode pattern listed).match_below
          documented there below)
      right
      split
      · next ignored =>
        have parent : hasIgnoredParent m path = true :=
          List.any_eq_true.mpr ⟨dir, above, ignored⟩
        have reopened := override (documented.ignoreBelow dir path false ignored below) parent
        obtain ⟨pattern, listed, matched⟩ := List.any_eq_true.mp reopened
        obtain ⟨overrides, matched⟩ := Bool.and_eq_true_iff.mp matched
        have guiding := aligned.includes pattern listed
        have may := guiding.may documented below matched
        obtain ⟨x, trimmed, wild | ⟨t, rooted⟩⟩ := guiding
        · rw [overrides_of_wild wild trimmed.text] at overrides
          cases overrides
        · rw [trimmed.match_eq] at matched
          have line := line_of_below below (rooted.of_match documented trimmed.self matched)
          exact ⟨calmDir, (List.mem_filter.mp above).2 |> of_decide_eq_true, pattern, listed,
            rooted.canDescend_of_line trimmed line, may⟩
      · refine Or.inr ⟨calmDir, ?_⟩
        rcases Bool.or_eq_true_iff.mp included with none | some_
        · exact Or.inl (by rw [allCatchAll, none, Bool.true_or])
        · obtain ⟨pattern, listed, matched⟩ := List.any_eq_true.mp some_
          refine Or.inr (Or.inr (Or.inr ⟨pattern, listed, ?_⟩))
          rw [text]
          exact (aligned.includes pattern listed).may documented below matched

/-- The patterns of a root as the rules that `scan_root` asks. -/
def rules (m : Matchers) (root : RootPatterns) (follow : Bool) : RootRules where
  followSymlinks := follow
  recordIsManaged rel isDir := root.rootRecordIsManaged m (pathToSlash rel) isDir
  dirAllowsDescend rel := root.rootDirAllowsDescend m (pathToSlash rel)
  explicitlyTracked rel := root.explicitlyTracked m (pathToSlash rel)
  explicitTrackMayMatchInsideDir rel := root.explicitTrackMayMatchInsideDir m (pathToSlash rel)

theorem visited_iff_descends {follow : Bool} {policy : AutoTrackPolicy} {children : FsChildren}
    {entries : List WalkEntry} {rel : RelPath} {node : FsNode} (proper : children.Proper)
    (few : policy.unknownBatchTooLarge = false) (there : children.find follow rel = some node)
    (file : (node.walked follow).isDir = false)
    (walked : walkRoot (root.rules m follow) policy children = .ok entries) :
    (∃ entry ∈ entries, entry.path = rel) ↔
      ∀ dir ∈ parents (pathToSlash rel), root.rootDirAllowsDescend m dir = true := by
  have open_ : ∀ above, policy.mayDescend (root.rules m follow) above = true := by
    intro above
    simp [AutoTrackPolicy.mayDescend, few]
  have names := FsChildren.valid_of_find proper there
  rw [FsChildren.visited_iff proper walked there file]
  constructor
  · intro enters dir above
    obtain ⟨rel', some_, start, other, rfl⟩ := (mem_parents_pathToSlash names).mp above
    exact (Bool.and_eq_true_iff.mp (enters rel' some_ start other)).1
  · intro descends above some_ start other
    refine Bool.and_eq_true_iff.mpr ⟨?_, open_ above⟩
    exact descends _ ((mem_parents_pathToSlash names).mpr ⟨above, some_, start, other, rfl⟩)

namespace Fixture

def quiet : Matchers := ⟨fun _ _ => false, fun _ _ => false⟩

def sources : RootPatterns :=
  { includes := ["src/**"], volatile := none, explicitTrack := [], explicitUntrack := [] }

/-- Files that end in `.d` are not tracked. -/
def untrackedNames : RootPatterns :=
  { includes := [], volatile := none, explicitTrack := [], explicitUntrack := ["*.d"] }

def volatileNames : RootPatterns :=
  { includes := [], volatile := some { mode := "exclude", patterns := ["*.d"] }
    explicitTrack := [], explicitUntrack := [] }

theorem quiet_documented : Documented quiet :=
  ⟨fun _ _ _ ignored => (by cases ignored), fun _ _ _ _ found => (by cases found),
    fun _ _ _ _ _ _ found => (by cases found)⟩

theorem sources_aligned : Aligned sources where
  includes := by
    intro pattern listed
    obtain rfl := List.mem_singleton.mp listed
    have literal : Literal "src" :=
      ⟨by decide, by decide +kernel, edges_of_all (by decide +kernel) (by decide +kernel)⟩
    refine ⟨"src/**", ⟨by decide +kernel, by decide, edges_of_all (by decide +kernel)
      (by decide +kernel), edges_of_all (by decide +kernel) (by decide +kernel)⟩, Or.inr ⟨"src", ?_⟩⟩
    exact .deeper literal (by decide) (by decide : "**".toList.head?.any isWildcard = true)
  track _ listed := by cases listed
  untrack _ listed := by cases listed
  volatile _ here := by cases here

def name (text : String) : FileName := text.toUTF8.toList

/-- A file two directories deep. -/
def tree : FsChildren :=
  .cons (name "src") (.directory ByteNames.info (.cons (name "a") (.directory ByteNames.info
    (.cons (name "b.rs") (.file ByteNames.info []) .nil)) .nil)) .nil

def file : RelPath := [name "src", name "a", name "b.rs"]

end Fixture

end RootPatterns

end Majutsu.Repo
