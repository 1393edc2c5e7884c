import Majutsu.Cluster.Simulator
import Majutsu.Lib.Executions
import Majutsu.Remote.S3Listing
import Majutsu.Upload.Keys
import Mathlib.Data.List.TakeWhile

/-!
# Common prefixes on every kind of remote

A common-prefix listing should name the directories right below a place that
hold a visible key. The three implementations take the answer from different
things: a file remote from its directories, an S3 remote from the pages of a
delimiter listing together with the objects in them, the master from its own
file tree and its backend. Each answer is described by the texts in it.

The reader of the pages trims names, so a name of a bucket that begins with white
space is listed as another one.
-/

namespace Majutsu.Cluster

open Prog
open Remote (XmlToken S3ListPage ListItem Lists parseS3ListObjectsV2 isXmlSpace trimText)

def Below (visible : Key → Prop) (start text : String) : Prop :=
  ∃ c : String, '/' ∉ c.toList ∧ text = listingBase start ++ c ++ "/" ∧
    ∃ key, visible key ∧ startsWith key text = true

def Exact (answer : Finset String) (visible : Key → Prop) (start : String) : Prop :=
  ∀ text, text ∈ answer ↔ Below visible start text

def DirectlyUnder (base : String) (key : Key) : Prop :=
  startsWith key base = true ∧ '/' ∉ key.toList.drop base.toList.length

section Texts

theorem eq_append_drop {text start : String} (h : startsWith text start = true) :
    text.toList = start.toList ++ text.toList.drop start.toList.length := by
  obtain ⟨rest, whole⟩ := startsWith_iff.mp h
  rw [← whole, List.drop_left]

theorem takeWhile_of_cut {c rest : List Char} (free : '/' ∉ c) :
    (c ++ '/' :: rest).takeWhile (· != '/') = c := by
  rw [List.takeWhile_append_of_pos, List.takeWhile_cons_of_neg (by simp), List.append_nil]
  intro x hx
  simp only [bne_iff_ne, ne_eq]
  rintro rfl
  exact free hx

theorem firstPart_free (text : List Char) : '/' ∉ (firstPart text).toList := by
  intro h
  rw [firstPart, String.toList_ofList] at h
  simpa using List.mem_takeWhile_imp h

theorem firstPart_of_cut {c rest : List Char} (free : '/' ∉ c) :
    firstPart (c ++ '/' :: rest) = String.ofList c := by
  rw [firstPart, takeWhile_of_cut free]

theorem cut_first {text : List Char} (h : '/' ∈ text) :
    ∃ rest, text = (firstPart text).toList ++ '/' :: rest := by
  obtain ⟨before, after, rfl, free⟩ := List.eq_append_cons_of_mem h
  exact ⟨after, by rw [firstPart_of_cut free, String.toList_ofList]⟩

theorem startsWith_cut_iff {base c : String} {key : Key} (free : '/' ∉ c.toList) :
    startsWith key (base ++ c ++ "/") = true ↔
      startsWith key base = true ∧ '/' ∈ key.toList.drop base.toList.length ∧
        firstPart (key.toList.drop base.toList.length) = c := by
  constructor
  · intro h
    obtain ⟨rest, whole⟩ := startsWith_iff.mp h
    have cut : key.toList = base.toList ++ (c.toList ++ '/' :: rest) := by
      rw [← whole]
      simp
    refine ⟨startsWith_iff.mpr ⟨_, cut.symm⟩, ?_, ?_⟩
    · rw [cut, List.drop_left]
      simp
    · rw [cut, List.drop_left, firstPart_of_cut free, String.ofList_toList]
  · rintro ⟨under, slash, rfl⟩
    obtain ⟨rest, cut⟩ := cut_first slash
    refine startsWith_iff.mpr ⟨rest, ?_⟩
    rw [eq_append_drop under]
    simp only [String.toList_append]
    conv_rhs => rw [cut]
    simp

theorem below_iff {visible : Key → Prop} {start text : String} :
    Below visible start text ↔ ∃ key, visible key ∧ startsWith key (listingBase start) = true ∧
      '/' ∈ key.toList.drop (listingBase start).toList.length ∧
      text = listingBase start ++
        firstPart (key.toList.drop (listingBase start).toList.length) ++ "/" := by
  constructor
  · rintro ⟨c, free, rfl, key, seen, begins⟩
    obtain ⟨under, slash, rfl⟩ := (startsWith_cut_iff free).mp begins
    exact ⟨key, seen, under, slash, rfl⟩
  · rintro ⟨key, seen, under, slash, rfl⟩
    exact ⟨_, firstPart_free _, rfl, key, seen,
      (startsWith_cut_iff (firstPart_free _)).mpr ⟨under, slash, rfl⟩⟩

end Texts

section Strays

variable {visible : Key → Prop} {start text : String}

/-- A text that a listing returns for an object right below its place. -/
def Stray (visible : Key → Prop) (start text : String) : Prop :=
  ∃ key, visible key ∧ DirectlyUnder (listingBase start) key ∧ '/' ∈ key.toList ∧
    text = firstPart key.toList ++ "/"

theorem mem_listedPrefix {base : String} {key : Key} :
    text ∈ listedPrefix base key ↔ startsWith key base = true ∧
      (('/' ∈ key.toList.drop base.toList.length ∧
          text = base ++ firstPart (key.toList.drop base.toList.length) ++ "/") ∨
        ('/' ∉ key.toList.drop base.toList.length ∧ '/' ∈ key.toList ∧
          text = firstPart key.toList ++ "/")) := by
  unfold listedPrefix
  by_cases under : startsWith key base = true
  · by_cases slash : '/' ∈ key.toList.drop base.toList.length
    · simp [under, slash]
    · by_cases nested : '/' ∈ key.toList <;> simp [under, slash, nested]
  · simp [under]

theorem listed_iff :
    (∃ key, visible key ∧ text ∈ listedPrefix (listingBase start) key) ↔
      Below visible start text ∨ Stray visible start text := by
  rw [below_iff]
  simp only [mem_listedPrefix, Stray, DirectlyUnder]
  constructor
  · rintro ⟨key, seen, under, ⟨slash, rfl⟩ | ⟨flat, nested, rfl⟩⟩
    · exact Or.inl ⟨key, seen, under, slash, rfl⟩
    · exact Or.inr ⟨key, seen, ⟨under, flat⟩, nested, rfl⟩
  · rintro (⟨key, seen, under, slash, rfl⟩ | ⟨key, seen, ⟨under, flat⟩, nested, rfl⟩)
    · exact ⟨key, seen, under, Or.inl ⟨slash, rfl⟩⟩
    · exact ⟨key, seen, under, Or.inr ⟨flat, nested, rfl⟩⟩

theorem listingBase_empty : listingBase "" = "" := by simp [listingBase]

theorem listingBase_eq (nonempty : start ≠ "") : ∃ place, listingBase start = place ++ "/" := by
  unfold listingBase
  by_cases ends : endsWith start "/" = true
  · rw [if_pos (Or.inr ends)]
    simp only [endsWith, List.isSuffixOf_iff_suffix] at ends
    obtain ⟨place, whole⟩ := ends
    exact ⟨String.ofList place, by rw [← String.toList_inj, ← whole]; simp⟩
  · rw [if_neg (by simp [nonempty, ends])]
    exact ⟨start, rfl⟩

theorem slash_mem_listingBase (nonempty : start ≠ "") : '/' ∈ (listingBase start).toList := by
  obtain ⟨place, eq⟩ := listingBase_eq nonempty
  simp [eq]

theorem Stray.notBelow (stray : Stray visible start text) {other : Key → Prop} :
    ¬ Below other start text := by
  rintro ⟨c, -, same, -⟩
  obtain ⟨key, -, ⟨under, flat⟩, nested, rfl⟩ := stray
  have split := eq_append_drop under
  have slash : '/' ∈ (listingBase start).toList := by
    rw [split, List.mem_append] at nested
    exact nested.resolve_right flat
  obtain ⟨before, after, base, free⟩ := List.eq_append_cons_of_mem slash
  have first : firstPart key.toList = String.ofList before := by
    rw [split, base, List.append_assoc, List.cons_append, firstPart_of_cut free]
  have length := congrArg (fun text => text.toList.length) same
  simp only [first, String.toList_append, String.toList_ofList, List.length_append, base,
    List.length_cons] at length
  omega

theorem exists_stray_iff :
    (∃ text, Stray visible start text) ↔
      start ≠ "" ∧ ∃ key, visible key ∧ DirectlyUnder (listingBase start) key := by
  constructor
  · rintro ⟨text, key, seen, direct, nested, -⟩
    refine ⟨?_, key, seen, direct⟩
    rintro rfl
    rw [listingBase_empty] at direct
    exact direct.2 (by simpa using nested)
  · rintro ⟨nonempty, key, seen, direct⟩
    refine ⟨_, key, seen, direct, ?_, rfl⟩
    rw [eq_append_drop direct.1]
    exact List.mem_append_left _ (slash_mem_listingBase nonempty)

theorem exact_iff_sound {answer : Finset String} {more : String → Prop}
    (holds : ∀ text, text ∈ answer ↔ more text)
    (covers : ∀ text, Below visible start text → more text) :
    Exact answer visible start ↔ ∀ text, more text → Below visible start text := by
  constructor
  · intro exact text h
    exact (exact text).mp ((holds text).mpr h)
  · intro sound text
    rw [holds]
    exact ⟨sound text, covers text⟩

/-- No object of a listing lies right at the place itself, where its name has no directory. -/
def NoneAt (present : Key → Prop) (start : String) : Prop :=
  start = "" ∨ ∀ key, present key → ¬ DirectlyUnder (listingBase start) key

theorem noneAt_iff (visible : Key → Prop) {present : Key → Prop} :
    NoneAt present start ↔ ∀ text, Stray present start text → Below visible start text := by
  have none : (∀ text, ¬ Stray present start text) ↔ NoneAt present start := by
    rw [NoneAt, ← not_exists, exists_stray_iff, not_and_or, not_not, not_exists]
    simp only [not_and]
  rw [← none]
  constructor
  · intro clean text stray
    exact absurd stray (clean text)
  · intro sound text stray
    exact stray.notBelow (sound text stray)

end Strays

section ObjectStores

/-- An S3 remote keeps its keys under a prefix of the bucket. The prefix is the path of the
remote's URL with the slashes at its ends trimmed. -/
structure S3Remote where
  keyPrefix : String
  trimmed : endsWith keyPrefix "/" = false

namespace S3Remote

variable (remote : S3Remote)

def remoteKey (key : Key) : String :=
  let clean := String.ofList (key.toList.dropWhile (· == '/'))
  if remote.keyPrefix = "" then clean
  else if clean = "" then remote.keyPrefix
  else remote.keyPrefix ++ "/" ++ clean

def localKey (key : String) : Option Key :=
  if remote.keyPrefix = "" then some key else Upload.stripStart key (remote.keyPrefix ++ "/")

def pagePrefixes (page : S3ListPage) : Finset String :=
  (page.commonPrefixes.filterMap remote.localKey).toFinset ∪
    (page.objects.filterMap (fun object => (remote.localKey object.1).bind (fun key =>
      if '/' ∈ key.toList then some (firstPart key.toList ++ "/") else none))).toFinset

/-- The loop over the pages; `found` is what came before. -/
def listPages (found : Finset String) : List (List XmlToken) → Except Failure (Finset String)
  | [] => .error .io
  | document :: rest =>
    match parseS3ListObjectsV2 document with
    | .error failure => .error failure
    | .ok page =>
      let found := found ∪ remote.pagePrefixes page
      if !page.isTruncated then .ok found
      else if page.nextContinuationToken.isNone then
        .error (.message "s3 list response was truncated but did not include NextContinuationToken")
      else listPages found rest

/-- `list_common_prefixes`; `pages` are the answers of the store to the queries for a prefix. -/
def listCommonPrefixes (pages : String → List (List XmlToken)) (start : String) :
    Except Failure (Finset String) :=
  remote.listPages ∅ (pages (listingBase (remote.remoteKey start)))

/-- What a key of the remote has in front of it in the bucket. -/
def bucketHead : String := if remote.keyPrefix = "" then "" else remote.keyPrefix ++ "/"

end S3Remote

/-- The answer of a store with delimiter listing, in pages of any size. -/
structure DelimiterListing (bucket : Finset String) (base : String)
    (pages : List (List ListItem)) : Prop where
  formed : ∀ page ∈ pages, ∀ item ∈ page, item.WellFormed
  complete : ∃ before last, pages = before ++ [last] ∧ last.foldl ListItem.truncates false = false ∧
    ∀ page ∈ before, page.foldl ListItem.truncates false = true ∧
      (page.foldl ListItem.continues none).isSome
  objects : ∀ key, (∃ page ∈ pages, some key ∈ page.map ListItem.key?) ↔
    key ∈ bucket ∧ DirectlyUnder base key
  prefixes : ∀ text, (∃ page ∈ pages, some text ∈ page.map ListItem.prefix?) ↔
    ∃ key ∈ bucket, startsWith key base = true ∧ '/' ∈ key.toList.drop base.toList.length ∧
      text = base ++ firstPart (key.toList.drop base.toList.length) ++ "/"

variable {remote : S3Remote} {start : String}

/-- A text that a page with these elements leads to. -/
def Told (remote : S3Remote) (page : List ListItem) (text : String) : Prop :=
  (∃ name, some name ∈ page.map ListItem.prefix? ∧ ListItem.readName name =
      some (remote.bucketHead ++ text)) ∨
    ∃ name key, some name ∈ page.map ListItem.key? ∧
      ListItem.readName name = some (remote.bucketHead ++ key) ∧ '/' ∈ key.toList ∧
        text = firstPart key.toList ++ "/"

variable {text head base : String}

theorem localKey_eq_some {key : Key} :
    remote.localKey text = some key ↔ text = remote.bucketHead ++ key := by
  unfold S3Remote.localKey S3Remote.bucketHead
  by_cases plain : remote.keyPrefix = ""
  · simp [plain]
  · simp only [plain, if_false]
    unfold Upload.stripStart
    by_cases under : startsWith text (remote.keyPrefix ++ "/") = true
    · rw [if_pos under, Option.some_inj]
      have split : text = remote.keyPrefix ++ "/" ++
          String.ofList (text.toList.drop (remote.keyPrefix ++ "/").toList.length) := by
        rw [← String.toList_inj, String.toList_append, String.toList_ofList]
        exact eq_append_drop under
      constructor
      · rintro rfl
        exact split
      · rintro rfl
        simp
    · rw [if_neg under]
      refine ⟨nofun, ?_⟩
      rintro rfl
      exact absurd (Upload.startsWith_append _ _) under

theorem endsWith_append {tail : String} (nonempty : tail ≠ "") :
    endsWith (head ++ tail) "/" = endsWith tail "/" := by
  have tailList : tail.toList ≠ [] := by simpa using nonempty
  rw [Bool.eq_iff_iff]
  simp only [endsWith, List.isSuffixOf_iff_suffix, String.toList_append]
  have slash : "/".toList = ['/'] := by decide
  rw [slash, List.singleton_suffix_iff_getLast?_eq_some, List.singleton_suffix_iff_getLast?_eq_some,
    List.getLast?_append_of_ne_nil _ tailList]

theorem dropSlashes_of_relative (relative : startsWith text "/" = false) :
    String.ofList (text.toList.dropWhile (· == '/')) = text := by
  cases chars : text.toList with
  | nil => simpa using chars.symm
  | cons c rest =>
    have other : c ≠ '/' := by
      rintro rfl
      simp [startsWith, chars] at relative
    rw [List.dropWhile_cons_of_neg (by simpa using other), ← chars, String.ofList_toList]

theorem listingBase_remoteKey (relative : startsWith start "/" = false) :
    listingBase (remote.remoteKey start) = remote.bucketHead ++ listingBase start := by
  unfold S3Remote.remoteKey S3Remote.bucketHead
  rw [dropSlashes_of_relative relative]
  by_cases plain : remote.keyPrefix = ""
  · simp [plain]
  · by_cases top : start = ""
    · simp [plain, top, listingBase, remote.trimmed]
    · have joined : remote.keyPrefix ++ "/" ++ start ≠ "" := by
        simp [plain]
      simp only [plain, top, joined, if_false, listingBase, endsWith_append top]
      split <;> simp [String.append_assoc]

/-- The keys of a remote are the objects of the bucket below its prefix. -/
def Inside (remote : S3Remote) (bucket : Finset String) (key : Key) : Prop :=
  remote.bucketHead ++ key ∈ bucket

theorem startsWith_head : startsWith (head ++ text) (head ++ base) = startsWith text base := by
  rw [Bool.eq_iff_iff, startsWith_iff, startsWith_iff, String.toList_append, String.toList_append,
    List.prefix_append_right_inj]

theorem drop_head :
    (head ++ text).toList.drop (head ++ base).toList.length =
      text.toList.drop base.toList.length := by
  simp only [String.toList_append, List.length_append]
  rw [List.drop_append, List.drop_eq_nil_of_le (by omega), List.nil_append, Nat.add_sub_cancel_left]

theorem exists_key {object : String}
    (under : startsWith object (remote.bucketHead ++ base) = true) :
    ∃ key, object = remote.bucketHead ++ key ∧ startsWith key base = true := by
  refine ⟨base ++ String.ofList (object.toList.drop (remote.bucketHead ++ base).toList.length), ?_,
    Upload.startsWith_append _ _⟩
  rw [← String.append_assoc, ← String.toList_inj, String.toList_append, String.toList_ofList]
  exact eq_append_drop under

theorem mem_pagePrefixes {page : S3ListPage} {items : List ListItem}
    (objects : page.objects.map Prod.fst =
      items.filterMap (fun item => item.key?.bind ListItem.readName))
    (prefixes : page.commonPrefixes =
      items.filterMap (fun item => item.prefix?.bind ListItem.readName)) :
    text ∈ remote.pagePrefixes page ↔ Told remote items text := by
  have named : ∀ {get : ListItem → Option String} {value : String},
      value ∈ items.filterMap (fun item => (get item).bind ListItem.readName) ↔
        ∃ name, some name ∈ items.map get ∧ ListItem.readName name = some value := by
    intro get value
    simp only [List.mem_filterMap, List.mem_map, Option.bind_eq_some_iff]
    constructor
    · rintro ⟨item, inside, name, got, read⟩
      exact ⟨name, ⟨item, inside, got⟩, read⟩
    · rintro ⟨name, ⟨item, inside, got⟩, read⟩
      exact ⟨item, inside, name, got, read⟩
  have listed : ∀ name, (∃ object ∈ page.objects, object.1 = name) ↔
      name ∈ items.filterMap (fun item => item.key?.bind ListItem.readName) := by
    intro name
    rw [← objects, List.mem_map]
  simp only [S3Remote.pagePrefixes, Finset.mem_union, List.mem_toFinset, List.mem_filterMap,
    localKey_eq_some, Option.bind_eq_some_iff, prefixes]
  refine or_congr ?_ ?_
  · constructor
    · rintro ⟨name, ⟨item, inside, own, got, read⟩, rfl⟩
      exact named.mp (List.mem_filterMap.mpr
        ⟨item, inside, Option.bind_eq_some_iff.mpr ⟨own, got, read⟩⟩)
    · rintro ⟨own, inside, read⟩
      obtain ⟨item, member, got⟩ := List.mem_map.mp inside
      exact ⟨_, ⟨item, member, own, got, read⟩, rfl⟩
  · constructor
    · rintro ⟨object, inside, key, same, found⟩
      obtain ⟨name, there, read⟩ := named.mp ((listed object.1).mp ⟨object, inside, rfl⟩)
      split at found
      · next slash =>
        cases found
        exact ⟨name, key, there, by rw [read, same], slash, rfl⟩
      · cases found
    · rintro ⟨name, key, there, read, slash, rfl⟩
      obtain ⟨object, inside, same⟩ := (listed _).mpr (named.mpr ⟨name, there, read⟩)
      exact ⟨object, inside, key, same, by rw [if_pos slash]⟩

theorem listPages_eq {documents : List (List XmlToken)} {pages : List (List ListItem)}
    {found : Finset String} (spelled : List.Forall₂ Lists documents pages)
    (formed : ∀ page ∈ pages, ∀ item ∈ page, item.WellFormed)
    (complete : ∃ before last, pages = before ++ [last] ∧
      last.foldl ListItem.truncates false = false ∧
      ∀ page ∈ before, page.foldl ListItem.truncates false = true ∧
        (page.foldl ListItem.continues none).isSome) :
    ∃ answer, remote.listPages found documents = .ok answer ∧
      ∀ text, text ∈ answer ↔ text ∈ found ∨ ∃ page ∈ pages, Told remote page text := by
  obtain ⟨before, last, rfl, ends, goes⟩ := complete
  induction before generalizing found documents with
  | nil =>
    obtain ⟨document, rest, spells, none, rfl⟩ := List.forall₂_cons_right_iff.mp spelled
    rw [List.forall₂_nil_right_iff.mp none]
    obtain ⟨page, parsed, objects, prefixes, truncated, -⟩ :=
      Remote.parse_of_lists (formed last (List.mem_singleton_self _)) spells
    refine ⟨found ∪ remote.pagePrefixes page, ?_, fun text => ?_⟩
    · simp only [S3Remote.listPages, parsed, truncated, ends, Bool.not_false, if_true]
    · rw [Finset.mem_union, mem_pagePrefixes objects prefixes]
      simp
  | cons items rest ih =>
    obtain ⟨document, others, spells, later, rfl⟩ := List.forall₂_cons_right_iff.mp spelled
    obtain ⟨page, parsed, objects, prefixes, truncated, token⟩ :=
      Remote.parse_of_lists (formed items List.mem_cons_self) spells
    obtain ⟨cut, more⟩ := goes items List.mem_cons_self
    obtain ⟨answer, ok, holds⟩ := @ih others (found ∪ remote.pagePrefixes page) later
      (fun p member => formed p (List.mem_cons_of_mem items member))
      (fun p member => goes p (List.mem_cons_of_mem items member))
    refine ⟨answer, ?_, fun text => ?_⟩
    · simp only [S3Remote.listPages, parsed, truncated, cut, token, Bool.not_true,
        Bool.false_eq_true, if_false, Option.isNone_iff_eq_none, Option.isSome_iff_ne_none.mp more]
      exact ok
    · rw [holds, Finset.mem_union, mem_pagePrefixes objects prefixes, List.cons_append]
      simp only [List.mem_cons, exists_eq_or_imp, or_assoc]

/-- What the pages say of the bucket: the directories below the place, and the objects at it. -/
theorem told_iff {bucket : Finset String} {pages : List (List ListItem)}
    (listing : DelimiterListing bucket (remote.bucketHead ++ listingBase start) pages) :
    (∃ page ∈ pages, Told remote page text) ↔
      (∃ dir, Below (Inside remote bucket) start dir ∧
        ListItem.readName (remote.bucketHead ++ dir) = some (remote.bucketHead ++ text)) ∨
      ∃ object key, Inside remote bucket object ∧ DirectlyUnder (listingBase start) object ∧
        ListItem.readName (remote.bucketHead ++ object) = some (remote.bucketHead ++ key) ∧
          '/' ∈ key.toList ∧ text = firstPart key.toList ++ "/" := by
  have directory : ∀ name, (∃ page ∈ pages, some name ∈ page.map ListItem.prefix?) ↔
      ∃ dir, Below (Inside remote bucket) start dir ∧ name = remote.bucketHead ++ dir := by
    intro name
    rw [listing.prefixes]
    constructor
    · rintro ⟨object, stored, under, slash, rfl⟩
      obtain ⟨key, rfl, begins⟩ := exists_key under
      rw [drop_head] at slash ⊢
      exact ⟨_, below_iff.mpr ⟨key, stored, begins, slash, rfl⟩, by simp [String.append_assoc]⟩
    · rintro ⟨dir, below, rfl⟩
      obtain ⟨key, stored, begins, slash, rfl⟩ := below_iff.mp below
      exact ⟨_, stored, by rwa [startsWith_head], by rwa [drop_head],
        by simp [String.append_assoc]⟩
  have object : ∀ name, (∃ page ∈ pages, some name ∈ page.map ListItem.key?) ↔
      ∃ key, Inside remote bucket key ∧ DirectlyUnder (listingBase start) key ∧
        name = remote.bucketHead ++ key := by
    intro name
    rw [listing.objects]
    constructor
    · rintro ⟨stored, under, flat⟩
      obtain ⟨key, rfl, begins⟩ := exists_key under
      rw [drop_head] at flat
      exact ⟨key, stored, ⟨begins, flat⟩, rfl⟩
    · rintro ⟨key, stored, ⟨begins, flat⟩, rfl⟩
      exact ⟨stored, by rwa [startsWith_head], by rwa [drop_head]⟩
  constructor
  · rintro ⟨page, listed, ⟨name, there, read⟩ | ⟨name, key, there, read, slash, rfl⟩⟩
    · obtain ⟨dir, below, rfl⟩ := (directory name).mp ⟨page, listed, there⟩
      exact Or.inl ⟨dir, below, read⟩
    · obtain ⟨own, stored, direct, rfl⟩ := (object name).mp ⟨page, listed, there⟩
      exact Or.inr ⟨own, key, stored, direct, read, slash, rfl⟩
  · rintro (⟨dir, below, read⟩ | ⟨own, key, stored, direct, read, slash, rfl⟩)
    · obtain ⟨page, listed, there⟩ := (directory _).mpr ⟨dir, below, rfl⟩
      exact ⟨page, listed, Or.inl ⟨_, there, read⟩⟩
    · obtain ⟨page, listed, there⟩ := (object _).mpr ⟨own, stored, direct, rfl⟩
      exact ⟨page, listed, Or.inr ⟨_, key, there, read, slash, rfl⟩⟩

/-- A text that the reader shortens at its start. -/
def blankFirst (text : String) : Bool := text.toList.head?.any isXmlSpace

theorem blankFirst_append (nonempty : head ≠ "") : blankFirst (head ++ text) = blankFirst head := by
  have list : head.toList ≠ [] := by simpa using nonempty
  rw [blankFirst, blankFirst, String.toList_append, List.head?_append_of_ne_nil _ list]

theorem blankFirst_trimText (text : String) : blankFirst (trimText text) = false := by
  obtain ⟨tail, whole⟩ := List.rdropWhile_prefix isXmlSpace (text.toList.dropWhile isXmlSpace)
  have first := List.head?_dropWhile_not isXmlSpace text.toList
  rw [blankFirst, trimText, String.toList_ofList]
  cases trimmed : (text.toList.dropWhile isXmlSpace).rdropWhile isXmlSpace with
  | nil => rfl
  | cons c rest =>
    rw [← whole, trimmed, List.cons_append, List.head?_cons] at first
    simpa using first

theorem trimText_isInfix (text : String) : (trimText text).toList <:+: text.toList := by
  rw [trimText, String.toList_ofList]
  exact (List.rdropWhile_prefix isXmlSpace _).isInfix.trans
    (List.dropWhile_suffix isXmlSpace).isInfix

theorem mem_trimText {c : Char} (solid : isXmlSpace c = false) (inside : c ∈ text.toList) :
    c ∈ (trimText text).toList := by
  have kept : ∀ l : List Char, c ∈ l → c ∈ l.dropWhile isXmlSpace := by
    intro l member
    rw [← List.takeWhile_append_dropWhile (p := isXmlSpace) (l := l), List.mem_append] at member
    refine member.resolve_left fun early => ?_
    rw [List.mem_takeWhile_imp early] at solid
    cases solid
  rw [trimText, String.toList_ofList, List.rdropWhile, List.mem_reverse]
  exact kept _ (List.mem_reverse.mpr (kept _ inside))

theorem rdropWhile_append_cons {p : Char → Bool} {c : Char} (solid : p c = false)
    (front tail : List Char) :
    (front ++ c :: tail).rdropWhile p = front ++ c :: tail.rdropWhile p := by
  induction tail using List.reverseRecOn with
  | nil => exact List.rdropWhile_concat_neg _ _ _ (by simp [solid])
  | append_singleton tail last ih =>
    rw [← List.cons_append, ← List.append_assoc]
    cases drops : p last with
    | true =>
      rw [List.rdropWhile_concat_pos _ _ _ drops, List.rdropWhile_concat_pos _ _ _ drops, ih]
    | false =>
      rw [List.rdropWhile_concat_neg _ _ _ (by simp [drops]),
        List.rdropWhile_concat_neg _ _ _ (by simp [drops]), List.append_assoc, List.cons_append]

theorem dropWhile_blankFirst (plain : blankFirst text = false) :
    text.toList.dropWhile isXmlSpace = text.toList := by
  cases chars : text.toList with
  | nil => rfl
  | cons c rest =>
    rw [blankFirst, chars, List.head?_cons, Option.any_some] at plain
    exact List.dropWhile_cons_of_neg (by simp [plain])

/-- Behind a slash only what follows is shortened. -/
theorem trimText_slash (text : String) (plain : blankFirst (base ++ "/") = false) :
    ∃ rest, trimText (base ++ "/" ++ text) = base ++ "/" ++ rest ∧ rest.toList <+: text.toList := by
  have whole : blankFirst (base ++ "/" ++ text) = false := by
    rwa [blankFirst_append (by simp)]
  have chars : (base ++ "/" ++ text).toList = base.toList ++ '/' :: text.toList := by simp
  refine ⟨String.ofList (text.toList.rdropWhile isXmlSpace), ?_, ?_⟩
  · rw [trimText, dropWhile_blankFirst whole, chars, rdropWhile_append_cons (by decide),
      ← String.toList_inj]
    simp
  · rw [String.toList_ofList]
    exact List.rdropWhile_prefix isXmlSpace text.toList

theorem trimText_dir (plain : blankFirst (base ++ "/") = false) :
    trimText (base ++ "/") = base ++ "/" := by
  obtain ⟨rest, same, start⟩ := trimText_slash "" plain
  have none : rest = "" := by simpa using List.prefix_nil.mp start
  simpa [none] using same

theorem blankFirst_firstPart {key : String} (plain : blankFirst key = false) :
    blankFirst (firstPart key.toList ++ "/") = false := by
  rw [blankFirst] at plain ⊢
  rw [firstPart, String.toList_append, String.toList_ofList]
  cases chars : key.toList with
  | nil => decide
  | cons c rest =>
    rw [chars] at plain
    by_cases slash : c = '/'
    · rw [slash, List.takeWhile_cons_of_neg (by simp)]
      decide
    · rw [List.takeWhile_cons_of_pos (by simpa using slash)]
      exact plain

theorem readName_eq_some {name value : String} :
    ListItem.readName name = some value ↔ trimText name = value ∧ value ≠ "" := by
  unfold ListItem.readName
  split
  · next blank =>
    simp only [reduceCtorEq, false_iff, not_and, not_not]
    rintro rfl
    exact blank
  · next some_ =>
    rw [Option.some_inj]
    constructor
    · rintro rfl
      exact ⟨rfl, some_⟩
    · exact fun h => h.1

/-- No directory right below the place has a name that the reader shortens. -/
def Readable (remote : S3Remote) (present : Key → Prop) (start : String) : Prop :=
  ∀ dir, Below present start dir → blankFirst (remote.bucketHead ++ dir) = false

theorem blankFirst_bucketHead (nonempty : remote.bucketHead ≠ "") :
    blankFirst remote.bucketHead = blankFirst remote.keyPrefix := by
  unfold S3Remote.bucketHead at nonempty ⊢
  split
  · next plain => simp [plain] at nonempty
  · next plain => exact blankFirst_append plain

theorem blankFirst_read {name value : String} (read : ListItem.readName name = some value) :
    blankFirst value = false := by
  rw [← (readName_eq_some.mp read).1]
  exact blankFirst_trimText _

/-- An exact answer has every name as it is in the bucket. -/
theorem readable_of_exact {present : Key → Prop} {answer : Finset String}
    (told : ∀ text, text ∈ answer → (∃ dir, Below present start dir ∧
        ListItem.readName (remote.bucketHead ++ dir) = some (remote.bucketHead ++ text)) ∨
      ∃ object key, present object ∧ DirectlyUnder (listingBase start) object ∧
        ListItem.readName (remote.bucketHead ++ object) = some (remote.bucketHead ++ key) ∧
          '/' ∈ key.toList ∧ text = firstPart key.toList ++ "/")
    (exact : Exact answer present start) : Readable remote present start := by
  intro dir below
  rcases told dir ((exact dir).mpr below) with ⟨_, -, read⟩ | ⟨_, key, -, -, read, -, rfl⟩
  · exact blankFirst_read read
  · have plain := blankFirst_read read
    by_cases none : remote.bucketHead = ""
    · rw [none, String.empty_append] at plain ⊢
      exact blankFirst_firstPart plain
    · rwa [blankFirst_append none] at plain ⊢

/-- An object at the place itself is told as a directory that does not exist. -/
theorem stray_of_object (present : Key → Prop) {object : Key}
    (plain : blankFirst remote.keyPrefix = false) (nonempty : start ≠ "")
    (direct : DirectlyUnder (listingBase start) object) :
    ∃ key, ListItem.readName (remote.bucketHead ++ object) = some (remote.bucketHead ++ key) ∧
      '/' ∈ key.toList ∧ ¬ Below present start (firstPart key.toList ++ "/") := by
  obtain ⟨place, base⟩ := listingBase_eq nonempty
  obtain ⟨name, rfl, flat⟩ : ∃ name, object = place ++ "/" ++ name ∧ '/' ∉ name.toList := by
    refine ⟨String.ofList (object.toList.drop (listingBase start).toList.length), ?_, ?_⟩
    · rw [← base, ← String.toList_inj, String.toList_append, String.toList_ofList]
      exact eq_append_drop direct.1
    · rw [String.toList_ofList]
      exact direct.2
  cases blank : blankFirst (remote.bucketHead ++ place ++ "/") with
  | false =>
    obtain ⟨rest, read, start_⟩ := trimText_slash name blank
    have clear : '/' ∉ rest.toList := fun slash => flat (start_.subset slash)
    have whole : remote.bucketHead ++ (place ++ "/" ++ name) =
        remote.bucketHead ++ place ++ "/" ++ name := by simp [String.append_assoc]
    refine ⟨place ++ "/" ++ rest, readName_eq_some.mpr ⟨?_, by simp⟩, by simp, ?_⟩
    · rw [whole, read]
      simp [String.append_assoc]
    · refine Stray.notBelow (?_ : Stray (fun _ => True) start _)
      refine ⟨_, trivial, ⟨?_, ?_⟩, by simp, rfl⟩
      · rw [base]
        exact Upload.startsWith_append _ _
      · rw [base, show (place ++ "/" ++ rest).toList = (place ++ "/").toList ++ rest.toList by simp,
          List.drop_left]
        exact clear
  | true =>
    have none : remote.bucketHead = "" := by
      by_contra some_
      rw [String.append_assoc, blankFirst_append some_, blankFirst_bucketHead some_, plain] at blank
      cases blank
    rw [none, String.empty_append] at blank
    have slash : '/' ∈ (trimText (place ++ "/" ++ name)).toList :=
      mem_trimText (by decide) (by simp)
    refine ⟨trimText (place ++ "/" ++ name), ?_, slash, ?_⟩
    · rw [none, String.empty_append, String.empty_append]
      refine readName_eq_some.mpr ⟨rfl, fun empty => ?_⟩
      rw [empty] at slash
      cases slash
    · rintro ⟨c, -, same, -⟩
      have plain := blankFirst_firstPart (blankFirst_trimText (place ++ "/" ++ name))
      rw [same, base, String.append_assoc, blankFirst_append (by simp), blank] at plain
      cases plain

theorem listCommonPrefixes_eq {pages : String → List (List XmlToken)} {bucket : Finset String}
    {answers : List (List ListItem)} (relative : startsWith start "/" = false)
    (spelled : List.Forall₂ Lists (pages (listingBase (remote.remoteKey start))) answers)
    (listing : DelimiterListing bucket (listingBase (remote.remoteKey start)) answers) :
    ∃ answer, remote.listCommonPrefixes pages start = .ok answer ∧
      (Exact answer (Inside remote bucket) start ↔
        (blankFirst remote.keyPrefix = true ∨ NoneAt (Inside remote bucket) start) ∧
          Readable remote (Inside remote bucket) start) := by
  rw [listingBase_remoteKey relative] at listing
  obtain ⟨answer, ok, holds⟩ : ∃ answer, remote.listPages ∅ _ = .ok answer ∧ _ :=
    listPages_eq spelled listing.formed listing.complete
  have told : ∀ text, text ∈ answer ↔ _ := fun text => by
    rw [holds, told_iff listing, or_iff_right (Finset.notMem_empty text)]
  refine ⟨answer, ok, fun exact => ⟨?_, readable_of_exact (fun text => (told text).mp) exact⟩, ?_⟩
  · rw [or_iff_not_imp_left, Bool.not_eq_true]
    intro plain
    by_cases top : start = ""
    · exact Or.inl top
    refine Or.inr fun object stored direct => ?_
    obtain ⟨key, read, slash, other⟩ :=
      stray_of_object (Inside remote bucket) plain top direct
    refine other ((exact _).mp ((told _).mpr (Or.inr ?_)))
    exact ⟨object, key, stored, direct, read, slash, rfl⟩
  · rintro ⟨clean, readable⟩ text
    rw [told]
    have same : ∀ dir, Below (Inside remote bucket) start dir →
        trimText (remote.bucketHead ++ dir) = remote.bucketHead ++ dir := by
      intro dir below
      have plain := readable dir below
      obtain ⟨c, -, rfl, -⟩ := below
      rw [← String.append_assoc] at plain ⊢
      exact trimText_dir plain
    constructor
    · rintro (⟨dir, below, read⟩ | ⟨object, key, stored, direct, read, slash, rfl⟩)
      · have read := (readName_eq_some.mp read).1
        rw [same dir below] at read
        rwa [← String.append_right_inj remote.bucketHead |>.mp read]
      · exfalso
        rcases clean with blank | rfl | none
        · have plain := blankFirst_read read
          have some_ : remote.keyPrefix ≠ "" := by
            rintro none
            rw [none] at blank
            cases blank
          have head : remote.bucketHead ≠ "" := by simp [S3Remote.bucketHead, some_]
          rw [blankFirst_append head, blankFirst_bucketHead head, blank] at plain
          cases plain
        · -- Trimming adds no slash to a name that has none.
          have flat := direct.2
          rw [listingBase_empty] at flat
          have fewer := (trimText_isInfix (remote.bucketHead ++ object)).sublist.count_le '/'
          rw [(readName_eq_some.mp read).1, String.toList_append, String.toList_append,
            List.count_append, List.count_append,
            List.count_eq_zero.mpr (by simpa using flat : '/' ∉ object.toList)] at fewer
          have some_ := List.count_pos_iff.mpr slash
          omega
        · exact none object stored direct
    · intro below
      refine Or.inl ⟨text, below, readName_eq_some.mpr ⟨same text below, ?_⟩⟩
      obtain ⟨c, -, rfl, -⟩ := below
      simp

end ObjectStores

section FileTrees

variable {start : String}

/-- The empty text, or a relative path with or without a slash at its end. -/
def ValidStart (start : String) : Prop :=
  start = "" ∨ ∃ path, validateSlashRelativeKey path = .ok () ∧ (start = path ∨ start = path ++ "/")

/-- The paths of a file tree are relative. -/
def Store.Relative (s : Store) : Prop :=
  ∀ path, path ∈ s.files ∨ path ∈ s.dirs → validateSlashRelativeKey path = .ok ()

/-- A directory right below the place of a listing. -/
def ChildDir (s : Store) (start : String) (dir : Key) : Prop :=
  dir ∈ s.dirs ∧ ∃ c : String, '/' ∉ c.toList ∧ dir = listingBase start ++ c

theorem exists_inits (a : List Char) : ∃ before, a.inits = before ++ [a] := by
  rcases List.eq_nil_or_concat a with rfl | ⟨init, last, rfl⟩
  · exact ⟨[], rfl⟩
  · exact ⟨init.inits, by simp [List.concat_eq_append, List.inits_append]⟩

theorem ancestors_flat {dir : Key} (flat : '/' ∉ dir.toList) : ancestors dir = [] := by
  rw [List.eq_nil_iff_forall_not_mem]
  intro a ha
  exact flat ((mem_ancestors.mp ha).subset (by simp))

theorem ancestors_getLastD {a c : List Char} (free : '/' ∉ c) :
    (ancestors (String.ofList (a ++ '/' :: c))).getLastD "" = String.ofList a := by
  obtain ⟨before, inits⟩ := exists_inits a
  have deeper : (c.inits.map (fun l => a ++ '/' :: l)).filter
      (fun l => (l ++ ['/']).isPrefixOf (a ++ '/' :: c)) = [] := by
    rw [List.filter_eq_nil_iff]
    rintro _ hl begins
    obtain ⟨l, -, rfl⟩ := List.mem_map.mp hl
    rw [List.isPrefixOf_iff_prefix, List.append_assoc, List.prefix_append_right_inj,
      List.cons_append, List.prefix_cons_inj] at begins
    exact free (begins.subset (by simp))
  have whole : (a ++ '/' :: c).inits = (before ++ [a]) ++ c.inits.map (fun l => a ++ '/' :: l) := by
    rw [List.inits_append, inits]
    simp [Function.comp_def]
  have self : (a ++ ['/']).isPrefixOf (a ++ '/' :: c) = true := by
    simp [List.isPrefixOf_iff_prefix]
  rw [ancestors, String.toList_ofList, whole, List.filter_append, deeper, List.append_nil,
    List.filter_append, List.filter_singleton, self]
  simp

theorem endsWith_slash_iff {text : String} :
    endsWith text "/" = true ↔ ∃ init, text.toList = init ++ ['/'] := by
  have slash : "/".toList = ['/'] := by decide
  simp only [endsWith, List.isSuffixOf_iff_suffix, slash]
  exact ⟨fun ⟨init, h⟩ => ⟨init, h.symm⟩, fun ⟨init, h⟩ => ⟨init, h.symm⟩⟩

variable {path : Key} {s : Store}

theorem relative_of_valid (valid : validateSlashRelativeKey path = .ok ()) :
    path ≠ "" ∧ startsWith path "/" = false ∧ endsWith path "/" = false := by
  unfold validateSlashRelativeKey at valid
  split at valid
  · cases valid
  · next nonempty =>
    split at valid
    · cases valid
    · split at valid
      · cases valid
      · next relative =>
        split at valid
        · cases valid
        · next parts =>
          refine ⟨nonempty, by simpa using relative, ?_⟩
          rw [Bool.eq_false_iff]
          intro ends
          obtain ⟨init, cut⟩ := endsWith_slash_iff.mp ends
          refine parts (List.any_eq_true.mpr ⟨"", ?_, by simp⟩)
          rw [slashParts, cut, List.splitOn_append_cons_self]
          simp

theorem trimSlashes_append : trimSlashes (path ++ "/") = trimSlashes path := by
  simp [trimSlashes]

theorem trimSlashes_of_valid (nonempty : path ≠ "") (plain : endsWith path "/" = false) :
    trimSlashes path = path := by
  have list : path.toList ≠ [] := by simpa using nonempty
  obtain ⟨init, last, cut⟩ := (List.eq_nil_or_concat path.toList).resolve_left list
  rw [List.concat_eq_append] at cut
  have other : last ≠ '/' := by
    rintro rfl
    rw [Bool.eq_false_iff] at plain
    exact plain (endsWith_slash_iff.mpr ⟨init, cut⟩)
  rw [trimSlashes, cut, List.reverse_append, List.reverse_singleton, List.singleton_append,
    List.dropWhile_cons_of_neg (by simpa using other), List.reverse_cons, List.reverse_reverse,
    ← cut, String.ofList_toList]

theorem ValidStart.place (valid : ValidStart start) :
    start = "" ∨ (validateSlashRelativeKey (trimSlashes start) = .ok () ∧
      listingBase start = trimSlashes start ++ "/") := by
  rcases valid with rfl | ⟨path, valid, rfl | rfl⟩
  · exact Or.inl rfl
  · obtain ⟨nonempty, -, plain⟩ := relative_of_valid valid
    rw [trimSlashes_of_valid nonempty plain]
    exact Or.inr ⟨valid, by simp [listingBase, nonempty, plain]⟩
  · obtain ⟨nonempty, -, plain⟩ := relative_of_valid valid
    rw [trimSlashes_append, trimSlashes_of_valid nonempty plain]
    refine Or.inr ⟨valid, ?_⟩
    rw [listingBase, if_pos (Or.inr (endsWith_slash_iff.mpr ⟨path.toList, by simp⟩))]

theorem ValidStart.relative (valid : ValidStart start) : startsWith start "/" = false := by
  rcases valid with rfl | ⟨path, valid, rfl | rfl⟩
  · decide
  · exact (relative_of_valid valid).2.1
  · obtain ⟨nonempty, relative, -⟩ := relative_of_valid valid
    cases chars : path.toList with
    | nil => exact absurd (by simpa using chars) nonempty
    | cons c rest => simpa [startsWith, chars, List.isPrefixOf] using relative

theorem cut_last {text : List Char} (h : '/' ∈ text) :
    ∃ a c, text = a ++ '/' :: c ∧ '/' ∉ c := by
  obtain ⟨after, before, cut, free⟩ := List.eq_append_cons_of_mem (List.mem_reverse.mpr h)
  refine ⟨before.reverse, after.reverse, ?_, by simpa using free⟩
  rw [← List.reverse_inj, cut]
  simp

theorem childDir_iff (relative : s.Relative) (valid : ValidStart start) {dir : Key}
    (here : dir ∈ s.dirs) :
    (ancestors dir).getLastD "" = trimSlashes start ↔ ChildDir s start dir := by
  rw [ChildDir, and_iff_right here]
  constructor
  · intro parent
    by_cases slash : '/' ∈ dir.toList
    · obtain ⟨a, c, cut, free⟩ := cut_last slash
      have whole : dir = String.ofList (a ++ '/' :: c) := by rw [← cut, String.ofList_toList]
      rw [whole, ancestors_getLastD free] at parent
      rcases valid.place with rfl | ⟨-, place⟩
      · -- a relative path has something in front of its last slash
        have top : a = [] := by simpa [trimSlashes] using parent
        obtain ⟨-, plain, -⟩ := relative_of_valid (relative dir (Or.inr here))
        simp [startsWith, cut, top] at plain
      · refine ⟨String.ofList c, by simpa using free, ?_⟩
        rw [whole, place, ← parent, ← String.toList_inj]
        simp
    · rw [ancestors_flat slash] at parent
      rcases valid.place with rfl | ⟨checked, -⟩
      · exact ⟨dir, slash, by simp [listingBase]⟩
      · exact absurd parent.symm (relative_of_valid checked).1
  · rintro ⟨c, free, rfl⟩
    rcases valid.place with rfl | ⟨-, place⟩
    · rw [listingBase_empty, String.empty_append, ancestors_flat free]
      simp [trimSlashes]
    · have whole : listingBase start ++ c =
          String.ofList ((trimSlashes start).toList ++ '/' :: c.toList) := by
        rw [place, ← String.toList_inj]
        simp
      rw [whole, ancestors_getLastD free, String.ofList_toList]

theorem mem_commonPrefixes (relative : s.Relative) (valid : ValidStart start) :
    ∃ answer, s.commonPrefixes start = .ok answer ∧
      ∀ text, text ∈ answer ↔ ∃ dir, ChildDir s start dir ∧ text = dir ++ "/" := by
  have children : ∀ text, text ∈ (s.dirs.filter (fun d =>
      (ancestors d).getLastD "" = trimSlashes start)).image (· ++ "/") ↔
        ∃ dir, ChildDir s start dir ∧ text = dir ++ "/" := by
    intro text
    simp only [Finset.mem_image, Finset.mem_filter]
    constructor
    · rintro ⟨dir, ⟨here, parent⟩, rfl⟩
      exact ⟨dir, (childDir_iff relative valid here).mp parent, rfl⟩
    · rintro ⟨dir, child, rfl⟩
      exact ⟨dir, ⟨child.1, (childDir_iff relative valid child.1).mpr child⟩, rfl⟩
  unfold Store.commonPrefixes
  rcases valid.place with rfl | ⟨checked, place⟩
  · exact ⟨_, by simp [trimSlashes], children⟩
  · rw [if_neg (relative_of_valid checked).1, checked]
    refine ⟨_, rfl, fun text => ?_⟩
    by_cases there : trimSlashes start ∈ s.dirs
    · rw [if_pos there, children]
    · rw [if_neg there]
      refine ⟨fun none => absurd none (Finset.notMem_empty _), ?_⟩
      rintro ⟨dir, ⟨here, c, -, rfl⟩, -⟩
      refine absurd (s.rooted _ (Or.inr here) _ (mem_ancestors.mpr ?_)) there
      rw [place]
      simp

theorem Below.childDir {text : String} (below : Below (· ∈ s.files) start text) :
    ∃ dir, ChildDir s start dir ∧ text = dir ++ "/" := by
  obtain ⟨c, free, rfl, key, stored, begins⟩ := below
  refine ⟨_, ⟨s.rooted key (Or.inl stored) _ (mem_ancestors.mpr ?_), c, free, rfl⟩, rfl⟩
  simpa [startsWith_iff] using begins

end FileTrees

section Master

/-- Keys for which the master answers a read. -/
def Master.Visible (s : Master) (key : Key) : Prop :=
  (key ∈ s.store.files ∨ key ∈ s.backend) ∧
    ¬ ((s.queueItem key).any (fun item => item.operation == .delete) = true ∨ key ∈ s.localGc)

variable {C : Config} {choice : Choice} {s : Master} {start : String}

theorem run_listCommonPrefixesRequest (uncached : C.listCacheTtl = none) {stored : Finset String}
    (listed : s.store.commonPrefixes start = .ok stored) :
    (listCommonPrefixesRequest start).run (Action.perform C choice) s =
      some (.ok (stored ∪ backendPrefixes s.backend start), s) := by
  have missed : readListCache C s (.prefixes start) = (none, s) := by
    simp [readListCache, uncached]
  have unwritten (value : CachedList) : writeListCache C s (.prefixes start) value = s := by
    simp [writeListCache, uncached]
  have query : (masterListCommonPrefixes start).run (Action.perform C choice) s =
      some (.ok (stored ∪ backendPrefixes s.backend start), s) := by
    have tree : (call (.storeCommonPrefixes start)).run (Action.perform C choice) s =
        some (.ok stored, s) := by
      rw [call, run_perform, Action.perform, listed]
    refine (run_tryBind tree).trans ((run_tryBind (run_query rfl)).trans rfl)
  have miss : Action.perform C choice (.readListCache (.prefixes start)) s = some (none, s) := by
    rw [Action.perform, missed]
    rfl
  refine (run_tryBind (run_query miss)).trans ?_
  refine (run_tryBind query).trans ((run_tryBind (run_query rfl)).trans ?_)
  rw [unwritten]
  rfl

/-- Every directory right below the place has a visible key below it. -/
def InUse (tree : Store) (visible : Key → Prop) (start : String) : Prop :=
  ∀ dir, ChildDir tree start dir → ∃ key, visible key ∧ startsWith key (dir ++ "/") = true

theorem inUse_iff {tree : Store} {visible : Key → Prop} :
    InUse tree visible start ↔ ∀ text, (∃ dir, ChildDir tree start dir ∧ text = dir ++ "/") →
      Below visible start text := by
  constructor
  · rintro used _ ⟨dir, ⟨here, c, free, same⟩, rfl⟩
    exact ⟨c, free, by rw [same], used dir ⟨here, c, free, same⟩⟩
  · intro sound dir child
    obtain ⟨c, -, -, seen⟩ := sound _ ⟨dir, child, rfl⟩
    exact seen

theorem mem_backendPrefixes {text : String} :
    text ∈ backendPrefixes s.backend start ↔
      Below (· ∈ s.backend) start text ∨ Stray (· ∈ s.backend) start text := by
  rw [← listed_iff, backendPrefixes, Finset.mem_biUnion]
  simp only [Finmap.mem_keys]

theorem Below.listed {text : String} (below : Below s.Visible start text) :
    (∃ dir, ChildDir s.store start dir ∧ text = dir ++ "/") ∨
      Below (· ∈ s.backend) start text ∨ Stray (· ∈ s.backend) start text := by
  obtain ⟨c, free, same, key, ⟨stored | backed, -⟩, begins⟩ := below
  · exact Or.inl (Below.childDir ⟨c, free, same, key, stored, begins⟩)
  · exact Or.inr (Or.inl ⟨c, free, same, key, backed, begins⟩)

end Master

/-- When each of the three answers is exact. The backend of the master lists its keys by their
own names; they do not begin with white space. -/
theorem listCommonPrefixes_exact_iff {start : String} (valid : ValidStart start)
    {tree : Store} (treeRelative : tree.Relative)
    {remote : S3Remote} {bucket : Finset String} {pages : String → List (List XmlToken)}
    {answers : List (List ListItem)}
    (spelled : List.Forall₂ Lists (pages (listingBase (remote.remoteKey start))) answers)
    (listing : DelimiterListing bucket (listingBase (remote.remoteKey start)) answers)
    {C : Config} (uncached : C.listCacheTtl = none) {s : Master} (relative : s.store.Relative)
    (choice : Choice) :
    (∃ answer, tree.commonPrefixes start = .ok answer ∧
      (Exact answer (· ∈ tree.files) start ↔ InUse tree (· ∈ tree.files) start)) ∧
    (∃ answer, remote.listCommonPrefixes pages start = .ok answer ∧
      (Exact answer (Inside remote bucket) start ↔
        (blankFirst remote.keyPrefix = true ∨ NoneAt (Inside remote bucket) start) ∧
          Readable remote (Inside remote bucket) start)) ∧
    ((∀ key ∈ s.backend, blankFirst key = false) →
      ∃ answer, (listCommonPrefixesRequest start).run (Action.perform C choice) s =
        some (.ok answer, s) ∧
      (Exact answer s.Visible start ↔ InUse s.store s.Visible start ∧
        (∀ text, Below (· ∈ s.backend) start text → Below s.Visible start text) ∧
        NoneAt (· ∈ s.backend) start)) := by
  refine ⟨?_, ?_, ?_⟩
  · obtain ⟨answer, ok, holds⟩ := mem_commonPrefixes treeRelative valid
    refine ⟨answer, ok, ?_⟩
    rw [inUse_iff, exact_iff_sound holds (fun _ below => below.childDir)]
  · exact listCommonPrefixes_eq valid.relative spelled listing
  · intro _
    obtain ⟨stored, ok, holds⟩ := mem_commonPrefixes relative valid
    refine ⟨_, run_listCommonPrefixesRequest uncached ok, ?_⟩
    rw [exact_iff_sound (fun text => by rw [Finset.mem_union, holds, mem_backendPrefixes])
      (fun text below => below.listed), inUse_iff, noneAt_iff s.Visible]
    simp only [or_imp, forall_and]

namespace Fixture

def settled (result : Except Failure Store) : Store := result.toOption.getD .empty

def filled : Store := settled (Store.empty.put "packs/aa/x" [1])

def emptied : Store := settled (filled.delete "packs/aa/x")

def uncached : Config := { sample with listCacheTtl := none }

def flat : S3Remote := ⟨"", by decide⟩

/-- A page of a listing, with the fields that a store adds. -/
def document (items : List ListItem) : List XmlToken :=
  .other :: .opens "ListBucketResult" :: items.flatMap ListItem.tokens ++
    [.text "\n", .closes "ListBucketResult"]

theorem lists_document (items : List ListItem) : Lists (document items) items := by
  have blank : trimText "\n" = "" := by decide
  simp [Remote.Lists, document, List.filter_append, List.filter_cons, blank, Remote.isSignificant]

/-- A master that still has to delete the only key from its backend. -/
def deleting : Master :=
  { (installed .empty (Finmap.singleton "packs/aa/x" [1])).master with
    queue := Finmap.singleton "packs/aa/x"
      { generation := 0, sourceHost := "packs", operation := .delete, createdAt := 0
        updatedAt := 0, attempts := 0, retryAfter := none } }

def items : List ListItem := [.field "IsTruncated" "false", .commonPrefixes "packs/aa/"]

def pages (_ : String) : List (List XmlToken) := [document items]

def serving : Master := (installed filled ∅).master

theorem filled_relative : filled.Relative := by
  have paths : ∀ path ∈ filled.files.keys ∪ filled.dirs,
      validateSlashRelativeKey path = .ok () := by decide +kernel
  intro path present
  refine paths path (Finset.mem_union.mpr (present.imp_left ?_))
  exact Finmap.mem_keys.mpr

theorem filled_inUse : ∀ dir ∈ filled.dirs, startsWith "packs/aa/x" (dir ++ "/") = true := by
  decide +kernel

theorem oneObject : DelimiterListing {"packs/aa/x"} (listingBase (flat.remoteKey "packs"))
    [items] where
  formed := by
    simp [items, ListItem.WellFormed]
  complete := ⟨[], _, rfl, by decide +kernel, fun _ member => absurd member List.not_mem_nil⟩
  objects := by
    have deep : '/' ∈ "packs/aa/x".toList.drop
      (listingBase (flat.remoteKey "packs")).toList.length := by decide +kernel
    intro key
    constructor
    · rintro ⟨_, listed, found⟩
      rw [List.mem_singleton.mp listed] at found
      simp [items, ListItem.key?] at found
    · rintro ⟨stored, direct⟩
      rw [Finset.mem_singleton.mp stored] at direct
      exact absurd deep direct.2
  prefixes := by
    have cut : startsWith "packs/aa/x" (listingBase (flat.remoteKey "packs")) = true ∧
        '/' ∈ "packs/aa/x".toList.drop (listingBase (flat.remoteKey "packs")).toList.length ∧
        "packs/aa/" = listingBase (flat.remoteKey "packs") ++ firstPart ("packs/aa/x".toList.drop
          (listingBase (flat.remoteKey "packs")).toList.length) ++ "/" := by decide +kernel
    intro text
    constructor
    · rintro ⟨_, listed, found⟩
      rw [List.mem_singleton.mp listed] at found
      have name : text = "packs/aa/" := by simpa [items, ListItem.prefix?, eq_comm] using found
      exact ⟨"packs/aa/x", Finset.mem_singleton_self _, cut.1, cut.2.1, name.trans cut.2.2⟩
    · rintro ⟨key, stored, -, -, same⟩
      rw [Finset.mem_singleton.mp stored, ← cut.2.2] at same
      exact ⟨items, List.mem_singleton_self _, by simp [items, ListItem.prefix?, same]⟩

end Fixture

open Fixture in
theorem listCommonPrefixes_exact_filled :
    (∃ answer, filled.commonPrefixes "packs" = .ok answer ∧
      Exact answer (· ∈ filled.files) "packs") ∧
    (∃ answer, flat.listCommonPrefixes pages "packs" = .ok answer ∧
      Exact answer (Inside flat {"packs/aa/x"}) "packs") ∧
    (∃ answer, (listCommonPrefixesRequest "packs").run (Action.perform uncached (smooth []))
        serving = some (.ok answer, serving) ∧ Exact answer serving.Visible "packs") := by
  have valid : ValidStart "packs" := Or.inr ⟨"packs", by decide, Or.inl rfl⟩
  have found : filled.files.lookup "packs/aa/x" = some [1] := by decide +kernel
  have here := Finmap.mem_of_lookup_eq_some found
  have spelled : List.Forall₂ Lists (pages (listingBase (flat.remoteKey "packs"))) [items] :=
    .cons (lists_document items) .nil
  obtain ⟨⟨_, treeOk, tree⟩, ⟨_, remoteOk, remote⟩, listsMaster⟩ :=
    listCommonPrefixes_exact_iff valid filled_relative spelled oneObject
      (C := uncached) rfl (s := serving) filled_relative (smooth [])
  obtain ⟨_, masterOk, master⟩ :=
    listsMaster (fun key backed => absurd backed Finmap.notMem_empty)
  refine ⟨⟨_, treeOk, tree.mpr ?_⟩, ⟨_, remoteOk, remote.mpr ?_⟩, ⟨_, masterOk, master.mpr ?_⟩⟩
  · exact fun dir child => ⟨_, here, filled_inUse dir child.1⟩
  · have named : ∀ key, Inside flat {"packs/aa/x"} key → key = "packs/aa/x" := by
      simp [Inside, S3Remote.bucketHead, flat]
    refine ⟨Or.inr (Or.inr (fun key stored direct => direct.2 ?_)), ?_⟩
    · rw [named key stored]
      decide +kernel
    · rintro _ ⟨c, -, rfl, -⟩
      have place : listingBase "packs" = "packs/" := by decide +kernel
      have head : flat.bucketHead ++ (listingBase "packs" ++ c ++ "/") =
          "packs/" ++ (c ++ "/") := by
        rw [show flat.bucketHead = "" by decide, place, String.empty_append, String.append_assoc]
      rw [head, blankFirst_append (by decide)]
      decide
  · refine ⟨fun dir child => ⟨_, ⟨Or.inl here, ?_⟩, filled_inUse dir child.1⟩, ?_, ?_⟩
    · decide +kernel
    · rintro text ⟨_, _, _, key, backed, _⟩
      exact absurd backed Finmap.notMem_empty
    · exact Or.inr (fun key backed => absurd backed Finmap.notMem_empty)

open Fixture in
/-- An emptied directory stays in the answer of a file tree, an object at the place itself is
taken for a directory, a name loses the blank that it begins with, and the master forgets its
queued deletes. -/
theorem listCommonPrefixes_names_empty :
    (∃ answer, emptied.commonPrefixes "packs" = .ok answer ∧
      ¬ Exact answer (· ∈ emptied.files) "packs") ∧
    (∃ answer, flat.listCommonPrefixes
        (fun _ => [document [.contents "packs/x" [("Key", "packs/x"), ("Size", "1")]]]) "packs" =
        .ok answer ∧
      ¬ Exact answer (Inside flat {"packs/x"}) "packs") ∧
    (∃ answer, flat.listCommonPrefixes (fun _ => [document [.commonPrefixes " a/"]]) "" =
        .ok answer ∧ ¬ Exact answer (Inside flat {" a/x"}) "") ∧
    (∃ answer, (listCommonPrefixesRequest "packs").run (Action.perform uncached (smooth []))
        deleting = some (.ok answer, deleting) ∧ ¬ Exact answer deleting.Visible "packs") := by
  have files : emptied.files = ∅ := by decide +kernel
  refine ⟨⟨{"packs/aa/"}, by decide +kernel, fun exact => ?_⟩,
    ⟨{"packs/"}, by decide +kernel, fun exact => ?_⟩,
    ⟨{"a/"}, by decide +kernel, fun exact => ?_⟩,
    ⟨_, run_listCommonPrefixesRequest rfl rfl, fun exact => ?_⟩⟩
  · obtain ⟨_, -, -, key, stored, -⟩ := (exact "packs/aa/").mp (by simp)
    rw [files] at stored
    exact Finmap.notMem_empty stored
  · obtain ⟨c, -, same, -⟩ := (exact "packs/").mp (by simp)
    have base : listingBase "packs" = "packs/" := by decide +kernel
    have slash : "/".length = 1 := by decide
    have length := congrArg String.length same
    rw [base, String.length_append, String.length_append, slash] at length
    omega
  · have lost : " a/" ∈ ({"a/"} : Finset String) :=
      (exact " a/").mpr ⟨" a", by decide, by decide +kernel, " a/x",
        by simp [Inside, S3Remote.bucketHead, flat], by decide⟩
    revert lost
    decide
  · obtain ⟨_, -, -, key, ⟨stored | backed, alive⟩, -⟩ :=
      (exact "packs/aa/").mp (Finset.mem_union_right _ (by decide +kernel))
    · exact Finmap.notMem_empty stored
    · rw [(Finmap.mem_singleton ..).mp backed] at alive
      exact alive (by decide +kernel)

end Majutsu.Cluster
