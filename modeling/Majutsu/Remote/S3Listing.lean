import Majutsu.Cluster.Keys
import Mathlib.Data.List.DropRight

/-!
# Pages of an S3 listing

A store answers a listing with documents, one for each page. `parse_s3_list_objects_v2` goes
through the events of the XML reader and takes the names of objects and of common prefixes.
Texts of the document are unescaped here. The reader trims the white space around them, so a
name that begins or ends with white space does not come out as it went in.
-/

namespace Majutsu.Remote

open Cluster

/-- What the XML reader finds in a document. -/
inductive XmlToken where
  | opens (name : String)
  | closes (name : String)
  | text (content : String)
  /-- Declarations, comments and empty elements. -/
  | other
  | malformed
  deriving DecidableEq

def isXmlSpace (c : Char) : Bool := c = ' ' || c = '\t' || c = '\n' || c = '\r'

/-- `trim_text` of the reader. -/
def trimText (text : String) : String :=
  String.ofList ((text.toList.dropWhile isXmlSpace).rdropWhile isXmlSpace)

def isSignificant : XmlToken → Bool
  | .other => false
  | .text content => trimText content ≠ ""
  | _ => true

def fieldTokens (field : String × String) : List XmlToken :=
  [.opens field.1, .text field.2, .closes field.1]

structure S3ListPage where
  /-- Names and sizes. -/
  objects : List (String × Nat)
  commonPrefixes : List String
  isTruncated : Bool
  nextContinuationToken : Option String
  deriving DecidableEq

/-- `str::parse::<u64>`. -/
def parseU64 (text : String) : Option Nat :=
  let digits := if text.toList.head? = some '+' then text.toList.tail else text.toList
  let number := digits.foldl (fun n c => 10 * n + (c.toNat - 48)) 0
  if digits ≠ [] ∧ digits.all Char.isDigit = true ∧ number ≤ 18446744073709551615 then some number
  else none

/-- The variables of `parse_s3_list_objects_v2`. -/
structure ListScan where
  current : String
  inContents : Bool
  objectKey : Option String
  objectSize : Option Nat
  inCommonPrefixes : Bool
  commonPrefix : Option String
  page : S3ListPage
  deriving DecidableEq

namespace ListScan

def initial : ListScan := ⟨"", false, none, none, false, none, ⟨[], [], false, none⟩⟩

def opens (scan : ListScan) (name : String) : ListScan :=
  if name = "Contents" then
    { scan with current := name, inContents := true, objectKey := none, objectSize := none }
  else if name = "CommonPrefixes" then
    { scan with current := name, inCommonPrefixes := true, commonPrefix := none }
  else { scan with current := name }

def closes (scan : ListScan) (name : String) : ListScan :=
  if name = "Contents" then
    { scan with
      current := "", inContents := false, objectKey := none
      page := { scan.page with
        objects := scan.page.objects ++
          (scan.objectKey.map (fun key => (key, scan.objectSize.getD 0))).toList } }
  else if name = "CommonPrefixes" then
    { scan with
      current := "", inCommonPrefixes := false, commonPrefix := none
      page := { scan.page with
        commonPrefixes := scan.page.commonPrefixes ++ scan.commonPrefix.toList } }
  else { scan with current := "" }

/-- A text of which nothing is left is no event at all. -/
def text (scan : ListScan) (content : String) : Except Failure ListScan :=
  let value := trimText content
  if value = "" then .ok scan
  else if scan.current = "Key" ∧ scan.inContents = true then
    .ok { scan with objectKey := some value }
  else if scan.current = "Size" ∧ scan.inContents = true then
    match parseU64 value with
    | some size => .ok { scan with objectSize := some size }
    | none => .error (.message "invalid digit found in string")
  else if scan.current = "Prefix" ∧ scan.inCommonPrefixes = true then
    .ok { scan with commonPrefix := some value }
  else if scan.current = "IsTruncated" then
    .ok { scan with page := { scan.page with isTruncated := value = "true" || value = "1" } }
  else if scan.current = "NextContinuationToken" then
    .ok { scan with page := { scan.page with nextContinuationToken := some value } }
  else .ok scan

def step (scan : ListScan) : XmlToken → Except Failure ListScan
  | .opens name => .ok (scan.opens name)
  | .closes name => .ok (scan.closes name)
  | .text content => scan.text content
  | .other => .ok scan
  | .malformed => .error .io

end ListScan

def parseS3ListObjectsV2 (document : List XmlToken) : Except Failure S3ListPage :=
  (document.foldlM ListScan.step ListScan.initial).map ListScan.page

/-! ## What a store writes -/

/-- The elements of a page: an object with its fields, a common prefix, and the fields of the
page itself. -/
inductive ListItem where
  | contents (key : String) (fields : List (String × String))
  | commonPrefixes (text : String)
  | field (name content : String)

namespace ListItem

def tokens : ListItem → List XmlToken
  | .contents _ fields =>
    .opens "Contents" :: fields.flatMap fieldTokens ++ [.closes "Contents"]
  | .commonPrefixes text =>
    .opens "CommonPrefixes" :: fieldTokens ("Prefix", text) ++ [.closes "CommonPrefixes"]
  | .field name content => fieldTokens (name, content)

/-- Names that mean something outside of an object. -/
def isReserved (name : String) : Bool :=
  ["Contents", "CommonPrefixes", "IsTruncated", "NextContinuationToken"].contains name

/-- An object has one name, and a size that can be read. -/
def WellFormed : ListItem → Prop
  | .contents key fields =>
    fields.filter (fun field => field.1 = "Key") = [("Key", key)] ∧
      ∀ field ∈ fields, isReserved field.1 = false ∧
        (field.1 = "Size" → trimText field.2 ≠ "" → (parseU64 (trimText field.2)).isSome)
  | .commonPrefixes _ => True
  | .field name _ => name ≠ "Contents" ∧ name ≠ "CommonPrefixes"

/-- A name as the reader gives it. -/
def readName (name : String) : Option String :=
  if trimText name = "" then none else some (trimText name)

def key? : ListItem → Option String
  | .contents key _ => some key
  | _ => none

def prefix? : ListItem → Option String
  | .commonPrefixes text => some text
  | _ => none

def truncates (before : Bool) : ListItem → Bool
  | .field name content =>
    if name = "IsTruncated" ∧ trimText content ≠ "" then
      trimText content = "true" || trimText content = "1"
    else before
  | _ => before

def continues (before : Option String) : ListItem → Option String
  | .field name content =>
    if name = "NextContinuationToken" then (readName content).or before else before
  | _ => before

end ListItem

open ListItem

/-- The document says this, whatever lies between its elements. -/
def Lists (document : List XmlToken) (items : List ListItem) : Prop :=
  document.filter isSignificant =
    (XmlToken.opens "ListBucketResult" :: items.flatMap tokens ++
      [XmlToken.closes "ListBucketResult"]).filter isSignificant

theorem foldlM_significant {σ : Type} {step : σ → XmlToken → Except Failure σ}
    (skips : ∀ s token, isSignificant token = false → step s token = .ok s)
    (tokens : List XmlToken) (s : σ) :
    (tokens.filter isSignificant).foldlM step s = tokens.foldlM step s := by
  induction tokens generalizing s with
  | nil => rfl
  | cons token rest ih =>
    cases significant : isSignificant token with
    | true =>
      rw [List.filter_cons_of_pos significant, List.foldlM_cons, List.foldlM_cons]
      exact congrArg _ (funext ih)
    | false =>
      rw [List.filter_cons_of_neg (by simp [significant]), List.foldlM_cons,
        skips s token significant, ih]
      rfl

/-- What the fields of an element leave as its key. -/
def keyAfter (key : Option String) (fields : List (String × String)) : Option String :=
  (fields.filter (fun field => field.1 = "Key")).foldl
    (fun key field => (readName field.2).or key) key

theorem keyAfter_cons (key : Option String) (field : String × String)
    (rest : List (String × String)) :
    keyAfter key (field :: rest) = keyAfter (keyAfter key [field]) rest := by
  rw [keyAfter, ← List.singleton_append, List.filter_append, List.foldl_append]
  rfl

namespace ListScan

variable {scan : ListScan}

theorem step_insignificant (scan : ListScan) (token : XmlToken)
    (blank : isSignificant token = false) : scan.step token = .ok scan := by
  cases token with
  | other => rfl
  | text content =>
    have nothing : trimText content = "" := by simpa [isSignificant] using blank
    simp [step, ListScan.text, nothing]
  | opens name => cases blank
  | closes name => cases blank
  | malformed => cases blank

theorem foldlM_opens (name : String) (rest : List XmlToken) :
    (.opens name :: rest).foldlM step scan = rest.foldlM step (scan.opens name) := rfl

theorem foldlM_fieldTokens (field : String × String) :
    (fieldTokens field).foldlM step scan =
      ((scan.opens field.1).text field.2).map (fun scan' => scan'.closes field.1) := by
  simp only [fieldTokens, List.foldlM_cons, List.foldlM_nil, step, bind, Except.bind]
  cases (scan.opens field.1).text field.2 <;> rfl

/-- A field of an object is read for its name or its size, and changes nothing else. -/
theorem foldlM_field (inside : scan.inContents = true) (alone : scan.inCommonPrefixes = false)
    {field : String × String} (free : isReserved field.1 = false)
    (sized : field.1 = "Size" → trimText field.2 ≠ "" → (parseU64 (trimText field.2)).isSome) :
    ∃ scan', (fieldTokens field).foldlM step scan = .ok scan' ∧ scan'.inContents = true ∧
      scan'.inCommonPrefixes = false ∧ scan'.page = scan.page ∧
      scan'.objectKey = keyAfter scan.objectKey [field] := by
  obtain ⟨name, content⟩ := field
  simp only [isReserved, List.contains_eq_mem, List.mem_cons, List.not_mem_nil, or_false,
    decide_eq_false_iff_not, not_or] at free
  obtain ⟨contents, prefixes, truncated, token⟩ := free
  rw [foldlM_fieldTokens]
  simp only [opens, closes, if_neg contents, if_neg prefixes, ListScan.text, inside, alone,
    Bool.false_eq_true, and_true, and_false, if_false, if_neg truncated, if_neg token]
  by_cases blank : trimText content = ""
  · rw [if_pos blank]
    refine ⟨_, rfl, rfl, rfl, rfl, ?_⟩
    by_cases named : name = "Key" <;> simp [keyAfter, named, readName, blank]
  · rw [if_neg blank]
    by_cases named : name = "Key"
    · rw [if_pos named]
      exact ⟨_, rfl, rfl, rfl, rfl, by simp [keyAfter, named, readName, blank]⟩
    · rw [if_neg named]
      by_cases size : name = "Size"
      · obtain ⟨number, parsed⟩ := Option.isSome_iff_exists.mp (sized size blank)
        simp only [if_pos size, parsed]
        exact ⟨_, rfl, rfl, rfl, rfl, by simp [keyAfter, named]⟩
      · rw [if_neg size]
        exact ⟨_, rfl, rfl, rfl, rfl, by simp [keyAfter, named]⟩

theorem foldlM_fields (scan : ListScan) (inside : scan.inContents = true)
    (alone : scan.inCommonPrefixes = false) {fields : List (String × String)}
    (formed : ∀ field ∈ fields, isReserved field.1 = false ∧
      (field.1 = "Size" → trimText field.2 ≠ "" → (parseU64 (trimText field.2)).isSome)) :
    ∃ scan', (fields.flatMap fieldTokens).foldlM step scan = .ok scan' ∧
      scan'.inCommonPrefixes = false ∧ scan'.page = scan.page ∧
      scan'.objectKey = keyAfter scan.objectKey fields := by
  induction fields generalizing scan with
  | nil => exact ⟨scan, rfl, alone, rfl, rfl⟩
  | cons field rest ih =>
    obtain ⟨free, sized⟩ := formed field List.mem_cons_self
    obtain ⟨scan₁, first, inside₁, alone₁, page₁, key₁⟩ := foldlM_field inside alone free sized
    obtain ⟨scan₂, others, alone₂, page₂, key₂⟩ :=
      ih scan₁ inside₁ alone₁ (fun f member => formed f (List.mem_cons_of_mem field member))
    refine ⟨scan₂, ?_, alone₂, page₂.trans page₁, by rw [key₂, key₁, ← keyAfter_cons]⟩
    rw [List.flatMap_cons, List.foldlM_append, first]
    exact others

/-- Between the elements of a page. -/
structure Outside (scan : ListScan) : Prop where
  contents : scan.inContents = false
  prefixes : scan.inCommonPrefixes = false

/-- What an element adds to the page. -/
structure Adds (page : S3ListPage) (item : ListItem) (page' : S3ListPage) : Prop where
  objects : page'.objects.map Prod.fst =
    page.objects.map Prod.fst ++ (item.key?.bind readName).toList
  commonPrefixes : page'.commonPrefixes = page.commonPrefixes ++ (item.prefix?.bind readName).toList
  isTruncated : page'.isTruncated = item.truncates page.isTruncated
  nextContinuationToken : page'.nextContinuationToken = item.continues page.nextContinuationToken

theorem foldlM_item (outside : scan.Outside) {item : ListItem} (formed : item.WellFormed) :
    ∃ scan', item.tokens.foldlM step scan = .ok scan' ∧ scan'.Outside ∧
      Adds scan.page item scan'.page := by
  cases item with
  | contents key fields =>
    obtain ⟨named, fieldsFormed⟩ := formed
    obtain ⟨scan', folded, alone, page, found⟩ := foldlM_fields
      (scan.opens "Contents") rfl outside.prefixes fieldsFormed
    have whole : (ListItem.contents key fields).tokens.foldlM step scan =
        .ok (scan'.closes "Contents") := by
      rw [tokens, List.cons_append, foldlM_opens, List.foldlM_append, folded]
      rfl
    have name : scan'.objectKey = readName key := by
      rw [found, keyAfter, named, List.foldl_cons, List.foldl_nil]
      exact Option.or_none
    have pushed : (scan'.closes "Contents").page = { scan.page with
        objects := scan.page.objects ++
          ((readName key).map (fun key => (key, scan'.objectSize.getD 0))).toList } := by
      rw [closes, if_pos rfl, page, name]
      rfl
    refine ⟨_, whole, ⟨rfl, alone⟩, ?_⟩
    rw [pushed]
    refine ⟨?_, (List.append_nil _).symm, rfl, rfl⟩
    rw [List.map_append]
    refine congrArg _ ?_
    simp only [key?, Option.bind_some]
    cases readName key <;> rfl
  | commonPrefixes text =>
    by_cases blank : trimText text = ""
    · refine ⟨(((scan.opens "CommonPrefixes").opens "Prefix").closes "Prefix").closes
        "CommonPrefixes", ?_, ⟨outside.contents, rfl⟩, ⟨?_, ?_, rfl, rfl⟩⟩
      · rw [tokens, List.cons_append, foldlM_opens, List.foldlM_append, foldlM_fieldTokens]
        simp [ListScan.text, blank]
        rfl
      · exact (List.append_nil _).symm
      · simp [opens, closes, prefix?, readName, blank]
    · refine ⟨{ (((scan.opens "CommonPrefixes").opens "Prefix").closes "Prefix") with
        commonPrefix := some (trimText text) }.closes "CommonPrefixes", ?_,
        ⟨outside.contents, rfl⟩, ⟨?_, ?_, rfl, rfl⟩⟩
      · rw [tokens, List.cons_append, foldlM_opens, List.foldlM_append, foldlM_fieldTokens]
        simp [ListScan.text, blank, opens]
        rfl
      · exact (List.append_nil _).symm
      · simp [opens, closes, prefix?, readName, blank]
  | field name content =>
    obtain ⟨contents, prefixes⟩ := formed
    rw [tokens, foldlM_fieldTokens]
    simp only [opens, closes, if_neg contents, if_neg prefixes, ListScan.text, outside.contents,
      outside.prefixes, Bool.false_eq_true, and_false, if_false]
    have nothing {α : Type} (list : List α) : list = list ++ [] := (List.append_nil list).symm
    by_cases blank : trimText content = ""
    · rw [if_pos blank]
      exact ⟨_, rfl, ⟨rfl, rfl⟩, nothing _, nothing _, by simp [truncates, blank],
        by simp [continues, readName, blank]⟩
    · rw [if_neg blank]
      by_cases truncated : name = "IsTruncated"
      · rw [if_pos truncated]
        exact ⟨_, rfl, ⟨rfl, rfl⟩, nothing _, nothing _, by simp [truncates, truncated, blank],
          by simp [continues, truncated]⟩
      · rw [if_neg truncated]
        by_cases token : name = "NextContinuationToken"
        · rw [if_pos token]
          exact ⟨_, rfl, ⟨rfl, rfl⟩, nothing _, nothing _, by simp [truncates, truncated],
            by simp [continues, token, readName, blank]⟩
        · rw [if_neg token]
          exact ⟨_, rfl, ⟨rfl, rfl⟩, nothing _, nothing _, by simp [truncates, truncated],
            by simp [continues, token]⟩

theorem foldlM_items (scan : ListScan) (outside : scan.Outside) {items : List ListItem}
    (formed : ∀ item ∈ items, item.WellFormed) :
    ∃ scan', (items.flatMap tokens).foldlM step scan = .ok scan' ∧
      scan'.page.objects.map Prod.fst = scan.page.objects.map Prod.fst ++
        items.filterMap (fun item => item.key?.bind readName) ∧
      scan'.page.commonPrefixes = scan.page.commonPrefixes ++
        items.filterMap (fun item => item.prefix?.bind readName) ∧
      scan'.page.isTruncated = items.foldl truncates scan.page.isTruncated ∧
      scan'.page.nextContinuationToken = items.foldl continues scan.page.nextContinuationToken := by
  induction items generalizing scan with
  | nil => exact ⟨scan, rfl, (List.append_nil _).symm, (List.append_nil _).symm, rfl, rfl⟩
  | cons item rest ih =>
    obtain ⟨scan₁, first, outside₁, adds⟩ := foldlM_item outside (formed item List.mem_cons_self)
    obtain ⟨scan₂, others, objects, prefixes, truncated, token⟩ :=
      ih scan₁ outside₁ (fun i member => formed i (List.mem_cons_of_mem item member))
    refine ⟨scan₂, ?_, ?_, ?_, ?_, ?_⟩
    · rw [List.flatMap_cons, List.foldlM_append, first]
      exact others
    · rw [objects, adds.objects, List.append_assoc, List.filterMap_cons]
      cases item.key?.bind readName <;> rfl
    · rw [prefixes, adds.commonPrefixes, List.append_assoc, List.filterMap_cons]
      cases item.prefix?.bind readName <;> rfl
    · rw [truncated, adds.isTruncated, List.foldl_cons]
    · rw [token, adds.nextContinuationToken, List.foldl_cons]

end ListScan

/-- What comes out of the document of a page. -/
theorem parse_of_lists {document : List XmlToken} {items : List ListItem}
    (formed : ∀ item ∈ items, item.WellFormed) (lists : Lists document items) :
    ∃ page, parseS3ListObjectsV2 document = .ok page ∧
      page.objects.map Prod.fst = items.filterMap (fun item => item.key?.bind readName) ∧
      page.commonPrefixes = items.filterMap (fun item => item.prefix?.bind readName) ∧
      page.isTruncated = items.foldl truncates false ∧
      page.nextContinuationToken = items.foldl continues none := by
  obtain ⟨scan, folded, objects, prefixes, truncated, token⟩ := ListScan.foldlM_items
    (ListScan.initial.opens "ListBucketResult") ⟨rfl, rfl⟩ formed
  have whole : document.foldlM ListScan.step ListScan.initial =
      .ok (scan.closes "ListBucketResult") := by
    rw [← foldlM_significant ListScan.step_insignificant, lists,
      foldlM_significant ListScan.step_insignificant, List.cons_append, ListScan.foldlM_opens,
      List.foldlM_append, folded]
    rfl
  refine ⟨scan.page, by rw [parseS3ListObjectsV2, whole]; rfl, ?_⟩
  exact ⟨objects, prefixes, truncated, token⟩

end Majutsu.Remote
