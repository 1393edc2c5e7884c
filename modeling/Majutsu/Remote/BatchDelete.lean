import Majutsu.Cluster.CommonPrefixes
import Majutsu.Lib.SortedMap

/-!
# Deleting many objects of an S3 remote at once

The answer to a multi-object delete names each key in a `Deleted` or an `Error` element.
`delete_batch` looks for the errors only: a key without one counts as deleted. So a body
that could not be read to its end, which counts as empty, reports every key as deleted,
and so does an error whose key does not come out of the reader as it went in.

Texts of the document are unescaped here. The reader trims the white space around them.
-/

namespace Majutsu.Remote

open Cluster

/-- The variables of `parse_s3_multi_delete_errors`. -/
structure ErrorScan where
  current : String
  inError : Bool
  key : Option String
  code : Option String
  message : Option String
  errors : List (String × String)
  deriving DecidableEq

namespace ErrorScan

def initial : ErrorScan := ⟨"", false, none, none, none, []⟩

def detail (scan : ErrorScan) : String :=
  match scan.code, scan.message with
  | some code, some message => code ++ ": " ++ message
  | some code, none => code
  | none, some message => message
  | none, none => "unknown multi-object delete error"

def opens (scan : ErrorScan) (name : String) : ErrorScan :=
  if name = "Error" then
    { scan with current := name, inError := true, key := none, code := none, message := none }
  else { scan with current := name }

def closes (scan : ErrorScan) (name : String) : ErrorScan :=
  if name = "Error" then
    match scan.key with
    | some key =>
      ⟨"", false, none, none, none, SortedMap.insert key scan.detail scan.errors⟩
    | none => { scan with current := "", inError := false }
  else { scan with current := "" }

/-- A text of which nothing is left is no event at all. -/
def text (scan : ErrorScan) (content : String) : ErrorScan :=
  let value := trimText content
  if value = "" ∨ scan.inError = false then scan
  else if scan.current = "Key" then { scan with key := some value }
  else if scan.current = "Code" then { scan with code := some value }
  else if scan.current = "Message" then { scan with message := some value }
  else scan

def step (scan : ErrorScan) : XmlToken → Except Failure ErrorScan
  | .opens name => .ok (scan.opens name)
  | .closes name => .ok (scan.closes name)
  | .text content => .ok (scan.text content)
  | .other => .ok scan
  | .malformed => .error .io

end ErrorScan

def parseS3MultiDeleteErrors (document : List XmlToken) :
    Except Failure (List (String × String)) :=
  (document.foldlM ErrorScan.step ErrorScan.initial).map ErrorScan.errors

structure HttpResponse where
  status : Nat
  /-- Nothing, if the connection failed while the body was read. -/
  body : Option (List XmlToken)
  deriving DecidableEq

def isSuccess (status : Nat) : Bool := 200 ≤ status && status < 300

def saysNotImplemented (document : List XmlToken) : Bool :=
  [.opens "Code", .text "NotImplemented", .closes "Code"] <:+: document

/-- The keys by the names that they have in the bucket. -/
def remoteToLocal (remote : S3Remote) (keys : List Key) : List (String × Key) :=
  keys.foldl (fun named key => SortedMap.insert (remote.remoteKey key) key named) []

/-- `S3Remote::delete_batch`; `sent` is what the request came to, after all attempts. -/
def deleteBatch (remote : S3Remote) (keys : List Key) (sent : Except Failure HttpResponse) :
    BatchDeletion :=
  if keys.isEmpty then .answered []
  else if 1000 < keys.length then
    .failed (.message "s3 multi-object delete supports at most 1000 keys per request")
  else
    match sent with
    | .error failure => .failed failure
    | .ok response =>
      let responseBody := response.body.getD []
      if !isSuccess response.status then
        if response.status = 405 ∨ response.status = 501 ∨ saysNotImplemented responseBody then
          .unsupported
        else .failed (.message s!"s3 multi-object delete failed: HTTP {response.status}")
      else
        match parseS3MultiDeleteErrors responseBody with
        | .error failure => .failed failure
        | .ok errors =>
          .answered ((remoteToLocal remote keys).map fun named =>
            (named.2, SortedMap.get errors named.1))

/-- What the server did with one key, and the fields of the element that says so. -/
structure Verdict where
  key : String
  deleted : Bool
  fields : List (String × String)
  deriving DecidableEq

namespace Verdict

def elementName (verdict : Verdict) : String := if verdict.deleted then "Deleted" else "Error"

structure WellFormed (verdict : Verdict) : Prop where
  key : verdict.fields.filter (fun field => field.1 = "Key") = [("Key", verdict.key)]
  flat : ∀ field ∈ verdict.fields, field.1 ≠ "Error"

def element (verdict : Verdict) : List XmlToken :=
  .opens verdict.elementName :: verdict.fields.flatMap fieldTokens ++ [.closes verdict.elementName]

/-- The body of the answer. -/
def document (verdicts : List Verdict) : List XmlToken :=
  .opens "DeleteResult" :: verdicts.flatMap element ++ [.closes "DeleteResult"]

end Verdict

open Verdict

/-- The document says this, whatever lies between its elements. -/
def Spells (tokens : List XmlToken) (verdicts : List Verdict) : Prop :=
  tokens.filter isSignificant = (document verdicts).filter isSignificant

def Gone (remote : S3Remote) (verdicts : List Verdict) (key : Key) : Prop :=
  ∃ verdict ∈ verdicts, verdict.key = remote.remoteKey key ∧ verdict.deleted = true

/-- One result for each key, and no key counts as deleted that is not. -/
def Trustworthy (keys : List Key) (gone : Key → Prop) : BatchDeletion → Prop
  | .answered results =>
    (results.map Prod.fst).Perm keys ∧ ∀ key, (key, none) ∈ results → gone key
  | .unsupported | .failed _ => True

theorem trimText_trimText (text : String) : trimText (trimText text) = trimText text := by
  rw [trimText, dropWhile_blankFirst (blankFirst_trimText _), trimText, String.toList_ofList,
    List.rdropWhile_idempotent]

namespace ErrorScan

variable {scan : ErrorScan}

theorem step_insignificant (scan : ErrorScan) (token : XmlToken)
    (blank : isSignificant token = false) : scan.step token = .ok scan := by
  cases token with
  | other => rfl
  | text content =>
    have nothing : trimText content = "" := by simpa [isSignificant] using blank
    simp [step, ErrorScan.text, nothing]
  | opens name => cases blank
  | closes name => cases blank
  | malformed => cases blank

theorem field_spec (scan : ErrorScan) {field : String × String} (other : field.1 ≠ "Error") :
    let scan' := ((scan.opens field.1).text field.2).closes field.1
    scan'.inError = scan.inError ∧ scan'.errors = scan.errors ∧
      (scan.inError = true → scan'.key = keyAfter scan.key [field]) := by
  simp only [opens, closes, if_neg other, ErrorScan.text]
  by_cases skip : trimText field.2 = "" ∨ scan.inError = false
  · rw [if_pos skip]
    refine ⟨rfl, rfl, fun inError => ?_⟩
    have nothing : trimText field.2 = "" := skip.resolve_right (by simp [inError])
    by_cases named : field.1 = "Key"
    · simp [keyAfter, ListItem.readName, named, nothing]
    · simp [keyAfter, named]
  · rw [if_neg skip]
    have some_ : trimText field.2 ≠ "" := fun nothing => skip (.inl nothing)
    by_cases named : field.1 = "Key"
    · rw [if_pos named]
      exact ⟨rfl, rfl, fun _ => by simp [keyAfter, ListItem.readName, named, some_]⟩
    · rw [if_neg named]
      refine ⟨?_, ?_, fun _ => ?_⟩
      · split_ifs <;> rfl
      · split_ifs <;> rfl
      · rw [keyAfter, List.filter_cons_of_neg (by simpa using named)]
        split_ifs <;> rfl

theorem foldlM_fields (scan : ErrorScan) {fields : List (String × String)}
    (flat : ∀ field ∈ fields, field.1 ≠ "Error") :
    ∃ scan', (fields.flatMap fieldTokens).foldlM step scan = .ok scan' ∧
      scan'.inError = scan.inError ∧ scan'.errors = scan.errors ∧
      (scan.inError = true → scan'.key = keyAfter scan.key fields) := by
  induction fields generalizing scan with
  | nil => exact ⟨scan, rfl, rfl, rfl, fun _ => rfl⟩
  | cons field rest ih =>
    have other := flat field List.mem_cons_self
    have later := fun f member => flat f (List.mem_cons_of_mem field member)
    obtain ⟨scan', folded, inside, errors, key⟩ :=
      ih (((scan.opens field.1).text field.2).closes field.1) later
    obtain ⟨inside₁, errors₁, key₁⟩ := field_spec scan other
    refine ⟨scan', ?_, inside.trans inside₁, errors.trans errors₁, fun inError => ?_⟩
    · rw [List.flatMap_cons, fieldTokens, List.foldlM_append]
      exact folded
    · rw [key (inside₁.trans inError), key₁ inError, ← keyAfter_cons]

theorem keyAfter_of_wellFormed {verdict : Verdict} (formed : verdict.WellFormed) :
    keyAfter none verdict.fields =
      if trimText verdict.key = "" then none else some (trimText verdict.key) := by
  rw [keyAfter, formed.key, List.foldl_cons, List.foldl_nil]
  exact Option.or_none

theorem get_closes_error {key : Option String} (found : scan.key = key) (name : String) :
    (SortedMap.get (scan.closes "Error").errors name).isSome ↔
      (SortedMap.get scan.errors name).isSome ∨ key = some name := by
  unfold closes
  rw [if_pos rfl, found]
  cases key with
  | none => simp
  | some key =>
    dsimp only
    rw [SortedMap.get_insert, Option.some.injEq]
    by_cases same : key = name
    · simp [same]
    · simp [same]

theorem inError_closes_error : (scan.closes "Error").inError = false := by
  unfold closes
  rw [if_pos rfl]
  split
  · rfl
  · rfl

theorem foldlM_element {verdict : Verdict} (formed : verdict.WellFormed)
    (outside : scan.inError = false) :
    ∃ scan', verdict.element.foldlM step scan = .ok scan' ∧ scan'.inError = false ∧
      ∀ name, (SortedMap.get scan'.errors name).isSome ↔ (SortedMap.get scan.errors name).isSome ∨
        (verdict.deleted = false ∧ trimText verdict.key = name ∧ name ≠ "") := by
  obtain ⟨scan', folded, inside, errors, key⟩ :=
    foldlM_fields (scan.opens verdict.elementName) formed.flat
  have whole : verdict.element.foldlM step scan = .ok (scan'.closes verdict.elementName) := by
    rw [element, List.cons_append, List.foldlM_cons]
    change List.foldlM step (scan.opens verdict.elementName) _ = _
    rw [List.foldlM_append, folded]
    rfl
  refine ⟨_, whole, ?_⟩
  cases deleted : verdict.deleted with
  | true =>
    have name : verdict.elementName = "Deleted" := by rw [elementName, if_pos deleted]
    have other : "Deleted" ≠ "Error" := by decide
    rw [name] at inside errors ⊢
    simp only [opens, closes, if_neg other] at inside errors ⊢
    refine ⟨inside.trans outside, fun name => ?_⟩
    rw [errors]
    simp
  | false =>
    have name : verdict.elementName = "Error" := by rw [elementName, deleted]; rfl
    rw [name] at inside errors key ⊢
    refine ⟨inError_closes_error, fun name => ?_⟩
    have entered := key rfl
    rw [get_closes_error entered, errors]
    have same : (scan.opens "Error").errors = scan.errors := rfl
    have none_ : (scan.opens "Error").key = none := rfl
    rw [same, none_, keyAfter_of_wellFormed formed]
    by_cases blank : trimText verdict.key = ""
    · rw [if_pos blank, blank]
      constructor
      · rintro (before | ⟨⟨⟩⟩)
        exact .inl before
      · rintro (before | ⟨-, rfl, nonempty⟩)
        · exact .inl before
        · exact absurd rfl nonempty
    · rw [if_neg blank, Option.some.injEq]
      constructor
      · rintro (before | rfl)
        · exact .inl before
        · exact .inr ⟨rfl, rfl, blank⟩
      · rintro (before | ⟨-, named, -⟩)
        · exact .inl before
        · exact .inr named

theorem foldlM_elements {verdicts : List Verdict} (formed : ∀ verdict ∈ verdicts, verdict.WellFormed)
    (outside : scan.inError = false) :
    ∃ scan', (verdicts.flatMap element).foldlM step scan = .ok scan' ∧
      ∀ name, (SortedMap.get scan'.errors name).isSome ↔ (SortedMap.get scan.errors name).isSome ∨
        ∃ verdict ∈ verdicts, verdict.deleted = false ∧ trimText verdict.key = name ∧ name ≠ "" := by
  induction verdicts generalizing scan with
  | nil => exact ⟨scan, rfl, by simp⟩
  | cons verdict rest ih =>
    obtain ⟨scan₁, first, outside₁, entered⟩ :=
      foldlM_element (formed verdict List.mem_cons_self) outside
    obtain ⟨scan₂, others, found⟩ :=
      ih (fun v member => formed v (List.mem_cons_of_mem verdict member)) outside₁
    refine ⟨scan₂, ?_, fun name => ?_⟩
    · rw [List.flatMap_cons, List.foldlM_append, first]
      exact others
    · rw [found, entered, List.exists_mem_cons_iff, or_assoc]

end ErrorScan

theorem parse_of_spells {tokens : List XmlToken} {verdicts : List Verdict}
    (formed : ∀ verdict ∈ verdicts, verdict.WellFormed) (spells : Spells tokens verdicts) :
    ∃ errors, parseS3MultiDeleteErrors tokens = .ok errors ∧
      ∀ name, (SortedMap.get errors name).isSome ↔
        ∃ verdict ∈ verdicts, verdict.deleted = false ∧ trimText verdict.key = name ∧ name ≠ "" := by
  obtain ⟨scan, folded, found⟩ := ErrorScan.foldlM_elements formed
    (show (ErrorScan.initial.opens "DeleteResult").inError = false from rfl)
  have whole : tokens.foldlM ErrorScan.step ErrorScan.initial =
      .ok (scan.closes "DeleteResult") := by
    rw [← foldlM_significant ErrorScan.step_insignificant, spells,
      foldlM_significant ErrorScan.step_insignificant, document, List.cons_append,
      List.foldlM_cons]
    change List.foldlM ErrorScan.step (ErrorScan.initial.opens "DeleteResult") _ = _
    rw [List.foldlM_append, folded]
    rfl
  refine ⟨(scan.closes "DeleteResult").errors, by rw [parseS3MultiDeleteErrors, whole]; rfl, ?_⟩
  intro name
  have same : (scan.closes "DeleteResult").errors = scan.errors := rfl
  rw [same, found]
  simp [ErrorScan.initial, ErrorScan.opens]

variable {remote : S3Remote} {keys : List Key}

theorem remoteKey_of_valid {key : Key} (valid : validateSlashRelativeKey key = .ok ()) :
    remote.remoteKey key = remote.bucketHead ++ key := by
  obtain ⟨nonempty, relative, -⟩ := relative_of_valid valid
  unfold S3Remote.remoteKey S3Remote.bucketHead
  simp only [dropSlashes_of_relative relative, if_neg nonempty]
  split
  · rw [String.empty_append]
  · rfl

theorem distinct_remoteKeys (remote : S3Remote) (distinct : keys.Nodup)
    (valid : ∀ key ∈ keys, validateSlashRelativeKey key = .ok ()) :
    (keys.map remote.remoteKey).Nodup := by
  refine List.Nodup.map_on (fun a inside b inside' same => ?_) distinct
  rw [remoteKey_of_valid (valid a inside), remoteKey_of_valid (valid b inside')] at same
  have characters := congrArg String.toList same
  rw [String.toList_append, String.toList_append] at characters
  exact String.toList_inj.mp (List.append_cancel_left characters)

theorem trustworthy_answered_iff (distinct : (keys.map remote.remoteKey).Nodup)
    {errors : List (String × String)} {gone : Key → Prop} :
    Trustworthy keys gone (.answered ((remoteToLocal remote keys).map fun named =>
        (named.2, SortedMap.get errors named.1))) ↔
      ∀ key ∈ keys, SortedMap.get errors (remote.remoteKey key) = none → gone key := by
  have listed : (remoteToLocal remote keys).Perm
      (keys.map fun key => (remote.remoteKey key, key)) :=
    SortedMap.foldl_insert_perm remote.remoteKey id distinct
  have each : (((remoteToLocal remote keys).map fun named =>
      (named.2, SortedMap.get errors named.1)).map Prod.fst).Perm keys := by
    have names := listed.map Prod.snd
    rw [List.map_map] at names ⊢
    simpa [Function.comp_def] using names
  constructor
  · rintro ⟨-, reported⟩ key inside silent
    refine reported key (List.mem_map.mpr ⟨(remote.remoteKey key, key), ?_, by rw [silent]⟩)
    exact listed.mem_iff.mpr (List.mem_map_of_mem inside)
  · intro reported
    refine ⟨each, fun key listed' => ?_⟩
    obtain ⟨⟨name, key'⟩, inside, result⟩ := List.mem_map.mp listed'
    obtain ⟨key'', member, named⟩ := List.mem_map.mp (listed.mem_iff.mp inside)
    cases named
    obtain ⟨rfl, silent⟩ := Prod.mk.inj result
    exact reported _ member silent

theorem uses_settleBatch {gone : Key → Prop} {results : List (Key × Option String)}
    (reported : ∀ key, (key, none) ∈ results → gone key) (active : List Queued) :
    Prog.Uses (fun action => ∀ queued, action = .locked (.completeUploaded queued) →
      gone queued.1) (settleBatch results active) := by
  induction active with
  | nil => trivial
  | cons queued rest ih =>
    unfold settleBatch
    have fails : Prog.Uses (fun action => ∀ queued, action = .locked (.completeUploaded queued) →
        gone queued.1) (locked (.recordFailure queued)) :=
      ⟨fun _ same => (by cases same), fun _ => trivial⟩
    split
    · next deleted =>
      refine Prog.Uses.tryBind ⟨?_, fun _ => trivial⟩ fun _ =>
        Prog.Uses.tryBind ih fun _ => trivial
      rintro queued' ⟨⟩
      obtain ⟨result, found, none_⟩ := Option.map_eq_some_iff.mp deleted
      have named : result.1 = queued.1 := by simpa using List.find?_some found
      have member : result ∈ results := List.mem_reverse.mp (List.mem_of_find?_eq_some found)
      apply reported
      rw [← named, ← none_]
      exact member
    · exact Prog.Uses.tryBind fails fun _ => Prog.Uses.tryBind ih fun _ => trivial
    · exact Prog.Uses.tryBind fails fun _ => Prog.Uses.tryBind ih fun _ => trivial

theorem covered_iff {verdicts : List Verdict}
    (each : (verdicts.map Verdict.key).Perm (keys.map remote.remoteKey))
    (valid : ∀ key ∈ keys, validateSlashRelativeKey key = .ok ())
    {errors : List (String × String)}
    (found : ∀ name, (SortedMap.get errors name).isSome ↔
      ∃ verdict ∈ verdicts, verdict.deleted = false ∧ trimText verdict.key = name ∧ name ≠ "") :
    (∀ key ∈ keys, SortedMap.get errors (remote.remoteKey key) = none → Gone remote verdicts key) ↔
      ∀ key ∈ keys, Gone remote verdicts key ∨
        trimText (remote.remoteKey key) = remote.remoteKey key := by
  constructor
  · intro covered key inside
    by_cases plain : trimText (remote.remoteKey key) = remote.remoteKey key
    · exact .inr plain
    · refine .inl (covered key inside (Option.not_isSome_iff_eq_none.mp fun listed => plain ?_))
      obtain ⟨verdict, -, -, name, -⟩ := (found _).mp listed
      rw [← name, trimText_trimText]
  · intro covered key inside silent
    rcases covered key inside with gone | plain
    · exact gone
    · have named : remote.remoteKey key ∈ verdicts.map Verdict.key :=
        each.mem_iff.mpr (List.mem_map_of_mem inside)
      obtain ⟨verdict, member, name⟩ := List.mem_map.mp named
      cases deleted : verdict.deleted with
      | true => exact ⟨verdict, member, name, deleted⟩
      | false =>
        have nonempty : remote.remoteKey key ≠ "" := by
          rw [remoteKey_of_valid (valid key inside), ne_eq, String.append_eq_empty_iff]
          exact fun empty => (relative_of_valid (valid key inside)).1 empty.2
        have listed := (found _).mpr ⟨verdict, member, deleted, by rw [name, plain], nonempty⟩
        rw [silent] at listed
        cases listed

/-- For distinct valid keys, and for every answer of the server: the reports can be trusted,
and the queue completes only what is gone, just when each key that was not deleted has an
error that reaches the scan. The body must have been read, and the reader must not have
trimmed the key. -/
theorem deleteBatch_trustworthy_iff (remote : S3Remote) (few : keys.length ≤ 1000)
    (distinct : keys.Nodup) (valid : ∀ key ∈ keys, validateSlashRelativeKey key = .ok ())
    {verdicts : List Verdict} (formed : ∀ verdict ∈ verdicts, verdict.WellFormed)
    (each : (verdicts.map Verdict.key).Perm (keys.map remote.remoteKey))
    (sent : Except Failure HttpResponse)
    (spells : ∀ response tokens, sent = .ok response → isSuccess response.status = true →
      response.body = some tokens → Spells tokens verdicts) :
    (Trustworthy keys (Gone remote verdicts) (deleteBatch remote keys sent) ∧
      ∀ results active, deleteBatch remote keys sent = .answered results →
        active.map Prod.fst = keys →
        Prog.Uses (fun action => ∀ queued, action = .locked (.completeUploaded queued) →
          Gone remote verdicts queued.1) (settleBatch results active)) ↔
    ∀ response, sent = .ok response → isSuccess response.status = true → ∀ key ∈ keys,
      Gone remote verdicts key ∨
        (response.body.isSome ∧ trimText (remote.remoteKey key) = remote.remoteKey key) := by
  refine (and_iff_left_of_imp fun trustworthy results active answered _ => ?_).trans ?_
  · rw [answered] at trustworthy
    exact uses_settleBatch trustworthy.2 active
  cases keys with
  | nil => simp [deleteBatch, Trustworthy]
  | cons first rest =>
    have names := distinct_remoteKeys remote distinct valid
    have within : ¬ 1000 < (first :: rest).length := by omega
    cases sent with
    | error failure =>
      simp only [deleteBatch, List.isEmpty_cons, Bool.false_eq_true, if_false, if_neg within]
      exact ⟨fun _ _ same => (by cases same), fun _ => trivial⟩
    | ok response =>
      simp only [deleteBatch, List.isEmpty_cons, Bool.false_eq_true, if_false, if_neg within,
        Except.ok.injEq, forall_eq']
      cases success : isSuccess response.status with
      | false =>
        simp only [Bool.not_false, if_true, Bool.false_eq_true, false_implies, iff_true]
        split
        · trivial
        · trivial
      | true =>
        simp only [Bool.not_true, Bool.false_eq_true, if_false, true_implies]
        cases body : response.body with
        | none =>
          have nothing : parseS3MultiDeleteErrors [] = .ok [] := rfl
          simp only [Option.getD_none, nothing]
          rw [trustworthy_answered_iff names]
          simp
        | some tokens =>
          obtain ⟨errors, parsed, found⟩ :=
            parse_of_spells formed (spells response tokens rfl success body)
          simp only [Option.getD_some, parsed, Option.isSome_some, true_and]
          rw [trustworthy_answered_iff names]
          exact covered_iff each valid found

namespace Locked

def bucket : S3Remote := Cluster.Fixture.flat

def refused (key : Key) : Verdict := ⟨key, false, [("Key", key), ("Code", "AccessDenied")]⟩

def deleted (key : Key) : Verdict := ⟨key, true, [("Key", key)]⟩

end Locked

open Locked in
theorem deleteBatch_trustworthy_read :
    ["h/a", "h/b"].Nodup ∧
    Trustworthy ["h/a", "h/b"] (Gone bucket [deleted "h/a", refused "h/b"])
      (deleteBatch bucket ["h/a", "h/b"]
        (.ok ⟨200, some (document [deleted "h/a", refused "h/b"])⟩)) := by
  have formed : ∀ verdict ∈ [deleted "h/a", refused "h/b"], verdict.WellFormed := by
    intro verdict member
    rcases List.mem_pair.mp member with rfl | rfl
    · exact ⟨by decide, by decide⟩
    · exact ⟨by decide, by decide⟩
  have each : ([deleted "h/a", refused "h/b"].map Verdict.key).Perm
      (["h/a", "h/b"].map bucket.remoteKey) := by decide +kernel
  have spells : ∀ response tokens,
      (.ok ⟨200, some (document [deleted "h/a", refused "h/b"])⟩ : Except Failure HttpResponse) =
        .ok response → isSuccess response.status = true → response.body = some tokens →
      Spells tokens [deleted "h/a", refused "h/b"] := by
    rintro response tokens ⟨⟩ - ⟨⟩
    rfl
  refine ⟨by decide, ((deleteBatch_trustworthy_iff bucket (by decide) (by decide)
    (by decide +kernel) formed each _ spells).mpr ?_).1⟩
  rintro response ⟨⟩ - key inside
  refine .inr ⟨rfl, ?_⟩
  have plain : ∀ key ∈ ["h/a", "h/b"], trimText (bucket.remoteKey key) = bucket.remoteKey key := by
    decide +kernel
  exact plain key inside

open Locked in
/-- The answer names the key that was refused, but its body is not read to the end; and an
answer that is read, for a key that ends in a space. -/
theorem deleteBatch_trusts_silence :
    ¬ Trustworthy ["h/a"] (Gone bucket [refused "h/a"])
      (deleteBatch bucket ["h/a"] (.ok ⟨200, none⟩)) ∧
    validateSlashRelativeKey "h/a " = .ok () ∧
    ¬ Trustworthy ["h/a "] (Gone bucket [refused "h/a "])
      (deleteBatch bucket ["h/a "] (.ok ⟨200, some (document [refused "h/a "])⟩)) := by
  have lost : deleteBatch bucket ["h/a"] (.ok ⟨200, none⟩) = .answered [("h/a", none)] := by
    decide +kernel
  have trimmed : deleteBatch bucket ["h/a "] (.ok ⟨200, some (document [refused "h/a "])⟩) =
      .answered [("h/a ", none)] := by decide +kernel
  have kept : ∀ key : Key, ¬ Gone bucket [refused key] key := by
    rintro key ⟨verdict, member, -, gone⟩
    rw [List.mem_singleton.mp member] at gone
    cases gone
  rw [lost, trimmed]
  refine ⟨fun trusted => ?_, by decide +kernel, fun trusted => ?_⟩
  · exact kept "h/a" (trusted.2 "h/a" List.mem_cons_self)
  · exact kept "h/a " (trusted.2 "h/a " List.mem_cons_self)

end Majutsu.Remote
