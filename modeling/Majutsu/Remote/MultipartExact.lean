import Majutsu.Remote.Multipart
import Majutsu.Lib.Completion

/-!
# A multipart upload sends its content exactly

Parts and reads fail in any pattern, and a read may return less than was asked for. Either
the upload is completed once, with parts that make up the content in order, or it is
aborted after a failure.

The buffer for a part of a file is allocated at once. A configured part size over
`isize::MAX` ends the process there, with the upload neither completed nor aborted; memory
within that bound is taken to be there.
-/

namespace Majutsu.Remote

open Cluster (Key Bytes Failure)
open Prog

/-- What has happened to an upload. -/
structure Session where
  /-- The position in the open file. -/
  offset : Nat
  readFailed : Bool
  /-- The uploads of a part, with their answers. -/
  uploads : String → Nat → List (Bytes × Except Failure String)
  completions : List (String × List CompletedPart)
  aborts : List String

namespace Session

def initial : Session := ⟨0, false, fun _ _ => [], [], []⟩

def uploaded (s : Session) (uploadId : String) (partNumber : Nat) (bytes : Bytes)
    (answer : Except Failure String) : Session :=
  { s with uploads := fun id number =>
      if id = uploadId ∧ number = partNumber then s.uploads id number ++ [(bytes, answer)]
      else s.uploads id number }

end Session

/-- The calls on a file with the given content, which does not change, and on a store that
may answer anything. -/
def Behaves (content : Bytes) : (c : UploadCall) → Session → Option c.Answer → Session → Prop
  | .openFile, s, answer, s' =>
    (answer = some (.ok ()) ∧ s' = { s with offset := 0 }) ∨
      ∃ e, answer = some (.error e) ∧ s' = { s with readFailed := true }
  | .allocate size, s, answer, s' =>
    s' = s ∧ answer = if size ≤ isizeMax then some () else none
  | .readFile room, s, answer, s' =>
    (∃ piece : Bytes, answer = some (.ok piece) ∧ piece <+: content.drop s.offset ∧
      piece.length ≤ room ∧ (piece = [] → content.drop s.offset = []) ∧
      s' = { s with offset := s.offset + piece.length }) ∨
      ∃ e, answer = some (.error e) ∧ s' = { s with readFailed := true }
  | .uploadPart uploadId partNumber bytes, s, answer, s' =>
    ∃ r, answer = some r ∧ s' = s.uploaded uploadId partNumber bytes r
  | .completeMultipart uploadId parts, s, answer, s' =>
    (∃ r, answer = some r) ∧ s' = { s with completions := s.completions ++ [(uploadId, parts)] }
  | .abortMultipart uploadId, s, answer, s' =>
    (∃ r, answer = some r) ∧ s' = { s with aborts := s.aborts ++ [uploadId] }

/-- The completion of an upload names parts with the content `chunks`. -/
structure Session.Completed (s : Session) (uploadId : String) (chunks : List Bytes) : Prop where
  once : ∃ parts, s.completions = [(uploadId, parts)] ∧
    parts.map CompletedPart.partNumber = List.range' 1 chunks.length ∧
    List.Forall₂ (fun chunk part => s.uploads uploadId part.partNumber = [(chunk, .ok part.etag)])
      chunks parts

def Session.PartFailed (s : Session) (uploadId : String) : Prop :=
  s.readFailed = true ∨ ∃ number bytes e, (bytes, .error e) ∈ s.uploads uploadId number

/-- The content arrived, or the upload was given up after a failure. -/
def Session.Exact (s : Session) (uploadId : String) (limit : Nat) (content : Bytes)
    (result : Except Failure Unit) : Prop :=
  (∃ chunks, s.Completed uploadId chunks ∧ chunks.flatten = content ∧ chunks.length ≤ limit ∧
    ∀ chunk ∈ chunks.dropLast, minMultipartPartSize ≤ chunk.length) ∨
  (s.PartFailed uploadId ∧ s.completions = [] ∧ uploadId ∈ s.aborts ∧ ∃ e, result = .error e)

theorem map_fst_numberFrom (number : Nat) (chunks : List Bytes) :
    (numberFrom number chunks).map Prod.fst = List.range' number chunks.length := by
  induction chunks generalizing number with
  | nil => rfl
  | cons chunk rest ih =>
    rw [numberFrom, List.map_cons, ih, List.length_cons, List.range'_succ]

theorem map_snd_numberFrom (number : Nat) (chunks : List Bytes) :
    (numberFrom number chunks).map Prod.snd = chunks := by
  induction chunks generalizing number with
  | nil => rfl
  | cons chunk rest ih => rw [numberFrom, List.map_cons, ih]

theorem nodup_numberFrom (number : Nat) (chunks : List Bytes) :
    ((numberFrom number chunks).map Prod.fst).Nodup := by
  rw [map_fst_numberFrom]
  exact List.nodup_range' _

namespace UploadConfig

variable (config : UploadConfig)

theorem getD_filter_pos {setting : Option Nat} {other : Nat} (positive : 0 < other) :
    0 < (setting.filter (0 < ·)).getD other := by
  cases setting with
  | none => exact positive
  | some value =>
    by_cases h : 0 < value
    · simp [Option.filter, h]
    · simpa [Option.filter, h] using positive

theorem partLimit_pos : 0 < config.partLimit := getD_filter_pos (by decide)

theorem multipartParallelismForKey_pos (key : Key) :
    0 < config.multipartParallelismForKey key := by
  rw [multipartParallelismForKey]
  split
  · refine Nat.lt_min.mpr ⟨getD_filter_pos (by decide), ?_⟩
    omega
  · omega

theorem minMultipartPartSize_le (len : Nat) :
    minMultipartPartSize ≤ config.adaptiveMultipartPartSize len := Nat.le_max_right _ _

theorem adaptiveMultipartPartSize_pos (len : Nat) : 0 < config.adaptiveMultipartPartSize len :=
  Nat.lt_of_lt_of_le (by decide) (config.minMultipartPartSize_le len)

theorem le_partLimit_mul (len : Nat) :
    len ≤ config.partLimit * config.adaptiveMultipartPartSize len := by
  have positive := config.partLimit_pos
  have rounded : (len + config.partLimit - 1) / config.partLimit ≤
      config.adaptiveMultipartPartSize len :=
    Nat.le_trans (Nat.le_max_left _ _) (Nat.le_trans (Nat.le_max_right _ _) (Nat.le_max_left _ _))
  calc len ≤ config.partLimit * ((len + config.partLimit - 1) / config.partLimit) := by
        have split := Nat.div_add_mod (len + config.partLimit - 1) config.partLimit
        have small := Nat.mod_lt (len + config.partLimit - 1) positive
        omega
    _ ≤ config.partLimit * config.adaptiveMultipartPartSize len :=
        Nat.mul_le_mul_left _ rounded

end UploadConfig

/-- The parts `done` were uploaded once each, with the answers in `parts`, and nothing else
has happened to the upload. -/
structure Session.Progress (s : Session) (uploadId : String) (done : List (Nat × Bytes))
    (parts : List CompletedPart) : Prop where
  answered : List.Forall₂ (fun chunk part => part.partNumber = chunk.1 ∧
    s.uploads uploadId chunk.1 = [(chunk.2, .ok part.etag)]) done parts
  fresh : ∀ number, number ∉ done.map Prod.fst → s.uploads uploadId number = []
  open_ : s.completions = [] ∧ s.aborts = []

/-- Something failed, and the upload is still open. -/
def Session.Broken (uploadId : String) (s : Session) : Prop :=
  s.PartFailed uploadId ∧ s.completions = [] ∧ s.aborts = []

section Batch

variable {content : Bytes} {uploadId : String} {s t : Session}

namespace Session

@[simp]
theorem uploads_uploaded_self (number : Nat) (bytes : Bytes) (answer : Except Failure String) :
    (s.uploaded uploadId number bytes answer).uploads uploadId number =
      s.uploads uploadId number ++ [(bytes, answer)] := if_pos ⟨rfl, rfl⟩

theorem uploads_uploaded_of_ne {number other : Nat} (ne : other ≠ number) (bytes : Bytes)
    (answer : Except Failure String) :
    (s.uploaded uploadId number bytes answer).uploads uploadId other = s.uploads uploadId other :=
  if_neg fun same => ne same.2

/-- Only uploads of the given numbers lie between `s` and `t`. -/
structure Frame (uploadId : String) (numbers : List Nat) (s t : Session) : Prop where
  offset : t.offset = s.offset
  completions : t.completions = s.completions
  aborts : t.aborts = s.aborts
  uploads : ∀ number ∉ numbers, t.uploads uploadId number = s.uploads uploadId number

theorem Frame.uploaded {numbers : List Nat} (frame : Frame uploadId numbers s t) {number : Nat}
    (inside : number ∈ numbers) (bytes : Bytes) (answer : Except Failure String) :
    Frame uploadId numbers s (t.uploaded uploadId number bytes answer) where
  offset := frame.offset
  completions := frame.completions
  aborts := frame.aborts
  uploads other outside := by
    have ne : other ≠ number := fun same => outside (same ▸ inside)
    rw [uploads_uploaded_of_ne ne, frame.uploads other outside]

end Session

def Session.Sends (uploadId : String) (part : Nat × Bytes) (a b : Session) : Prop :=
  ∃ r, b = a.uploaded uploadId part.1 part.2 r

variable {batch : List (Nat × Bytes)}

theorem uploadPart_sure (distinct : (batch.map Prod.fst).Nodup) {part : Nat × Bytes}
    (inside : part ∈ batch) :
    Sure (Behaves content)
      (fun a b => Alone a b ∨ ∃ other ∈ batch, other ≠ part ∧
        ∃ _ : UploadCall, Session.Sends uploadId other a b)
      (fun _ => Session.Sends uploadId part)
      (fun (r : Except Failure String) t =>
        t.uploads uploadId part.1 = s.uploads uploadId part.1 ++ [(part.2, r)])
      (perform (UploadCall.uploadPart uploadId part.1 part.2)) s := by
  have stable : ∀ uploads, Stable (fun a b => Alone a b ∨ ∃ other ∈ batch, other ≠ part ∧
      ∃ _ : UploadCall, Session.Sends uploadId other a b)
      (fun t => t.uploads uploadId part.1 = uploads) := by
    rintro uploads a _ (none_ | ⟨other, member, ne, -, r, rfl⟩) before
    · exact none_.elim
    · have numbers : part.1 ≠ other.1 := fun same =>
        ne (List.inj_on_of_nodup_map distinct member inside same.symm)
      rw [Session.uploads_uploaded_of_ne numbers, before]
  refine Sure.act (fun t _ => ⟨Except.error .io, _, _, rfl, rfl⟩) ?_
  rintro t path _ _ ⟨r, rfl, rfl⟩
  refine ⟨⟨r, rfl⟩, r, rfl, Sure.ret fun u later => ?_⟩
  refine (stable _).path later ?_
  have before : t.uploads uploadId part.1 = s.uploads uploadId part.1 := (stable _).path path rfl
  exact (Session.uploads_uploaded_self ..).trans (by rw [before])

theorem collectParts_spec {answers : List (Except Failure String)}
    (answered : List.Forall₂ (fun part r => t.uploads uploadId part.1 = [(part.2, r)])
      batch answers) :
    Either (fun more (t : Session) => List.Forall₂ (fun chunk part => part.partNumber = chunk.1 ∧
        t.uploads uploadId chunk.1 = [(chunk.2, .ok part.etag)]) batch more)
      (fun t => t.PartFailed uploadId) (collectParts (batch.map Prod.fst) answers) t := by
  induction answered with
  | nil => exact .nil
  | @cons part answer batch answers first _ ih =>
    cases answer with
    | error e => exact Or.inr ⟨part.1, part.2, e, first ▸ List.mem_singleton_self _⟩
    | ok etag =>
      rw [List.map_cons, collectParts]
      cases rest : collectParts (batch.map Prod.fst) answers with
      | error e =>
        rw [rest] at ih
        exact ih
      | ok more =>
        rw [rest] at ih
        exact .cons ⟨rfl, first⟩ ih

theorem uploadBatch_ends {done : List (Nat × Bytes)} {parts : List CompletedPart}
    (progress : s.Progress uploadId done parts) (distinct : ((done ++ batch).map Prod.fst).Nodup) :
    Ends (Behaves content)
      (Either (fun more t => t.Progress uploadId (done ++ batch) (parts ++ more) ∧
        t.offset = s.offset) (Session.Broken uploadId))
      (uploadBatch perform uploadId batch) s := by
  rw [List.map_append, List.nodup_append] at distinct
  obtain ⟨-, distinct, apart⟩ := distinct
  have threads := Sure.parAll (M := Behaves content) (R := Alone) (s := s)
    (fun part => perform (UploadCall.uploadPart uploadId part.1 part.2)) batch
    (List.Nodup.of_map _ distinct) (fun part inside => uploadPart_sure distinct inside)
  have framed := threads.frame (stable_alone (Session.Frame uploadId (batch.map Prod.fst) s)) (by
      rintro _ a _ ⟨part, inside, r, rfl⟩ frame
      exact frame.uploaded (List.mem_map_of_mem inside) _ _) ⟨rfl, rfl, rfl, fun _ _ => rfl⟩
  refine Ends.bind framed.ends ?_
  rintro answers t ⟨answered, frame⟩
  have unsent : ∀ part ∈ batch, s.uploads uploadId part.1 = [] := fun part inside =>
    progress.fresh _ fun sent => apart _ sent _ (List.mem_map_of_mem inside) rfl
  have kept : ∀ part ∈ done, t.uploads uploadId part.1 = s.uploads uploadId part.1 :=
    fun part inside => frame.uploads _ fun again =>
      apart _ (List.mem_map_of_mem inside) _ again rfl
  have open_ : t.completions = [] ∧ t.aborts = [] :=
    ⟨frame.completions.trans progress.open_.1, frame.aborts.trans progress.open_.2⟩
  have collected := collectParts_spec (t := t) (List.Forall₂.imp (fun part r both =>
    show t.uploads uploadId part.1 = [(part.2, r)] by rw [both.2, both.1, List.nil_append])
    ((List.forall₂_and_left _ _).mpr ⟨unsent, answered⟩))
  change Either _ _ _ t
  cases result : collectParts (batch.map Prod.fst) answers with
  | error e =>
    rw [result] at collected
    exact ⟨collected, open_⟩
  | ok more =>
    rw [result] at collected
    refine ⟨⟨?_, ?_, open_⟩, frame.offset⟩
    · refine List.rel_append (List.Forall₂.imp (fun part p both => ?_)
        ((List.forall₂_and_left _ _).mpr ⟨kept, progress.answered⟩)) collected
      exact ⟨both.2.1, both.1.trans both.2.2⟩
    · intro number outside
      rw [List.map_append, List.mem_append, not_or] at outside
      rw [frame.uploads _ outside.2, progress.fresh _ outside.1]

theorem uploadBatches_ends {done : List (Nat × Bytes)} {batches : List (List (Nat × Bytes))}
    {parts : List CompletedPart} (progress : s.Progress uploadId done parts)
    (distinct : ((done ++ batches.flatten).map Prod.fst).Nodup) :
    Ends (Behaves content)
      (Either (fun more t => t.Progress uploadId (done ++ batches.flatten) (parts ++ more))
        (Session.Broken uploadId))
      (uploadBatches perform uploadId batches) s := by
  induction batches generalizing s done parts with
  | nil =>
    change s.Progress uploadId (done ++ []) (parts ++ [])
    rw [List.append_nil, List.append_nil]
    exact progress
  | cons batch rest ih =>
    rw [List.flatten_cons, ← List.append_assoc] at distinct ⊢
    have now : ((done ++ batch).map Prod.fst).Nodup := by
      rw [List.map_append] at distinct
      exact (List.nodup_append.mp distinct).1
    refine Ends.fallible_bind (uploadBatch_ends progress now) ?_
    rintro more t ⟨further, -⟩
    refine Ends.fallible_bind (ih further distinct) ?_
    intro others u finished
    rw [List.append_assoc parts] at finished
    exact finished

end Batch

section File

variable {content : Bytes} {uploadId : String} {s : Session}

theorem fillPart_ends {fuel room : Nat} (enough : room ≤ fuel) (chunk : Bytes) :
    Ends (Behaves content)
      (Either (fun filled t => filled = chunk ++ (content.drop s.offset).take room ∧
          t = { s with offset := s.offset + ((content.drop s.offset).take room).length })
        (fun t => t.readFailed = true ∧ t.completions = s.completions ∧ t.aborts = s.aborts))
      (fillPart perform fuel room chunk) s := by
  induction fuel generalizing s room chunk with
  | zero =>
    obtain rfl : room = 0 := by omega
    exact ⟨(List.append_nil chunk).symm, rfl⟩
  | succ fuel ih =>
    rw [fillPart]
    split
    · next full =>
      subst full
      exact ⟨(List.append_nil chunk).symm, rfl⟩
    · refine ⟨⟨.error .io, _, Or.inr ⟨.io, rfl, rfl⟩⟩, ?_⟩
      rintro _ _ (⟨piece, rfl, ⟨rest, begins⟩, short, ended, rfl⟩ | ⟨e, rfl, rfl⟩)
      · refine ⟨_, rfl, ?_⟩
        cases piece with
        | nil =>
          have done := ended rfl
          refine ⟨?_, ?_⟩
          · rw [done, List.take_nil, List.append_nil]
          · rw [done, List.take_nil]
        | cons byte bytes =>
          have read : content.drop (s.offset + (byte :: bytes).length) = rest := by
            rw [← List.drop_drop, ← begins, List.drop_left]
          have whole : (content.drop s.offset).take room =
              (byte :: bytes) ++ rest.take (room - (byte :: bytes).length) := by
            rw [← begins, List.take_append, List.take_of_length_le short]
          have less : room - (byte :: bytes).length ≤ fuel := by
            rw [List.length_cons]
            omega
          have next := ih (s := { s with offset := s.offset + (byte :: bytes).length }) less
            (chunk ++ byte :: bytes)
          rw [whole]
          rw [read] at next
          refine Ends.mono next ?_
          intro r t holds
          cases r with
          | error e => exact holds
          | ok filled =>
            refine ⟨by rw [holds.1, List.append_assoc], ?_⟩
            rw [holds.2, List.length_append, Nat.add_assoc]
      · exact ⟨_, rfl, rfl, rfl, rfl⟩

theorem Session.Progress.seek {done : List (Nat × Bytes)} {parts : List CompletedPart}
    (progress : s.Progress uploadId done parts) (offset : Nat) :
    ({ s with offset } : Session).Progress uploadId done parts :=
  ⟨progress.answered, progress.fresh, progress.open_⟩

theorem allocate_ends {size : Nat} (fits : size ≤ isizeMax) :
    Ends (Behaves content) (Either (fun _ t => t = s) (Session.Broken uploadId))
      (Prog.bind (perform (UploadCall.allocate size)) (fun _ => .ret (.ok ())) :
        Fallible UploadCall.Answer Failure Unit) s := by
  refine ⟨⟨(), s, rfl, (if_pos fits).symm⟩, ?_⟩
  rintro o t ⟨rfl, rfl⟩
  exact ⟨(), if_pos fits, rfl⟩

/-- What was uploaded, what waits in the batch and what is still in the file are the parts of
the whole content, in this order. -/
theorem uploadFileLoop_ends {partSize parallelism fuel number : Nat} (positive : 0 < partSize)
    (fits : partSize ≤ isizeMax) (enough : content.length - s.offset < fuel)
    {all done batch : List (Nat × Bytes)} {parts : List CompletedPart}
    (progress : s.Progress uploadId done parts) (distinct : (all.map Prod.fst).Nodup)
    (order : done ++ batch ++ numberFrom number (Chunks.cut partSize (content.drop s.offset)) =
      all) :
    Ends (Behaves content)
      (Either (fun result t => t.Progress uploadId all result) (Session.Broken uploadId))
      (uploadFileLoop perform partSize parallelism uploadId fuel number batch parts) s := by
  induction fuel generalizing s number done batch parts with
  | zero => omega
  | succ fuel ih =>
    have now : ((done ++ batch).map Prod.fst).Nodup := by
      rw [← order, List.map_append] at distinct
      exact (List.nodup_append.mp distinct).1
    rw [uploadFileLoop]
    refine Ends.fallible_bind (allocate_ends fits) ?_
    intro _ t same
    rw [same]
    refine Ends.fallible_bind (Q := fun chunk t => chunk = (content.drop s.offset).take partSize ∧
      t = { s with offset := s.offset + chunk.length })
      ((fillPart_ends (Nat.le_refl partSize) []).mono ?_) ?_
    · intro r t holds
      cases r with
      | error e =>
        exact ⟨Or.inl holds.1, holds.2.1.trans progress.open_.1,
          holds.2.2.trans progress.open_.2⟩
      | ok chunk =>
        obtain ⟨rfl, rfl⟩ := holds
        exact ⟨rfl, rfl⟩
    · rintro chunk _ ⟨taken, rfl⟩
      by_cases ended : content.drop s.offset = []
      · -- the file is at its end: the batch is the last one
        obtain rfl : chunk = [] := by rw [taken, ended, List.take_nil]
        rw [ended, Chunks.cut_nil, numberFrom, List.append_nil] at order
        subst order
        rw [List.isEmpty_nil, if_pos rfl]
        cases batch with
        | nil =>
          rw [List.append_nil]
          exact progress.seek _
        | cons first rest =>
          rw [List.isEmpty_cons, if_neg Bool.false_ne_true]
          refine Ends.fallible_bind (uploadBatch_ends (progress.seek _) now) ?_
          rintro last u ⟨finished, -⟩
          exact finished
      · have long := List.length_pos_iff.mpr ended
        have some_ : 0 < chunk.length := by
          rw [taken, List.length_take]
          omega
        have rest : content.drop (s.offset + chunk.length) =
            (content.drop s.offset).drop partSize := by
          have halves := List.take_append_drop partSize (content.drop s.offset)
          rw [← taken] at halves
          rw [← List.drop_drop]
          nth_rewrite 1 [← halves]
          exact List.drop_left
        rw [Chunks.cut_of_ne_nil positive ended, numberFrom, ← taken] at order
        have moved : done ++ (batch ++ [(number, chunk)]) ++
            numberFrom (number + 1) (Chunks.cut partSize
              (content.drop (s.offset + chunk.length))) = all := by
          rw [← order, rest]
          simp only [List.append_assoc, List.singleton_append]
        have less : content.length - (s.offset + chunk.length) < fuel := by
          rw [List.length_drop] at long
          omega
        rw [if_neg (by rw [List.isEmpty_iff]; exact List.ne_nil_of_length_pos some_)]
        dsimp only
        split
        · have sent : ((done ++ (batch ++ [(number, chunk)])).map Prod.fst).Nodup := by
            rw [← moved, List.map_append] at distinct
            exact (List.nodup_append.mp distinct).1
          refine Ends.fallible_bind (uploadBatch_ends (progress.seek _) sent) ?_
          rintro more u ⟨further, offset⟩
          have same : u.offset = s.offset + chunk.length := offset
          rw [← List.append_nil (done ++ (batch ++ [(number, chunk)])), ← same] at moved
          rw [← same] at less
          exact ih less further moved
        · exact ih less (progress.seek _) moved

theorem openFile_ends (fresh : s.completions = [] ∧ s.aborts = []) :
    Ends (Behaves content)
      (Either (fun _ t => t = { s with offset := 0 }) (Session.Broken uploadId))
      (perform UploadCall.openFile : Fallible UploadCall.Answer Failure Unit) s := by
  refine ⟨⟨.ok (), _, Or.inl ⟨rfl, rfl⟩⟩, ?_⟩
  rintro _ _ (⟨rfl, rfl⟩ | ⟨e, rfl, rfl⟩)
  · exact ⟨_, rfl, rfl⟩
  · exact ⟨_, rfl, Or.inl rfl, fresh⟩

end File

section Upload

variable {content : Bytes} {uploadId : String} {s : Session}

theorem Session.progress_initial : Session.initial.Progress uploadId [] [] :=
  ⟨.nil, fun _ _ => rfl, rfl, rfl⟩

variable {chunks : List Bytes} {parts : List CompletedPart}

theorem Session.Progress.map_partNumber
    (progress : s.Progress uploadId (numberFrom 1 chunks) parts) :
    parts.map CompletedPart.partNumber = List.range' 1 chunks.length := by
  have same : List.Forall₂ (· = ·) (parts.map CompletedPart.partNumber)
      ((numberFrom 1 chunks).map Prod.fst) := by
    rw [List.forall₂_map_left_iff, List.forall₂_map_right_iff]
    exact (progress.answered.imp fun _ _ both => both.1).flip
  rw [List.forall₂_eq_eq_eq] at same
  rw [same, map_fst_numberFrom]

theorem Session.Progress.sortParts (progress : s.Progress uploadId (numberFrom 1 chunks) parts) :
    Remote.sortParts parts = parts := by
  have sorted : (parts.map CompletedPart.partNumber).Pairwise (· ≤ ·) := by
    rw [progress.map_partNumber]
    exact List.pairwise_le_range'
  exact (List.pairwise_map.mp sorted).insertionSort_eq

theorem Session.Progress.completed (progress : s.Progress uploadId (numberFrom 1 chunks) parts) :
    ({ s with completions := s.completions ++ [(uploadId, Remote.sortParts parts)] } :
      Session).Completed uploadId chunks := by
  refine ⟨parts, ?_, progress.map_partNumber, ?_⟩
  · rw [progress.open_.1, progress.sortParts, List.nil_append]
  · rw [← map_snd_numberFrom 1 chunks, List.forall₂_map_left_iff]
    refine progress.answered.imp ?_
    rintro chunk part ⟨number, sent⟩
    exact number ▸ sent

/-- Whatever becomes of the completion, it is asked for once; nothing is completed after a
failure. -/
theorem finishMultipart_ends {limit : Nat} {context : String}
    {upload : Fallible UploadCall.Answer Failure (List CompletedPart)}
    (uploads : Ends (Behaves content)
      (Either (fun parts t => t.Progress uploadId (numberFrom 1 chunks) parts)
        (Session.Broken uploadId)) upload s) (whole : chunks.flatten = content)
    (few : chunks.length ≤ limit)
    (large : ∀ chunk ∈ chunks.dropLast, minMultipartPartSize ≤ chunk.length) :
    Ends (Behaves content) (fun result t => t.Exact uploadId limit content result)
      (finishMultipart perform uploadId context upload) s := by
  have sent : Ends (Behaves content)
      (fun (r : Except Failure Unit) t =>
        t.Completed uploadId chunks ∨ t.Broken uploadId ∧ ∃ e, r = .error e)
      (Fallible.bind upload fun parts =>
        perform (UploadCall.completeMultipart uploadId (sortParts parts))) s := by
    refine Ends.bind uploads ?_
    intro r t holds
    cases r with
    | error e => exact Or.inr ⟨holds, e, rfl⟩
    | ok parts =>
      refine ⟨⟨.ok (), _, ⟨_, rfl⟩, rfl⟩, ?_⟩
      rintro _ _ ⟨⟨r, rfl⟩, rfl⟩
      exact ⟨r, rfl, Or.inl (Session.Progress.completed holds)⟩
  have outcome : Ends (Behaves content)
      (fun r t => ∃ inner : Except Failure Unit, r = .ok inner ∧
        (t.Completed uploadId chunks ∨ t.Broken uploadId ∧ ∃ e, inner = .error e))
      (Fallible.outcome (Fallible.bind upload fun parts =>
        perform (UploadCall.completeMultipart uploadId (sortParts parts)))) s :=
    Ends.bind sent fun inner t holds => ⟨inner, rfl, holds⟩
  refine Ends.bind outcome ?_
  rintro _ t ⟨inner, rfl, holds⟩
  cases inner with
  | ok done =>
    obtain completed | ⟨-, e, eq⟩ := holds
    · exact Or.inl ⟨chunks, completed, whole, few, large⟩
    · cases eq
  | error e =>
    refine ⟨⟨.ok (), _, ⟨_, rfl⟩, rfl⟩, ?_⟩
    rintro _ _ ⟨⟨r, rfl⟩, rfl⟩
    refine ⟨r, rfl, ?_⟩
    obtain completed | ⟨⟨failed, incomplete, -⟩, -⟩ := holds
    · exact Or.inl ⟨chunks, ⟨completed.once⟩, whole, few, large⟩
    · exact Or.inr ⟨failed, incomplete, List.mem_append_right _ (List.mem_singleton_self _), _, rfl⟩

theorem uploadMultipartParts_ends (config : UploadConfig) (key : Key) :
    Ends (Behaves content)
      (Either (fun parts t => t.Progress uploadId
          (numberFrom 1 (Chunks.cut (config.adaptiveMultipartPartSize content.length) content))
          parts) (Session.Broken uploadId))
      (uploadMultipartParts perform config key uploadId content) Session.initial := by
  have batches := Chunks.flatten_cut (config.multipartParallelismForKey_pos key)
    (numberFrom 1 (Chunks.cut (config.adaptiveMultipartPartSize content.length) content))
  rw [← batches]
  refine uploadBatches_ends Session.progress_initial ?_
  rw [batches]
  exact nodup_numberFrom 1 _

theorem uploadMultipartFileParts_ends (config : UploadConfig) (key : Key)
    (fits : config.adaptiveMultipartPartSize content.length ≤ isizeMax) :
    Ends (Behaves content)
      (Either (fun parts t => t.Progress uploadId
          (numberFrom 1 (Chunks.cut (config.adaptiveMultipartPartSize content.length) content))
          parts) (Session.Broken uploadId))
      (uploadMultipartFileParts perform config key uploadId content.length) Session.initial := by
  refine Ends.fallible_bind (openFile_ends ⟨rfl, rfl⟩) ?_
  rintro _ _ rfl
  exact uploadFileLoop_ends (config.adaptiveMultipartPartSize_pos _) fits (Nat.lt_succ_self _)
    (Session.progress_initial.seek 0) (nodup_numberFrom 1 _) rfl

theorem cut_adaptiveMultipartPartSize (config : UploadConfig) (content : Bytes) :
    let chunks := Chunks.cut (config.adaptiveMultipartPartSize content.length) content
    chunks.flatten = content ∧ chunks.length ≤ config.partLimit ∧
      ∀ chunk ∈ chunks.dropLast, minMultipartPartSize ≤ chunk.length := by
  have positive := config.adaptiveMultipartPartSize_pos content.length
  refine ⟨Chunks.flatten_cut positive content,
    Chunks.length_cut_le positive (config.le_partLimit_mul content.length), ?_⟩
  intro chunk inside
  rw [Chunks.length_of_mem_dropLast positive inside]
  exact config.minMultipartPartSize_le content.length

/-- The parts of a file have room in memory. -/
def UploadSource.Fits (config : UploadConfig) : UploadSource → Prop
  | .bytes _ => True
  | .file content => config.adaptiveMultipartPartSize content.length ≤ isizeMax

theorem not_ends_of_isizeMax_lt {Q : Except Failure Unit → Session → Prop} {config : UploadConfig}
    {key : Key} (large : isizeMax < config.adaptiveMultipartPartSize content.length) :
    ¬Ends (Behaves content) Q (putMultipart perform config key uploadId (.file content))
      Session.initial := by
  intro ends
  obtain ⟨_, opened, rest⟩ := ends.2 (some (.ok ())) Session.initial (Or.inl ⟨rfl, rfl⟩)
  cases opened
  obtain ⟨_, allocated, -⟩ := rest.2 none Session.initial
    ⟨rfl, (if_neg (Nat.not_le.mpr large)).symm⟩
  cases allocated

/-- Every schedule and every pattern of failures and short reads of an upload leads to an
exact result if and only if a part has room in memory. -/
theorem putMultipart_exact_iff (config : UploadConfig) (key : Key) (uploadId : String)
    (source : UploadSource) :
    Ends (Behaves source.content)
        (fun result t => t.Exact uploadId config.partLimit source.content result)
        (putMultipart perform config key uploadId source) Session.initial ↔
      source.Fits config := by
  cases source with
  | bytes content =>
    obtain ⟨whole, few, large⟩ := cut_adaptiveMultipartPartSize config content
    exact iff_of_true (finishMultipart_ends (uploadMultipartParts_ends config key) whole few large)
      trivial
  | file content =>
    obtain ⟨whole, few, large⟩ := cut_adaptiveMultipartPartSize config content
    constructor
    · intro ends
      by_contra tight
      exact not_ends_of_isizeMax_lt (Nat.lt_of_not_le tight) ends
    · intro fits
      exact finishMultipart_ends (uploadMultipartFileParts_ends config key fits) whole few large

end Upload

/-- `MAJUTSU_S3_MULTIPART_PART_SIZE=9223372036854775808`, and a file of one byte. -/
def hugeParts : UploadConfig := ⟨"http://127.0.0.1:9000", 4, some (2 ^ 63), none, none, none⟩

theorem putMultipart_huge_stops :
    ¬Ends (Behaves [7])
      (fun result t => t.Exact "upload-1" hugeParts.partLimit [7] result)
      (putMultipart perform hugeParts "objects/large/a" "upload-1" (.file [7]))
      Session.initial :=
  not_ends_of_isizeMax_lt (by decide)

end Majutsu.Remote
