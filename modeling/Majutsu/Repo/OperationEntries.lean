import Mathlib.Data.List.Induction
import Mathlib.Data.List.Nodup

/-!
# Operations in the table and in the log file

`record_op_with_details` inserts an operation row through the connection it is given and
then appends an entry to the local log file. A command is the sequence of what it does to
both; it may stop with an error or a crash at every point. Inside a transaction the row is
only pending when the entry is written. `rewrite_local_oplog` replaces the file by the rows
that the connection sees. Bytes of a broken write are no entry; what a reader makes of a file
with such bytes in it is left out, and so is the import of rows by a clone.
-/

namespace OperationEntries

/-- A piece of the log file: an entry, or the beginning of one. -/
inductive Piece where
  | entry (id : String)
  | torn (id : String)
deriving DecidableEq

/-- The operations table, the rows of the open transaction, and the log file. -/
structure State where
  table : List String
  tx : Option (List String)
  log : List Piece
deriving DecidableEq

/-- What a command does, as far as operations go. -/
inductive Op where
  | begin
  | other
  | record (id : String)
  | rewrite
  | commit
deriving DecidableEq

def State.insert (s : State) (id : String) : State :=
  match s.tx with
  | some rows => { s with tx := some (rows ++ [id]) }
  | none => { s with table := s.table ++ [id] }

def State.append (s : State) (piece : Piece) : State := { s with log := s.log ++ [piece] }

/-- The effect of an operation that succeeds. -/
def Op.apply (s : State) : Op → State
  | .begin => { s with tx := some (s.tx.getD []) }
  | .other => s
  | .record id => (s.insert id).append (.entry id)
  | .rewrite => { s with log := (s.table ++ s.tx.getD []).map .entry }
  | .commit => { s with table := s.table ++ s.tx.getD [], tx := none }

/-- How far an operation came. Between the row and the entry of a record the write may have
left some bytes; a record that came to its end may still fail in the audit log. A rewrite takes
effect with its rename. -/
inductive Reached where
  | start
  | row (torn : Bool)
  | done
deriving DecidableEq

structure Stop where
  crash : Bool
  reached : Reached
deriving DecidableEq

/-- Whether the whole effect took place. A commit that returns an error had none. -/
def Stop.took (stop : Stop) (op : Op) : Bool :=
  stop.reached == .done && (stop.crash || op != .commit)

/-- The effect of an operation that does not succeed. -/
def Stop.apply (stop : Stop) (op : Op) (s : State) : State :=
  if stop.took op then op.apply s
  else match op, stop.reached with
    | .record id, .row true => (s.insert id).append (.torn id)
    | .record id, .row false => s.insert id
    | _, _ => s

/-- An open transaction is rolled back when its connection goes away. -/
def State.rollback (s : State) : State := { s with tx := none }

/-- A command: errors of `reported` are printed and the command still succeeds. -/
structure Command where
  ops : List Op
  reported : List Op := []
deriving DecidableEq

/-- `snapshot`, from the operations on roots it skips to its own transaction. -/
def snapshot (roots : List String) (inserts : Nat) (id : String) (index : Nat) : Command :=
  ⟨roots.map .record ++ .begin :: (List.replicate inserts .other ++
    .record id :: (List.replicate index .other ++ [.commit, .other])), []⟩

def rotateMasterKey (updates : Nat) (id : String) : Command :=
  ⟨.begin :: (List.replicate updates .other ++ [.record id, .commit, .other]), []⟩

/-- `prune_cmd`: the record comes after the commit, and its error is printed. -/
def pruneCmd (deletes : Nat) (id : String) : Command :=
  ⟨.begin :: (List.replicate deletes .other ++ [.commit]), [.record id]⟩

/-- What a command does that opens no transaction. -/
inductive Statement where
  | other
  | record (id : String)
  | rewrite

def Statement.op : Statement → Op
  | .other => .other
  | .record id => .record id
  | .rewrite => .rewrite

/-- `gc`, the branch commands and the others: each statement commits on its own. -/
def autocommit (statements : List Statement) : Command := ⟨statements.map Statement.op, []⟩

def updateOperationResult : List Statement := [.other, .rewrite, .other]

def sync (uploads : Nat) (id : String) : Command :=
  autocommit (.record id :: (List.replicate uploads .other ++ updateOperationResult))

/-- A run of a command: to its end, or up to an operation that does not succeed. -/
inductive Run (c : Command) where
  | whole
  | stopped (before : List Op) (op : Op) (after : List Op) (stop : Stop)
      (eq : c.ops ++ c.reported = before ++ op :: after)

def Run.final {c : Command} (s : State) : Run c → State
  | .whole => ((c.ops ++ c.reported).foldl Op.apply s).rollback
  | .stopped before op _ stop _ => (stop.apply op (before.foldl Op.apply s)).rollback

def Run.succeeds {c : Command} : Run c → Bool
  | .whole => true
  | .stopped before _ _ stop _ => !stop.crash && c.ops.length ≤ before.length

/-- An entry for an operation id only if the table has it, and after success an entry for
every operation the command committed. -/
def Consistent (s t : State) (succeeds : Bool) : Prop :=
  (∀ id, .entry id ∈ t.log → id ∈ t.table) ∧
    (succeeds → ∀ id ∈ t.table, id ∉ s.table → .entry id ∈ t.log)

def Op.id? : Op → Option String
  | .record id => some id
  | _ => none

def ids (ops : List Op) : List String := ops.filterMap Op.id?

def Op.pending (rows : Option (List String)) : Op → Option (List String)
  | .begin => some (rows.getD [])
  | .other | .rewrite => rows
  | .record id => rows.map (· ++ [id])
  | .commit => none

def pending (ops : List Op) : Option (List String) := ops.foldl Op.pending none

theorem apply_tx (s : State) (op : Op) : (op.apply s).tx = op.pending s.tx := by
  cases op with
  | record id =>
    simp only [Op.apply, State.append, State.insert, Op.pending]
    cases s.tx with
    | none => rfl
    | some rows => rfl
  | _ => rfl

theorem foldl_tx (ops : List Op) (s : State) :
    (ops.foldl Op.apply s).tx = ops.foldl Op.pending s.tx := by
  induction ops generalizing s with
  | nil => rfl
  | cons op ops ih => rw [List.foldl_cons, List.foldl_cons, ih, apply_tx]

theorem foldl_table (ops : List Op) (s : State) : ∃ committed,
    (ops.foldl Op.apply s).table = s.table ++ committed ∧
      committed ++ (ops.foldl Op.apply s).tx.getD [] = s.tx.getD [] ++ ids ops := by
  induction ops generalizing s with
  | nil => exact ⟨[], by simp, by simp [ids]⟩
  | cons op ops ih =>
    obtain ⟨committed, table, rows⟩ := ih (op.apply s)
    rw [List.foldl_cons, table]
    cases op with
    | begin | other | rewrite => exact ⟨committed, rfl, rows⟩
    | record id =>
      cases tx : s.tx with
      | none =>
        refine ⟨id :: committed, ?_, ?_⟩
        · simp [Op.apply, State.append, State.insert, tx]
        · simp only [Op.apply, State.append, State.insert, tx, Option.getD_none,
            List.nil_append] at rows
          simp [rows, ids, Op.id?, Op.apply, State.append, State.insert, tx]
      | some pending =>
        refine ⟨committed, ?_, ?_⟩
        · simp [Op.apply, State.append, State.insert, tx]
        · rw [rows]
          simp [ids, Op.id?, Op.apply, State.append, State.insert, tx]
    | commit =>
      refine ⟨s.tx.getD [] ++ committed, by simp [Op.apply], ?_⟩
      rw [List.append_assoc, rows]
      rfl

theorem foldl_log {s : State} (clean : s.tx = none)
    (logged : ∀ id, .entry id ∈ s.log → id ∈ s.table) (ops : List Op) :
    (∀ id, .entry id ∈ (ops.foldl Op.apply s).log → id ∈ s.table ∨ id ∈ ids ops) ∧
      ∀ id ∈ ids ops, .entry id ∈ (ops.foldl Op.apply s).log := by
  induction ops using List.reverseRecOn with
  | nil => exact ⟨fun id entry => Or.inl (logged id entry), by simp [ids]⟩
  | append_singleton ops op ih =>
    have all : ids (ops ++ [op]) = ids ops ++ ids [op] := List.filterMap_append
    rw [List.foldl_append, List.foldl_cons, List.foldl_nil, all]
    cases op with
    | record id =>
      have log : (Op.apply (ops.foldl Op.apply s) (.record id)).log =
          (ops.foldl Op.apply s).log ++ [.entry id] := by
        simp only [Op.apply, State.append, State.insert]
        split <;> rfl
      rw [log]
      simp only [List.mem_append, List.mem_singleton, Piece.entry.injEq, ids, List.filterMap_cons,
        Op.id?, List.filterMap_nil]
      refine ⟨fun id' entry => ?_, fun id' mem => mem.imp_left (ih.2 id')⟩
      rw [← or_assoc]
      exact entry.imp_left (ih.1 id')
    | rewrite =>
      -- the rows that are seen are the old ones and those recorded so far
      obtain ⟨committed, table, rows⟩ := foldl_table ops s
      rw [clean, Option.getD_none, List.nil_append] at rows
      have seen : (ops.foldl Op.apply s).table ++ (ops.foldl Op.apply s).tx.getD [] =
          s.table ++ ids ops := by rw [table, List.append_assoc, rows]
      have log : (Op.apply (ops.foldl Op.apply s) .rewrite).log =
          (s.table ++ ids ops).map .entry := congrArg (List.map Piece.entry) seen
      have nothing : ids [.rewrite] = [] := rfl
      rw [log, nothing, List.append_nil]
      simp only [List.mem_map, Piece.entry.injEq, exists_eq_right, List.mem_append]
      exact ⟨fun id entry => entry, fun id recorded => Or.inr recorded⟩
    | _ => simpa [Op.apply, ids, Op.id?] using ih

/-- A command ended after `done`, with rows `extra` that have no entry. -/
structure Ended (s t : State) (done : List Op) (extra : List String) : Prop where
  table : ∃ committed, t.table = s.table ++ committed ++ extra ∧
    committed ++ (pending done).getD [] = ids done
  known : ∀ id, .entry id ∈ t.log → id ∈ s.table ∨ id ∈ ids done
  entries : ∀ id ∈ ids done, .entry id ∈ t.log

variable {s t : State}

theorem Ended.consistent_iff {done : List Op} {extra : List String} (ended : Ended s t done extra)
    (nodup : (ids done ++ extra).Nodup)
    (fresh : ∀ id ∈ ids done ++ extra, id ∉ s.table) (succeeds : Bool) :
    Consistent s t succeeds ↔ (pending done).getD [] = [] ∧ (succeeds → extra = []) := by
  obtain ⟨⟨committed, table, rows⟩, known, entries⟩ := ended
  obtain ⟨distinct, -, apart⟩ := List.nodup_append.1 nodup
  unfold Consistent
  refine and_congr ?_ (imp_congr_right fun _ => ?_)
  · constructor
    · intro logs
      refine List.eq_nil_iff_forall_not_mem.2 fun id mem => ?_
      have recorded : id ∈ ids done := rows ▸ List.mem_append_right committed mem
      have listed := logs id (entries id recorded)
      rw [table, List.mem_append, List.mem_append] at listed
      rw [← rows] at distinct
      rcases listed with (old | early) | late
      · exact fresh id (List.mem_append_left _ recorded) old
      · exact (List.nodup_append.1 distinct).2.2 id early id mem rfl
      · exact apart id recorded id late rfl
    · intro none id entry
      rw [none, List.append_nil] at rows
      rw [table, rows, List.append_assoc, List.mem_append, List.mem_append]
      rcases known id entry with old | recorded
      · exact Or.inl old
      · exact Or.inr (Or.inl recorded)
  · constructor
    · intro covered
      refine List.eq_nil_iff_forall_not_mem.2 fun id mem => ?_
      have new := fresh id (List.mem_append_right _ mem)
      have listed : id ∈ t.table := by
        rw [table]
        exact List.mem_append_right _ mem
      rcases known id (covered id listed new) with old | recorded
      · exact new old
      · exact apart id recorded id mem rfl
    · rintro rfl id listed new
      rw [table, List.append_nil, List.mem_append] at listed
      rcases listed with old | early
      · exact absurd old new
      · exact entries id (rows ▸ List.mem_append_left _ early)

def Run.done {c : Command} : Run c → List Op
  | .whole => c.ops ++ c.reported
  | .stopped before op _ stop _ => if stop.took op then before ++ [op] else before

/-- The row that was inserted outside a transaction and has no entry. -/
def Run.extra {c : Command} : Run c → List String
  | .whole => []
  | .stopped before (.record id) _ ⟨_, .row _⟩ _ => if pending before = none then [id] else []
  | .stopped .. => []

section Ending

variable (clean : s.tx = none) (logged : ∀ id, .entry id ∈ s.log → id ∈ s.table)

include clean logged

theorem foldl_ended (ops : List Op) : Ended s (ops.foldl Op.apply s).rollback ops [] := by
  obtain ⟨committed, table, rows⟩ := foldl_table ops s
  obtain ⟨known, entries⟩ := foldl_log clean logged ops
  refine ⟨⟨committed, by simpa [State.rollback] using table, ?_⟩, known, entries⟩
  rwa [foldl_tx, clean, Option.getD_none, List.nil_append] at rows

theorem insert_ended {ops : List Op} {u : State} {id : String}
    (table : u.table = ((ops.foldl Op.apply s).insert id).table)
    (log : ∀ id, .entry id ∈ u.log ↔ .entry id ∈ (ops.foldl Op.apply s).log) :
    Ended s u ops (if pending ops = none then [id] else []) := by
  obtain ⟨⟨committed, listed, rows⟩, known, entries⟩ := foldl_ended clean logged ops
  have tx : (ops.foldl Op.apply s).tx = pending ops := by rw [foldl_tx, clean]; rfl
  refine ⟨⟨committed, ?_, rows⟩, fun id entry => known id ((log id).mp entry),
    fun id mem => (log id).mpr (entries id mem)⟩
  rw [List.append_nil] at listed
  rw [table, ← listed, State.insert, tx]
  cases pending ops with
  | none => rfl
  | some rows => simp [State.rollback]

theorem Run.ended {c : Command} (run : Run c) :
    Ended s (run.final s) run.done run.extra := by
  cases run with
  | whole => exact foldl_ended clean logged _
  | stopped before op after stop eq =>
    obtain ⟨crash, reached⟩ := stop
    by_cases took : Stop.took ⟨crash, reached⟩ op
    · have all : Ended s (Op.apply (before.foldl Op.apply s) op).rollback (before ++ [op]) [] := by
        have whole := foldl_ended clean logged (before ++ [op])
        rwa [List.foldl_append] at whole
      have last : reached = .done := by
        simp only [Stop.took, Bool.and_eq_true, beq_iff_eq] at took
        exact took.1
      subst last
      simp only [Run.final, Run.done, Stop.apply, took, if_true]
      cases op <;> exact all
    · have none := foldl_ended clean logged before
      simp only [Run.final, Run.done, Stop.apply, took, if_false, Bool.false_eq_true]
      cases op with
      | record id =>
        cases reached with
        | start => exact none
        | row torn =>
          cases torn with
          | false =>
            refine insert_ended clean logged rfl fun id' => ?_
            simp only [State.rollback, State.insert]
            split <;> rfl
          | true =>
            refine insert_ended clean logged rfl fun id' => ?_
            simp only [State.rollback, State.insert, State.append]
            split <;> simp
        | done => exact absurd (by simp [Stop.took]) took
      | _ => cases reached <;> exact none

end Ending

theorem Run.ids_done_extra {c : Command} (run : Run c) :
    (ids run.done ++ run.extra).Sublist (ids (c.ops ++ c.reported)) := by
  cases run with
  | whole => simp [Run.done, Run.extra]
  | stopped before op after stop eq =>
    obtain ⟨crash, reached⟩ := stop
    have parts : ids (c.ops ++ c.reported) = ids before ++ (ids [op] ++ ids after) := by
      rw [eq]
      simp only [ids, ← List.filterMap_append, List.singleton_append]
    have front : (ids before).Sublist (ids (c.ops ++ c.reported)) := by
      rw [parts]
      exact List.sublist_append_left _ _
    have upTo : (ids before ++ ids [op]).Sublist (ids (c.ops ++ c.reported)) := by
      rw [parts]
      exact (List.sublist_append_left _ _).append_left _
    have done : (ids (Run.done (.stopped before op after ⟨crash, reached⟩ eq))).Sublist
        (ids (c.ops ++ c.reported)) := by
      simp only [Run.done]
      split
      · rwa [ids, List.filterMap_append]
      · exact front
    -- Only a record stopped after its row has a row without an entry.
    cases op with
    | record id =>
      cases reached with
      | row torn =>
        simp only [Run.extra]
        split
        · exact upTo
        · rwa [List.append_nil]
      | _ => simpa [Run.extra] using done
    | _ => simpa [Run.extra] using done

/-- The file and the table agree after a run just when the transaction open at its end
recorded no operation, and no record failed between its row and its entry with the error only
printed. -/
theorem oplog_consistent_iff (c : Command) (s : State) (run : Run c) (clean : s.tx = none)
    (logged : ∀ id, .entry id ∈ s.log → id ∈ s.table)
    (distinct : (ids (c.ops ++ c.reported)).Nodup)
    (fresh : ∀ id ∈ ids (c.ops ++ c.reported), id ∉ s.table) :
    Consistent s (run.final s) run.succeeds ↔
      (pending run.done).getD [] = [] ∧ (run.succeeds → run.extra = []) :=
  (run.ended clean logged).consistent_iff (run.ids_done_extra.nodup distinct)
    (fun id mem => fresh id (run.ids_done_extra.subset mem)) run.succeeds

/-- A snapshot that runs to its end. -/
theorem oplog_consistent_snapshot :
    let s : State := ⟨["op-1"], none, [.entry "op-1"]⟩
    let run : Run (snapshot ["op-2"] 1 "op-3" 1) := .whole
    run.final s = ⟨["op-1", "op-2", "op-3"], none,
        [.entry "op-1", .entry "op-2", .entry "op-3"]⟩ ∧
      Consistent s (run.final s) run.succeeds :=
  ⟨by decide, (oplog_consistent_iff _ _ .whole rfl (by simp) (by decide) (by decide)).2
    ⟨by decide, fun _ => rfl⟩⟩

/-- The commit of a snapshot fails after the entry was written; the record of a prune fails
after its row was inserted. -/
theorem oplog_ghost_and_missing :
    let s : State := ⟨["op-1"], none, [.entry "op-1"]⟩
    let ghost : Run (snapshot [] 0 "op-2" 0) :=
      .stopped [.begin, .record "op-2"] .commit [.other] ⟨false, .start⟩ rfl
    let missing : Run (pruneCmd 0 "op-2") :=
      .stopped [.begin, .commit] (.record "op-2") [] ⟨false, .row false⟩ rfl
    (ghost.final s = ⟨["op-1"], none, [.entry "op-1", .entry "op-2"]⟩ ∧
      ¬Consistent s (ghost.final s) ghost.succeeds) ∧
    missing.succeeds ∧ missing.final s = ⟨["op-1", "op-2"], none, [.entry "op-1"]⟩ ∧
      ¬Consistent s (missing.final s) missing.succeeds := by
  refine ⟨⟨by decide, fun consistent => ?_⟩, by decide, by decide, fun consistent => ?_⟩
  · exact absurd (consistent.1 "op-2" (by decide)) (by decide)
  · exact absurd (consistent.2 (by decide) "op-2" (by decide) (by decide)) (by decide)

theorem pending_autocommit {ops : List Op} (plain : ∀ op ∈ ops, op ≠ .begin) :
    pending ops = none := by
  unfold pending
  induction ops with
  | nil => rfl
  | cons op ops ih =>
    have none : Op.pending none op = none := by
      cases op with
      | begin => exact absurd rfl (plain .begin List.mem_cons_self)
      | _ => rfl
    rw [List.foldl_cons, none]
    exact ih fun op mem => plain op (List.mem_cons_of_mem _ mem)

theorem Run.mem_of_mem_done {c : Command} (run : Run c) {op : Op} (mem : op ∈ run.done) :
    op ∈ c.ops ++ c.reported := by
  cases run with
  | whole => exact mem
  | stopped before last after stop eq =>
    rw [eq]
    simp only [Run.done] at mem
    split at mem
    · rcases List.mem_append.1 mem with mem | mem
      · exact List.mem_append_left _ mem
      · exact List.mem_append_right _ (List.mem_singleton.1 mem ▸ List.mem_cons_self)
    · exact List.mem_append_left _ mem

/-- A command whose statements commit on their own agrees with the file in every run. -/
theorem autocommit_consistent {statements : List Statement} (run : Run (autocommit statements))
    (clean : s.tx = none) (logged : ∀ id, .entry id ∈ s.log → id ∈ s.table)
    (distinct : (ids (autocommit statements).ops).Nodup)
    (fresh : ∀ id ∈ ids (autocommit statements).ops, id ∉ s.table) :
    Consistent s (run.final s) run.succeeds := by
  rw [← List.append_nil (autocommit statements).ops] at distinct fresh
  refine ((run.ended clean logged).consistent_iff (run.ids_done_extra.nodup distinct)
    (fun id mem => fresh id (run.ids_done_extra.subset mem)) run.succeeds).2 ⟨?_, ?_⟩
  · rw [pending_autocommit, Option.getD_none]
    intro op mem
    have listed := run.mem_of_mem_done mem
    rw [autocommit, List.append_nil, List.mem_map] at listed
    obtain ⟨statement, -, rfl⟩ := listed
    cases statement <;> nofun
  · cases run with
    | whole => exact fun _ => rfl
    | stopped before op after stop eq =>
      have lengths := congrArg List.length eq
      simp only [autocommit, List.append_nil, List.length_append, List.length_cons] at lengths
      intro succeeds
      have late : statements.length ≤ before.length := by
        simpa [autocommit] using (Bool.and_eq_true_iff.1 succeeds).2
      rw [List.length_map] at lengths
      omega

theorem autocommit_consistent_stopped : let s : State := ⟨["op-1"], none, [.entry "op-1"]⟩
    let run : Run (sync 0 "op-2") :=
      .stopped [] (.record "op-2") [.other, .rewrite, .other] ⟨false, .row false⟩ rfl
    Consistent s (run.final s) run.succeeds :=
  autocommit_consistent _ rfl (by simp) (by decide) (by decide)

end OperationEntries
