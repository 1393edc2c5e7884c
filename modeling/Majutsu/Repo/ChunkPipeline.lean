import Majutsu.Lib.Machine
import Majutsu.Lib.SortedMap
import Majutsu.Repo.Basic

/-!
# The chunk pipeline of a restore

Threads take the chunks of a large object in turn, read them and send what they
have read through a bounded channel. The writer puts the chunks in order and
writes a temporary file, which replaces the destination at the end. A step is
one access to the counter, one read, one use of the channel, or one end of the
writer, whose receiver goes away with it. Panics are left out.
-/

namespace Majutsu.Repo

open SortedMap

variable {E : Type}

/-- The file on the plain path: one chunk after the other. -/
def writeChunks : List (Except E Bytes) → Except E Bytes
  | [] => .ok []
  | read :: rest => read.bind (fun bytes => (writeChunks rest).map (bytes ++ ·))

inductive ChunkWorker (E : Type) where
  | fetching
  | reading (index : Nat)
  | sending (result : Except E (Nat × Bytes))
  | returned

/-- The writer in its loop over the channel. -/
structure Writing where
  pending : List (Nat × Bytes)
  nextWrite : Nat
  file : Bytes

inductive PipelineError (E : Type) where
  | read (e : E)
  | io
  | incomplete (written total : Nat)

inductive ChunkWriter (E : Type) where
  | opening
  | receiving (w : Writing)
  | closed (result : Except (PipelineError E) Unit)

structure Pipeline (E : Type) where
  next : Nat
  workers : List (ChunkWorker E)
  channel : List (Except E (Nat × Bytes))
  writer : ChunkWriter E
  dest : Option Bytes

/-- `while let Some(bytes) = pending.remove(&next_write)`, a round for each unit of fuel. -/
def Writing.flush : Nat → Writing → Writing
  | 0, w => w
  | fuel + 1, w =>
    match get w.pending w.nextWrite with
    | none => w
    | some bytes => flush fuel
        ⟨erase w.nextWrite w.pending, w.nextWrite + 1, w.file ++ bytes⟩

/-- One message. A round removes an entry, so there are no more rounds than entries. -/
def Writing.receive (w : Writing) (index : Nat) (bytes : Bytes) : Writing :=
  let pending := insert index bytes w.pending
  Writing.flush pending.length { w with pending }

/-- How the file operations of the writer go; `late` is an error of `fsync_parent_dir`. -/
inductive WriterFate where
  | smooth
  | fails
  | late
  deriving DecidableEq

def ChunkWorker.isReturned : ChunkWorker E → Bool
  | .returned => true
  | _ => false

def ChunkWriter.isClosed : ChunkWriter E → Bool
  | .closed _ => true
  | _ => false

namespace Pipeline

def start (parallelism : Nat) (dest : Option Bytes) : Pipeline E where
  next := 0
  workers := List.replicate parallelism .fetching
  channel := []
  writer := .opening
  dest := dest

variable (reads : List (Except E Bytes)) (capacity : Nat)

/-- One step of a thread; a full channel blocks it. -/
def work (s : Pipeline E) : ChunkWorker E → Option (ChunkWorker E × Pipeline E)
  | .fetching =>
    if s.next < reads.length then some (.reading s.next, { s with next := s.next + 1 })
    else some (.returned, s)
  | .reading i => reads[i]?.map (fun r => (.sending (r.map (fun bytes => (i, bytes))), s))
  | .sending m =>
    if s.writer.isClosed then some (.returned, s)
    else if s.channel.length < capacity then
      some (match m with | .ok _ => .fetching | .error _ => .returned,
        { s with channel := s.channel ++ [m] })
    else none
  | .returned => none

/-- One step of the writer; it waits for a message as long as there are senders. -/
def write (s : Pipeline E) (fate : WriterFate) : Option (Pipeline E) :=
  match s.writer with
  | .opening => some { s with
      writer := if fate = .smooth then .receiving ⟨[], 0, []⟩ else .closed (.error .io) }
  | .receiving w =>
    match s.channel with
    | .ok (i, bytes) :: rest =>
      if fate ≠ .smooth ∧ (w.receive i bytes).nextWrite ≠ w.nextWrite then
        some { s with channel := [], writer := .closed (.error .io) }
      else some { s with channel := rest, writer := .receiving (w.receive i bytes) }
    | .error e :: _ => some { s with channel := [], writer := .closed (.error (.read e)) }
    | [] =>
      if s.workers.all (·.isReturned) then
        some (if w.nextWrite ≠ reads.length then
          { s with writer := .closed (.error (.incomplete w.nextWrite reads.length)) }
        else match fate with
          | .smooth => { s with dest := some w.file, writer := .closed (.ok ()) }
          | .fails => { s with writer := .closed (.error .io) }
          | .late => { s with dest := some w.file, writer := .closed (.error .io) })
      else none
  | .closed _ => none

inductive Label where
  | worker (k : Nat)
  | writer (fate : WriterFate)

def step (s : Pipeline E) : Label → Option (Pipeline E)
  | .worker k => (s.workers[k]?).bind (fun w => (s.work reads capacity w).map (fun done =>
      { done.2 with workers := s.workers.set k done.1 }))
  | .writer fate => s.write reads fate

end Pipeline

section Contents

variable {reads : List (Except E Bytes)} {w : Writing} {bytes : Bytes} {i : Nat}

theorem writeChunks_append (l : List (Except E Bytes)) (bytes : Bytes) :
    writeChunks (l ++ [.ok bytes]) = (writeChunks l).map (· ++ bytes) := by
  induction l with
  | nil => simp [writeChunks, Except.bind, Except.map]
  | cons read rest ih =>
    cases read with
    | error e => rfl
    | ok first =>
      simp only [List.cons_append, writeChunks, Except.bind, ih]
      cases writeChunks rest <;> simp [Except.map]

/-- The writer has written the first chunks, and what waits are chunks. -/
structure Writing.Valid (reads : List (Except E Bytes)) (w : Writing) : Prop where
  file : writeChunks (reads.take w.nextWrite) = .ok w.file
  bound : w.nextWrite ≤ reads.length
  pending : ∀ i bytes, get w.pending i = some bytes → reads[i]? = some (.ok bytes)

/-- The chunk has arrived at the writer. -/
def Writing.Has (w : Writing) (i : Nat) : Prop := i < w.nextWrite ∨ (get w.pending i).isSome

theorem Writing.Valid.advance (valid : w.Valid reads) (found : get w.pending w.nextWrite = some bytes) :
    Writing.Valid reads ⟨erase w.nextWrite w.pending, w.nextWrite + 1, w.file ++ bytes⟩ := by
  have chunk := valid.pending _ _ found
  obtain ⟨inside, here⟩ := List.getElem?_eq_some_iff.mp chunk
  refine ⟨?_, inside, fun i bytes' kept => valid.pending i bytes' ?_⟩
  · rw [List.take_add_one, chunk, Option.toList_some, writeChunks_append, valid.file]
    rfl
  · rw [get_erase] at kept
    split at kept
    · cases kept
    · exact kept

theorem Writing.flush_spec (fuel : Nat) (valid : w.Valid reads) (enough : w.pending.length ≤ fuel) :
    (w.flush fuel).Valid reads ∧ get (w.flush fuel).pending (w.flush fuel).nextWrite = none ∧
      ∀ i, w.Has i → (w.flush fuel).Has i := by
  induction fuel generalizing w with
  | zero =>
    have empty : w.pending = [] := List.length_eq_zero_iff.mp (Nat.le_zero.mp enough)
    exact ⟨valid, by simp [flush, empty], fun _ h => h⟩
  | succ fuel ih =>
    rw [flush]
    cases found : get w.pending w.nextWrite with
    | none => exact ⟨valid, found, fun _ h => h⟩
    | some bytes =>
      have shorter : (erase w.nextWrite w.pending).length < w.pending.length := by
        obtain ⟨entry, mem, here⟩ := List.mem_map.mp
          (mem_keys.mpr (Option.isSome_iff_exists.mpr ⟨bytes, found⟩))
        exact List.length_filter_lt_length_iff_exists.mpr ⟨entry, mem, by simp [here]⟩
      obtain ⟨valid', rest, keeps⟩ := ih (valid.advance found) (by simp only; omega)
      refine ⟨valid', rest, fun i has => keeps i ?_⟩
      rcases has with before | waits
      · exact Or.inl (Nat.lt_succ_of_lt before)
      · by_cases here : w.nextWrite = i
        · exact Or.inl (here ▸ Nat.lt_succ_self _)
        · exact Or.inr (by simpa [get_erase, here] using waits)

theorem Writing.receive_spec (valid : w.Valid reads) (chunk : reads[i]? = some (.ok bytes)) :
    (w.receive i bytes).Valid reads ∧
      get (w.receive i bytes).pending (w.receive i bytes).nextWrite = none ∧
      ∀ j, j = i ∨ w.Has j → (w.receive i bytes).Has j := by
  have inserted : Writing.Valid reads { w with pending := insert i bytes w.pending } := by
    refine ⟨valid.file, valid.bound, fun j bytes' found => ?_⟩
    rw [get_insert] at found
    split at found
    · next here =>
      cases found
      exact here ▸ chunk
    · exact valid.pending j bytes' found
  obtain ⟨valid', rest, keeps⟩ := flush_spec _ inserted le_rfl
  refine ⟨valid', rest, fun j has => keeps j ?_⟩
  rcases has with rfl | before | waits
  · exact Or.inr (by simp [get_insert])
  · exact Or.inl before
  · exact Or.inr (by by_cases here : i = j <;> simp [get_insert, here, waits])

end Contents

/-- The chunk that a thread is busy with. -/
def ChunkWorker.index : ChunkWorker E → Option Nat
  | .reading i | .sending (.ok (i, _)) => some i
  | _ => none

def ChunkWorker.weight : ChunkWorker E → Nat
  | .fetching => 1
  | .reading _ => 4
  | .sending _ => 3
  | .returned => 0

def ChunkWriter.weight : ChunkWriter E → Nat
  | .opening => 2
  | .receiving _ => 1
  | .closed _ => 0

namespace Pipeline

variable {reads : List (Except E Bytes)} {capacity : Nat} {old : Option Bytes} {s s' : Pipeline E}

/-- A message says what the read of a chunk has given. -/
def Genuine (reads : List (Except E Bytes)) : Except E (Nat × Bytes) → Prop
  | .ok (i, bytes) => reads[i]? = some (.ok bytes)
  | .error e => .error e ∈ reads

/-- The chunk is on its way to the writer or has arrived. -/
def Holds (s : Pipeline E) (i : Nat) : Prop :=
  some i ∈ s.workers.map ChunkWorker.index ∨ (∃ bytes, .ok (i, bytes) ∈ s.channel) ∨
    ∃ w, s.writer = .receiving w ∧ w.Has i

/-- An error is on its way to the writer. -/
def Failing (s : Pipeline E) : Prop :=
  ∃ e, .error e ∈ s.channel ∨ .sending (.error e) ∈ s.workers

/-- What the destination holds, and what a result means. -/
def Settled (reads : List (Except E Bytes)) (old : Option Bytes) (s : Pipeline E) : Prop :=
  match s.writer with
  | .closed (.ok ()) => ∃ bytes, writeChunks reads = .ok bytes ∧ s.dest = some bytes
  | .closed (.error (.read e)) => .error e ∈ reads ∧ s.dest = old
  | .closed (.error .io) =>
    s.dest = old ∨ ∃ bytes, writeChunks reads = .ok bytes ∧ s.dest = some bytes
  | .closed (.error (.incomplete _ _)) => False
  | _ => s.dest = old

structure Inv (reads : List (Except E Bytes)) (old : Option Bytes) (s : Pipeline E) : Prop where
  settled : s.Settled reads old
  inside : ∀ i, .reading i ∈ s.workers → i < reads.length
  sent : ∀ m, .sending m ∈ s.workers ∨ m ∈ s.channel → Genuine reads m
  writing : ∀ w, s.writer = .receiving w → w.Valid reads ∧ get w.pending w.nextWrite = none
  flow : s.writer.isClosed = false →
    s.Failing ∨ (∀ i < s.next, s.Holds i) ∧ (.returned ∈ s.workers → reads.length ≤ s.next)
  someWorker : s.workers ≠ []

/-- What a step of a thread can do. -/
theorem work_cases {w w' : ChunkWorker E} {t : Pipeline E}
    (h : s.work reads capacity w = some (w', t)) :
    (w = .fetching ∧ s.next < reads.length ∧ w' = .reading s.next ∧
      t = { s with next := s.next + 1 }) ∨
    (w = .fetching ∧ reads.length ≤ s.next ∧ w' = .returned ∧ t = s) ∨
    (∃ i bytes, w = .reading i ∧ reads[i]? = some (.ok bytes) ∧ w' = .sending (.ok (i, bytes)) ∧
      t = s) ∨
    (∃ i e, w = .reading i ∧ reads[i]? = some (.error e) ∧ w' = .sending (.error e) ∧ t = s) ∨
    (∃ m, w = .sending m ∧ s.writer.isClosed = true ∧ w' = .returned ∧ t = s) ∨
    (∃ message, w = .sending (.ok message) ∧ s.writer.isClosed = false ∧ w' = .fetching ∧
      t = { s with channel := s.channel ++ [.ok message] }) ∨
    ∃ e, w = .sending (.error e) ∧ s.writer.isClosed = false ∧ w' = .returned ∧
      t = { s with channel := s.channel ++ [.error e] } := by
  cases w with
  | fetching =>
    simp only [Pipeline.work] at h
    split at h <;> cases h <;> grind
  | reading i =>
    obtain ⟨r, chunk, heq⟩ := Option.map_eq_some_iff.mp h
    cases heq
    cases r <;> simp [chunk, Except.map]
  | sending m =>
    simp only [Pipeline.work] at h
    split at h
    · cases h
      grind
    · split at h
      · cases h
        cases m <;> grind
      · cases h
  | returned => cases h

theorem step_worker {k : Nat} (h : s.step reads capacity (.worker k) = some s') :
    ∃ before after w w' t, s.workers = before ++ w :: after ∧
      s.work reads capacity w = some (w', t) ∧ s' = { t with workers := before ++ w' :: after } := by
  obtain ⟨w, found, h⟩ := Option.bind_eq_some_iff.mp h
  obtain ⟨⟨w', t⟩, done, rfl⟩ := Option.map_eq_some_iff.mp h
  obtain ⟨inside, rfl⟩ := List.getElem?_eq_some_iff.mp found
  obtain ⟨before, after, split, -, replaced⟩ := @List.exists_of_set _ k w' s.workers inside
  exact ⟨before, after, _, w', t, split, done, by rw [replaced]⟩

theorem Inv.work {before after : List (ChunkWorker E)} {w w' : ChunkWorker E} {t : Pipeline E}
    (inv : s.Inv reads old) (split : s.workers = before ++ w :: after)
    (h : s.work reads capacity w = some (w', t)) :
    Inv reads old { t with workers := before ++ w' :: after } := by
  obtain ⟨settled, inside, sent, writing, flow, -⟩ := inv
  simp only [Holds, Failing, split, List.map_append, List.map_cons, List.mem_append,
    List.mem_cons] at inside sent flow
  rcases work_cases h with ⟨rfl, room, rfl, rfl⟩ | ⟨rfl, none, rfl, rfl⟩ | ⟨i, bytes, rfl, chunk, rfl, rfl⟩ |
    ⟨i, e, rfl, chunk, rfl, rfl⟩ | ⟨m, rfl, closed, rfl, rfl⟩ | ⟨message, rfl, opened, rfl, rfl⟩ |
    ⟨e, rfl, opened, rfl, rfl⟩
  all_goals
    refine ⟨settled, ?_, ?_, writing, ?_, by simp⟩ <;>
      simp only [Holds, Failing, List.map_append, List.map_cons, List.mem_append, List.mem_cons] <;>
      grind [ChunkWorker.index, Genuine, List.mem_of_getElem?]

theorem Inv.close {result : Except (PipelineError E) Unit} (inv : s.Inv reads old)
    (closed : s'.writer = .closed result) (workers : s'.workers = s.workers)
    (channel : s'.channel ⊆ s.channel) (settled : s'.Settled reads old) : s'.Inv reads old := by
  refine ⟨settled, workers ▸ inv.inside, fun m h => inv.sent m ?_, ?_, ?_, workers ▸ inv.someWorker⟩
  · exact workers ▸ h.imp_right (fun mem => channel mem)
  · simp [closed]
  · simp [closed, ChunkWriter.isClosed]

/-- When the senders are gone, nothing is missing. -/
theorem Inv.complete {w : Writing} (inv : s.Inv reads old) (phase : s.writer = .receiving w)
    (empty : s.channel = []) (gone : s.workers.all (·.isReturned) = true) :
    writeChunks reads = .ok w.file ∧ w.nextWrite = reads.length := by
  have returned : ∀ worker ∈ s.workers, worker = .returned := by
    intro worker mem
    have := List.all_eq_true.mp gone worker mem
    cases worker <;> simp_all [ChunkWorker.isReturned]
  obtain ⟨valid, waits⟩ := inv.writing w phase
  have all : w.nextWrite = reads.length := by
    by_contra missing
    have inside : w.nextWrite < reads.length := Nat.lt_of_le_of_ne valid.bound missing
    rcases inv.flow (by simp [phase, ChunkWriter.isClosed]) with ⟨e, failing | failing⟩ | ⟨held, last⟩
    · simp [empty] at failing
    · cases returned _ failing
    · obtain ⟨worker, rest, heq⟩ := List.exists_cons_of_ne_nil inv.someWorker
      have mem : worker ∈ s.workers := by simp [heq]
      rcases held w.nextWrite (inside.trans_le (last (returned worker mem ▸ mem))) with busy | sent | arrived
      · obtain ⟨worker, mem, index⟩ := List.mem_map.mp busy
        rw [returned worker mem] at index
        cases index
      · simp [empty] at sent
      · simp [phase, Writing.Has, waits] at arrived
  have file := valid.file
  rw [all, List.take_length] at file
  exact ⟨file, all⟩

theorem Inv.write {fate : WriterFate} (inv : s.Inv reads old) (h : s.write reads fate = some s') :
    s'.Inv reads old := by
  have settled := inv.settled
  unfold Settled at settled
  unfold Pipeline.write at h
  cases phase : s.writer with
  | closed => simp [phase] at h
  | opening =>
    simp only [phase, Option.some.injEq] at h settled
    subst h
    by_cases smooth : fate = .smooth
    · have valid : Writing.Valid reads ⟨[], 0, []⟩ := ⟨rfl, Nat.zero_le _, by simp⟩
      have flow := inv.flow
      refine ⟨by simpa [Settled, smooth] using settled, inv.inside, inv.sent, by simp [smooth, valid],
        ?_, inv.someWorker⟩
      simpa [smooth, Holds, Failing, ChunkWriter.isClosed, Writing.Has, phase] using flow
    · exact inv.close (if_neg smooth) rfl (List.Subset.refl _) (by simp [Settled, smooth, settled])
  | receiving w =>
    simp only [phase] at h settled
    obtain ⟨valid, waits⟩ := inv.writing w phase
    cases queue : s.channel with
    | cons m rest =>
      have genuine := inv.sent m (Or.inr (by simp [queue]))
      cases m with
      | ok message =>
        obtain ⟨i, bytes⟩ := message
        simp only [queue] at h
        split at h
        · cases h
          exact inv.close rfl rfl (List.nil_subset _) (Or.inl settled)
        · cases h
          obtain ⟨valid', waits', keeps⟩ := Writing.receive_spec valid genuine
          obtain ⟨-, inside, sent, -, flow, nonempty⟩ := inv
          simp only [Holds, Failing, queue, phase, List.mem_cons] at sent flow
          refine ⟨settled, inside, ?_, ?_, ?_, nonempty⟩
          · grind
          · grind
          · simp only [Holds, Failing]
            grind [ChunkWriter.isClosed]
      | error e =>
        simp only [queue, Option.some.injEq] at h
        subst h
        exact inv.close rfl rfl (List.nil_subset _) ⟨genuine, settled⟩
    | nil =>
      simp only [queue] at h
      split at h
      · next gone =>
        obtain ⟨file, all⟩ := inv.complete phase queue gone
        cases fate <;> simp only [all, ne_eq, not_true_eq_false, if_false, Option.some.injEq] at h <;>
          subst h
        · exact inv.close rfl rfl (List.nil_subset _) ⟨w.file, file, rfl⟩
        · exact inv.close rfl rfl (List.nil_subset _) (Or.inl settled)
        · exact inv.close rfl rfl (List.nil_subset _) (Or.inr ⟨w.file, file, rfl⟩)
      · cases h

theorem Inv.step {label : Label} (inv : s.Inv reads old)
    (h : s.step reads capacity label = some s') : s'.Inv reads old := by
  cases label with
  | worker k =>
    obtain ⟨before, after, w, w', t, split, done, rfl⟩ := step_worker h
    exact inv.work split done
  | writer fate => exact inv.write h

theorem step_io {label : Label} (h : s.step reads capacity label = some s')
    (io : s'.writer = .closed (.error .io)) :
    s.writer = .closed (.error .io) ∨ ∃ fate ≠ .smooth, label = .writer fate := by
  cases label with
  | worker k =>
    obtain ⟨before, after, w, w', t, split, done, rfl⟩ := step_worker h
    have := work_cases done
    grind
  | writer fate =>
    simp only [step, Pipeline.write] at h
    grind

theorem inv_start {parallelism : Nat} (positive : 0 < parallelism) :
    Inv reads old (start parallelism old : Pipeline E) := by
  refine ⟨rfl, ?_, ?_, ?_, fun _ => Or.inr ⟨?_, ?_⟩, ?_⟩ <;>
    simp [start, List.mem_replicate, positive.ne']

/-- The steps that are left at most. -/
def left (reads : List (Except E Bytes)) (s : Pipeline E) : Nat :=
  4 * (reads.length - s.next) + (s.workers.map ChunkWorker.weight).sum + s.channel.length +
    s.writer.weight

theorem left_step {label : Label} (h : s.step reads capacity label = some s') :
    s'.left reads < s.left reads := by
  cases label with
  | worker k =>
    obtain ⟨before, after, w, w', t, split, done, rfl⟩ := step_worker h
    rcases work_cases done with ⟨rfl, room, rfl, rfl⟩ | ⟨rfl, none, rfl, rfl⟩ |
      ⟨i, bytes, rfl, chunk, rfl, rfl⟩ | ⟨i, e, rfl, chunk, rfl, rfl⟩ | ⟨m, rfl, closed, rfl, rfl⟩ |
      ⟨message, rfl, opened, rfl, rfl⟩ | ⟨e, rfl, opened, rfl, rfl⟩ <;>
      simp only [left, split, List.map_append, List.map_cons, List.sum_append, List.sum_cons,
        ChunkWorker.weight, List.length_append, List.length_singleton] <;> omega
  | writer fate =>
    simp only [step, Pipeline.write] at h
    grind [left, ChunkWriter.weight]

/-- The writer has its result, and all threads are joined. -/
def Over (s : Pipeline E) : Prop :=
  s.writer.isClosed = true ∧ s.workers.all (·.isReturned) = true

/-- A thread that cannot go on waits for the writer, and the writer only waits for a thread
that can. -/
theorem exists_step (inv : s.Inv reads old) (room : 0 < capacity) :
    s.Over ∨ ∃ label s', s.step reads capacity label = some s' := by
  have writer : s.writer.isClosed = false →
      s.channel ≠ [] ∨ s.workers.all (·.isReturned) = true →
      ∃ s', s.step reads capacity (.writer .smooth) = some s' := by
    intro opened ready
    rw [← Option.isSome_iff_exists]
    simp only [step, Pipeline.write]
    grind [ChunkWriter.isClosed]
  by_cases gone : s.workers.all (·.isReturned) = true
  · cases closed : s.writer.isClosed with
    | true => exact Or.inl ⟨closed, gone⟩
    | false => exact Or.inr ⟨_, writer closed (Or.inr gone)⟩
  · obtain ⟨w, mem, active⟩ : ∃ w ∈ s.workers, w.isReturned ≠ true := by simpa using gone
    obtain ⟨k, found⟩ := List.mem_iff_getElem?.mp mem
    have works (can : (s.work reads capacity w).isSome = true) :
        ∃ label s', s.step reads capacity label = some s' := by
      obtain ⟨done, h⟩ := Option.isSome_iff_exists.mp can
      exact ⟨.worker k, _, by rw [step, found, Option.bind_some, h]; rfl⟩
    cases w with
    | fetching => exact Or.inr (works (by simp only [Pipeline.work]; split <;> rfl))
    | reading i => exact Or.inr (works (by simp [Pipeline.work, inv.inside i mem]))
    | sending m =>
      cases closed : s.writer.isClosed with
      | true => exact Or.inr (works (by simp [Pipeline.work, closed]))
      | false =>
        by_cases fits : s.channel.length < capacity
        · exact Or.inr (works (by simp [Pipeline.work, closed, fits]))
        · refine Or.inr ⟨_, writer closed (Or.inl ?_)⟩
          rintro empty
          simp [empty, room] at fits
    | returned => exact absurd rfl active

end Pipeline

open Machine Pipeline

section Pipelined

variable {reads : List (Except E Bytes)} {capacity parallelism : Nat} {old : Option Bytes}
  {s : Pipeline E} {events : List Label}

/-- However threads and writer are interleaved: before the end the destination is as it was; a
success leaves the chunks in order there, as the plain path does; an error is that of a chunk or
of a file operation that failed, and no chunk ever goes missing. -/
theorem pipeline_settled (positive : 0 < parallelism)
    (run : Run (Computes (step reads capacity)) (start parallelism old) events s) :
    s.Settled reads old ∧
      (s.writer = .closed (.error .io) → ∃ fate ≠ .smooth, .writer fate ∈ events) := by
  refine ⟨(run.invariant (fun h inv => Inv.step inv h) (inv_start positive)).settled, fun io => ?_⟩
  have origin : (start parallelism old : Pipeline E).writer = .closed (.error .io) ∨
      ∃ fate ≠ .smooth, .writer fate ∈ events := by
    clear positive
    generalize (start parallelism old : Pipeline E) = first at run ⊢
    induction run with
    | nil => exact Or.inl io
    | cons h _ ih =>
      rcases ih io with mid | ⟨fate, rough, mem⟩
      · rcases step_io h mid with before | ⟨fate, rough, rfl⟩
        · exact Or.inl before
        · exact Or.inr ⟨fate, rough, List.mem_cons_self⟩
      · exact Or.inr ⟨fate, rough, List.mem_cons_of_mem _ mem⟩
  exact origin.resolve_left (by simp [start])

/-- Two threads, and the second chunk arrives before the first. -/
theorem pipeline_settled_swapped : ∃ s : Pipeline Unit,
    s.writer.isClosed = true ∧ s.Settled [.ok [1], .ok [2]] none := by
  obtain ⟨s, run, closed⟩ := exists_run_of_execAll (step (E := Unit) [.ok [1], .ok [2]] 4) (fun h => h)
    (start 2 none) [.writer .smooth, .worker 0, .worker 1, .worker 1, .worker 1, .worker 0,
      .writer .smooth, .worker 0, .writer .smooth, .worker 0, .worker 1, .writer .smooth]
    (fun s => s.writer.isClosed) (by decide +kernel)
  exact ⟨s, closed, (pipeline_settled (by decide) run).1⟩

/-- The pipeline always comes to its end: it is never stuck before all threads have returned, and
the number of its steps is bounded. -/
theorem pipeline_ends (positive : 0 < parallelism) (room : 0 < capacity)
    (run : Run (Computes (step reads capacity)) (start parallelism old) events s) :
    (s.Over ∨ ∃ label s', s.step reads capacity label = some s') ∧
      events.length ≤ 4 * reads.length + parallelism + 2 := by
  refine ⟨exists_step (run.invariant (fun h inv => Inv.step inv h) (inv_start positive)) room, ?_⟩
  have bound : events.length + s.left reads ≤ (start parallelism old : Pipeline E).left reads := by
    clear room positive
    generalize (start parallelism old : Pipeline E) = first at run
    induction run with
    | nil => exact (Nat.zero_add _).le
    | cons h _ ih =>
      have := left_step h
      rw [List.length_cons]
      omega
  have first : (start parallelism old : Pipeline E).left reads = 4 * reads.length + parallelism + 2 := by
    simp [left, start, ChunkWorker.weight, ChunkWriter.weight]
  omega

/-- The channel is full, and one of two threads waits for it. -/
theorem pipeline_ends_of_full : ∃ s : Pipeline Unit,
    s.channel.length = 1 ∧ s.step [.ok [1], .error ()] 1 (.worker 0) = none ∧
      ∃ label s', s.step [.ok [1], .error ()] 1 label = some s' := by
  obtain ⟨s, run, full⟩ := exists_run_of_execAll (step (E := Unit) [.ok [1], .error ()] 1)
    (fun h => h) (start 2 none) [.worker 0, .worker 1, .worker 1, .worker 0, .worker 1]
    (fun s => s.channel.length == 1 && (s.step [.ok [1], .error ()] 1 (.worker 0)).isNone &&
      !s.writer.isClosed) (by decide +kernel)
  simp only [Bool.and_eq_true, beq_iff_eq, Option.isNone_iff_eq_none, Bool.not_eq_true'] at full
  refine ⟨s, full.1.1, full.1.2, ?_⟩
  refine (pipeline_ends (by decide) (by decide) run).1.resolve_left fun done => ?_
  exact Bool.false_ne_true (full.2.symm.trans done.1)

end Pipelined

end Majutsu.Repo
