import Majutsu.Repo.LargeObject
import Majutsu.Repo.Scan
import Mathlib.Data.List.TakeWhile

/-!
# Files that change while they are read

A reader makes one system call after the other, and each of them may find another file:
written, cut, or replaced by a file of the same name. `stable_read` and the streaming
reader take what a pass over the file returned if the metadata before and after the pass
agree, and start again otherwise.

Reading a file that grows as fast as it is read does not end. A pass that is not done
after `patience` reads has no result here.
-/

namespace Majutsu.Repo

structure Metadata where
  ino : Nat
  len : Nat
  mode : Nat
  uid : Option Nat
  gid : Option Nat
  /-- In nanoseconds. -/
  modified : Option Int

def stableMetadataMatches (before after : Metadata) : Bool :=
  before.len = after.len && before.modified = after.modified && before.ino = after.ino

structure FileState where
  mode : Nat
  uid : Option Nat
  gid : Option Nat
  modified : Option Int
  content : Bytes

/-- What stands under a path. -/
inductive PathEntry where
  | absent
  | file (ino : Nat)
  /-- A symbolic link, and the regular file that it leads to. -/
  | link (own : Metadata) (target : String) (leads : Option Nat)
  | special (own : Metadata) (kind : String)
  | directory (own : Metadata)

structure Instant where
  entry : PathEntry
  inode : Nat → FileState

namespace Instant

variable (instant : Instant)

def stat (ino : Nat) : Metadata :=
  let inode := instant.inode ino
  ⟨ino, inode.content.length, inode.mode, inode.uid, inode.gid, inode.modified⟩

def symlinkMetadata : Option Metadata :=
  match instant.entry with
  | .absent => none
  | .file ino => some (instant.stat ino)
  | .link own _ _ | .special own _ | .directory own => some own

/-- The regular file under the path. Reading in a root follows no link. -/
def resolve (follow : Bool) : Except String Nat :=
  match instant.entry with
  | .absent => .error "No such file or directory (os error 2)"
  | .file ino => .ok ino
  | .link _ _ leads =>
    if !follow then .error "Too many levels of symbolic links (os error 40)"
    else
      match leads with
      | some ino => .ok ino
      | none => .error "No such file or directory (os error 2)"
  | .special _ _ | .directory _ => .error "snapshot path is not a regular file"

end Instant

/-- A path, how it is read, and what happens to it meanwhile. -/
structure Source where
  /-- What holds at each system call of the reader. -/
  history : Nat → Instant
  /-- `follow_symlinks`: the path is read through links, and not in its root. -/
  follow : Bool
  displayPath : String
  snapshotMode : String
  /-- The room that `read_to_end` has at each of its calls. -/
  room : Nat → Nat
  patience : Nat

namespace Source

variable (source : Source)

/-- Read an open file to its end: the pieces, and when the last read was over. -/
def readPieces (room : Nat → Nat) (ino : Nat) : Nat → Nat → Nat → Option (List Bytes × Nat)
  | 0, _, _ => none
  | patience + 1, time, offset =>
    let piece := (((source.history time).inode ino).content.drop offset).take (room time)
    if piece.isEmpty then some ([], time + 1)
    else
      (readPieces room ino patience (time + 1) (offset + piece.length)).map
        (fun rest => (piece :: rest.1, rest.2))

/-- A pass by path: the metadata are those of whatever the path leads to. -/
def passByPath (room : Nat → Nat) (time : Nat) : Option (Except String Attempt × Nat) :=
  match (source.history time).resolve true, (source.history (time + 1)).resolve true with
  | .error err, _ => some (.error err, time + 1)
  | .ok _, .error err => some (.error err, time + 2)
  | .ok named, .ok ino =>
    (source.readPieces room ino source.patience (time + 2) 0).map fun (pieces, done) =>
      match (source.history done).resolve true with
      | .error err => (.error err, done + 1)
      | .ok last =>
        (.ok ⟨pieces, stableMetadataMatches ((source.history time).stat named)
          ((source.history done).stat last)⟩, done + 1)

/-- A pass in the root: open the file, and ask the open file for its metadata. -/
def passInRoot (room : Nat → Nat) (time : Nat) : Option (Except String Attempt × Nat) :=
  match (source.history time).resolve false with
  | .error err => some (.error err, time + 1)
  | .ok ino =>
    (source.readPieces room ino source.patience (time + 2) 0).map fun (pieces, done) =>
      (.ok ⟨pieces, stableMetadataMatches ((source.history (time + 1)).stat ino)
        ((source.history done).stat ino)⟩, done + 1)

def pass (room : Nat → Nat) (time : Nat) : Option (Except String Attempt × Nat) :=
  if source.follow then source.passByPath room time else source.passInRoot room time

def changedError : String := s!"file changed while reading: {source.displayPath}"

/-- The loop of `stable_read` and of `stable_read_in_root`; only the second tries again
after an error. -/
def stableReadFrom : Nat → Nat → String → Option (Except String Bytes)
  | 0, _, last => some (.error last)
  | attempts + 1, time, _ =>
    match source.pass source.room time with
    | none => none
    | some (.ok attempt, done) =>
      if attempt.stable then some (.ok attempt.read.flatten)
      else stableReadFrom attempts done source.changedError
    | some (.error err, done) =>
      if source.follow then some (.error err) else stableReadFrom attempts done err

def stableRead (mode : String) (time : Nat) : Option (Except String Bytes) :=
  source.stableReadFrom (if mode = "strict" then 8 else 3) time
    s!"file did not become stable: {source.displayPath}"

/-- The passes of the streaming reader, up to one that is stable or fails. -/
def passes (room : Nat → Nat) : Nat → Nat → Option (List Attempt × Option String)
  | 0, _ => some ([], none)
  | attempts + 1, time =>
    match source.pass room time with
    | none => none
    | some (.error err, _) => some ([], some err)
    | some (.ok attempt, done) =>
      if attempt.stable then some ([attempt], none)
      else (passes room attempts done).map (fun rest => (attempt :: rest.1, rest.2))

variable {room : Nat → Nat} {later : Nat}

theorem length_passes {attempts time : Nat} {result : List Attempt × Option String}
    (made : source.passes room attempts time = some result) : result.1.length ≤ attempts := by
  induction attempts generalizing time result with
  | zero =>
    cases made
    exact Nat.le_refl 0
  | succ attempts ih =>
    unfold passes at made
    split at made
    · cases made
    · cases made
      exact Nat.zero_le _
    · split at made
      · cases made
        exact Nat.le_add_left 1 attempts
      · obtain ⟨rest, more, rfl⟩ := Option.map_eq_some_iff.mp made
        exact Nat.succ_le_succ (ih more)

/-- The metadata that a pass compares. -/
def observed (time done : Nat) : Option (Metadata × Metadata) :=
  if source.follow then
    match (source.history time).resolve true, (source.history done).resolve true with
    | .ok named, .ok last =>
      some ((source.history time).stat named, (source.history done).stat last)
    | _, _ => none
  else
    match (source.history time).resolve false with
    | .ok ino => some ((source.history (time + 1)).stat ino, (source.history done).stat ino)
    | .error _ => none

/-- From some time on the path leads to one file, and that file does not change. -/
structure Quiet (time ino : Nat) (inode : FileState) : Prop where
  named : ∀ later, time ≤ later → (source.history later).entry = .file ino
  kept : ∀ later, time ≤ later → (source.history later).inode ino = inode

variable {source} {time done ino : Nat} {inode : FileState}

theorem readPieces_later {patience offset : Nat} {pieces : List Bytes}
    (read : source.readPieces room ino patience time offset = some (pieces, later)) :
    time < later := by
  induction patience generalizing time offset pieces later with
  | zero => cases read
  | succ patience ih =>
    rw [readPieces] at read
    split at read
    · cases read
      exact Nat.lt_succ_self time
    · obtain ⟨⟨rest, last⟩, tail, result⟩ := Option.map_eq_some_iff.mp read
      cases result
      exact Nat.lt_of_succ_lt (ih tail)

theorem pass_inv {attempt : Attempt} (made : source.pass room time = some (.ok attempt, done)) :
    ∃ opened ino last before after, done = last + 1 ∧ time ≤ opened ∧ opened ≤ time + 1 ∧
      (source.history opened).resolve source.follow = .ok ino ∧
      source.readPieces room ino source.patience (time + 2) 0 = some (attempt.pieces, last) ∧
      source.observed time last = some (before, after) ∧
      attempt.stable = stableMetadataMatches before after := by
  unfold Source.pass at made
  split at made
  · next follow =>
    unfold passByPath at made
    split at made
    · cases made
    · cases made
    · next named ino first second =>
      obtain ⟨⟨pieces, last⟩, read, result⟩ := Option.map_eq_some_iff.mp made
      dsimp only at result
      split at result
      · cases result
      · next lastIno third =>
        cases result
        exact ⟨time + 1, ino, last, _, _, rfl, Nat.le_succ time, Nat.le_refl _,
          by rw [follow, second], read, by simp only [observed, follow, if_true, first, third], rfl⟩
  · next follow =>
    unfold passInRoot at made
    split at made
    · cases made
    · next ino first =>
      obtain ⟨⟨pieces, last⟩, read, result⟩ := Option.map_eq_some_iff.mp made
      cases result
      exact ⟨time, ino, last, _, _, rfl, Nat.le_refl time, Nat.le_succ time,
        by rw [Bool.eq_false_iff.mpr follow, first], read,
        by simp only [observed, if_neg follow, first], rfl⟩

theorem Quiet.mono (quiet : source.Quiet time ino inode) (after : time ≤ later) :
    source.Quiet later ino inode :=
  ⟨fun t h => quiet.named t (Nat.le_trans after h), fun t h => quiet.kept t (Nat.le_trans after h)⟩

theorem Quiet.resolve (quiet : source.Quiet time ino inode) (follow : Bool) (after : time ≤ later) :
    (source.history later).resolve follow = .ok ino := by
  rw [Instant.resolve, quiet.named later after]

theorem Quiet.stat (quiet : source.Quiet time ino inode) (after : time ≤ later) :
    (source.history later).stat ino = (source.history time).stat ino := by
  rw [Instant.stat, Instant.stat, quiet.kept later after, quiet.kept time (Nat.le_refl time)]

theorem Quiet.readPieces (quiet : source.Quiet time ino inode) (some_ : ∀ t, 0 < room t)
    {patience offset : Nat} (enough : inode.content.length < patience + offset)
    (within : offset ≤ inode.content.length) :
    ∃ pieces done, source.readPieces room ino patience time offset = some (pieces, done) ∧
      time ≤ done ∧ (∀ piece ∈ pieces, piece ≠ []) ∧
      pieces.flatten = inode.content.drop offset := by
  induction patience generalizing time offset with
  | zero => omega
  | succ patience ih =>
    simp only [Source.readPieces, quiet.kept time (Nat.le_refl time)]
    by_cases ended : ((inode.content.drop offset).take (room time)).isEmpty = true
    · have rest : inode.content.drop offset = [] := by
        have positive := some_ time
        rw [List.isEmpty_iff, List.take_eq_nil_iff] at ended
        exact ended.resolve_left (by omega)
      exact ⟨[], time + 1, by rw [if_pos ended], by omega, by simp, by simp [rest]⟩
    · have taken : 0 < ((inode.content.drop offset).take (room time)).length := by
        rwa [List.length_pos_iff, ne_eq, ← List.isEmpty_iff]
      have short : ((inode.content.drop offset).take (room time)).length ≤
          inode.content.length - offset := by
        rw [List.length_take, List.length_drop]
        exact Nat.min_le_right _ _
      obtain ⟨pieces, done, read, after, full, joined⟩ :=
        @ih (time + 1) (quiet.mono (Nat.le_succ time))
          (offset + ((inode.content.drop offset).take (room time)).length) (by omega) (by omega)
      refine ⟨_ :: pieces, done, by rw [if_neg ended, read]; rfl, by omega, ?_, ?_⟩
      · rintro piece (_ | ⟨_, inside⟩)
        · exact List.length_pos_iff.mp taken
        · exact full piece inside
      · rw [List.flatten_cons, joined, ← List.drop_drop]
        exact List.prefix_iff_eq_append.mp (List.take_prefix _ _)

theorem Quiet.pass (quiet : source.Quiet time ino inode) (some_ : ∀ t, 0 < room t)
    (enough : inode.content.length < source.patience) :
    ∃ attempt done, source.pass room time = some (.ok attempt, done) ∧ attempt.stable = true ∧
      attempt.read.flatten = inode.content := by
  obtain ⟨pieces, done, read, after, full, joined⟩ :=
    (quiet.mono (Nat.le_add_right time 2)).readPieces some_ (show _ < source.patience + 0 from enough)
      (Nat.zero_le _)
  have stable : ∀ early late, time ≤ early → time ≤ late →
      stableMetadataMatches ((source.history early).stat ino) ((source.history late).stat ino) =
        true := by
    intro early late before then_
    rw [quiet.stat before, quiet.stat then_]
    simp [stableMetadataMatches]
  have whole : pieces.takeWhile (fun piece => !piece.isEmpty) = pieces := by
    simpa [List.takeWhile_eq_self_iff] using full
  refine ⟨⟨pieces, true⟩, done + 1, ?_, rfl, by rw [Attempt.read, whole, joined, List.drop_zero]⟩
  unfold Source.pass
  split
  · simp only [passByPath, quiet.resolve true (Nat.le_refl time),
      quiet.resolve true (Nat.le_succ time), read, Option.map_some,
      quiet.resolve true (show time ≤ done by omega),
      stable time done (Nat.le_refl time) (by omega)]
  · simp only [passInRoot, quiet.resolve false (Nat.le_refl time), read, Option.map_some,
      stable (time + 1) done (Nat.le_succ time) (by omega)]

end Source

end Majutsu.Repo
