import Majutsu.Lib.Machine
import Majutsu.Repo.Basic
import Mathlib.Data.Fintype.Basic

/-!
# Publishing a local object

`store_encoded_object_bytes_with_storage_id` writes an object to a temporary
file next to its final path and renames it. The name of the temporary file
depends on the object only, so all writers of one object share it, and a writer
that finds it there truncates it. The operations of one call are single steps
here, `write_all` is any number of writes, and other writers run in between.

A writer holds the inode it has opened. A rename moves whatever inode the
temporary name leads to at that moment.
-/

namespace Majutsu.Repo

open Machine

/-- A write of `bytes` at an offset; a gap before it reads as zeros. -/
def patch (old : Bytes) (offset : Nat) (bytes : Bytes) : Bytes :=
  old.take offset ++ List.replicate (offset - old.length) 0 ++ bytes ++
    old.drop (offset + bytes.length)

theorem patch_take (bytes : Bytes) {written n : Nat} (fits : written + n ≤ bytes.length) :
    patch (bytes.take written) written ((bytes.drop written).take n) =
      bytes.take (written + n) := by
  have length : (bytes.take written).length = written := by
    rw [List.length_take]
    omega
  have past : (bytes.take written).drop (written + ((bytes.drop written).take n).length) = [] := by
    apply List.drop_eq_nil_of_le
    omega
  rw [patch, past, length, Nat.sub_self, List.replicate_zero, List.append_nil, List.append_nil,
    List.take_of_length_le (Nat.le_of_eq length), List.take_add]

/-- Where a writer is inside its call. -/
inductive WriterPc where
  | idle
  | checking (bytes : Bytes)
  | creating (bytes : Bytes)
  | writing (inode : Nat) (bytes : Bytes) (written : Nat)

namespace WriterPc

def isCreating : WriterPc → Bool
  | .creating _ => true
  | _ => false

def isWriting : WriterPc → Bool
  | .writing .. => true
  | _ => false

end WriterPc

/-- The two names of one object, and the processes that store it. -/
structure ObjectState (Pid : Type) where
  final : Option Nat
  tmp : Option Nat
  content : Nat → Bytes
  nextInode : Nat
  alive : Pid → Bool
  pc : Pid → WriterPc

inductive WriterEvent (Pid : Type) where
  /-- A call with an encoding of the payload. -/
  | store (pid : Pid) (bytes : Bytes)
  /-- The existence check, the create or the rename of a call. -/
  | move (pid : Pid)
  /-- The next part of `write_all`. -/
  | write (pid : Pid) (n : Nat)
  | crash (pid : Pid)

namespace ObjectState

variable {Pid : Type}

/-- `File::create(&tmp)`: a new file, or the old one with its content gone. -/
def createTmp (s : ObjectState Pid) : ObjectState Pid × Nat :=
  match s.tmp with
  | some inode => ({ s with content := Function.update s.content inode [] }, inode)
  | none =>
    ({ s with
      tmp := some s.nextInode
      content := Function.update s.content s.nextInode []
      nextInode := s.nextInode + 1 }, s.nextInode)

/-- `fs::rename(tmp, &path)`; without a temporary file it fails and the call ends with an error. -/
def renameTmp (s : ObjectState Pid) : ObjectState Pid :=
  match s.tmp with
  | some inode => { s with final := some inode, tmp := none }
  | none => s

@[simp] theorem createTmp_pc (s : ObjectState Pid) : s.createTmp.1.pc = s.pc := by
  unfold createTmp
  cases s.tmp <;> rfl

@[simp] theorem createTmp_alive (s : ObjectState Pid) : s.createTmp.1.alive = s.alive := by
  unfold createTmp
  cases s.tmp <;> rfl

@[simp] theorem createTmp_final (s : ObjectState Pid) : s.createTmp.1.final = s.final := by
  unfold createTmp
  cases s.tmp <;> rfl

@[simp] theorem createTmp_tmp (s : ObjectState Pid) : s.createTmp.1.tmp = some s.createTmp.2 := by
  unfold createTmp
  cases s.tmp <;> simp

@[simp] theorem createTmp_content (s : ObjectState Pid) :
    s.createTmp.1.content = Function.update s.content s.createTmp.2 [] := by
  unfold createTmp
  cases s.tmp <;> rfl

theorem createTmp_lt (s : ObjectState Pid) (old : ∀ inode, s.tmp = some inode → inode < s.nextInode) :
    s.createTmp.2 < s.createTmp.1.nextInode ∧ s.nextInode ≤ s.createTmp.1.nextInode := by
  unfold createTmp
  cases tmp : s.tmp with
  | some inode => exact ⟨old inode tmp, Nat.le_refl _⟩
  | none => exact ⟨Nat.lt_succ_self _, Nat.le_succ _⟩

theorem createTmp_ne (s : ObjectState Pid) {inode : Nat} (other : s.tmp ≠ some inode)
    (old : inode < s.nextInode) : inode ≠ s.createTmp.2 := by
  unfold createTmp
  cases tmp : s.tmp with
  | some held =>
    rintro rfl
    exact other tmp
  | none => exact Nat.ne_of_lt old

/-- Nobody is inside a call. What is at the final path is complete; a crash of an
earlier process may have left a temporary file. -/
structure Initial (encodings : List Bytes) (s : ObjectState Pid) : Prop where
  published : ∀ inode, s.final = some inode → s.content inode ∈ encodings
  apart : ∀ inode, s.final = some inode → s.tmp ≠ some inode
  old : ∀ inode, s.final = some inode ∨ s.tmp = some inode → inode < s.nextInode
  idle : ∀ pid, s.pc pid = .idle

/-- One live writer at a time, and it has written the first part of its encoding. -/
structure Publishes (encodings : List Bytes) (s : ObjectState Pid) : Prop where
  published : ∀ inode, s.final = some inode → s.content inode ∈ encodings
  apart : ∀ inode, s.final = some inode → s.tmp ≠ some inode
  old : ∀ inode, s.final = some inode ∨ s.tmp = some inode → inode < s.nextInode
  calls : ∀ p bytes, s.pc p = .checking bytes ∨ s.pc p = .creating bytes → bytes ∈ encodings
  writes : ∀ p inode bytes written, s.alive p = true → s.pc p = .writing inode bytes written →
    bytes ∈ encodings ∧ s.tmp = some inode ∧ s.content inode = bytes.take written
  single : ∀ p q, s.alive p = true → s.alive q = true → (s.pc p).isWriting = true →
    (s.pc q).isWriting = true → p = q

theorem Publishes.start {s : ObjectState Pid} {encodings : List Bytes} (h : s.Initial encodings) : s.Publishes encodings where
  published := h.published
  apart := h.apart
  old := h.old
  calls p bytes at_call := by simp [h.idle] at at_call
  writes p inode bytes written _ at_write := by simp [h.idle] at at_write
  single p q _ _ at_write := by simp [h.idle, WriterPc.isWriting] at at_write

variable [DecidableEq Pid]

def goto (s : ObjectState Pid) (pid : Pid) (pc : WriterPc) : ObjectState Pid :=
  { s with pc := Function.update s.pc pid pc }

def move (s : ObjectState Pid) (pid : Pid) : Option (ObjectState Pid) :=
  match s.pc pid with
  | .idle => none
  | .checking bytes => some (s.goto pid (if s.final.isSome then .idle else .creating bytes))
  | .creating bytes => some (s.createTmp.1.goto pid (.writing s.createTmp.2 bytes 0))
  | .writing _ bytes written =>
    if written = bytes.length then some (s.renameTmp.goto pid .idle) else none

def write (s : ObjectState Pid) (pid : Pid) (n : Nat) : Option (ObjectState Pid) :=
  match s.pc pid with
  | .writing inode bytes written =>
    if 0 < n ∧ written + n ≤ bytes.length then
      some ({ s with
        content := Function.update s.content inode
          (patch (s.content inode) written ((bytes.drop written).take n)) }.goto pid
          (.writing inode bytes (written + n)))
    else none
  | _ => none

def exec (s : ObjectState Pid) (e : WriterEvent Pid) : Option (ObjectState Pid) :=
  match e with
  | .store pid bytes =>
    if s.alive pid then
      match s.pc pid with
      | .idle => some (s.goto pid (.checking bytes))
      | _ => none
    else none
  | .move pid => if s.alive pid then s.move pid else none
  | .write pid n => if s.alive pid then s.write pid n else none
  | .crash pid =>
    if s.alive pid then some { s with alive := Function.update s.alive pid false } else none

def readObject {β : Type} (decode : Bytes → Option β) (s : ObjectState Pid) : Option β :=
  s.final.bind (fun inode => decode (s.content inode))

/-- All that a step can do. -/
inductive Change (s : ObjectState Pid) : WriterEvent Pid → ObjectState Pid → Prop where
  | store (pid : Pid) (bytes : Bytes) : Change s (.store pid bytes) (s.goto pid (.checking bytes))
  | found (pid : Pid) : Change s (.move pid) (s.goto pid .idle)
  | absent (pid : Pid) (bytes : Bytes) : s.pc pid = .checking bytes →
      Change s (.move pid) (s.goto pid (.creating bytes))
  | create (pid : Pid) (bytes : Bytes) : s.pc pid = .creating bytes →
      Change s (.move pid) (s.createTmp.1.goto pid (.writing s.createTmp.2 bytes 0))
  | rename (pid : Pid) (inode : Nat) (bytes : Bytes) : s.alive pid = true →
      s.pc pid = .writing inode bytes bytes.length →
      Change s (.move pid) (s.renameTmp.goto pid .idle)
  | write (pid : Pid) (inode : Nat) (bytes : Bytes) (written n : Nat) : s.alive pid = true →
      s.pc pid = .writing inode bytes written → written + n ≤ bytes.length →
      Change s (.write pid n)
        ({ s with
          content := Function.update s.content inode
            (patch (s.content inode) written ((bytes.drop written).take n)) }.goto pid
            (.writing inode bytes (written + n)))
  | crash (pid : Pid) : Change s (.crash pid) { s with alive := Function.update s.alive pid false }

variable {s s' : ObjectState Pid} {e : WriterEvent Pid}

theorem move_change {pid : Pid} (live : s.alive pid = true) (h : s.move pid = some s') :
    Change s (.move pid) s' := by
  unfold move at h
  cases hpc : s.pc pid with
  | idle => simp [hpc] at h
  | checking bytes =>
    simp only [hpc, Option.some.injEq] at h
    subst h
    split
    · exact .found pid
    · exact .absent pid bytes hpc
  | creating bytes =>
    simp only [hpc, Option.some.injEq] at h
    subst h
    exact .create pid bytes hpc
  | writing inode bytes written =>
    simp only [hpc] at h
    split at h
    · next all =>
      cases h
      exact .rename pid inode bytes live (all ▸ hpc)
    · cases h

theorem exec_change (h : s.exec e = some s') : Change s e s' := by
  cases e with
  | store pid bytes =>
    simp only [exec] at h
    by_cases live : s.alive pid = true
    · cases hpc : s.pc pid with
      | idle =>
        simp only [if_pos live, hpc] at h
        cases h
        exact .store pid bytes
      | _ => simp [live, hpc] at h
    · simp [live] at h
  | move pid =>
    simp only [exec] at h
    split at h
    · next live => exact move_change live h
    · cases h
  | write pid n =>
    simp only [exec] at h
    by_cases live : s.alive pid = true
    · rw [if_pos live] at h
      unfold ObjectState.write at h
      cases hpc : s.pc pid with
      | writing inode bytes written =>
        simp only [hpc] at h
        split at h
        · next part =>
          cases h
          exact .write pid inode bytes written n live hpc part.2
        · cases h
      | _ => simp [hpc] at h
    · simp [live] at h
  | crash pid =>
    simp only [exec] at h
    split at h
    · cases h
      exact .crash pid
    · cases h

/-- Nobody else is between its create and its rename when a temporary file is created. -/
def alone (s : ObjectState Pid) : WriterEvent Pid → Prop
  | .move pid =>
    (s.pc pid).isCreating = true → ∀ q, q ≠ pid → s.alive q = true → (s.pc q).isWriting = false
  | _ => True

instance [Fintype Pid] (s : ObjectState Pid) : (e : WriterEvent Pid) → Decidable (s.alone e)
  | .move pid => inferInstanceAs (Decidable ((s.pc pid).isCreating = true →
      ∀ q, q ≠ pid → s.alive q = true → (s.pc q).isWriting = false))
  | .store .. => .isTrue trivial
  | .write .. => .isTrue trivial
  | .crash _ => .isTrue trivial

/-- The call stores one of the given encodings. -/
def encodes (encodings : List Bytes) : WriterEvent Pid → Prop
  | .store _ bytes => bytes ∈ encodings
  | _ => True

instance (encodings : List Bytes) : (e : WriterEvent Pid) → Decidable (encodes encodings e)
  | .store _ bytes => inferInstanceAs (Decidable (bytes ∈ encodings))
  | .move _ => .isTrue trivial
  | .write .. => .isTrue trivial
  | .crash _ => .isTrue trivial

namespace Publishes

variable {encodings : List Bytes}

theorem goto (inv : s.Publishes encodings) (pid : Pid) {pc : WriterPc}
    (calls : ∀ bytes, pc = .checking bytes ∨ pc = .creating bytes → bytes ∈ encodings)
    (outside : pc.isWriting = false) : (s.goto pid pc).Publishes encodings where
  published := inv.published
  apart := inv.apart
  old := inv.old
  calls p bytes at_call := by
    simp only [ObjectState.goto, Function.update_apply] at at_call
    split at at_call
    · exact calls bytes at_call
    · exact inv.calls p bytes at_call
  writes p inode bytes written live at_write := by
    refine inv.writes p inode bytes written live (of_update at_write ?_).2
    rintro rfl
    cases outside
  single p q hp hq writing writing' := by
    simp only [ObjectState.goto, Function.update_apply] at writing writing'
    split at writing
    · rw [outside] at writing
      cases writing
    · split at writing'
      · rw [outside] at writing'
        cases writing'
      · exact inv.single p q hp hq writing writing'

theorem step (inv : s.Publishes encodings) (change : Change s e s') (ok : s.alone e)
    (call : encodes encodings e) : s'.Publishes encodings := by
  cases change with
  | store pid bytes =>
    apply inv.goto pid
    · intro bytes' at_call
      have same : bytes = bytes' := by simpa using at_call
      exact same ▸ call
    · rfl
  | found pid => exact inv.goto pid (by simp) rfl
  | absent pid bytes at_check =>
    apply inv.goto pid
    · intro bytes' at_call
      have same : bytes = bytes' := by simpa using at_call
      exact same ▸ inv.calls pid bytes (Or.inl at_check)
    · rfl
  | create pid bytes at_create =>
    have others : ∀ q, q ≠ pid → s.alive q = true → (s.pc q).isWriting = false :=
      ok (by simp [at_create, WriterPc.isCreating])
    have bounds := s.createTmp_lt (fun inode tmp => inv.old inode (Or.inr tmp))
    have kept : ∀ inode, s.final = some inode → inode ≠ s.createTmp.2 := fun inode final =>
      s.createTmp_ne (inv.apart inode final) (inv.old inode (Or.inl final))
    constructor
    · intro inode final
      simp only [ObjectState.goto, createTmp_final, createTmp_content] at final ⊢
      rw [Function.update_of_ne (kept inode final)]
      exact inv.published inode final
    · intro inode final
      simp only [ObjectState.goto, createTmp_final, createTmp_tmp] at final ⊢
      exact fun same => kept inode final (Option.some.inj same).symm
    · intro inode there
      simp only [ObjectState.goto, createTmp_final, createTmp_tmp] at there ⊢
      rcases there with final | tmp
      · exact Nat.lt_of_lt_of_le (inv.old inode (Or.inl final)) bounds.2
      · exact Option.some.inj tmp ▸ bounds.1
    · intro p bytes' at_call
      rw [ObjectState.goto, createTmp_pc] at at_call
      exact inv.calls p bytes' (at_call.imp (fun h => (of_update h (by simp)).2)
        fun h => (of_update h (by simp)).2)
    · intro p inode bytes' written live at_write
      simp only [ObjectState.goto, createTmp_pc, createTmp_alive, Function.update_apply] at live at_write
      split at at_write
      · cases at_write
        exact ⟨inv.calls pid bytes (Or.inr at_create), createTmp_tmp s,
          by simp [ObjectState.goto]⟩
      · next other =>
        have idle := others p other live
        simp [at_write, WriterPc.isWriting] at idle
    · intro p q hp hq writing writing'
      have only : ∀ r, s.alive r = true →
          (Function.update s.pc pid (.writing s.createTmp.2 bytes 0) r).isWriting = true →
          r = pid := by
        intro r live at_write
        by_contra other
        rw [Function.update_of_ne other, others r other live] at at_write
        cases at_write
      simp only [ObjectState.goto, createTmp_pc, createTmp_alive] at hp hq writing writing'
      rw [only p hp writing, only q hq writing']
  | rename pid inode bytes live at_write =>
    obtain ⟨mem, tmp, content⟩ := inv.writes pid inode bytes bytes.length live at_write
    have renamed : s.renameTmp = { s with final := some inode, tmp := none } := by
      simp [renameTmp, tmp]
    rw [renamed]
    have gone : (s.goto pid .idle).Publishes encodings := inv.goto pid (by simp) rfl
    constructor
    · rintro _ ⟨⟩
      simpa [ObjectState.goto, content] using mem
    · simp [ObjectState.goto]
    · intro inode' there
      have same : inode = inode' := by simpa [ObjectState.goto] using there
      exact same ▸ inv.old inode (Or.inr tmp)
    · exact gone.calls
    · intro p inode' bytes' written live' at_write'
      obtain ⟨other, was⟩ := of_update at_write' (by simp)
      exact absurd (inv.single p pid live' live (congrArg WriterPc.isWriting was)
        (congrArg WriterPc.isWriting at_write)) other
    · exact gone.single
  | write pid inode bytes written n live at_write fits =>
    obtain ⟨mem, tmp, content⟩ := inv.writes pid inode bytes written live at_write
    have was_writing : (s.pc pid).isWriting = true := by simp [at_write, WriterPc.isWriting]
    have only : ∀ r, s.alive r = true →
        (Function.update s.pc pid (.writing inode bytes (written + n)) r).isWriting = true →
        r = pid := by
      intro r live' writing
      by_contra other
      rw [Function.update_of_ne other] at writing
      exact other (inv.single r pid live' live writing was_writing)
    constructor
    · intro inode' final
      have other : inode' ≠ inode := fun same => inv.apart inode' final (same ▸ tmp)
      simp only [ObjectState.goto]
      rw [Function.update_of_ne other]
      exact inv.published inode' final
    · exact inv.apart
    · exact inv.old
    · intro p bytes' at_call
      exact inv.calls p bytes' (at_call.imp (fun h => (of_update h (by simp)).2)
        fun h => (of_update h (by simp)).2)
    · intro p inode' bytes' written' live' at_write'
      have same : p = pid := only p live' (congrArg WriterPc.isWriting at_write')
      subst same
      simp only [ObjectState.goto, Function.update_self] at at_write' ⊢
      cases at_write'
      refine ⟨mem, tmp, ?_⟩
      rw [Function.update_self, content]
      exact patch_take bytes fits
    · intro p q hp hq writing writing'
      rw [only p hp writing, only q hq writing']
  | crash pid =>
    have was_alive : ∀ p, Function.update s.alive pid false p = true → s.alive p = true := by
      intro p live
      exact (of_update live (by simp)).2
    constructor
    · exact inv.published
    · exact inv.apart
    · exact inv.old
    · exact inv.calls
    · exact fun p inode bytes written live => inv.writes p inode bytes written (was_alive p live)
    · exact fun p q hp hq => inv.single p q (was_alive p hp) (was_alive q hq)

end Publishes

/-- In a run in which temporary files are created only while nobody else writes one,
the final path leads to one complete encoding or to nothing. -/
theorem publish_atomic {β : Type} {decode : Bytes → Option β} {payload : β} {encodings : List Bytes}
    {events : List (WriterEvent Pid)} (init : s.Initial encodings)
    (decodes : ∀ bytes ∈ encodings, decode bytes = some payload)
    (run : Run (Meeting (Computes exec) (fun s e => s.alone e ∧ encodes encodings e)) s events s') :
    ∀ inode, s'.final = some inode →
      s'.content inode ∈ encodings ∧ s'.readObject decode = some payload := by
  have inv : s'.Publishes encodings := run.invariant (I := Publishes encodings)
    (fun step inv => inv.step (exec_change step.1) step.2.1 step.2.2) (Publishes.start init)
  intro inode final
  constructor
  · exact inv.published inode final
  · simp only [readObject, final, Option.bind_some]
    exact decodes _ (inv.published inode final)

def blank : ObjectState (Fin 2) where
  final := none
  tmp := none
  content _ := []
  nextInode := 0
  alive _ := true
  pc _ := .idle

theorem blank_initial (encodings : List Bytes) : blank.Initial encodings where
  published _ final := by cases final
  apart _ final := by cases final
  old _ there := by simp [blank] at there
  idle _ := rfl

def storing (pid : Fin 2) (bytes : Bytes) : List (WriterEvent (Fin 2)) :=
  [.store pid bytes, .move pid, .move pid, .write pid 1, .write pid (bytes.length - 1), .move pid]

/-- Process 0 dies while it writes; process 1 finds its temporary file and publishes. -/
def recovery : List (WriterEvent (Fin 2)) :=
  [.store 0 [1, 1, 1], .move 0, .move 0, .write 0 2, .crash 0] ++ storing 1 [2, 2]

theorem publish_atomic_recovery : ∃ s',
    Run (Meeting (Computes exec) (fun s e => s.alone e ∧ encodes [[1, 1, 1], [2, 2]] e))
      blank recovery s' ∧
    s'.final = some 0 ∧
    (∀ inode, s'.final = some inode → s'.content inode ∈ [[1, 1, 1], [2, 2]] ∧
      s'.readObject (fun bytes => if bytes ∈ [[1, 1, 1], [2, 2]] then some () else none) =
        some ()) := by
  obtain ⟨s', run, reached⟩ := exists_run_of_execAll
    (guarded exec (fun s e => s.alone e ∧ encodes [[1, 1, 1], [2, 2]] e)) guarded_meeting
    blank recovery (fun s => s.final = some 0) (by decide +kernel)
  refine ⟨s', run, of_decide_eq_true reached, publish_atomic (blank_initial _) ?_ run⟩
  intro bytes mem
  rw [if_pos mem]

/-- Process 1 truncates the file that process 0 has written and is about to rename. -/
def collision : List (WriterEvent (Fin 2)) :=
  [.store 0 [1, 1], .store 1 [2, 2], .move 0, .move 1, .move 0, .write 0 2, .move 1, .move 0,
    .crash 1]

theorem publish_atomic_collision : ∃ s', Run (Computes exec) blank collision s' ∧
    s'.final = some 0 ∧ s'.content 0 = [] ∧
    s'.readObject (fun bytes => if bytes ∈ [[1, 1], [2, 2]] then some () else none) = none := by
  obtain ⟨s', run, reached⟩ := exists_run_of_execAll exec id blank collision
    (fun s => s.final = some 0 ∧ s.content 0 = []) (by decide +kernel)
  obtain ⟨final, content⟩ := of_decide_eq_true reached
  exact ⟨s', run, final, content, by simp [readObject, final, content]⟩

end ObjectState

end Majutsu.Repo
