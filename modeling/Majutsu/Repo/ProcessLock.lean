import Majutsu.Lib.Machine
import Majutsu.Repo.Basic

/-!
# The process lock

A lock is a file that holds the process id of its owner. Taking it is two
operations, creating the file and writing the id, and a file without a readable
id of a live process counts as left over. Whoever finds such a file removes it
by path and creates it again. Between any two of these steps the other processes
may do anything.

A process keeps writing to the inode it has opened even when the path no longer
leads there. `maker` records who created an inode; no step looks at it.
-/

namespace Majutsu.Repo

open Machine

abbrev Pid := Nat
abbrev Inode := Nat

/-- `writeln!(file, "{}", std::process::id())`. -/
def pidText (pid : Pid) : Text := Nat.toDigits 10 pid ++ ['\n']

/-- `value.trim().parse::<u32>().ok()`. -/
def parsePid (text : Text) : Option Pid :=
  let trimmed := trim text
  let digits := if trimmed.head? = some '+' then trimmed.tail else trimmed
  if digits.isEmpty || !digits.all Char.isDigit then none
  else
    let value := digits.foldl (fun n c => 10 * n + (c.toNat - '0'.toNat)) 0
    if value < 2 ^ 32 then some value else none

/-- A write at the start of a file; longer old content shows behind it. -/
def overwrite (text old : Text) : Text := text ++ old.drop text.length

/-- Where a process is inside `acquire_process_lock`, `process_lock_owner` or a drop. -/
inductive Pc where
  | idle
  | opening
  | writing (inode : Inode)
  | reading
  | checking (owner : Pid)
  | removing
  | creating
  | ownerExists
  | ownerReading
  | ownerChecking (owner : Pid)
  | ownerRemoving
  | dropping
  deriving DecidableEq

structure LockState where
  file : Option Inode
  content : Inode → Text
  maker : Inode → Pid
  nextInode : Inode
  alive : Pid → Bool
  /-- How many `ProcessLock` values a process has. -/
  held : Pid → Nat
  pc : Pid → Pc

inductive Call where
  | acquire
  | owner
  | drop

inductive LockEvent where
  | call (pid : Pid) (call : Call)
  /-- The next operation of a call. -/
  | move (pid : Pid)
  | crash (pid : Pid)

namespace LockState

def goto (s : LockState) (pid : Pid) (pc : Pc) : LockState :=
  { s with pc := Function.update s.pc pid pc }

/-- Create a new file at the path and go on to write the process id. -/
def createFresh (s : LockState) (pid : Pid) : LockState :=
  { s with
    file := some s.nextInode
    content := Function.update s.content s.nextInode []
    maker := Function.update s.maker s.nextInode pid
    nextInode := s.nextInode + 1
    pc := Function.update s.pc pid (.writing s.nextInode) }

/-- `fs::read_to_string(path)`, as far as it names a process. -/
def readOwner (s : LockState) : Option Pid := s.file.bind (fun inode => parsePid (s.content inode))

def removeFile (s : LockState) : LockState := { s with file := none }

/-- The next operation of a process that is inside a call. -/
def advance (s : LockState) (pid : Pid) : Option LockState :=
  match s.pc pid with
  | .idle => none
  | .opening =>
    match s.file with
    | none => some (s.createFresh pid)
    | some _ => some (s.goto pid .reading)
  | .writing inode => some
      { s with
        content := Function.update s.content inode (overwrite (pidText pid) (s.content inode))
        held := Function.update s.held pid (s.held pid + 1)
        pc := Function.update s.pc pid .idle }
  | .reading =>
    match s.readOwner with
    | some owner => some (s.goto pid (.checking owner))
    | none => some (s.goto pid .removing)
  | .checking owner =>
    -- a live owner ends the call with "already running"
    if s.alive owner then some (s.goto pid .idle) else some (s.goto pid .removing)
  | .removing => some (s.removeFile.goto pid .creating)
  | .creating =>
    match s.file with
    | none => some (s.createFresh pid)
    | some inode => some
        { s with
          content := Function.update s.content inode []
          pc := Function.update s.pc pid (.writing inode) }
  | .ownerExists =>
    match s.file with
    | none => some (s.goto pid .idle)
    | some _ => some (s.goto pid .ownerReading)
  | .ownerReading =>
    match s.readOwner with
    | some owner => some (s.goto pid (.ownerChecking owner))
    | none => some (s.goto pid .ownerRemoving)
  | .ownerChecking owner =>
    if s.alive owner then some (s.goto pid .idle) else some (s.goto pid .ownerRemoving)
  | .ownerRemoving => some (s.removeFile.goto pid .idle)
  | .dropping => some
      { s with
        file := none
        held := Function.update s.held pid (s.held pid - 1)
        pc := Function.update s.pc pid .idle }

def exec (s : LockState) : LockEvent → Option LockState
  | .call pid call =>
    if s.alive pid ∧ s.pc pid = .idle then
      match call with
      | .acquire => some (s.goto pid .opening)
      | .owner => some (s.goto pid .ownerExists)
      | .drop => if 0 < s.held pid then some (s.goto pid .dropping) else none
    else none
  | .move pid => if s.alive pid then s.advance pid else none
  | .crash pid => if s.alive pid then some { s with alive := Function.update s.alive pid false }
      else none

/-- Nobody has called anything yet; a file may have been left behind. -/
structure Initial (s : LockState) : Prop where
  held : ∀ pid, s.held pid = 0
  pc : ∀ pid, s.pc pid = .idle

/-- All that a step can do to the files and the locks. -/
inductive Change (s : LockState) : LockEvent → LockState → Prop where
  | goto (e : LockEvent) (pid : Pid) (pc : Pc) : (∀ inode, pc ≠ .writing inode) →
      (pc = .dropping → 0 < s.held pid) → Change s e (s.goto pid pc)
  | create (pid : Pid) : s.file = none → Change s (.move pid) (s.createFresh pid)
  | write (pid : Pid) (inode : Inode) : s.alive pid = true → s.pc pid = .writing inode →
      Change s (.move pid)
        { s with
          content := Function.update s.content inode (overwrite (pidText pid) (s.content inode))
          held := Function.update s.held pid (s.held pid + 1)
          pc := Function.update s.pc pid .idle }
  | remove (pid : Pid) (pc : Pc) : s.pc pid = .removing ∨ s.pc pid = .ownerRemoving →
      pc = .creating ∨ pc = .idle → Change s (.move pid) (s.removeFile.goto pid pc)
  | truncate (pid : Pid) (inode : Inode) : s.pc pid = .creating → s.file = some inode →
      Change s (.move pid)
        { s with
          content := Function.update s.content inode []
          pc := Function.update s.pc pid (.writing inode) }
  | drop (pid : Pid) : s.alive pid = true → s.pc pid = .dropping →
      Change s (.move pid)
        { s with
          file := none
          held := Function.update s.held pid (s.held pid - 1)
          pc := Function.update s.pc pid .idle }
  | crash (pid : Pid) : Change s (.crash pid) { s with alive := Function.update s.alive pid false }

variable {s s' : LockState} {pid : Pid} {e : LockEvent}

theorem Change.quiet {pc : Pc} (h : pc = .idle ∨ pc = .opening ∨ pc = .reading ∨
    (∃ owner, pc = .checking owner) ∨ pc = .removing ∨ pc = .ownerExists ∨ pc = .ownerReading ∨
    (∃ owner, pc = .ownerChecking owner) ∨ pc = .ownerRemoving) : Change s e (s.goto pid pc) := by
  apply Change.goto
  · rintro inode rfl
    simp at h
  · rintro rfl
    simp at h

theorem advance_change (live : s.alive pid = true) (h : s.advance pid = some s') :
    Change s (.move pid) s' := by
  unfold advance at h
  cases hpc : s.pc pid with
  | idle => simp [hpc] at h
  | opening =>
    cases hf : s.file with
    | none =>
      simp only [hpc, hf] at h
      cases h
      exact .create pid hf
    | some inode =>
      simp only [hpc, hf] at h
      cases h
      exact .quiet (by simp)
  | writing inode =>
    simp only [hpc] at h
    cases h
    exact .write pid inode live hpc
  | reading =>
    simp only [hpc] at h
    split at h
    · cases h
      exact .quiet (by simp)
    · cases h
      exact .quiet (by simp)
  | checking owner =>
    simp only [hpc] at h
    split at h
    · cases h
      exact .quiet (by simp)
    · cases h
      exact .quiet (by simp)
  | removing =>
    simp only [hpc] at h
    cases h
    exact .remove pid _ (Or.inl hpc) (Or.inl rfl)
  | creating =>
    cases hf : s.file with
    | none =>
      simp only [hpc, hf] at h
      cases h
      exact .create pid hf
    | some inode =>
      simp only [hpc, hf] at h
      cases h
      have truncates := Change.truncate pid inode hpc hf
      rwa [hf] at truncates
  | ownerExists =>
    simp only [hpc] at h
    split at h
    · cases h
      exact .quiet (by simp)
    · cases h
      exact .quiet (by simp)
  | ownerReading =>
    simp only [hpc] at h
    split at h
    · cases h
      exact .quiet (by simp)
    · cases h
      exact .quiet (by simp)
  | ownerChecking owner =>
    simp only [hpc] at h
    split at h
    · cases h
      exact .quiet (by simp)
    · cases h
      exact .quiet (by simp)
  | ownerRemoving =>
    simp only [hpc] at h
    cases h
    exact .remove pid _ (Or.inr hpc) (Or.inr rfl)
  | dropping =>
    simp only [hpc] at h
    cases h
    exact .drop pid live hpc

theorem exec_change (h : s.exec e = some s') : Change s e s' := by
  cases e with
  | call pid call =>
    simp only [exec] at h
    split at h
    · cases call with
      | acquire =>
        cases h
        exact .quiet (by simp)
      | owner =>
        cases h
        exact .quiet (by simp)
      | drop =>
        simp only at h
        split at h
        · next holds =>
          cases h
          exact .goto _ pid .dropping (by simp) (fun _ => holds)
        · cases h
    · cases h
  | move pid =>
    simp only [exec] at h
    split at h
    · next live => exact advance_change live h
    · cases h
  | crash pid =>
    simp only [exec] at h
    split at h
    · cases h
      exact .crash pid
    · cases h

/-- A file is taken away only when nobody alive made it, and taken over only where none is.

The check before either is made on an earlier state, so nothing in the code ensures this. -/
def undisturbed (s : LockState) : LockEvent → Bool
  | .move pid =>
    match s.pc pid with
    | .removing | .ownerRemoving => s.file.all (fun inode => !s.alive (s.maker inode))
    | .creating => s.file.isNone
    | _ => true
  | _ => true

/-- Whoever holds the lock, or is about to, made the file at the path. -/
structure Exclusive (s : LockState) : Prop where
  holds : ∀ p, s.alive p = true → 0 < s.held p → ∃ inode, s.file = some inode ∧ s.maker inode = p
  writes : ∀ p inode, s.alive p = true → s.pc p = .writing inode →
    s.file = some inode ∧ s.maker inode = p ∧ s.held p = 0
  single : ∀ p, s.alive p = true → s.held p ≤ 1
  drops : ∀ p, s.alive p = true → s.pc p = .dropping → 0 < s.held p

namespace Exclusive

theorem start (h : s.Initial) : s.Exclusive where
  holds p _ pos := by simp [h.held] at pos
  writes p inode _ at_write := by simp [h.pc] at at_write
  single p _ := by simp [h.held]
  drops p _ at_drop := by simp [h.pc] at at_drop

theorem eq_of_file (inv : s.Exclusive) {p q : Pid} (hp : s.alive p = true) (hq : s.alive q = true)
    (pos : 0 < s.held p) (pos' : 0 < s.held q) : p = q := by
  obtain ⟨i, file, made⟩ := inv.holds p hp pos
  obtain ⟨j, file', made'⟩ := inv.holds q hq pos'
  have same : i = j := Option.some.inj (file.symm.trans file')
  rw [← made, ← made', same]

theorem unheld (inv : s.Exclusive) (free : ∀ inode, s.file = some inode → s.alive (s.maker inode) = false)
    {p : Pid} (live : s.alive p = true) : s.held p = 0 ∧ ∀ inode, s.pc p ≠ .writing inode := by
  constructor
  · by_contra held
    obtain ⟨inode, file, made⟩ := inv.holds p live (Nat.pos_of_ne_zero held)
    have dead := free inode file
    rw [made, live] at dead
    cases dead
  · intro inode writing
    obtain ⟨file, made, -⟩ := inv.writes p inode live writing
    have dead := free inode file
    rw [made, live] at dead
    cases dead

theorem step (inv : s.Exclusive) (change : Change s e s') (ok : s.undisturbed e = true) :
    s'.Exclusive := by
  cases change with
  | goto e pid pc not_writing dropping =>
    constructor
    · exact inv.holds
    · intro p inode live at_write
      simp only [goto, Function.update_apply] at at_write
      split at at_write
      · exact absurd at_write (not_writing inode)
      · exact inv.writes p inode live at_write
    · exact inv.single
    · intro p live at_drop
      simp only [goto, Function.update_apply] at at_drop
      split at at_drop
      · next same => exact same ▸ dropping at_drop
      · exact inv.drops p live at_drop
  | create pid free =>
    have nobody : ∀ p, s.alive p = true → _ := fun p live =>
      inv.unheld (p := p) (by simp [free]) live
    constructor
    · intro p live pos
      have none_held := (nobody p live).1
      simp only [createFresh] at pos
      omega
    · intro p inode live at_write
      simp only [createFresh, Function.update_apply] at at_write
      split at at_write
      · next same =>
        cases at_write
        exact ⟨rfl, by simp [createFresh, same], (nobody p live).1⟩
      · exact absurd at_write ((nobody p live).2 inode)
    · exact inv.single
    · intro p live at_drop
      exact inv.drops p live (of_update at_drop (by simp)).2
  | write pid inode live_pid writing =>
    obtain ⟨file, made, none_held⟩ := inv.writes pid inode live_pid writing
    constructor
    · intro p live pos
      simp only [Function.update_apply] at pos
      split at pos
      · next same => exact ⟨inode, file, same ▸ made⟩
      · exact inv.holds p live pos
    · intro p inode' live at_write
      obtain ⟨other, was⟩ := of_update at_write (by simp)
      simpa only [Function.update_of_ne other] using inv.writes p inode' live was
    · intro p live
      simp only [Function.update_apply]
      split
      · omega
      · exact inv.single p live
    · intro p live at_drop
      obtain ⟨other, was⟩ := of_update at_drop (by simp)
      simpa only [Function.update_of_ne other] using inv.drops p live was
  | remove pid pc removing next =>
    have free : ∀ inode, s.file = some inode → s.alive (s.maker inode) = false := by
      intro inode file
      rcases removing with at_remove | at_remove <;> simpa [undisturbed, at_remove, file] using ok
    constructor
    · intro p live pos
      have none_held := (inv.unheld free live).1
      simp only [removeFile, goto] at pos
      omega
    · intro p inode live at_write
      simp only [removeFile, goto, Function.update_apply] at at_write
      split at at_write
      · rcases next with rfl | rfl <;> cases at_write
      · exact absurd at_write ((inv.unheld free live).2 inode)
    · exact inv.single
    · intro p live at_drop
      simp only [removeFile, goto, Function.update_apply] at at_drop
      split at at_drop
      · rcases next with rfl | rfl <;> cases at_drop
      · exact inv.drops p live at_drop
  | truncate pid inode creating file => simp [undisturbed, creating, file] at ok
  | drop pid live_pid dropping =>
    have pos_pid := inv.drops pid live_pid dropping
    have once := inv.single pid live_pid
    obtain ⟨inode, file, made⟩ := inv.holds pid live_pid pos_pid
    constructor
    · intro p live pos
      simp only [Function.update_apply] at pos
      split at pos
      · omega
      · next other => exact absurd (inv.eq_of_file live live_pid pos pos_pid) other
    · intro p inode' live at_write
      obtain ⟨other, was⟩ := of_update at_write (by simp)
      obtain ⟨file', made', -⟩ := inv.writes p inode' live was
      rw [file] at file'
      cases file'
      exact absurd (made'.symm.trans made) other
    · intro p live
      simp only [Function.update_apply]
      split
      · omega
      · exact inv.single p live
    · intro p live at_drop
      obtain ⟨other, was⟩ := of_update at_drop (by simp)
      simpa only [Function.update_of_ne other] using inv.drops p live was
  | crash pid =>
    have was_alive : ∀ p, Function.update s.alive pid false p = true → s.alive p = true := by
      intro p live
      exact (of_update live (by simp)).2
    constructor
    · exact fun p live => inv.holds p (was_alive p live)
    · exact fun p inode live => inv.writes p inode (was_alive p live)
    · exact fun p live => inv.single p (was_alive p live)
    · exact fun p live => inv.drops p (was_alive p live)

end Exclusive

/-- The operations of one process in a row. -/
def moves (pid : Pid) (n : Nat) : List LockEvent := List.replicate n (.move pid)

/-- In a run whose takeovers disturb nobody, at most one live process holds the lock,
and a drop removes no other live process's file. -/
theorem lock_exclusive {events : List LockEvent} (init : s.Initial)
    (run : Run (Meeting (Computes exec) (fun s e => s.undisturbed e = true)) s events s') :
    (∀ p q, s'.alive p = true → s'.alive q = true → 0 < s'.held p → 0 < s'.held q → p = q) ∧
    (∀ p inode, s'.alive p = true → s'.pc p = .dropping → s'.file = some inode →
      s'.maker inode = p) := by
  have inv : s'.Exclusive := run.invariant (I := Exclusive)
    (fun step inv => inv.step (exec_change step.1) step.2) (Exclusive.start init)
  constructor
  · intro p q hp hq pos pos'
    exact inv.eq_of_file hp hq pos pos'
  · intro p inode live dropping file
    obtain ⟨inode', file', made⟩ := inv.holds p live (inv.drops p live dropping)
    rw [file] at file'
    cases file'
    exact made

/-- Everybody lives and nobody has called anything. -/
def fresh : LockState where
  file := none
  content _ := []
  maker _ := 0
  nextInode := 0
  alive _ := true
  held _ := 0
  pc _ := .idle

theorem fresh_initial : fresh.Initial := ⟨fun _ => rfl, fun _ => rfl⟩

/-- Process 1 takes the lock and dies; process 2 takes it over and goes to drop it. -/
def takeover : List LockEvent :=
  .call 1 .acquire :: moves 1 2 ++ .crash 1 :: .call 2 .acquire :: moves 2 6 ++ [.call 2 .drop]

theorem lock_exclusive_takeover : ∃ s',
    Run (Meeting (Computes exec) (fun s e => s.undisturbed e = true)) fresh takeover s' ∧
    (s'.held 2 = 1 ∧ s'.pc 2 = .dropping) ∧
    (∀ p q, s'.alive p = true → s'.alive q = true → 0 < s'.held p → 0 < s'.held q → p = q) ∧
    (∀ p inode, s'.alive p = true → s'.pc p = .dropping → s'.file = some inode →
      s'.maker inode = p) := by
  obtain ⟨s', run, reached⟩ := exists_run_of_execAll
    (guarded exec (fun s e => s.undisturbed e = true)) guarded_meeting fresh takeover
    (fun s => s.held 2 = 1 ∧ s.pc 2 = .dropping) (by decide +kernel)
  exact ⟨s', run, of_decide_eq_true reached, lock_exclusive fresh_initial run⟩

/-- Process 2 finds the file of process 1 before the id is in it. -/
def race : List LockEvent :=
  .call 1 .acquire :: .move 1 :: .call 2 .acquire :: moves 2 5 ++ [.move 1, .call 1 .drop]

theorem lock_exclusive_race : ∃ s', Run (Computes exec) fresh race s' ∧
    (s'.alive 1 = true ∧ s'.alive 2 = true ∧ s'.held 1 = 1 ∧ s'.held 2 = 1) ∧
    (s'.pc 1 = .dropping ∧ ∃ inode, s'.file = some inode ∧ s'.maker inode = 2) := by
  obtain ⟨s', run, reached⟩ := exists_run_of_execAll exec id fresh race
    (fun s => (s.alive 1 = true ∧ s.alive 2 = true ∧ s.held 1 = 1 ∧ s.held 2 = 1) ∧
      s.pc 1 = .dropping ∧ s.file = some 1 ∧ s.maker 1 = 2) (by decide +kernel)
  obtain ⟨both, dropping, file, made⟩ := of_decide_eq_true reached
  exact ⟨s', run, both, dropping, 1, file, made⟩

end LockState

end Majutsu.Repo
