import Majutsu.Remote.FileRemote
import Majutsu.Lib.Trying

/-!
# Conditional puts of one object

Many callers put one absent object at the same time, and each of them may be lost at any
step. Where hard links work for every call the link decides; where they work for none, the
lock file. Each caller chooses its own way by how its link ended, though: where links work
for some calls only, a caller that holds the lock and has seen no object renames its file
over the object that another one has linked in the meantime.
-/

namespace Majutsu.Remote

open Cluster
open Prog

/-- The temporary name of a call, and the pieces of its content. -/
structure ConditionalPut where
  uuid : String
  pieces : List Bytes

namespace ConditionalPut

def tmp (key : String) (c : ConditionalPut) : String := fileRemoteTmpPath key c.uuid

def content (c : ConditionalPut) : Bytes := c.pieces.flatten

end ConditionalPut

/-- The conditional puts of one object. A new UUID is one that was not used before. -/
def conditionalPuts (support : LinkSupport) (key : String) :
    Pool.System FileStep.Answer FileWorld ConditionalPut (Except Failure Bool) where
  program c := fileRemotePutIfAbsentAtomic (c.tmp key) key (c.tmp key) c.pieces
  does := FileStep.Does support
  begins c s s' := c.tmp key ∉ s.temps ∧ s.names (c.tmp key) = none ∧
    s' = { s with temps := c.tmp key :: s.temps }
  returns c r s s' :=
    s' = if r = .ok true then { s with wins := (c.tmp key, c.content) :: s.wins } else s
  moves _ _ := False

abbrev PutCalls : Type :=
  Pool.State FileStep.Answer FileWorld ConditionalPut (Except Failure Bool)

/-- A directory in which the object is absent, before any of the calls. -/
structure FileWorld.Before (key : String) (s : FileWorld) : Prop where
  absent : s.names key = none
  bounded : ∀ path file, s.names path = some file → file < s.next
  noTemps : s.temps = []
  noWins : s.wins = []

/-- In a directory where links work for some calls only, a link is not tried while the
lock file is there and the object is not. -/
def LinksApart (support : LinkSupport) (key : String) (s : FileWorld) (step : FileStep) : Prop :=
  ∀ source, step.op = .hardLink source key → support = .mixed →
    s.names (fileRemoteLockPath key) = none ∨ s.names key ≠ none

/-- The condition on the steps of a run. -/
def Unmixed (support : LinkSupport) (key : String) (calls : PutCalls) :
    Pool.Event FileStep ConditionalPut → Prop
  | .act _ step => LinksApart support key calls.shared step
  | _ => True

/-- The files that exist are numbered below `next`, and who has won has the object. -/
structure Orderly (key : String) (s : FileWorld) : Prop where
  bounded : ∀ path file, s.names path = some file → file < s.next
  won : ∀ win ∈ s.wins, win.1 ∈ s.temps ∧
    ∃ file, s.names key = some file ∧ s.creator file = win.1 ∧ s.data file = win.2
  once : s.wins.length ≤ 1

def Locked (key tmp : String) (s : FileWorld) : Prop :=
  ∃ file, s.names (fileRemoteLockPath key) = some file ∧ file < s.next ∧ s.creator file = tmp

/-- What an action of the call with the given temporary name does at most. -/
structure Acts (support : LinkSupport) (key tmp : String) (a b : FileWorld) : Prop where
  orderly : Orderly key a → Orderly key b
  next : a.next ≤ b.next
  creator : ∀ file, file < a.next → b.creator file = a.creator file
  elsewhere : ∀ path, path ≠ tmp → path ≠ key → path ≠ fileRemoteLockPath key →
    b.names path = a.names path
  kept : ∀ file, a.names key = some file → b.names key = some file ∧ b.data file = a.data file
  lock : b.names (fileRemoteLockPath key) = a.names (fileRemoteLockPath key) ∨
    a.names (fileRemoteLockPath key) = none ∨ Locked key tmp a
  publishes : ∀ file, a.names key = none → b.names key = some file → b.creator file = tmp ∧
    (support ≠ .always → Locked key tmp a ∨ a.names (fileRemoteLockPath key) = none)
  data : ∀ file, file < a.next → b.data file = a.data file ∨ a.creator file = tmp
  temps : b.temps = a.temps
  wins : b.wins = a.wins

/-- What the call with the given temporary name may rely on. -/
structure Leaves (support : LinkSupport) (key tmp : String) (a b : FileWorld) : Prop where
  orderly : Orderly key a → Orderly key b
  next : a.next ≤ b.next
  creator : ∀ file, file < a.next → b.creator file = a.creator file
  mine : b.names tmp = a.names tmp
  kept : ∀ file, a.names key = some file → b.names key = some file ∧ b.data file = a.data file
  lock : Locked key tmp a →
    b.names (fileRemoteLockPath key) = a.names (fileRemoteLockPath key) ∧
      (support ≠ .always → a.names key = none → b.names key = none)
  publishes : ∀ file, a.names key = none → b.names key = some file → b.creator file ≠ tmp
  data : ∀ file, file < a.next → a.creator file = tmp → b.data file = a.data file
  temps : tmp ∈ a.temps → tmp ∈ b.temps
  unwon : (∀ win ∈ a.wins, win.1 ≠ tmp) → ∀ win ∈ b.wins, win.1 ≠ tmp

section Actions

variable {support : LinkSupport} {key tmp other : String} {a b : FileWorld}

structure Own (key tmp : String) : Prop where
  ne_key : tmp ≠ key
  ne_lock : tmp ≠ fileRemoteLockPath key

theorem ConditionalPut.own (key : String) (c : ConditionalPut) : Own key (c.tmp key) :=
  ⟨beside_ne key _, fileRemoteTmpPath_ne_lock key c.uuid⟩

theorem fileRemoteLockPath_ne (key : String) : fileRemoteLockPath key ≠ key := beside_ne key _

theorem Locked.unique (mine : Locked key tmp a) (theirs : Locked key other a) : tmp = other := by
  obtain ⟨file, lock, -, rfl⟩ := mine
  obtain ⟨same, lock', -, rfl⟩ := theirs
  rw [Option.some.inj (lock.symm.trans lock')]

theorem Acts.leaves (acts : Acts support key tmp a b) (own : Own key other)
    (apart : tmp ≠ other) : Leaves support key other a b where
  orderly := acts.orderly
  next := acts.next
  creator := acts.creator
  mine := acts.elsewhere other (Ne.symm apart) own.ne_key own.ne_lock
  kept := acts.kept
  lock := by
    intro held
    have there : a.names (fileRemoteLockPath key) ≠ none := by
      obtain ⟨file, lock, -⟩ := held
      rw [lock]
      exact Option.some_ne_none file
    have foreign : ¬Locked key tmp a := fun mine => apart (mine.unique held)
    refine ⟨?_, fun unsure absent => ?_⟩
    · obtain same | gone | mine := acts.lock
      · exact same
      · exact absurd gone there
      · exact absurd mine foreign
    · cases published : b.names key with
      | none => rfl
      | some file =>
        obtain mine | gone := (acts.publishes file absent published).2 unsure
        · exact absurd mine foreign
        · exact absurd gone there
  publishes file absent published := by
    rw [(acts.publishes file absent published).1]
    exact apart
  data file old mine := by
    obtain same | theirs := acts.data file old
    · exact same
    · exact absurd (theirs.symm.trans mine) apart
  temps chosen := by rwa [acts.temps]
  unwon before := by rwa [acts.wins]

theorem Acts.refl : Acts support key tmp a a where
  orderly := id
  next := Nat.le_refl _
  creator _ _ := rfl
  elsewhere _ _ _ _ := rfl
  kept _ there := ⟨there, rfl⟩
  lock := Or.inl rfl
  publishes _ absent there := nomatch absent.symm.trans there
  data _ _ := Or.inl rfl
  temps := rfl
  wins := rfl

theorem Acts.aside (orderly : Orderly key a) (own : Own key tmp) (next : a.next ≤ b.next)
    (creator : ∀ file, file < a.next → b.creator file = a.creator file)
    (names : ∀ path, path ≠ tmp → path ≠ fileRemoteLockPath key → b.names path = a.names path)
    (bounded : ∀ path file, b.names path = some file → file < b.next)
    (lock : b.names (fileRemoteLockPath key) = a.names (fileRemoteLockPath key) ∨
      a.names (fileRemoteLockPath key) = none ∨ Locked key tmp a)
    (object : ∀ file, a.names key = some file → b.data file = a.data file)
    (data : ∀ file, file < a.next → b.data file = a.data file ∨ a.creator file = tmp)
    (temps : b.temps = a.temps) (wins : b.wins = a.wins) : Acts support key tmp a b := by
  have same : b.names key = a.names key := names key own.ne_key.symm (fileRemoteLockPath_ne key).symm
  refine ⟨fun _ => ⟨bounded, ?_, ?_⟩, next, creator, ?_, ?_, lock, ?_, data, temps, wins⟩
  · intro win mem
    rw [wins] at mem
    obtain ⟨chosen, file, there, creates, content⟩ := orderly.won win mem
    rw [temps, same]
    refine ⟨chosen, file, there, ?_, ?_⟩
    · rw [creator file (orderly.bounded key file there), creates]
    · rw [object file there, content]
  · rw [wins]
    exact orderly.once
  · exact fun path mine _ lock => names path mine lock
  · exact fun file there => ⟨same.trans there, object file there⟩
  · intro file absent there
    rw [same, absent] at there
    cases there

theorem Acts.created (orderly : Orderly key a) (own : Own key tmp) {path : String}
    (mine : path = tmp ∨ path = fileRemoteLockPath key) (free : a.names path = none) :
    Acts support key tmp a (a.created tmp path) := by
  have older : ∀ file, file < a.next → file ≠ a.next := fun _ old => Nat.ne_of_lt old
  refine .aside orderly own (Nat.le_succ _) ?_ ?_ ?_ ?_ ?_ ?_ rfl rfl
  · exact fun file old => Function.update_of_ne (older file old) _ _
  · intro other temp lock
    refine Function.update_of_ne ?_ _ _
    rintro rfl
    exact mine.elim temp lock
  · intro other file there
    by_cases same : other = path
    · rw [same, FileWorld.names_created, Function.update_self] at there
      cases there
      exact Nat.lt_succ_self _
    · rw [FileWorld.names_created, Function.update_of_ne same] at there
      exact Nat.lt_succ_of_lt (orderly.bounded other file there)
  · by_cases same : fileRemoteLockPath key = path
    · exact Or.inr (Or.inl (same ▸ free))
    · rw [FileWorld.names_created, Function.update_of_ne same]
      exact Or.inl rfl
  · exact fun file there =>
      Function.update_of_ne (older file (orderly.bounded key file there)) _ _
  · exact fun file old => Or.inl (Function.update_of_ne (older file old) _ _)

theorem Acts.appended (orderly : Orderly key a) (own : Own key tmp) {file : Nat} (bytes : Bytes)
    (mine : a.creator file = tmp) (unpublished : a.names key ≠ some file) :
    Acts support key tmp a (a.appended file bytes) := by
  refine .aside orderly own (Nat.le_refl _) (fun _ _ => rfl) (fun _ _ _ => rfl) orderly.bounded
    (Or.inl rfl) ?_ ?_ rfl rfl
  · intro object there
    refine Function.update_of_ne ?_ _ _
    rintro rfl
    exact unpublished there
  · intro other _
    by_cases same : other = file
    · exact Or.inr (same ▸ mine)
    · exact Or.inl (Function.update_of_ne same _ _)

theorem Acts.removed (orderly : Orderly key a) (own : Own key tmp) {path : String}
    (mine : path = tmp ∨ path = fileRemoteLockPath key ∧ Locked key tmp a) :
    Acts support key tmp a (a.removed path) := by
  refine .aside orderly own (Nat.le_refl _) (fun _ _ => rfl) ?_ ?_ ?_ (fun _ _ => rfl)
    (fun _ _ => Or.inl rfl) rfl rfl
  · intro other temp lock
    refine Function.update_of_ne ?_ _ _
    rintro rfl
    exact mine.elim temp fun held => lock held.1
  · intro other file there
    by_cases same : other = path
    · rw [same, FileWorld.names_removed, Function.update_self] at there
      cases there
    · rw [FileWorld.names_removed, Function.update_of_ne same] at there
      exact orderly.bounded other file there
  · obtain temp | held := mine
    · rw [FileWorld.names_removed, temp, Function.update_of_ne own.ne_lock.symm]
      exact Or.inl rfl
    · exact Or.inr (Or.inr held.2)

theorem Acts.publish (orderly : Orderly key a) (own : Own key tmp) {names : String → Option Nat}
    (others : ∀ path, path ≠ tmp → names path = a.names path)
    (mine : names tmp = a.names tmp ∨ names tmp = none) {file : Nat} (old : file < a.next)
    (creator : a.creator file = tmp) (absent : a.names key = none)
    (excluded : support ≠ .always → Locked key tmp a ∨ a.names (fileRemoteLockPath key) = none) :
    Acts support key tmp a ({ a with names := names }.linked key file) := by
  have nobody : a.wins = [] := by
    refine List.eq_nil_iff_forall_not_mem.mpr fun win mem => ?_
    obtain ⟨-, _, there, -⟩ := orderly.won win mem
    cases absent.symm.trans there
  have elsewhere : ∀ path, path ≠ tmp → path ≠ key →
      Function.update names key (some file) path = a.names path := by
    intro path temp object
    rw [Function.update_of_ne object, others path temp]
  refine ⟨fun _ => ⟨?_, ?_, ?_⟩, Nat.le_refl _, fun _ _ => rfl,
    fun path temp object _ => elsewhere path temp object, ?_, Or.inl ?_, ?_, fun _ _ => Or.inl rfl,
    rfl, rfl⟩
  · intro path other there
    have before : path = key ∧ other = file ∨ a.names path = some other := by
      rw [FileWorld.names_linked] at there
      by_cases object : path = key
      · rw [object, Function.update_self] at there
        exact Or.inl ⟨object, (Option.some.inj there).symm⟩
      · by_cases temp : path = tmp
        · rw [Function.update_of_ne object, temp] at there
          obtain same | gone := mine
          · exact Or.inr (temp ▸ same.symm.trans there)
          · cases gone.symm.trans there
        · exact Or.inr ((elsewhere path temp object).symm.trans there)
    obtain ⟨-, rfl⟩ | there := before
    · exact old
    · exact orderly.bounded path other there
  · intro win mem
    have none_ : win ∈ ([] : List (String × Bytes)) := nobody ▸ mem
    exact absurd none_ List.not_mem_nil
  · exact orderly.once
  · intro other there
    cases absent.symm.trans there
  · rw [FileWorld.names_linked]
    exact elsewhere _ own.ne_lock.symm (fileRemoteLockPath_ne key)
  · intro other _ there
    rw [FileWorld.names_linked, Function.update_self] at there
    obtain rfl := Option.some.inj there
    exact ⟨creator, excluded⟩

end Actions

structure Mine (key tmp : String) (s : FileWorld) : Prop where
  orderly : Orderly key s
  chosen : tmp ∈ s.temps
  unwon : ∀ win ∈ s.wins, win.1 ≠ tmp

/-- The temporary file with its content so far. -/
structure Staged (key tmp : String) (file : Nat) (content : Bytes) (s : FileWorld) : Prop where
  name : s.names tmp = some file
  old : file < s.next
  creator : s.creator file = tmp
  data : s.data file = content
  unpublished : s.names key ≠ some file

def Won (key tmp : String) (content : Bytes) (s : FileWorld) : Prop :=
  ∃ file, s.names key = some file ∧ file < s.next ∧ s.creator file = tmp ∧ s.data file = content

/-- What the result of a call says. -/
def Outcome (key tmp : String) (content : Bytes) : Bool → FileWorld → Prop
  | true, s => Won key tmp content s
  | false, s => s.names key ≠ none

section Stability

variable {support : LinkSupport} {key tmp : String} {file : Nat} {content : Bytes}
  {a b : FileWorld}

theorem Acts.mine (acts : Acts support key tmp a b) (mine : Mine key tmp a) : Mine key tmp b :=
  ⟨acts.orderly mine.orderly, acts.temps ▸ mine.chosen, acts.wins ▸ mine.unwon⟩

theorem stable_mine : Stable (Leaves support key tmp) (Mine key tmp) :=
  fun _ _ leaves mine =>
    ⟨leaves.orderly mine.orderly, leaves.temps mine.chosen, leaves.unwon mine.unwon⟩

theorem stable_free : Stable (Leaves support key tmp) fun s => s.names tmp = none :=
  fun _ _ leaves free => leaves.mine.trans free

theorem stable_staged : Stable (Leaves support key tmp) (Staged key tmp file content) := by
  intro a b leaves staged
  have mine : b.creator file = tmp := (leaves.creator file staged.old).trans staged.creator
  refine ⟨leaves.mine.trans staged.name, Nat.lt_of_lt_of_le staged.old leaves.next, mine,
    (leaves.data file staged.old staged.creator).trans staged.data, fun published => ?_⟩
  cases before : a.names key with
  | none => exact leaves.publishes file before published mine
  | some object =>
    have same := (leaves.kept object before).1.symm.trans published
    exact staged.unpublished (before.trans same)

theorem stable_locked : Stable (Leaves support key tmp) (Locked key tmp) := by
  rintro a b leaves ⟨file, lock, old, creator⟩
  have same := (leaves.lock ⟨file, lock, old, creator⟩).1
  exact ⟨file, same.trans lock, Nat.lt_of_lt_of_le old leaves.next,
    (leaves.creator file old).trans creator⟩

theorem stable_clear (unsure : support ≠ .always) :
    Stable (Leaves support key tmp) fun s => Locked key tmp s ∧ s.names key = none :=
  fun a b leaves before => ⟨stable_locked a b leaves before.1,
    (leaves.lock before.1).2 unsure before.2⟩

theorem Outcome.kept {result : Bool} (outcome : Outcome key tmp content result a)
    (next : a.next ≤ b.next) (creator : ∀ file, file < a.next → b.creator file = a.creator file)
    (kept : ∀ file, a.names key = some file →
      b.names key = some file ∧ b.data file = a.data file) :
    Outcome key tmp content result b := by
  cases result with
  | true =>
    obtain ⟨file, there, old, mine, data⟩ := outcome
    obtain ⟨still, same⟩ := kept file there
    exact ⟨file, still, Nat.lt_of_lt_of_le old next, (creator file old).trans mine,
      same.trans data⟩
  | false =>
    obtain ⟨file, there⟩ := Option.ne_none_iff_exists'.mp outcome
    intro gone
    cases gone.symm.trans (kept file there).1

theorem stable_outcome {result : Bool} :
    Stable (Leaves support key tmp) (Outcome key tmp content result) :=
  fun _ _ leaves outcome => outcome.kept leaves.next leaves.creator leaves.kept

theorem Acts.outcome {result : Bool} (acts : Acts support key tmp a b)
    (before : Outcome key tmp content result a) : Outcome key tmp content result b :=
  before.kept acts.next acts.creator acts.kept

end Stability

section Programs

variable {support : LinkSupport} {key tmp : String} {file : Nat} {content : Bytes} {α : Type}
  {P E : FileWorld → Prop} {Q : α → FileWorld → Prop}

/-- A part of a call, under what the other calls leave to it. -/
abbrev Trying (support : LinkSupport) (key tmp : String) (P : FileWorld → Prop)
    (p : FileProgram α) (Q : α → FileWorld → Prop) (E : FileWorld → Prop) : Prop :=
  Tries (fun l s o s' => FileStep.Does support l s o s' ∧ LinksApart support key s l)
    (Leaves support key tmp) (fun _ => Acts support key tmp) (Mine key tmp) P p Q E

theorem Trying.act {op : FileOp} {next : op.Answer → Prog FileStep.Answer (Except Failure α)}
    (result : op.Answer → Except Failure α) (returns : ∀ r, next r = .ret (result r))
    (stableP : Stable (Leaves support key tmp) P)
    (stableQ : ∀ a, Stable (Leaves support key tmp) (Q a))
    (stableE : Stable (Leaves support key tmp) E)
    (acts : ∀ s o s', Mine key tmp s → P s → op.Does support tmp s o s' →
      LinksApart support key s ⟨tmp, op⟩ →
      Acts support key tmp s s' ∧ ∀ r, o = some r → Either Q E (result r) s') :
    Trying support key tmp P (.act ⟨tmp, op⟩ next) Q E := by
  refine Tries.act result returns stable_mine stableP stableQ stableE ?_
  intro s o s' mine before does
  obtain ⟨moved, post⟩ := acts s o s' mine before does.1 does.2
  exact ⟨moved, fun r eq => ⟨moved.mine mine, post r eq⟩⟩

theorem Trying.quiet {op : FileOp} {next : op.Answer → Prog FileStep.Answer (Except Failure α)}
    (result : op.Answer → Except Failure α) (returns : ∀ r, next r = .ret (result r))
    (silent : ∀ s o s', op.Does support tmp s o s' → s' = s)
    (stableP : Stable (Leaves support key tmp) P) (stableE : Stable (Leaves support key tmp) E)
    (error : ∀ s, P s → E s) :
    Trying support key tmp P (.act ⟨tmp, op⟩ next) (fun _ => P) E := by
  refine .act result returns stableP (fun _ => stableP) stableE ?_
  intro s o s' _ before does _
  obtain rfl := silent s o s' does
  refine ⟨.refl, fun r _ => ?_⟩
  cases result r with
  | ok _ => exact before
  | error _ => exact error s' before

variable {path : String}

theorem syncParentDir_tries (stableP : Stable (Leaves support key tmp) P)
    (stableE : Stable (Leaves support key tmp) E) (error : ∀ s, P s → E s) :
    Trying support key tmp P (syncParentDir tmp path) (fun _ => P) E :=
  .quiet (fun r => r) (fun _ => rfl) (fun _ _ _ => id) stableP stableE error

theorem pathExists_tries (stableP : Stable (Leaves support key tmp) P) {Q : Bool → FileWorld → Prop}
    (stableQ : ∀ there, Stable (Leaves support key tmp) (Q there))
    (stableE : Stable (Leaves support key tmp) E) (post : ∀ s, P s → Q (s.names path).isSome s) :
    Trying support key tmp P (pathExists tmp path) Q E := by
  refine .act .ok (fun _ => rfl) stableP stableQ stableE ?_
  rintro s _ _ - before ⟨rfl, rfl⟩ -
  refine ⟨.refl, ?_⟩
  rintro _ ⟨⟩
  exact post _ before

theorem removeFile_tries (own : Own key tmp) (stableP : Stable (Leaves support key tmp) P)
    {Q : FileWorld → Prop} (stableQ : Stable (Leaves support key tmp) Q)
    (stableE : Stable (Leaves support key tmp) E)
    (mine : ∀ s, P s → path = tmp ∨ path = fileRemoteLockPath key ∧ Locked key tmp s)
    (post : ∀ s, P s → Acts support key tmp s (s.removed path) → Q (s.removed path))
    (error : ∀ s, P s → E s) : Trying support key tmp P (removeFile tmp path) (fun _ => Q) E := by
  refine .act (fun r => r) (fun _ => rfl) stableP (fun _ => stableQ) stableE ?_
  rintro s _ _ safe before (⟨rfl, rfl⟩ | ⟨e, rfl, rfl⟩) -
  · have acts : Acts support key tmp s (s.removed path) :=
      .removed safe.orderly own (mine s before)
    refine ⟨acts, ?_⟩
    rintro _ ⟨⟩
    exact post s before acts
  · refine ⟨.refl, ?_⟩
    rintro _ ⟨⟩
    exact error _ before

theorem removeTemp_tries (own : Own key tmp) {result : Bool} :
    Trying support key tmp (Outcome key tmp content result) (removeFile tmp tmp)
      (fun _ => Outcome key tmp content result) fun _ => True :=
  removeFile_tries own stable_outcome stable_outcome stable_true (fun _ _ => Or.inl rfl)
    (fun _ before acts => acts.outcome before) fun _ _ => trivial

theorem createNew_tries (own : Own key tmp) (mine : path = tmp ∨ path = fileRemoteLockPath key)
    (stableP : Stable (Leaves support key tmp) P) {Q : Nat → FileWorld → Prop}
    (stableQ : ∀ file, Stable (Leaves support key tmp) (Q file))
    (stableE : Stable (Leaves support key tmp) E)
    (post : ∀ s, Mine key tmp s → P s → s.names path = none → Q s.next (s.created tmp path)) :
    Trying support key tmp P (createNew tmp path)
      (fun answer s => match answer with
        | .ok file => Q file s
        | .error _ => P s) E := by
  refine .act .ok (fun _ => rfl) stableP ?_ stableE ?_
  · intro answer
    cases answer with
    | ok file => exact stableQ file
    | error e => exact stableP
  · rintro s _ _ safe before (⟨free, rfl, rfl⟩ | ⟨-, rfl, rfl⟩ | ⟨rfl, rfl⟩) -
    · refine ⟨.created safe.orderly own mine free, ?_⟩
      rintro _ ⟨⟩
      exact post s safe before free
    all_goals
      refine ⟨.refl, ?_⟩
      rintro _ ⟨⟩
      exact before

theorem writeContents_tries (own : Own key tmp) (pieces : List Bytes) :
    Trying support key tmp (Staged key tmp file content) (writeContents tmp file pieces)
      (fun _ => Staged key tmp file (content ++ pieces.flatten)) fun _ => True := by
  induction pieces generalizing content with
  | nil =>
    refine Tries.pure stable_mine stable_staged fun s _ staged => ?_
    rwa [List.flatten_nil, List.append_nil]
  | cons piece rest ih =>
    have written : Trying support key tmp (Staged key tmp file content) (writeFile tmp file piece)
        (fun _ => Staged key tmp file (content ++ piece)) fun _ => True := by
      refine .act (fun r => r) (fun _ => rfl) stable_staged (fun _ => stable_staged) stable_true ?_
      rintro s o _ safe staged ⟨done, -, rfl, whole⟩ -
      refine ⟨.appended safe.orderly own done staged.creator staged.unpublished, ?_⟩
      rintro (e | ⟨⟩) rfl
      · trivial
      · obtain rfl := whole rfl
        refine ⟨staged.name, staged.old, staged.creator, ?_, staged.unpublished⟩
        exact (Function.update_self _ _ _).trans (by rw [staged.data])
    refine Tries.bind stable_mine stable_true written fun _ => ?_
    rw [List.flatten_cons, ← List.append_assoc]
    exact ih

theorem publishLocked_tries (own : Own key tmp) (unsure : support ≠ .always) :
    Trying support key tmp (fun s => Staged key tmp file content s ∧ Locked key tmp s)
      (publishLocked tmp key tmp)
      (fun result s => Outcome key tmp content result s ∧ Locked key tmp s) (Locked key tmp) := by
  have stableQ : ∀ result, Stable (Leaves support key tmp)
      (fun s => Outcome key tmp content result s ∧ Locked key tmp s) := fun _ =>
    stable_outcome.and stable_locked
  -- what the check finds, with the staged file if it finds no object
  let Seen : Bool → FileWorld → Prop := fun there s => match there with
    | true => Outcome key tmp content false s ∧ Locked key tmp s
    | false => Staged key tmp file content s ∧ Locked key tmp s ∧ s.names key = none
  have stableSeen : ∀ there, Stable (Leaves support key tmp) (Seen there) := by
    intro there
    cases there with
    | true => exact stableQ false
    | false => exact stable_staged.and (stable_clear unsure)
  refine Tries.bind stable_mine stable_locked
    (pathExists_tries (stable_staged.and stable_locked) stableSeen stable_locked ?_) fun there => ?_
  · intro s before
    cases object : s.names key with
    | none => exact ⟨before.1, before.2, object⟩
    | some _ => exact ⟨fun gone => (nomatch object.symm.trans gone), before.2⟩
  cases there with
  | true =>
    refine Tries.bind stable_mine stable_locked (removeFile_tries own (stableQ false)
      (stableQ false) stable_locked (fun _ _ => Or.inl rfl) ?_ fun _ => And.right)
      fun _ => Tries.pure stable_mine (stableQ false) fun _ _ => id
    rintro s ⟨outcome, file, lock, old, creator⟩ acts
    refine ⟨acts.outcome outcome, file, ?_, old, creator⟩
    rw [FileWorld.names_removed, Function.update_of_ne own.ne_lock.symm]
    exact lock
  | false =>
    have renamed : Trying support key tmp (Seen false) (renameFile tmp tmp key)
        (fun _ s => Outcome key tmp content true s ∧ Locked key tmp s) (Locked key tmp) := by
      refine .act (fun r => r) (fun _ => rfl) (stableSeen false) (fun _ => stableQ true)
        stable_locked ?_
      rintro s _ _ safe ⟨staged, held, absent⟩ (⟨source, named, rfl, rfl⟩ | ⟨e, rfl, rfl⟩) -
      · obtain rfl := Option.some.inj (staged.name.symm.trans named)
        refine ⟨.publish safe.orderly own (fun path ne => Function.update_of_ne ne _ _)
          (Or.inr (Function.update_self _ _ _)) staged.old staged.creator absent
          fun _ => Or.inl held, ?_⟩
        rintro _ ⟨⟩
        refine ⟨⟨file, Function.update_self _ _ _, staged.old, staged.creator, staged.data⟩, ?_⟩
        obtain ⟨lock, there, old, creator⟩ := held
        refine ⟨lock, ?_, old, creator⟩
        rw [FileWorld.names_linked, Function.update_of_ne (fileRemoteLockPath_ne key),
          FileWorld.names_removed, Function.update_of_ne own.ne_lock.symm]
        exact there
      · refine ⟨.refl, ?_⟩
        rintro _ ⟨⟩
        exact held
    refine Tries.bind stable_mine stable_locked renamed fun _ => ?_
    refine Tries.bind stable_mine stable_locked
      (syncParentDir_tries (stableQ true) stable_locked fun _ => And.right) fun _ => ?_
    exact Tries.pure stable_mine (stableQ true) fun _ _ => id

/-- What is left when the holder of the lock is done. -/
def Settled (key tmp : String) (content : Bytes) (result : Except Failure Bool) (s : FileWorld) :
    Prop :=
  ∀ published, result = .ok published → Outcome key tmp content published s

theorem stable_settled {result : Except Failure Bool} :
    Stable (Leaves support key tmp) (Settled key tmp content result) :=
  fun a b leaves before published eq => stable_outcome a b leaves (before published eq)

theorem fileRemotePutIfAbsentWithLock_tries (own : Own key tmp) (unsure : support ≠ .always)
    (retries : Nat) :
    Trying support key tmp (Staged key tmp file content)
      (fileRemotePutIfAbsentWithLock tmp key tmp retries) (Outcome key tmp content)
      fun _ => True := by
  induction retries with
  | zero => exact Tries.fail stable_mine stable_staged fun _ _ _ => trivial
  | succ left ih =>
    have stableH : Stable (Leaves support key tmp) (fun s => Staged key tmp file content s ∧
        Locked key tmp s) := stable_staged.and stable_locked
    refine Tries.bind stable_mine stable_true (createNew_tries own (Or.inr rfl) stable_staged
      (fun _ => stableH) stable_true ?_) fun answer => ?_
    · -- the new lock file is another file than the staged one
      intro s safe staged free
      refine ⟨⟨?_, Nat.lt_succ_of_lt staged.old, ?_, ?_, ?_⟩, s.next, ?_, Nat.lt_succ_self _,
        Function.update_self _ _ _⟩
      · rw [FileWorld.names_created, Function.update_of_ne own.ne_lock]
        exact staged.name
      · exact (Function.update_of_ne (Nat.ne_of_lt staged.old) _ _).trans staged.creator
      · exact (Function.update_of_ne (Nat.ne_of_lt staged.old) _ _).trans staged.data
      · rw [FileWorld.names_created, Function.update_of_ne (fileRemoteLockPath_ne key).symm]
        exact staged.unpublished
      · rw [FileWorld.names_created, Function.update_self]
    match answer with
    | .ok lock =>
      refine Tries.bind stable_mine stable_true (publishLocked_tries own unsure).outcome
        fun result => ?_
      have finished : Trying support key tmp
          (fun s => Settled key tmp content result s ∧ Locked key tmp s)
          (removeFile tmp (fileRemoteLockPath key)) (fun _ => Settled key tmp content result)
          (Settled key tmp content result) :=
        removeFile_tries own (stable_settled.and stable_locked)
          stable_settled stable_settled (fun _ before => Or.inr ⟨rfl, before.2⟩)
          (fun _ before acts published eq => acts.outcome (before.1 published eq))
          fun _ => And.left
      refine Tries.bind stable_mine stable_true
        (finished.ignored.conseq ?_ (fun _ _ => id) fun _ => id) fun _ => ?_
      · intro s _ before
        cases result with
        | ok published =>
          refine ⟨?_, before.2⟩
          rintro _ ⟨⟩
          exact before.1
        | error e => exact ⟨nofun, before⟩
      cases result with
      | ok published =>
        exact Tries.pure stable_mine stable_settled fun s _ settled => settled published rfl
      | error e => exact Tries.fail stable_mine stable_settled fun _ _ _ => trivial
    | .error .alreadyExists =>
      let Seen : Bool → FileWorld → Prop := fun there s => match there with
        | true => Outcome key tmp content false s
        | false => Staged key tmp file content s
      have stableSeen : ∀ there, Stable (Leaves support key tmp) (Seen there) := by
        intro there
        cases there with
        | true => exact stable_outcome
        | false => exact stable_staged
      refine Tries.bind stable_mine stable_true
        (pathExists_tries stable_staged stableSeen stable_true ?_) fun there => ?_
      · intro s staged
        cases object : s.names key with
        | none => exact staged
        | some _ => exact fun gone => nomatch object.symm.trans gone
      cases there with
      | true =>
        exact Tries.bind stable_mine stable_true (removeTemp_tries own) fun _ =>
          Tries.pure stable_mine stable_outcome fun _ _ => id
      | false => exact ih
    | .error .other => exact Tries.fail stable_mine stable_staged fun _ _ _ => trivial

variable (support key tmp file content) in
/-- What the answer of the link means. -/
abbrev Linked : Except OpenError Unit → FileWorld → Prop
  | .ok _ => Outcome key tmp content true
  | .error .alreadyExists => Outcome key tmp content false
  | .error .other => fun s => support ≠ .always ∧ Staged key tmp file content s

theorem stable_linked (answer : Except OpenError Unit) :
    Stable (Leaves support key tmp) (Linked support key tmp file content answer) := by
  rcases answer with (_ | _) | _
  · exact stable_outcome
  · exact fun a b leaves before => ⟨before.1, stable_staged a b leaves before.2⟩
  · exact stable_outcome

theorem publishIfAbsent_tries (own : Own key tmp) :
    Trying support key tmp (Staged key tmp file content) (publishIfAbsent tmp key tmp)
      (Outcome key tmp content) fun _ => True := by
  have linked : Trying support key tmp (Staged key tmp file content) (hardLink tmp tmp key)
      (Linked support key tmp file content) fun _ => True := by
    refine .act .ok (fun _ => rfl) stable_staged stable_linked stable_true ?_
    rintro s _ _ safe staged
      (⟨works, absent, rfl, source, named, rfl⟩ | ⟨there, rfl, rfl⟩ | ⟨failed, rfl, rfl⟩) apart
    · obtain rfl := Option.some.inj (staged.name.symm.trans named)
      have excluded : support ≠ .always →
          Locked key tmp s ∨ s.names (fileRemoteLockPath key) = none := by
        intro unsure
        have mixed : support = .mixed := by
          cases support with
          | always => exact absurd rfl unsure
          | never => exact absurd rfl works
          | mixed => rfl
        exact Or.inr ((apart tmp rfl mixed).resolve_right fun there => there absent)
      refine ⟨.publish safe.orderly own (fun _ _ => rfl) (Or.inl rfl) staged.old staged.creator
        absent excluded, ?_⟩
      rintro _ ⟨⟩
      exact ⟨file, Function.update_self _ _ _, staged.old, staged.creator, staged.data⟩
    · refine ⟨.refl, ?_⟩
      rintro _ ⟨⟩
      exact there
    · refine ⟨.refl, ?_⟩
      rintro _ ⟨⟩
      refine ⟨failed.resolve_right fun gone => ?_, staged⟩
      cases gone.symm.trans staged.name
  refine Tries.bind stable_mine stable_true linked fun answer => ?_
  rcases answer with (_ | _) | _
  · exact Tries.bind stable_mine stable_true (removeTemp_tries own) fun _ =>
      Tries.pure stable_mine stable_outcome fun _ _ => id
  · intro s mine before
    exact fileRemotePutIfAbsentWithLock_tries own before.1 _ s mine before.2
  · refine Tries.bind stable_mine stable_true (removeTemp_tries own) fun _ => ?_
    refine Tries.bind stable_mine stable_true
      (syncParentDir_tries stable_outcome stable_true fun _ _ => trivial) fun _ => ?_
    exact Tries.pure stable_mine stable_outcome fun _ _ => id

theorem orRemove_tries (own : Own key tmp) {rest : FileProgram α}
    (stableQ : ∀ a, Stable (Leaves support key tmp) (Q a))
    (tries : Trying support key tmp P rest Q fun _ => True) :
    Trying support key tmp P (orRemove tmp tmp rest) Q fun _ => True := by
  refine Tries.bind stable_mine stable_true tries.outcome fun result => ?_
  cases result with
  | ok a => exact Tries.pure stable_mine (stableQ a) fun _ _ => id
  | error e =>
    have cleaned : Trying support key tmp (fun _ => True) (removeFile tmp tmp) (fun _ _ => True)
        fun _ => True :=
      removeFile_tries own stable_true stable_true stable_true (fun _ _ => Or.inl rfl)
        (fun _ _ _ => trivial) fun _ _ => trivial
    exact Tries.bind stable_mine stable_true cleaned.ignored fun _ =>
      Tries.fail stable_mine stable_true fun _ _ _ => trivial

theorem fileRemotePutIfAbsentAtomic_tries (own : Own key tmp) (pieces : List Bytes) :
    Trying support key tmp (fun s => s.names tmp = none)
      (fileRemotePutIfAbsentAtomic tmp key tmp pieces) (Outcome key tmp pieces.flatten)
      fun _ => True := by
  refine Tries.bind stable_mine stable_true
    (Trying.quiet (fun r => r) (fun _ => rfl) (fun _ _ _ => id) stable_free stable_true
      fun _ _ => trivial) fun _ => ?_
  refine Tries.bind stable_mine stable_true (createNew_tries own (Or.inl rfl) stable_free
    (Q := fun file => Staged key tmp file []) (fun _ => stable_staged) stable_true ?_)
    fun answer => ?_
  · intro s safe _ _
    refine ⟨?_, Nat.lt_succ_self _, Function.update_self _ _ _, Function.update_self _ _ _, ?_⟩
    · rw [FileWorld.names_created, Function.update_self]
    · rw [FileWorld.names_created, Function.update_of_ne own.ne_key.symm]
      intro there
      exact Nat.lt_irrefl _ (safe.orderly.bounded key _ there)
  match answer with
  | .error _ => exact Tries.fail stable_mine stable_free fun _ _ _ => trivial
  | .ok file =>
    refine orRemove_tries own (fun _ => stable_outcome) ?_
    refine Tries.bind stable_mine stable_true (writeContents_tries own pieces) fun _ => ?_
    refine Tries.bind stable_mine stable_true
      (Trying.quiet (fun r => r) (fun _ => rfl) (fun _ _ _ => id) stable_staged stable_true
        fun _ _ => trivial) fun _ => ?_
    exact publishIfAbsent_tries own

end Programs

end Majutsu.Remote
