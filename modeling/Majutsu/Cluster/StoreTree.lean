import Majutsu.Cluster.Keys
import Majutsu.Lib.Directory

/-!
# The master store as a file tree

The store keeps every payload in a file whose path is the key, so a key that is
also the directory of another key cannot hold a payload. Both kinds of entry
are recorded: `files` with their contents and `dirs` without. The fields that
follow say that no path is both, that every entry hangs in a directory, and
that a file system holds fewer than 2^64 bytes; an operation that would break
one of them is an error of the file system.
-/

namespace Majutsu.Cluster

/-- The directories above a key, the outermost first. -/
def ancestors (key : Key) : List Key :=
  (key.toList.inits.filter (fun a => (a ++ ['/']).isPrefixOf key.toList)).map String.ofList

theorem mem_ancestors {a key : Key} : a ∈ ancestors key ↔ a.toList ++ ['/'] <+: key.toList := by
  simp only [ancestors, List.mem_map, List.mem_filter, List.mem_inits, List.isPrefixOf_iff_prefix]
  constructor
  · rintro ⟨l, ⟨_, hl⟩, rfl⟩
    simpa using hl
  · intro h
    exact ⟨a.toList, ⟨(List.prefix_append _ _).trans h, h⟩, by simp⟩

theorem ancestors_trans {a b c : Key} (hab : a ∈ ancestors b) (hbc : b ∈ ancestors c) :
    a ∈ ancestors c := by
  rw [mem_ancestors] at *
  exact hab.trans ((List.prefix_append _ _).trans hbc)

theorem ne_of_mem_ancestors {a key : Key} (h : a ∈ ancestors key) : a ≠ key := by
  rintro rfl
  have := (mem_ancestors.mp h).length_le
  simp at this

structure Store where
  files : Directory Key Bytes
  dirs : Finset Key
  apart : ∀ p ∈ dirs, p ∉ files
  rooted : ∀ p, p ∈ files ∨ p ∈ dirs → ∀ a ∈ ancestors p, a ∈ dirs
  fits : Directory.total List.length files < 2 ^ 64

namespace Store

def empty : Store where
  files := ∅
  dirs := ∅
  apart p h := absurd h (Finset.notMem_empty p)
  rooted := by
    rintro p (h | h)
    · exact absurd h Finmap.notMem_empty
    · exact absurd h (Finset.notMem_empty p)
  fits := Nat.two_pow_pos 64

/-- `path.exists()`, true of files and directories alike. -/
def has (s : Store) (key : Key) : Bool := (s.files.lookup key).isSome || decide (key ∈ s.dirs)

/-- `fs::read`, with a missing file reported as absence. Reading a directory is an error. -/
def getOptional (s : Store) (key : Key) : Except Failure (Option Bytes) :=
  match validateSlashRelativeKey key with
  | .error e => .error e
  | .ok _ => if key ∈ s.dirs then .error .io else .ok (s.files.lookup key)

def get (s : Store) (key : Key) : Except Failure Bytes :=
  match s.getOptional key with
  | .error e => .error e
  | .ok none => .error .io
  | .ok (some bytes) => .ok bytes

/-- `fs::create_dir`; an entry that exists already is left alone. -/
def createDir (s : Store) (path : Key) : Except Failure Store :=
  if present : s.has path = true then .ok s
  else if parents : ∀ a ∈ ancestors path, a ∈ s.dirs then
    .ok
      { files := s.files
        dirs := insert path s.dirs
        apart := by
          intro p hp
          simp only [has, Bool.or_eq_true, decide_eq_true_eq, not_or, Bool.not_eq_true,
            Option.isSome_eq_false_iff, Option.isNone_iff_eq_none] at present
          rcases Finset.mem_insert.mp hp with rfl | hp
          · exact Finmap.lookup_eq_none.mp present.1
          · exact s.apart p hp
        rooted := by
          rintro p (hp | hp) a ha
          · exact Finset.mem_insert_of_mem (s.rooted p (Or.inl hp) a ha)
          · rcases Finset.mem_insert.mp hp with rfl | hp
            · exact Finset.mem_insert_of_mem (parents a ha)
            · exact Finset.mem_insert_of_mem (s.rooted p (Or.inr hp) a ha)
        fits := s.fits }
  else .error .io

/-- An atomic write of the file together with the directories above it. -/
def writeFile (s : Store) (key : Key) (bytes : Bytes) : Except Failure Store :=
  if isDir : key ∈ s.dirs then .error (.message ("restore target is a directory: " ++ key))
  else if room : (∀ a ∈ ancestors key, a ∉ s.files) ∧
      Directory.total List.length (s.files.insert key bytes) < 2 ^ 64 then
    .ok
      { files := s.files.insert key bytes
        dirs := s.dirs ∪ (ancestors key).toFinset
        apart := by
          intro p hp
          rw [Finmap.mem_insert]
          rcases Finset.mem_union.mp hp with hd | ha
          · rintro (rfl | hf)
            · exact isDir hd
            · exact s.apart p hd hf
          · have ha := List.mem_toFinset.mp ha
            rintro (rfl | hf)
            · exact ne_of_mem_ancestors ha rfl
            · exact room.1 p ha hf
        rooted := by
          intro p hp a ha
          rw [Finmap.mem_insert, Finset.mem_union] at hp
          rw [Finset.mem_union]
          rcases hp with (rfl | hp) | hp | hp
          · exact Or.inr (List.mem_toFinset.mpr ha)
          · exact Or.inl (s.rooted p (Or.inl hp) a ha)
          · exact Or.inl (s.rooted p (Or.inr hp) a ha)
          · exact Or.inr (List.mem_toFinset.mpr (ancestors_trans ha (List.mem_toFinset.mp hp)))
        fits := room.2 }
  else .error .io

def put (s : Store) (key : Key) (bytes : Bytes) : Except Failure Store :=
  match validateSlashRelativeKey key with
  | .error e => .error e
  | .ok _ => s.writeFile key bytes

/-- Publishing through a hard link: an entry that exists already wins. -/
def putIfAbsent (s : Store) (key : Key) (bytes : Bytes) : Except Failure (Bool × Store) :=
  match validateSlashRelativeKey key with
  | .error e => .error e
  | .ok _ =>
    if s.has key then .ok (false, s)
    else match s.writeFile key bytes with
      | .error e => .error e
      | .ok s' => .ok (true, s')

def delete (s : Store) (key : Key) : Except Failure Store :=
  match validateSlashRelativeKey key with
  | .error e => .error e
  | .ok _ =>
    if key ∈ s.dirs then .error .io
    else .ok
      { files := s.files.erase key
        dirs := s.dirs
        apart := fun p hp hf => s.apart p hp (Finmap.mem_erase.mp hf).2
        rooted := fun p hp => s.rooted p (hp.imp_left (fun hf => (Finmap.mem_erase.mp hf).2))
        fits := by
          have := Directory.total_erase List.length s.files key
          have := s.fits
          omega }

/-- Payload bytes of all files together. -/
def bytes (s : Store) : Nat := Directory.total List.length s.files

variable {s s' : Store} {key : Key} {bytes : Bytes}

theorem notMem_dirs_of_lookup (h : s.files.lookup key = some bytes) : key ∉ s.dirs :=
  fun hd => s.apart key hd (Finmap.mem_of_lookup_eq_some h)

theorem getOptional_ok {found : Option Bytes} (h : s.getOptional key = .ok found) :
    found = s.files.lookup key ∧ key ∉ s.dirs := by
  unfold getOptional at h
  split at h
  · cases h
  · split at h
    · cases h
    · next hd =>
      cases h
      exact ⟨rfl, hd⟩

theorem get_ok (h : s.get key = .ok bytes) : s.files.lookup key = some bytes := by
  unfold get at h
  split at h
  · cases h
  · cases h
  · next heq =>
    cases h
    exact (getOptional_ok heq).1.symm

theorem has_eq_false (h : s.has key = false) : s.files.lookup key = none ∧ key ∉ s.dirs := by
  simpa [has] using h

theorem createDir_files {path : Key} (h : s.createDir path = .ok s') : s'.files = s.files := by
  unfold createDir at h
  split at h
  · cases h; rfl
  · split at h
    · cases h; rfl
    · cases h

theorem createDir_dirs {path p : Key} (h : s.createDir path = .ok s') (hp : p ∈ s'.dirs)
    (other : p ≠ path) : p ∈ s.dirs := by
  unfold createDir at h
  split at h
  · cases h; exact hp
  · split at h
    · cases h
      exact (Finset.mem_insert.mp hp).resolve_left other
    · cases h

theorem writeFile_files (h : s.writeFile key bytes = .ok s') :
    s'.files = s.files.insert key bytes := by
  unfold writeFile at h
  split at h
  · cases h
  · split at h
    · cases h; rfl
    · cases h

theorem put_files (h : s.put key bytes = .ok s') : s'.files = s.files.insert key bytes := by
  unfold put at h
  split at h
  · cases h
  · exact writeFile_files h

theorem putIfAbsent_files {stored : Bool} (h : s.putIfAbsent key bytes = .ok (stored, s')) :
    (stored = true ∧ s.files.lookup key = none ∧ s'.files = s.files.insert key bytes) ∨
      (stored = false ∧ s' = s ∧ s.has key = true) := by
  unfold putIfAbsent at h
  split at h
  · cases h
  · split at h
    · next there =>
      cases h
      exact Or.inr ⟨rfl, rfl, there⟩
    · next absent =>
      split at h
      · cases h
      · next heq =>
        cases h
        exact Or.inl ⟨rfl, (has_eq_false (by simpa using absent)).1, writeFile_files heq⟩

theorem delete_files (h : s.delete key = .ok s') :
    s'.files = s.files.erase key ∧ s'.dirs = s.dirs := by
  unfold delete at h
  split at h
  · cases h
  · split at h
    · cases h
    · cases h; exact ⟨rfl, rfl⟩

end Store

end Majutsu.Cluster
