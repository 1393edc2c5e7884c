import Mathlib.Data.List.DropRight
import Mathlib.Data.List.Nodup

/-!
# File trees

Paths as a kernel reads them, and trees of directories, files, links and special
files. A `Place` says where something is by the names from the top directory down. A
`Path` is what a program hands over: it can go up, and it can run through links. Calls
resolve the path in the tree and then work at a place.

A tree is the list of its entries. Every entry stands in a directory, and no place has
two of them.
-/

namespace FileTree

abbrev Place := List String

inductive Step where
  | up
  /-- A dot, or the empty rest after a slash at the end. -/
  | here (dot : Bool)
  | name (text : String)
  deriving DecidableEq

structure Path where
  absolute : Bool
  steps : List Step
  deriving DecidableEq

def ValidName (name : String) : Prop :=
  name.toList ≠ [] ∧ name.toList ≠ ['.'] ∧ name.toList ≠ ['.', '.'] ∧ '/' ∉ name.toList

instance (name : String) : Decidable (ValidName name) :=
  inferInstanceAs (Decidable (_ ∧ _ ∧ _ ∧ _))

def pieceStep (piece : List Char) : Option Step :=
  if piece = [] then none
  else if piece = ['.'] then some (.here true)
  else if piece = ['.', '.'] then some .up
  else some (.name (String.ofList piece))

/-- A slash at the end of a text that has more than that. -/
def endsInSlash (pieces : List (List Char)) : Bool :=
  pieces.getLast? = some [] && pieces.any (fun piece => piece ≠ [])

def Path.parse (text : String) : Path :=
  let pieces := text.toList.splitOn '/'
  { absolute := text.toList.head? = some '/'
    steps := pieces.filterMap pieceStep ++ if endsInSlash pieces then [.here false] else [] }

/-- An absolute path replaces what stands before it, and the empty one only adds a slash. -/
def Path.join (base rest : Path) : Path :=
  if rest.absolute then rest
  else if rest.steps = [] then { base with steps := base.steps ++ [.here false] }
  else { base with steps := base.steps ++ rest.steps }

def Path.within (cwd : Place) (path : Path) : Path :=
  if path.absolute then path else ⟨true, cwd.map .name ++ path.steps⟩

/-- The parts of a path for a program that takes it apart. A dot counts at the start only. -/
inductive Component where
  | rootDir
  | curDir
  | parentDir
  | normal (name : String)
  deriving DecidableEq

/-- Whether a step leads somewhere else. -/
def Step.moves : Step → Bool
  | .here _ => false
  | _ => true

def Step.component : Step → Option Component
  | .up => some .parentDir
  | .here _ => none
  | .name text => some (.normal text)

def Path.components (path : Path) : List Component :=
  (if path.absolute then [.rootDir]
    else if path.steps.head? = some (.here true) then [.curDir] else []) ++
    path.steps.filterMap Step.component

def Path.startsWith (path base : Path) : Bool := base.components.isPrefixOf path.components

def Component.name? : Component → Option String
  | .normal name => some name
  | _ => none

/-- The names of a path that has nothing else in it. -/
def Path.names? (path : Path) : Option Place := path.components.mapM Component.name?

/-- The steps that a path has once it was taken apart and put together. -/
def Path.proper (path : Path) : List Step := path.steps.filter Step.moves

/-- The text of a relative path of names. -/
def slashText (place : Place) : String :=
  String.ofList (['/'].intercalate (place.map String.toList))

variable {names : Place} {path : Path}

inductive Node (α : Type) where
  | file (content : α)
  | dir
  | symlink (target : String)
  | special (kind : String)
  deriving DecidableEq

variable {α : Type}

/-- The top directory has no entry. -/
def lookup (entries : List (Place × Node α)) (place : Place) : Option (Node α) :=
  if place = [] then some .dir else (entries.find? (fun entry => entry.1 = place)).map Prod.snd

structure Tree (α : Type) where
  entries : List (Place × Node α)
  once : (entries.map Prod.fst).Nodup
  inside : ∀ entry ∈ entries, entry.1 ≠ [] ∧ lookup entries entry.1.dropLast = some .dir ∧
    ∀ name ∈ entry.1, ValidName name

namespace Tree

def bare : Tree α := ⟨[], List.nodup_nil, List.forall_mem_nil _⟩

variable (t : Tree α)

def get (place : Place) : Option (Node α) := lookup t.entries place

variable {t}

inductive Errno where
  | notFound
  | notDirectory
  | isDirectory
  | exists
  | notEmpty
  | loop
  | invalid
  deriving DecidableEq

/-- Follow the steps from a place. What a link met on the way stands for is handed over with
the steps that are left. -/
def walkWith (t : Tree α) (expand : Place → Path → List Step → Except Errno Place) :
    List Step → Place → Except Errno Place
  | [], place => .ok place
  | step :: rest, place =>
    match t.get place with
    | some .dir =>
      match step with
      | .up => walkWith t expand rest place.dropLast
      | .here _ => walkWith t expand rest place
      | .name text =>
        match t.get (place ++ [text]) with
        | none => .error .notFound
        | some (.symlink target) => expand place (Path.parse target) rest
        | some _ => walkWith t expand rest (place ++ [text])
    | _ => .error .notDirectory

/-- Follow the steps through at most so many links. -/
def walk (t : Tree α) : Nat → List Step → Place → Except Errno Place
  | 0 => walkWith t (fun _ _ _ => .error .loop)
  | links + 1 => walkWith t (fun place target rest =>
      walk t links (target.steps ++ rest) (if target.absolute then [] else place))

def maxLinks : Nat := 40

/-- Where a path leads, with a link at its end followed. -/
def resolve (t : Tree α) (path : Path) : Except Errno Place := t.walk maxLinks path.steps []

/-- The directory of the last name of a path, and that name. A path that ends otherwise has
none. -/
def slot (t : Tree α) (path : Path) : Except Errno (Place × String) :=
  match path.steps.getLast? with
  | some (.name text) => do
    let above ← t.walk maxLinks path.steps.dropLast []
    match t.get above with
    | some .dir => .ok (above, text)
    | _ => .error .notDirectory
  | _ => .error .exists

/-- Where a path leads, with a link at its end not followed. -/
def locate (t : Tree α) (path : Path) : Except Errno (Place × Node α) :=
  match path.steps.getLast? with
  | some (.name _) => do
    let (above, text) ← t.slot path
    match t.get (above ++ [text]) with
    | some node => .ok (above ++ [text], node)
    | none => .error .notFound
  | _ => do
    let place ← t.resolve path
    match t.get place with
    | some node => .ok (place, node)
    | none => .error .notFound

variable {steps steps' : List Step} {place : Place}

/-- What stands below a place, by the names that lead there. -/
def below (t : Tree α) (place : Place) : List (Place × Node α) :=
  t.entries.filterMap (fun entry =>
    if place.isPrefixOf entry.1 && entry.1 ≠ place then
      some (entry.1.drop place.length, entry.2)
    else none)

theorem mem_of_get {t : Tree α} {node : Node α} (nonempty : place ≠ [])
    (found : t.get place = some node) : (place, node) ∈ t.entries := by
  rw [get, lookup, if_neg nonempty] at found
  obtain ⟨entry, first, rfl⟩ := Option.map_eq_some_iff.mp found
  have named := List.find?_some first
  rw [decide_eq_true_eq] at named
  rw [← named]
  exact List.mem_of_find?_eq_some first

theorem get_of_mem {t : Tree α} {node : Node α} (member : (place, node) ∈ t.entries) :
    t.get place = some node := by
  have nonempty : place ≠ [] := (t.inside _ member).1
  obtain ⟨entry, first⟩ : ∃ entry, t.entries.find? (fun entry => entry.1 = place) = some entry := by
    rw [← Option.isSome_iff_exists, List.find?_isSome]
    exact ⟨_, member, decide_eq_true rfl⟩
  have named := List.find?_some first
  rw [decide_eq_true_eq] at named
  have same := List.inj_on_of_nodup_map t.once (List.mem_of_find?_eq_some first) member named
  rw [get, lookup, if_neg nonempty, first, same, Option.map_some]

theorem mem_below {t : Tree α} {names : Place} {node : Node α} :
    (names, node) ∈ t.below place ↔ names ≠ [] ∧ t.get (place ++ names) = some node := by
  constructor
  · intro h
    obtain ⟨⟨whole, other⟩, inside, cut⟩ := List.mem_filterMap.mp h
    split at cut
    · next lower =>
      cases cut
      simp only [Bool.and_eq_true, List.isPrefixOf_iff_prefix, decide_eq_true_eq] at lower
      obtain ⟨⟨rest, rfl⟩, longer⟩ := lower
      rw [List.drop_left]
      exact ⟨fun none => longer (by rw [none, List.append_nil]), get_of_mem inside⟩
    · cases cut
  · rintro ⟨nonempty, found⟩
    have longer : place ++ names ≠ [] := by simp [nonempty]
    refine List.mem_filterMap.mpr ⟨_, mem_of_get longer found, ?_⟩
    rw [if_pos (by simp [nonempty]), List.drop_left]

/-- What has entries below it is a directory. -/
theorem dir_of_get {t : Tree α} {names : Place} {node : Node α} (nonempty : names ≠ [])
    (found : t.get (place ++ names) = some node) : t.get place = some .dir := by
  induction names using List.reverseRecOn generalizing node with
  | nil => exact absurd rfl nonempty
  | append_singleton names last ih =>
    have above := (t.inside _ (mem_of_get (by simp) found)).2.1
    rw [← List.append_assoc, List.dropLast_concat] at above
    cases names with
    | nil => rwa [List.append_nil] at above
    | cons first rest => exact ih (List.cons_ne_nil first rest) above

end Tree

end FileTree
