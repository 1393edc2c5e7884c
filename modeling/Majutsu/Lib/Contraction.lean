import Majutsu.Lib.SortedMap

/-!
# Contracting chains of parents

Every node names at most one parent. Following the parents may end, may lead to a node that
is not known, and may run in a circle. Some nodes are dropped; a node that stays gets the
first node on its chain that is not dropped as its parent. Among the nodes that stay, the
ancestors are the same as before.
-/

namespace Contraction

open Relation

section Chains

variable {α : Type} (parent : α → Option α) (dropped : α → Prop)

def IsParent (a b : α) : Prop := parent b = some a

/-- The first node on a chain that is not dropped. -/
inductive First : Option α → α → Prop where
  | here {a : α} : ¬ dropped a → First (some a) a
  | next {a b : α} : dropped a → First (parent a) b → First (some a) b

/-- The nodes on a chain, its beginning included. -/
def OnChain (start : Option α) (a : α) : Prop :=
  ∃ b, start = some b ∧ ReflTransGen (IsParent parent) a b

/-- One step of a chain, away from a node that is dropped. -/
def Passes (a b : α) : Prop := dropped a ∧ parent a = some b

variable {parent dropped} {start : Option α} {a b : α}

theorem First.kept (first : First parent dropped start b) : ¬ dropped b := by
  induction first with
  | here kept => exact kept
  | next _ _ ih => exact ih

theorem First.onChain (first : First parent dropped start b) : OnChain parent start b := by
  induction first with
  | here _ => exact ⟨_, rfl, .refl⟩
  | next _ _ ih =>
    obtain ⟨c, named, reached⟩ := ih
    exact ⟨_, rfl, reached.tail named⟩

theorem first_of_not_dropped (kept : ¬ dropped a) :
    First parent dropped (some a) b ↔ a = b := by
  constructor
  · intro first
    cases first with
    | here _ => rfl
    | next drop _ => exact absurd drop kept
  · rintro rfl
    exact .here kept

theorem first_of_dropped (drop : dropped a) :
    First parent dropped (some a) b ↔ First parent dropped (parent a) b := by
  constructor
  · intro first
    cases first with
    | here kept => exact absurd drop kept
    | next _ rest => exact rest
  · exact .next drop

theorem First.not_circle (first : First parent dropped (some a) b) :
    ¬ TransGen (Passes parent dropped) a a := by
  generalize begin : some a = start at first
  induction first generalizing a with
  | here kept =>
    cases begin
    intro circle
    obtain ⟨c, ⟨drop, -⟩, -⟩ := TransGen.head'_iff.mp circle
    exact kept drop
  | next drop rest ih =>
    cases begin
    intro circle
    obtain ⟨c, step, back⟩ := TransGen.head'_iff.mp circle
    exact ih step.2.symm (TransGen.tail' back step)

theorem exists_first {link : α → α → Prop}
    (links : ∀ b c, ¬ dropped b → First parent dropped (parent b) c → link c b)
    (kept : ¬ dropped a) (above : ReflTransGen (IsParent parent) a b) :
    ∃ c, First parent dropped (some b) c ∧ ReflTransGen link a c := by
  induction above with
  | refl => exact ⟨a, .here kept, .refl⟩
  | @tail c d _ named ih =>
    obtain ⟨e, first, reached⟩ := ih
    have next : First parent dropped (parent d) e := named ▸ first
    by_cases drop : dropped d
    · exact ⟨e, .next drop next, reached⟩
    · exact ⟨d, .here drop, reached.tail (links d e drop next)⟩

theorem exists_first_iff :
    (∃ b, First parent dropped start b) ↔ ∃ a, OnChain parent start a ∧ ¬ dropped a := by
  constructor
  · rintro ⟨b, first⟩
    exact ⟨b, first.onChain, first.kept⟩
  · rintro ⟨a, ⟨b, rfl, above⟩, kept⟩
    obtain ⟨c, first, -⟩ :=
      exists_first (fun _ _ _ _ => (trivial : (fun _ _ => True) _ _)) kept above
    exact ⟨c, first⟩

variable {parent' : α → Option α}

theorem ancestor_iff (contracts : ∀ b, ¬ dropped b → ∀ a,
      parent' b = some a ↔ First parent dropped (parent b) a)
    (keptA : ¬ dropped a) (keptB : ¬ dropped b) :
    TransGen (IsParent parent') a b ↔ TransGen (IsParent parent) a b := by
  constructor
  · intro path
    induction path with
    | @single c named =>
      obtain ⟨d, first, above⟩ := ((contracts c keptB a).mp named).onChain
      exact TransGen.tail' above first
    | @tail c d _ named ih =>
      have first := (contracts d keptB c).mp named
      obtain ⟨e, begins, above⟩ := first.onChain
      exact TransGen.trans (ih first.kept) (TransGen.tail' above begins)
  · intro path
    obtain ⟨c, above, named⟩ := TransGen.tail'_iff.mp path
    obtain ⟨d, first, reached⟩ :=
      exists_first (fun b c kept => (contracts b kept c).mpr) keptA above
    exact TransGen.tail' reached ((contracts b keptB d).mpr (named ▸ first))

end Chains

section Follow

variable {κ : Type} [LinearOrder κ]

theorem length_unseen_lt {links : List (κ × Option κ)} {seen : List κ} {a : κ} {next : Option κ}
    (new : a ∉ seen) (known : SortedMap.get links a = some next) :
    (links.filter (fun link => link.1 ∉ a :: seen)).length <
      (links.filter (fun link => link.1 ∉ seen)).length := by
  have split : links.filter (fun link => link.1 ∉ a :: seen) =
      (links.filter (fun link => link.1 ∉ seen)).filter (fun link => link.1 ≠ a) := by
    rw [List.filter_filter]
    congr 1
    funext link
    simp
  have there : (SortedMap.get links a).isSome := by rw [known, Option.isSome_some]
  obtain ⟨link, inside, rfl⟩ := List.mem_map.mp (SortedMap.mem_keys.mpr there)
  rw [split, List.length_filter_lt_length_iff_exists]
  exact ⟨link, by simp [inside, new], by simp⟩

/-- Follow a chain through the nodes of a map, which gives each its parent. A node that is
met twice ends the search. -/
def follow (links : List (κ × Option κ)) (seen : List κ) : Option κ → Option κ
  | none => none
  | some a =>
    if _new : a ∈ seen then none
    else
      match _known : SortedMap.get links a with
      | some next => follow links (a :: seen) next
      | none => some a
termination_by (links.filter (fun link => link.1 ∉ seen)).length
decreasing_by exact length_unseen_lt _new _known

variable {parent : κ → Option κ} {dropped : κ → Prop} {links : List (κ × Option κ)}

/-- The map holds the dropped nodes with their parents. -/
structure Holds (links : List (κ × Option κ)) (parent : κ → Option κ) (dropped : κ → Prop) :
    Prop where
  known : ∀ a next, SortedMap.get links a = some next → dropped a ∧ parent a = next
  unknown : ∀ a, SortedMap.get links a = none → ¬ dropped a

theorem Holds.follow_from (holds : Holds links parent dropped) {seen : List κ} {start : Option κ}
    (walked : ∀ b ∈ seen, ∀ a, start = some a → TransGen (Passes parent dropped) b a) (c : κ) :
    follow links seen start = some c ↔ First parent dropped start c := by
  fun_induction follow links seen start with
  | case1 seen =>
    constructor
    · intro found
      cases found
    · intro first
      cases first
  | case2 seen a again =>
    constructor
    · intro found
      cases found
    · intro first
      exact absurd (walked a again a rfl) first.not_circle
  | case3 seen a new next known ih =>
    obtain ⟨drop, named⟩ := holds.known a next known
    rw [first_of_dropped drop, named]
    apply ih
    intro b before d following
    have step : Passes parent dropped a d := ⟨drop, named.trans following⟩
    rcases List.mem_cons.mp before with rfl | earlier
    · exact .single step
    · exact (walked b earlier a rfl).tail step
  | case4 seen a new known =>
    rw [first_of_not_dropped (holds.unknown a known), Option.some.injEq]

theorem Holds.follow_eq_some (holds : Holds links parent dropped) {start : Option κ} (c : κ) :
    follow links [] start = some c ↔ First parent dropped start c :=
  holds.follow_from (fun _ none_ => absurd none_ List.not_mem_nil) c

theorem Holds.follow_eq_none (holds : Holds links parent dropped) {start : Option κ} :
    follow links [] start = none ↔ ∀ a, OnChain parent start a → dropped a := by
  rw [← not_iff_not, ← ne_eq, Option.ne_none_iff_exists']
  simp only [holds.follow_eq_some, exists_first_iff, not_forall, exists_prop]

end Follow

end Contraction
