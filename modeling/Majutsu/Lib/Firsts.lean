import Mathlib.Data.Finset.Card

/-!
# The first element of each of the first keys

A pass over a list that takes an element when its key is new and fewer than `limit` keys
were taken. On a list in descending order of keys it takes the first element of each of the
`limit` greatest keys.
-/

namespace Firsts

variable {α β γ : Type} [DecidableEq β] [DecidableEq γ]

/-- The elements taken once the keys `seen` have been. -/
def firsts (limit : Nat) (key : α → β) : Finset β → List α → List α
  | _, [] => []
  | seen, a :: l =>
    if seen.card < limit ∧ key a ∉ seen then a :: firsts limit key (insert (key a) seen) l
    else firsts limit key seen l

def keys (key : α → β) (l : List α) : Finset β := (l.map key).toFinset

variable {b : β} {seen met : Finset β}

@[simp] theorem mem_keys {key : α → β} {l : List α} : b ∈ keys key l ↔ ∃ a ∈ l, key a = b := by
  simp [keys]

variable {limit : Nat} {key : α → β}

/-- The set of taken keys agrees with the set of met ones for as long as it is not full. -/
structure Counts (limit : Nat) (seen met : Finset β) : Prop where
  subset : seen ⊆ met
  room : seen.card < limit → seen = met

omit [DecidableEq β] in
theorem Counts.takes_iff (counts : Counts limit seen met) (b : β) :
    seen.card < limit ∧ b ∉ seen ↔ met.card < limit ∧ b ∉ met := by
  have fewer := Finset.card_le_card counts.subset
  constructor
  · rintro ⟨room, new⟩
    rw [← counts.room room]
    exact ⟨room, new⟩
  · rintro ⟨room, new⟩
    rw [counts.room (by omega)]
    exact ⟨room, new⟩

theorem Counts.taken (counts : Counts limit seen met) (room : seen.card < limit) :
    Counts limit (insert b seen) (insert b met) :=
  ⟨Finset.insert_subset_insert b counts.subset, fun _ => by rw [counts.room room]⟩

theorem Counts.passed (counts : Counts limit seen met) (h : ¬(seen.card < limit ∧ b ∉ seen)) :
    Counts limit seen (insert b met) := by
  refine ⟨counts.subset.trans (Finset.subset_insert b met), fun room => ?_⟩
  have old : b ∈ seen := by
    by_contra new
    exact h ⟨room, new⟩
  have eq := counts.room room
  rw [← eq, Finset.insert_eq_of_mem old]

theorem mem_firsts_met (counts : Counts limit seen met) {l : List α} {a : α} :
    a ∈ firsts limit key seen l ↔ ∃ before after, l = before ++ a :: after ∧
      (met ∪ keys key before).card < limit ∧ key a ∉ met ∪ keys key before := by
  induction l generalizing seen met with
  | nil => simp [firsts]
  | cons x l ih =>
    -- The rest of the pass has met `key x` too, whether it was taken or not.
    have rest : ∀ seen', Counts limit seen' (insert (key x) met) →
        (a ∈ firsts limit key seen' l ↔ ∃ before after, l = before ++ a :: after ∧
          (met ∪ keys key (x :: before)).card < limit ∧
          key a ∉ met ∪ keys key (x :: before)) := by
      intro seen' counts'
      rw [ih counts']
      simp [keys, Finset.insert_union, Finset.union_insert]
    have cons : (∃ before after, x :: l = before ++ a :: after ∧
        (met ∪ keys key before).card < limit ∧ key a ∉ met ∪ keys key before) ↔
        (a = x ∧ met.card < limit ∧ key x ∉ met) ∨
        ∃ before after, l = before ++ a :: after ∧
          (met ∪ keys key (x :: before)).card < limit ∧
          key a ∉ met ∪ keys key (x :: before) := by
      constructor
      · rintro ⟨before, after, eq, holds⟩
        cases before with
        | nil =>
          injection eq with head
          subst head
          exact Or.inl ⟨rfl, by simpa [keys] using holds⟩
        | cons y before =>
          injection eq with head tail
          subst head
          exact Or.inr ⟨before, after, tail, holds⟩
      · rintro (⟨rfl, holds⟩ | ⟨before, after, rfl, holds⟩)
        · exact ⟨[], l, rfl, by simpa [keys] using holds⟩
        · exact ⟨x :: before, after, rfl, holds⟩
    rw [cons, firsts, ← counts.takes_iff]
    split
    · next takes =>
      rw [List.mem_cons, rest _ (counts.taken takes.1)]
      simp only [takes, not_false_eq_true, and_self, and_true]
    · next passes =>
      rw [rest _ (counts.passed passes)]
      simp only [passes, and_false, false_or]

theorem firsts_comp {g : β → γ} (inj : Set.InjOn g (Set.range key))
    (range : ∀ b ∈ seen, b ∈ Set.range key) (l : List α) :
    firsts limit (fun a => g (key a)) (seen.image g) l = firsts limit key seen l := by
  induction l generalizing seen with
  | nil => rfl
  | cons a l ih =>
    have size : (seen.image g).card = seen.card :=
      Finset.card_image_of_injOn fun b hb c hc => inj (range b hb) (range c hc)
    have new : g (key a) ∉ seen.image g ↔ key a ∉ seen := by
      rw [not_iff_not, Finset.mem_image]
      constructor
      · rintro ⟨b, mem, eq⟩
        exact inj (range b mem) ⟨a, rfl⟩ eq ▸ mem
      · exact fun mem => ⟨key a, mem, rfl⟩
    have more : ∀ b ∈ insert (key a) seen, b ∈ Set.range key := by
      intro b mem
      rcases Finset.mem_insert.1 mem with rfl | mem
      · exact ⟨a, rfl⟩
      · exact range b mem
    simp only [firsts, size, new, ← Finset.image_insert, ih more, ih range]

end Firsts

namespace Firsts

variable {α β : Type} [LinearOrder β] {limit : Nat} {key : α → β}

theorem keys_before {before after : List α} {a : α}
    (sorted : (before ++ a :: after).Pairwise fun x y => key y ≤ key x)
    (new : key a ∉ keys key before) :
    keys key before = (keys key (before ++ a :: after)).filter (key a < ·) := by
  obtain ⟨-, suffix, cross⟩ := List.pairwise_append.1 sorted
  obtain ⟨later, -⟩ := List.pairwise_cons.1 suffix
  ext b
  simp only [Finset.mem_filter, mem_keys, List.mem_append, List.mem_cons]
  constructor
  · rintro ⟨x, mem, rfl⟩
    refine ⟨⟨x, Or.inl mem, rfl⟩, lt_of_le_of_ne (cross x mem a (by simp)) fun eq => ?_⟩
    exact new (mem_keys.2 ⟨x, mem, eq.symm⟩)
  · rintro ⟨⟨x, mem | rfl | mem, rfl⟩, less⟩
    · exact ⟨x, mem, rfl⟩
    · exact absurd less (lt_irrefl _)
    · exact absurd less (later x mem).not_gt

theorem mem_firsts_iff {l : List α} (sorted : l.Pairwise fun x y => key y ≤ key x) {a : α} :
    a ∈ firsts limit key ∅ l ↔ l.find? (fun x => key x = key a) = some a ∧
      ((keys key l).filter (key a < ·)).card < limit := by
  have start : Counts limit (∅ : Finset β) ∅ := ⟨subset_rfl, fun _ => rfl⟩
  rw [mem_firsts_met start]
  constructor
  · rintro ⟨before, after, rfl, room, new⟩
    rw [Finset.empty_union] at room new
    rw [← keys_before sorted new]
    refine ⟨List.find?_eq_some_iff_append.2 ⟨by simp, before, after, rfl, fun x mem => ?_⟩, room⟩
    simpa using fun eq => new (mem_keys.2 ⟨x, mem, eq⟩)
  · rintro ⟨found, room⟩
    obtain ⟨-, before, after, rfl, differ⟩ := List.find?_eq_some_iff_append.1 found
    have new : key a ∉ keys key before := by
      rw [mem_keys]
      rintro ⟨x, mem, eq⟩
      simpa [eq] using differ x mem
    rw [← keys_before sorted new] at room
    refine ⟨before, after, rfl, ?_⟩
    rw [Finset.empty_union]
    exact ⟨room, new⟩

end Firsts
