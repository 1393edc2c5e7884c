import Mathlib.Data.List.Dedup
import Mathlib.Data.List.Perm.Basic

/-!
# Reports on regions

Some keys have an item to report. A list reports on a region of keys when it has
the items of those keys, each once, and nothing else. Lists for disjoint regions
are put together to one for their union, which is how a recursive search reports
on everything below a point.
-/

/-- No item is the item of two keys. -/
def Separate {κ γ : Type} (item : κ → Option γ) : Prop :=
  ∀ {k k' c}, item k = some c → item k' = some c → k = k'

structure Reports {κ γ : Type} (item : κ → Option γ) (region : κ → Prop) (reported : List γ) :
    Prop where
  once : reported.Nodup
  mem_iff : ∀ c, c ∈ reported ↔ ∃ k, region k ∧ item k = some c

namespace Reports

variable {ι κ γ : Type} {item : κ → Option γ} {region other : κ → Prop} {reported more : List γ}

theorem nil (quiet : ∀ k, region k → item k = none) : Reports item region [] := by
  refine ⟨List.nodup_nil, ?_⟩
  intro c
  constructor
  · intro member
    cases member
  · rintro ⟨k, inside, found⟩
    rw [quiet k inside] at found
    cases found

theorem extend (reports : Reports item region reported) (larger : ∀ k, region k → other k)
    (quiet : ∀ k, other k → ¬ region k → item k = none) : Reports item other reported := by
  refine ⟨reports.once, ?_⟩
  intro c
  rw [reports.mem_iff]
  constructor
  · rintro ⟨k, inside, found⟩
    exact ⟨k, larger k inside, found⟩
  · rintro ⟨k, inside, found⟩
    refine ⟨k, ?_, found⟩
    by_contra outside
    rw [quiet k inside outside] at found
    cases found

theorem append (separate : Separate item) (first : Reports item region reported)
    (second : Reports item other more) (disjoint : ∀ k, region k → ¬ other k) :
    Reports item (fun k => region k ∨ other k) (reported ++ more) := by
  constructor
  · refine List.nodup_append.mpr ⟨first.once, second.once, ?_⟩
    rintro c left c' right rfl
    obtain ⟨k, inside, found⟩ := (first.mem_iff c).mp left
    obtain ⟨k', inside', found'⟩ := (second.mem_iff c).mp right
    obtain rfl := separate found found'
    exact disjoint k inside inside'
  · intro c
    rw [List.mem_append, first.mem_iff, second.mem_iff]
    constructor
    · rintro (⟨k, inside, found⟩ | ⟨k, inside, found⟩)
      · exact ⟨k, Or.inl inside, found⟩
      · exact ⟨k, Or.inr inside, found⟩
    · rintro ⟨k, inside | inside, found⟩
      · exact Or.inl ⟨k, inside, found⟩
      · exact Or.inr ⟨k, inside, found⟩

theorem flatMap (separate : Separate item) {parts : List ι} (once : parts.Nodup)
    {regions : ι → κ → Prop} {reports : ι → List γ}
    (each : ∀ i ∈ parts, Reports item (regions i) (reports i))
    (disjoint : ∀ i ∈ parts, ∀ j ∈ parts, ∀ k, regions i k → regions j k → i = j) :
    Reports item (fun k => ∃ i ∈ parts, regions i k) (parts.flatMap reports) := by
  induction parts with
  | nil => exact nil (fun k ⟨i, inside, _⟩ => by cases inside)
  | cons i rest ih =>
    rw [List.nodup_cons] at once
    have later := ih once.2 (fun j inside => each j (List.mem_cons_of_mem i inside))
      (fun j inside j' inside' => disjoint j (List.mem_cons_of_mem i inside) j'
        (List.mem_cons_of_mem i inside'))
    have both := (each i List.mem_cons_self).append separate later (by
      rintro k here ⟨j, inside, there⟩
      have same := disjoint i List.mem_cons_self j (List.mem_cons_of_mem i inside) k here there
      exact once.1 (same ▸ inside))
    rw [List.flatMap_cons]
    refine both.extend ?_ ?_
    · rintro k (here | ⟨j, inside, there⟩)
      · exact ⟨i, List.mem_cons_self, here⟩
      · exact ⟨j, List.mem_cons_of_mem i inside, there⟩
    · rintro k ⟨j, inside, there⟩ outside
      exfalso
      rcases List.mem_cons.mp inside with rfl | inside
      · exact outside (Or.inl there)
      · exact outside (Or.inr ⟨j, inside, there⟩)

theorem filterMap (separate : Separate item) {keys : List κ} (once : keys.Nodup) :
    Reports item (fun k => k ∈ keys) (keys.filterMap item) := by
  constructor
  · apply once.filterMap
    intro k k' c found found'
    exact separate found found'
  · intro c
    rw [List.mem_filterMap]

theorem perm (first : Reports item region reported) (second : Reports item region more) :
    reported.Perm more := by
  rw [List.perm_ext_iff_of_nodup first.once second.once]
  intro c
  rw [first.mem_iff, second.mem_iff]

end Reports
