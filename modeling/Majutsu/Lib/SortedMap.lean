import Mathlib.Data.List.Induction
import Mathlib.Data.List.Sort
import Mathlib.Data.Prod.Lex
import Mathlib.Data.String.Basic

/-!
# Maps in the order of their keys

A map kept as the list of its entries, smallest key first. Two such maps that give the
same values are the same list, so what a loop leaves behind is known from its lookups.
-/

namespace SortedMap

variable {κ α : Type} [LinearOrder κ]

def get (entries : List (κ × α)) (key : κ) : Option α :=
  (entries.find? (fun entry => entry.1 = key)).map Prod.snd

def insert (key : κ) (value : α) : List (κ × α) → List (κ × α)
  | [] => [(key, value)]
  | entry :: rest =>
    if key < entry.1 then (key, value) :: entry :: rest
    else if key = entry.1 then (key, value) :: rest
    else entry :: insert key value rest

def erase (key : κ) (entries : List (κ × α)) : List (κ × α) :=
  entries.filter (fun entry => entry.1 ≠ key)

def values (entries : List (κ × α)) : List α := entries.map Prod.snd

def Sorted (entries : List (κ × α)) : Prop := entries.Pairwise (fun a b => a.1 < b.1)

variable {entries : List (κ × α)} {key : κ} {β : Type} {value : α} {entry : κ × α}

theorem mem_keys : key ∈ entries.map Prod.fst ↔ (get entries key).isSome := by
  rw [get, Option.isSome_map, List.find?_isSome, List.mem_map]
  simp

@[simp]
theorem get_nil (key : κ) : get ([] : List (κ × α)) key = none := rfl

theorem get_cons (entry : κ × α) (rest : List (κ × α)) (key : κ) :
    get (entry :: rest) key = if entry.1 = key then some entry.2 else get rest key := by
  unfold get
  rw [List.find?_cons]
  by_cases same : entry.1 = key
  · simp [same]
  · simp [same]

theorem get_insert (key : κ) (value : α) (entries : List (κ × α)) (other : κ) :
    get (insert key value entries) other = if key = other then some value else get entries other := by
  fun_induction insert key value entries with
  | case1 => rw [get_cons]
  | case2 entry rest before => rw [get_cons]
  | case3 entry rest before same =>
    rw [get_cons, get_cons, ← same]
    by_cases here : key = other
    · simp [here]
    · simp [here]
  | case4 entry rest before same ih =>
    rw [get_cons, get_cons, ih]
    by_cases here : entry.1 = other
    · have ne : key ≠ other := fun eq => same (eq.trans here.symm)
      simp [here, ne]
    · simp [here]

theorem get_foldl_insert_eq_some (key : β → κ) (value : β → α) {items : List β}
    (distinct : (items.map key).Nodup) {k : κ} {v : α} :
    get (items.foldl (fun entries item => insert (key item) (value item) entries) []) k = some v ↔
      ∃ item ∈ items, key item = k ∧ value item = v := by
  induction items using List.reverseRecOn with
  | nil => simp
  | append_singleton items item ih =>
    rw [List.map_append, List.nodup_append] at distinct
    obtain ⟨earlier, -, apart⟩ := distinct
    rw [List.foldl_append, List.foldl_cons, List.foldl_nil, get_insert]
    by_cases same : key item = k
    · have others : ∀ other ∈ items, key other ≠ k := by
        intro other inside
        rw [← same]
        exact apart _ (List.mem_map_of_mem inside) _ (by simp)
      simp only [if_pos same, Option.some.injEq, List.mem_append, List.mem_singleton]
      constructor
      · intro found
        exact ⟨item, .inr rfl, same, found⟩
      · rintro ⟨other, inside | rfl, name, found⟩
        · exact absurd name (others other inside)
        · exact found
    · rw [if_neg same, ih earlier]
      constructor
      · rintro ⟨other, inside, name, found⟩
        exact ⟨other, List.mem_append_left _ inside, name, found⟩
      · rintro ⟨other, inside, name, found⟩
        rcases List.mem_append.mp inside with before | last
        · exact ⟨other, before, name, found⟩
        · exact absurd (List.mem_singleton.mp last ▸ name) same

theorem insert_perm (absent : get entries key = none) :
    (insert key value entries).Perm ((key, value) :: entries) := by
  fun_induction insert key value entries with
  | case1 => exact .refl _
  | case2 entry rest before => exact .refl _
  | case3 entry rest before same => simp [get_cons, same] at absent
  | case4 entry rest before same ih =>
    rw [get_cons, if_neg (Ne.symm same)] at absent
    exact ((ih absent).cons entry).trans (.swap _ _ _)

theorem foldl_insert_perm (key : β → κ) (value : β → α) {items : List β}
    (distinct : (items.map key).Nodup) :
    (items.foldl (fun entries item => insert (key item) (value item) entries) []).Perm
      (items.map (fun item => (key item, value item))) := by
  induction items using List.reverseRecOn with
  | nil => exact .nil
  | append_singleton items item ih =>
    rw [List.map_append, List.nodup_append] at distinct
    obtain ⟨earlier, -, apart⟩ := distinct
    have absent : get (items.foldl (fun entries item => insert (key item) (value item) entries) [])
        (key item) = none := by
      rw [Option.eq_none_iff_forall_ne_some]
      intro v found
      obtain ⟨other, inside, same, -⟩ := (get_foldl_insert_eq_some key value earlier).mp found
      exact apart _ (List.mem_map_of_mem inside) _ (by simp) same
    rw [List.foldl_append, List.foldl_cons, List.foldl_nil, List.map_append]
    exact ((insert_perm absent).trans ((ih earlier).cons _)).trans
      (List.perm_append_singleton _ _).symm

theorem get_erase (key : κ) (entries : List (κ × α)) (other : κ) :
    get (erase key entries) other = if key = other then none else get entries other := by
  induction entries with
  | nil => simp [erase]
  | cons entry rest ih =>
    unfold erase at ih ⊢
    by_cases kept : entry.1 = key
    · rw [List.filter_cons_of_neg (by simp [kept]), ih, get_cons, kept]
      by_cases here : key = other
      · simp [here]
      · simp [here]
    · rw [List.filter_cons_of_pos (by simp [kept]), get_cons, ih, get_cons]
      by_cases here : entry.1 = other
      · have ne : key ≠ other := fun eq => kept (here.trans eq.symm)
        simp [here, ne]
      · simp [here]

theorem mem_insert (h : entry ∈ insert key value entries) :
    entry = (key, value) ∨ entry ∈ entries := by
  fun_induction insert key value entries with
  | case1 => exact Or.inl (List.mem_singleton.mp h)
  | case2 first rest before => exact List.mem_cons.mp h
  | case3 first rest before same =>
    exact (List.mem_cons.mp h).imp id (List.mem_cons_of_mem first)
  | case4 first rest before same ih =>
    rcases List.mem_cons.mp h with rfl | later
    · exact Or.inr List.mem_cons_self
    · exact (ih later).imp id (List.mem_cons_of_mem first)

theorem mem_insert_self (key : κ) (value : α) (entries : List (κ × α)) :
    (key, value) ∈ insert key value entries := by
  fun_induction insert key value entries with
  | case1 | case2 | case3 => exact List.mem_cons_self
  | case4 first rest before same ih => exact List.mem_cons_of_mem first ih

theorem Sorted.insert (sorted : Sorted entries) (key : κ) (value : α) :
    Sorted (insert key value entries) := by
  fun_induction SortedMap.insert key value entries with
  | case1 => exact List.pairwise_singleton _ _
  | case2 entry rest before =>
    refine List.pairwise_cons.mpr ⟨?_, sorted⟩
    intro other inside
    rcases List.mem_cons.mp inside with rfl | later
    · exact before
    · exact before.trans ((List.pairwise_cons.mp sorted).1 other later)
  | case3 entry rest before same =>
    obtain ⟨first, tail⟩ := List.pairwise_cons.mp sorted
    exact List.pairwise_cons.mpr ⟨fun other later => same ▸ first other later, tail⟩
  | case4 entry rest before same ih =>
    obtain ⟨first, tail⟩ := List.pairwise_cons.mp sorted
    refine List.pairwise_cons.mpr ⟨?_, ih tail⟩
    intro other inside
    rcases mem_insert inside with rfl | later
    · exact lt_of_le_of_ne (not_lt.mp before) (Ne.symm same)
    · exact first other later

theorem Sorted.erase (sorted : Sorted entries) (key : κ) : Sorted (erase key entries) :=
  sorted.filter _

theorem Sorted.get_eq_some (sorted : Sorted entries) :
    get entries key = some value ↔ (key, value) ∈ entries := by
  induction entries with
  | nil => simp
  | cons entry rest ih =>
    obtain ⟨first, tail⟩ := List.pairwise_cons.mp sorted
    rw [get_cons, List.mem_cons]
    by_cases here : entry.1 = key
    · rw [if_pos here, Option.some.injEq]
      constructor
      · intro same
        exact Or.inl (by rw [← here, ← same])
      · rintro (same | later)
        · rw [← same]
        · exact absurd (first _ later) (here ▸ lt_irrefl entry.1)
    · rw [if_neg here, ih tail]
      refine ⟨Or.inr, ?_⟩
      rintro (same | later)
      · exact absurd (congrArg Prod.fst same).symm here
      · exact later

theorem Sorted.tail {rest : List (κ × α)} (sorted : Sorted (entry :: rest)) : Sorted rest :=
  (List.pairwise_cons.mp sorted).2

theorem Sorted.get_tail {rest : List (κ × α)} (sorted : Sorted (entry :: rest)) :
    get rest entry.1 = none := by
  cases found : get rest entry.1 with
  | none => rfl
  | some value =>
    have again := (List.pairwise_cons.mp sorted).1 _ (sorted.tail.get_eq_some.mp found)
    exact absurd again (lt_irrefl entry.1)

theorem Sorted.get_filterMap (f : κ → α → Option β) (sorted : Sorted entries) (key : κ) :
    get (entries.filterMap (fun entry => (f entry.1 entry.2).map (Prod.mk entry.1))) key =
      (get entries key).bind (f key) := by
  induction entries with
  | nil => rfl
  | cons entry rest ih =>
    rw [List.filterMap_cons, get_cons]
    by_cases here : entry.1 = key
    · subst here
      rw [if_pos rfl, Option.bind_some]
      cases made : f entry.1 entry.2 with
      | none => rw [Option.map_none, ih sorted.tail, sorted.get_tail, Option.bind_none]
      | some value => simp [get_cons]
    · rw [if_neg here, ← ih sorted.tail]
      cases f entry.1 entry.2 with
      | none => rfl
      | some value => simp [get_cons, here]

theorem get_mapWithKey (f : κ → α → β) (entries : List (κ × α)) (key : κ) :
    get (entries.map (fun entry => (entry.1, f entry.1 entry.2))) key =
      (get entries key).map (f key) := by
  induction entries with
  | nil => rfl
  | cons entry rest ih =>
    rw [List.map_cons, get_cons, get_cons, ih]
    by_cases here : entry.1 = key
    · simp [here]
    · simp [here]

theorem Sorted.mapWithKey (f : κ → α → β) (sorted : Sorted entries) :
    Sorted (entries.map (fun entry => (entry.1, f entry.1 entry.2))) :=
  List.pairwise_map.mpr sorted

theorem Sorted.flatMap_of_key (sorted : Sorted entries) {f : κ → α → List β}
    (others : ∀ other value, other ≠ key → f other value = []) :
    entries.flatMap (fun entry => f entry.1 entry.2) = ((get entries key).map (f key)).getD [] := by
  induction entries with
  | nil => rfl
  | cons entry rest ih =>
    rw [List.flatMap_cons, ih sorted.tail, get_cons]
    by_cases here : entry.1 = key
    · subst here
      simp [sorted.get_tail]
    · rw [if_neg here, others _ _ here, List.nil_append]

end SortedMap

namespace Sorting

theorem filterMap_of_single {α β : Type} {l : List α} (once : l.Nodup) {f : α → Option β} {a : α}
    (others : ∀ b ∈ l, b ≠ a → f b = none) (outside : a ∉ l → f a = none) :
    l.filterMap f = (f a).toList := by
  induction l with
  | nil => simp [outside]
  | cons b l ih =>
    obtain ⟨fresh, once⟩ := List.nodup_cons.mp once
    by_cases here : b = a
    · subst here
      have rest : l.filterMap f = [] := by
        rw [List.filterMap_eq_nil_iff]
        intro c inside
        exact others c (List.mem_cons_of_mem b inside) (fun same => fresh (same ▸ inside))
      rw [List.filterMap_cons, rest]
      cases f b with
      | none => rfl
      | some made => rfl
    · rw [List.filterMap_cons, others b List.mem_cons_self here]
      apply ih once
      · exact fun c inside => others c (List.mem_cons_of_mem b inside)
      · exact fun out => outside (by simp [out, Ne.symm here])

variable {α : Type} {r : α → α → Prop} [DecidableRel r]

theorem orderedInsert_append_of_last {a : α} {l l' : List α} (last : ∀ b ∈ l, ¬ r a b) :
    (l ++ l').orderedInsert r a = l ++ l'.orderedInsert r a := by
  induction l with
  | nil => rfl
  | cons b l ih =>
    rw [List.cons_append, List.orderedInsert, if_neg (last b List.mem_cons_self),
      ih (fun c inside => last c (List.mem_cons_of_mem b inside)), List.cons_append]

theorem insertionSort_append_of_last {l l' : List α} (last : ∀ a ∈ l, ∀ b ∈ l', ¬ r a b) :
    (l ++ l').insertionSort r = l'.insertionSort r ++ l.insertionSort r := by
  induction l with
  | nil => simp
  | cons a l ih =>
    rw [List.cons_append, List.insertionSort_cons, List.insertionSort_cons,
      ih (fun c inside => last c (List.mem_cons_of_mem a inside))]
    apply orderedInsert_append_of_last
    intro b inside
    exact last a List.mem_cons_self b ((List.mem_insertionSort r).mp inside)

theorem orderedInsert_of_first {a : α} {l : List α} (first : ∀ b ∈ l, r a b) :
    l.orderedInsert r a = a :: l := by
  cases l with
  | nil => rfl
  | cons b l => rw [List.orderedInsert, if_pos (first b List.mem_cons_self)]

theorem filter_orderedInsert [IsTrans α r] (keep : α → Bool) (a : α) {l : List α}
    (sorted : l.Pairwise r) :
    (l.orderedInsert r a).filter keep =
      if keep a then (l.filter keep).orderedInsert r a else l.filter keep := by
  induction l with
  | nil => by_cases kept : keep a <;> simp [kept]
  | cons b l ih =>
    obtain ⟨least, tail⟩ := List.pairwise_cons.mp sorted
    rw [List.orderedInsert]
    by_cases before : r a b
    · rw [if_pos before]
      have first : ∀ c ∈ (b :: l).filter keep, r a c := by
        intro c inside
        rcases List.mem_cons.mp (List.mem_of_mem_filter inside) with rfl | later
        · exact before
        · exact IsTrans.trans a b c before (least c later)
      rw [orderedInsert_of_first first]
      by_cases kept : keep a
      · rw [if_pos kept, List.filter_cons_of_pos kept]
      · rw [if_neg kept, List.filter_cons_of_neg kept]
    · rw [if_neg before]
      by_cases kept : keep b
      · rw [List.filter_cons_of_pos kept, List.filter_cons_of_pos kept, ih tail,
          List.orderedInsert, if_neg before]
        by_cases keptA : keep a <;> simp [keptA]
      · rw [List.filter_cons_of_neg kept, List.filter_cons_of_neg kept, ih tail]

theorem filter_insertionSort [IsTrans α r] [Std.Total r] (keep : α → Bool) (l : List α) :
    (l.insertionSort r).filter keep = (l.filter keep).insertionSort r := by
  induction l with
  | nil => rfl
  | cons a l ih =>
    rw [List.insertionSort_cons, filter_orderedInsert keep a (List.pairwise_insertionSort r l), ih]
    by_cases kept : keep a
    · rw [if_pos kept, List.filter_cons_of_pos kept, List.insertionSort_cons]
    · rw [if_neg kept, List.filter_cons_of_neg kept]

end Sorting
