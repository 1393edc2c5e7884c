import Majutsu.Lib.Decimal
import Majutsu.Lib.Firsts
import Majutsu.Repo.UtcTime
import Mathlib.Data.Finset.Sort
import Mathlib.Data.String.Basic

/-!
# The snapshot retention plan

`build_snapshot_prune_plan` passes over the snapshots newest first with two bounded sets of
texts, one for the days and one for the months. Each set on its own is the pass of
`Firsts`; the texts are injective in the day and the month, so the plan keeps the newest
snapshot of each of the most recent days and months.
-/

open Firsts Decimal

structure SnapshotPruneInput where
  id : String
  created_at : UtcTime
deriving DecidableEq

structure SnapshotPrunePlan where
  keep : List String
  delete : List String
deriving DecidableEq

namespace Retention

/-- `{:04}` of a year: the sign counts towards the width. -/
def yearText (y : Int) : List Char :=
  if y < 0 then '-' :: padded 3 y.natAbs else padded 4 y.natAbs

/-- `{:04}-{:02}` of a month. -/
def monthText (month : Int ×ₗ Nat) : String :=
  String.ofList (yearText (ofLex month).1 ++ '-' :: padded 2 (ofLex month).2)

/-- `{:04}-{:02}-{:02}` of a day. -/
def dayText (day : (Int ×ₗ Nat) ×ₗ Nat) : String :=
  monthText (ofLex day).1 ++ String.ofList ('-' :: padded 2 (ofLex day).2)

/-- The three sets of the pass. -/
structure Sets where
  keep : Finset String
  daily : Finset String
  monthly : Finset String

/-- `set.len() < limit && set.insert(text)`. -/
def inserts (limit : Nat) (set : Finset String) (text : String) : Bool × Finset String :=
  if set.card < limit ∧ text ∉ set then (true, insert text set) else (false, set)

/-- One snapshot of the pass. -/
def visit (keepDaily keepMonthly : Nat) (sets : Sets) (snapshot : SnapshotPruneInput) : Sets :=
  let day := inserts keepDaily sets.daily (dayText snapshot.created_at.utcDay)
  let keep := if day.1 then insert snapshot.id sets.keep else sets.keep
  let month := inserts keepMonthly sets.monthly (monthText snapshot.created_at.utcMonth)
  ⟨if month.1 then insert snapshot.id keep else keep, day.2, month.2⟩

/-- The ids to keep and the ids to delete. `keep` comes sorted out of its set, so the binary
search in it is membership. -/
def buildSnapshotPrunePlan (snapshotsNewestFirst : List SnapshotPruneInput)
    (current : Option String) (keepDaily keepMonthly : Nat) : SnapshotPrunePlan :=
  let sets := snapshotsNewestFirst.foldl (visit keepDaily keepMonthly)
    ⟨current.toList.toFinset, ∅, ∅⟩
  let keep := sets.keep.sort (· ≤ ·)
  ⟨keep, (snapshotsNewestFirst.map (·.id)).filter fun id => id ∉ keep⟩

theorem yearText_inj {a b : Int} (eq : yearText a = yearText b) : a = b := by
  have unsigned : ∀ (n : Nat) (l : List Char), padded 4 n ≠ '-' :: l := by
    intro n l eq
    have digit : 48 ≤ '-'.toNat := zero_le_of_mem_padded (w := 4) (n := n) (by simp [eq])
    exact absurd digit (by decide)
  unfold yearText at eq
  split at eq <;> split at eq
  · have := padded_inj (by omega) (List.cons.inj eq).2
    omega
  · exact absurd eq.symm (unsigned _ _)
  · exact absurd eq (unsigned _ _)
  · have := padded_inj (by omega) eq
    omega

/-- A text that ends in a two-digit numeral gives back what is before it and the numeral. -/
theorem suffix_inj {u v : List Char} {a b : Nat} (ha : a < 100) (hb : b < 100)
    (eq : u ++ '-' :: padded 2 a = v ++ '-' :: padded 2 b) : u = v ∧ a = b := by
  have lengths : ('-' :: padded 2 a).length = ('-' :: padded 2 b).length := by
    rw [List.length_cons, List.length_cons, length_padded ha, length_padded hb]
  obtain ⟨front, back⟩ := List.append_inj' eq lengths
  exact ⟨front, padded_inj (by omega) (List.cons.inj back).2⟩

theorem monthText_injOn :
    Set.InjOn monthText (Set.range fun s : SnapshotPruneInput => s.created_at.utcMonth) := by
  rintro _ ⟨⟨_, t⟩, rfl⟩ _ ⟨⟨_, u⟩, rfl⟩ eq
  have ht := t.month_range
  have hu := u.month_range
  obtain ⟨year, month⟩ := suffix_inj (a := t.month) (b := u.month) (by omega) (by omega)
    (String.ofList_injective eq)
  exact congrArg toLex (Prod.ext (yearText_inj year) month)

theorem dayText_injOn :
    Set.InjOn dayText (Set.range fun s : SnapshotPruneInput => s.created_at.utcDay) := by
  rintro _ ⟨⟨a, t⟩, rfl⟩ _ ⟨⟨b, u⟩, rfl⟩ eq
  have ht := t.day_range
  have hu := u.day_range
  have texts := congrArg String.toList eq
  simp only [dayText, String.toList_append, String.toList_ofList] at texts
  obtain ⟨month, day⟩ := suffix_inj (a := t.day) (b := u.day) (by omega) (by omega) texts
  have same := monthText_injOn ⟨⟨a, t⟩, rfl⟩ ⟨⟨b, u⟩, rfl⟩ (String.toList_injective month)
  exact congrArg toLex (Prod.ext same day)

variable {keepDaily keepMonthly : Nat}

theorem foldl_visit (snapshots : List SnapshotPruneInput) (sets : Sets) (id : String) :
    id ∈ (snapshots.foldl (visit keepDaily keepMonthly) sets).keep ↔ id ∈ sets.keep ∨
      id ∈ (firsts keepDaily (fun s => dayText s.created_at.utcDay) sets.daily snapshots).map
        (·.id) ∨
      id ∈ (firsts keepMonthly (fun s => monthText s.created_at.utcMonth) sets.monthly
        snapshots).map (·.id) := by
  induction snapshots generalizing sets with
  | nil => simp [firsts]
  | cons s snapshots ih =>
    rw [List.foldl_cons, ih]
    by_cases day : sets.daily.card < keepDaily ∧ dayText s.created_at.utcDay ∉ sets.daily <;>
      by_cases month : sets.monthly.card < keepMonthly ∧
        monthText s.created_at.utcMonth ∉ sets.monthly <;>
      simp only [visit, inserts, firsts, day, month, if_true, if_false, not_false_eq_true,
        and_self, Bool.false_eq_true, Finset.mem_insert, List.map_cons, List.mem_cons] <;>
      by_cases same : id = s.id <;> simp only [same, true_or, or_true, false_or]

/-- The snapshot that stands for its bucket: the first of it in a list newest first, with
fewer than `limit` buckets after its own in time. -/
def Retained {β : Type} [LinearOrder β] (bucket : UtcTime → β) (limit : Nat)
    (snapshots : List SnapshotPruneInput) (s : SnapshotPruneInput) : Prop :=
  snapshots.find? (fun u => bucket u.created_at = bucket s.created_at) = some s ∧
    ((keys (fun u => bucket u.created_at) snapshots).filter (bucket s.created_at < ·)).card <
      limit

instance {β : Type} [LinearOrder β] (bucket : UtcTime → β) (limit : Nat)
    (snapshots : List SnapshotPruneInput) (s : SnapshotPruneInput) :
    Decidable (Retained bucket limit snapshots s) :=
  inferInstanceAs (Decidable (_ ∧ _))

/-- The order the plan's input comes in. -/
def NewestFirst (snapshots : List SnapshotPruneInput) : Prop :=
  snapshots.Pairwise fun s u => u.created_at ≤ s.created_at

variable {β : Type} {bucket : UtcTime → β} {snapshots : List SnapshotPruneInput}

theorem mem_firsts_retained [LinearOrder β] (limit : Nat) {text : β → String}
    (inj : Set.InjOn text (Set.range fun s : SnapshotPruneInput => bucket s.created_at))
    (mono : ∀ t u : UtcTime, t ≤ u → bucket t ≤ bucket u) (newest : NewestFirst snapshots)
    (s : SnapshotPruneInput) :
    s ∈ firsts limit (fun s => text (bucket s.created_at)) ∅ snapshots ↔
      Retained bucket limit snapshots s := by
  have sorted : snapshots.Pairwise fun s u => bucket u.created_at ≤ bucket s.created_at :=
    newest.imp fun h => mono _ _ h
  have plain : firsts limit (fun s => text (bucket s.created_at)) (Finset.image text ∅) snapshots =
      firsts limit (fun s => bucket s.created_at) ∅ snapshots :=
    firsts_comp inj (by simp) snapshots
  rw [Finset.image_empty] at plain
  rw [plain]
  exact mem_firsts_iff sorted

theorem Retained.newest [LinearOrder β] {limit : Nat} {s : SnapshotPruneInput}
    (retained : Retained bucket limit snapshots s) (order : NewestFirst snapshots)
    {u : SnapshotPruneInput} (mem : u ∈ snapshots)
    (same : bucket u.created_at = bucket s.created_at) : u.created_at ≤ s.created_at := by
  obtain ⟨-, before, after, rfl, differ⟩ := List.find?_eq_some_iff_append.1 retained.1
  obtain ⟨-, suffix, -⟩ := List.pairwise_append.1 order
  rcases List.mem_append.1 mem with mem | mem
  · simpa [same] using differ u mem
  · rcases List.mem_cons.1 mem with rfl | mem
    · exact le_rfl
    · exact (List.pairwise_cons.1 suffix).1 u mem

theorem Retained.mono [LinearOrder β] {limit limit' : Nat} {s : SnapshotPruneInput}
    (retained : Retained bucket limit snapshots s) (le : limit ≤ limit') :
    Retained bucket limit' snapshots s :=
  ⟨retained.1, retained.2.trans_le le⟩

theorem mem_keep_iff {current : Option String} (newest : NewestFirst snapshots) (id : String) :
    id ∈ (buildSnapshotPrunePlan snapshots current keepDaily keepMonthly).keep ↔
      current = some id ∨ ∃ s, s.id = id ∧ (Retained UtcTime.utcDay keepDaily snapshots s ∨
        Retained UtcTime.utcMonth keepMonthly snapshots s) := by
  have days := mem_firsts_retained keepDaily dayText_injOn
    (fun _ _ => UtcTime.utcDay_mono) newest
  have months := mem_firsts_retained keepMonthly monthText_injOn
    (fun _ _ => UtcTime.utcMonth_mono) newest
  simp only [buildSnapshotPrunePlan, Finset.mem_sort, foldl_visit, List.mem_map, days, months,
    List.mem_toFinset, Option.mem_toList]
  refine or_congr_right ?_
  constructor
  · rintro (⟨s, retained, eq⟩ | ⟨s, retained, eq⟩)
    · exact ⟨s, eq, Or.inl retained⟩
    · exact ⟨s, eq, Or.inr retained⟩
  · rintro ⟨s, eq, retained | retained⟩
    · exact Or.inl ⟨s, retained, eq⟩
    · exact Or.inr ⟨s, retained, eq⟩

/-- The plan keeps the current snapshot and the newest of each of the most recent days and
months, deletes the other listed ids in their order, and keeps no less for larger counts. -/
theorem buildSnapshotPrunePlan_exact (snapshots : List SnapshotPruneInput)
    (current : Option String) (keepDaily keepMonthly : Nat)
    (newest : NewestFirst snapshots) :
    let plan := buildSnapshotPrunePlan snapshots current keepDaily keepMonthly
    plan.delete.Sublist (snapshots.map (·.id)) ∧
      (∀ id, id ∈ plan.delete ↔ id ∈ snapshots.map (·.id) ∧ id ∉ plan.keep) ∧
      plan.keep.Nodup ∧
      (∀ id, id ∈ plan.keep ↔ current = some id ∨ ∃ s ∈ snapshots, s.id = id ∧
        (Retained UtcTime.utcDay keepDaily snapshots s ∨
          Retained UtcTime.utcMonth keepMonthly snapshots s)) ∧
      (∀ s, Retained UtcTime.utcDay keepDaily snapshots s → ∀ u ∈ snapshots,
        u.created_at.utcDay = s.created_at.utcDay → u.created_at ≤ s.created_at) ∧
      (∀ s, Retained UtcTime.utcMonth keepMonthly snapshots s → ∀ u ∈ snapshots,
        u.created_at.utcMonth = s.created_at.utcMonth → u.created_at ≤ s.created_at) ∧
      ∀ keepDaily' keepMonthly', keepDaily ≤ keepDaily' → keepMonthly ≤ keepMonthly' →
        ∀ id ∈ plan.keep,
          id ∈ (buildSnapshotPrunePlan snapshots current keepDaily' keepMonthly').keep := by
  refine ⟨List.filter_sublist, fun id => by simp [buildSnapshotPrunePlan],
    Finset.sort_nodup _ _, fun id => ?_, fun _ retained _ => retained.newest newest,
    fun _ retained _ => retained.newest newest, ?_⟩
  · rw [mem_keep_iff newest]
    refine or_congr_right (exists_congr fun s => ?_)
    constructor
    · rintro ⟨eq, retained⟩
      have listed : s ∈ snapshots := by
        rcases retained with h | h
        · exact List.mem_of_find?_eq_some h.1
        · exact List.mem_of_find?_eq_some h.1
      exact ⟨listed, eq, retained⟩
    · exact fun h => h.2
  · intro keepDaily' keepMonthly' days months id kept
    rw [mem_keep_iff newest] at kept ⊢
    rcases kept with eq | ⟨s, eq, retained | retained⟩
    · exact Or.inl eq
    · exact Or.inr ⟨s, eq, Or.inl (retained.mono days)⟩
    · exact Or.inr ⟨s, eq, Or.inr (retained.mono months)⟩

def fullHour (year : Int) (month day hour : Nat) (h : (1 ≤ month ∧ month ≤ 12) ∧
    (1 ≤ day ∧ day ≤ 31) ∧ hour < 24 := by decide) : UtcTime :=
  ⟨year, month, day, hour, 0, 0, 0, h.1, h.2.1, h.2.2, by decide, by decide, by decide, by decide⟩

/-- Two snapshots of one day and one of the month before, one day and two months kept: the
older snapshot of the day goes. -/
theorem buildSnapshotPrunePlan_exact_monthly :
    let snapshots := [⟨"c", fullHour 2026 11 16 9⟩, ⟨"b", fullHour 2026 11 16 8⟩,
      ⟨"a", fullHour 2026 10 2 8⟩]
    let plan := buildSnapshotPrunePlan snapshots (some "c") 1 2
    NewestFirst snapshots ∧ "a" ∈ plan.keep ∧ "b" ∈ plan.delete := by
  have newest : NewestFirst [⟨"c", fullHour 2026 11 16 9⟩, ⟨"b", fullHour 2026 11 16 8⟩,
      ⟨"a", fullHour 2026 10 2 8⟩] := by unfold NewestFirst; decide +kernel
  obtain ⟨-, deletes, -, keeps, -⟩ := buildSnapshotPrunePlan_exact _ (some "c") 1 2 newest
  refine ⟨newest, (keeps "a").2 (by decide +kernel), (deletes "b").2 ⟨by decide, ?_⟩⟩
  rw [keeps "b"]
  decide +kernel

end Retention
