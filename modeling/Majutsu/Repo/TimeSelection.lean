import Majutsu.Repo.RetentionPlan
import Mathlib.Data.List.MinMax

/-!
# Selection of a snapshot by time

The database keeps creation times as the texts `to_rfc3339` writes and `snapshot_id_at`
compares these texts. Their order is chronological for the years 0 to 9999. A later year is
written with a plus sign, which is below every digit.
-/

open Decimal

namespace TimeSelection

/-- The fraction of a second with 0, 3, 6 or 9 digits (`SecondsFormat::AutoSi`). -/
def fraction (nano : Nat) : List Char :=
  if nano = 0 then []
  else if nano % 1000000 = 0 then '.' :: padded 3 (nano / 1000000)
  else if nano % 1000 = 0 then '.' :: padded 6 (nano / 1000)
  else '.' :: padded 9 nano

/-- Four digits from 0 to 9999, otherwise `{:+05}`. -/
def yearText (y : Int) : List Char :=
  if 0 ≤ y ∧ y ≤ 9999 then padded 4 y.natAbs
  else (if y < 0 then '-' else '+') :: padded 4 y.natAbs

/-- The second and nanoseconds that are written: a leap second is second 60. -/
def shown (t : UtcTime) : Nat × Nat :=
  if 1000000000 ≤ t.nano then (t.second + 1, t.nano - 1000000000) else (t.second, t.nano)

/-- What follows the year. -/
def rest (t : UtcTime) : List Char :=
  '-' :: (padded 2 t.month ++ '-' :: (padded 2 t.day ++ 'T' :: (padded 2 t.hour ++
    ':' :: (padded 2 t.minute ++ ':' :: (padded 2 (shown t).1 ++
      (fraction (shown t).2 ++ "+00:00".toList))))))

def toRfc3339 (t : UtcTime) : String := String.ofList (yearText t.year ++ rest t)

structure Row where
  id : String
  created_at : String

/-- The row `snapshot` inserts. -/
def Row.ofSnapshot (s : SnapshotPruneInput) : Row := ⟨s.id, toRfc3339 s.created_at⟩

/-- `where created_at <= at order by created_at desc limit 1`. Of rows with one text the
database may return any. -/
def lastAt (rows : List Row) (at_ : String) : Option Row :=
  (rows.filter (·.created_at ≤ at_)).argmax (·.created_at)

/-- `snapshot_id_at`; `parse` reads the time, see `RelativeTime.parseRestoreTime`. -/
def snapshotIdAt (parse : String → Except String UtcTime) (rows : List Row) (at_ : String) :
    Except String String := do
  let t ← parse at_
  match lastAt rows (toRfc3339 t) with
  | some row => .ok row.id
  | none => .error ("no snapshot at or before " ++ at_)

/-- The fraction by its groups of three digits. -/
def groups (nano : Nat) : List Nat := [nano / 1000000, nano / 1000 % 1000, nano % 1000]

theorem value_groups (nano : Nat) : value (groups nano) = nano := by
  simp only [groups, value, List.length_cons, List.length_nil]
  omega

theorem groups_lt {nano : Nat} (h : nano < 1000000000) : ∀ g ∈ groups nano, g < 1000 := by
  simp only [groups, List.mem_cons, List.not_mem_nil, or_false]
  rintro g (rfl | rfl | rfl) <;> omega

theorem fraction_eq {nano : Nat} (h : nano < 1000000000) :
    fraction nano = if nano = 0 then [] else '.' :: trimmed (groups nano) := by
  have all : value [nano / 1000000, nano / 1000 % 1000, nano % 1000] = nano := value_groups nano
  have two : value [nano / 1000 % 1000, nano % 1000] = nano % 1000000 := by
    simp only [value, List.length_cons, List.length_nil]
    omega
  have one : value [nano % 1000] = nano % 1000 := by simp [value]
  have low : fixed 3 (nano % 1000) = fixed 3 nano := fixed_mod 3 nano
  have middle : fixed 3 (nano / 1000 % 1000) = fixed 3 (nano / 1000) := fixed_mod 3 _
  have six : padded 6 (nano / 1000) = fixed 3 (nano / 1000000) ++ fixed 3 (nano / 1000) := by
    rw [padded_of_lt (by omega), fixed_six, Nat.div_div_eq_div_mul]
  have nine : padded 9 nano =
      fixed 3 (nano / 1000000) ++ (fixed 3 (nano / 1000) ++ fixed 3 nano) := by
    rw [padded_of_lt (by omega), fixed_nine]
  unfold fraction
  simp only [groups, trimmed, all, two, one, low, middle, six, nine, List.append_nil]
  by_cases zero : nano = 0
  · simp only [zero, if_true]
  · simp only [zero, if_false]
    by_cases million : nano % 1000000 = 0
    · simp only [million, if_true, List.append_nil, padded_of_lt (w := 3)
        (show nano / 1000000 < 10 ^ 3 by omega)]
    · simp only [million, if_false]
      by_cases thousand : nano % 1000 = 0
      · simp only [thousand, if_true, List.append_nil]
      · simp only [thousand, if_false]

theorem fraction_lt_iff {a b : Nat} (ha : a < 1000000000) (hb : b < 1000000000) :
    fraction a ++ "+00:00".toList < fraction b ++ "+00:00".toList ↔ a < b := by
  have groupwise := trimmed_append_lt_iff (c := '+') (s := "00:00".toList) (by decide)
    (a := groups a) (b := groups b) rfl (groups_lt ha) (groups_lt hb)
  rw [value_groups, value_groups] at groupwise
  rw [fraction_eq ha, fraction_eq hb]
  by_cases zeroA : a = 0 <;> by_cases zeroB : b = 0
  · simp [zeroA, zeroB]
  · rw [if_pos zeroA, if_neg zeroB]
    exact iff_of_true (List.cons_lt_cons_iff.2 (Or.inl (by decide))) (by omega)
  · rw [if_neg zeroA, if_pos zeroB]
    refine iff_of_false (fun less => ?_) (by omega)
    rcases List.cons_lt_cons_iff.1 less with less | ⟨same, -⟩
    · exact absurd less (by decide)
    · exact absurd same (by decide)
  · rw [if_neg zeroA, if_neg zeroB, List.cons_append, List.cons_append, List.cons_lt_cons_iff,
      ← groupwise]
    simp

/-- The years whose texts have four digits. -/
def InRange (t : UtcTime) : Prop := 0 ≤ t.year ∧ t.year ≤ 9999

instance (t : UtcTime) : Decidable (InRange t) := inferInstanceAs (Decidable (_ ∧ _))

theorem shown_lt_iff (t u : UtcTime) :
    (shown t).1 < (shown u).1 ∨ (shown t).1 = (shown u).1 ∧ (shown t).2 < (shown u).2 ↔
      t.second < u.second ∨ t.second = u.second ∧ t.nano < u.nano := by
  have leapT := t.leap
  have leapU := u.leap
  have secondT := t.second_lt
  have secondU := u.second_lt
  unfold shown
  split <;> split <;> simp only <;> omega

theorem shown_lt (t : UtcTime) : (shown t).1 < 100 ∧ (shown t).2 < 1000000000 := by
  have second := t.second_lt
  have nano := t.nano_lt
  unfold shown
  split <;> constructor <;> simp only <;> omega

theorem rest_lt_iff (t u : UtcTime) :
    rest t < rest u ↔ t.month < u.month ∨ t.month = u.month ∧
      (t.day < u.day ∨ t.day = u.day ∧ t.clock < u.clock) := by
  have ht := t.month_range
  have hu := u.month_range
  have dayT := t.day_range
  have dayU := u.day_range
  have hourT := t.hour_lt
  have hourU := u.hour_lt
  have minuteT := t.minute_lt
  have minuteU := u.minute_lt
  obtain ⟨secondT, nanoT⟩ := shown_lt t
  obtain ⟨secondU, nanoU⟩ := shown_lt u
  have two : ∀ n, n < 100 → padded 2 n = fixed 2 n := fun n h => padded_of_lt h
  simp only [UtcTime.clock, Prod.Lex.toLex_lt_toLex]
  rw [← shown_lt_iff, ← fraction_lt_iff nanoT nanoU, rest, rest, List.cons_lt_cons_iff]
  rw [two t.month (by omega), two u.month (by omega), two t.day (by omega),
    two u.day (by omega), two t.hour (by omega), two u.hour (by omega),
    two t.minute (by omega), two u.minute (by omega), two _ secondT, two _ secondU]
  rw [field_lt_iff '-' (by omega) (by omega), field_lt_iff 'T' (by omega) (by omega),
    field_lt_iff ':' (by omega) (by omega), field_lt_iff ':' (by omega) (by omega),
    fixed_append_lt_iff secondT secondU]
  simp

theorem toRfc3339_lt_iff {t u : UtcTime} (ht : InRange t) (hu : InRange u) :
    toRfc3339 t < toRfc3339 u ↔ t < u := by
  obtain ⟨lowT, highT⟩ := ht
  obtain ⟨lowU, highU⟩ := hu
  rw [String.lt_iff_toList_lt, toRfc3339, toRfc3339, String.toList_ofList, String.toList_ofList,
    yearText, yearText, if_pos ⟨lowT, highT⟩, if_pos ⟨lowU, highU⟩, padded_of_lt (by omega),
    padded_of_lt (by omega), fixed_append_lt_iff (by omega) (by omega), rest_lt_iff]
  change _ ↔ t.key < u.key
  simp only [UtcTime.key, UtcTime.utcDay, UtcTime.utcMonth, Prod.Lex.toLex_lt_toLex,
    EmbeddingLike.apply_eq_iff_eq, Prod.mk.injEq]
  by_cases clock : t.clock < u.clock
  · simp only [clock, and_true]
    omega
  · simp only [clock, and_false, or_false]
    omega

/-- A year of other than four digits is written below every year of four. -/
theorem toRfc3339_lt_of_not_inRange {t u : UtcTime} (ht : ¬InRange t) (hu : InRange u) :
    toRfc3339 t < toRfc3339 u := by
  have signed : yearText t.year = (if t.year < 0 then '-' else '+') :: padded 4 t.year.natAbs :=
    if_neg ht
  have digits : yearText u.year = fixed 4 u.year.natAbs := by
    have high := hu.2
    have low := hu.1
    exact (if_pos hu).trans (padded_of_lt (by omega))
  have digit := Nat.toNat_digitChar_of_lt_ten
    (Nat.mod_lt (u.year.natAbs / 10 ^ 3) (by omega : 10 > 0))
  rw [String.lt_iff_toList_lt, toRfc3339, toRfc3339, String.toList_ofList, String.toList_ofList,
    signed, digits, fixed, List.cons_append, List.cons_append]
  refine List.cons_lt_cons_iff.2 (Or.inl ?_)
  change Char.toNat _ < (Nat.digitChar (u.year.natAbs / 10 ^ 3 % 10)).toNat
  rw [digit]
  split
  · change 45 < _
    omega
  · change 43 < _
    omega

/-- The answer is a snapshot with the greatest creation time among those at or before `t`,
and an error when there is none. -/
def Latest (snapshots : List SnapshotPruneInput) (t : UtcTime) : Except String String → Prop
  | .ok id => ∃ s ∈ snapshots, s.id = id ∧ s.created_at ≤ t ∧
      ∀ u ∈ snapshots, u.created_at ≤ t → u.created_at ≤ s.created_at
  | .error _ => ∀ u ∈ snapshots, ¬u.created_at ≤ t

theorem lastAt_eq_none {rows : List Row} {at_ : String} :
    lastAt rows at_ = none ↔ ∀ row ∈ rows, ¬row.created_at ≤ at_ := by
  simp [lastAt, List.argmax_eq_none, List.filter_eq_nil_iff]

theorem lastAt_eq_some {rows : List Row} {at_ : String} {row : Row}
    (h : lastAt rows at_ = some row) : row ∈ rows ∧ row.created_at ≤ at_ ∧
      ∀ other ∈ rows, other.created_at ≤ at_ → other.created_at ≤ row.created_at := by
  obtain ⟨mem, before⟩ := List.mem_filter.1 (List.argmax_mem h)
  refine ⟨mem, by simpa using before, fun other mem before => ?_⟩
  exact List.le_of_mem_argmax (List.mem_filter.2 ⟨mem, by simpa using before⟩) h

theorem toRfc3339_le_iff {t u : UtcTime} (ht : InRange t) (hu : InRange u) :
    toRfc3339 t ≤ toRfc3339 u ↔ t ≤ u := by
  rw [← not_lt, ← not_lt, toRfc3339_lt_iff hu ht]

theorem lt_of_year_lt {t u : UtcTime} (h : t.year < u.year) : t < u := by
  change t.key < u.key
  simp only [UtcTime.key, UtcTime.utcDay, UtcTime.utcMonth, Prod.Lex.toLex_lt_toLex, h,
    true_or]

variable {snapshots : List SnapshotPruneInput} {t : UtcTime}

theorem lastAt_latest (range : ∀ s ∈ snapshots, InRange s.created_at) (ht : InRange t)
    (at_ : String) :
    Latest snapshots t (match lastAt (snapshots.map Row.ofSnapshot) (toRfc3339 t) with
      | some row => .ok row.id
      | none => .error at_) := by
  cases eq : lastAt (snapshots.map Row.ofSnapshot) (toRfc3339 t) with
  | none =>
    intro u mem before
    refine lastAt_eq_none.1 eq (Row.ofSnapshot u) (List.mem_map_of_mem mem) ?_
    exact (toRfc3339_le_iff (range u mem) ht).2 before
  | some row =>
    obtain ⟨listed, before, greatest⟩ := lastAt_eq_some eq
    obtain ⟨s, mem, rfl⟩ := List.mem_map.1 listed
    refine ⟨s, mem, rfl, (toRfc3339_le_iff (range s mem) ht).1 before, fun u other before => ?_⟩
    refine (toRfc3339_le_iff (range u other) (range s mem)).1 ?_
    exact greatest (Row.ofSnapshot u) (List.mem_map_of_mem other)
      ((toRfc3339_le_iff (range u other) ht).2 before)

theorem lastAt_of_not_inRange (range : ∀ s ∈ snapshots, InRange s.created_at)
    (ht : ¬InRange t) : lastAt (snapshots.map Row.ofSnapshot) (toRfc3339 t) = none := by
  refine lastAt_eq_none.2 fun row listed => ?_
  obtain ⟨s, mem, rfl⟩ := List.mem_map.1 listed
  exact not_le.2 (toRfc3339_lt_of_not_inRange ht (range s mem))

/-- The texts are ordered chronologically, and the selection is right for every accepted time
up to the year 9999; for a later one it is only where there is no snapshot. -/
theorem snapshotIdAt_latest_iff (snapshots : List SnapshotPruneInput)
    (parse : String → Except String UtcTime) (at_ : String) (t : UtcTime)
    (range : ∀ s ∈ snapshots, InRange s.created_at) (accepted : parse at_ = .ok t) :
    (∀ t u, InRange t → InRange u → (toRfc3339 t < toRfc3339 u ↔ t < u)) ∧
      (Latest snapshots t (snapshotIdAt parse (snapshots.map Row.ofSnapshot) at_) ↔
        t.year ≤ 9999 ∨ snapshots = []) := by
  refine ⟨fun _ _ => toRfc3339_lt_iff, ?_⟩
  have code : snapshotIdAt parse (snapshots.map Row.ofSnapshot) at_ =
      match lastAt (snapshots.map Row.ofSnapshot) (toRfc3339 t) with
      | some row => .ok row.id
      | none => .error ("no snapshot at or before " ++ at_) := by
    rw [snapshotIdAt, accepted]
    rfl
  rw [code]
  by_cases ht : InRange t
  · exact iff_of_true (lastAt_latest range ht _) (Or.inl ht.2)
  rw [lastAt_of_not_inRange range ht]
  change (∀ u ∈ snapshots, ¬u.created_at ≤ t) ↔ _
  rcases Int.lt_or_le t.year 0 with early | positive
  · refine iff_of_true (fun u mem => not_le.2 (lt_of_year_lt ?_)) (Or.inl (by omega))
    exact early.trans_le (range u mem).1
  · have late : 9999 < t.year := not_le.1 fun le => ht ⟨positive, le⟩
    have every : ∀ u ∈ snapshots, u.created_at ≤ t := fun u mem =>
      (lt_of_year_lt ((range u mem).2.trans_lt late)).le
    rw [or_iff_right (not_le.2 late), List.eq_nil_iff_forall_not_mem]
    exact forall_congr' fun u => imp_congr_right fun mem => by simp [every u mem]

def november : List SnapshotPruneInput :=
  [⟨"b", Retention.fullHour 2026 11 16 9⟩, ⟨"a", Retention.fullHour 2026 11 2 8⟩]

/-- A time between two snapshots selects the older one. -/
theorem snapshotIdAt_latest_november :
    (∀ s ∈ november, InRange s.created_at) ∧
      Latest november (Retention.fullHour 2026 11 16 8)
        (snapshotIdAt (fun _ => .ok (Retention.fullHour 2026 11 16 8))
          (november.map Row.ofSnapshot) "2026-11-16T08:00:00Z") := by
  have range : ∀ s ∈ november, InRange s.created_at := by decide
  have selects := snapshotIdAt_latest_iff november
    (fun _ => .ok (Retention.fullHour 2026 11 16 8)) "2026-11-16T08:00:00Z"
    (Retention.fullHour 2026 11 16 8) range rfl
  exact ⟨range, selects.2.2 (Or.inl (by decide))⟩

/-- `9999-12-31T23:59:59-01:00` is accepted and falls in the year 10000. -/
theorem snapshotIdAt_misses_all :
    let snapshots := [⟨"a", Retention.fullHour 2026 11 16 9⟩]
    let t : UtcTime := ⟨10000, 1, 1, 0, 59, 59, 0, by decide, by decide, by decide, by decide,
      by decide, by decide, by decide⟩
    snapshotIdAt (fun _ => .ok t) (snapshots.map Row.ofSnapshot) "9999-12-31T23:59:59-01:00" =
        .error "no snapshot at or before 9999-12-31T23:59:59-01:00" ∧
      ∀ s ∈ snapshots, s.created_at ≤ t := by
  decide +kernel

end TimeSelection
