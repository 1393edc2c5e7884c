import Mathlib.Data.Prod.Lex

/-!
# Instants

A `DateTime<Utc>` by the fields of its calendar date and clock. A leap second is written
as chrono keeps it, in the nanoseconds of second 59. The length of a month is not checked:
neither the order nor a text depends on it.
-/

structure UtcTime where
  year : Int
  month : Nat
  day : Nat
  hour : Nat
  minute : Nat
  second : Nat
  nano : Nat
  month_range : 1 ≤ month ∧ month ≤ 12 := by decide
  day_range : 1 ≤ day ∧ day ≤ 31 := by decide
  hour_lt : hour < 24 := by decide
  minute_lt : minute < 60 := by decide
  second_lt : second < 60 := by decide
  nano_lt : nano < 2000000000 := by decide
  leap : 1000000000 ≤ nano → second = 59 := by decide
deriving DecidableEq

namespace UtcTime

def utcMonth (t : UtcTime) : Int ×ₗ Nat := toLex (t.year, t.month)

def utcDay (t : UtcTime) : (Int ×ₗ Nat) ×ₗ Nat := toLex (t.utcMonth, t.day)

def clock (t : UtcTime) : Nat ×ₗ Nat ×ₗ Nat ×ₗ Nat :=
  toLex (t.hour, toLex (t.minute, toLex (t.second, t.nano)))

def key (t : UtcTime) : ((Int ×ₗ Nat) ×ₗ Nat) ×ₗ Nat ×ₗ Nat ×ₗ Nat ×ₗ Nat :=
  toLex (t.utcDay, t.clock)

theorem key_injective : Function.Injective key := by
  rintro ⟨year, month, day, hour, minute, second, nano⟩
    ⟨year', month', day', hour', minute', second', nano'⟩ eq
  simp only [key, utcDay, utcMonth, clock, EmbeddingLike.apply_eq_iff_eq, Prod.mk.injEq] at eq
  obtain ⟨⟨⟨rfl, rfl⟩, rfl⟩, rfl, rfl, rfl, rfl⟩ := eq
  rfl

/-- The chronological order. -/
instance : LinearOrder UtcTime := LinearOrder.lift' key key_injective

theorem utcDay_mono {t u : UtcTime} (h : t ≤ u) : t.utcDay ≤ u.utcDay :=
  Prod.Lex.monotone_fst t.key u.key h

theorem utcMonth_mono {t u : UtcTime} (h : t ≤ u) : t.utcMonth ≤ u.utcMonth :=
  Prod.Lex.monotone_fst t.utcDay u.utcDay (utcDay_mono h)

end UtcTime
