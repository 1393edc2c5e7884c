import Mathlib.Data.List.Basic

/-!
# Contiguous ranges

Ranges that follow each other without a gap cut a list into pieces, and the
pieces give the list back.
-/

namespace Ranges

variable {α : Type}

/-- Elements from a position up to another one, without it. -/
def slice (xs : List α) (range : Nat × Nat) : List α := (xs.drop range.1).take (range.2 - range.1)

/-- The ranges lead from one position to another without a gap. -/
inductive Covers : Nat → List (Nat × Nat) → Nat → Prop where
  | nil {a : Nat} : Covers a [] a
  | cons {a b c : Nat} {ranges : List (Nat × Nat)} :
      a ≤ b → Covers b ranges c → Covers a ((a, b) :: ranges) c

theorem Covers.le {ranges : List (Nat × Nat)} {a c : Nat} (h : Covers a ranges c) : a ≤ c := by
  induction h with
  | nil => exact Nat.le_refl _
  | cons le _ ih => exact Nat.le_trans le ih

theorem Covers.bounds {ranges : List (Nat × Nat)} {a c : Nat} (h : Covers a ranges c)
    {range : Nat × Nat} (inside : range ∈ ranges) : a ≤ range.1 ∧ range.1 ≤ range.2 ∧ range.2 ≤ c := by
  induction h with
  | nil => cases inside
  | @cons a b c ranges le rest ih =>
    have ends := rest.le
    rcases List.mem_cons.mp inside with rfl | later
    · exact ⟨Nat.le_refl _, le, ends⟩
    · have later := ih later
      omega

theorem Covers.flatten_slices {ranges : List (Nat × Nat)} {a c : Nat} (h : Covers a ranges c)
    (xs : List α) (all : xs.length ≤ c) : (ranges.map (slice xs)).flatten = xs.drop a := by
  induction h with
  | nil =>
    rw [List.map_nil, List.flatten_nil, List.drop_eq_nil_of_le all]
  | @cons a b c ranges le _ ih =>
    have rest : xs.drop b = (xs.drop a).drop (b - a) := by
      rw [List.drop_drop, Nat.add_sub_cancel' le]
    rw [List.map_cons, List.flatten_cons, ih all, slice, rest, List.take_append_drop]

end Ranges
