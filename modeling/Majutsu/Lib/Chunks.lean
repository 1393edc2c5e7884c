import Mathlib.Data.List.Basic

/-!
# Pieces of one length

A list is cut into pieces of one length from the left; the last piece holds what is left
and may be shorter.
-/

namespace Chunks

variable {α : Type}

def cutFrom (size : Nat) : Nat → List α → List (List α)
  | 0, _ => []
  | fuel + 1, xs => if xs.isEmpty then [] else xs.take size :: cutFrom size fuel (xs.drop size)

/-- `slice::chunks`; every piece takes something, so the length is fuel enough. -/
def cut (size : Nat) (xs : List α) : List (List α) := cutFrom size xs.length xs

variable {size : Nat} {xs : List α}

theorem cutFrom_fuel (positive : 0 < size) {fuel fuel' : Nat} (enough : xs.length ≤ fuel)
    (enough' : xs.length ≤ fuel') : cutFrom size fuel xs = cutFrom size fuel' xs := by
  induction fuel generalizing xs fuel' with
  | zero =>
    have empty : xs = [] := List.eq_nil_of_length_eq_zero (by omega)
    subst empty
    cases fuel' with
    | zero => rfl
    | succ fuel' => rfl
  | succ fuel ih =>
    cases fuel' with
    | zero =>
      have empty : xs = [] := List.eq_nil_of_length_eq_zero (by omega)
      subst empty
      rfl
    | succ fuel' =>
      rw [cutFrom, cutFrom]
      cases xs with
      | nil => rfl
      | cons x rest =>
        have shorter : ((x :: rest).drop size).length ≤ rest.length := by
          rw [List.length_drop, List.length_cons]
          omega
        rw [List.length_cons] at enough enough'
        rw [ih (by omega) (show _ ≤ fuel' by omega)]

@[simp]
theorem cut_nil : cut size ([] : List α) = [] := rfl

theorem cut_of_ne_nil (positive : 0 < size) (nonempty : xs ≠ []) :
    cut size xs = xs.take size :: cut size (xs.drop size) := by
  cases xs with
  | nil => exact absurd rfl nonempty
  | cons x rest =>
    have shorter : ((x :: rest).drop size).length ≤ rest.length := by
      rw [List.length_drop, List.length_cons]
      omega
    rw [cut, List.length_cons, cutFrom, List.isEmpty_cons, if_neg Bool.false_ne_true, cut,
      cutFrom_fuel positive shorter (Nat.le_refl _)]

theorem length_drop_lt (positive : 0 < size) (nonempty : xs ≠ []) :
    (xs.drop size).length < xs.length := by
  have long := List.length_pos_iff.mpr nonempty
  rw [List.length_drop]
  omega

theorem flatten_cut (positive : 0 < size) (xs : List α) : (cut size xs).flatten = xs := by
  induction length : xs.length using Nat.strongRecOn generalizing xs with
  | ind n ih =>
    by_cases empty : xs = []
    · rw [empty]
      rfl
    · have shorter := length_drop_lt positive empty
      rw [cut_of_ne_nil positive empty, List.flatten_cons,
        ih _ (length ▸ shorter) (xs.drop size) rfl, List.take_append_drop]

theorem length_cut_le (positive : 0 < size) {limit : Nat} (short : xs.length ≤ limit * size) :
    (cut size xs).length ≤ limit := by
  induction limit generalizing xs with
  | zero =>
    have empty : xs = [] := List.eq_nil_of_length_eq_zero (by omega)
    rw [empty, cut_nil]
    exact Nat.le_refl 0
  | succ limit ih =>
    by_cases empty : xs = []
    · rw [empty, cut_nil, List.length_nil]
      exact Nat.zero_le _
    · rw [cut_of_ne_nil positive empty, List.length_cons]
      apply Nat.succ_le_succ
      apply ih
      rw [List.length_drop, Nat.sub_le_iff_le_add, ← Nat.succ_mul]
      exact short

theorem length_of_mem_dropLast (positive : 0 < size) {piece : List α}
    (inside : piece ∈ (cut size xs).dropLast) : piece.length = size := by
  induction length : xs.length using Nat.strongRecOn generalizing xs with
  | ind n ih =>
    by_cases empty : xs = []
    · rw [empty] at inside
      cases inside
    · have shorter := length_drop_lt positive empty
      rw [cut_of_ne_nil positive empty] at inside
      by_cases last : cut size (xs.drop size) = []
      · rw [last] at inside
        cases inside
      · rw [List.dropLast_cons_of_ne_nil last] at inside
        rcases List.mem_cons.mp inside with rfl | later
        · have more : xs.drop size ≠ [] := fun done => last (by rw [done, cut_nil])
          have long := List.length_pos_iff.mpr more
          rw [List.length_drop] at long
          rw [List.length_take]
          omega
        · exact ih _ (length ▸ shorter) later rfl

end Chunks
