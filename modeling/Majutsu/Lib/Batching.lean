import Mathlib.Data.List.Basic

/-!
# Greedy batches

A list is cut into batches from the left: an element joins the open batch
unless a test of the batch and the element says that the batch is full, and
then starts the next one. The first element of a batch is never tested.
-/

namespace Batching

variable {α : Type} (full : List α → α → Bool)

/-- The batches of `batch ++ xs` when `batch` is open. -/
def split : List α → List α → List (List α)
  | batch, [] => if batch.isEmpty then [] else [batch]
  | batch, x :: rest =>
    if !batch.isEmpty && full batch x then batch :: split [x] rest else split (batch ++ [x]) rest

theorem flatten_split (batch xs : List α) : (split full batch xs).flatten = batch ++ xs := by
  induction xs generalizing batch with
  | nil => cases batch <;> simp [split]
  | cons x rest ih =>
    unfold split
    split
    · simp [ih]
    · simp [ih]

variable {full}

theorem all_split {P : List α → Prop} {xs : List α} (alone : ∀ x ∈ xs, P [x])
    (joins : ∀ batch, ∀ x ∈ xs, P batch → full batch x = false → P (batch ++ [x]))
    {batch : List α} (start : batch ≠ [] → P batch) : ∀ b ∈ split full batch xs, P b := by
  induction xs generalizing batch with
  | nil =>
    cases batch with
    | nil => simp [split]
    | cons y ys => simpa [split] using start (by simp)
  | cons x rest ih =>
    have own := alone x (List.mem_cons_self ..)
    have later := fun y hy => alone y (List.mem_cons_of_mem _ hy)
    have keeps := fun b y hy => joins b y (List.mem_cons_of_mem _ hy)
    unfold split
    split
    case isTrue closed =>
      have opened : batch ≠ [] := by
        rintro rfl
        simp at closed
      intro b hb
      rcases List.mem_cons.mp hb with rfl | hb
      · exact start opened
      · exact ih later keeps (fun _ => own) b hb
    case isFalse joined =>
      refine ih later keeps (fun _ => ?_)
      cases batch with
      | nil => exact own
      | cons y ys =>
        exact joins _ x (List.mem_cons_self ..) (start (by simp)) (by simpa using joined)

theorem split_of_room {batch xs : List α} (nonempty : batch ++ xs ≠ [])
    (room : ∀ before x after, xs = before ++ x :: after → batch ++ before ≠ [] →
      full (batch ++ before) x = false) : split full batch xs = [batch ++ xs] := by
  induction xs generalizing batch with
  | nil =>
    cases batch with
    | nil => simp at nonempty
    | cons y ys => simp [split]
  | cons x rest ih =>
    have joined : (!batch.isEmpty && full batch x) = false := by
      cases batch with
      | nil => rfl
      | cons y ys => simpa using room [] x rest rfl (by simp)
    rw [split, if_neg (by simp [joined]), ih (by simp), List.append_assoc, List.singleton_append]
    intro before y after cut _
    have := room (x :: before) y after (by rw [cut, List.cons_append]) (by simp)
    simpa using this

end Batching
