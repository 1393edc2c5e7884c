import Mathlib.Data.List.Basic

/-!
# Computations that append

A computation that pushes elements to the end of a list which it does not read,
and may fail. What was pushed before a failure stays.
-/

structure Appending (ε α β : Type) where
  pushed : List α
  result : Except ε β

namespace Appending

variable {ε α β γ : Type}

def bind (x : Appending ε α β) (f : β → Appending ε α γ) : Appending ε α γ :=
  match x.result with
  | .error e => ⟨x.pushed, .error e⟩
  | .ok b => ⟨x.pushed ++ (f b).pushed, (f b).result⟩

instance : Monad (Appending ε α) where
  pure b := ⟨[], .ok b⟩
  bind := bind

def pushAll (xs : List α) : Appending ε α Unit := ⟨xs, .ok ()⟩

def of (x : Except ε β) : Appending ε α β := ⟨[], x⟩

theorem bind_ok {x : Appending ε α β} {f : β → Appending ε α γ} {xs ys : List α} {b : β} {c : γ}
    (first : x = ⟨xs, .ok b⟩) (rest : f b = ⟨ys, .ok c⟩) : x >>= f = ⟨xs ++ ys, .ok c⟩ := by
  subst first
  show Appending.bind _ f = _
  simp only [Appending.bind, rest]

theorem of_bind {x : Except ε β} {f : β → Appending ε α γ} {ys : List α} {b : β} {c : γ}
    (first : x = .ok b) (rest : f b = ⟨ys, .ok c⟩) : of x >>= f = ⟨ys, .ok c⟩ := by
  subst first
  exact bind_ok (rfl : of (.ok b) = ⟨[], .ok b⟩) rest

theorem forM_ok {xs : List β} {f : β → Appending ε α Unit} {pushes : β → List α}
    (round : ∀ x ∈ xs, f x = ⟨pushes x, .ok ()⟩) : xs.forM f = ⟨xs.flatMap pushes, .ok ()⟩ := by
  induction xs with
  | nil => rfl
  | cons x xs ih =>
    have rest := ih (fun y inside => round y (List.mem_cons_of_mem x inside))
    exact bind_ok (round x List.mem_cons_self) rest

end Appending
