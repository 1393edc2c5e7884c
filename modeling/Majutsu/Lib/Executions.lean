import Majutsu.Lib.Interaction

/-!
# Runs of a program on its own

`Exec` is the meaning of a program that no other thread disturbs. A safe
program then moves along its guarantee from the first state to the last. For
particular runs an interpreter follows a function that performs the actions.
-/

open Relation

namespace Prog

variable {Label : Type} {Answer : Label → Type} {α β σ ε : Type}
variable {M : (l : Label) → σ → Option (Answer l) → σ → Prop}
variable {G : Label → σ → σ → Prop} {Q : α → σ → Prop} {p : Prog Answer α} {s s' : σ}

def Alone (_ _ : σ) : Prop := False

theorem stable_alone (P : σ → Prop) : Stable Alone P := fun _ _ none _ => none.elim

/-- Follow a function that performs the actions; the scheduler always takes the first choice. -/
def run (perform : (l : Label) → σ → Option (Answer l × σ)) : Prog Answer α → σ → Option (α × σ)
  | ret a, s => some (a, s)
  | act l next, s =>
    match perform l s with
    | none => none
    | some (r, s') => run perform (next r) s'
  | alt p _, s => run perform p s

section Sequence

variable {perform : (l : Label) → σ → Option (Answer l × σ)}

theorem run_perform {l : Label} : run perform (Prog.perform l) s = perform l s := by
  rw [Prog.perform, run]
  cases perform l s <;> rfl

theorem run_query {l : Label} {r : Answer l} (h : perform l s = some (r, s')) :
    run perform (Fallible.query l : Fallible Answer ε (Answer l)) s = some (.ok r, s') := by
  rw [Fallible.query, run, h]
  rfl

theorem run_bind {f : α → Prog Answer β} {a : α} (h : run perform p s = some (a, s')) :
    run perform (p.bind f) s = run perform (f a) s' := by
  induction p generalizing s with
  | ret b =>
    cases h
    rfl
  | act l next ih =>
    rw [run] at h
    rw [Prog.bind, run]
    cases found : perform l s with
    | none => simp [found] at h
    | some answer =>
      obtain ⟨r, t⟩ := answer
      rw [found] at h
      exact ih r h
  | alt p q ihp _ => exact ihp h

theorem run_tryBind {p : Fallible Answer ε α} {f : α → Fallible Answer ε β} {a : α}
    (h : run perform p s = some (.ok a, s')) :
    run perform (Fallible.bind p f) s = run perform (f a) s' :=
  run_bind h

end Sequence

end Prog
