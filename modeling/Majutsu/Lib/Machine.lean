import Mathlib.Tactic.Common

/-!
# Labelled runs

Runs of a step relation with labels, and the rule that what every step
preserves holds at the end of a run. A machine given by a partial function can
be run on a list of labels, which is how single schedules are computed.
-/

namespace Machine

variable {σ ε : Type}

inductive Run (step : σ → ε → σ → Prop) : σ → List ε → σ → Prop where
  | nil {s : σ} : Run step s [] s
  | cons {s mid last : σ} {e : ε} {es : List ε} :
      step s e mid → Run step mid es last → Run step s (e :: es) last

/-- The steps that meet a condition on the state before them. -/
def Meeting (step : σ → ε → σ → Prop) (meets : σ → ε → Prop) (s : σ) (e : ε) (s' : σ) : Prop :=
  step s e s' ∧ meets s e

/-- Where a process is that did not just go there, it was before. -/
theorem of_update {ι α : Type} [DecidableEq ι] {f : ι → α} {i j : ι} {next now : α}
    (h : Function.update f i next j = now) (ne : next ≠ now) : j ≠ i ∧ f j = now := by
  by_cases same : j = i
  · rw [same, Function.update_self] at h
    exact absurd h ne
  · rw [Function.update_of_ne same] at h
    exact ⟨same, h⟩

def Computes (exec : σ → ε → Option σ) (s : σ) (e : ε) (s' : σ) : Prop := exec s e = some s'

variable {step : σ → ε → σ → Prop} {I : σ → Prop} {s s' : σ} {events : List ε} {f : σ → ε → σ}

theorem Run.invariant (run : Run step s events s') (keeps : ∀ {s e s'}, step s e s' → I s → I s')
    (start : I s) : I s' := by
  induction run with
  | nil => exact start
  | cons first _ ih => exact ih (keeps first start)

theorem Run.mono {step' : σ → ε → σ → Prop} (run : Run step s events s')
    (weaker : ∀ {s e s'}, step s e s' → step' s e s') : Run step' s events s' := by
  induction run with
  | nil => exact .nil
  | cons first _ ih => exact .cons (weaker first) ih

def execAll (exec : σ → ε → Option σ) (s : σ) : List ε → Option σ
  | [] => some s
  | e :: es => (exec s e).bind (fun mid => execAll exec mid es)

/-- Refuse the steps that do not meet a condition. -/
def guarded (exec : σ → ε → Option σ) (meets : σ → ε → Prop) [∀ s e, Decidable (meets s e)] (s : σ)
    (e : ε) : Option σ :=
  if meets s e then exec s e else none

theorem guarded_meeting {exec : σ → ε → Option σ} {meets : σ → ε → Prop}
    [∀ s e, Decidable (meets s e)] {e : ε} (h : guarded exec meets s e = some s') :
    Meeting (Computes exec) meets s e s' := by
  simp only [guarded] at h
  split at h
  · next ok => exact ⟨h, ok⟩
  · cases h

theorem run_of_execAll {exec : σ → ε → Option σ}
    (sound : ∀ {s e s'}, exec s e = some s' → step s e s') (h : execAll exec s events = some s') :
    Run step s events s' := by
  induction events generalizing s with
  | nil =>
    cases h
    exact .nil
  | cons e es ih =>
    obtain ⟨mid, first, rest⟩ := Option.bind_eq_some_iff.mp h
    exact .cons (sound first) (ih rest)

theorem exists_run_of_execAll (exec : σ → ε → Option σ)
    (sound : ∀ {s e s'}, exec s e = some s' → step s e s') (s : σ) (events : List ε) (p : σ → Bool)
    (h : (execAll exec s events).any p = true) : ∃ s', Run step s events s' ∧ p s' = true := by
  cases last : execAll exec s events with
  | none => simp [last] at h
  | some s' => exact ⟨s', run_of_execAll sound last, by simpa [last] using h⟩

/-- The steps of a machine, each with the state before it. -/
def visited (f : σ → ε → σ) (s : σ) : List ε → List (σ × ε)
  | [] => []
  | e :: es => (s, e) :: visited f (f s e) es

/-- The states that a machine comes through, the first and the last one included. -/
def reached (f : σ → ε → σ) (s : σ) : List ε → List σ
  | [] => [s]
  | e :: es => s :: reached f (f s e) es

theorem reached_invariant {allowed : σ → ε → Prop} (keeps : ∀ {s e}, allowed s e → I s → I (f s e))
    (all : ∀ pair ∈ visited f s events, allowed pair.1 pair.2) (start : I s) :
    ∀ state ∈ reached f s events, I state := by
  induction events generalizing s with
  | nil => simpa [reached] using start
  | cons e es ih =>
    rw [visited, List.forall_mem_cons] at all
    rw [reached, List.forall_mem_cons]
    exact ⟨start, ih all.2 (keeps all.1 start)⟩

theorem visited_iff {P : σ → Prop} {allowed meets : σ → ε → Prop}
    (keeps : ∀ {s e}, allowed s e → I s → I (f s e))
    (step : ∀ {s e}, allowed s e → I s → P s → (P (f s e) ↔ meets s e))
    (all : ∀ pair ∈ visited f s events, allowed pair.1 pair.2) (start : I s) (holds : P s) :
    (∀ pair ∈ visited f s events, P (f pair.1 pair.2)) ↔
      ∀ pair ∈ visited f s events, meets pair.1 pair.2 := by
  induction events generalizing s with
  | nil => simp [visited]
  | cons e es ih =>
    rw [visited, List.forall_mem_cons] at all
    rw [visited, List.forall_mem_cons, List.forall_mem_cons, step all.1 start holds]
    refine and_congr_right fun met => ?_
    exact ih all.2 (keeps all.1 start) ((step all.1 start holds).mpr met)

end Machine
