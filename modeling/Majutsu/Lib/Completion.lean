import Majutsu.Lib.Executions
import Mathlib.Data.List.Forall2

/-!
# Programs that come to an end

`Ends M Q p s` says that `p`, started in `s` and left alone, returns whatever the
scheduler and the environment choose, and that every value it returns satisfies
`Q`. `Safe` promises nothing of a thread that stops, or that waits for an answer
which never comes. Let both of these be moves to a state with nothing in it: then
`Safe` excludes them, and its rules for sequences and for threads can be used.
-/

open Relation

namespace Prog

variable {Label : Type} {Answer : Label → Type} {α β σ ε : Type}

def Ends (M : (l : Label) → σ → Option (Answer l) → σ → Prop) (Q : α → σ → Prop) :
    Prog Answer α → σ → Prop
  | ret a, s => Q a s
  | act l next, s => (∃ r s', M l s (some r) s') ∧
      ∀ o s', M l s o s' → ∃ r, o = some r ∧ Ends M Q (next r) s'
  | alt p q, s => Ends M Q p s ∧ Ends M Q q s

variable {p : Prog Answer α}

theorem Ends.mono {M : (l : Label) → σ → Option (Answer l) → σ → Prop} {Q Q' : α → σ → Prop} {s : σ}
    (ends : Ends M Q p s) (post : ∀ a t, Q a t → Q' a t) : Ends M Q' p s := by
  induction p generalizing s with
  | ret a => exact post a s ends
  | act l next ih =>
    refine ⟨ends.1, fun o s' does => ?_⟩
    obtain ⟨r, eq, rest⟩ := ends.2 o s' does
    exact ⟨r, eq, ih r rest⟩
  | alt p q ihp ihq => exact ⟨ihp ends.1, ihq ends.2⟩

theorem Ends.bind {M : (l : Label) → σ → Option (Answer l) → σ → Prop} {Q : α → σ → Prop}
    {Q' : β → σ → Prop} {f : α → Prog Answer β} {s : σ} (first : Ends M Q p s)
    (rest : ∀ a t, Q a t → Ends M Q' (f a) t) : Ends M Q' (p.bind f) s := by
  induction p generalizing s with
  | ret a => exact rest a s first
  | act l next ih =>
    refine ⟨first.1, fun o s' does => ?_⟩
    obtain ⟨r, eq, more⟩ := first.2 o s' does
    exact ⟨r, eq, ih r more⟩
  | alt p q ihp ihq => exact ⟨ihp first.1, ihq first.2⟩

/-- One condition for a value, another for an error. -/
def Either (Q : α → σ → Prop) (E : σ → Prop) : Except ε α → σ → Prop
  | .ok a, s => Q a s
  | .error _, s => E s

theorem Ends.fallible_bind {M : (l : Label) → σ → Option (Answer l) → σ → Prop} {Q : α → σ → Prop}
    {Q' : β → σ → Prop} {E : σ → Prop} {p : Fallible Answer ε α} {f : α → Fallible Answer ε β}
    {s : σ} (first : Ends M (Either Q E) p s)
    (rest : ∀ a t, Q a t → Ends M (Either Q' E) (f a) t) :
    Ends M (Either Q' E) (p >>= f : Fallible Answer ε β) s := by
  refine Ends.bind first (fun r t holds => ?_)
  cases r with
  | ok a => exact rest a t holds
  | error e => exact holds

/-- Stopping, and an action without an answer, leave no state. -/
inductive Strict (M : (l : Label) → σ → Option (Answer l) → σ → Prop) :
    (l : Label) → Option σ → Option (Answer l) → Option σ → Prop where
  | answered {l : Label} {s s' : σ} {r : Answer l} :
      M l s (some r) s' → Strict M l (some s) (some r) (some s')
  | stopped {l : Label} {s s' : σ} : M l s none s' → Strict M l (some s) none none
  | stuck {l : Label} {s : σ} : (∀ r s', ¬M l s (some r) s') → Strict M l (some s) none none

/-- `Safe`, for a thread that must go on to its end. -/
def Sure (M : (l : Label) → σ → Option (Answer l) → σ → Prop) (R : σ → σ → Prop)
    (G : Label → σ → σ → Prop) (Q : α → σ → Prop) (p : Prog Answer α) (s : σ) : Prop :=
  Safe (Strict M) (Option.Rel R) (fun l => Option.Rel (G l)) (fun a t => ∃ u, t = some u ∧ Q a u)
    p (some s)

variable {M : (l : Label) → σ → Option (Answer l) → σ → Prop} {R : σ → σ → Prop}
  {G : Label → σ → σ → Prop} {Q : α → σ → Prop} {s s' : σ}

theorem path_of_rel {t : Option σ} (path : ReflTransGen (Option.Rel R) (some s) t) :
    ∃ u, t = some u ∧ ReflTransGen R s u := by
  induction path with
  | refl => exact ⟨s, rfl, .refl⟩
  | tail _ last ih =>
    obtain ⟨u, rfl, before⟩ := ih
    cases last with
    | some step => exact ⟨_, rfl, before.tail step⟩

theorem Sure.ret {a : α} (h : ∀ t, ReflTransGen R s t → Q a t) :
    Sure M R G Q (.ret a : Prog Answer α) s := by
  intro t path
  obtain ⟨u, rfl, own⟩ := path_of_rel path
  exact ⟨u, rfl, h u own⟩

theorem Sure.act {l : Label} {next : Answer l → Prog Answer α}
    (enabled : ∀ t, ReflTransGen R s t → ∃ r t', M l t (some r) t')
    (acts : ∀ t, ReflTransGen R s t → ∀ o t', M l t o t' →
      G l t t' ∧ ∃ r, o = some r ∧ Sure M R G Q (next r) t') :
    Sure M R G Q (.act l next) s := by
  intro t path o t' h
  obtain ⟨u, rfl, own⟩ := path_of_rel path
  cases h with
  | answered does =>
    obtain ⟨moved, r, eq, rest⟩ := acts u own _ _ does
    refine ⟨.some moved, ?_⟩
    intro _ ok
    rw [eq] at ok
    cases ok
    exact rest
  | stopped does =>
    obtain ⟨-, r, eq, -⟩ := acts u own _ _ does
    cases eq
  | stuck none_ =>
    obtain ⟨r, t', does⟩ := enabled u own
    exact absurd does (none_ r t')

theorem Sure.parAll {ι : Type} {G : ι → Label → σ → σ → Prop} {Q : ι → α → σ → Prop}
    (f : ι → Prog Answer α) (is : List ι) (nodup : is.Nodup)
    (each : ∀ i ∈ is, Sure M (fun a b => R a b ∨ ∃ j ∈ is, j ≠ i ∧ ∃ l, G j l a b) (G i) (Q i)
      (f i) s) :
    Sure M R (fun l a b => ∃ i ∈ is, G i l a b)
      (fun rs t => List.Forall₂ (fun i r => Q i r t) is rs) (parAll (is.map f)) s := by
  have threads := Safe.parAll (M := Strict M) (R := Option.Rel R) (s := some s)
    (G := fun i l => Option.Rel (G i l)) (Q := fun i a t => ∃ u, t = some u ∧ Q i a u)
    f is nodup (fun i member => by
      refine Safe.mono (each i member) ?_ (fun _ _ _ h => h) (fun _ _ h => h)
      rintro a b ((step | _) | ⟨j, inside, other, l, (step | _)⟩)
      · exact .some (Or.inl step)
      · exact .none
      · exact .some (Or.inr ⟨j, inside, other, l, step⟩)
      · exact .none)
  have alive : Stable (Option.Rel R) (fun t : Option σ => ∃ u, t = some u) := by
    rintro _ _ (step | _) ⟨u, eq⟩
    · exact ⟨_, rfl⟩
    · cases eq
  have framed := threads.frame alive (by
    rintro l _ _ ⟨i, -, (step | _)⟩ ⟨u, eq⟩
    · exact ⟨_, rfl⟩
    · cases eq) ⟨s, rfl⟩
  refine framed.mono (fun _ _ h => h) ?_ ?_
  · rintro l _ _ ⟨i, member, (step | _)⟩
    · exact .some ⟨i, member, step⟩
    · exact .none
  · rintro rs _ ⟨all, u, rfl⟩
    refine ⟨u, rfl, all.imp ?_⟩
    rintro i r ⟨v, eq, post⟩
    cases eq
    exact post

theorem Sure.frame {F : σ → Prop} (sure : Sure M R G Q p s) (stable : Stable R F)
    (own : ∀ l a b, G l a b → F a → F b) (hF : F s) : Sure M R G (fun r t => Q r t ∧ F t) p s := by
  have framed := Safe.frame (F := fun t => ∃ u, t = some u ∧ F u) sure
    (by
      rintro _ _ (step | _) ⟨u, eq, holds⟩
      · cases eq
        exact ⟨_, rfl, stable _ _ step holds⟩
      · cases eq)
    (by
      rintro l _ _ (step | _) ⟨u, eq, holds⟩
      · cases eq
        exact ⟨_, rfl, own l _ _ step holds⟩
      · cases eq) ⟨s, rfl, hF⟩
  refine framed.mono (fun _ _ h => h) (fun _ _ _ h => h) ?_
  rintro a _ ⟨⟨u, rfl, post⟩, v, eq, holds⟩
  cases eq
  exact ⟨u, rfl, post, holds⟩

theorem Sure.ends (sure : Sure M Alone G Q p s) : Ends M Q p s := by
  induction p generalizing s with
  | ret a =>
    obtain ⟨u, eq, post⟩ := sure (some s) .refl
    cases eq
    exact post
  | act l next ih =>
    have enabled : ∃ r s', M l s (some r) s' := by
      by_contra none_
      push Not at none_
      obtain ⟨moved, -⟩ := sure (some s) .refl none none (.stuck none_)
      cases moved
    refine ⟨enabled, ?_⟩
    intro o s' does
    cases o with
    | none =>
      obtain ⟨moved, -⟩ := sure (some s) .refl none none (.stopped does)
      cases moved
    | some r =>
      obtain ⟨-, rest⟩ := sure (some s) .refl (some r) (some s') (.answered does)
      exact ⟨r, rfl, ih r (rest r rfl)⟩
  | alt p q ihp ihq => exact ⟨ihp sure.1, ihq sure.2⟩

end Prog
