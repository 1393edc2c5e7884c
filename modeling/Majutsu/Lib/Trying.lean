import Majutsu.Lib.Completion

/-!
# Triples for programs that fail

`Keeps` says nothing of a program that returned an error. Where the rest of a program
cleans up after an error it needs to know what still holds: `Tries` has a second condition
for that case.
-/

open Relation

namespace Prog

variable {Label : Type} {Answer : Label → Type} {α β σ ε : Type}
variable {M : (l : Label) → σ → Option (Answer l) → σ → Prop} {R : σ → σ → Prop}
  {G : Label → σ → σ → Prop}

/-- `I` holds throughout; `Q` after a value, `E` after an error. -/
def Tries (M : (l : Label) → σ → Option (Answer l) → σ → Prop) (R : σ → σ → Prop)
    (G : Label → σ → σ → Prop) (I P : σ → Prop) (p : Fallible Answer ε α) (Q : α → σ → Prop)
    (E : σ → Prop) : Prop :=
  ∀ s, I s → P s → Safe M R G (fun r t => I t ∧ Either Q E r t) p s

variable {I P E : σ → Prop} {Q : α → σ → Prop}

theorem Tries.pure {a : α} (stableI : Stable R I) (stableP : Stable R P)
    (h : ∀ s, I s → P s → Q a s) :
    Tries M R G I P (Pure.pure a : Fallible Answer ε α) Q E :=
  fun _ hI hP t path => ⟨stableI.path path hI, h t (stableI.path path hI) (stableP.path path hP)⟩

theorem Tries.fail {e : ε} (stableI : Stable R I) (stableP : Stable R P)
    (h : ∀ s, I s → P s → E s) :
    Tries M R G I P (Fallible.fail e : Fallible Answer ε α) Q E :=
  fun _ hI hP t path => ⟨stableI.path path hI, h t (stableI.path path hI) (stableP.path path hP)⟩

variable {p : Fallible Answer ε α} {E' F : σ → Prop}

theorem Tries.bind {Q' : β → σ → Prop} {f : α → Fallible Answer ε β} (stableI : Stable R I)
    (stableE : Stable R E) (first : Tries M R G I P p Q E)
    (rest : ∀ a, Tries M R G I (Q a) (f a) Q' E) : Tries M R G I P (p >>= f) Q' E := by
  intro s hI hP
  refine Safe.bind (first s hI hP) (fun r t holds => ?_)
  obtain ⟨invariant, post⟩ := holds t .refl
  cases r with
  | ok a => exact rest a t invariant post
  | error e => exact fun u later => ⟨stableI.path later invariant, stableE.path later post⟩

theorem Tries.act {l : Label} {next : Answer l → Prog Answer (Except ε α)}
    (result : Answer l → Except ε α) (returns : ∀ r, next r = .ret (result r))
    (stableI : Stable R I) (stableP : Stable R P) (stableQ : ∀ a, Stable R (Q a))
    (stableE : Stable R E)
    (acts : ∀ s o s', I s → P s → M l s o s' →
      G l s s' ∧ ∀ r, o = some r → I s' ∧ Either Q E (result r) s') :
    Tries M R G I P (.act l next : Fallible Answer ε α) Q E := by
  intro s hI hP t path o t' does
  obtain ⟨moved, post⟩ := acts t o t' (stableI.path path hI) (stableP.path path hP) does
  refine ⟨moved, fun r eq => ?_⟩
  obtain ⟨invariant, holds⟩ := post r eq
  rw [returns r]
  intro u later
  refine ⟨stableI.path later invariant, ?_⟩
  cases answer : result r with
  | ok a =>
    rw [answer] at holds
    exact (stableQ a).path later holds
  | error e =>
    rw [answer] at holds
    exact stableE.path later holds

theorem Tries.outcome (h : Tries M R G I P p Q E) :
    Tries M R G I P p.outcome (fun r t => Either Q E r t) E' := by
  intro s hI hP
  exact Safe.bind (h s hI hP) fun r t holds u later => holds u later

theorem Tries.ite {c : Prop} [Decidable c] {q : Fallible Answer ε α}
    (pos : c → Tries M R G I P p Q E) (neg : ¬c → Tries M R G I P q Q E) :
    Tries M R G I P (if c then p else q) Q E := by
  split
  · next h => exact pos h
  · next h => exact neg h

theorem Tries.conseq {P' : σ → Prop} {Q' : α → σ → Prop} (h : Tries M R G I P p Q E)
    (pre : ∀ s, I s → P' s → P s) (post : ∀ a s, Q a s → Q' a s) (error : ∀ s, E s → E' s) :
    Tries M R G I P' p Q' E' := by
  intro s hI hP
  refine (h s hI (pre s hI hP)).mono (fun _ _ h => h) (fun _ _ _ h => h) ?_
  rintro r t ⟨invariant, holds⟩
  refine ⟨invariant, ?_⟩
  cases r with
  | ok a => exact post a t holds
  | error e => exact error t holds

theorem Tries.frame (h : Tries M R G I P p Q E) (stable : Stable R F)
    (own : ∀ l a b, G l a b → F a → F b) :
    Tries M R G I (fun s => P s ∧ F s) p (fun a s => Q a s ∧ F s) E := by
  rintro s hI ⟨hP, hF⟩
  refine ((h s hI hP).frame stable own hF).mono (fun _ _ rely => rely) (fun _ _ _ moved => moved) ?_
  rintro r t ⟨⟨invariant, either⟩, holds⟩
  refine ⟨invariant, ?_⟩
  cases r with
  | ok a => exact ⟨either, holds⟩
  | error e => exact either

theorem Tries.of_uses {sort : Label → Prop} (uses : Uses sort p) (stableI : Stable R I)
    (stableF : Stable R F)
    (acts : ∀ l, sort l → ∀ s o s', I s → F s → M l s o s' → G l s s' ∧ I s' ∧ F s') :
    Tries M R G I F p (fun _ => F) F := by
  intro s hI hF
  have stable : Stable R fun t => I t ∧ F t :=
    fun a b rely before => ⟨stableI a b rely before.1, stableF a b rely before.2⟩
  refine (Safe.of_uses (F := fun t => I t ∧ F t) uses stable ?_ ⟨hI, hF⟩).mono
    (fun _ _ rely => rely) (fun _ _ _ moved => moved) ?_
  · intro l sorted t o t' before does
    exact acts l sorted t o t' before.1 before.2 does
  · rintro r t ⟨invariant, holds⟩
    refine ⟨invariant, ?_⟩
    cases r with
    | ok _ => exact holds
    | error _ => exact holds

theorem Tries.ignored (h : Tries M R G I P p (fun _ => F) F) :
    Tries M R G I P p.outcome (fun _ => F) E' := by
  refine h.outcome.conseq (fun _ _ before => before) ?_ fun _ error => error
  intro r s either
  cases r with
  | ok _ => exact either
  | error _ => exact either

end Prog
