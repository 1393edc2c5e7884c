import Mathlib.Logic.Relation
import Mathlib.Tactic.Common

/-!
# Critical sections over durable state

No other thread interrupts a critical section. Each of its operations has a fate:
it takes effect, it fails and changes nothing, or the process stops right there.
The list of fates is an argument, so a statement about every list of fates covers
every failure and every crash point.

`Spec R P m Q E` says that from a state with `P` the section moves along `R`,
one operation at a time, whatever the fates are; a normal result satisfies `Q`
and an error `E`. A stopped section promises the path only.
-/

namespace Critical

/-- What happens to one operation. `elapsed` is the time it takes. -/
inductive Fate where
  | works (elapsed : Nat)
  | fails
  | stops
  deriving DecidableEq

inductive Outcome (ε α : Type) where
  | done (value : α)
  | error (reason : ε)
  | stopped
  deriving DecidableEq

structure Result (σ ε α : Type) where
  outcome : Outcome ε α
  fates : List Fate
  state : σ

end Critical

def Critical (σ ε α : Type) : Type :=
  List Critical.Fate → σ → Critical.Result σ ε α

namespace Critical

open Relation

variable {σ ε α β : Type}

def pure (a : α) : Critical σ ε α := fun fates s => ⟨.done a, fates, s⟩

def bind (m : Critical σ ε α) (f : α → Critical σ ε β) : Critical σ ε β := fun fates s =>
  match m fates s with
  | ⟨.done a, rest, s'⟩ => f a rest s'
  | ⟨.error e, rest, s'⟩ => ⟨.error e, rest, s'⟩
  | ⟨.stopped, rest, s'⟩ => ⟨.stopped, rest, s'⟩

instance : Monad (Critical σ ε) where
  pure := pure
  bind := bind

/-- An early return with an error; what was written before stays written. -/
def fail (e : ε) : Critical σ ε α := fun fates s => ⟨.error e, fates, s⟩

/-- Look at the state. Nothing can go wrong here. -/
def look (f : σ → α) : Critical σ ε α := fun fates s => ⟨.done (f s), fates, s⟩

/-- Change the volatile part of the state. -/
def update (f : σ → σ) : Critical σ ε Unit := fun fates s => ⟨.done (), fates, f s⟩

/-- One operation on the outside world. `refused` is the error of a failed operation;
`f` may itself report an error, and then leaves the state alone. -/
def attempt (refused : ε) (f : Nat → σ → Except ε (α × σ)) : Critical σ ε α := fun fates s =>
  match fates with
  | .fails :: rest => ⟨.error refused, rest, s⟩
  | .stops :: rest => ⟨.stopped, rest, s⟩
  | .works elapsed :: rest =>
    match f elapsed s with
    | .ok (a, s') => ⟨.done a, rest, s'⟩
    | .error e => ⟨.error e, rest, s⟩
  | [] =>
    match f 0 s with
    | .ok (a, s') => ⟨.done a, [], s'⟩
    | .error e => ⟨.error e, [], s⟩

/-- Let time pass. This cannot fail, but the process may stop here too. -/
def elapse (f : Nat → σ → α × σ) : Critical σ ε α := fun fates s =>
  match fates with
  | .stops :: rest => ⟨.stopped, rest, s⟩
  | .works elapsed :: rest => ⟨.done (f elapsed s).1, rest, (f elapsed s).2⟩
  | .fails :: rest => ⟨.done (f 0 s).1, rest, (f 0 s).2⟩
  | [] => ⟨.done (f 0 s).1, [], (f 0 s).2⟩

/-- Run `h` on the error of `m`. -/
def handle (m : Critical σ ε α) (h : ε → Critical σ ε α) : Critical σ ε α := fun fates s =>
  match m fates s with
  | ⟨.error e, rest, s'⟩ => h e rest s'
  | result => result

/-- Go on only under a condition. -/
def require (c : Bool) (e : ε) : Critical σ ε Unit := if c then pure () else fail e

def when (c : Bool) (m : Critical σ ε Unit) : Critical σ ε Unit := if c then m else pure ()

/-- The fate of the next operation; an exhausted list lets everything work. -/
def nextFate : List Fate → Fate × List Fate
  | [] => (.works 0, [])
  | fate :: rest => (fate, rest)

theorem attempt_eq (refused : ε) (f : Nat → σ → Except ε (α × σ)) (fates : List Fate) (s : σ) :
    attempt refused f fates s =
      match (nextFate fates).1 with
      | .fails => ⟨.error refused, (nextFate fates).2, s⟩
      | .stops => ⟨.stopped, (nextFate fates).2, s⟩
      | .works elapsed =>
        match f elapsed s with
        | .ok (a, s') => ⟨.done a, (nextFate fates).2, s'⟩
        | .error e => ⟨.error e, (nextFate fates).2, s⟩ := by
  rcases fates with _ | ⟨_ | _ | _, rest⟩ <;> rfl

/-- The verdict on one result. -/
def Accepts (Q : α → σ → Prop) (E : ε → σ → Prop) (r : Result σ ε α) : Prop :=
  match r.outcome with
  | .done a => Q a r.state
  | .error e => E e r.state
  | .stopped => True

def Spec (R : σ → σ → Prop) (P : σ → Prop) (m : Critical σ ε α)
    (Q : α → σ → Prop) (E : ε → σ → Prop) : Prop :=
  ∀ fates s, P s → ReflTransGen R s (m fates s).state ∧ Accepts Q E (m fates s)

namespace Spec

variable {R : σ → σ → Prop} {P : σ → Prop} {m : Critical σ ε α}
  {Q : α → σ → Prop} {E : ε → σ → Prop}

theorem path (h : Spec R P m Q E) (fates : List Fate) {s : σ} (hs : P s) :
    ReflTransGen R s (m fates s).state :=
  (h fates s hs).1

theorem conseq {P' : σ → Prop} {Q' : α → σ → Prop} {E' : ε → σ → Prop}
    (h : Spec R P m Q E) (pre : ∀ s, P' s → P s) (post : ∀ a s, Q a s → Q' a s)
    (err : ∀ e s, E e s → E' e s) : Spec R P' m Q' E' := by
  intro fates s hs
  obtain ⟨hp, ha⟩ := h fates s (pre s hs)
  refine ⟨hp, ?_⟩
  unfold Accepts at ha ⊢
  split
  · next a heq => rw [heq] at ha; exact post a _ ha
  · next e heq => rw [heq] at ha; exact err e _ ha
  · trivial

theorem weaken {Q' : α → σ → Prop} (h : Spec R P m Q E) (post : ∀ a s, Q a s → Q' a s) :
    Spec R P m Q' E :=
  h.conseq (fun _ h => h) post (fun _ _ h => h)

theorem pure (a : α) (h : ∀ s, P s → Q a s) : Spec R P (Pure.pure a : Critical σ ε α) Q E :=
  fun _ s hs => ⟨.refl, h s hs⟩

theorem fail (e : ε) (h : ∀ s, P s → E e s) : Spec R P (Critical.fail e : Critical σ ε α) Q E :=
  fun _ s hs => ⟨.refl, h s hs⟩

theorem look (f : σ → α) (h : ∀ s, P s → Q (f s) s) :
    Spec R P (Critical.look f : Critical σ ε α) Q E :=
  fun _ s hs => ⟨.refl, h s hs⟩

theorem update {Q : Unit → σ → Prop} (f : σ → σ) (h : ∀ s, P s → R s (f s) ∧ Q () (f s)) :
    Spec R P (Critical.update f : Critical σ ε Unit) Q E :=
  fun _ s hs => ⟨.single (h s hs).1, (h s hs).2⟩

theorem attempt {refused : ε} {f : Nat → σ → Except ε (α × σ)}
    (works : ∀ s n a s', P s → f n s = .ok (a, s') → R s s' ∧ Q a s')
    (reports : ∀ s n e, P s → f n s = .error e → E e s)
    (fails : ∀ s, P s → E refused s) :
    Spec R P (Critical.attempt refused f) Q E := by
  intro fates s hs
  rw [attempt_eq]
  cases (nextFate fates).1 with
  | fails => exact ⟨.refl, fails s hs⟩
  | stops => exact ⟨.refl, trivial⟩
  | works elapsed =>
    cases hf : f elapsed s with
    | error e => simpa only [hf] using ⟨ReflTransGen.refl, reports s elapsed e hs hf⟩
    | ok r =>
      obtain ⟨hR, hQ⟩ := works s elapsed r.1 r.2 hs hf
      simpa only [hf] using ⟨ReflTransGen.single hR, hQ⟩

theorem elapse {f : Nat → σ → α × σ}
    (h : ∀ s n, P s → R s (f n s).2 ∧ Q (f n s).1 (f n s).2) :
    Spec R P (Critical.elapse f : Critical σ ε α) Q E := by
  intro fates s hs
  unfold Critical.elapse
  rcases fates with _ | ⟨_ | _ | _, rest⟩
  · exact ⟨.single (h s 0 hs).1, (h s 0 hs).2⟩
  · exact ⟨.single (h s _ hs).1, (h s _ hs).2⟩
  · exact ⟨.single (h s 0 hs).1, (h s 0 hs).2⟩
  · exact ⟨.refl, trivial⟩

theorem bind {Q' : β → σ → Prop} {f : α → Critical σ ε β} (first : Spec R P m Q E)
    (rest : ∀ a, Spec R (Q a) (f a) Q' E) : Spec R P (m >>= f) Q' E := by
  intro fates s hs
  obtain ⟨hp, ha⟩ := first fates s hs
  change ReflTransGen R s (Critical.bind m f fates s).state ∧ _
  unfold Critical.bind
  change _ ∧ Accepts Q' E (Critical.bind m f fates s)
  unfold Critical.bind
  rcases hm : m fates s with ⟨o, fates', s'⟩
  rw [hm] at hp ha
  cases o with
  | done a =>
    obtain ⟨hp', ha'⟩ := rest a fates' s' ha
    exact ⟨hp.trans hp', ha'⟩
  | error e => exact ⟨hp, ha⟩
  | stopped => exact ⟨hp, trivial⟩

theorem handle {E' : ε → σ → Prop} {h : ε → Critical σ ε α} (first : Spec R P m Q E')
    (rest : ∀ e, Spec R (E' e) (h e) Q E) : Spec R P (Critical.handle m h) Q E := by
  intro fates s hs
  obtain ⟨hp, ha⟩ := first fates s hs
  unfold Critical.handle
  rcases hm : m fates s with ⟨o, fates', s'⟩
  rw [hm] at hp ha
  cases o with
  | done a => exact ⟨hp, ha⟩
  | stopped => exact ⟨hp, trivial⟩
  | error e =>
    obtain ⟨hp', ha'⟩ := rest e fates' s' ha
    exact ⟨hp.trans hp', ha'⟩

theorem ite {c : Prop} [Decidable c] {m' : Critical σ ε α}
    (pos : c → Spec R P m Q E) (neg : ¬c → Spec R P m' Q E) :
    Spec R P (if c then m else m') Q E := by
  split
  · next h => exact pos h
  · next h => exact neg h

theorem require {Q : Unit → σ → Prop} {c : Bool} {e : ε} (pos : c = true → ∀ s, P s → Q () s)
    (neg : c = false → ∀ s, P s → E e s) : Spec R P (Critical.require c e) Q E := by
  cases c with
  | true => exact Spec.pure () (pos rfl)
  | false => exact Spec.fail e (neg rfl)

theorem when {Q : Unit → σ → Prop} {c : Bool} {m : Critical σ ε Unit}
    (pos : c = true → Spec R P m Q E) (neg : c = false → ∀ s, P s → Q () s) :
    Spec R P (Critical.when c m) Q E := by
  cases c with
  | true => exact pos rfl
  | false => exact Spec.pure () (neg rfl)

theorem preserves {I : σ → Prop} (h : Spec R P m Q E)
    (keeps : ∀ s s', I s → R s s' → I s') :
    Spec R (fun s => P s ∧ I s) m (fun a s => Q a s ∧ I s) (fun e s => E e s ∧ I s) := by
  rintro fates s ⟨hs, hi⟩
  obtain ⟨hp, ha⟩ := h fates s hs
  have last : I (m fates s).state := by
    refine ReflTransGen.head_induction_on (motive := fun a _ => I a → I (m fates s).state)
      hp id ?_ hi
    intro a c hac _ ih ha'
    exact ih (keeps a c ha' hac)
  refine ⟨hp, ?_⟩
  unfold Accepts at ha ⊢
  split
  · next a heq => rw [heq] at ha; exact ⟨ha, last⟩
  · next e heq => rw [heq] at ha; exact ⟨ha, last⟩
  · trivial

end Spec

end Critical
