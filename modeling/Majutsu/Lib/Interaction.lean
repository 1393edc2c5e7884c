import Mathlib.Logic.Relation
import Mathlib.Tactic.Common

/-!
# Interaction programs and rely-guarantee reasoning

A program is a tree of atomic actions. An action is a label with a type of
answers; what it does to the shared state is a relation given separately, for
runs alone (`Exec`) and with other threads between the actions (`Step`). The
answer `none` means that the process stopped inside the action.

`Safe M R G Q p s` is the usual rely-guarantee judgement: between the actions
of `p` the environment moves along `R`, every action of `p` is a `G`-move, and
a value that `p` returns satisfies `Q`, which the environment cannot spoil.
-/

open Relation

inductive Prog {Label : Type} (Answer : Label → Type) (α : Type) : Type where
  | ret (a : α)
  | act (l : Label) (next : Answer l → Prog Answer α)
  /-- The scheduler picks one of the two. -/
  | alt (p q : Prog Answer α)

namespace Prog

variable {Label : Type} {Answer : Label → Type} {α β : Type}

def bind : Prog Answer α → (α → Prog Answer β) → Prog Answer β
  | ret a, f => f a
  | act l next, f => act l (fun r => bind (next r) f)
  | alt p q, f => alt (bind p f) (bind q f)

instance : Monad (Prog Answer) where
  pure := ret
  bind := bind

def perform (l : Label) : Prog Answer (Answer l) := act l ret

/-- The interleavings of a program that starts with `l` and the given second program. -/
def parRight (l : Label) (resume : Answer l → Prog Answer β → Prog Answer (α × β)) :
    Prog Answer β → Prog Answer (α × β)
  | ret b => act l (fun r => resume r (ret b))
  | act m more =>
    alt (act l (fun r => resume r (act m more))) (act m (fun r => parRight l resume (more r)))
  | alt q₁ q₂ => alt (parRight l resume q₁) (parRight l resume q₂)

/-- Both programs to their ends, their actions interleaved in any order. -/
def par : Prog Answer α → Prog Answer β → Prog Answer (α × β)
  | ret a => fun q => q.bind (fun b => ret (a, b))
  | act l next => fun q => parRight l (fun r => par (next r)) q
  | alt p₁ p₂ => fun q => alt (par p₁ q) (par p₂ q)

/-- All programs of a list at once; the results keep the order of the list. -/
def parAll : List (Prog Answer α) → Prog Answer (List α)
  | [] => ret []
  | p :: ps => (par p (parAll ps)).bind (fun r => ret (r.1 :: r.2))

/-- Programs that may return early with an error. -/
def Fallible (Answer : Label → Type) (ε α : Type) : Type := Prog Answer (Except ε α)

namespace Fallible

variable {ε : Type}

def pure (a : α) : Fallible Answer ε α := Prog.ret (.ok a)

def fail (e : ε) : Fallible Answer ε α := Prog.ret (.error e)

def bind (p : Fallible Answer ε α) (f : α → Fallible Answer ε β) : Fallible Answer ε β :=
  Prog.bind p (fun r => match r with
    | .ok a => f a
    | .error e => Prog.ret (.error e))

instance : Monad (Fallible Answer ε) where
  pure := pure
  bind := bind

def query (l : Label) : Fallible Answer ε (Answer l) := Prog.act l (fun r => Prog.ret (.ok r))

def outcome (p : Fallible Answer ε α) : Fallible Answer ε (Except ε α) :=
  Prog.bind p (fun r => Prog.ret (.ok r))

end Fallible

section Semantics

variable {σ : Type} (M : (l : Label) → σ → Option (Answer l) → σ → Prop)

/-- One atomic action of a program, labelled by what it performed and was answered. -/
inductive Step : Prog Answer α → σ → (l : Label) → Answer l → Prog Answer α → σ → Prop where
  | act {l : Label} {next : Answer l → Prog Answer α} {s s' : σ} {r : Answer l} :
      M l s (some r) s' → Step (.act l next) s l r (next r) s'
  | left {p q p' : Prog Answer α} {s s' : σ} {l : Label} {r : Answer l} :
      Step p s l r p' s' → Step (.alt p q) s l r p' s'
  | right {p q q' : Prog Answer α} {s s' : σ} {l : Label} {r : Answer l} :
      Step q s l r q' s' → Step (.alt p q) s l r q' s'

/-- The process stops inside an action of the program. -/
inductive Stops : Prog Answer α → σ → Label → σ → Prop where
  | act {l : Label} {next : Answer l → Prog Answer α} {s s' : σ} :
      M l s none s' → Stops (.act l next) s l s'
  | left {p q : Prog Answer α} {s s' : σ} {l : Label} : Stops p s l s' → Stops (.alt p q) s l s'
  | right {p q : Prog Answer α} {s s' : σ} {l : Label} : Stops q s l s' → Stops (.alt p q) s l s'

/-- The next action of a program, carried out by a function; `alt` goes left. -/
def advance (perform : (l : Label) → σ → Option (Answer l × σ)) :
    Prog Answer α → σ → Option ((Σ l, Answer l) × Prog Answer α × σ)
  | ret _, _ => none
  | act l next, s => (perform l s).map (fun done => (⟨l, done.1⟩, next done.1, done.2))
  | alt p _, s => advance perform p s

def Safe (R : σ → σ → Prop) (G : Label → σ → σ → Prop) (Q : α → σ → Prop) :
    Prog Answer α → σ → Prop
  | ret a, s => ∀ s', ReflTransGen R s s' → Q a s'
  | act l next, s => ∀ s', ReflTransGen R s s' → ∀ o s'', M l s' o s'' →
      G l s' s'' ∧ ∀ r, o = some r → Safe R G Q (next r) s''
  | alt p q, s => Safe R G Q p s ∧ Safe R G Q q s

def Stable (R : σ → σ → Prop) (P : σ → Prop) : Prop :=
  ∀ s s', R s s' → P s → P s'

/-- A triple for programs with errors: `I` holds throughout, `Q` when `p` returns a value. -/
def Keeps {ε : Type} (R : σ → σ → Prop) (G : Label → σ → σ → Prop) (I P : σ → Prop)
    (p : Fallible Answer ε α) (Q : α → σ → Prop) : Prop :=
  ∀ s, I s → P s → Safe M R G (fun r t => I t ∧ ∀ a, r = .ok a → Q a t) p s

end Semantics

/-- All actions in the program are of a certain sort. -/
def Uses (sort : Label → Prop) : Prog Answer α → Prop
  | ret _ => True
  | act l next => sort l ∧ ∀ r, Uses sort (next r)
  | alt p q => Uses sort p ∧ Uses sort q

section Rules

variable {σ : Type} {M : (l : Label) → σ → Option (Answer l) → σ → Prop}
  {R : σ → σ → Prop} {G : Label → σ → σ → Prop}

theorem stable_true : Stable R fun _ => True := fun _ _ _ _ => trivial

theorem Stable.and {P P' : σ → Prop} (stable : Stable R P) (stable' : Stable R P') :
    Stable R fun s => P s ∧ P' s :=
  fun s s' moved both => ⟨stable s s' moved both.1, stable' s s' moved both.2⟩

theorem Stable.path {P : σ → Prop} (stable : Stable R P) {s s' : σ}
    (path : ReflTransGen R s s') (hs : P s) : P s' := by
  induction path with
  | refl => exact hs
  | tail _ last ih => exact stable _ _ last ih

variable {Q : α → σ → Prop} {p : Prog Answer α} {s s' : σ}

theorem Safe.move (safe : Safe M R G Q p s) (path : ReflTransGen R s s') : Safe M R G Q p s' := by
  induction p with
  | ret a => exact fun t later => safe t (path.trans later)
  | act l next _ => exact fun t later => safe t (path.trans later)
  | alt p q ihp ihq => exact ⟨ihp safe.1, ihq safe.2⟩

theorem Safe.step {p' : Prog Answer α} {l : Label} {r : Answer l} (safe : Safe M R G Q p s)
    (step : Step M p s l r p' s') : G l s s' ∧ Safe M R G Q p' s' := by
  induction step with
  | act h =>
    obtain ⟨moved, rest⟩ := safe _ .refl _ _ h
    exact ⟨moved, rest _ rfl⟩
  | left _ ih => exact ih safe.1
  | right _ ih => exact ih safe.2

theorem Safe.stops {l : Label} (safe : Safe M R G Q p s) (stop : Stops M p s l s') : G l s s' := by
  induction stop with
  | act h => exact (safe _ .refl _ _ h).1
  | left _ ih => exact ih safe.1
  | right _ ih => exact ih safe.2

theorem Safe.mono {R' : σ → σ → Prop} {G' : Label → σ → σ → Prop} {Q' : α → σ → Prop}
    (safe : Safe M R G Q p s) (rely : ∀ a b, R' a b → R a b) (guar : ∀ l a b, G l a b → G' l a b)
    (post : ∀ a t, Q a t → Q' a t) : Safe M R' G' Q' p s := by
  induction p generalizing s with
  | ret a => exact fun t path => post a t (safe t (ReflTransGen.mono rely _ _ path))
  | act l next ih =>
    intro t path o t' h
    obtain ⟨moved, rest⟩ := safe t (ReflTransGen.mono rely _ _ path) o t' h
    exact ⟨guar l t t' moved, fun r hr => ih r (rest r hr)⟩
  | alt p q ihp ihq => exact ⟨ihp safe.1, ihq safe.2⟩

theorem Safe.bind {Q' : β → σ → Prop} {f : α → Prog Answer β} (safe : Safe M R G Q p s)
    (rest : ∀ a t, (∀ u, ReflTransGen R t u → Q a u) → Safe M R G Q' (f a) t) :
    Safe M R G Q' (p.bind f) s := by
  induction p generalizing s with
  | ret a => exact rest a s safe
  | act l next ih =>
    intro t path o t' h
    obtain ⟨moved, more⟩ := safe t path o t' h
    exact ⟨moved, fun r hr => ih r (more r hr)⟩
  | alt p q ihp ihq => exact ⟨ihp safe.1, ihq safe.2⟩

theorem widen {R' : σ → σ → Prop} (path : ReflTransGen R s s') :
    ReflTransGen (fun a b => R a b ∨ R' a b) s s' :=
  ReflTransGen.mono (fun _ _ h => Or.inl h) _ _ path

theorem Safe.finish_left {G₁ G₂ : Label → σ → σ → Prop} {Q₁ : α → σ → Prop} {Q₂ : β → σ → Prop}
    {a : α} {q : Prog Answer β}
    (left : ∀ t, ReflTransGen (fun a b => R a b ∨ ∃ l, G₂ l a b) s t → Q₁ a t)
    (right : Safe M (fun a b => R a b ∨ ∃ l, G₁ l a b) G₂ Q₂ q s) :
    Safe M R (fun l a b => G₁ l a b ∨ G₂ l a b) (fun r t => Q₁ r.1 t ∧ Q₂ r.2 t)
      (q.bind (fun b => ret (a, b))) s := by
  induction q generalizing s with
  | ret b => exact fun t path => ⟨left t (widen path), right t (widen path)⟩
  | act m more ih =>
    intro t path o t' h
    obtain ⟨moved, rest⟩ := right t (widen path) o t' h
    refine ⟨Or.inr moved, fun r hr => ih r (fun u later => left u ?_) (rest r hr)⟩
    exact ((widen path).tail (Or.inr ⟨m, moved⟩)).trans later
  | alt q₁ q₂ ih₁ ih₂ => exact ⟨ih₁ left right.1, ih₂ left right.2⟩

theorem Safe.par {G₁ G₂ : Label → σ → σ → Prop} {Q₁ : α → σ → Prop} {Q₂ : β → σ → Prop}
    {q : Prog Answer β} (left : Safe M (fun a b => R a b ∨ ∃ l, G₂ l a b) G₁ Q₁ p s)
    (right : Safe M (fun a b => R a b ∨ ∃ l, G₁ l a b) G₂ Q₂ q s) :
    Safe M R (fun l a b => G₁ l a b ∨ G₂ l a b) (fun r t => Q₁ r.1 t ∧ Q₂ r.2 t) (par p q) s := by
  induction p generalizing q s with
  | ret a => exact Safe.finish_left left right
  | alt p₁ p₂ ih₁ ih₂ => exact ⟨ih₁ left.1 right, ih₂ left.2 right⟩
  | act l next ih =>
    -- the left half waits at `l`; the inner induction lets the right half move first
    have advance : ∀ (q : Prog Answer β) (s : σ),
        Safe M (fun a b => R a b ∨ ∃ l, G₂ l a b) G₁ Q₁ (.act l next) s →
        Safe M (fun a b => R a b ∨ ∃ l, G₁ l a b) G₂ Q₂ q s →
        Safe M R (fun l a b => G₁ l a b ∨ G₂ l a b) (fun r t => Q₁ r.1 t ∧ Q₂ r.2 t)
          (.act l (fun r => Prog.par (next r) q)) s := by
      intro q s left right t path o t' h
      obtain ⟨moved, rest⟩ := left t (widen path) o t' h
      refine ⟨Or.inl moved, fun r hr => ih r (rest r hr) (right.move ?_)⟩
      exact (widen path).tail (Or.inr ⟨l, moved⟩)
    change Safe M R _ _ (parRight l (fun r => Prog.par (next r)) q) s
    induction q generalizing s with
    | ret b => exact advance (.ret b) s left right
    | act m more ihq =>
      refine ⟨advance (.act m more) s left right, ?_⟩
      intro t path o t' h
      obtain ⟨moved, rest⟩ := right t (widen path) o t' h
      refine ⟨Or.inr moved, fun r hr => ihq r (left.move ?_) (rest r hr)⟩
      exact (widen path).tail (Or.inr ⟨m, moved⟩)
    | alt q₁ q₂ ih₁ ih₂ => exact ⟨ih₁ left right.1, ih₂ left right.2⟩

theorem Safe.parAll {ι : Type} {G : ι → Label → σ → σ → Prop} {Q : ι → α → σ → Prop}
    (f : ι → Prog Answer α) (is : List ι) (nodup : is.Nodup)
    (each : ∀ i ∈ is, Safe M (fun a b => R a b ∨ ∃ j ∈ is, j ≠ i ∧ ∃ l, G j l a b) (G i) (Q i)
      (f i) s) :
    Safe M R (fun l a b => ∃ i ∈ is, G i l a b)
      (fun rs t => List.Forall₂ (fun i r => Q i r t) is rs) (parAll (is.map f)) s := by
  induction is generalizing R s with
  | nil => exact fun _ _ => .nil
  | cons i is ih =>
    obtain ⟨fresh, nodup⟩ := List.nodup_cons.mp nodup
    have others : Safe M (fun a b => R a b ∨ ∃ l, G i l a b) (fun l a b => ∃ j ∈ is, G j l a b)
        (fun rs t => List.Forall₂ (fun i r => Q i r t) is rs) (Prog.parAll (is.map f)) s := by
      refine ih nodup (fun j hj => (each j (List.mem_cons_of_mem _ hj)).mono ?_
        (fun _ _ _ h => h) (fun _ _ h => h))
      rintro a b ((h | ⟨l, h⟩) | ⟨k, hk, other, l, h⟩)
      · exact Or.inl h
      · exact Or.inr ⟨i, List.mem_cons_self .., fun heq => fresh (heq ▸ hj), l, h⟩
      · exact Or.inr ⟨k, List.mem_cons_of_mem _ hk, other, l, h⟩
    have first : Safe M (fun a b => R a b ∨ ∃ l, ∃ j ∈ is, G j l a b) (G i) (Q i) (f i) s := by
      refine (each i (List.mem_cons_self ..)).mono ?_ (fun _ _ _ h => h) (fun _ _ h => h)
      rintro a b (h | ⟨l, j, hj, h⟩)
      · exact Or.inl h
      · exact Or.inr ⟨j, List.mem_cons_of_mem _ hj, fun heq => fresh (heq ▸ hj), l, h⟩
    refine Safe.bind ((first.par others).mono (fun _ _ h => h) ?_ (fun _ _ h => h)) ?_
    · rintro l a b (h | ⟨j, hj, h⟩)
      · exact ⟨i, List.mem_cons_self .., h⟩
      · exact ⟨j, List.mem_cons_of_mem _ hj, h⟩
    · exact fun r t holds u later => .cons (holds u later).1 (holds u later).2

theorem Safe.frame {F : σ → Prop} (safe : Safe M R G Q p s) (stable : Stable R F)
    (own : ∀ l a b, G l a b → F a → F b) (hF : F s) : Safe M R G (fun r t => Q r t ∧ F t) p s := by
  induction p generalizing s with
  | ret a => exact fun t path => ⟨safe t path, stable.path path hF⟩
  | act l next ih =>
    intro t path o t' h
    obtain ⟨moved, rest⟩ := safe t path o t' h
    exact ⟨moved, fun r hr => ih r (rest r hr) (own l t t' moved (stable.path path hF))⟩
  | alt p q ihp ihq => exact ⟨ihp safe.1 hF, ihq safe.2 hF⟩

theorem Safe.perform {l : Label} {Q : Answer l → σ → Prop}
    (acts : ∀ t, ReflTransGen R s t → ∀ o t', M l t o t' →
      G l t t' ∧ ∀ r, o = some r → ∀ u, ReflTransGen R t' u → Q r u) :
    Safe M R G Q (Prog.perform l) s := by
  intro t path o t' h
  obtain ⟨moved, rest⟩ := acts t path o t' h
  exact ⟨moved, fun r hr u later => rest r hr u later⟩

section Triples

variable {ε : Type} {I P : σ → Prop} {Q : α → σ → Prop}

theorem Keeps.pure {a : α} (stableI : Stable R I) (stableP : Stable R P)
    (h : ∀ s, I s → P s → Q a s) :
    Keeps M R G I P (Pure.pure a : Fallible Answer ε α) Q := by
  intro s hI hP t path
  refine ⟨stableI.path path hI, ?_⟩
  rintro _ ⟨⟩
  exact h t (stableI.path path hI) (stableP.path path hP)

variable {p : Fallible Answer ε α}

theorem Keeps.bind {Q' : β → σ → Prop} {f : α → Fallible Answer ε β} (stableI : Stable R I)
    (first : Keeps M R G I P p Q) (rest : ∀ a, Keeps M R G I (Q a) (f a) Q') :
    Keeps M R G I P (p >>= f) Q' := by
  intro s hI hP
  refine Safe.bind (first s hI hP) (fun r t holds => ?_)
  cases r with
  | ok a => exact rest a t (holds t .refl).1 ((holds t .refl).2 a rfl)
  | error e => exact fun u later => ⟨stableI.path later (holds t .refl).1, nofun⟩

theorem Keeps.query {l : Label} {Q : Answer l → σ → Prop} (stableI : Stable R I)
    (stableP : Stable R P) (stableQ : ∀ r, Stable R (Q r))
    (acts : ∀ s o s', I s → P s → M l s o s' → G l s s' ∧ ∀ r, o = some r → I s' ∧ Q r s') :
    Keeps M R G I P (Fallible.query l : Fallible Answer ε (Answer l)) Q := by
  intro s hI hP t path o t' h
  obtain ⟨moved, rest⟩ := acts t o t' (stableI.path path hI) (stableP.path path hP) h
  refine ⟨moved, fun r hr u later => ⟨stableI.path later (rest r hr).1, ?_⟩⟩
  rintro _ ⟨⟩
  exact (stableQ r).path later (rest r hr).2

theorem Keeps.outcome (h : Keeps M R G I P p Q) :
    Keeps M R G I P p.outcome (fun r t => ∀ a, r = .ok a → Q a t) := by
  intro s hI hP
  refine Safe.bind (h s hI hP) (fun r t holds u later => ⟨(holds u later).1, ?_⟩)
  rintro _ ⟨⟩
  exact (holds u later).2

theorem Keeps.ite {c : Prop} [Decidable c] {q : Fallible Answer ε α} (pos : c → Keeps M R G I P p Q)
    (neg : ¬c → Keeps M R G I P q Q) : Keeps M R G I P (if c then p else q) Q := by
  split
  · next h => exact pos h
  · next h => exact neg h

theorem Keeps.frame {F : σ → Prop} (h : Keeps M R G I P p Q) (stable : Stable R F)
    (own : ∀ l a b, G l a b → F a → F b) :
    Keeps M R G I (fun s => P s ∧ F s) p (fun a s => Q a s ∧ F s) := by
  intro s hI hP
  refine ((h s hI hP.1).frame stable own hP.2).mono (fun _ _ h => h) (fun _ _ _ h => h) ?_
  exact fun r t holds => ⟨holds.1.1, fun a heq => ⟨holds.1.2 a heq, holds.2⟩⟩

theorem Keeps.conseq {P' : σ → Prop} {Q' : α → σ → Prop} (h : Keeps M R G I P p Q)
    (pre : ∀ s, I s → P' s → P s) (post : ∀ a s, Q a s → Q' a s) : Keeps M R G I P' p Q' := by
  intro s hI hP
  exact (h s hI (pre s hI hP)).mono (fun _ _ h => h) (fun _ _ _ h => h)
    (fun r t holds => ⟨holds.1, fun a heq => post a t (holds.2 a heq)⟩)

end Triples

section Sorts

variable {sort : Label → Prop}

variable {p : Prog Answer α} {s s' : σ} {l : Label}

theorem Uses.bind {f : α → Prog Answer β} (first : Uses sort p) (rest : ∀ a, Uses sort (f a)) :
    Uses sort (p.bind f) := by
  induction p with
  | ret a => exact rest a
  | act l next ih => exact ⟨first.1, fun r => ih r (first.2 r)⟩
  | alt p q ihp ihq => exact ⟨ihp first.1, ihq first.2⟩

theorem Uses.tryBind {ε : Type} {p : Fallible Answer ε α} {f : α → Fallible Answer ε β}
    (first : Uses sort p) (rest : ∀ a, Uses sort (f a)) : Uses sort (Fallible.bind p f) := by
  refine Uses.bind first (fun r => ?_)
  cases r with
  | ok a => exact rest a
  | error e => trivial

theorem Uses.ite {c : Prop} [Decidable c] {q : Prog Answer α} (pos : Uses sort p)
    (neg : Uses sort q) : Uses sort (if c then p else q) := by
  split
  · exact pos
  · exact neg

theorem Uses.par {q : Prog Answer β} (left : Uses sort p) (right : Uses sort q) :
    Uses sort (par p q) := by
  induction p generalizing q with
  | ret a => exact Uses.bind right fun _ => trivial
  | alt p₁ p₂ ih₁ ih₂ => exact ⟨ih₁ left.1 right, ih₂ left.2 right⟩
  | act l next ih =>
    change Uses sort (parRight l (fun r => Prog.par (next r)) q)
    induction q with
    | ret b => exact ⟨left.1, fun r => ih r (left.2 r) right⟩
    | act m more ihq =>
      exact ⟨⟨left.1, fun r => ih r (left.2 r) right⟩, right.1, fun r => ihq r (right.2 r)⟩
    | alt q₁ q₂ ih₁ ih₂ => exact ⟨ih₁ right.1, ih₂ right.2⟩

theorem Uses.parAll {ps : List (Prog Answer α)} (each : ∀ p ∈ ps, Uses sort p) :
    Uses sort (parAll ps) := by
  induction ps with
  | nil => trivial
  | cons p ps ih =>
    refine Uses.bind (Uses.par (each p (List.mem_cons_self ..)) (ih fun q inside => ?_))
      fun _ => trivial
    exact each q (List.mem_cons_of_mem _ inside)

theorem Safe.of_uses {F : σ → Prop} (uses : Uses sort p) (stable : Stable R F)
    (acts : ∀ l, sort l → ∀ s o s', F s → M l s o s' → G l s s' ∧ F s') (hF : F s) :
    Safe M R G (fun _ t => F t) p s := by
  induction p generalizing s with
  | ret a => exact fun t path => stable.path path hF
  | act l next ih =>
    intro t path o t' does
    obtain ⟨moved, holds⟩ := acts l uses.1 t o t' (stable.path path hF) does
    exact ⟨moved, fun r _ => ih r (uses.2 r) holds⟩
  | alt p q ihp ihq => exact ⟨ihp uses.1 hF, ihq uses.2 hF⟩

theorem Uses.step {p' : Prog Answer α} {r : Answer l} (uses : Uses sort p)
    (step : Step M p s l r p' s') : sort l ∧ Uses sort p' := by
  induction step with
  | act _ => exact ⟨uses.1, uses.2 _⟩
  | left _ ih => exact ih uses.1
  | right _ ih => exact ih uses.2

theorem Uses.stops (uses : Uses sort p) (stop : Stops M p s l s') : sort l := by
  induction stop with
  | act _ => exact uses.1
  | left _ ih => exact ih uses.1
  | right _ ih => exact ih uses.2

theorem Step.does {p' : Prog Answer α} {r : Answer l} (step : Step M p s l r p' s') :
    M l s (some r) s' := by
  induction step with
  | act h => exact h
  | left _ ih => exact ih
  | right _ ih => exact ih

theorem Step.restrict {M' : (l : Label) → σ → Option (Answer l) → σ → Prop} {p' : Prog Answer α}
    {r : Answer l} (step : Step M p s l r p' s') (meets : M' l s (some r) s') :
    Step M' p s l r p' s' := by
  induction step with
  | act h => exact .act meets
  | left _ ih => exact .left (ih meets)
  | right _ ih => exact .right (ih meets)

theorem Stops.does (stop : Stops M p s l s') : M l s none s' := by
  induction stop with
  | act h => exact h
  | left _ ih => exact ih
  | right _ ih => exact ih

end Sorts

theorem advance_step {perform : (l : Label) → σ → Option (Answer l × σ)}
    (sound : ∀ {l s r s'}, perform l s = some (r, s') → M l s (some r) s') {p' : Prog Answer α}
    {performed : Σ l, Answer l} (h : advance perform p s = some (performed, p', s')) :
    Step M p s performed.1 performed.2 p' s' := by
  induction p with
  | ret a => cases h
  | act l next _ =>
    obtain ⟨⟨r, t⟩, ok, heq⟩ := Option.map_eq_some_iff.mp h
    cases heq
    exact .act (sound ok)
  | alt p q ihp _ => exact .left (ihp h)

end Rules

end Prog
