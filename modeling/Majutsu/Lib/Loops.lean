import Mathlib.Data.List.Forall2

/-!
# Loops that can fail

Rules for `foldlM` and `mapM` in `Except`: what a loop that ends well says about
its rounds, and that a body which succeeds more often gives the same result.
-/

namespace Loops

variable {ε α β : Type}

variable {x : Except ε α} {f : α → Except ε β} {xs : List α} {acc r : β} {rs : List β} {γ : Type}

theorem of_bind {b : β} (h : (x >>= f) = .ok b) : ∃ a, x = .ok a ∧ f a = .ok b := by
  cases x with
  | error e => cases h
  | ok a => exact ⟨a, rfl, h⟩

theorem bind_ok {b : β} (h : ∃ a, x = .ok a ∧ f a = .ok b) : (x >>= f) = .ok b := by
  obtain ⟨a, rfl, rest⟩ := h
  exact rest

theorem toOption_eq_some {a : α} : x.toOption = some a ↔ x = .ok a := by
  cases x with
  | error e => exact ⟨fun h => (by cases h), fun h => (by cases h)⟩
  | ok b => exact ⟨fun h => congrArg Except.ok (Option.some.inj h), fun h => congrArg Except.toOption h⟩

theorem exists_ok {p : α → Bool} (h : x.toOption.any p = true) : ∃ a, x = .ok a ∧ p a = true := by
  cases x with
  | error e => simp [Except.toOption] at h
  | ok a => exact ⟨a, rfl, by simpa [Except.toOption] using h⟩

theorem exists_ok_of_decide {P : α → Prop} [DecidablePred P]
    (h : x.toOption.any (fun a => decide (P a)) = true) : ∃ a, x = .ok a ∧ P a := by
  obtain ⟨a, result, tested⟩ := exists_ok h
  exact ⟨a, result, of_decide_eq_true tested⟩

theorem foldlM_mono {f g : β → α → Except ε β} (le : ∀ acc x r, f acc x = .ok r → g acc x = .ok r)
    (h : xs.foldlM f acc = .ok r) : xs.foldlM g acc = .ok r := by
  induction xs generalizing acc with
  | nil => exact h
  | cons x xs ih =>
    rw [List.foldlM_cons] at h ⊢
    obtain ⟨mid, first, rest⟩ := of_bind h
    exact bind_ok ⟨mid, le acc x mid first, ih rest⟩

theorem foldlM_invariant_from {f : β → α → Except ε β} {I : List α → β → Prop}
    (step : ∀ done x acc r, I done acc → f acc x = .ok r → I (done ++ [x]) r) {done : List α}
    (start : I done acc) (h : xs.foldlM f acc = .ok r) : I (done ++ xs) r := by
  induction xs generalizing acc done with
  | nil =>
    cases h
    simpa using start
  | cons x xs ih =>
    rw [List.foldlM_cons] at h
    obtain ⟨mid, first, rest⟩ := of_bind h
    have later := ih (step done x acc mid start first) rest
    simpa using later

theorem foldlM_invariant {f : β → α → Except ε β} {I : List α → β → Prop} (start : I [] acc)
    (step : ∀ done x acc r, I done acc → f acc x = .ok r → I (done ++ [x]) r)
    (h : xs.foldlM f acc = .ok r) : I xs r :=
  foldlM_invariant_from step start h

theorem mapM_eq_ok : xs.mapM f = .ok rs ↔ List.Forall₂ (fun x r => f x = .ok r) xs rs := by
  induction xs generalizing rs with
  | nil =>
    rw [List.forall₂_nil_left_iff]
    exact ⟨fun h => (Except.ok.inj h).symm, fun h => h ▸ rfl⟩
  | cons x xs ih =>
    rw [List.mapM_cons]
    constructor
    · intro h
      obtain ⟨r, first, rest⟩ := of_bind h
      obtain ⟨tail, others, result⟩ := of_bind rest
      cases result
      exact .cons first (ih.mp others)
    · rintro (_ | ⟨first, others⟩)
      exact bind_ok ⟨_, first, bind_ok ⟨_, ih.mpr others, rfl⟩⟩

theorem map_of_mapM (h : xs.mapM f = .ok rs) : xs.map f = rs.map .ok := by
  rw [mapM_eq_ok] at h
  induction h with
  | nil => rfl
  | cons first _ ih => rw [List.map_cons, List.map_cons, first, ih]

theorem flatMap_of_mapM {g : Except ε β → List γ} (h : xs.mapM f = .ok rs) :
    xs.flatMap (fun x => g (f x)) = rs.flatMap (fun r => g (.ok r)) := by
  have results := map_of_mapM h
  rw [← List.flatMap_map, results, List.flatMap_map]

theorem mapM_mono {g : α → Except ε β} (le : ∀ x r, f x = .ok r → g x = .ok r)
    (h : xs.mapM f = .ok rs) : xs.mapM g = .ok rs :=
  mapM_eq_ok.mpr ((mapM_eq_ok.mp h).imp le)

theorem mapM_zip (h : xs.mapM f = .ok rs) {x : α} (member : x ∈ xs) :
    ∃ r, f x = .ok r ∧ (x, r) ∈ xs.zip rs := by
  induction mapM_eq_ok.mp h with
  | nil => simp at member
  | cons first others ih =>
    rcases List.mem_cons.mp member with rfl | later
    · exact ⟨_, first, List.mem_cons_self⟩
    · obtain ⟨r, found, beside⟩ := ih (mapM_eq_ok.mpr others) later
      exact ⟨r, found, List.mem_cons_of_mem _ beside⟩

theorem mapM_mem (h : xs.mapM f = .ok rs) {x : α} (member : x ∈ xs) :
    ∃ r, f x = .ok r ∧ r ∈ rs := by
  obtain ⟨r, found, beside⟩ := mapM_zip h member
  exact ⟨r, found, (List.of_mem_zip beside).2⟩

theorem mem_of_mapM (h : xs.mapM f = .ok rs) (member : r ∈ rs) : ∃ x ∈ xs, f x = .ok r := by
  induction mapM_eq_ok.mp h with
  | nil => simp at member
  | cons first others ih =>
    rcases List.mem_cons.mp member with rfl | later
    · exact ⟨_, List.mem_cons_self, first⟩
    · obtain ⟨x, inside, found⟩ := ih (mapM_eq_ok.mpr others) later
      exact ⟨x, List.mem_cons_of_mem _ inside, found⟩

theorem mapM_mapM {g : β → Except ε γ} {ys : List β} {zs : List γ} (first : xs.mapM f = .ok ys)
    (second : ys.mapM g = .ok zs) : xs.mapM (fun x => f x >>= g) = .ok zs := by
  rw [mapM_eq_ok] at first second ⊢
  induction first generalizing zs with
  | nil =>
    cases second
    exact .nil
  | cons head _ ih =>
    cases second with
    | cons head' others => exact .cons (bind_ok ⟨_, head, head'⟩) (ih others)

theorem mapM_congr {g : β → Except ε γ} {g' : α → Except ε γ} {ys : List β}
    (same : List.Forall₂ (fun x y => g' x = g y) xs ys) : xs.mapM g' = ys.mapM g := by
  induction same with
  | nil => rfl
  | cons head _ ih => rw [List.mapM_cons, List.mapM_cons, head, ih]

theorem exists_mapM (h : ∀ x ∈ xs, ∃ r, f x = .ok r) : ∃ rs, xs.mapM f = .ok rs := by
  induction xs with
  | nil => exact ⟨[], rfl⟩
  | cons y ys ih =>
    obtain ⟨first, head⟩ := h y List.mem_cons_self
    obtain ⟨tail, others⟩ := ih (fun x inside => h x (List.mem_cons_of_mem y inside))
    refine ⟨first :: tail, ?_⟩
    rw [List.mapM_cons]
    exact bind_ok ⟨first, head, bind_ok ⟨tail, others, rfl⟩⟩

end Loops
