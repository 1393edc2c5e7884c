import Mathlib.Algebra.GroupWithZero.Nat
import Mathlib.Data.List.Lex

/-!
# Decimal numerals of a least width

A numeral padded with zeros to a width is injective, and among numerals that fit the width
the order of the texts is the order of the numbers, whatever follows them.
-/

namespace Decimal

/-- The last `w` decimal digits of `n`. -/
def fixed : Nat → Nat → List Char
  | 0, _ => []
  | w + 1, n => Nat.digitChar (n / 10 ^ w % 10) :: fixed w n

/-- `n` padded with zeros to at least `w` characters. -/
def padded (w n : Nat) : List Char :=
  if n < 10 ^ w then fixed w n else Nat.toDigits 10 n

@[simp] theorem length_fixed (w n : Nat) : (fixed w n).length = w := by
  induction w with
  | zero => rfl
  | succ w ih => simp [fixed, ih]

variable {a b w n : Nat}

theorem digitChar_lt_iff (ha : a < 10) (hb : b < 10) : a.digitChar < b.digitChar ↔ a < b := by
  have valueA := Nat.toNat_digitChar_of_lt_ten ha
  have valueB := Nat.toNat_digitChar_of_lt_ten hb
  change a.digitChar.toNat < b.digitChar.toNat ↔ a < b
  omega

theorem digitChar_inj (ha : a < 10) (hb : b < 10) (eq : a.digitChar = b.digitChar) : a = b := by
  have valueA := Nat.toNat_digitChar_of_lt_ten ha
  have valueB := Nat.toNat_digitChar_of_lt_ten hb
  rw [eq] at valueA
  omega

theorem lead_lt_iff {p x y : Nat} (hx : x < p) (hy : y < p) :
    p * a + x < p * b + y ↔ a < b ∨ a = b ∧ x < y := by
  rcases Nat.lt_trichotomy a b with less | rfl | more
  · have := Nat.mul_le_mul_left p (Nat.succ_le_of_lt less)
    rw [Nat.mul_succ] at this
    omega
  · omega
  · have := Nat.mul_le_mul_left p (Nat.succ_le_of_lt more)
    rw [Nat.mul_succ] at this
    omega

theorem fixed_append_lt_iff {u v : List Char} (ha : a < 10 ^ w) (hb : b < 10 ^ w) :
    fixed w a ++ u < fixed w b ++ v ↔ a < b ∨ a = b ∧ u < v := by
  have general : ∀ w a b : Nat, fixed w a ++ u < fixed w b ++ v ↔
      a % 10 ^ w < b % 10 ^ w ∨ a % 10 ^ w = b % 10 ^ w ∧ u < v := by
    intro w
    induction w with
    | zero => intro a b; simp [fixed, Nat.mod_one]
    | succ w ih =>
      intro a b
      have digitA : a / 10 ^ w % 10 < 10 := Nat.mod_lt _ (by omega)
      have digitB : b / 10 ^ w % 10 < 10 := Nat.mod_lt _ (by omega)
      have restA : a % 10 ^ w < 10 ^ w := Nat.mod_lt _ (Nat.pow_pos (by omega))
      have restB : b % 10 ^ w < 10 ^ w := Nat.mod_lt _ (Nat.pow_pos (by omega))
      have order := lead_lt_iff restA restB (a := a / 10 ^ w % 10) (b := b / 10 ^ w % 10)
      have order' := lead_lt_iff restB restA (a := b / 10 ^ w % 10) (b := a / 10 ^ w % 10)
      have head := digitChar_lt_iff digitA digitB
      have same : (a / 10 ^ w % 10).digitChar = (b / 10 ^ w % 10).digitChar ↔
          a / 10 ^ w % 10 = b / 10 ^ w % 10 :=
        ⟨digitChar_inj digitA digitB, congrArg _⟩
      have tail := ih a b
      have splitA : a % 10 ^ (w + 1) = 10 ^ w * (a / 10 ^ w % 10) + a % 10 ^ w := by
        rw [Nat.mod_pow_succ, Nat.add_comm]
      have splitB : b % 10 ^ (w + 1) = 10 ^ w * (b / 10 ^ w % 10) + b % 10 ^ w := by
        rw [Nat.mod_pow_succ, Nat.add_comm]
      simp only [fixed, List.cons_append, List.cons_lt_cons_iff, head, same, tail]
      by_cases rest : u < v
      · simp only [rest, and_true]
        omega
      · simp only [rest, and_false, or_false]
        omega
  have both := general w a b
  rwa [Nat.mod_eq_of_lt ha, Nat.mod_eq_of_lt hb] at both

theorem field_lt_iff (c : Char) {u v : List Char} (ha : a < 10 ^ w) (hb : b < 10 ^ w) :
    fixed w a ++ c :: u < fixed w b ++ c :: v ↔ a < b ∨ a = b ∧ u < v := by
  rw [fixed_append_lt_iff ha hb, List.cons_lt_cons_iff]
  simp

theorem fixed_add (v w n : Nat) : fixed (v + w) n = fixed v (n / 10 ^ w) ++ fixed w n := by
  induction v with
  | zero => simp [fixed]
  | succ v ih =>
    rw [Nat.add_right_comm, fixed, ih, fixed, Nat.div_div_eq_div_mul, ← Nat.pow_add, Nat.add_comm w v]
    rfl

theorem fixed_six (n : Nat) : fixed 6 n = fixed 3 (n / 1000) ++ fixed 3 n := fixed_add 3 3 n

theorem fixed_nine (n : Nat) :
    fixed 9 n = fixed 3 (n / 1000000) ++ (fixed 3 (n / 1000) ++ fixed 3 n) :=
  (fixed_add 3 6 n).trans (congrArg (fixed 3 (n / 1000000) ++ ·) (fixed_six n))

theorem fixed_mod (w n : Nat) : fixed w (n % 10 ^ w) = fixed w n := by
  -- A digit of lower weight does not see the reduction.
  have general : ∀ v ≤ w, fixed v (n % 10 ^ w) = fixed v n := by
    intro v
    induction v with
    | zero => intro; rfl
    | succ v ih =>
      intro le
      have digit : n % 10 ^ w / 10 ^ v % 10 = n / 10 ^ v % 10 := by
        obtain ⟨k, rfl⟩ := Nat.exists_eq_add_of_lt le
        rw [show v + k + 1 = v + (k + 1) from rfl, Nat.pow_add, Nat.mod_mul_right_div_self,
          Nat.mod_mod_of_dvd _ ⟨10 ^ k, Nat.pow_succ'⟩]
      rw [fixed, fixed, digit, ih (by omega)]
  exact general w le_rfl

theorem fixed_inj (ha : a < 10 ^ w) (hb : b < 10 ^ w) (eq : fixed w a = fixed w b) : a = b := by
  have below := fixed_append_lt_iff ha hb (u := []) (v := [])
  have above := fixed_append_lt_iff hb ha (u := []) (v := [])
  rw [eq] at below above
  have irrefl : ¬fixed w b ++ [] < fixed w b ++ [] := List.lt_irrefl _
  rcases Nat.lt_trichotomy a b with less | same | more
  · exact absurd (below.2 (Or.inl less)) irrefl
  · exact same
  · exact absurd (above.2 (Or.inl more)) irrefl

theorem padded_of_lt (h : n < 10 ^ w) : padded w n = fixed w n := if_pos h

theorem length_padded (h : n < 10 ^ w) : (padded w n).length = w := by
  rw [padded_of_lt h, length_fixed]

theorem zero_le_of_mem_padded {c : Char} (h : c ∈ padded w n) : 48 ≤ c.toNat := by
  have digits : ∀ w, c ∈ fixed w n → 48 ≤ c.toNat := by
    intro w
    induction w with
    | zero => simp [fixed]
    | succ w ih =>
      rw [fixed, List.mem_cons]
      rintro (rfl | mem)
      · rw [Nat.toNat_digitChar_of_lt_ten (Nat.mod_lt _ (by omega))]
        omega
      · exact ih mem
  unfold padded at h
  split at h
  · exact digits w h
  · have digit := Nat.isDigit_of_mem_toDigits (by omega) (by omega) h
    exact (Char.isDigit_iff_toNat.1 digit).1

theorem padded_inj (pos : 0 < w) (eq : padded w a = padded w b) : a = b := by
  have long : ∀ n, (Nat.toDigits 10 n).length = w → n < 10 ^ w := fun n h =>
    (Nat.length_toDigits_le_iff (by omega) pos).1 h.le
  unfold padded at eq
  split at eq <;> split at eq
  · next ha hb => exact fixed_inj ha hb eq
  · next _ hb => exact absurd (long b (by rw [← eq, length_fixed])) hb
  · next ha _ => exact absurd (long a (by rw [eq, length_fixed])) ha
  · have value := congrArg (fun l => Nat.ofDigitChars 10 l 0) eq
    simpa only [Nat.ofDigitChars_ten_toDigits] using value

/-- Groups of three digits as one number. -/
def value : List Nat → Nat
  | [] => 0
  | g :: groups => 1000 ^ groups.length * g + value groups

/-- The digits of the groups up to the last one that is not zero. -/
def trimmed : List Nat → List Char
  | [] => []
  | g :: groups => if value (g :: groups) = 0 then [] else fixed 3 g ++ trimmed groups

theorem value_lt {groups : List Nat} (small : ∀ g ∈ groups, g < 1000) :
    value groups < 1000 ^ groups.length := by
  induction groups with
  | nil => simp [value]
  | cons g groups ih =>
    have rest := ih fun g' mem => small g' (List.mem_cons_of_mem g mem)
    have head := small g List.mem_cons_self
    have := Nat.mul_le_mul_left (1000 ^ groups.length) (Nat.le_of_lt_succ head)
    rw [value, List.length_cons, Nat.pow_succ]
    omega

theorem trimmed_append_lt_iff {c : Char} {s : List Char} (less : c.toNat < 48)
    {a b : List Nat} (same : a.length = b.length) (ha : ∀ g ∈ a, g < 1000)
    (hb : ∀ g ∈ b, g < 1000) :
    trimmed a ++ c :: s < trimmed b ++ c :: s ↔ value a < value b := by
  -- A text that starts with a digit is above what follows the fraction.
  have above : ∀ g u, c :: s < fixed 3 g ++ u := by
    intro g u
    rw [fixed, List.cons_append, List.cons_lt_cons_iff]
    left
    have digit := Nat.toNat_digitChar_of_lt_ten (Nat.mod_lt (g / 10 ^ 2) (by omega : 10 > 0))
    change c.toNat < (Nat.digitChar (g / 10 ^ 2 % 10)).toNat
    omega
  induction a generalizing b with
  | nil =>
    cases b with
    | nil => simp [trimmed, value]
    | cons g b => exact nomatch same
  | cons g a ih =>
    cases b with
    | nil => exact nomatch same
    | cons g' b =>
      have lengths : a.length = b.length := Nat.succ.inj same
      have tailA : ∀ g ∈ a, g < 1000 := fun x mem => ha x (List.mem_cons_of_mem g mem)
      have tailB : ∀ g ∈ b, g < 1000 := fun x mem => hb x (List.mem_cons_of_mem g' mem)
      have headA : g < 10 ^ 3 := ha g List.mem_cons_self
      have headB : g' < 10 ^ 3 := hb g' List.mem_cons_self
      have order : value (g :: a) < value (g' :: b) ↔ g < g' ∨ g = g' ∧ value a < value b := by
        rw [value, value, lengths]
        exact lead_lt_iff (lengths ▸ value_lt tailA) (value_lt tailB)
      by_cases zeroA : value (g :: a) = 0 <;> by_cases zeroB : value (g' :: b) = 0
      · simp [trimmed, zeroA, zeroB]
      · simp only [trimmed, zeroA, zeroB, if_true, if_false, List.nil_append, List.append_assoc,
          above, true_iff]
        omega
      · simp only [trimmed, zeroA, zeroB, if_true, if_false, List.nil_append, List.append_assoc]
        exact iff_of_false (List.lt_asymm (above g _)) (by omega)
      · simp only [trimmed, zeroA, zeroB, if_false, List.append_assoc]
        rw [fixed_append_lt_iff headA headB, order]
        exact or_congr_right (and_congr_right fun _ => ih lengths tailA tailB)

end Decimal
