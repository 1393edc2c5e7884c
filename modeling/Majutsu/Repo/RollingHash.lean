import Mathlib.Algebra.GroupWithZero.Nat
import Mathlib.Data.List.Induction
import Mathlib.Data.Nat.ModEq
import Mathlib.Tactic.Ring
import Majutsu.Repo.Chunking

/-!
# The rolling hash

A step of the hash doubles it, brings its top bit round, adds the byte and multiplies
with an odd number. Modulo a power of two the hash therefore depends on the last
bytes and on top bits only, and the bytes can bring it to any value. But a step is
one to one: two hashes that differ go on to differ, and within 64 steps they differ
in their top bits, and then in their low ones.
-/

namespace Majutsu.Repo

/-- The bit that a rotation brings round. -/
def topBit (rolling : UInt64) : Nat := rolling.toNat / 2 ^ 63

/-- The factor of `roll`. -/
def rollFactor : Nat := 0x9E3779B185EBCA87

theorem topBit_le (rolling : UInt64) : topBit rolling ≤ 1 := by
  have bound := rolling.toNat_lt
  unfold topBit
  omega

theorem toNat_rotate (rolling : UInt64) :
    (rolling <<< 1 ||| rolling >>> 63).toNat = 2 * (rolling.toNat % 2 ^ 63) + topBit rolling := by
  have top := topBit_le rolling
  have even : (rolling <<< 1).toNat = (rolling.toNat % 2 ^ 63) <<< 1 := by
    rw [UInt64.toNat_shiftLeft]
    simp only [UInt64.toNat_one, Nat.shiftLeft_eq, Nat.reduceMod]
    omega
  have shifted : (rolling >>> 63).toNat = topBit rolling := by
    rw [UInt64.toNat_shiftRight]
    exact Nat.shiftRight_eq_div_pow _ _
  rw [UInt64.toNat_or, even, shifted, ← Nat.shiftLeft_add_eq_or_of_lt (by omega), Nat.shiftLeft_eq]
  omega

theorem roll_modEq {k : Nat} (small : k ≤ 64) (rolling : UInt64) (byte : UInt8) :
    (roll rolling byte).toNat ≡ (2 * rolling.toNat + topBit rolling + byte.toNat) * rollFactor
      [MOD 2 ^ k] := by
  have whole : (roll rolling byte).toNat ≡
      (2 * rolling.toNat + topBit rolling + byte.toNat) * rollFactor [MOD 2 ^ 64] := by
    have rotated : (rolling <<< 1 ||| rolling >>> 63).toNat ≡ 2 * rolling.toNat + topBit rolling
        [MOD 2 ^ 64] := by
      rw [toNat_rotate]
      unfold topBit Nat.ModEq
      omega
    rw [roll, UInt64.toNat_mul, UInt64.toNat_add]
    refine (Nat.mod_modEq _ _).trans (Nat.ModEq.mul_right _ ((Nat.mod_modEq _ _).trans ?_))
    exact rotated.add_right _
  exact whole.of_dvd (pow_dvd_pow 2 small)

theorem roll_modEq_iff {k : Nat} (small : k ≤ 64) (first second : UInt64) (byte : UInt8) :
    (roll first byte).toNat ≡ (roll second byte).toNat [MOD 2 ^ k] ↔
      2 * first.toNat + topBit first ≡ 2 * second.toNat + topBit second [MOD 2 ^ k] := by
  have left := roll_modEq small first byte
  have right := roll_modEq small second byte
  constructor
  · intro same
    have both := left.symm.trans (same.trans right)
    have coprime : (2 ^ k).gcd rollFactor = 1 := Nat.Coprime.pow_left k (by decide)
    exact Nat.ModEq.add_right_cancel' _ (Nat.ModEq.cancel_right_of_coprime coprime both)
  · intro same
    exact left.trans (((same.add_right _).mul_right _).trans right.symm)

theorem topBit_eq_of_modEq {first second : UInt64} {k : Nat} (positive : 0 < k)
    (same : 2 * first.toNat + topBit first ≡ 2 * second.toNat + topBit second [MOD 2 ^ k]) :
    topBit first = topBit second := by
  have parity := same.of_dvd (dvd_pow_self 2 positive.ne')
  have top := topBit_le first
  have top' := topBit_le second
  unfold Nat.ModEq at parity
  omega

theorem modEq_half {first second : UInt64} {k : Nat}
    (same : 2 * first.toNat + topBit first ≡ 2 * second.toNat + topBit second [MOD 2 ^ (k + 1)]) :
    first.toNat ≡ second.toNat [MOD 2 ^ k] := by
  rw [topBit_eq_of_modEq k.succ_pos same] at same
  have doubled := Nat.ModEq.add_right_cancel' _ same
  rw [pow_succ, Nat.mul_comm (2 ^ k)] at doubled
  exact Nat.ModEq.mul_left_cancel' two_ne_zero doubled

theorem eq_of_topBit {first second : UInt64} (low : first.toNat ≡ second.toNat [MOD 2 ^ 63])
    (top : topBit first = topBit second) : first = second := by
  apply UInt64.toNat_inj.mp
  unfold topBit at top
  unfold Nat.ModEq at low
  omega

theorem roll_injective (byte : UInt8) : Function.Injective (fun rolling => roll rolling byte) := by
  intro first second same
  have mod : (roll first byte).toNat ≡ (roll second byte).toNat [MOD 2 ^ 64] := by
    rw [show roll first byte = roll second byte from same]
  have doubled := (roll_modEq_iff (Nat.le_refl 64) first second byte).mp mod
  exact eq_of_topBit (modEq_half doubled) (topBit_eq_of_modEq (by decide) doubled)

theorem foldl_roll_injective (bytes : Bytes) : Function.Injective (bytes.foldl roll) := by
  induction bytes with
  | nil => exact fun _ _ same => same
  | cons byte rest ih => exact fun first second same => roll_injective byte (ih same)

/-- Once the top bits differ, the low bits differ for as many steps as there are bits. -/
theorem not_modEq_of_topBit {first second : UInt64} (differ : topBit first ≠ topBit second)
    {bytes : Bytes} (some_ : bytes ≠ []) (few : bytes.length ≤ 64) :
    ¬ (bytes.foldl roll first).toNat ≡ (bytes.foldl roll second).toNat [MOD 2 ^ bytes.length] := by
  induction bytes using List.reverseRecOn with
  | nil => exact absurd rfl some_
  | append_singleton bytes byte ih =>
    rw [List.length_append, List.length_singleton] at few ⊢
    intro same
    rw [List.foldl_append, List.foldl_append] at same
    have doubled := (roll_modEq_iff few _ _ byte).mp same
    by_cases last : bytes = []
    · subst last
      exact differ (topBit_eq_of_modEq (by decide) doubled)
    · exact ih last (by omega) (modEq_half doubled)

/-- No hash on the way ends in so many zeros. -/
def Quiet (bits : Nat) (rolling : UInt64) : Bytes → Prop
  | [] => True
  | byte :: rest => ¬ 2 ^ bits ∣ (roll rolling byte).toNat ∧ Quiet bits (roll rolling byte) rest

theorem quiet_append {bits : Nat} {rolling : UInt64} {bytes rest : Bytes} :
    Quiet bits rolling (bytes ++ rest) ↔
      Quiet bits rolling bytes ∧ Quiet bits (bytes.foldl roll rolling) rest := by
  induction bytes generalizing rolling with
  | nil => simp [Quiet]
  | cons byte bytes ih => simp [Quiet, ih, and_assoc]

section Paths

variable {bits : Nat} (positive : 0 < bits)

include positive

theorem exists_quiet_byte (rolling : UInt64) :
    ∃ byte, ¬ 2 ^ bits ∣ (roll rolling byte).toNat := by
  have odd : ∀ byte : UInt8, (topBit rolling + byte.toNat) % 2 = 1 →
      ¬ 2 ^ bits ∣ (roll rolling byte).toNat := by
    intro byte parity divides
    have mod := roll_modEq (by decide : 1 ≤ 64) rolling byte
    have even := (dvd_pow_self 2 positive.ne').trans divides
    rw [pow_one] at mod
    have product := mod.symm.trans (Nat.modEq_zero_iff_dvd.mpr even)
    rw [Nat.ModEq, Nat.mul_mod, show rollFactor % 2 = 1 from rfl] at product
    omega
  have top := topBit_le rolling
  rcases Nat.le_one_iff_eq_zero_or_eq_one.mp top with zero | one
  · exact ⟨1, odd 1 (by rw [zero]; rfl)⟩
  · exact ⟨0, odd 0 (by rw [one]; rfl)⟩

theorem exists_quiet (length : Nat) (rolling : UInt64) :
    ∃ bytes : Bytes, bytes.length = length ∧ Quiet bits rolling bytes := by
  induction length generalizing rolling with
  | zero => exact ⟨[], rfl, trivial⟩
  | succ length ih =>
    obtain ⟨byte, quiet⟩ := exists_quiet_byte positive rolling
    obtain ⟨bytes, rfl, later⟩ := ih (roll rolling byte)
    exact ⟨byte :: bytes, rfl, quiet, later⟩

/-- The difference of two hashes moves up until the top bits show it. -/
theorem exists_topBit_ne {count : Nat} {first second : UInt64} (few : count ≤ 63)
    (differ : first ≠ second) (low : first.toNat ≡ second.toNat [MOD 2 ^ (63 - count)]) :
    ∃ bytes : Bytes, bytes.length ≤ count ∧ Quiet bits first bytes ∧
      topBit (bytes.foldl roll first) ≠ topBit (bytes.foldl roll second) := by
  induction count generalizing first second with
  | zero => exact ⟨[], Nat.le_refl 0, trivial, fun top => differ (eq_of_topBit low top)⟩
  | succ count ih =>
    by_cases top : topBit first = topBit second
    · obtain ⟨byte, quiet⟩ := exists_quiet_byte positive first
      have doubled : 2 * first.toNat + topBit first ≡ 2 * second.toNat + topBit second
          [MOD 2 ^ (63 - count)] := by
        have step : 63 - count = 63 - (count + 1) + 1 := by omega
        rw [top, step, pow_succ, Nat.mul_comm (2 ^ _)]
        exact (low.mul_left' 2).add_right _
      obtain ⟨bytes, length, later, ends⟩ := ih (by omega)
        (fun same => differ (roll_injective byte same))
        ((roll_modEq_iff (by omega) first second byte).mpr doubled)
      exact ⟨byte :: bytes, Nat.succ_le_succ length, ⟨quiet, later⟩, ends⟩
    · exact ⟨[], Nat.zero_le _, trivial, top⟩

end Paths

/-- The inverse of the factor modulo `2 ^ 64`. -/
def rollInverse : Nat := 0x887493432BADB37

/-- The last byte can set one bit more than is set. -/
theorem exists_last {k : Nat} (small : k < 64) (value : Nat) :
    ∃ before, (k = 0 ∨ ¬ 2 ^ k ∣ before) ∧ ∀ rolling : UInt64,
      rolling.toNat ≡ before [MOD 2 ^ k] →
        ∃ byte, (roll rolling byte).toNat ≡ value [MOD 2 ^ (k + 1)] := by
  -- what the doubled hash and the byte have to come to
  let sum := rollInverse * value + 2 ^ 64
  have large : 2 ^ 64 ≤ sum := Nat.le_add_left _ _
  have solved : sum * rollFactor ≡ value [MOD 2 ^ (k + 1)] := by
    have inverse : rollInverse * rollFactor ≡ 1 [MOD 2 ^ 64] := by decide
    have whole : sum * rollFactor ≡ value [MOD 2 ^ 64] := by
      have product : sum * rollFactor =
          rollInverse * rollFactor * value + 2 ^ 64 * rollFactor := by ring
      rw [product]
      have first := inverse.mul_right value
      rw [Nat.one_mul] at first
      exact first.add (Nat.modEq_zero_iff_dvd.mpr (dvd_mul_right _ _))
    exact whole.of_dvd (pow_dvd_pow 2 small)
  have reach : ∀ digit before, 1 ≤ digit → digit ≤ 4 → 2 * before + digit = sum →
      ∀ rolling : UInt64, rolling.toNat ≡ before [MOD 2 ^ k] →
        ∃ byte, (roll rolling byte).toNat ≡ value [MOD 2 ^ (k + 1)] := by
    intro digit before least most total rolling same
    have top := topBit_le rolling
    refine ⟨UInt8.ofNat (digit - topBit rolling), ?_⟩
    have byte : (UInt8.ofNat (digit - topBit rolling)).toNat = digit - topBit rolling := by
      rw [UInt8.toNat_ofNat']
      omega
    have step := roll_modEq (show k + 1 ≤ 64 from small) rolling
      (UInt8.ofNat (digit - topBit rolling))
    have digits : topBit rolling + (digit - topBit rolling) = digit := by omega
    rw [byte, Nat.add_assoc, digits] at step
    refine step.trans (Nat.ModEq.trans ?_ (total ▸ solved))
    have doubled : 2 * rolling.toNat ≡ 2 * before [MOD 2 ^ (k + 1)] := by
      rw [pow_succ, Nat.mul_comm (2 ^ k)]
      exact same.mul_left' 2
    exact (doubled.add_right digit).mul_right _
  -- of two neighbours one is no multiple
  by_cases divides : 2 ^ k ∣ (sum - 1) / 2
  · refine ⟨(sum - 1) / 2 - 1, ?_, reach (sum - 2 * ((sum - 1) / 2) + 2) _ (by omega) (by omega)
      (by omega)⟩
    by_cases zero : k = 0
    · exact Or.inl zero
    · refine Or.inr fun also => ?_
      have one : 2 ^ k ∣ 1 := by
        have difference := Nat.dvd_sub divides also
        rwa [show (sum - 1) / 2 - ((sum - 1) / 2 - 1) = 1 by omega] at difference
      exact zero (by simpa using one)
  · exact ⟨(sum - 1) / 2, Or.inr divides,
      reach (sum - 2 * ((sum - 1) / 2)) _ (by omega) (by omega) (by omega)⟩

theorem exists_quiet_modEq {bits k : Nat} (below : k ≤ bits) (small : k ≤ 64) (rolling : UInt64)
    (value : Nat) (odd : k = 0 ∨ ¬ 2 ^ k ∣ value) :
    ∃ bytes : Bytes, bytes.length = k ∧ Quiet bits rolling bytes ∧
      (bytes.foldl roll rolling).toNat ≡ value [MOD 2 ^ k] := by
  induction k generalizing value with
  | zero => exact ⟨[], rfl, trivial, Nat.modEq_one⟩
  | succ k ih =>
    obtain ⟨before, odd', last⟩ := exists_last small value
    obtain ⟨bytes, length, quiet, hash⟩ := ih (by omega) (by omega) before odd'
    obtain ⟨byte, reached⟩ := last _ hash
    refine ⟨bytes ++ [byte], by simp [length], quiet_append.mpr ⟨quiet, ?_, trivial⟩, ?_⟩
    · intro divides
      have lower := (pow_dvd_pow 2 below).trans divides
      exact (odd.resolve_left k.succ_ne_zero) ((reached.dvd_iff (dvd_refl _)).mp lower)
    · rw [List.foldl_append]
      exact reached

/-- Two hashes that differ are told apart: some bytes bring the one to so many zeros, for the first
time, and not the other. -/
theorem exists_telling_apart {bits shortest : Nat} (positive : 0 < bits) (small : bits ≤ 64)
    (room : bits ≤ shortest) {first second : UInt64} (differ : first ≠ second) :
    ∃ (bytes : Bytes) (byte : UInt8), shortest ≤ bytes.length + 1 ∧
      bytes.length + 1 ≤ shortest + 63 ∧ Quiet bits first bytes ∧
      2 ^ bits ∣ ((bytes ++ [byte]).foldl roll first).toNat ∧
      ¬ 2 ^ bits ∣ ((bytes ++ [byte]).foldl roll second).toNat := by
  obtain ⟨front, frontLength, quietFront⟩ :=
    exists_quiet positive (shortest - bits) first
  obtain ⟨middle, middleLength, quietMiddle, top⟩ := exists_topBit_ne positive (Nat.le_refl 63)
    ((foldl_roll_injective front).ne differ) Nat.modEq_one
  obtain ⟨bits, rfl⟩ : ∃ k, bits = k + 1 := ⟨bits - 1, by omega⟩
  obtain ⟨before, odd, last⟩ := exists_last small 0
  obtain ⟨back, backLength, quietBack, hash⟩ := exists_quiet_modEq (Nat.le_succ bits)
    (Nat.le_of_succ_le small) (middle.foldl roll (front.foldl roll first)) before odd
  obtain ⟨byte, zero⟩ := last _ hash
  refine ⟨front ++ middle ++ back, byte, ?_, ?_, ?_, ?_, ?_⟩
  · simp only [List.length_append]
    omega
  · simp only [List.length_append]
    omega
  · rw [quiet_append, quiet_append, List.foldl_append]
    exact ⟨⟨quietFront, quietMiddle⟩, quietBack⟩
  · simp only [List.foldl_append, List.foldl_cons, List.foldl_nil]
    exact Nat.modEq_zero_iff_dvd.mp zero
  · intro divides
    have some_ : back ++ [byte] ≠ [] := by simp
    have few : (back ++ [byte]).length ≤ 64 := by
      simp only [List.length_append, List.length_singleton]
      omega
    have apart := not_modEq_of_topBit top some_ few
    simp only [List.foldl_append, List.foldl_cons, List.foldl_nil, List.length_append,
      List.length_singleton, backLength] at apart divides
    exact apart (zero.trans (Nat.modEq_zero_iff_dvd.mpr divides).symm)

end Majutsu.Repo
