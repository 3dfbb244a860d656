import VsLab.MillerRabin
import Mathlib.FieldTheory.Finite.Basic
import Mathlib.Data.Nat.Prime.Basic

set_option autoImplicit false

namespace VsLab

theorem powm_loop_value (x y b c : Nat) : powmLoop x y b c = x * y ^ b % c := by
  induction b using Nat.strongRecOn generalizing x y with
  | ind b ih =>
      rw [powmLoop]
      by_cases zero : b = 0
      · rw [if_pos zero, zero, pow_zero, Nat.mul_one]
      · rw [if_neg zero, ih (b / 2) (by omega)]
        have halves : b / 2 * 2 + b % 2 = b := Nat.div_add_mod' b 2
        have square : (y * y % c) ^ (b / 2) % c = y ^ (b / 2 * 2) % c := by
          rw [← Nat.pow_mod, ← pow_two, ← pow_mul, Nat.mul_comm 2]
        by_cases odd : b % 2 = 1
        · rw [if_pos odd, Nat.mul_mod, Nat.mod_mod, square, ← Nat.mul_mod]
          congr 1
          rw [Nat.mul_assoc, ← pow_succ', ← odd, halves]
        · have even : b / 2 * 2 = b := by omega
          rw [if_neg odd, Nat.mul_mod, square, even, ← Nat.mul_mod]

theorem powm_value (a p c : Nat) : powm a p c = a ^ p % c := by
  rw [powm, powm_loop_value, Nat.one_mul]

theorem lsb_divides (q : Nat) (positive : 0 < q) : 2 ^ lsb q ∣ q := by
  induction q using Nat.strongRecOn with
  | ind q ih =>
      rw [lsb]
      by_cases stop : q = 0 ∨ q % 2 = 1
      · rw [if_pos stop, pow_zero]
        exact one_dvd q
      · rw [if_neg stop, pow_succ]
        have half := ih (q / 2) (by omega) (by omega)
        have whole : q / 2 * 2 = q := by omega
        exact (Nat.mul_dvd_mul_right half 2).trans (dvd_of_eq whole)

theorem lsb_even (q : Nat) (positive : 0 < q) (even : q % 2 = 0) : 0 < lsb q := by
  rw [lsb, if_neg (by omega)]
  exact Nat.succ_pos _

theorem small_factors_checked (n : Nat) (prime : n.Prime) (large : 227 < n) : checkSmallFactors n = true := by
  have blocks : ∀ block ∈ smallFactors, ∀ q ∈ block.2, q ∣ block.1 ∧ 1 < q ∧ q ≤ 227 := by decide +kernel
  rw [checkSmallFactors, List.all_eq_true]
  intro block member
  simp only [List.all_eq_true, bne_iff_ne, ne_eq]
  intro q inside
  obtain ⟨divides, big, small⟩ := blocks block member q inside
  rw [Nat.mod_mod_of_dvd n divides]
  intro zero
  rcases (Nat.dvd_prime prime).mp (Nat.dvd_of_mod_eq_zero zero) with one | same
  · omega
  · omega

theorem small_prime_listed (n : Nat) (prime : n.Prime) (odd : n % 2 = 1) (small : n ≤ 227) : isSmallPrime n = true := by
  have listed : ∀ m < 228, m % 2 = 1 → m.Prime → isSmallPrime m = true := by decide +kernel
  exact listed n (by omega) odd prime

section Trial

variable (n : Nat) [prime : Fact n.Prime]

theorem cast_one (y : Nat) (small : y < n) : (y : ZMod n) = 1 ↔ y = 1 := by
  have big := prime.out.one_lt
  rw [← Nat.cast_one, ZMod.natCast_eq_natCast_iff', Nat.mod_eq_of_lt small, Nat.mod_eq_of_lt big]

theorem cast_last (y : Nat) (small : y < n) (square : (y : ZMod n) * y = 1) : y = 1 ∨ y = n - 1 := by
  have big := prime.out.one_lt
  rcases mul_self_eq_one_iff.mp square with one | minus
  · exact .inl ((cast_one n y small).mp one)
  · right
    have top : ((n - 1 : Nat) : ZMod n) = -1 := by
      rw [Nat.cast_sub big.le, ZMod.natCast_self, Nat.cast_one, zero_sub]
    rw [← top, ZMod.natCast_eq_natCast_iff', Nat.mod_eq_of_lt small, Nat.mod_eq_of_lt (by omega)] at minus
    exact minus

-- Modulo a prime only 1 and -1 square to 1. So going from x^q up to 1 in squarings
-- passes through -1, unless it starts at 1.
theorem trial_passes (left j y : Nat) (small : y < n) (reaches : (y : ZMod n) ^ 2 ^ left = 1)
    (fresh : 0 < j → y ≠ 1) (some : left = 0 → 0 < j) : trialPasses n left j y = true := by
  induction left generalizing j y with
  | zero =>
      rw [pow_zero, pow_one, cast_one n y small] at reaches
      exact absurd reaches (fresh (some rfl))
  | succ left ih =>
      rw [trialPasses]
      by_cases last : y = n - 1
      · rw [if_pos last]
      · rw [if_neg last]
        by_cases one : y = 1
        · rw [if_pos one]
          by_contra late
          rw [decide_eq_true_eq] at late
          exact fresh (by omega) one
        · rw [if_neg one, powm_value]
          have cast : ((y ^ 2 % n : Nat) : ZMod n) = (y : ZMod n) ^ 2 := by rw [ZMod.natCast_mod, Nat.cast_pow]
          refine ih (j + 1) (y ^ 2 % n) (Nat.mod_lt _ prime.out.pos) ?_ ?_ (fun _ => Nat.succ_pos j)
          · rw [cast, ← pow_mul, ← pow_succ']
            exact reaches
          · intro _ again
            rw [again, Nat.cast_one, pow_two] at cast
            exact (cast_last n y small cast.symm).elim one last

end Trial

theorem miller_rabin_prime (bases : Nat → Nat) (n trials : Nat) (isPrime : n.Prime) (odd : n % 2 = 1) :
    millerRabinTest bases n trials = true := by
  have prime : Fact n.Prime := ⟨isPrime⟩
  rw [millerRabinTest, if_neg (by omega)]
  by_cases small : n ≤ 227
  · rw [if_pos small]
    exact small_prime_listed n isPrime odd small
  · have fermat (x : Nat) (low : 0 < x) (high : x < n) : ((x : Nat) : ZMod n) ^ (n - 1) = 1 := by
      refine ZMod.pow_card_sub_one_eq_one ?_
      intro zero
      have := Nat.le_of_dvd low ((ZMod.natCast_eq_zero_iff x n).mp zero)
      omega
    have first : powm 228 (n - 1) n = 1 := by
      rw [powm_value, ← cast_one n _ (Nat.mod_lt _ isPrime.pos), ZMod.natCast_mod, Nat.cast_pow]
      exact fermat 228 (by omega) (by omega)
    simp only [if_neg small, small_factors_checked n isPrime (by omega), first, Bool.not_true, Bool.false_eq_true, if_false,
      ne_eq, not_true_eq_false, List.all_eq_true]
    intro i _
    have base := Nat.mod_lt (bases i) (by omega : 0 < n - 3)
    have split : 2 ^ lsb (n - 1) * ((n - 1) / 2 ^ lsb (n - 1)) = n - 1 :=
      Nat.mul_div_cancel' (lsb_divides (n - 1) (by omega))
    refine trial_passes n (lsb (n - 1)) 0 _ ?_ ?_ (by simp) ?_
    · rw [powm_value]
      exact Nat.mod_lt _ isPrime.pos
    · rw [powm_value, ZMod.natCast_mod, Nat.cast_pow, ← pow_mul, Nat.mul_comm, split]
      exact fermat _ (by omega) (by omega)
    · intro zero
      have := lsb_even (n - 1) (by omega) (by omega)
      omega

theorem probable_prime_passes (bases : Nat → Nat) (value : Int512) (prime : value.val.toNat.Prime)
    (odd : value.val.toNat % 2 = 1) : isProbablePrime bases value = true :=
  miller_rabin_prime bases value.val.toNat 25 prime odd

end VsLab
