import VsLab.RhoExact
import Mathlib.NumberTheory.ArithmeticFunction.Misc

set_option autoImplicit false

namespace VsLab

def FewPrimes (n : Nat) : Prop := n.primeFactorsList.length ≤ 2

instance (n : Nat) : Decidable (FewPrimes n) := inferInstanceAs (Decidable (_ ≤ _))

theorem proper_divisor_prime (n p : Nat) (positive : 0 < n) (big : 2 ≤ p) (divides : p ∣ n) (proper : p ≠ n)
    (few : FewPrimes n) : p.Prime := by
  obtain ⟨c, rfl⟩ := divides
  have cPositive : 0 < c := Nat.pos_of_mul_pos_left positive
  have cBig : 1 < c := by
    by_contra small
    have one : c = 1 := by omega
    exact proper (by rw [one, Nat.mul_one])
  have counted := ArithmeticFunction.cardFactors_mul (m := p) (n := c) (by omega) (by omega)
  have ofDivisor := ArithmeticFunction.cardFactors_pos_iff_one_lt.mpr (by omega : 1 < p)
  have ofCofactor := ArithmeticFunction.cardFactors_pos_iff_one_lt.mpr cBig
  rw [FewPrimes, ← ArithmeticFunction.cardFactors_apply] at few
  exact ArithmeticFunction.cardFactors_eq_one_iff_prime.mp (by omega)

theorem sent_divisor_prime (n p : Int512) (positive : 0 < n.val) (big : 2 ≤ p.val) (divides : p.val ∣ n.val)
    (proper : p ≠ n) (few : FewPrimes n.val.toNat) : p.val.toNat.Prime := by
  have different : p.val ≠ n.val := fun equal => proper (Int512.ext_val p n equal)
  refine proper_divisor_prime n.val.toNat p.val.toNat (by omega) (by omega) ?_ (by omega) few
  exact Int.natCast_dvd_natCast.mp (by rwa [Int.toNat_of_nonneg (by omega), Int.toNat_of_nonneg (by omega)])

theorem composite_divisor (n : Nat) (positive : 0 < n) (many : ¬ FewPrimes n) :
    ∃ c, c ∣ n ∧ 4 ≤ c ∧ c < n ∧ ¬ c.Prime ∧ (c % 2 = 1 ∨ c = 4) := by
  have counted : 3 ≤ ArithmeticFunction.cardFactors n := by
    rw [FewPrimes, ← ArithmeticFunction.cardFactors_apply] at many
    omega
  have big : 1 < n := ArithmeticFunction.cardFactors_pos_iff_one_lt.mp (by omega)
  by_cases four : 4 ∣ n
  · have different : n ≠ 4 := by
      rintro rfl
      exact many (by decide +kernel)
    exact ⟨4, four, le_refl 4, lt_of_le_of_ne (Nat.le_of_dvd positive four) different.symm, by decide, .inr rfl⟩
  · have prime := Nat.minFac_prime (by omega : n ≠ 1)
    obtain ⟨c, split⟩ := Nat.minFac_dvd n
    have cPositive : 0 < c := Nat.pos_of_mul_pos_left (split ▸ positive)
    have product := ArithmeticFunction.cardFactors_mul prime.ne_zero (by omega : c ≠ 0)
    rw [← split, ArithmeticFunction.cardFactors_eq_one_iff_prime.mpr prime] at product
    have composite : ¬ c.Prime := fun isPrime => by
      rw [ArithmeticFunction.cardFactors_eq_one_iff_prime.mpr isPrime] at product
      omega
    have odd : c % 2 = 1 := by
      by_contra even
      obtain ⟨half, isEven⟩ : 2 ∣ c := Nat.dvd_of_mod_eq_zero (by omega)
      have two : n.minFac = 2 := (Nat.minFac_eq_two_iff n).mpr (split ▸ Dvd.dvd.mul_left ⟨half, isEven⟩ n.minFac)
      exact four (split ▸ two ▸ isEven ▸ ⟨half, by ring⟩)
    have above : 1 < c := ArithmeticFunction.cardFactors_pos_iff_one_lt.mp (by omega)
    have notThree : c ≠ 3 := fun three => composite (three ▸ Nat.prime_three)
    refine ⟨c, ⟨n.minFac, split.trans (Nat.mul_comm _ _)⟩, by omega, ?_, composite, .inl odd⟩
    have twice : 2 * c ≤ n.minFac * c := Nat.mul_le_mul_right c prime.two_le
    omega

theorem gcd_congruent (u v n : Int) (congruent : n ∣ u - v) : Int.gcd u n = Int.gcd v n := by
  obtain ⟨k, shifted⟩ := congruent
  rw [show u = v + n * k by omega, Int.gcd_add_mul_left_left]

theorem gcd_abs (u n : Int) : Int.gcd |u| n = Int.gcd u n := by
  rcases abs_choice u with same | negated
  · rw [same]
  · rw [negated, Int.neg_gcd]

theorem rho_step_value (n a x : Int512) (z : Int) (small : n.val * n.val + n.val < modulus)
    (aLow : 0 ≤ a.val) (aHigh : a.val ≤ n.val) (xLow : 0 ≤ x.val) (xHigh : x.val ≤ n.val)
    (zLow : 0 ≤ z) (zHigh : z < n.val) (first : n.val ∣ x.val * x.val + a.val - z) :
    ∃ next, rhoStep n a x x = some next ∧ next.p.val = Int.gcd (z * z - x.val * x.val) n.val := by
  obtain ⟨next, d, stepped, xVal, yVal, _, distance, _, _, isGcd⟩ :=
    rho_pass n a (by omega) small aLow aHigh x x xLow xHigh xLow xHigh
  have isZ : rhoMap n.val a.val x.val = z := by
    rw [rhoMap, Int.emod_eq_emod_iff_emod_sub_eq_zero.mpr (Int.emod_eq_zero_of_dvd first), Int.emod_eq_of_lt zLow zHigh]
  rw [isZ] at xVal yVal
  have congruent : n.val ∣ (next.y.val - z) - (z * z - x.val * x.val) := by
    have sum := Int.dvd_add (Int.dvd_sub_self_of_emod_eq yVal.symm) first
    have arranged : next.y.val - (z * z + a.val) + (x.val * x.val + a.val - z) =
        next.y.val - z - (z * z - x.val * x.val) := by
      ring
    rwa [arranged] at sum
  refine ⟨next, stepped, ?_⟩
  rw [isGcd, distance, xVal, gcd_abs, gcd_congruent _ _ n.val congruent]

theorem draws_give (bases : Nat → Nat) (n cycles x : Int512) (z c : Int) (small : n.val * n.val + n.val < modulus)
    (xLow : 1 ≤ x.val) (xHigh : x.val ≤ n.val) (zLow : 0 ≤ z) (zHigh : z < n.val)
    (isGcd : Int.gcd (z * z - x.val * x.val) n.val = c) (big : 1 < c) (proper : c < n.val) :
    ∃ a random p, 0 ≤ random.val ∧ 1 ≤ a.val ∧ a.val ≤ n.val ∧
      slice bases random n a cycles = some (.factor p 0) ∧ p.val = c := by
  have positive : 0 < n.val := by omega
  have fits := n.fits
  have aLow := Int.emod_nonneg (z - x.val * x.val - 1) positive.ne'
  have aHigh := Int.emod_lt_of_pos (z - x.val * x.val - 1) positive
  obtain ⟨a, aValue⟩ : ∃ a : Int512, a.val = (z - x.val * x.val - 1) % n.val + 1 := ⟨⟨_, by omega⟩, rfl⟩
  have first : n.val ∣ x.val * x.val + a.val - z := by
    have congruent := Int.dvd_emod_sub_self (x := z - x.val * x.val - 1) (m := n.val)
    have arranged : (z - x.val * x.val - 1) % n.val - (z - x.val * x.val - 1) = x.val * x.val + a.val - z := by
      rw [aValue]
      ring
    rwa [arranged] at congruent
  obtain ⟨next, stepped, value⟩ := rho_step_value n a x z small (by omega) (by omega) (by omega) xHigh zLow zHigh first
  obtain ⟨random, low, drawn⟩ := any_start n x xLow xHigh
  refine ⟨a, random, next.p, low, by omega, by omega, ?_, value.trans isGcd⟩
  have notOne : next.p ≠ 1 := fun one => by rw [one, Int512.val_one] at value; omega
  have notN : next.p ≠ n := fun same => by rw [same] at value; omega
  rw [slice_first_pass bases random n a cycles x next low positive drawn stepped notOne, leaving, if_pos (.inl notN)]

theorem divisor_drawn (bases : Nat → Nat) (n cycles : Int512) (c : Nat) (small : n.val * n.val + n.val < modulus)
    (divides : (c : Int) ∣ n.val) (big : 3 ≤ c) (proper : c < n.val) (kind : c % 2 = 1 ∨ c = 4) :
    ∃ a random p, 0 ≤ random.val ∧ 1 ≤ a.val ∧ a.val ≤ n.val ∧
      slice bases random n a cycles = some (.factor p 0) ∧ p.val = c := by
  have fits := n.fits
  rcases kind with odd | rfl
  · obtain ⟨half, rfl⟩ : ∃ half, c = 2 * half + 1 := ⟨c / 2, by omega⟩
    refine draws_give bases n cycles ⟨half, by omega⟩ (half + 1) (2 * half + 1 : Nat) small (by simp only; omega)
      (by simp only; omega) (by omega) (by omega) ?_ (by omega) (by omega)
    have difference : ((half : Int) + 1) * (half + 1) - half * half = (2 * half + 1 : Nat) := by
      push_cast
      ring
    rw [difference, Int.gcd_eq_left (by omega) divides]
  · refine draws_give bases n cycles n 2 (4 : Nat) small (by omega) le_rfl (by omega) (by omega) ?_ (by omega)
      (by omega)
    rw [gcd_congruent _ (4 : Nat) n.val ⟨-n.val, by push_cast; ring⟩, Int.gcd_eq_left (by omega) divides]

theorem composite_slice (bases : Nat → Nat) (n cycles : Int512) (positive : 0 < n.val)
    (small : n.val * n.val + n.val < modulus) (many : ¬ FewPrimes n.val.toNat) :
    ∃ a random p, 0 ≤ random.val ∧ 1 ≤ a.val ∧ a.val ≤ n.val ∧
      slice bases random n a cycles = some (.factor p 0) ∧ p ≠ n ∧ ¬ p.val.toNat.Prime := by
  obtain ⟨c, divides, big, proper, composite, kind⟩ := composite_divisor n.val.toNat (by omega) many
  have divides : (c : Int) ∣ n.val := by rwa [← Int.natCast_dvd_natCast, Int.toNat_of_nonneg positive.le] at divides
  obtain ⟨a, random, p, low, aLow, aHigh, sliced, value⟩ :=
    divisor_drawn bases n cycles c small divides (by omega) (by omega) kind
  refine ⟨a, random, p, low, aLow, aHigh, sliced, ?_, ?_⟩
  · rintro rfl
    omega
  · rwa [value, Int.toNat_natCast]

theorem few_primes_iff (n : Int512) (positive : 0 < n.val) (small : n.val * n.val + n.val < modulus) :
    FewPrimes n.val.toNat ↔ ∀ bases random a cycles p i, 0 ≤ random.val → 1 ≤ a.val → a.val ≤ n.val →
      slice bases random n a cycles = some (.factor p i) → p ≠ n → p.val.toNat.Prime := by
  constructor
  · intro few bases random a cycles p i _ _ _ sliced proper
    obtain ⟨result, defined, sound⟩ := slice_outcome bases random n a cycles (by omega)
    rw [sliced, Option.some.injEq] at defined
    obtain ⟨big, divides, _⟩ := sound p i defined.symm
    have exact := carry_free_exact n (narrow_free n positive small)
    exact sent_divisor_prime n p positive big (divides exact) proper few
  · intro primes
    by_contra many
    obtain ⟨a, random, p, low, aLow, aHigh, sliced, proper, composite⟩ :=
      composite_slice (fun _ => 0) n 0 positive small many
    exact composite (primes _ random a 0 p 0 low aLow aHigh sliced proper)

end VsLab
