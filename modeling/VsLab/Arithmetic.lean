import VsLab.LongDivision
import Mathlib.Data.Int.GCD

set_option autoImplicit false

namespace VsLab

open CppInt

-- What % and / of int512_t return; none is the overflow_error ("Integer Division by
-- zero.") that they throw. The program runs on vendored, truncating is what the
-- library promises.
class Divider where
  remainder : Int512 → Int512 → Option Int512
  quotient : Int512 → Int512 → Option Int512

namespace Int512

section Operations

variable [Divider]

def mod (a b : Int512) : Option Int512 := Divider.remainder a b

def div (a b : Int512) : Option Int512 := Divider.quotient a b

-- none is a division by zero or a round too many: gcd_defined rules out both.
def gcdEuclidean : Nat → Int512 → Int512 → Option Int512
  | 0, _, _ => none
  | fuel + 1, a, b =>
      if a = 0 then some b
      else (b.mod a).bind fun b =>
        if b = 0 then some a else (a.mod b).bind fun a => gcdEuclidean fuel a b

def gcd (a b : Int512) : Option Int512 :=
  (gcdEuclidean (a.val.natAbs + 1) a b).map fun result => if result < 0 then -result else result

end Operations

end Int512

instance vendored : Divider := ⟨evalModulus, evalDivide⟩

namespace Int512

theorem tmod_fits (a b : Int512) : (a.val.tmod b.val).natAbs < modulus := by
  rw [Int.natAbs_tmod]
  exact Nat.lt_of_le_of_lt (Nat.mod_le _ _) a.fits

theorem tdiv_fits (a b : Int512) : (a.val.tdiv b.val).natAbs < modulus := by
  rw [Int.natAbs_tdiv]
  exact Nat.lt_of_le_of_lt (Nat.div_le_self _ _) a.fits

def truncatedRemainder (a b : Int512) : Option Int512 :=
  if b.val = 0 then none else some ⟨a.val.tmod b.val, tmod_fits a b⟩

def truncatedQuotient (a b : Int512) : Option Int512 :=
  if b.val = 0 then none else some ⟨a.val.tdiv b.val, tdiv_fits a b⟩

end Int512

@[reducible] def truncating : Divider := ⟨Int512.truncatedRemainder, Int512.truncatedQuotient⟩

def carryFree : Nat := modulus - limbRadix ^ 7

-- a with c times 2^512 on top of its magnitude: what the long division divides when it
-- has dropped c carries.
def inflated (a : Int) (c : Nat) : Int := a.sign * (a.natAbs + c * modulus : Nat)

section Laws

variable [Divider]

structure DividedAs (a b : Int512) (c : Nat) : Prop where
  mod : ∃ r, a.mod b = some r ∧ r.val = (inflated a.val c).tmod b.val
  div : ∃ q, a.div b = some q ∧ q.val = (inflated a.val c).tdiv b.val
  top : 0 < c → carryFree ≤ a.val.natAbs
  longer : 0 < c → b.val.natAbs ≤ a.val.natAbs
  limbs : 0 < c → limbRadix ≤ b.val.natAbs
  small : 0 < c → ((inflated a.val c).tdiv b.val).natAbs < carryFree
  many : 0 < c → 2 ≤ ((inflated a.val c).tdiv b.val).natAbs

structure Truncating : Prop where
  mod : ∀ a b : Int512, a.mod b = a.truncatedRemainder b
  div : ∀ a b : Int512, a.div b = a.truncatedQuotient b

class LawfulDivider : Prop where
  mod_by_zero : ∀ a b : Int512, b.val = 0 → a.mod b = none
  div_by_zero : ∀ a b : Int512, b.val = 0 → a.div b = none
  divided : ∀ a b : Int512, b.val ≠ 0 → ∃ c, DividedAs a b c

def ExactUpTo (n : Int512) : Prop :=
  ∀ v d : Int512, v.val.natAbs ≤ n.val.natAbs → d.val ≠ 0 → DividedAs v d 0

end Laws

theorem inflated_zero (a : Int) : inflated a 0 = a := by
  rw [inflated, Nat.zero_mul, Nat.add_zero, Int.sign_mul_natAbs]

theorem inflated_magnitude (a : Int) (c : Nat) (nonzero : a ≠ 0) : (inflated a c).natAbs = a.natAbs + c * modulus := by
  rw [inflated, Int.natAbs_mul, Int.natAbs_sign_of_ne_zero nonzero, Nat.one_mul, Int.natAbs_natCast]

theorem inflated_nonneg (a : Int) (c : Nat) (nonneg : 0 ≤ a) : 0 ≤ inflated a c := by
  rcases lt_or_eq_of_le nonneg with positive | zero
  · rw [inflated, Int.sign_eq_one_of_pos positive, Int.one_mul]
    exact Int.natCast_nonneg _
  · rw [← zero, inflated, Int.sign_zero, Int.zero_mul]

theorem inflated_positive (a : Int) (c : Nat) (positive : 0 < a) : 0 < inflated a c := by
  rw [inflated, Int.sign_eq_one_of_pos positive, Int.one_mul]
  omega

theorem inflated_negative (a : Int) (c : Nat) : inflated a c < 0 ↔ a < 0 := by
  constructor
  · intro negative
    by_contra nonneg
    exact absurd (inflated_nonneg a c (not_lt.mp nonneg)) (not_le.mpr negative)
  · intro negative
    rw [inflated, Int.sign_eq_neg_one_of_neg negative]
    omega

theorem truncated_remainder (a b : Int) :
    a.tmod b = if a < 0 then -((a.natAbs % b.natAbs : Nat) : Int) else ((a.natAbs % b.natAbs : Nat) : Int) := by
  have unsigned (x y : Nat) (z : Int) (same : z = y ∨ z = -y) : (x : Int).tmod z = ((x % y : Nat) : Int) := by
    rcases same with rfl | rfl
    · exact (Int.ofNat_tmod x y).symm
    · rw [Int.tmod_neg]
      exact (Int.ofNat_tmod x y).symm
  have divisor := Int.natAbs_eq b
  by_cases negative : a < 0
  · rw [if_pos negative]
    nth_rewrite 1 [show a = -(a.natAbs : Int) by omega]
    rw [Int.neg_tmod, unsigned _ _ _ divisor]
  · rw [if_neg negative]
    nth_rewrite 1 [show a = (a.natAbs : Int) by omega]
    exact unsigned _ _ _ divisor

theorem truncated_quotient (a b : Int) :
    a.tdiv b = if (a < 0) ≠ (b < 0) then -((a.natAbs / b.natAbs : Nat) : Int) else ((a.natAbs / b.natAbs : Nat) : Int) := by
  have unsigned (x y : Nat) : (x : Int).tdiv y = ((x / y : Nat) : Int) := (Int.ofNat_tdiv x y).symm
  have dividend : a = if a < 0 then -(a.natAbs : Int) else a.natAbs := by split <;> omega
  have divisor : b = if b < 0 then -(b.natAbs : Int) else b.natAbs := by split <;> omega
  generalize a.natAbs = x at *
  generalize b.natAbs = y at *
  by_cases left : a < 0 <;> by_cases right : b < 0 <;>
    simp only [left, right, if_true, if_false, ne_eq, not_true_eq_false, not_false_eq_true, true_iff, false_iff,
      eq_iff_iff] at dividend divisor ⊢ <;>
    simp only [dividend, divisor, Int.neg_tdiv, Int.tdiv_neg, Int.neg_neg, unsigned]

section Vendored

def Spills (a b : Int512) : Prop := FirstGuessOverflows a.val.natAbs b.val.natAbs

instance (a b : Int512) : Decidable (Spills a b) := inferInstanceAs (Decidable (FirstGuessOverflows _ _))

theorem carry_free_le : carryFree ≤ modulus := Nat.sub_le _ _

theorem divided_as (a b : Int512) (c : Nat) (nonzero : b.val ≠ 0) (lost : 0 < c → Spills a b)
    (computed : divideUnsignedHelper a.val.natAbs b.val.natAbs =
      some ((((a.val.natAbs + c * modulus) / b.val.natAbs : Nat) : Int), (a.val.natAbs + c * modulus) % b.val.natAbs))
    (small : 0 < c → (a.val.natAbs + c * modulus) / b.val.natAbs < carryFree)
    (many : 0 < c → 2 ≤ (a.val.natAbs + c * modulus) / b.val.natAbs) : DividedAs a b c := by
  have magnitude : (inflated a.val c).natAbs = a.val.natAbs + c * modulus := by
    rcases Nat.eq_zero_or_pos c with zero | more
    · rw [zero, inflated_zero, Nat.zero_mul, Nat.add_zero]
    · refine inflated_magnitude a.val c fun isZero => ?_
      have le := (lost more).2.1
      omega
  have quotient : ((inflated a.val c).tdiv b.val).natAbs = (a.val.natAbs + c * modulus) / b.val.natAbs := by
    rw [Int.natAbs_tdiv, magnitude]
    rfl
  have remainder : ∃ r, a.mod b = some r ∧ r.val = (inflated a.val c).tmod b.val := by
    refine ⟨Int512.wrap (if a.val < 0 then -(((a.val.natAbs + c * modulus) % b.val.natAbs : Nat) : Int)
      else ((a.val.natAbs + c * modulus) % b.val.natAbs : Nat)), ?_, ?_⟩
    · show evalModulus a b = _
      rw [evalModulus, computed, Option.map_some]
    · rw [truncated_remainder, magnitude, if_congr (inflated_negative a.val c) rfl rfl]
      have bound : (a.val.natAbs + c * modulus) % b.val.natAbs < modulus :=
        Nat.lt_trans (Nat.mod_lt _ (Int.natAbs_pos.mpr nonzero)) b.fits
      refine Int512.val_wrap_small _ ?_
      generalize (a.val.natAbs + c * modulus) % b.val.natAbs = r at bound
      split <;> omega
  have divided : ∃ q, a.div b = some q ∧ q.val = (inflated a.val c).tdiv b.val := by
    refine ⟨Int512.wrap (if (a.val < 0) ≠ (b.val < 0) then -(((a.val.natAbs + c * modulus) / b.val.natAbs : Nat) : Int)
      else ((a.val.natAbs + c * modulus) / b.val.natAbs : Nat)), ?_, ?_⟩
    · show evalDivide a b = _
      rw [evalDivide, computed, Option.map_some]
    · rw [truncated_quotient, magnitude]
      simp only [inflated_negative]
      have bound : (a.val.natAbs + c * modulus) / b.val.natAbs < modulus := by
        rcases Nat.eq_zero_or_pos c with zero | more
        · rw [zero, Nat.zero_mul, Nat.add_zero]
          exact Nat.lt_of_le_of_lt (Nat.div_le_self _ _) a.fits
        · exact lt_of_lt_of_le (small more) carry_free_le
      refine Int512.val_wrap_small _ ?_
      generalize (a.val.natAbs + c * modulus) / b.val.natAbs = q at bound
      split <;> omega
  refine ⟨remainder, divided, ?_, fun more => (lost more).2.1, fun more => ?_, ?_, ?_⟩
  · intro more
    by_contra below
    exact below_top_fits _ _ (not_le.mp below) (lost more)
  · exact (Nat.le_self_pow (lost more).1.ne' limbRadix).trans (order_leads _ (Int.natAbs_pos.mpr nonzero)).1
  · rwa [quotient]
  · rwa [quotient]

theorem unspilled_exact (a b : Int512) (nonzero : b.val ≠ 0) (fits : ¬ Spills a b) : DividedAs a b 0 := by
  refine divided_as a b 0 nonzero (fun more => absurd more (Nat.lt_irrefl 0)) ?_
    (fun more => absurd more (Nat.lt_irrefl 0)) (fun more => absurd more (Nat.lt_irrefl 0))
  rw [divide_exact _ _ (Int.natAbs_pos.mpr nonzero) a.fits fits, Nat.zero_mul, Nat.add_zero]

theorem short_fits (a b : Int512) (less : a.val.natAbs < b.val.natAbs) : ¬ Spills a b :=
  fun spills => absurd spills.2.1 (Nat.not_le_of_lt less)

theorem spilled_inflated (a b : Int512) (spills : Spills a b) : ∃ c, 0 < c ∧ DividedAs a b c := by
  obtain ⟨c, computed, more, small, many⟩ := divide_spilled _ _ a.fits spills
  have nonzero : b.val ≠ 0 := by
    have long := positive_of_long _ spills.1
    omega
  exact ⟨c, more, divided_as a b c nonzero (fun _ => spills) computed (fun _ => small) (fun _ => many)⟩

instance vendored_lawful : LawfulDivider where
  mod_by_zero a b zero := by
    show evalModulus a b = none
    rw [evalModulus, zero]
    rfl
  div_by_zero a b zero := by
    show evalDivide a b = none
    rw [evalDivide, zero]
    rfl
  divided a b nonzero := by
    by_cases spills : Spills a b
    · obtain ⟨c, _, divided⟩ := spilled_inflated a b spills
      exact ⟨c, divided⟩
    · exact ⟨0, unspilled_exact a b nonzero spills⟩

-- No division of a number up to n drops a carry. Every n below carryFree is one.
def Unspilled (n : Int512) : Prop := ∀ v d : Int512, v.val.natAbs ≤ n.val.natAbs → ¬ Spills v d

theorem unspilled_up_to (n : Int512) (fits : Unspilled n) : ExactUpTo n :=
  fun v d le nonzero => unspilled_exact v d nonzero (fits v d le)

theorem carry_free_unspilled (n : Int512) (small : n.val.natAbs < carryFree) : Unspilled n :=
  fun _ _ le => below_top_fits _ _ (Nat.lt_of_le_of_lt le small)

end Vendored

theorem gcd_remainder (a b r : Int) (value : r = b.tmod a) : Int.gcd a r = Int.gcd a b := by
  have split := Int.tmod_add_mul_tdiv b a
  rw [← value] at split
  rw [← split, Int.gcd_add_mul_left_right]

theorem absolute_value (a : Int512) : (if a < 0 then -a else a).val = a.val.natAbs := by
  by_cases negative : a < 0
  · have below : a.val < 0 := negative
    rw [if_pos negative, Int512.val_neg]
    omega
  · have above : ¬ a.val < 0 := negative
    rw [if_neg negative]
    omega

section Lawful

variable [Divider]

theorem exact_mono (n m : Int512) (exact : ExactUpTo n) (le : m.val.natAbs ≤ n.val.natAbs) : ExactUpTo m :=
  fun v d below nonzero => exact v d (below.trans le) nonzero

theorem remainder_exact (a b : Int512) (exact : DividedAs a b 0) : ∃ r, a.mod b = some r ∧ r.val = a.val.tmod b.val := by
  obtain ⟨r, computed, value⟩ := exact.mod
  exact ⟨r, computed, by rw [value, inflated_zero]⟩

theorem quotient_exact (a b : Int512) (exact : DividedAs a b 0) : ∃ q, a.div b = some q ∧ q.val = a.val.tdiv b.val := by
  obtain ⟨q, computed, value⟩ := exact.div
  exact ⟨q, computed, by rw [value, inflated_zero]⟩

theorem exactly_divided (a b : Int512) (mod : ∃ r, a.mod b = some r ∧ r.val = a.val.tmod b.val)
    (div : ∃ q, a.div b = some q ∧ q.val = a.val.tdiv b.val) : DividedAs a b 0 := by
  have none : ¬ 0 < 0 := Nat.lt_irrefl 0
  rw [← inflated_zero a.val] at mod div
  exact ⟨mod, div, fun more => absurd more none, fun more => absurd more none, fun more => absurd more none,
    fun more => absurd more none, fun more => absurd more none⟩

theorem no_carry (a b : Int512) (top : a.val.natAbs < carryFree) (c : Nat) (divided : DividedAs a b c) : c = 0 := by
  by_contra more
  exact absurd (divided.top (Nat.pos_of_ne_zero more)) (Nat.not_le_of_lt top)

theorem exact_unique (a b : Int512) (c : Nat) (nonzero : b.val ≠ 0) (exact : DividedAs a b 0) (divided : DividedAs a b c) :
    c = 0 := by
  by_contra some
  have more := Nat.pos_of_ne_zero some
  obtain ⟨q, computed, value⟩ := quotient_exact a b exact
  obtain ⟨q', computed', value'⟩ := divided.div
  cases computed.symm.trans computed'
  have longer := divided.longer more
  have positive := Int.natAbs_pos.mpr nonzero
  have magnitudes : (a.val.natAbs + c * modulus) / b.val.natAbs = a.val.natAbs / b.val.natAbs := by
    have same := congrArg Int.natAbs (value'.symm.trans value)
    rwa [Int.natAbs_tdiv, Int.natAbs_tdiv, inflated_magnitude a.val c (by omega)] at same
  have enough : b.val.natAbs ≤ c * modulus := b.fits.le.trans (Nat.le_mul_of_pos_left modulus more)
  have greater : a.val.natAbs / b.val.natAbs + 1 ≤ (a.val.natAbs + c * modulus) / b.val.natAbs := by
    rw [Nat.le_div_iff_mul_le positive, Nat.add_mul, Nat.one_mul]
    exact Nat.add_le_add (Nat.div_mul_le_self _ _) enough
  omega

theorem gcd_euclidean_value (n : Int512) (exact : ExactUpTo n) (fuel : Nat) (a b : Int512)
    (aBelow : a.val.natAbs ≤ n.val.natAbs) (bBelow : b.val.natAbs ≤ n.val.natAbs) (enough : a.val.natAbs < fuel) :
    ∃ result, Int512.gcdEuclidean fuel a b = some result ∧ result.val.natAbs = Int.gcd a.val b.val := by
  induction fuel generalizing a b with
  | zero => omega
  | succ fuel ih =>
      rw [Int512.gcdEuclidean]
      by_cases aZero : a = 0
      · refine ⟨b, by rw [if_pos aZero], ?_⟩
        rw [aZero, Int512.val_zero, Int.gcd_zero_left]
      · have aNonzero : a.val ≠ 0 := fun zero => aZero (Int512.ext_val _ _ zero)
        obtain ⟨r, reduced, value⟩ := remainder_exact b a (exact b a bBelow aNonzero)
        have less : r.val.natAbs < a.val.natAbs := by
          rw [value, Int.natAbs_tmod]
          exact Nat.mod_lt _ (Int.natAbs_pos.mpr aNonzero)
        rw [if_neg aZero, reduced, Option.bind_some, ← gcd_remainder a.val b.val r.val value]
        by_cases rZero : r = 0
        · refine ⟨a, by rw [if_pos rZero], ?_⟩
          rw [rZero, Int512.val_zero, Int.gcd_zero_right]
        · have rNonzero : r.val ≠ 0 := fun zero => rZero (Int512.ext_val _ _ zero)
          obtain ⟨q, again, value'⟩ := remainder_exact a r (exact a r aBelow rNonzero)
          have less' : q.val.natAbs < r.val.natAbs := by
            rw [value', Int.natAbs_tmod]
            exact Nat.mod_lt _ (Int.natAbs_pos.mpr rNonzero)
          obtain ⟨result, ended, isGcd⟩ := ih q r (by omega) (by omega) (by omega)
          refine ⟨result, ?_, ?_⟩
          · rw [if_neg rZero, again, Option.bind_some]
            exact ended
          · rw [isGcd, Int.gcd_comm, gcd_remainder r.val a.val q.val value', Int.gcd_comm]

theorem gcd_exact (d n p : Int512) (exact : ExactUpTo n) (below : d.val.natAbs ≤ n.val.natAbs) (isGcd : d.gcd n = some p) :
    p.val = Int.gcd d.val n.val := by
  obtain ⟨result, ended, value⟩ :=
    gcd_euclidean_value n exact (d.val.natAbs + 1) d n below (Nat.le_refl _) (Nat.lt_succ_self _)
  rw [Int512.gcd, ended, Option.map_some, Option.some.injEq] at isGcd
  rw [← isGcd, absolute_value, value]

variable [LawfulDivider]

theorem free_divided (a b : Int512) (top : a.val.natAbs < carryFree) (nonzero : b.val ≠ 0) : DividedAs a b 0 := by
  obtain ⟨c, divided⟩ := LawfulDivider.divided a b nonzero
  rwa [no_carry a b top c divided] at divided

theorem short_divided (a b : Int512) (less : a.val.natAbs < b.val.natAbs) : DividedAs a b 0 := by
  obtain ⟨c, divided⟩ := LawfulDivider.divided a b (by omega)
  rcases Nat.eq_zero_or_pos c with zero | more
  · rwa [zero] at divided
  · exact absurd (divided.longer more) (Nat.not_le_of_lt less)

theorem carry_free_exact (n : Int512) (top : n.val.natAbs < carryFree) : ExactUpTo n :=
  fun v d le nonzero => free_divided v d (Nat.lt_of_le_of_lt le top) nonzero

theorem mod_zero (a b : Int512) : a.mod b = none ↔ b.val = 0 := by
  refine ⟨fun raised => ?_, LawfulDivider.mod_by_zero a b⟩
  by_contra nonzero
  obtain ⟨c, divided⟩ := LawfulDivider.divided a b nonzero
  obtain ⟨r, computed, _⟩ := divided.mod
  rw [raised] at computed
  cases computed

theorem mod_range (a b : Int512) (nonzero : b.val ≠ 0) :
    ∃ r, a.mod b = some r ∧ r.val.natAbs < b.val.natAbs ∧ (0 ≤ a.val → 0 ≤ r.val) := by
  obtain ⟨c, divided⟩ := LawfulDivider.divided a b nonzero
  obtain ⟨r, computed, value⟩ := divided.mod
  refine ⟨r, computed, ?_, fun nonneg => ?_⟩
  · rw [value, Int.natAbs_tmod]
    exact Nat.mod_lt _ (Int.natAbs_pos.mpr nonzero)
  · rw [value]
    exact Int.tmod_nonneg _ (inflated_nonneg a.val c nonneg)

theorem gcd_euclidean_ends (fuel : Nat) (a b : Int512) (enough : a.val.natAbs < fuel) (nonzero : b.val ≠ 0) :
    ∃ result, Int512.gcdEuclidean fuel a b = some result ∧ result.val ≠ 0 ∧ (a = 0 → result = b) ∧
      (a ≠ 0 → result.val.natAbs ≤ a.val.natAbs) := by
  induction fuel generalizing a b with
  | zero => omega
  | succ fuel ih =>
      rw [Int512.gcdEuclidean]
      by_cases aZero : a = 0
      · exact ⟨b, by rw [if_pos aZero], nonzero, fun _ => rfl, fun other => absurd aZero other⟩
      · have aNonzero : a.val ≠ 0 := fun zero => aZero (Int512.ext_val _ _ zero)
        obtain ⟨r, reduced, less, _⟩ := mod_range b a aNonzero
        rw [if_neg aZero, reduced, Option.bind_some]
        by_cases rZero : r = 0
        · exact ⟨a, by rw [if_pos rZero], aNonzero, fun zero => absurd zero aZero, fun _ => Nat.le_refl _⟩
        · have rNonzero : r.val ≠ 0 := fun zero => rZero (Int512.ext_val _ _ zero)
          obtain ⟨q, again, less', _⟩ := mod_range a r rNonzero
          obtain ⟨result, ended, found, whole, bound⟩ := ih q r (by omega) rNonzero
          refine ⟨result, ?_, found, fun zero => absurd zero aZero, fun _ => ?_⟩
          · rw [if_neg rZero, again, Option.bind_some]
            exact ended
          · by_cases qZero : q = 0
            · rw [whole qZero]
              omega
            · have le := bound qZero
              omega

theorem gcd_defined (d n : Int512) (nonzero : n.val ≠ 0) :
    ∃ p, d.gcd n = some p ∧ 0 < p.val ∧ (d = 0 → p.val = n.val.natAbs) ∧ (d ≠ 0 → p.val ≤ d.val.natAbs) := by
  obtain ⟨result, ended, found, whole, bound⟩ := gcd_euclidean_ends (d.val.natAbs + 1) d n (Nat.lt_succ_self _) nonzero
  refine ⟨_, by rw [Int512.gcd, ended, Option.map_some], ?_, ?_, ?_⟩
  · rw [absolute_value]
    omega
  · intro zero
    rw [absolute_value, whole zero]
  · intro other
    rw [absolute_value]
    exact_mod_cast bound other

end Lawful

theorem exact_iff (a b : Int512) (nonzero : b.val ≠ 0) : DividedAs a b 0 ↔ ¬ Spills a b := by
  refine ⟨fun exact spills => ?_, unspilled_exact a b nonzero⟩
  obtain ⟨c, more, divided⟩ := spilled_inflated a b spills
  exact absurd (exact_unique a b c nonzero exact divided) more.ne'

section Truncating

variable [Divider] (truncates : Truncating)

include truncates

theorem truncated_exact (a b : Int512) (nonzero : b.val ≠ 0) : DividedAs a b 0 := by
  refine exactly_divided a b ⟨⟨a.val.tmod b.val, Int512.tmod_fits a b⟩, ?_, rfl⟩ ⟨⟨a.val.tdiv b.val, Int512.tdiv_fits a b⟩, ?_, rfl⟩
  · rw [truncates.mod, Int512.truncatedRemainder, if_neg nonzero]
  · rw [truncates.div, Int512.truncatedQuotient, if_neg nonzero]

theorem truncating_lawful : LawfulDivider where
  mod_by_zero a b zero := by rw [truncates.mod, Int512.truncatedRemainder, if_pos zero]
  div_by_zero a b zero := by rw [truncates.div, Int512.truncatedQuotient, if_pos zero]
  divided a b nonzero := ⟨0, truncated_exact truncates a b nonzero⟩

theorem truncating_exact (n : Int512) : ExactUpTo n := fun v d _ nonzero => truncated_exact truncates v d nonzero

end Truncating

theorem truncating_truncates : @Truncating truncating :=
  @Truncating.mk truncating (fun _ _ => rfl) (fun _ _ => rfl)

end VsLab
