import Mathlib.Algebra.Order.Ring.Nat
import Mathlib.Data.Nat.Log
import Mathlib.Tactic.Ring

set_option autoImplicit false

namespace Radix

variable (b : Nat)

def digit (v i : Nat) : Nat := v / b ^ i % b

def Leads (v k : Nat) : Prop := b ^ k ≤ v ∧ v < b ^ (k + 1)

theorem digit_lead (v k : Nat) (leads : Leads b v k) : digit b v k = v / b ^ k := by
  refine Nat.mod_eq_of_lt (Nat.div_lt_of_lt_mul ?_)
  rw [← pow_succ]
  exact leads.2

theorem digit_pair (v k : Nat) (leads : Leads b v (k + 1)) : digit b v (k + 1) * b + digit b v k = v / b ^ k := by
  rw [digit_lead b v (k + 1) leads, digit, pow_succ, ← Nat.div_div_eq_div_mul, Nat.mul_comm]
  exact Nat.div_add_mod (v / b ^ k) b

theorem lead_split (v k : Nat) : v / b ^ k / b = v / b ^ (k + 1) := by
  rw [pow_succ, Nat.div_div_eq_div_mul]

theorem lead_positive (v k : Nat) (base : 0 < b) (leads : Leads b v k) : 0 < v / b ^ k :=
  Nat.div_pos leads.1 (Nat.pow_pos base)

theorem lead_lt (v k : Nat) (leads : Leads b v k) : v / b ^ k < b := by
  refine Nat.div_lt_of_lt_mul ?_
  rw [← pow_succ]
  exact leads.2

theorem leads_mono (base : 1 < b) (v w k l : Nat) (first : Leads b v k) (second : Leads b w l) (le : v ≤ w) : k ≤ l := by
  have bound : b ^ k < b ^ (l + 1) := Nat.lt_of_le_of_lt first.1 (Nat.lt_of_le_of_lt le second.2)
  exact Nat.lt_succ_iff.mp ((Nat.pow_lt_pow_iff_right base).mp bound)

theorem trial_upper (r y q place low scale : Nat) (unit : place = low * scale) (scaled : 0 < scale)
    (positive : 0 < q) (guess : q * (y / low) ≤ r / place) (lowPositive : 0 < low) :
    q * y * scale < r + q * place := by
  have small : y < (y / low + 1) * low := by
    rw [Nat.mul_comm]
    exact Nat.lt_mul_div_succ y lowPositive
  have whole : r / place * place ≤ r := Nat.div_mul_le_self r place
  calc q * y * scale < q * ((y / low + 1) * low) * scale :=
        Nat.mul_lt_mul_of_pos_right (Nat.mul_lt_mul_of_pos_left small positive) scaled
    _ = q * (y / low) * place + q * place := by rw [unit]; ring
    _ ≤ r / place * place + q * place := Nat.add_le_add_right (Nat.mul_le_mul_right place guess) _
    _ ≤ r + q * place := Nat.add_le_add_right whole _

theorem trial_lower (r y q place low scale : Nat) (unit : place = low * scale) (placed : 0 < place)
    (guess : r / place < (q + 1) * (y / low)) : r < q * y * scale + y / low * place := by
  have whole : y / low * low ≤ y := Nat.div_mul_le_self y low
  calc r < (r / place + 1) * place := by
        rw [Nat.mul_comm]
        exact Nat.lt_mul_div_succ r placed
    _ ≤ (q + 1) * (y / low) * place := Nat.mul_le_mul_right place guess
    _ = q * (y / low * low) * scale + y / low * place := by rw [unit]; ring
    _ ≤ q * y * scale + y / low * place :=
        Nat.add_le_add_right (Nat.mul_le_mul_right scale (Nat.mul_le_mul_left q whole)) _

theorem trial_double (r y q place low scale : Nat) (unit : place = low * scale) (scaled : 0 < scale)
    (positive : 0 < q) (guess : q * (y / low) ≤ r / place) (lowPositive : 0 < low) (lead : 0 < y / low) :
    q * y * scale < 2 * r := by
  have upper := trial_upper r y q place low scale unit scaled positive guess lowPositive
  have units : q * place ≤ r :=
    calc q * place ≤ q * (y / low) * place := Nat.mul_le_mul_right place (Nat.le_mul_of_pos_right q lead)
      _ ≤ r / place * place := Nat.mul_le_mul_right place guess
      _ ≤ r := Nat.div_mul_le_self r place
  omega

end Radix
