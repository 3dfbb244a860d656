import VsLab.RhoExact

set_option autoImplicit false

namespace VsLab.CppInt

theorem modulus_exact (a b : Int512) (fits : ¬ Spills a b) : a.mod b = @Int512.mod truncating a b := by
  change a.mod b = a.truncatedRemainder b
  by_cases zero : b.val = 0
  · rw [(mod_zero a b).mpr zero, Int512.truncatedRemainder, if_pos zero]
  · obtain ⟨r, reduced, value⟩ := remainder_exact a b (unspilled_exact a b zero fits)
    rw [reduced, Int512.truncatedRemainder, if_neg zero, Option.some.injEq]
    exact Int512.ext_val _ _ value

section Narrow

variable (n : Int512) (positive : 0 < n.val) (small : n.val * n.val + n.val < modulus)

include positive small

theorem short_exact (v : Int512) (low : 0 ≤ v.val) (high : v.val ≤ n.val) : v.mod n = @Int512.mod truncating v n := by
  refine modulus_exact v n (carry_free_unspilled n (narrow_free n positive small) v n ?_)
  omega

theorem gcd_truncates (d : Int512) (low : 0 ≤ d.val) (high : d.val ≤ n.val) : d.gcd n = @Int512.gcd truncating d n := by
  have lawful := @truncating_lawful truncating truncating_truncates
  have below : d.val.natAbs ≤ n.val.natAbs := by omega
  obtain ⟨p, computed, _⟩ := gcd_defined d n positive.ne'
  obtain ⟨q, promised, _⟩ := @gcd_defined truncating lawful d n positive.ne'
  have pValue := gcd_exact d n p (carry_free_exact n (narrow_free n positive small)) below computed
  have qValue := @gcd_exact truncating d n q (@truncating_exact truncating truncating_truncates n) below promised
  rw [computed, promised, Int512.ext_val p q (pValue.trans qValue.symm)]

section Loop

variable (a : Int512) (aLow : 0 ≤ a.val) (aHigh : a.val ≤ n.val)

include aLow aHigh

theorem square_exact (x : Int512) (xLow : 0 ≤ x.val) (xHigh : x.val ≤ n.val) :
    (x * x + a).mod n = @Int512.mod truncating (x * x + a) n :=
  modulus_exact _ n (square_fits_division n a positive small aLow aHigh x xLow xHigh)

theorem rho_step_exact (x y : Int512) (xLow : 0 ≤ x.val) (xHigh : x.val ≤ n.val) (yLow : 0 ≤ y.val)
    (yHigh : y.val ≤ n.val) : rhoStep n a x y = @rhoStep truncating n a x y := by
  obtain ⟨x1, hx, xVal⟩ := square_value n a positive small aLow aHigh x xLow xHigh
  obtain ⟨y1, hy, yVal⟩ := square_value n a positive small aLow aHigh y yLow yHigh
  have xRange := rho_map_range n.val a.val x.val positive
  have yRange := rho_map_range n.val a.val y.val positive
  obtain ⟨y2, hy2, y2Val⟩ := square_value n a positive small aLow aHigh y1 (by omega) (by omega)
  have y2Range := rho_map_range n.val a.val y1.val positive
  obtain ⟨d, hd, distance, dLow, dHigh⟩ := distance_value n positive x1 y2 (by omega) (by omega) (by omega) (by omega)
  obtain ⟨p, hp, _⟩ := gcd_defined d n positive.ne'
  have ex := square_exact n positive small a aLow aHigh x xLow xHigh
  have ey := square_exact n positive small a aLow aHigh y yLow yHigh
  have ey2 := square_exact n positive small a aLow aHigh y1 (by omega) (by omega)
  have below := distance_below n x1 y2 (by omega) (by omega) (by omega) (by omega)
  have reduced := modulus_exact _ n (short_fits _ n below)
  have common := gcd_truncates n positive small d dLow dHigh.le
  rw [rhoDistance] at hd
  rw [hx] at ex
  rw [hy] at ey
  rw [hy2] at ey2
  rw [hd] at reduced
  rw [hp] at common
  simp only [rhoStep, ← ex, ← ey, ← ey2, ← reduced, ← common, hx, hy, hy2, hd, hp, bind, Option.bind_some, pure]

theorem rho_loop_truncates (bases : Nat → Nat) (cycles limit : Int512) (left i : Nat) (x y : Int512) (xLow : 0 ≤ x.val)
    (xHigh : x.val ≤ n.val) (yLow : 0 ≤ y.val) (yHigh : y.val ≤ n.val) :
    rhoLoop bases n a cycles limit left i x y = @rhoLoop truncating bases n a cycles limit left i x y := by
  induction left generalizing i x y with
  | zero => rfl
  | succ left ih =>
      obtain ⟨next, stepped⟩ := rho_step_defined n a x y positive.ne'
      obtain ⟨_, _, xLow', xHigh', yLow', yHigh', _⟩ := rho_step_parts n a x y next positive aLow stepped
      have same := rho_step_exact n positive small a aLow aHigh x y xLow xHigh yLow yHigh
      rw [stepped] at same
      have later := ih (i + 1) next.x next.y xLow' xHigh'.le yLow' yHigh'.le
      simp only [rhoLoop, ← same, stepped, bind, Option.bind_some, later]

end Loop

end Narrow

-- Below 2^256 a slice on the vendored arithmetic is a slice on the exact one: for the
-- same random value where the long division reduces it exactly, for another one elsewhere.
theorem slice_arithmetic (bases : Nat → Nat) (random n a cycles : Int512) (nonneg : 0 ≤ random.val)
    (positive : 0 < n.val) (narrow : n.val < 2 ^ 256) (aLow : 1 ≤ a.val) (aHigh : a.val ≤ n.val) :
    ∃ drawn : Int512, 0 ≤ drawn.val ∧
      @slice vendored bases random n a cycles = @slice truncating bases drawn n a cycles ∧
      (¬ Spills random n → drawn = random) := by
  have small := square_fits n.val positive.le narrow
  obtain ⟨r, reduced, below, low⟩ := mod_range random n positive.ne'
  have low := low nonneg
  have fits := n.fits
  have next : (r + 1).val = r.val + 1 := Int512.val_add r 1 (by rw [Int512.val_one]; omega)
  have notZero : r + 1 ≠ 0 := by
    intro zero
    rw [zero, Int512.val_zero] at next
    omega
  have loop := rho_loop_truncates n positive small a (by omega) aHigh bases cycles (fourthRootLimit n) maxIterations 0
    (r + 1) (r + 1) (by omega) (by omega) (by omega) (by omega)
  have computed := slice_drawn bases random n a cycles (r + 1)
    (by simp only [drawUpTo, reduced, bind, Option.bind_some, pure]) notZero
  have promised (drawn : Int512) (remainder : @Int512.mod truncating drawn n = some r) :
      @slice truncating bases drawn n a cycles =
        @rhoLoop truncating bases n a cycles (fourthRootLimit n) maxIterations 0 (r + 1) (r + 1) :=
    @slice_drawn truncating bases drawn n a cycles (r + 1)
      (by simp only [drawUpTo, remainder, bind, Option.bind_some, pure]) notZero
  by_cases spills : Spills random n
  · refine ⟨r, low, ?_, fun fits => absurd spills fits⟩
    have again : r.mod n = some r := by
      obtain ⟨s, reduced, value⟩ := remainder_exact r n (short_divided r n below)
      rw [Int.tmod_eq_of_lt low (by omega)] at value
      rw [reduced, Int512.ext_val s r value]
    rw [computed, loop, promised r]
    rw [← short_exact n positive small r low (by omega), again]
  · refine ⟨random, nonneg, ?_, fun _ => rfl⟩
    rw [computed, loop, promised random]
    rw [← modulus_exact random n spills, reduced]

theorem slice_arithmetic_three_limbs :
    Spills (Int512.ofNat (modulus - 1)) (Int512.ofNat (2 ^ 128 + 2 ^ 65 - 1)) ∧
      ∃ drawn : Int512, 0 ≤ drawn.val ∧
        @slice vendored (fun _ => 0) (Int512.ofNat (modulus - 1)) (Int512.ofNat (2 ^ 128 + 2 ^ 65 - 1)) 1 0 =
          @slice truncating (fun _ => 0) drawn (Int512.ofNat (2 ^ 128 + 2 ^ 65 - 1)) 1 0 := by
  obtain ⟨drawn, low, same, _⟩ := slice_arithmetic (fun _ => 0) (Int512.ofNat (modulus - 1))
    (Int512.ofNat (2 ^ 128 + 2 ^ 65 - 1)) 1 0 (by decide +kernel) (by decide +kernel) (by decide +kernel)
    (by decide +kernel) (by decide +kernel)
  exact ⟨by decide +kernel, drawn, low, same⟩

end VsLab.CppInt
