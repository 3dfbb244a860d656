import VsLab.RhoPasses
import Mathlib.Tactic.Ring
import Mathlib.Tactic.Linarith
import Mathlib.Algebra.Order.Group.Unbundled.Abs
import Mathlib.Logic.Function.Iterate

set_option autoImplicit false

namespace VsLab

-- The map the loop is meant to iterate, on integers of any size.
def rhoMap (n a z : Int) : Int := (z * z + a) % n

def rhoDistance (n x y : Int512) : Option Int512 := (if y - x > 0 then y - x else -(y - x)).mod n

def intermediates (n a x y : Int512) : Option (List Int) := do
  let x1 ← (x * x + a).mod n
  let y1 ← (y * y + a).mod n
  let y2 ← (y1 * y1 + a).mod n
  return [x.val * x.val, (x * x).val + a.val, y.val * y.val, (y * y).val + a.val, y1.val * y1.val,
    (y1 * y1).val + a.val, y2.val - x1.val]

def rhoPasses (n a cycles limit : Int512) : Nat → Int512 → Int512 → List (Int512 × Int512)
  | 0, _, _ => []
  | left + 1, x, y =>
      (x, y) :: (rhoStep n a x y).elim [] fun next =>
        if next.p ≠ 1 ∨ cycles > limit then [] else rhoPasses n a cycles limit left next.x next.y

def slicePasses (random n a cycles : Int512) : List (Int512 × Int512) :=
  (drawUpTo random n).elim [] fun x =>
    let x := if x = 0 then x + 1 else x
    rhoPasses n a cycles (fourthRootLimit n) maxIterations x x

theorem rho_map_range (n a z : Int) (positive : 0 < n) : 0 ≤ rhoMap n a z ∧ rhoMap n a z < n :=
  ⟨Int.emod_nonneg _ positive.ne', Int.emod_lt_of_pos _ positive⟩

theorem half_square : (2 : Int) ^ 256 * 2 ^ 256 = modulus := by
  rw [modulus, Nat.cast_pow, ← pow_add]
  rfl

theorem square_fits (n : Int) (low : 0 ≤ n) (high : n < 2 ^ 256) : n * n + n < modulus := by
  rw [← half_square]
  generalize (2 : Int) ^ 256 = half at high
  have top : n + 1 ≤ half := by omega
  have product : n * (n + 1) ≤ n * half := mul_le_mul_of_nonneg_left top low
  have bound : n * half < half * half := mul_lt_mul_of_pos_right high (by omega)
  have split : n * (n + 1) = n * n + n := by ring
  omega

section Exact

variable (n a : Int512) (positive : 0 < n.val) (small : n.val * n.val + n.val < modulus)
  (aLow : 0 ≤ a.val) (aHigh : a.val ≤ n.val)

include positive small aLow aHigh

theorem square_sum (x : Int512) (xLow : 0 ≤ x.val) (xHigh : x.val ≤ n.val) :
    (x * x).val = x.val * x.val ∧ (x * x + a).val = x.val * x.val + a.val ∧
      (x.val * x.val).natAbs < modulus ∧ (x.val * x.val + a.val).natAbs < modulus := by
  have bound : x.val * x.val ≤ n.val * n.val := mul_le_mul xHigh xHigh xLow positive.le
  have low : 0 ≤ x.val * x.val := mul_nonneg xLow xLow
  have square : (x * x).val = x.val * x.val := Int512.val_wrap_small _ (by omega)
  refine ⟨square, ?_, by omega, by omega⟩
  rw [Int512.val_add, square]
  rw [square]
  omega

theorem square_fits_division (x : Int512) (xLow : 0 ≤ x.val) (xHigh : x.val ≤ n.val) : ¬ Spills (x * x + a) n := by
  obtain ⟨_, sum, _, _⟩ := square_sum n a positive small aLow aHigh x xLow xHigh
  have low : 0 ≤ x.val * x.val := mul_nonneg xLow xLow
  have magnitude : (n.val.natAbs * n.val.natAbs : Nat) = n.val * n.val := Int.natAbs_mul_self
  have bound : x.val * x.val ≤ n.val * n.val := mul_le_mul xHigh xHigh xLow positive.le
  refine CppInt.square_guess_fits _ _ ?_ ?_
  · omega
  · rw [sum]
    omega

theorem square_value (x : Int512) (xLow : 0 ≤ x.val) (xHigh : x.val ≤ n.val) :
    ∃ r, (x * x + a).mod n = some r ∧ r.val = rhoMap n.val a.val x.val := by
  obtain ⟨_, sum, _, _⟩ := square_sum n a positive small aLow aHigh x xLow xHigh
  have low : 0 ≤ x.val * x.val := mul_nonneg xLow xLow
  have fits := square_fits_division n a positive small aLow aHigh x xLow xHigh
  obtain ⟨r, defined, value⟩ := remainder_exact (x * x + a) n (unspilled_exact _ n (by omega) fits)
  refine ⟨r, defined, ?_⟩
  rw [value, sum, Int.tmod_eq_emod_of_nonneg (by omega), rhoMap]

omit aLow aHigh in
theorem narrow_free : n.val.natAbs < carryFree := by
  have narrow : n.val.natAbs < 2 ^ 256 := by
    by_contra large
    have square := Nat.mul_le_mul (Nat.le_of_not_lt large) (Nat.le_of_not_lt large)
    have whole : (2 : Nat) ^ 256 * 2 ^ 256 = modulus := by decide +kernel
    have magnitude : (n.val.natAbs * n.val.natAbs : Nat) = n.val * n.val := Int.natAbs_mul_self
    omega
  exact lt_of_lt_of_le narrow (by decide +kernel)

omit positive small aLow aHigh in
theorem distance_below (x y : Int512) (xLow : 0 ≤ x.val) (xHigh : x.val < n.val) (yLow : 0 ≤ y.val) (yHigh : y.val < n.val) :
    (if y - x > 0 then y - x else -(y - x)).val.natAbs < n.val.natAbs := by
  have fits := n.fits
  have difference : (y - x).val = y.val - x.val := Int512.val_wrap_small _ (by omega)
  split
  · omega
  · rw [Int512.val_neg]
    omega

omit small aLow aHigh in
theorem distance_value (x y : Int512) (xLow : 0 ≤ x.val) (xHigh : x.val < n.val) (yLow : 0 ≤ y.val) (yHigh : y.val < n.val) :
    ∃ d, rhoDistance n x y = some d ∧ d.val = |y.val - x.val| ∧ 0 ≤ d.val ∧ d.val < n.val := by
  have fits := n.fits
  have difference : (y - x).val = y.val - x.val := Int512.val_wrap_small _ (by omega)
  obtain ⟨d, defined, value⟩ :=
    remainder_exact _ n (short_divided _ n (distance_below n x y xLow xHigh yLow yHigh))
  have distance : d.val = |y.val - x.val| := by
    rw [value]
    by_cases above : y - x > 0
    · have order : 0 < (y - x).val := above
      rw [if_pos above, difference, abs_of_pos (difference ▸ order)]
      exact Int.tmod_eq_of_lt (by omega) (by omega)
    · have order : (y - x).val ≤ 0 := not_lt.mp above
      rw [if_neg above, Int512.val_neg, difference, abs_of_nonpos (difference ▸ order)]
      exact Int.tmod_eq_of_lt (by omega) (by omega)
  refine ⟨d, defined, distance, distance ▸ abs_nonneg _, ?_⟩
  rw [distance, abs_lt]
  omega

theorem rho_pass (x y : Int512) (xLow : 0 ≤ x.val) (xHigh : x.val ≤ n.val) (yLow : 0 ≤ y.val) (yHigh : y.val ≤ n.val) :
    ∃ next d, rhoStep n a x y = some next ∧ next.x.val = rhoMap n.val a.val x.val ∧
      next.y.val = rhoMap n.val a.val (rhoMap n.val a.val y.val) ∧
      rhoDistance n next.x next.y = some d ∧ d.val = |next.y.val - next.x.val| ∧ 0 ≤ d.val ∧ d.val < n.val ∧
      next.p.val = Int.gcd d.val n.val := by
  obtain ⟨x1, hx, xVal⟩ := square_value n a positive small aLow aHigh x xLow xHigh
  obtain ⟨y1, hy, yVal⟩ := square_value n a positive small aLow aHigh y yLow yHigh
  have xRange := rho_map_range n.val a.val x.val positive
  have yRange := rho_map_range n.val a.val y.val positive
  obtain ⟨y2, hy2, y2Val⟩ := square_value n a positive small aLow aHigh y1 (by omega) (by omega)
  have y2Range := rho_map_range n.val a.val y1.val positive
  obtain ⟨d, hd, distance, dLow, dHigh⟩ := distance_value n positive x1 y2 (by omega) (by omega) (by omega) (by omega)
  obtain ⟨p, hp, _⟩ := gcd_defined d n (by omega)
  have isGcd := gcd_exact d n p (carry_free_exact n (narrow_free n positive small)) (by omega) hp
  refine ⟨⟨x1, y2, p⟩, d, ?_, xVal, yVal ▸ y2Val, hd, distance, dLow, dHigh, isGcd⟩
  rw [rhoDistance] at hd
  simp only [rhoStep, hx, hy, hy2, hd, hp, bind, Option.bind_some, pure]

theorem intermediates_fit (x y : Int512) (xLow : 0 ≤ x.val) (xHigh : x.val ≤ n.val) (yLow : 0 ≤ y.val)
    (yHigh : y.val ≤ n.val) (values : List Int) (computed : intermediates n a x y = some values) :
    ∀ v ∈ values, v.natAbs < modulus := by
  obtain ⟨x1, hx, xVal⟩ := square_value n a positive small aLow aHigh x xLow xHigh
  obtain ⟨y1, hy, yVal⟩ := square_value n a positive small aLow aHigh y yLow yHigh
  have xRange := rho_map_range n.val a.val x.val positive
  have yRange := rho_map_range n.val a.val y.val positive
  obtain ⟨y2, hy2, y2Val⟩ := square_value n a positive small aLow aHigh y1 (by omega) (by omega)
  have y2Range := rho_map_range n.val a.val y1.val positive
  obtain ⟨square, _, xx, xxa⟩ := square_sum n a positive small aLow aHigh x xLow xHigh
  obtain ⟨square', _, yy, yya⟩ := square_sum n a positive small aLow aHigh y yLow yHigh
  obtain ⟨square'', _, zz, zza⟩ := square_sum n a positive small aLow aHigh y1 (by omega) (by omega)
  have fits := n.fits
  simp only [intermediates, hx, hy, hy2, bind, Option.bind_some, pure, Option.some.injEq] at computed
  subst computed
  rw [square, square', square'']
  simp only [List.mem_cons, List.not_mem_nil, or_false, forall_eq_or_imp, forall_eq]
  exact ⟨xx, xxa, yy, yya, zz, zza, by omega⟩

theorem head_exact (k : Nat) (x y : Int512) (xLow : 0 ≤ x.val) (xHigh : x.val ≤ n.val) (yLow : 0 ≤ y.val)
    (yHigh : y.val ≤ n.val) :
    ∃ head, passHead n a k x y = some head ∧ head.1.val = (rhoMap n.val a.val)^[k] x.val ∧
      head.2.val = (rhoMap n.val a.val)^[2 * k] y.val ∧
      0 ≤ head.1.val ∧ head.1.val ≤ n.val ∧ 0 ≤ head.2.val ∧ head.2.val ≤ n.val := by
  induction k generalizing x y with
  | zero => exact ⟨(x, y), rfl, rfl, rfl, xLow, xHigh, yLow, yHigh⟩
  | succ k ih =>
      obtain ⟨next, d, stepped, xVal, yVal, _⟩ := rho_pass n a positive small aLow aHigh x y xLow xHigh yLow yHigh
      have xRange := rho_map_range n.val a.val x.val positive
      have yRange := rho_map_range n.val a.val (rhoMap n.val a.val y.val) positive
      obtain ⟨head, reached, later⟩ := ih next.x next.y (by omega) (by omega) (by omega) (by omega)
      rw [xVal, yVal] at later
      refine ⟨head, ?_, later⟩
      rw [passHead, stepped, Option.bind_some]
      exact reached

theorem pass_exact (k : Nat) (x y : Int512) (xLow : 0 ≤ x.val) (xHigh : x.val ≤ n.val) (yLow : 0 ≤ y.val)
    (yHigh : y.val ≤ n.val) :
    ∃ next d, passAt n a k x y = some next ∧ next.x.val = (rhoMap n.val a.val)^[k + 1] x.val ∧
      next.y.val = (rhoMap n.val a.val)^[2 * (k + 1)] y.val ∧ rhoDistance n next.x next.y = some d ∧
      d.val = |next.y.val - next.x.val| ∧ 0 ≤ d.val ∧ d.val < n.val ∧
      next.p.val = Int.gcd |(rhoMap n.val a.val)^[2 * (k + 1)] y.val - (rhoMap n.val a.val)^[k + 1] x.val| n.val := by
  obtain ⟨head, reached, tortoise, hare, low, high, low', high'⟩ :=
    head_exact n a positive small aLow aHigh k x y xLow xHigh yLow yHigh
  obtain ⟨next, d, stepped, xVal, yVal, defined, distance, dLow, dHigh, isGcd⟩ :=
    rho_pass n a positive small aLow aHigh head.1 head.2 low high low' high'
  rw [tortoise, ← Function.iterate_succ_apply' (rhoMap n.val a.val)] at xVal
  rw [hare, ← Function.iterate_succ_apply' (rhoMap n.val a.val), ← Function.iterate_succ_apply' (rhoMap n.val a.val)] at yVal
  refine ⟨next, d, ?_, xVal, yVal, defined, distance, dLow, dHigh, ?_⟩
  · rw [passAt, reached, Option.bind_some]
    exact stepped
  · rw [isGcd, distance, xVal, yVal]
    rfl

end Exact

theorem square_range (n a x r : Int512) (positive : 0 < n.val) (aLow : 0 ≤ a.val) (reduced : (x * x + a).mod n = some r) :
    0 ≤ r.val ∧ r.val < n.val := by
  have square : 0 ≤ (x * x).val := Int512.val_wrap_nonneg _ (mul_self_nonneg x.val)
  have sum : 0 ≤ (x * x + a).val := Int512.val_wrap_nonneg _ (by omega)
  obtain ⟨other, defined, below, low⟩ := mod_range (x * x + a) n positive.ne'
  cases reduced.symm.trans defined
  have := low sum
  omega

theorem rho_step_parts (n a x y : Int512) (next : RhoStep) (positive : 0 < n.val) (aLow : 0 ≤ a.val)
    (stepped : rhoStep n a x y = some next) :
    (x * x + a).mod n = some next.x ∧ (∃ y1, (y * y + a).mod n = some y1 ∧ (y1 * y1 + a).mod n = some next.y) ∧
      0 ≤ next.x.val ∧ next.x.val < n.val ∧ 0 ≤ next.y.val ∧ next.y.val < n.val ∧
      ∃ d : Int512, d.gcd n = some next.p ∧ d.val = |next.y.val - next.x.val| := by
  simp only [rhoStep, bind, Option.bind_eq_some_iff, pure, Option.some.injEq] at stepped
  obtain ⟨x1, hx, y1, hy, y2, hy2, d, hd, p, hp, rfl⟩ := stepped
  obtain ⟨xLow, xHigh⟩ := square_range n a x x1 positive aLow hx
  obtain ⟨yLow, yHigh⟩ := square_range n a y1 y2 positive aLow hy2
  obtain ⟨other, defined, distance, _⟩ := distance_value n positive x1 y2 xLow xHigh yLow yHigh
  cases hd.symm.trans defined
  exact ⟨hx, ⟨y1, hy, hy2⟩, xLow, xHigh, yLow, yHigh, d, hp, distance⟩

theorem meets_iff (n a x y : Int512) (next : RhoStep) (positive : 0 < n.val) (aLow : 0 ≤ a.val)
    (stepped : rhoStep n a x y = some next) : next.p = n ↔ next.x = next.y := by
  obtain ⟨_, _, xLow, xHigh, yLow, yHigh, d, isGcd, distance⟩ := rho_step_parts n a x y next positive aLow stepped
  obtain ⟨p, defined, _, whole, bound⟩ := gcd_defined d n positive.ne'
  cases isGcd.symm.trans defined
  have low : 0 ≤ d.val := distance ▸ abs_nonneg _
  have small : d.val < n.val := by
    rw [distance, abs_lt]
    omega
  rw [Int512.eq_def, Int512.eq_def]
  constructor
  · intro same
    by_contra apart
    have nonzero : d ≠ 0 := fun zero => by
      rw [zero, Int512.val_zero, eq_comm, abs_eq_zero] at distance
      omega
    have le := bound nonzero
    omega
  · intro same
    have zero : d = 0 := Int512.ext_val d 0 (by rw [distance, same, sub_self, abs_zero, Int512.val_zero])
    rw [whole zero]
    omega

theorem passes_head (n a cycles limit : Int512) (left k : Nat) (x y : Int512) (pass : Int512 × Int512)
    (found : (rhoPasses n a cycles limit left x y)[k]? = some pass) : passHead n a k x y = some pass := by
  induction left generalizing x y k with
  | zero => cases found
  | succ left ih =>
      cases k with
      | zero => exact found
      | succ k =>
          rw [rhoPasses, List.getElem?_cons_succ] at found
          cases stepped : rhoStep n a x y with
          | none =>
              rw [stepped] at found
              cases found
          | some next =>
              rw [stepped, Option.elim_some] at found
              rw [passHead, stepped, Option.bind_some]
              split at found
              · cases found
              · exact ih k next.x next.y found

theorem slice_passes_drawn (random n a cycles x : Int512) (low : 0 ≤ random.val) (positive : 0 < n.val)
    (drawn : drawUpTo random n = some x) :
    slicePasses random n a cycles = rhoPasses n a cycles (fourthRootLimit n) maxIterations x x := by
  rw [slicePasses, drawn, Option.elim_some, if_neg (drawn_start random n x low positive drawn).2.2]

theorem intermediates_defined (n a x y : Int512) (nonzero : n.val ≠ 0) :
    ∃ rest, intermediates n a x y = some (x.val * x.val :: rest) := by
  obtain ⟨x1, hx, _⟩ := mod_range (x * x + a) n nonzero
  obtain ⟨y1, hy, _⟩ := mod_range (y * y + a) n nonzero
  obtain ⟨y2, hy2, _⟩ := mod_range (y1 * y1 + a) n nonzero
  have computed : intermediates n a x y = some [x.val * x.val, (x * x).val + a.val, y.val * y.val, (y * y).val + a.val,
      y1.val * y1.val, (y1 * y1).val + a.val, y2.val - x1.val] := by
    simp only [intermediates, hx, hy, hy2, bind, Option.bind_some, pure]
  exact ⟨_, computed⟩

theorem large_cut (n : Int512) (positive : 0 < n.val) (large : 2 ^ 256 ≤ n.val) :
    ∃ randomA randomX a x values, 0 ≤ randomA.val ∧ 0 ≤ randomX.val ∧ drawUpTo randomA n = some a ∧
      drawUpTo randomX n = some x ∧ (x, x) ∈ slicePasses randomX n a 0 ∧ intermediates n a x x = some values ∧
      ∃ v ∈ values, modulus ≤ v.natAbs := by
  obtain ⟨a, aDrawn, _⟩ := draw_up_to_range 0 n le_rfl (by omega)
  obtain ⟨randomX, xRandom, xDrawn⟩ := any_start n n (by omega) le_rfl
  have same := slice_passes_drawn randomX n a 0 n xRandom positive xDrawn
  obtain ⟨rest, computed⟩ := intermediates_defined n a n n (by omega)
  refine ⟨0, randomX, a, n, _, le_rfl, xRandom, aDrawn, xDrawn, ?_, computed, n.val * n.val, List.mem_cons_self, ?_⟩
  · rw [same, maxIterations, rhoPasses]
    exact List.mem_cons_self
  · have square : (2 : Int) ^ 256 * 2 ^ 256 ≤ n.val * n.val := mul_le_mul large large (by positivity) (by omega)
    rw [half_square] at square
    omega

section Drawn

variable (n randomA randomX a x cycles : Int512) (positive : 0 < n.val) (half : n.val < 2 ^ 256)
  (aRandom : 0 ≤ randomA.val) (xRandom : 0 ≤ randomX.val) (aDrawn : drawUpTo randomA n = some a)
  (xDrawn : drawUpTo randomX n = some x)

include positive half aRandom xRandom aDrawn xDrawn

theorem slice_fits (pass : Int512 × Int512) (values : List Int) (made : pass ∈ slicePasses randomX n a cycles)
    (computed : intermediates n a pass.1 pass.2 = some values) : ∀ v ∈ values, v.natAbs < modulus := by
  have small := square_fits n.val positive.le half
  obtain ⟨aLow, aHigh, _⟩ := drawn_start randomA n a aRandom positive aDrawn
  obtain ⟨xLow, xHigh, _⟩ := drawn_start randomX n x xRandom positive xDrawn
  rw [slice_passes_drawn randomX n a cycles x xRandom positive xDrawn] at made
  obtain ⟨i, found⟩ := List.mem_iff_getElem?.mp made
  obtain ⟨head, reached, _, _, low, high, low', high'⟩ :=
    head_exact n a positive small (by omega) aHigh i x x (by omega) xHigh (by omega) xHigh
  cases reached.symm.trans (passes_head n a cycles _ maxIterations i x x pass found)
  exact intermediates_fit n a positive small (by omega) aHigh pass.1 pass.2 low high low' high' values computed

theorem slice_exact (i : Nat) (pass : Int512 × Int512) (found : (slicePasses randomX n a cycles)[i]? = some pass) :
    pass.1.val = (rhoMap n.val a.val)^[i] x.val ∧ pass.2.val = (rhoMap n.val a.val)^[2 * i] x.val ∧
      ∃ next d, rhoStep n a pass.1 pass.2 = some next ∧
        next.x.val = (rhoMap n.val a.val)^[i + 1] x.val ∧ next.y.val = (rhoMap n.val a.val)^[2 * (i + 1)] x.val ∧
        rhoDistance n next.x next.y = some d ∧ d.val = |next.y.val - next.x.val| ∧ 0 ≤ d.val ∧ d.val < n.val ∧
        next.p.val =
          Int.gcd |(rhoMap n.val a.val)^[2 * (i + 1)] x.val - (rhoMap n.val a.val)^[i + 1] x.val| n.val := by
  have small := square_fits n.val positive.le half
  obtain ⟨aLow, aHigh, _⟩ := drawn_start randomA n a aRandom positive aDrawn
  obtain ⟨xLow, xHigh, _⟩ := drawn_start randomX n x xRandom positive xDrawn
  rw [slice_passes_drawn randomX n a cycles x xRandom positive xDrawn] at found
  have made := passes_head n a cycles _ maxIterations i x x pass found
  obtain ⟨head, reached, tortoise, hare, _⟩ :=
    head_exact n a positive small (by omega) aHigh i x x (by omega) xHigh (by omega) xHigh
  cases reached.symm.trans made
  obtain ⟨next, d, stepped, rest⟩ :=
    pass_exact n a positive small (by omega) aHigh i x x (by omega) xHigh (by omega) xHigh
  rw [passAt, made, Option.bind_some] at stepped
  exact ⟨tortoise, hare, next, d, stepped, rest⟩

end Drawn

theorem rho_loop_exact (n : Int512) (positive : 1 ≤ n.val) :
    ((∀ randomA randomX a x cycles pass values, 0 ≤ randomA.val → 0 ≤ randomX.val → drawUpTo randomA n = some a →
        drawUpTo randomX n = some x → pass ∈ slicePasses randomX n a cycles →
        intermediates n a pass.1 pass.2 = some values → ∀ v ∈ values, v.natAbs < modulus) ↔ n.val < 2 ^ 256) ∧
    (n.val < 2 ^ 256 → ∀ randomA randomX a x cycles i pass, 0 ≤ randomA.val → 0 ≤ randomX.val →
      drawUpTo randomA n = some a → drawUpTo randomX n = some x → (slicePasses randomX n a cycles)[i]? = some pass →
      pass.1.val = (rhoMap n.val a.val)^[i] x.val ∧ pass.2.val = (rhoMap n.val a.val)^[2 * i] x.val ∧
      ∃ next d, rhoStep n a pass.1 pass.2 = some next ∧
        next.x.val = (rhoMap n.val a.val)^[i + 1] x.val ∧ next.y.val = (rhoMap n.val a.val)^[2 * (i + 1)] x.val ∧
        rhoDistance n next.x next.y = some d ∧ d.val = |next.y.val - next.x.val| ∧ 0 ≤ d.val ∧ d.val < n.val ∧
        next.p.val =
          Int.gcd |(rhoMap n.val a.val)^[2 * (i + 1)] x.val - (rhoMap n.val a.val)^[i + 1] x.val| n.val) := by
  refine ⟨⟨?_, ?_⟩, ?_⟩
  · intro fit
    by_contra large
    obtain ⟨randomA, randomX, a, x, values, aRandom, xRandom, aDrawn, xDrawn, made, computed, v, member, cut⟩ :=
      large_cut n (by omega) (not_lt.mp large)
    have := fit randomA randomX a x 0 (x, x) values aRandom xRandom aDrawn xDrawn made computed v member
    omega
  · intro half randomA randomX a x cycles pass values aRandom xRandom aDrawn xDrawn made computed
    exact slice_fits n randomA randomX a x cycles (by omega) half aRandom xRandom aDrawn xDrawn pass values made computed
  · intro half randomA randomX a x cycles i pass aRandom xRandom aDrawn xDrawn found
    exact slice_exact n randomA randomX a x cycles (by omega) half aRandom xRandom aDrawn xDrawn i pass found

theorem rho_loop_exact_fifteen :
    1 ≤ (Int512.ofNat 15).val ∧ (Int512.ofNat 15).val < 2 ^ 256 ∧ drawUpTo 0 (Int512.ofNat 15) = some 1 ∧
      (slicePasses 0 (Int512.ofNat 15) 1 0)[0]? = some (1, 1) ∧ ∃ next, rhoStep (Int512.ofNat 15) 1 1 1 = some next ∧
        next.p.val = Int.gcd |(rhoMap (Int512.ofNat 15).val (1 : Int512).val)^[2 * (0 + 1)] (1 : Int512).val -
          (rhoMap (Int512.ofNat 15).val (1 : Int512).val)^[0 + 1] (1 : Int512).val| (Int512.ofNat 15).val := by
  have positive : 1 ≤ (Int512.ofNat 15).val := by decide +kernel
  have half : (Int512.ofNat 15).val < 2 ^ 256 := by decide +kernel
  have drawn : drawUpTo 0 (Int512.ofNat 15) = some 1 := by decide +kernel
  have first : (slicePasses 0 (Int512.ofNat 15) 1 0)[0]? = some (1, 1) := by decide +kernel
  obtain ⟨_, _, next, _, stepped, _, _, _, _, _, _, isGcd⟩ :=
    (rho_loop_exact (Int512.ofNat 15) positive).2 half 0 0 1 1 0 0 (1, 1) le_rfl le_rfl drawn drawn first
  exact ⟨positive, half, drawn, first, next, stepped, isGcd⟩

end VsLab
