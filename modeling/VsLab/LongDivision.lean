import VsLab.NumberText
import VsLab.Radix
import Mathlib.Data.Nat.Prime.Basic

set_option autoImplicit false

namespace VsLab.CppInt

open Radix

def limbRadix : Nat := 2 ^ limbBits
def internalLimbCount : Nat := 8

def limb (v i : Nat) : Nat := digit limbRadix v i

def order (v : Nat) : Nat := limbCount v - 1

def doubleLimb (v i : Nat) : Nat := limb v i * limbRadix + limb v (i - 1)

structure Guess where
  guess : Nat
  rOrder : Nat
deriving DecidableEq

def bestGuess (r y : Nat) : Guess :=
  if limb r (order r) ≤ limb y (order y) ∧ 0 < order r then
    if limbRadix - 1 < doubleLimb r (order r) / limb y (order y) then ⟨1, order r⟩
    else ⟨doubleLimb r (order r) / limb y (order y), order r - 1⟩
  else if order r = 0 then ⟨limb r 0 / limb y (order y), 0⟩
  else ⟨doubleLimb r (order r) / doubleLimb y (order y) % limbRadix, order r⟩

-- guess * y, moved up by shift limbs. t has room for one limb more than y and the
-- shift, unless the type has not: then the last carry is dropped.
def fusedProduct (guess y shift : Nat) : Nat :=
  if internalLimbCount < limbCount y + shift + 1 then
    guess * y * limbRadix ^ shift % limbRadix ^ (limbCount y + shift)
  else guess * y * limbRadix ^ shift

structure Division where
  result : Int
  r : Nat
  rNeg : Bool
deriving DecidableEq

def guessShift (r y : Nat) : Nat := (bestGuess r y).rOrder - order y

def updateResult (rNeg : Bool) (result amount : Int) : Int := if rNeg then result - amount else result + amount

def divisionPass (y : Nat) (s : Division) : Division :=
  let guess := (bestGuess s.r y).guess
  let shift := guessShift s.r y
  let t := fusedProduct guess y shift
  let result := updateResult s.rNeg s.result (guess * limbRadix ^ shift)
  if t < s.r then ⟨result, s.r - t, s.rNeg⟩ else ⟨result, t - s.r, !s.rNeg⟩

def divisionLoop (y : Nat) : Nat → Division → Option Division
  | 0, _ => none
  | fuel + 1, s =>
      let next := divisionPass y s
      if order next.r < order y then some next
      else if order y < order next.r ∨ y ≤ next.r then divisionLoop y fuel next
      else some next

def normaliseResult (y : Nat) (s : Division) : Int × Nat :=
  if s.rNeg ∧ s.r ≠ 0 then (s.result - 1, y - s.r) else (s.result, s.r)

-- The remainder of the loop for a divisor of one limb: top is pr[r_order], rest the
-- limbs below it, the highest first. result holds pres, each limb at its place.
structure LimbDivision where
  top : Nat
  rest : List Nat
  result : Nat
deriving DecidableEq

def skipExact (s : LimbDivision) : LimbDivision :=
  match s.rest with
  | next :: below => if s.top = 0 then ⟨next, below, s.result⟩ else s
  | [] => s

def limbPass (y : Nat) (s : LimbDivision) : LimbDivision :=
  match s.rest with
  | next :: below =>
      if s.top < y then
        let a := s.top * limbRadix + next
        skipExact ⟨a % y, below, s.result + a / y * limbRadix ^ below.length⟩
      else skipExact ⟨s.top % y, s.rest, s.result + s.top / y * limbRadix ^ s.rest.length⟩
  | [] => ⟨s.top % y, [], s.result + s.top / y⟩

def limbLoop (y : Nat) : Nat → LimbDivision → Option LimbDivision
  | 0, _ => none
  | fuel + 1, s =>
      let next := limbPass y s
      if next.rest ≠ [] ∨ y ≤ next.top then limbLoop y fuel next else some next

def limbsBelow (x : Nat) : Nat → List Nat
  | 0 => []
  | k + 1 => limb x k :: limbsBelow x k

def divideByLimb (x y : Nat) : Option (Int × Nat) :=
  if y = 0 then none
  else if order x = 0 ∧ x < y then some (0, x)
  else if order x = 0 then some (limb x 0 / y, limb x 0 % y)
  else if order x = 1 then some (doubleLimb x 1 / y, doubleLimb x 1 % y)
  else (limbLoop y (2 * limbCount x) ⟨limb x (order x), limbsBelow x (order x), 0⟩).map fun s => (s.result, s.top)

def divideUnsignedHelper (x y : Nat) : Option (Int × Nat) :=
  if order y = 0 then divideByLimb x (limb y 0)
  else if x = 0 then some (0, 0)
  else if order x ≤ order y ∧ (order x < order y ∨ x < y) then some (0, x)
  else if order x = 0 then some (limb x 0 / limb y 0, limb x 0 % limb y 0)
  else if order x = 1 then some (doubleLimb x 1 / doubleLimb y 1, doubleLimb x 1 % doubleLimb y 1)
  else (divisionLoop y (x + 1) ⟨0, x, false⟩).map (normaliseResult y)

def evalDivide (a b : Int512) : Option Int512 :=
  (divideUnsignedHelper a.val.natAbs b.val.natAbs).map fun (result, _) =>
    Int512.wrap (if (a.val < 0) ≠ (b.val < 0) then -result else result)

def evalModulus (a b : Int512) : Option Int512 :=
  (divideUnsignedHelper a.val.natAbs b.val.natAbs).map fun (_, r) =>
    Int512.wrap (if a.val < 0 then -r else r)

theorem limb_radix_gt : 1 < limbRadix := by decide

theorem limb_radix_pos : 0 < limbRadix := by decide

theorem limb_radix_pow (k : Nat) : limbRadix ^ k = 2 ^ (limbBits * k) := (pow_mul 2 limbBits k).symm

theorem modulus_limbs : modulus = limbRadix ^ internalLimbCount := by
  rw [limb_radix_pow]
  exact congrArg (2 ^ ·) (by decide : 512 = limbBits * internalLimbCount)

theorem order_leads (v : Nat) (positive : 0 < v) : Leads limbRadix v (order v) := by
  have bits : order v = v.log2 / limbBits := rfl
  have below := Nat.mul_div_le v.log2 limbBits
  have above := Nat.lt_mul_div_succ v.log2 (b := limbBits) (by decide)
  constructor
  · rw [limb_radix_pow, bits]
    exact (Nat.pow_le_pow_right (by decide) below).trans (Nat.log2_self_le positive.ne')
  · rw [limb_radix_pow, bits]
    exact lt_of_lt_of_le Nat.lt_log2_self (Nat.pow_le_pow_right (by decide) above)

theorem limb_lead (v : Nat) (positive : 0 < v) : limb v (order v) = v / limbRadix ^ order v :=
  digit_lead limbRadix v (order v) (order_leads v positive)

theorem limb_count_order (v : Nat) : limbCount v = order v + 1 := rfl

theorem order_below (v k : Nat) (positive : 0 < v) (small : v < limbRadix ^ (k + 1)) : order v ≤ k := by
  have bound : limbRadix ^ order v < limbRadix ^ (k + 1) := Nat.lt_of_le_of_lt (order_leads v positive).1 small
  exact Nat.lt_succ_iff.mp ((Nat.pow_lt_pow_iff_right limb_radix_gt).mp bound)

theorem order_fits (v : Nat) (positive : 0 < v) (small : v < modulus) : order v ≤ 7 := by
  rw [modulus_limbs] at small
  exact order_below v 7 positive small

theorem order_mono (v w : Nat) (positive : 0 < v) (le : v ≤ w) : order v ≤ order w :=
  leads_mono limbRadix limb_radix_gt v w _ _ (order_leads v positive) (order_leads w (by omega)) le

section Pass

variable (r y : Nat) (long : 0 < order y) (le : y ≤ r)

def guessed (r y : Nat) : Nat := (bestGuess r y).guess * y * limbRadix ^ guessShift r y

structure Estimate (place low : Nat) : Prop where
  unit : place = low * limbRadix ^ guessShift r y
  power : ∃ k, low = limbRadix ^ k
  lead : 0 < y / low
  positive : 0 < (bestGuess r y).guess
  fits : (bestGuess r y).guess < limbRadix
  notOver : (bestGuess r y).guess * (y / low) ≤ r / place
  notUnder : r / place < ((bestGuess r y).guess + 1) * (y / low)
  units : (bestGuess r y).guess * place ≤ limbRadix ^ order r
  rest : y / low * place ≤ (y / limbRadix ^ order y + 1) * limbRadix ^ order r
  orders : order y + guessShift r y ≤ order r
  calm : limb r (order r) ≤ limb y (order y) → (bestGuess r y).guess = 1 ∨ order y + guessShift r y < order r
  pair : limb y (order y) < limb r (order r) → limbRadix * low = limbRadix ^ order y

include long in
theorem positive_of_long : 0 < y := by
  by_contra zero
  have same : y = 0 := by omega
  rw [same] at long
  exact absurd long (by decide)

include long le

theorem orders_le : order y ≤ order r := order_mono y r (positive_of_long y long) le

theorem leading_pair (k : Nat) (isOrder : order r = k + 1) : doubleLimb r (order r) = r / limbRadix ^ k := by
  have leads := order_leads r (Nat.lt_of_lt_of_le (positive_of_long y long) le)
  rw [isOrder] at leads
  rw [doubleLimb, isOrder]
  exact digit_pair limbRadix r k leads

theorem estimate_equal (same : r / limbRadix ^ order r = y / limbRadix ^ order y) (guess : bestGuess r y = ⟨1, order r⟩) :
    Estimate r y (limbRadix ^ order r) (limbRadix ^ order y) := by
  have orders := orders_le r y long le
  have lead := lead_positive limbRadix y (order y) limb_radix_pos (order_leads y (positive_of_long y long))
  have shift : guessShift r y = order r - order y := by rw [guessShift, guess]
  refine ⟨?_, ⟨_, rfl⟩, lead, ?_, ?_, ?_, ?_, ?_, ?_, ?_, ?_, ?_⟩
  · rw [shift, ← pow_add, Nat.add_sub_cancel' orders]
  · rw [guess]
    exact Nat.one_pos
  · rw [guess]
    exact limb_radix_gt
  · rw [guess, same, Nat.one_mul]
  · rw [guess, same]
    show y / limbRadix ^ order y < (1 + 1) * (y / limbRadix ^ order y)
    omega
  · rw [guess, Nat.one_mul]
  · exact Nat.mul_le_mul_right _ (Nat.le_succ _)
  · rw [shift]
    omega
  · rw [guess]
    exact fun _ => .inl rfl
  · intro larger
    rw [limb_lead r (Nat.lt_of_lt_of_le (positive_of_long y long) le), limb_lead y (positive_of_long y long), same] at larger
    exact absurd larger (Nat.lt_irrefl _)

theorem estimate_lower (k : Nat) (isOrder : order r = k + 1) (below : order y ≤ k)
    (notLarger : limb r (order r) ≤ limb y (order y))
    (guess : bestGuess r y = ⟨r / limbRadix ^ k / (y / limbRadix ^ order y), k⟩)
    (fits : r / limbRadix ^ k / (y / limbRadix ^ order y) < limbRadix) :
    Estimate r y (limbRadix ^ k) (limbRadix ^ order y) := by
  have yLeads := order_leads y (positive_of_long y long)
  have rLeads := order_leads r (Nat.lt_of_lt_of_le (positive_of_long y long) le)
  have lead := lead_positive limbRadix y (order y) limb_radix_pos yLeads
  have small := lead_lt limbRadix y (order y) yLeads
  have shift : guessShift r y = k - order y := by rw [guessShift, guess]
  have large : limbRadix ≤ r / limbRadix ^ k := by
    rw [Nat.le_div_iff_mul_le (Nat.pow_pos limb_radix_pos), Nat.mul_comm, ← pow_succ, ← isOrder]
    exact rLeads.1
  refine ⟨?_, ⟨_, rfl⟩, lead, ?_, ?_, ?_, ?_, ?_, ?_, ?_, ?_, ?_⟩
  · rw [shift, ← pow_add, Nat.add_sub_cancel' below]
  · rw [guess]
    exact Nat.div_pos (by omega) lead
  · rwa [guess]
  · rw [guess]
    exact Nat.div_mul_le_self _ _
  · rw [guess, Nat.mul_comm]
    exact Nat.lt_mul_div_succ _ lead
  · rw [guess, isOrder, pow_succ, Nat.mul_comm]
    exact Nat.mul_le_mul_left _ fits.le
  · rw [isOrder]
    exact Nat.mul_le_mul (Nat.le_succ _) (Nat.pow_le_pow_right limb_radix_pos (Nat.le_succ k))
  · rw [shift, isOrder]
    omega
  · rw [shift, isOrder]
    exact fun _ => .inr (by omega)
  · exact fun larger => absurd larger (Nat.not_lt_of_le notLarger)

theorem estimate_pair (k j : Nat) (isOrder : order r = k + 1) (isLong : order y = j + 1)
    (larger : y / limbRadix ^ order y < r / limbRadix ^ order r)
    (guess : bestGuess r y = ⟨r / limbRadix ^ k / (y / limbRadix ^ j) % limbRadix, k + 1⟩) :
    Estimate r y (limbRadix ^ k) (limbRadix ^ j) := by
  have rPositive := Nat.lt_of_lt_of_le (positive_of_long y long) le
  have yLeads := order_leads y (positive_of_long y long)
  have rLeads := order_leads r rPositive
  have orders := orders_le r y long le
  have rTop := lead_lt limbRadix r (order r) rLeads
  have yTop := lead_positive limbRadix y (order y) limb_radix_pos yLeads
  have shift : guessShift r y = k - j := by
    rw [guessShift, guess, isLong]
    exact Nat.add_sub_add_right k 1 j
  rw [isLong] at larger yTop
  rw [isOrder] at larger rTop
  rw [← lead_split] at larger yTop rTop
  rw [← lead_split] at larger
  have rHigh := Nat.lt_mul_div_succ (r / limbRadix ^ k) limb_radix_pos
  have rLow := Nat.mul_div_le (r / limbRadix ^ k) limbRadix
  have yHigh := Nat.lt_mul_div_succ (y / limbRadix ^ j) limb_radix_pos
  have yLow := Nat.mul_div_le (y / limbRadix ^ j) limbRadix
  have two : limbRadix ≤ y / limbRadix ^ j := (Nat.le_mul_of_pos_right _ yTop).trans yLow
  have enough : y / limbRadix ^ j < r / limbRadix ^ k :=
    lt_of_lt_of_le yHigh ((Nat.mul_le_mul_left _ larger).trans rLow)
  have fits : r / limbRadix ^ k / (y / limbRadix ^ j) < limbRadix := by
    refine Nat.div_lt_of_lt_mul (lt_of_lt_of_le rHigh ?_)
    exact (Nat.mul_le_mul_left limbRadix rTop).trans (Nat.mul_le_mul_right limbRadix two)
  rw [Nat.mod_eq_of_lt fits] at guess
  have lead : 0 < y / limbRadix ^ j := lt_of_lt_of_le limb_radix_pos two
  refine ⟨?_, ⟨_, rfl⟩, lead, ?_, ?_, ?_, ?_, ?_, ?_, ?_, ?_, ?_⟩
  · rw [shift, ← pow_add, Nat.add_sub_cancel' (by omega)]
  · rw [guess]
    exact Nat.div_pos enough.le lead
  · rwa [guess]
  · rw [guess]
    exact Nat.div_mul_le_self _ _
  · rw [guess, Nat.mul_comm]
    exact Nat.lt_mul_div_succ _ lead
  · rw [guess, isOrder, pow_succ, Nat.mul_comm]
    exact Nat.mul_le_mul_left _ fits.le
  · rw [isLong, isOrder, ← lead_split, pow_succ, ← Nat.mul_assoc, Nat.mul_comm _ limbRadix, ← Nat.mul_assoc]
    exact Nat.mul_le_mul_right _ yHigh.le
  · rw [shift]
    omega
  · intro limbs
    rw [limb_lead r rPositive, limb_lead y (positive_of_long y long), isOrder, isLong, ← lead_split,
      ← lead_split] at limbs
    omega
  · intro _
    rw [isLong, pow_succ, Nat.mul_comm]

theorem estimate : ∃ place low, Estimate r y place low := by
  have orders := orders_le r y long le
  have yTop := limb_lead y (positive_of_long y long)
  have rTop := limb_lead r (Nat.lt_of_lt_of_le (positive_of_long y long) le)
  obtain ⟨k, isOrder⟩ : ∃ k, order r = k + 1 := ⟨order r - 1, by omega⟩
  obtain ⟨j, isLong⟩ : ∃ j, order y = j + 1 := ⟨order y - 1, by omega⟩
  have pair := leading_pair r y long le k isOrder
  by_cases larger : limb r (order r) ≤ limb y (order y)
  · have lead := lead_positive limbRadix y (order y) limb_radix_pos (order_leads y (positive_of_long y long))
    by_cases spills : limbRadix - 1 < doubleLimb r (order r) / limb y (order y)
    · have guess : bestGuess r y = ⟨1, order r⟩ := by
        rw [bestGuess, if_pos ⟨larger, by omega⟩, if_pos spills]
      refine ⟨_, _, estimate_equal r y long le ?_ guess⟩
      rw [pair, yTop] at spills
      have room : limbRadix ≤ r / limbRadix ^ k / (y / limbRadix ^ order y) := by omega
      rw [Nat.le_div_iff_mul_le lead, Nat.mul_comm, ← Nat.le_div_iff_mul_le limb_radix_pos, lead_split,
        ← isOrder] at room
      rw [rTop, yTop] at larger
      omega
    · have guess : bestGuess r y = ⟨r / limbRadix ^ k / (y / limbRadix ^ order y), k⟩ := by
        rw [bestGuess, if_pos ⟨larger, by omega⟩, if_neg spills, pair, yTop, isOrder]
        rfl
      rw [pair, yTop] at spills
      refine ⟨_, _, estimate_lower r y long le k isOrder ?_ larger guess (by have := limb_radix_pos; omega)⟩
      -- With orders equal the leading limbs would be equal, and the quotient too large.
      by_contra equal
      have same : order y = k + 1 := by omega
      have atLeast : y / limbRadix ^ (k + 1) ≤ r / limbRadix ^ (k + 1) := Nat.div_le_div_right le
      have room : limbRadix ≤ r / limbRadix ^ k / (y / limbRadix ^ order y) := by
        rw [Nat.le_div_iff_mul_le lead, Nat.mul_comm, ← Nat.le_div_iff_mul_le limb_radix_pos, lead_split, same]
        exact atLeast
      have radix := limb_radix_pos
      omega
  · have guess : bestGuess r y = ⟨r / limbRadix ^ k / (y / limbRadix ^ j) % limbRadix, k + 1⟩ := by
      rw [bestGuess, if_neg (fun both => larger both.1), if_neg (by omega), pair,
        leading_pair y y long (Nat.le_refl y) j isLong, isOrder]
    rw [rTop, yTop] at larger
    exact ⟨_, _, estimate_pair r y long le k j isOrder isLong (by omega) guess⟩

def GuessOverflows (r y : Nat) : Prop := modulus ≤ guessed r y

instance (r y : Nat) : Decidable (GuessOverflows r y) := inferInstanceAs (Decidable (_ ≤ _))

theorem guessed_positive : 0 < guessed r y := by
  obtain ⟨place, low, est⟩ := estimate r y long le
  exact Nat.mul_pos (Nat.mul_pos est.positive (positive_of_long y long)) (Nat.pow_pos limb_radix_pos)

theorem guessed_double : guessed r y < 2 * r := by
  obtain ⟨place, low, est⟩ := estimate r y long le
  obtain ⟨k, isPower⟩ := est.power
  exact trial_double r y _ place low _ est.unit (Nat.pow_pos limb_radix_pos) est.positive est.notOver
    (isPower ▸ Nat.pow_pos limb_radix_pos) est.lead

theorem guessed_above : guessed r y < r + limbRadix ^ order r := by
  obtain ⟨place, low, est⟩ := estimate r y long le
  obtain ⟨k, isPower⟩ := est.power
  have upper := trial_upper r y _ place low _ est.unit (Nat.pow_pos limb_radix_pos) est.positive est.notOver
    (isPower ▸ Nat.pow_pos limb_radix_pos)
  exact lt_of_lt_of_le upper (Nat.add_le_add_left est.units r)

theorem guessed_below : r < guessed r y + (y / limbRadix ^ order y + 1) * limbRadix ^ order r := by
  obtain ⟨place, low, est⟩ := estimate r y long le
  obtain ⟨k, isPower⟩ := est.power
  have placed : 0 < place := by
    rw [est.unit, isPower]
    exact Nat.mul_pos (Nat.pow_pos limb_radix_pos) (Nat.pow_pos limb_radix_pos)
  have lower := trial_lower r y _ place low _ est.unit placed est.notUnder
  exact lt_of_lt_of_le lower (Nat.add_le_add_left est.rest _)

theorem guessed_not_modulus (small : r < modulus) : guessed r y ≠ modulus := by
  intro same
  obtain ⟨place, low, est⟩ := estimate r y long le
  obtain ⟨k, isPower⟩ := est.power
  have divides : y ∣ 2 ^ 512 := ⟨(bestGuess r y).guess * limbRadix ^ guessShift r y, by
    change modulus = _
    rw [← same, guessed]
    ring⟩
  obtain ⟨m, _, power⟩ := (Nat.dvd_prime_pow Nat.prime_two).mp divides
  have lowLe : low ≤ y := by
    by_contra large
    have zero := Nat.div_eq_of_lt (Nat.lt_of_not_le large)
    exact absurd est.lead (by omega)
  have whole : low ∣ y := by
    rw [isPower, limb_radix_pow, power] at lowLe ⊢
    exact pow_dvd_pow 2 ((Nat.pow_le_pow_iff_right (by decide)).mp lowLe)
  have within : guessed r y ≤ r := by
    calc guessed r y = (bestGuess r y).guess * (y / low) * place := by
          rw [est.unit, ← Nat.mul_assoc, Nat.mul_assoc _ (y / low) low, Nat.div_mul_cancel whole]
          rfl
      _ ≤ r / place * place := Nat.mul_le_mul_right place est.notOver
      _ ≤ r := Nat.div_mul_le_self r place
  omega

theorem guessed_room (k : Nat) (room : order y + guessShift r y < k) : guessed r y < limbRadix ^ (k + 1) := by
  obtain ⟨place, low, est⟩ := estimate r y long le
  have yLeads := order_leads y (positive_of_long y long)
  calc guessed r y < limbRadix * y * limbRadix ^ guessShift r y :=
        Nat.mul_lt_mul_of_pos_right (Nat.mul_lt_mul_of_pos_right est.fits (positive_of_long y long))
          (Nat.pow_pos limb_radix_pos)
    _ ≤ limbRadix * limbRadix ^ (order y + 1) * limbRadix ^ guessShift r y :=
        Nat.mul_le_mul_right _ (Nat.mul_le_mul_left _ yLeads.2.le)
    _ = limbRadix ^ (order y + guessShift r y + 2) := by ring
    _ ≤ limbRadix ^ (k + 1) := Nat.pow_le_pow_right limb_radix_pos (by omega)

theorem fused_product (small : r < modulus) :
    fusedProduct (bestGuess r y).guess y (guessShift r y) =
      if GuessOverflows r y then guessed r y - modulus else guessed r y := by
  obtain ⟨place, low, est⟩ := estimate r y long le
  have rOrder := order_fits r (Nat.lt_of_lt_of_le (positive_of_long y long) le) small
  have double := guessed_double r y long le
  have orders := est.orders
  rw [fusedProduct, limb_count_order]
  by_cases truncated : internalLimbCount < order y + 1 + guessShift r y + 1
  · have full : order y + 1 + guessShift r y = internalLimbCount := by
      unfold internalLimbCount at truncated ⊢
      omega
    rw [if_pos truncated, full, ← modulus_limbs]
    change guessed r y % modulus = _
    by_cases spills : GuessOverflows r y
    · rw [if_pos spills, Nat.mod_eq_sub_mod spills, Nat.mod_eq_of_lt (by unfold GuessOverflows at spills; omega)]
    · rw [if_neg spills, Nat.mod_eq_of_lt (Nat.lt_of_not_le spills)]
  · have room := guessed_room r y long le 7 (by unfold internalLimbCount at truncated; omega)
    have fits : ¬ GuessOverflows r y := by
      rw [GuessOverflows, modulus_limbs]
      exact Nat.not_le_of_lt room
    rw [if_neg truncated, if_neg fits]
    rfl

theorem calm_fits (small : r < modulus) (calm : r < (y / limbRadix ^ order y + 1) * limbRadix ^ 7) :
    ¬ GuessOverflows r y := by
  have rPositive := Nat.lt_of_lt_of_le (positive_of_long y long) le
  obtain ⟨place, low, est⟩ := estimate r y long le
  have rOrder := order_fits r rPositive small
  have orders := est.orders
  rw [GuessOverflows, modulus_limbs]
  refine Nat.not_le_of_lt ?_
  by_cases short : order y + guessShift r y < 7
  · exact guessed_room r y long le 7 short
  · have full : order r = 7 := by omega
    have top : limb r (order r) ≤ limb y (order y) := by
      have quotient : r / limbRadix ^ 7 < y / limbRadix ^ order y + 1 :=
        (Nat.div_lt_iff_lt_mul (Nat.pow_pos limb_radix_pos)).mpr calm
      rw [limb_lead r rPositive, limb_lead y (positive_of_long y long), full]
      omega
    rcases est.calm top with one | below
    · rw [guessed, one, Nat.one_mul]
      calc y * limbRadix ^ guessShift r y < limbRadix ^ (order y + 1) * limbRadix ^ guessShift r y :=
            Nat.mul_lt_mul_of_pos_right (order_leads y (positive_of_long y long)).2 (Nat.pow_pos limb_radix_pos)
        _ = limbRadix ^ (order y + guessShift r y + 1) := by ring
        _ ≤ limbRadix ^ internalLimbCount := Nat.pow_le_pow_right limb_radix_pos (by unfold internalLimbCount; omega)
    · omega

theorem spill_full (small : r < modulus) (spills : GuessOverflows r y) :
    order y + guessShift r y = 7 ∧ limb y (order y) < limb r (order r) := by
  have rPositive := Nat.lt_of_lt_of_le (positive_of_long y long) le
  obtain ⟨place, low, est⟩ := estimate r y long le
  have orders := est.orders
  have rOrder := order_fits r rPositive small
  have full : order y + guessShift r y = 7 := by
    by_contra short
    have room := guessed_room r y long le 7 (by omega)
    rw [GuessOverflows, modulus_limbs] at spills
    exact absurd spills (Nat.not_le_of_lt room)
  refine ⟨full, Nat.lt_of_not_le fun top => ?_⟩
  refine calm_fits r y long le small ?_ spills
  rw [limb_lead r rPositive, limb_lead y (positive_of_long y long), show order r = 7 by omega] at top
  rw [← Nat.div_lt_iff_lt_mul (Nat.pow_pos limb_radix_pos)]
  omega

theorem spill_excess (small : r < modulus) (spills : GuessOverflows r y) :
    modulus + limbRadix ^ (7 - order y) ≤ guessed r y := by
  obtain ⟨full, _⟩ := spill_full r y long le small spills
  have different := guessed_not_modulus r y long le small
  have shift : guessShift r y = 7 - order y := by omega
  have whole : modulus = limbRadix ^ (order y + 1) * limbRadix ^ (7 - order y) := by
    rw [modulus_limbs, ← pow_add]
    exact congrArg (limbRadix ^ ·) (by unfold internalLimbCount; omega)
  have above : modulus < guessed r y := Nat.lt_of_le_of_ne spills different.symm
  rw [guessed, shift] at above ⊢
  rw [whole] at above ⊢
  rw [← Nat.succ_mul]
  exact Nat.mul_le_mul_right _ (Nat.lt_of_mul_lt_mul_right above)

theorem spill_room (small : r < modulus) (spills : GuessOverflows r y) :
    modulus + limbRadix ^ 6 + (limbRadix - 1) * limbRadix ^ (7 - order y) ≤ r + limbRadix ^ 7 := by
  obtain ⟨full, larger⟩ := spill_full r y long le small spills
  obtain ⟨place, low, est⟩ := estimate r y long le
  have shift : guessShift r y = 7 - order y := by omega
  have isPlace : place = limbRadix ^ 6 := by
    refine Nat.eq_of_mul_eq_mul_left limb_radix_pos ?_
    rw [est.unit, ← Nat.mul_assoc, est.pair larger, ← pow_add, full, ← pow_succ']
  have lowPositive : 0 < low := by
    obtain ⟨k, isPower⟩ := est.power
    exact isPower ▸ Nat.pow_pos limb_radix_pos
  have unit := est.unit
  have below := est.notOver
  have fits : (bestGuess r y).guess ≤ limbRadix - 1 := by have := est.fits; omega
  rw [isPlace, shift] at unit
  rw [isPlace] at below
  have rest : y % low ≤ low - 1 := by have := Nat.mod_lt y lowPositive; omega
  have lead : (bestGuess r y).guess * (y / low) * limbRadix ^ 6 ≤ r :=
    (Nat.mul_le_mul_right _ below).trans (Nat.div_mul_le_self _ _)
  have tail : (bestGuess r y).guess * (y % low) ≤ (limbRadix - 1) * (low - 1) := Nat.mul_le_mul fits rest
  have split : guessed r y = (bestGuess r y).guess * (y / low) * limbRadix ^ 6 +
      (bestGuess r y).guess * (y % low) * limbRadix ^ (7 - order y) := by
    rw [guessed, shift, unit]
    generalize (bestGuess r y).guess = guess
    calc guess * y * limbRadix ^ (7 - order y)
        = guess * (low * (y / low) + y % low) * limbRadix ^ (7 - order y) := by rw [Nat.div_add_mod]
      _ = guess * (y / low) * (low * limbRadix ^ (7 - order y)) + guess * (y % low) * limbRadix ^ (7 - order y) := by ring
  have whole : (limbRadix - 1) * (low - 1) * limbRadix ^ (7 - order y) + (limbRadix - 1) * limbRadix ^ (7 - order y) +
      limbRadix ^ 6 = limbRadix ^ 7 := by
    obtain ⟨below, rfl⟩ : ∃ below, low = below + 1 := ⟨low - 1, by omega⟩
    obtain ⟨top, isTop⟩ : ∃ top, limbRadix = top + 1 := ⟨limbRadix - 1, by have := limb_radix_pos; omega⟩
    rw [pow_succ limbRadix 6, unit]
    generalize limbRadix ^ (7 - order y) = scale
    rw [isTop, Nat.add_sub_cancel, Nat.add_sub_cancel]
    ring
  have scaled := Nat.mul_le_mul_right (limbRadix ^ (7 - order y)) tail
  have spilled : modulus ≤ guessed r y := spills
  omega

end Pass

section Loop

variable (x y : Nat) (long : 0 < order y)

-- k counts the passes whose product was too large: each of them takes 2^512 less from
-- the remainder than its guess says.
structure Holds (k : Nat) (s : Division) : Prop where
  small : s.r < modulus
  balance : (x : Int) + k * modulus = s.result * y + if s.rNeg then -(s.r : Int) else s.r
  low : s.rNeg = true → s.r < limbRadix ^ 7
  taken : s.r + k * limbRadix ^ (7 - order y) ≤ x
  few : 0 < k →
    modulus + limbRadix ^ 6 + (limbRadix - 1 + (k - 1)) * limbRadix ^ (7 - order y) ≤ x + limbRadix ^ 7

def Calm (r : Nat) : Prop := r < (y / limbRadix ^ order y + 1) * limbRadix ^ 7

theorem low_calm (r : Nat) (low : r < limbRadix ^ 7) : Calm y r :=
  lt_of_lt_of_le low (Nat.le_mul_of_pos_left _ (Nat.succ_pos _))

include long

theorem low_fits (r : Nat) (le : y ≤ r) (small : r < modulus) (low : r < limbRadix ^ 7) : ¬ GuessOverflows r y :=
  calm_fits r y long le small (low_calm y r low)

theorem order_power (r : Nat) (le : y ≤ r) (small : r < modulus) : limbRadix ^ order r ≤ limbRadix ^ 7 :=
  Nat.pow_le_pow_right limb_radix_pos (order_fits r (Nat.lt_of_lt_of_le (positive_of_long y long) le) small)

omit long in
theorem guessed_value (r : Nat) :
    ((bestGuess r y).guess * limbRadix ^ guessShift r y : Int) * y = guessed r y := by
  rw [guessed]
  push_cast
  ring

theorem pass_exact (k : Nat) (s : Division) (le : y ≤ s.r) (holds : Holds x y k s) (fits : ¬ GuessOverflows s.r y) :
    Holds x y k (divisionPass y s) ∧ (divisionPass y s).r < s.r ∧ Calm y (divisionPass y s).r := by
  have product := fused_product s.r y long le holds.small
  rw [if_neg fits] at product
  have positive := guessed_positive s.r y long le
  have double := guessed_double s.r y long le
  have above := guessed_above s.r y long le
  have below := guessed_below s.r y long le
  have power := order_power y long s.r le holds.small
  have scaled := Nat.mul_le_mul_left (y / limbRadix ^ order y + 1) power
  have value := guessed_value y s.r
  have small := holds.small
  have balance := holds.balance
  have taken := holds.taken
  by_cases less : guessed s.r y < s.r
  · have pass : divisionPass y s = ⟨updateResult s.rNeg s.result ((bestGuess s.r y).guess * limbRadix ^ guessShift s.r y),
        s.r - guessed s.r y, s.rNeg⟩ := by
      simp only [divisionPass, product, less, if_true]
    rw [pass]
    refine ⟨⟨by dsimp only; omega, ?_, ?_, by dsimp only; omega, holds.few⟩, by dsimp only; omega, ?_⟩
    · dsimp only
      cases negative : s.rNeg with
      | true =>
          simp only [negative, updateResult, if_true, Int.sub_mul, value] at balance ⊢
          omega
      | false =>
          simp only [negative, updateResult, Bool.false_eq_true, if_false, Int.add_mul, value] at balance ⊢
          omega
    · intro negative
      have low := holds.low negative
      dsimp only
      omega
    · show s.r - guessed s.r y < _
      omega
  · have pass : divisionPass y s = ⟨updateResult s.rNeg s.result ((bestGuess s.r y).guess * limbRadix ^ guessShift s.r y),
        guessed s.r y - s.r, !s.rNeg⟩ := by
      simp only [divisionPass, product, less, if_false]
    have low : guessed s.r y - s.r < limbRadix ^ 7 := by omega
    rw [pass]
    refine ⟨⟨by dsimp only; omega, ?_, fun _ => low, by dsimp only; omega, holds.few⟩, by dsimp only; omega,
      low_calm y _ low⟩
    dsimp only
    cases negative : s.rNeg with
    | true =>
        simp only [negative, updateResult, if_true, Bool.not_true, Bool.false_eq_true, if_false, Int.sub_mul, value]
          at balance ⊢
        omega
    | false =>
        simp only [negative, updateResult, Bool.false_eq_true, if_false, Bool.not_false, if_true, Int.add_mul, value]
          at balance ⊢
        omega

-- A pass that loses 2^512: r cannot be below zero there, since it has all its limbs.
theorem pass_truncated (k : Nat) (s : Division) (le : y ≤ s.r) (holds : Holds x y k s) (spills : GuessOverflows s.r y) :
    Holds x y (k + 1) (divisionPass y s) ∧ (divisionPass y s).r < s.r := by
  have product := fused_product s.r y long le holds.small
  rw [if_pos spills] at product
  have double := guessed_double s.r y long le
  have excess := spill_excess s.r y long le holds.small spills
  have room := spill_room s.r y long le holds.small spills
  have unit : 0 < limbRadix ^ (7 - order y) := Nat.pow_pos limb_radix_pos
  have value := guessed_value y s.r
  have small := holds.small
  have balance := holds.balance
  have taken := holds.taken
  have large : modulus ≤ guessed s.r y := spills
  have above : s.rNeg = false := by
    by_contra negative
    exact low_fits y long s.r le small (holds.low (by simpa using negative)) spills
  have pass : divisionPass y s = ⟨s.result + (bestGuess s.r y).guess * limbRadix ^ guessShift s.r y,
      s.r - (guessed s.r y - modulus), false⟩ := by
    have less : guessed s.r y - modulus < s.r := by omega
    simp only [divisionPass, product, less, if_true, above, updateResult, Bool.false_eq_true, if_false]
  rw [pass]
  refine ⟨⟨by dsimp only; omega, ?_, by simp, ?_, fun _ => ?_⟩, by dsimp only; omega⟩
  · simp only [above, Bool.false_eq_true, if_false, Int.add_mul, value, Nat.cast_add, Nat.cast_one, Int.one_mul] at balance ⊢
    omega
  · rw [Nat.succ_mul]
    dsimp only
    omega
  · rw [Nat.add_sub_cancel, Nat.add_mul]
    omega

theorem loop_holds (fuel k : Nat) (s : Division) (le : y ≤ s.r) (holds : Holds x y k s) (enough : s.r < fuel) :
    ∃ k' t, divisionLoop y fuel s = some t ∧ Holds x y k' t ∧ t.r < y ∧
      (GuessOverflows s.r y → k < k') ∧ (¬ GuessOverflows s.r y → k' = k) := by
  induction fuel generalizing k s with
  | zero => omega
  | succ fuel ih =>
      obtain ⟨k₁, next, less, counted, calm⟩ : ∃ k₁, Holds x y k₁ (divisionPass y s) ∧ (divisionPass y s).r < s.r ∧
          (GuessOverflows s.r y → k < k₁) ∧ (¬ GuessOverflows s.r y → k₁ = k ∧ Calm y (divisionPass y s).r) := by
        by_cases spills : GuessOverflows s.r y
        · obtain ⟨next, less⟩ := pass_truncated x y long k s le holds spills
          exact ⟨k + 1, next, less, fun _ => Nat.lt_succ_self k, fun fits => absurd spills fits⟩
        · obtain ⟨next, less, calm⟩ := pass_exact x y long k s le holds spills
          exact ⟨k, next, less, fun absurdly => absurd absurdly spills, fun _ => ⟨rfl, calm⟩⟩
      by_cases done : (divisionPass y s).r < y
      · refine ⟨k₁, divisionPass y s, ?_, next, done, counted, fun fits => (calm fits).1⟩
        simp only [divisionLoop]
        by_cases short : order (divisionPass y s).r < order y
        · rw [if_pos short]
        · rw [if_neg short, if_neg]
          rintro (longer | goes)
          · have positive : 0 < (divisionPass y s).r := by
              by_contra zero
              have isZero : (divisionPass y s).r = 0 := by omega
              rw [isZero] at longer
              exact absurd longer (Nat.not_lt_zero _)
            exact absurd (order_mono _ y positive done.le) (by omega)
          · omega
      · have goes : y ≤ (divisionPass y s).r := Nat.le_of_not_lt done
        obtain ⟨k', t, ended, final, small, later, same⟩ := ih k₁ (divisionPass y s) goes next (by omega)
        refine ⟨k', t, ?_, final, small, ?_, ?_⟩
        · have orders := orders_le (divisionPass y s).r y long goes
          simp only [divisionLoop]
          rw [if_neg (by omega), if_pos (.inr goes)]
          exact ended
        · intro spills
          by_cases again : GuessOverflows (divisionPass y s).r y
          · exact (counted spills).trans (later again)
          · rw [same again]
            exact counted spills
        · intro fits
          obtain ⟨equal, isCalm⟩ := calm fits
          rw [same (calm_fits _ y long goes next.small isCalm), equal]

theorem normalised (k : Nat) (s : Division) (holds : Holds x y k s) (small : s.r < y) :
    normaliseResult y s = ((((x + k * modulus) / y : Nat) : Int), (x + k * modulus) % y) := by
  have yPositive := positive_of_long y long
  have unique (q : Int) (r : Nat) (below : r < y) (total : (x : Int) + k * modulus = q * y + r) :
      (q, r) = ((((x + k * modulus) / y : Nat) : Int), (x + k * modulus) % y) := by
    have split : ((x + k * modulus : Nat) : Int) = r + y * q := by
      push_cast
      rw [total]
      ring
    have quotient : q = ((x + k * modulus : Nat) : Int) / y := by
      rw [split, Int.add_mul_ediv_left _ _ (by omega), Int.ediv_eq_zero_of_lt (by omega) (by omega), Int.zero_add]
    have remainder : (r : Int) = ((x + k * modulus : Nat) : Int) % y := by
      rw [split, Int.add_mul_emod_self_left, Int.emod_eq_of_lt (by omega) (by omega)]
    rw [Prod.mk.injEq]
    exact ⟨by rw [quotient]; rfl, by exact_mod_cast remainder⟩
  have balance := holds.balance
  rw [normaliseResult]
  by_cases negative : s.rNeg = true
  · simp only [negative, if_true] at balance
    by_cases zero : s.r = 0
    · rw [if_neg (by simp [zero])]
      exact unique _ _ small (by rw [balance, zero]; rfl)
    · rw [if_pos ⟨negative, zero⟩]
      refine unique _ _ (by omega) ?_
      rw [balance, Int.sub_mul]
      omega
  · simp only [negative] at balance
    rw [if_neg (fun both => negative both.1)]
    exact unique _ _ small balance

end Loop

section Limb

def lowValue : List Nat → Nat
  | [] => 0
  | top :: rest => top * limbRadix ^ rest.length + lowValue rest

def LimbDivision.value (s : LimbDivision) : Nat := lowValue (s.top :: s.rest)

theorem limbs_below_length (x k : Nat) : (limbsBelow x k).length = k := by
  induction k with
  | zero => rfl
  | succ k ih => rw [limbsBelow, List.length_cons, ih]

theorem limbs_below_value (x k : Nat) : lowValue (limbsBelow x k) = x % limbRadix ^ k := by
  induction k with
  | zero => simp [limbsBelow, lowValue, Nat.mod_one]
  | succ k ih =>
      rw [limbsBelow, lowValue, limbs_below_length, ih, Nat.mod_pow_succ, Nat.add_comm, Nat.mul_comm]
      rfl

theorem skip_value (s : LimbDivision) : (skipExact s).value = s.value ∧ (skipExact s).result = s.result := by
  obtain ⟨top, rest, result⟩ := s
  cases rest with
  | nil => exact ⟨rfl, rfl⟩
  | cons next below =>
      by_cases zero : top = 0
      · simp [skipExact, zero, LimbDivision.value, lowValue]
      · simp [skipExact, zero]

theorem limb_pass_value (y : Nat) (s : LimbDivision) :
    (limbPass y s).result * y + (limbPass y s).value = s.result * y + s.value := by
  obtain ⟨top, rest, result⟩ := s
  have split (a : Nat) : a / y * y + a % y = a := Nat.div_add_mod' a y
  cases rest with
  | nil =>
      simp only [limbPass, LimbDivision.value, lowValue, List.length_nil, pow_zero, Nat.mul_one, Nat.add_zero]
      rw [Nat.add_mul, Nat.add_assoc, split]
  | cons next below =>
      by_cases less : top < y
      · simp only [limbPass, less, if_true]
        obtain ⟨value, kept⟩ := skip_value ⟨(top * limbRadix + next) % y, below,
          result + (top * limbRadix + next) / y * limbRadix ^ below.length⟩
        rw [value, kept]
        simp only [LimbDivision.value, lowValue, List.length_cons]
        calc (result + (top * limbRadix + next) / y * limbRadix ^ below.length) * y +
              ((top * limbRadix + next) % y * limbRadix ^ below.length + lowValue below)
            = result * y + (((top * limbRadix + next) / y * y + (top * limbRadix + next) % y) *
                limbRadix ^ below.length + lowValue below) := by ring
          _ = result * y + (top * limbRadix ^ (below.length + 1) + (next * limbRadix ^ below.length + lowValue below)) := by
                rw [split]
                ring
      · simp only [limbPass, less, if_false]
        obtain ⟨value, kept⟩ := skip_value ⟨top % y, next :: below,
          result + top / y * limbRadix ^ (next :: below).length⟩
        rw [value, kept]
        simp only [LimbDivision.value, lowValue, List.length_cons]
        calc (result + top / y * limbRadix ^ (below.length + 1)) * y +
              (top % y * limbRadix ^ (below.length + 1) + (next * limbRadix ^ below.length + lowValue below))
            = result * y + ((top / y * y + top % y) * limbRadix ^ (below.length + 1) +
                (next * limbRadix ^ below.length + lowValue below)) := by ring
          _ = result * y + (top * limbRadix ^ (below.length + 1) + (next * limbRadix ^ below.length + lowValue below)) := by
                rw [split]

-- Every second pass at the latest is done with a limb.
def limbWork (y : Nat) (s : LimbDivision) : Nat := 2 * s.rest.length + if y ≤ s.top then 1 else 0

theorem skip_work (y : Nat) (s : LimbDivision) (less : s.top < y) :
    limbWork y (skipExact s) ≤ 2 * s.rest.length := by
  obtain ⟨top, rest, result⟩ := s
  cases rest with
  | nil => simp [skipExact, limbWork, Nat.not_le_of_lt less]
  | cons next below =>
      by_cases zero : top = 0
      · simp only [skipExact, zero, if_true, limbWork, List.length_cons]
        split <;> omega
      · simp [skipExact, zero, limbWork, Nat.not_le_of_lt less]

theorem limb_pass_work (y : Nat) (s : LimbDivision) (positive : 0 < y) (goes : s.rest ≠ [] ∨ y ≤ s.top) :
    limbWork y (limbPass y s) < limbWork y s := by
  obtain ⟨top, rest, result⟩ := s
  cases rest with
  | nil =>
      have enough : y ≤ top := by simpa using goes
      have less : ¬ y ≤ top % y := Nat.not_le_of_lt (Nat.mod_lt top positive)
      simp [limbPass, limbWork, enough, less]
  | cons next below =>
      by_cases less : top < y
      · have work := skip_work y ⟨(top * limbRadix + next) % y, below,
          result + (top * limbRadix + next) / y * limbRadix ^ below.length⟩ (Nat.mod_lt _ positive)
        simp only [limbPass, less, if_true]
        simp only [limbWork, List.length_cons] at work ⊢
        omega
      · have work := skip_work y ⟨top % y, next :: below,
          result + top / y * limbRadix ^ (next :: below).length⟩ (Nat.mod_lt _ positive)
        simp only [limbPass, less, if_false]
        simp only [limbWork, List.length_cons, Nat.le_of_not_lt less, if_true] at work ⊢
        omega

theorem limb_loop_value (y : Nat) (positive : 0 < y) (fuel : Nat) (s : LimbDivision) (goes : s.rest ≠ [] ∨ y ≤ s.top)
    (enough : limbWork y s ≤ fuel) :
    ∃ t, limbLoop y fuel s = some t ∧ t.result * y + t.top = s.result * y + s.value ∧ t.top < y := by
  induction fuel generalizing s with
  | zero =>
      exfalso
      have less := limb_pass_work y s positive goes
      omega
  | succ fuel ih =>
      have less := limb_pass_work y s positive goes
      have value := limb_pass_value y s
      by_cases again : (limbPass y s).rest ≠ [] ∨ y ≤ (limbPass y s).top
      · obtain ⟨t, ended, total, small⟩ := ih (limbPass y s) again (by omega)
        refine ⟨t, ?_, total.trans value, small⟩
        simp only [limbLoop]
        rw [if_pos again]
        exact ended
      · refine ⟨limbPass y s, ?_, ?_, ?_⟩
        · simp only [limbLoop]
          rw [if_neg again]
        · rw [← value]
          have empty : (limbPass y s).rest = [] := by
            by_contra more
            exact again (.inl more)
          simp [LimbDivision.value, lowValue, empty]
        · exact Nat.lt_of_not_le fun large => again (.inr large)

theorem limb_small (v : Nat) (short : order v = 0) : limb v 0 = v := by
  by_cases zero : v = 0
  · rw [zero]
    rfl
  · have lead := limb_lead v (Nat.pos_of_ne_zero zero)
    rwa [short, pow_zero, Nat.div_one] at lead

theorem double_limb_value (v : Nat) (two : order v = 1) : doubleLimb v 1 = v := by
  have positive : 0 < v := by
    by_contra zero
    rw [show v = 0 by omega] at two
    exact absurd two (by decide)
  have leads := order_leads v positive
  rw [two] at leads
  have pair := digit_pair limbRadix v 0 leads
  rwa [pow_zero, Nat.div_one] at pair

theorem divide_by_limb (x y : Nat) (positive : 0 < y) :
    divideByLimb x y = some (((x / y : Nat) : Int), x % y) := by
  rw [divideByLimb, if_neg positive.ne']
  by_cases short : order x = 0
  · by_cases less : x < y
    · rw [if_pos ⟨short, less⟩, Nat.div_eq_of_lt less, Nat.mod_eq_of_lt less]
      rfl
    · rw [if_neg (fun both => less both.2), if_pos short, limb_small x short]
      rfl
  · rw [if_neg (fun both => short both.1), if_neg short]
    by_cases two : order x = 1
    · rw [if_pos two, double_limb_value x two]
      rfl
    · rw [if_neg two]
      have more : (limbsBelow x (order x)) ≠ [] := by
        intro empty
        have length := limbs_below_length x (order x)
        rw [empty] at length
        exact short length.symm
      obtain ⟨t, ended, total, small⟩ := limb_loop_value y positive (2 * limbCount x)
        ⟨limb x (order x), limbsBelow x (order x), 0⟩ (.inl more) (by
          simp only [limbWork, limbs_below_length, limb_count_order]
          split <;> omega)
      have value : LimbDivision.value ⟨limb x (order x), limbsBelow x (order x), 0⟩ = x := by
        have xPositive : 0 < x := by
          by_contra zero
          rw [show x = 0 by omega] at short
          exact short rfl
        simp only [LimbDivision.value, lowValue, limbs_below_length, limbs_below_value, limb_lead x xPositive]
        exact Nat.div_add_mod' x _
      rw [value, Nat.zero_mul, Nat.zero_add] at total
      have quotient : t.result = x / y := by
        rw [← total, Nat.mul_comm, Nat.mul_add_div positive, Nat.div_eq_of_lt small, Nat.add_zero]
      have remainder : t.top = x % y := by
        rw [← total, Nat.mul_comm, Nat.mul_add_mod, Nat.mod_eq_of_lt small]
      rw [ended, Option.map_some, quotient, remainder]

end Limb

def FirstGuessOverflows (x y : Nat) : Prop := 0 < order y ∧ y ≤ x ∧ GuessOverflows x y

instance (x y : Nat) : Decidable (FirstGuessOverflows x y) := inferInstanceAs (Decidable (_ ∧ _ ∧ _))

theorem divide_short (x y : Nat) (positive : 0 < y) (less : x < y) : divideUnsignedHelper x y = some (0, x) := by
  rw [divideUnsignedHelper]
  by_cases single : order y = 0
  · rw [if_pos single, limb_small y single, divide_by_limb x y positive, Nat.div_eq_of_lt less, Nat.mod_eq_of_lt less]
    rfl
  · rw [if_neg single]
    by_cases zero : x = 0
    · rw [if_pos zero, zero]
    · rw [if_neg zero, if_pos ⟨order_mono x y (Nat.pos_of_ne_zero zero) less.le, .inr less⟩]

theorem divide_long (x y : Nat) (long : 0 < order y) (le : y ≤ x) (small : x < modulus) :
    ∃ k, divideUnsignedHelper x y = some ((((x + k * modulus) / y : Nat) : Int), (x + k * modulus) % y) ∧
      (GuessOverflows x y → 0 < k) ∧ (¬ GuessOverflows x y → k = 0) ∧
      (0 < k → modulus + limbRadix ^ 6 + (limbRadix - 1 + (k - 1)) * limbRadix ^ (7 - order y) ≤ x + limbRadix ^ 7) := by
  have orders := orders_le x y long le
  have xPositive := Nat.lt_of_lt_of_le (positive_of_long y long) le
  rw [divideUnsignedHelper, if_neg long.ne', if_neg xPositive.ne', if_neg (by omega), if_neg (by omega)]
  by_cases two : order x = 1
  · have twoLimbs : order y = 1 := by omega
    rw [if_pos two, double_limb_value x two, double_limb_value y twoLimbs]
    have low : x < limbRadix ^ 7 :=
      lt_of_lt_of_le (order_leads x xPositive).2 (Nat.pow_le_pow_right limb_radix_pos (by omega))
    refine ⟨0, ?_, fun spills => absurd spills (low_fits y long x le small low), fun _ => rfl,
      fun more => absurd more (Nat.lt_irrefl 0)⟩
    rw [Nat.zero_mul, Nat.add_zero]
    rfl
  · rw [if_neg two]
    have balance : (x : Int) + (0 : Nat) * modulus = 0 * y + x := by rw [Nat.cast_zero, zero_mul, zero_mul, add_comm]
    have start : Holds x y 0 ⟨0, x, false⟩ :=
      ⟨small, balance, nofun, by rw [Nat.zero_mul, Nat.add_zero], fun more => absurd more (Nat.lt_irrefl 0)⟩
    obtain ⟨k, t, ended, holds, less, spills, kept⟩ := loop_holds x y long (x + 1) 0 ⟨0, x, false⟩ le start (Nat.lt_succ_self x)
    rw [ended, Option.map_some, normalised x y long k t holds less]
    exact ⟨k, rfl, spills, kept, holds.few⟩

theorem divide_exact (x y : Nat) (positive : 0 < y) (small : x < modulus) (fits : ¬ FirstGuessOverflows x y) :
    divideUnsignedHelper x y = some (((x / y : Nat) : Int), x % y) := by
  by_cases less : x < y
  · rw [divide_short x y positive less, Nat.div_eq_of_lt less, Nat.mod_eq_of_lt less]
    rfl
  · by_cases single : order y = 0
    · rw [divideUnsignedHelper, if_pos single, limb_small y single, divide_by_limb x y positive]
    · have long := Nat.pos_of_ne_zero single
      have le := Nat.le_of_not_lt less
      obtain ⟨k, computed, _, kept, _⟩ := divide_long x y long le small
      rw [computed, kept fun spills => fits ⟨long, le, spills⟩, Nat.zero_mul, Nat.add_zero]

theorem below_top_fits (x y : Nat) (below : x < modulus - limbRadix ^ 7) : ¬ FirstGuessOverflows x y := by
  rintro ⟨long, le, spills⟩
  have above := guessed_above x y long le
  have power := order_power y long x le (by omega)
  unfold GuessOverflows at spills
  omega

theorem square_guess_fits (m z : Nat) (narrow : m * m + m < modulus) (high : z ≤ m * m + m) :
    ¬ FirstGuessOverflows z m := by
  have whole : modulus = limbRadix ^ 4 * limbRadix ^ 4 := by decide +kernel
  have mNarrow : m < limbRadix ^ 4 := by
    by_contra large
    have square := Nat.mul_le_mul (Nat.le_of_not_lt large) (Nat.le_of_not_lt large)
    omega
  have small : z < modulus := by omega
  rintro ⟨long, le, spills⟩
  by_cases below : z < modulus - limbRadix ^ 7
  · exact below_top_fits z m below ⟨long, le, spills⟩
  · refine calm_fits z m long le small ?_ spills
    -- m + 1 ≤ R⁴ - R³ would leave the sum below 2^512 - R⁷.
    have large : limbRadix ^ 4 - limbRadix ^ 3 ≤ m := by
      by_contra less
      have product : m * (m + 1) ≤ (limbRadix ^ 4 - limbRadix ^ 3) * (limbRadix ^ 4 - limbRadix ^ 3) :=
        Nat.mul_le_mul (by omega) (by omega)
      have gap : (limbRadix ^ 4 - limbRadix ^ 3) * (limbRadix ^ 4 - limbRadix ^ 3) < modulus - limbRadix ^ 7 := by
        decide +kernel
      rw [Nat.mul_succ] at product
      omega
    have isOrder : order m = 3 := by
      have mPositive := positive_of_long m long
      have upper := order_below m 3 mPositive mNarrow
      have lower : limbRadix ^ 3 < limbRadix ^ (order m + 1) :=
        Nat.lt_of_le_of_lt (le_trans (by decide +kernel) large) (order_leads m mPositive).2
      have exponents := (Nat.pow_lt_pow_iff_right limb_radix_gt).mp lower
      omega
    have top : limbRadix - 1 ≤ m / limbRadix ^ 3 := by
      rw [Nat.le_div_iff_mul_le (Nat.pow_pos limb_radix_pos)]
      exact le_trans (by decide +kernel) large
    rw [isOrder]
    calc z < modulus := small
      _ = (limbRadix - 1 + 1) * limbRadix ^ 7 := by decide +kernel
      _ ≤ (m / limbRadix ^ 3 + 1) * limbRadix ^ 7 := Nat.mul_le_mul_right _ (Nat.add_le_add_right top 1)

theorem divide_spilled (x y : Nat) (small : x < modulus) (spills : FirstGuessOverflows x y) :
    ∃ k, divideUnsignedHelper x y = some ((((x + k * modulus) / y : Nat) : Int), (x + k * modulus) % y) ∧ 0 < k ∧
      (x + k * modulus) / y < modulus - limbRadix ^ 7 ∧ 2 ≤ (x + k * modulus) / y := by
  obtain ⟨long, le, guess⟩ := spills
  obtain ⟨k, computed, lost, _, few⟩ := divide_long x y long le small
  have more := lost guess
  have room := few more
  have positive := positive_of_long y long
  have yOrder : order y ≤ 7 := order_fits y positive (by omega)
  refine ⟨k, computed, more, ?_, ?_⟩
  · have unit : 0 < limbRadix ^ (7 - order y) := Nat.pow_pos limb_radix_pos
    obtain ⟨j, isLong⟩ : ∃ j, order y = j + 1 := ⟨order y - 1, by omega⟩
    have six : limbRadix ^ 6 = limbRadix ^ j * limbRadix ^ (7 - order y) := by
      rw [← pow_add]
      exact congrArg (limbRadix ^ ·) (by omega)
    have seven : limbRadix ^ 7 = limbRadix ^ order y * limbRadix ^ (7 - order y) := by
      rw [← pow_add]
      exact congrArg (limbRadix ^ ·) (by omega)
    have passes : limbRadix - 1 + (k - 1) + limbRadix ^ j < limbRadix ^ order y := by
      refine Nat.lt_of_mul_lt_mul_right (a := limbRadix ^ (7 - order y)) ?_
      rw [Nat.add_mul, ← six, ← seven]
      omega
    have radix := limb_radix_gt
    have units : modulus * limbRadix ^ order y = modulus * (limbRadix ^ order y - limbRadix ^ j) + limbRadix ^ 7 * limbRadix ^ order y := by
      rw [← Nat.sub_add_cancel (show limbRadix ^ j ≤ limbRadix ^ order y by omega), Nat.add_sub_cancel, Nat.mul_add,
        Nat.sub_add_cancel (show limbRadix ^ j ≤ limbRadix ^ order y by omega), modulus_limbs, isLong, pow_succ limbRadix j]
      unfold internalLimbCount
      ring
    rw [Nat.div_lt_iff_lt_mul positive]
    calc x + k * modulus < modulus + k * modulus := Nat.add_lt_add_right small _
      _ = modulus * (k + 1) := by ring
      _ ≤ modulus * (limbRadix ^ order y - limbRadix ^ j) := Nat.mul_le_mul_left _ (by omega)
      _ = (modulus - limbRadix ^ 7) * limbRadix ^ order y := by
          rw [Nat.sub_mul]
          omega
      _ ≤ (modulus - limbRadix ^ 7) * y := Nat.mul_le_mul_left _ (order_leads y positive).1
  · rw [Nat.le_div_iff_mul_le positive]
    have once : modulus ≤ k * modulus := Nat.le_mul_of_pos_left modulus more
    omega

theorem divide_wrong (x y : Nat) (positive : 0 < y) (small : x < modulus) (spills : FirstGuessOverflows x y) :
    ∃ q r, divideUnsignedHelper x y = some (q, r) ∧ q ≠ ((x / y : Nat) : Int) := by
  obtain ⟨k, computed, lost, _⟩ := divide_spilled x y small spills
  refine ⟨_, _, computed, ?_⟩
  intro same
  have quotients : (x + k * modulus) / y = x / y := by exact_mod_cast same
  have more : y ≤ k * modulus := spills.2.1.trans (small.le.trans (Nat.le_mul_of_pos_left modulus lost))
  have greater : x / y + 1 ≤ (x + k * modulus) / y := by
    rw [Nat.le_div_iff_mul_le positive, Nat.add_mul, Nat.one_mul]
    exact Nat.add_le_add (Nat.div_mul_le_self x y) more
  omega

theorem long_division_exact_iff (x y : Nat) (positive : 0 < y) (small : x < modulus) :
    (divideUnsignedHelper x y = some (((x / y : Nat) : Int), x % y) ↔ ¬ FirstGuessOverflows x y) ∧
      (FirstGuessOverflows x y → ∃ q r, divideUnsignedHelper x y = some (q, r) ∧ q ≠ ((x / y : Nat) : Int)) := by
  have wrong := divide_wrong x y positive small
  refine ⟨⟨fun computed spills => ?_, divide_exact x y positive small⟩, wrong⟩
  obtain ⟨q, r, other, different⟩ := wrong spills
  rw [computed] at other
  exact different (Prod.mk.inj (Option.some.inj other)).1.symm

theorem long_division_inexact :
    ¬ divideUnsignedHelper (modulus - 1) (2 ^ 128 + 2 ^ 65 - 1) =
      some ((((modulus - 1) / (2 ^ 128 + 2 ^ 65 - 1) : Nat) : Int), (modulus - 1) % (2 ^ 128 + 2 ^ 65 - 1)) := by
  rw [(long_division_exact_iff (modulus - 1) (2 ^ 128 + 2 ^ 65 - 1) (by decide) (by decide +kernel)).1]
  decide +kernel

end VsLab.CppInt
