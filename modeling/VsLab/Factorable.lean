import VsLab.Undisturbed
import VsLab.SliceDivisors
import VsLab.ProbablePrime
import Mathlib.Data.Nat.Factorization.Basic

set_option autoImplicit false

namespace VsLab

open Actors

def Splits (n p : Int512) : Prop :=
  if n.val.toNat.Prime then p = n else 1 < p.val ∧ p.val < n.val ∧ p.val ∣ n.val

theorem drawable_divisor (n : Nat) (low : 2 ≤ n) (composite : ¬ n.Prime) (notFour : n ≠ 4) :
    ∃ c, c ∣ n ∧ 3 ≤ c ∧ c < n ∧ (c % 2 = 1 ∨ c = 4) := by
  obtain ⟨k, power⟩ | ⟨q, prime, divides, odd⟩ := Nat.eq_two_pow_or_exists_odd_prime_and_dvd n
  · have large : 3 ≤ k := by
      by_contra fewer
      interval_cases k
      · omega
      · exact composite (by rw [power]; exact Nat.prime_two)
      · omega
    have eight : 8 ≤ n := by
      calc 8 = 2 ^ 3 := rfl
        _ ≤ 2 ^ k := Nat.pow_le_pow_right (by decide) large
        _ = n := power.symm
    exact ⟨4, power ▸ pow_dvd_pow 2 (by omega : 2 ≤ k), by omega, by omega, .inr rfl⟩
  · have notTwo : q ≠ 2 := fun two => by
      rw [two] at odd
      exact absurd odd (by decide)
    have different : q ≠ n := fun same => composite (same ▸ prime)
    have bound := Nat.le_of_dvd (by omega) divides
    have big := prime.two_le
    exact ⟨q, divides, by omega, by omega, .inl (Nat.odd_iff.mp odd)⟩

theorem composite_answer (bases : Nat → Nat) (n : Int512) (low : 2 ≤ n.val) (small : n.val * n.val + n.val < modulus)
    (composite : ¬ n.val.toNat.Prime) (notFour : n.val ≠ 4) :
    ∃ a random p, 0 ≤ random.val ∧ 1 ≤ a.val ∧ a.val ≤ n.val ∧ slice bases random n a 0 = some (.factor p 0) ∧
      Splits n p := by
  obtain ⟨c, divides, big, proper, kind⟩ := drawable_divisor n.val.toNat (by omega) composite (by omega)
  have divides : (c : Int) ∣ n.val := by rwa [← Int.natCast_dvd_natCast, Int.toNat_of_nonneg (by omega)] at divides
  obtain ⟨a, random, p, nonneg, aLow, aHigh, sliced, value⟩ :=
    divisor_drawn bases n 0 c small divides big (by omega) kind
  refine ⟨a, random, p, nonneg, aLow, aHigh, sliced, ?_⟩
  rw [Splits, if_neg composite, value]
  exact ⟨by omega, by omega, divides⟩

theorem prime_answer (bases : Nat → Nat) (n : Int512) (low : 2 ≤ n.val) (small : n.val * n.val + n.val < modulus)
    (prime : n.val.toNat.Prime) (notTwo : n.val ≠ 2) :
    ∃ random, 0 ≤ random.val ∧ slice bases random n n 0 = some (.factor n 0) ∧ Splits n n := by
  have odd : n.val.toNat % 2 = 1 := by
    rcases prime.eq_two_or_odd with two | odd
    · omega
    · exact odd
  obtain ⟨random, nonneg, drawn⟩ := any_start n n (by omega) le_rfl
  obtain ⟨next, _, stepped, xVal, yVal, _⟩ :=
    rho_pass n n (by omega) small (by omega) le_rfl n n (by omega) le_rfl (by omega) le_rfl
  have atZero : rhoMap n.val n.val n.val = 0 := by
    rw [rhoMap]
    exact Int.emod_eq_zero_of_dvd ⟨n.val + 1, by ring⟩
  have stays : rhoMap n.val n.val 0 = 0 := by rw [rhoMap, Int.mul_zero, Int.zero_add, Int.emod_self]
  rw [atZero] at xVal
  rw [atZero, stays] at yVal
  have whole := (meets_iff n n n n next (by omega) (by omega) stepped).mpr (Int512.ext_val _ _ (xVal.trans yVal.symm))
  have notOne : next.p ≠ 1 := fun one => by
    have value := congrArg Int512.val (whole.symm.trans one)
    rw [Int512.val_one] at value
    omega
  refine ⟨random, nonneg, ?_, by rw [Splits, if_pos prime]⟩
  rw [slice_first_pass bases random n n 0 n next nonneg (by omega) drawn stepped notOne, leaving, whole,
    if_pos (.inr (probable_prime_passes bases n prime odd))]

theorem four_gcd (a u v : Int) : Int.gcd |rhoMap 4 a u - rhoMap 4 a v| 4 ≠ 2 := by
  have squares (z : Int) : z * z % 4 = 0 ∨ z * z % 4 = 1 := by
    rcases Int.even_or_odd' z with ⟨half, rfl | rfl⟩
    · left
      rw [show 2 * half * (2 * half) = 4 * (half * half) by ring]
      omega
    · right
      rw [show (2 * half + 1) * (2 * half + 1) = 4 * (half * half + half) + 1 by ring]
      omega
  have differences : rhoMap 4 a u - rhoMap 4 a v ∈ [0, 1, -1, 3, -3] := by
    have first := squares u
    have second := squares v
    simp only [rhoMap, List.mem_cons, List.not_mem_nil, or_false]
    generalize u * u = s at first
    generalize v * v = t at second
    omega
  have each : ∀ d ∈ ([0, 1, -1, 3, -3] : List Int), Int.gcd |d| 4 ≠ 2 := by decide
  exact each _ differences

theorem no_answer (bases : Nat → Nat) (random n a cycles p : Int512) (i : Nat) (low : 0 ≤ random.val) (aLow : 1 ≤ a.val)
    (aHigh : a.val ≤ n.val) (unlucky : n.val = 2 ∨ n.val = 4) : slice bases random n a cycles ≠ some (.factor p i) := by
  intro sliced
  obtain ⟨x, result, _, xLow, xHigh, defined, ended⟩ := slice_end bases random n a cycles low (by omega)
  obtain ⟨other, again, sound⟩ := slice_outcome bases random n a cycles (by omega)
  rw [sliced] at again defined
  cases again
  cases defined
  obtain ⟨big, divides, tested⟩ := sound p i rfl
  have proper : p.val ≠ n.val := by
    intro whole
    have odd := probable_prime_odd bases n (tested (Int512.ext_val p n whole))
    omega
  have free : n.val.natAbs < carryFree := Nat.lt_of_le_of_lt (by omega : n.val.natAbs ≤ 4) (by decide +kernel)
  have divides := divides (carry_free_exact n free)
  have bound := Int.le_of_dvd (by omega) divides
  have isFour : n.val = 4 := by omega
  cases ended with
  | leaves k next _ _ pass _ _ same =>
      have isP : next.p = p := by
        unfold leaving at same
        split at same <;> cases same
        rfl
      have small := square_fits n.val (by omega) (by rw [isFour]; norm_num)
      obtain ⟨again, d, found, _, _, _, _, _, _, isGcd⟩ :=
        pass_exact n a (by omega) small (by omega) aHigh k x x (by omega) xHigh (by omega) xHigh
      cases pass.symm.trans found
      rw [isP, isFour, show 2 * (k + 1) = 2 * k + 1 + 1 by ring, Function.iterate_succ_apply' _ (2 * k + 1),
        Function.iterate_succ_apply' _ k] at isGcd
      have notTwo := four_gcd a.val ((rhoMap 4 a.val)^[2 * k + 1] x.val) ((rhoMap 4 a.val)^[k] x.val)
      have three : p.val ≠ 3 := fun three => by
        rw [three, isFour] at divides
        exact absurd divides (by decide)
      omega
  | givesUp _ _ _ same => cases same
  | runsOut _ _ same => cases same

theorem factor_sliced (actor : Address) (n p total : Int512) (cpuTime : Clock) (history : List Past) (nonzero : n.val ≠ 0)
    (chronicle : Chronicle actor n history) (sent : .factor p total cpuTime ∈ results actor history) :
    ∃ a cycles i, ∃ draw : Draw, 1 ≤ a.val ∧ a.val ≤ n.val ∧
      slice draw.bases draw.random n a cycles = some (.factor p i) := by
  obtain ⟨event, member, published⟩ := List.mem_flatMap.mp sent
  obtain ⟨newer, older, split⟩ := List.append_of_mem member
  have own := chronicle event older ⟨newer, split.symm⟩
  have alone : .factor p total cpuTime ∈ results actor [event] := by simpa [results] using published
  cases own with
  | request env st draw asks =>
      rw [request_results actor env st n draw asks] at alone
      cases alone
  | slice st a cycles ticks draw aLow aHigh carried few =>
      obtain ⟨result, sliced, _⟩ := slice_outcome draw.bases draw.random n a cycles nonzero
      rw [slice_results actor st n a cycles ticks draw result sliced] at alone
      cases result with
      | factor q i =>
          have same : p = q := by
            simp only [sliceResults, List.mem_singleton, Msg.factor.injEq] at alone
            exact alone.1
          exact ⟨a, cycles, i, draw, aLow, aHigh, same ▸ sliced⟩
      | giveUp => simp [sliceResults] at alone
      | restart i => cases alone
      | exhausted => cases alone

theorem answer_reached (actor sender : Address) (st : WorkerState) (n a random p : Int512) (bases : Nat → Nat) (i : Nat)
    (aLow : 1 ≤ a.val) (aHigh : a.val ≤ n.val) (low : 0 ≤ random.val)
    (sliced : slice bases random n a 0 = some (.factor p i)) :
    ∃ node total cpuTime, (undisturbed actor sender st n).Reach Lts.anyStep node ∧
      .factor p total cpuTime ∈ results actor node.history := by
  obtain ⟨randomA, aRandom, drawn⟩ := any_start n a aLow aHigh
  let draws := repeating ⟨randomA, aRandom, 0, bases, fun _ => true⟩ ⟨random, low, 0, bases, fun _ => true⟩
  have asked := after_request actor sender st n a draws drawn
  have answered := after_slice actor sender st _ n a 0 _ draws 1 _ _ asked sliced
  refine ⟨_, 0 + Int512.ofNat i, (draws 0).clock, (undisturbed actor sender st n).after_reach draws 2 _ answered, ?_⟩
  rw [afterSlice, results_cons, slice_results actor _ n a 0 _ (draws 1) _ sliced]
  exact List.mem_append_left _ (List.mem_singleton_self _)

theorem never_answers (actor sender : Address) (st : WorkerState) (n : Int512) (unlucky : n.val = 2 ∨ n.val = 4) (node : Box)
    (reached : (undisturbed actor sender st n).Reach Lts.anyStep node) (p total : Int512) (cpuTime : Clock) :
    .factor p total cpuTime ∉ results actor node.history := by
  intro sent
  have chronicle := (undisturbed_run actor sender st n (by omega) node reached).1
  obtain ⟨a, cycles, i, draw, aLow, aHigh, sliced⟩ :=
    factor_sliced actor n p total cpuTime node.history (by omega) chronicle sent
  exact no_answer draw.bases draw.random n a cycles p i draw.nonneg aLow aHigh unlucky sliced

theorem factorable_iff (actor sender : Address) (st : WorkerState) (n : Int512) (low : 2 ≤ n.val) (half : n.val < 2 ^ 256) :
    (∃ node p total cpuTime, (undisturbed actor sender st n).Reach Lts.anyStep node ∧
      .factor p total cpuTime ∈ results actor node.history ∧ Splits n p) ↔ n.val ≠ 2 ∧ n.val ≠ 4 := by
  have small := square_fits n.val (by omega) half
  constructor
  · rintro ⟨node, p, total, cpuTime, reached, sent, _⟩
    by_contra unlucky
    exact never_answers actor sender st n (by omega) node reached p total cpuTime sent
  · rintro ⟨notTwo, notFour⟩
    obtain ⟨a, random, p, nonneg, aLow, aHigh, sliced, splits⟩ : ∃ a random p, 0 ≤ random.val ∧ 1 ≤ a.val ∧ a.val ≤ n.val ∧
        slice (fun _ => 0) random n a 0 = some (.factor p 0) ∧ Splits n p := by
      by_cases prime : n.val.toNat.Prime
      · obtain ⟨random, nonneg, sliced, splits⟩ := prime_answer (fun _ => 0) n low small prime notTwo
        exact ⟨n, random, n, nonneg, by omega, le_rfl, sliced, splits⟩
      · exact composite_answer (fun _ => 0) n low small prime notFour
    obtain ⟨node, total, cpuTime, reached, sent⟩ :=
      answer_reached actor sender st n a random p (fun _ => 0) 0 aLow aHigh nonneg sliced
    exact ⟨node, p, total, cpuTime, reached, sent, splits⟩

theorem factorable_fifteen : 2 ≤ (Int512.ofNat 15).val ∧ (Int512.ofNat 15).val < 2 ^ 256 ∧
    ∃ node p total cpuTime,
      (undisturbed (.worker 0 0) (.manager 0) ⟨.workers 0, 0⟩ (Int512.ofNat 15)).Reach Lts.anyStep node ∧
      .factor p total cpuTime ∈ results (.worker 0 0) node.history ∧ Splits (Int512.ofNat 15) p := by
  have low : 2 ≤ (Int512.ofNat 15).val := by decide +kernel
  have half : (Int512.ofNat 15).val < 2 ^ 256 := by decide +kernel
  exact ⟨low, half, (factorable_iff _ _ ⟨.workers 0, 0⟩ (Int512.ofNat 15) low half).mpr (by decide +kernel)⟩

theorem two_four_stuck :
    (¬ ∃ node p total cpuTime,
      (undisturbed (.worker 0 0) (.manager 0) ⟨.workers 0, 0⟩ (Int512.ofNat 2)).Reach Lts.anyStep node ∧
      .factor p total cpuTime ∈ results (.worker 0 0) node.history) ∧
    ¬ ∃ node p total cpuTime,
      (undisturbed (.worker 0 0) (.manager 0) ⟨.workers 0, 0⟩ (Int512.ofNat 4)).Reach Lts.anyStep node ∧
      .factor p total cpuTime ∈ results (.worker 0 0) node.history := by
  constructor
  · rintro ⟨node, p, total, cpuTime, reached, sent⟩
    exact never_answers _ _ _ _ (.inl (by decide +kernel)) node reached p total cpuTime sent
  · rintro ⟨node, p, total, cpuTime, reached, sent⟩
    exact never_answers _ _ _ _ (.inr (by decide +kernel)) node reached p total cpuTime sent

end VsLab
