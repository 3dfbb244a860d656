import VsLab.Floyd
import VsLab.RhoExact
import VsLab.System
import Mathlib.Data.ZMod.Basic
import Mathlib.Data.Nat.Prime.Basic

set_option autoImplicit false

namespace VsLab

open Actors

theorem rho_map_residue (n a : Int) (q : Nat) (divides : (q : Int) ∣ n) :
    Function.Semiconj (fun z : Int => (z : ZMod q)) (rhoMap n a) (fun w => w * w + a) := by
  intro z
  have reduced : (q : Int) ∣ (z * z + a) - rhoMap n a z := dvd_trans divides Int.dvd_self_sub_emod
  have same := (ZMod.intCast_eq_intCast_iff_dvd_sub (rhoMap n a z) (z * z + a) q).mpr reduced
  simpa using same

theorem meets_modulo (n a x : Int) (q : Nat) (positive : 0 < q) (divides : (q : Int) ∣ n) :
    ∃ k, k < q ∧ (q : Int) ∣ (rhoMap n a)^[2 * (k + 1)] x - (rhoMap n a)^[k + 1] x := by
  have : NeZero q := ⟨positive.ne'⟩
  obtain ⟨k, some, bound, meet⟩ := Floyd.images_meet (rhoMap n a) x _ _ (rho_map_residue n a q divides)
  rw [ZMod.card] at bound
  refine ⟨k - 1, by omega, ?_⟩
  rw [show k - 1 + 1 = k by omega]
  exact (ZMod.intCast_eq_intCast_iff_dvd_sub _ _ q).mp meet.symm

theorem small_factor_seen (n a x : Int512) (q : Nat) (low : 2 ≤ q) (positive : 0 < n.val) (half : n.val < 2 ^ 256)
    (divides : (q : Int) ∣ n.val) (aLow : 1 ≤ a.val) (aHigh : a.val ≤ n.val) (xLow : 1 ≤ x.val) (xHigh : x.val ≤ n.val) :
    ∃ k, k < q ∧ ¬ Coprime n a k x x := by
  obtain ⟨k, inside, meet⟩ := meets_modulo n.val a.val x.val q (by omega) divides
  refine ⟨k, inside, ?_⟩
  rintro ⟨next, pass, one⟩
  have small := square_fits n.val positive.le half
  obtain ⟨other, d, found, _, _, _, _, _, _, isGcd⟩ :=
    pass_exact n a positive small (by omega) aHigh k x x (by omega) xHigh (by omega) xHigh
  cases pass.symm.trans found
  have common : (q : Int) ∣ next.p.val := by
    rw [isGcd]
    exact Int.dvd_coe_gcd ((dvd_abs _ _).mpr meet) divides
  rw [one, Int512.val_one] at common
  have unit := Int.le_of_dvd one_pos common
  omega

theorem slice_leaves (bases : Nat → Nat) (random n a cycles : Int512) (q : Nat) (low : 0 ≤ random.val) (positive : 0 < n.val)
    (few : q ≤ maxIterations) (below : cycles.val ≤ 1)
    (seen : ∀ x : Int512, 1 ≤ x.val → x.val ≤ n.val → ∃ k, k < q ∧ ¬ Coprime n a k x x) :
    ∃ p i, i < q ∧ p ≠ 1 ∧ slice bases random n a cycles = some (leaving bases n p i) := by
  obtain ⟨x, result, _, xLow, xHigh, sliced, ended⟩ := slice_end bases random n a cycles low positive
  obtain ⟨k, inside, shared⟩ := seen x xLow xHigh
  cases ended with
  | leaves j next _ before pass notOne _ same =>
      refine ⟨next.p, 0 + j, ?_, notOne, same ▸ sliced⟩
      by_contra late
      exact shared (before k (by omega))
  | givesUp _ _ beyond _ =>
      rw [fourth_root_limit_one, Int512.val_one] at beyond
      omega
  | runsOut all _ _ => exact absurd (all k (by omega)) shared

theorem small_factor_first_slice (st : WorkerState) (n : Int512) (low : 2 ≤ n.val) (half : n.val < 2 ^ 256)
    (small : n.val.toNat.minFac ≤ maxIterations) :
    (∀ draw : Draw, ∃ a, 1 ≤ a.val ∧ a.val ≤ n.val ∧ Worker.react st draw (.calculate n) =
      ⟨[.send (.continuation n a 0 draw.clock (st.stateId + 1))], .become (.worker { st with stateId := st.stateId + 1 })⟩) ∧
    ∀ (a : Int512) (draw : Draw) (cpuTime : Clock), 1 ≤ a.val → a.val ≤ n.val →
      ∃ i ≤ n.val.toNat.minFac - 1,
        (∃ p, p ≠ 1 ∧ slice draw.bases draw.random n a 0 = some (.factor p i) ∧
          Worker.react st draw (.continuation n a 0 cpuTime st.stateId) =
            ⟨[.publish st.server (.factor p (0 + Int512.ofNat i) cpuTime)], .become (.worker st)⟩) ∨
        (isProbablePrime draw.bases n = false ∧ slice draw.bases draw.random n a 0 = some (.restart i) ∧
          Worker.react st draw (.continuation n a 0 cpuTime st.stateId) =
            ⟨[.send (.continuation n a (0 + Int512.ofNat i) cpuTime st.stateId)], .become (.worker st)⟩) := by
  have prime := Nat.minFac_prime (by omega : n.val.toNat ≠ 1)
  have divides : (n.val.toNat.minFac : Int) ∣ n.val := by
    rw [← Int.toNat_of_nonneg (by omega : 0 ≤ n.val)]
    exact Int.natCast_dvd_natCast.mpr (Nat.minFac_dvd _)
  constructor
  · intro draw
    obtain ⟨a, drawn, _⟩ := draw_up_to_range draw.random n draw.nonneg (by omega)
    obtain ⟨aLow, aHigh, _⟩ := drawn_start draw.random n a draw.nonneg (by omega) drawn
    exact ⟨a, aLow, aHigh, by simp only [Worker.react, Worker.calculate, drawn]⟩
  · intro a draw cpuTime aLow aHigh
    obtain ⟨p, i, inside, notOne, sliced⟩ := slice_leaves draw.bases draw.random n a 0 n.val.toNat.minFac draw.nonneg (by omega)
      small (by simp) (fun x xLow xHigh =>
        small_factor_seen n a x _ prime.two_le (by omega) half divides aLow aHigh xLow xHigh)
    refine ⟨i, by omega, ?_⟩
    unfold leaving at sliced
    split at sliced
    · left
      exact ⟨p, notOne, sliced, by simp only [Worker.react, Worker.continuation, sliced, ne_eq, not_true_eq_false, if_false]⟩
    · next rejected =>
        right
        rw [not_or, not_not] at rejected
        obtain ⟨rfl, composite⟩ := rejected
        exact ⟨by simpa using composite, sliced,
          by simp only [Worker.react, Worker.continuation, sliced, ne_eq, not_true_eq_false, if_false]⟩

theorem small_factor_first_slice_fifteen :
    2 ≤ (Int512.ofNat 15).val ∧ (Int512.ofNat 15).val < 2 ^ 256 ∧ (Int512.ofNat 15).val.toNat.minFac ≤ maxIterations ∧
      ∃ i ≤ (Int512.ofNat 15).val.toNat.minFac - 1,
        (∃ p, p ≠ 1 ∧ slice (drawing 0).bases (drawing 0).random (Int512.ofNat 15) 1 0 = some (.factor p i) ∧
          Worker.react ⟨.workers 0, 1⟩ (drawing 0) (.continuation (Int512.ofNat 15) 1 0 0 1) =
            ⟨[.publish (.workers 0) (.factor p (0 + Int512.ofNat i) 0)], .become (.worker ⟨.workers 0, 1⟩)⟩) ∨
        (isProbablePrime (drawing 0).bases (Int512.ofNat 15) = false ∧
          slice (drawing 0).bases (drawing 0).random (Int512.ofNat 15) 1 0 = some (.restart i) ∧
          Worker.react ⟨.workers 0, 1⟩ (drawing 0) (.continuation (Int512.ofNat 15) 1 0 0 1) =
            ⟨[.send (.continuation (Int512.ofNat 15) 1 (0 + Int512.ofNat i) 0 1)], .become (.worker ⟨.workers 0, 1⟩)⟩) := by
  have low : 2 ≤ (Int512.ofNat 15).val := by decide +kernel
  have half : (Int512.ofNat 15).val < 2 ^ 256 := by decide +kernel
  have small : (Int512.ofNat 15).val.toNat.minFac ≤ maxIterations := by decide +kernel
  exact ⟨low, half, small, (small_factor_first_slice ⟨.workers 0, 1⟩ (Int512.ofNat 15) low half small).2 1 (drawing 0) 0
    (by decide +kernel) (by decide +kernel)⟩

end VsLab
