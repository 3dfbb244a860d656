import Mathlib.Dynamics.PeriodicPts.Defs
import Mathlib.Data.Fintype.Card
import Mathlib.Data.Fintype.Pigeonhole
import Mathlib.Logic.Function.Iterate

set_option autoImplicit false

namespace Floyd

variable {α β : Type} (step : α → α) (start : α)

theorem orbit_repeats [Fintype α] :
    ∃ tail period, 0 < period ∧ tail + period ≤ Fintype.card α ∧ step^[tail + period] start = step^[tail] start := by
  obtain ⟨i, j, different, same⟩ :=
    Fintype.exists_ne_map_eq_of_card_lt (fun i : Fin (Fintype.card α + 1) => step^[i] start) (by simp)
  have distinct : (i : Nat) ≠ j := fun equal => different (Fin.ext equal)
  rcases lt_or_gt_of_ne distinct with below | above
  · refine ⟨i, j - i, by omega, by omega, ?_⟩
    rw [show (i : Nat) + (j - i) = j by omega]
    exact same.symm
  · refine ⟨j, i - j, by omega, by omega, ?_⟩
    rw [show (j : Nat) + (i - j) = i by omega]
    exact same

theorem cycle_closes (tail period k turns : Nat) (closes : step^[tail + period] start = step^[tail] start)
    (beyond : tail ≤ k) : step^[period * turns + k] start = step^[k] start := by
  have atTail : Function.IsPeriodicPt step period (step^[tail] start) := by
    rw [Function.IsPeriodicPt, Function.IsFixedPt, ← Function.iterate_add_apply, Nat.add_comm]
    exact closes
  have atPoint := (atTail.apply_iterate (k - tail)).mul_const turns
  rw [← Function.iterate_add_apply, show k - tail + tail = k by omega] at atPoint
  rw [Function.iterate_add_apply]
  exact atPoint

theorem pointers_meet [Fintype α] :
    ∃ k, 0 < k ∧ k ≤ Fintype.card α ∧ step^[2 * k] start = step^[k] start := by
  obtain ⟨tail, period, positive, bound, closes⟩ := orbit_repeats step start
  have quotient := Nat.div_add_mod tail period
  have remainder := Nat.mod_lt tail positive
  refine ⟨period * (tail / period + 1), Nat.mul_pos positive (Nat.succ_pos _), ?_, ?_⟩
  · rw [Nat.mul_add, Nat.mul_one]
    omega
  · rw [Nat.two_mul]
    refine cycle_closes step start tail period _ (tail / period + 1) closes ?_
    rw [Nat.mul_add, Nat.mul_one]
    omega

theorem images_meet [Fintype β] (image : α → β) (shadow : β → β) (follows : Function.Semiconj image step shadow) :
    ∃ k, 0 < k ∧ k ≤ Fintype.card β ∧ image (step^[2 * k] start) = image (step^[k] start) := by
  obtain ⟨k, positive, bound, meet⟩ := pointers_meet shadow (image start)
  refine ⟨k, positive, bound, ?_⟩
  rw [(follows.iterate_right (2 * k)).eq, (follows.iterate_right k).eq]
  exact meet

end Floyd
