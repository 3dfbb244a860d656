import VsLab.MillerRabin
import VsLab.Arithmetic

set_option autoImplicit false

namespace VsLab

def maxIterations : Nat := 1000

def fourthRootLimit (n : Int512) : Int512 := n.pow (1 / 4)

inductive SliceEnd where
  | factor (p : Int512) (i : Nat)
  | restart (i : Nat)
  | giveUp
  | exhausted
deriving DecidableEq

structure RhoStep where
  x : Int512
  y : Int512
  p : Int512
deriving DecidableEq

section Loop

variable [Divider]

def rhoStep (n a x y : Int512) : Option RhoStep := do
  let x ← (x * x + a).mod n
  let y ← (y * y + a).mod n
  let y ← (y * y + a).mod n
  let d ← (if y - x > 0 then y - x else -(y - x)).mod n
  let p ← d.gcd n
  return ⟨x, y, p⟩

-- left counts the iterations still to run, so i + left stays MAX_ITERATIONS.
def rhoLoop (bases : Nat → Nat) (n a cycles limit : Int512) : Nat → Nat → Int512 → Int512 → Option SliceEnd
  | 0, _, _, _ => some .exhausted
  | left + 1, i, x, y => do
      let next ← rhoStep n a x y
      if next.p ≠ 1 then
        if next.p ≠ n ∨ isProbablePrime bases next.p then some (.factor next.p i) else some (.restart i)
      else if cycles > limit then some .giveUp
      else rhoLoop bases n a cycles limit left (i + 1) next.x next.y

def drawUpTo (random n : Int512) : Option Int512 := do
  let r ← random.mod n
  return r + 1

def slice (bases : Nat → Nat) (random n a cycles : Int512) : Option SliceEnd := do
  let x ← drawUpTo random n
  let x := if x = 0 then x + 1 else x
  rhoLoop bases n a cycles (fourthRootLimit n) maxIterations 0 x x

end Loop

theorem slice_drawn [Divider] (bases : Nat → Nat) (random n a cycles x : Int512) (drawn : drawUpTo random n = some x)
    (notZero : x ≠ 0) :
    slice bases random n a cycles = rhoLoop bases n a cycles (fourthRootLimit n) maxIterations 0 x x := by
  simp only [slice, drawn, bind, Option.bind_some, notZero, if_false]

theorem fourth_root_limit_one (n : Int512) : fourthRootLimit n = 1 := rfl

section Outcome

variable [Divider] [LawfulDivider]

theorem rho_step_defined (n a x y : Int512) (nonzero : n.val ≠ 0) : ∃ next, rhoStep n a x y = some next := by
  obtain ⟨x1, hx, _⟩ := mod_range (x * x + a) n nonzero
  obtain ⟨y1, hy, _⟩ := mod_range (y * y + a) n nonzero
  obtain ⟨y2, hy2, _⟩ := mod_range (y1 * y1 + a) n nonzero
  obtain ⟨d, hd, _⟩ := mod_range (if y2 - x1 > 0 then y2 - x1 else -(y2 - x1)) n nonzero
  obtain ⟨p, hp, _⟩ := gcd_defined d n nonzero
  refine ⟨⟨x1, y2, p⟩, ?_⟩
  simp only [rhoStep, hx, hy, hy2, hd, hp, bind, Option.bind_some, pure]

theorem rho_step_gcd (n a x y : Int512) (next : RhoStep) (nonzero : n.val ≠ 0) (stepped : rhoStep n a x y = some next) :
    ∃ d : Int512, d.gcd n = some next.p ∧ d.val.natAbs < n.val.natAbs := by
  simp only [rhoStep, bind, Option.bind_eq_some_iff, pure, Option.some.injEq] at stepped
  obtain ⟨_, _, _, _, _, _, d, reduced, p, isGcd, same⟩ := stepped
  obtain ⟨other, defined, less, _⟩ := mod_range _ n nonzero
  cases reduced.symm.trans defined
  exact ⟨d, by rw [isGcd, ← same], less⟩

theorem gcd_proper (d n p : Int512) (nonzero : n.val ≠ 0) (below : d.val.natAbs < n.val.natAbs) (isGcd : d.gcd n = some p)
    (notOne : p ≠ 1) : 2 ≤ p.val ∧ (ExactUpTo n → p.val ∣ n.val) := by
  obtain ⟨other, defined, positive, _⟩ := gcd_defined d n nonzero
  cases isGcd.symm.trans defined
  have different : p.val ≠ 1 := fun one => notOne (Int512.ext_val _ _ one)
  refine ⟨by omega, fun exact => ?_⟩
  rw [gcd_exact d n p exact below.le isGcd]
  exact Int.gcd_dvd_right _ _

theorem rho_loop_outcome (bases : Nat → Nat) (n a cycles limit : Int512) (nonzero : n.val ≠ 0)
    (left i : Nat) (x y : Int512) :
    ∃ result, rhoLoop bases n a cycles limit left i x y = some result ∧
      (∀ p j, result = .factor p j →
        2 ≤ p.val ∧ (ExactUpTo n → p.val ∣ n.val) ∧ (p = n → isProbablePrime bases n = true)) := by
  induction left generalizing i x y with
  | zero => exact ⟨.exhausted, rfl, fun _ _ same => by cases same⟩
  | succ left ih =>
      obtain ⟨next, stepped⟩ := rho_step_defined n a x y nonzero
      obtain ⟨d, isGcd, below⟩ := rho_step_gcd n a x y next nonzero stepped
      simp only [rhoLoop, stepped, bind, Option.bind_some]
      by_cases one : next.p = 1
      · simp only [one, ne_eq, not_true_eq_false, if_false]
        by_cases beyond : cycles > limit
        · exact ⟨.giveUp, by simp only [beyond, if_true], fun _ _ same => by cases same⟩
        · simp only [beyond, if_false]
          exact ih (i + 1) next.x next.y
      · simp only [one, ne_eq, not_false_eq_true, if_true]
        by_cases accepted : next.p ≠ n ∨ isProbablePrime bases next.p
        · refine ⟨.factor next.p i, by simp only [accepted, if_true], ?_⟩
          rintro p j ⟨⟩
          obtain ⟨big, divides⟩ := gcd_proper d n next.p nonzero below isGcd one
          refine ⟨big, divides, fun same => ?_⟩
          rcases accepted with different | prime
          · exact absurd same different
          · rwa [same] at prime
        · exact ⟨.restart i, by simp only [accepted, if_false], fun _ _ same => by cases same⟩

theorem draw_up_to_zero (random n : Int512) (zero : n.val = 0) : drawUpTo random n = none := by
  have none := (mod_zero random n).mpr zero
  simp only [drawUpTo, none, bind, Option.bind_none]

omit [LawfulDivider] in
theorem draw_value (random n r : Int512) (reduced : random.mod n = some r) (below : r.val.natAbs < n.val.natAbs) :
    ∃ a, drawUpTo random n = some a ∧ a.val = r.val + 1 := by
  have bound := n.fits
  have sum : (r + 1).val = r.val + 1 := Int512.val_add r 1 (by simp only [Int512.val_one]; omega)
  exact ⟨r + 1, by simp only [drawUpTo, reduced, bind, Option.bind_some, pure], sum⟩

-- random_gen() is never negative, so the draw is in [1, |n|] for either sign of n.
theorem draw_up_to_range (random n : Int512) (nonneg : 0 ≤ random.val) (nonzero : n.val ≠ 0) :
    ∃ a, drawUpTo random n = some a ∧ 1 ≤ a.val ∧ a.val ≤ n.val.natAbs := by
  obtain ⟨r, reduced, below, low⟩ := mod_range random n nonzero
  obtain ⟨a, drawn, value⟩ := draw_value random n r reduced below
  have := low nonneg
  exact ⟨a, drawn, by omega, by omega⟩

theorem slice_zero (bases : Nat → Nat) (random n a cycles : Int512) (zero : n.val = 0) :
    slice bases random n a cycles = none := by
  simp only [slice, draw_up_to_zero random n zero, bind, Option.bind_none]

theorem slice_outcome (bases : Nat → Nat) (random n a cycles : Int512) (nonzero : n.val ≠ 0) :
    ∃ result, slice bases random n a cycles = some result ∧
      (∀ p i, result = .factor p i →
        2 ≤ p.val ∧ (ExactUpTo n → p.val ∣ n.val) ∧ (p = n → isProbablePrime bases n = true)) := by
  obtain ⟨r, reduced, _⟩ := mod_range random n nonzero
  simp only [slice, drawUpTo, reduced, bind, Option.bind_some, pure]
  exact rho_loop_outcome bases n a cycles _ nonzero maxIterations 0 _ _

end Outcome

end VsLab
