import VsLab.Rho

set_option autoImplicit false

namespace VsLab

def passHead (n a : Int512) : Nat → Int512 → Int512 → Option (Int512 × Int512)
  | 0, x, y => some (x, y)
  | k + 1, x, y => (rhoStep n a x y).bind fun next => passHead n a k next.x next.y

def passAt (n a : Int512) (k : Nat) (x y : Int512) : Option RhoStep :=
  (passHead n a k x y).bind fun head => rhoStep n a head.1 head.2

def leaving (bases : Nat → Nat) (n p : Int512) (i : Nat) : SliceEnd :=
  if p ≠ n ∨ isProbablePrime bases p then .factor p i else .restart i

def Coprime (n a : Int512) (k : Nat) (x y : Int512) : Prop := ∃ next, passAt n a k x y = some next ∧ next.p = 1

theorem pass_at_succ (n a x y : Int512) (k : Nat) (next : RhoStep) (stepped : rhoStep n a x y = some next) :
    passAt n a (k + 1) x y = passAt n a k next.x next.y := by
  rw [passAt, passHead, stepped, Option.bind_some, passAt]

theorem coprime_succ (n a x y : Int512) (k : Nat) (next : RhoStep) (stepped : rhoStep n a x y = some next) :
    Coprime n a (k + 1) x y ↔ Coprime n a k next.x next.y := by
  rw [Coprime, pass_at_succ n a x y k next stepped, Coprime]

theorem not_coprime (n a : Int512) (k : Nat) (x y : Int512) (next : RhoStep) (pass : passAt n a k x y = some next)
    (notOne : next.p ≠ 1) : ¬ Coprime n a k x y := by
  rintro ⟨other, found, one⟩
  cases pass.symm.trans found
  exact notOne one

theorem leaving_ends (bases : Nat → Nat) (n p : Int512) (i : Nat) :
    leaving bases n p i ≠ .giveUp ∧ leaving bases n p i ≠ .exhausted := by
  unfold leaving
  split <;> simp

inductive LoopEnd (bases : Nat → Nat) (n a cycles limit : Int512) (left i : Nat) (x y : Int512) (result : SliceEnd) :
    Prop where
  | leaves (k : Nat) (next : RhoStep) (inside : k < left) (before : ∀ j < k, Coprime n a j x y)
      (pass : passAt n a k x y = some next) (notOne : next.p ≠ 1) (early : 0 < k → cycles.val ≤ limit.val)
      (same : result = leaving bases n next.p (i + k))
  | givesUp (first : Coprime n a 0 x y) (some : 0 < left) (beyond : limit.val < cycles.val) (same : result = .giveUp)
  | runsOut (all : ∀ j < left, Coprime n a j x y) (below : 0 < left → cycles.val ≤ limit.val) (same : result = .exhausted)

theorem rho_loop_end (bases : Nat → Nat) (n a cycles limit : Int512) (nonzero : n.val ≠ 0) (left i : Nat) (x y : Int512) :
    ∃ result, rhoLoop bases n a cycles limit left i x y = some result ∧
      LoopEnd bases n a cycles limit left i x y result := by
  induction left generalizing i x y with
  | zero => exact ⟨.exhausted, rfl, .runsOut (fun j inside => absurd inside (Nat.not_lt_zero j)) (fun some => absurd some (lt_irrefl 0)) rfl⟩
  | succ left ih =>
      obtain ⟨next, stepped⟩ := rho_step_defined n a x y nonzero
      have first : passAt n a 0 x y = some next := stepped
      simp only [rhoLoop, stepped, bind, Option.bind_some]
      by_cases one : next.p = 1
      · simp only [one, ne_eq, not_true_eq_false, if_false]
        by_cases beyond : cycles > limit
        · simp only [beyond, if_true]
          exact ⟨.giveUp, rfl, .givesUp ⟨next, first, one⟩ (Nat.succ_pos left) beyond rfl⟩
        · simp only [beyond, if_false]
          have below : cycles.val ≤ limit.val := not_lt.mp beyond
          obtain ⟨result, looped, ended⟩ := ih (i + 1) next.x next.y
          refine ⟨result, looped, ?_⟩
          have earlier (k : Nat) (rest : ∀ j < k, Coprime n a j next.x next.y) :
              ∀ j < k + 1, Coprime n a j x y := by
            intro j inside
            cases j with
            | zero => exact ⟨next, first, one⟩
            | succ j => exact (coprime_succ n a x y j next stepped).mpr (rest j (by omega))
          cases ended with
          | leaves k last inside before pass notOne early same =>
              have index : i + 1 + k = i + (k + 1) := by omega
              rw [index] at same
              exact .leaves (k + 1) last (by omega) (earlier k before) (by rwa [pass_at_succ n a x y k next stepped]) notOne
                (fun _ => below) same
          | givesUp _ _ above _ => exact absurd above beyond
          | runsOut all _ same => exact .runsOut (earlier left all) (fun _ => below) same
      · simp only [one, ne_eq, not_false_eq_true, if_true]
        refine ⟨leaving bases n next.p i, ?_, .leaves 0 next (Nat.succ_pos left) (by simp) first one (by simp) rfl⟩
        unfold leaving
        split <;> rfl

theorem drawn_start (random n x : Int512) (low : 0 ≤ random.val) (positive : 0 < n.val) (drawn : drawUpTo random n = some x) :
    1 ≤ x.val ∧ x.val ≤ n.val ∧ x ≠ 0 := by
  obtain ⟨other, sameDraw, xLow, xHigh⟩ := draw_up_to_range random n low (by omega)
  cases drawn.symm.trans sameDraw
  refine ⟨xLow, by omega, ?_⟩
  rintro rfl
  rw [Int512.val_zero] at xLow
  omega

theorem slice_end (bases : Nat → Nat) (random n a cycles : Int512) (low : 0 ≤ random.val) (positive : 0 < n.val) :
    ∃ x result, drawUpTo random n = some x ∧ 1 ≤ x.val ∧ x.val ≤ n.val ∧ slice bases random n a cycles = some result ∧
      LoopEnd bases n a cycles (fourthRootLimit n) maxIterations 0 x x result := by
  obtain ⟨x, drawn, _⟩ := draw_up_to_range random n low (by omega)
  obtain ⟨xLow, xHigh, notZero⟩ := drawn_start random n x low positive drawn
  obtain ⟨result, looped, ended⟩ :=
    rho_loop_end bases n a cycles (fourthRootLimit n) (by omega) maxIterations 0 x x
  refine ⟨x, result, drawn, xLow, xHigh, ?_, ended⟩
  rw [slice_drawn bases random n a cycles x drawn notZero]
  exact looped

theorem any_start (n x : Int512) (xLow : 1 ≤ x.val) (xHigh : x.val ≤ n.val) :
    ∃ random, 0 ≤ random.val ∧ drawUpTo random n = some x := by
  have fits := x.fits
  obtain ⟨random, value⟩ : ∃ random : Int512, random.val = x.val - 1 := ⟨⟨x.val - 1, by omega⟩, rfl⟩
  obtain ⟨r, reduced, rValue⟩ := remainder_exact random n (short_divided random n (by omega))
  rw [value, Int.tmod_eq_of_lt (by omega) (by omega)] at rValue
  obtain ⟨start, drawn, startValue⟩ := draw_value random n r reduced (by omega)
  have same : start = x := Int512.ext_val start x (by omega)
  exact ⟨random, by omega, same ▸ drawn⟩

theorem slice_first_pass (bases : Nat → Nat) (random n a cycles x : Int512) (next : RhoStep) (low : 0 ≤ random.val)
    (positive : 0 < n.val) (drawn : drawUpTo random n = some x) (stepped : rhoStep n a x x = some next)
    (notOne : next.p ≠ 1) : slice bases random n a cycles = some (leaving bases n next.p 0) := by
  have notZero := (drawn_start random n x low positive drawn).2.2
  have looped (left : Nat) :
      rhoLoop bases n a cycles (fourthRootLimit n) (left + 1) 0 x x = some (leaving bases n next.p 0) := by
    simp only [rhoLoop, stepped, bind, Option.bind_some, notOne, ne_eq, not_false_eq_true, if_true, leaving]
    split <;> rfl
  rw [slice_drawn bases random n a cycles x drawn notZero]
  exact looped 999

section Limit

variable (bases : Nat → Nat) (random n a cycles x : Int512) (low : 0 ≤ random.val) (positive : 0 < n.val)
  (drawn : drawUpTo random n = some x)

include low positive drawn

theorem gives_up_iff : slice bases random n a cycles = some .giveUp ↔ 1 < cycles.val ∧ Coprime n a 0 x x := by
  obtain ⟨y, result, sameDraw, _, _, sliced, ended⟩ := slice_end bases random n a cycles low positive
  cases drawn.symm.trans sameDraw
  rw [sliced, Option.some.injEq]
  cases ended with
  | leaves k next inside before pass notOne early same =>
      refine ⟨fun gaveUp => absurd (same.symm.trans gaveUp) (leaving_ends bases n next.p (0 + k)).1, ?_⟩
      rintro ⟨beyond, first⟩
      by_cases late : 0 < k
      · have := early late
        rw [fourth_root_limit_one, Int512.val_one] at this
        omega
      · rw [show k = 0 by omega] at pass
        exact absurd first (not_coprime n a 0 x x next pass notOne)
  | givesUp first _ beyond same =>
      rw [fourth_root_limit_one, Int512.val_one] at beyond
      exact ⟨fun _ => ⟨beyond, first⟩, fun _ => same⟩
  | runsOut all below same =>
      have atMost := below (by decide)
      rw [fourth_root_limit_one, Int512.val_one] at atMost
      refine ⟨fun gaveUp => (by cases same.symm.trans gaveUp), ?_⟩
      rintro ⟨beyond, _⟩
      omega

theorem exhausted_iff :
    slice bases random n a cycles = some .exhausted ↔ cycles.val ≤ 1 ∧ ∀ j < maxIterations, Coprime n a j x x := by
  obtain ⟨y, result, sameDraw, _, _, sliced, ended⟩ := slice_end bases random n a cycles low positive
  cases drawn.symm.trans sameDraw
  rw [sliced, Option.some.injEq]
  cases ended with
  | leaves k next inside before pass notOne early same =>
      refine ⟨fun ranOut => absurd (same.symm.trans ranOut) (leaving_ends bases n next.p (0 + k)).2, ?_⟩
      rintro ⟨_, all⟩
      exact absurd (all k inside) (not_coprime n a k x x next pass notOne)
  | givesUp first _ beyond same =>
      rw [fourth_root_limit_one, Int512.val_one] at beyond
      refine ⟨fun ranOut => (by cases same.symm.trans ranOut), ?_⟩
      rintro ⟨below, _⟩
      omega
  | runsOut all below same =>
      have atMost := below (by decide)
      rw [fourth_root_limit_one, Int512.val_one] at atMost
      exact ⟨fun _ => ⟨atMost, all⟩, fun _ => same⟩

end Limit

end VsLab
