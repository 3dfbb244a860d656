import VsLab.Undisturbed
import VsLab.RhoArithmetic

set_option autoImplicit false

namespace VsLab

open Actors

def sliceStart (draw : Draw) (n : Int512) : Option (Int512 × Int512) :=
  (drawUpTo draw.random n).map fun x => if x = 0 then (x + 1, x + 1) else (x, x)

def OnlyOnes : Past → Prop
  | .handled env _ draw _ =>
      match env.msg with
      | .continuation n a _ _ _ => ∀ x y, sliceStart draw n = some (x, y) → ∀ j < maxIterations, Coprime n a j x y
      | _ => True
  | _ => True

structure Unsliced (actor sender : Address) (st : WorkerState) (n a x0 : Int512) (bases : Nat → Nat) (draws : Nat → Draw) :
    Prop where
  carries : ∀ k current cycles cpuTime history, (undisturbed actor sender st n).after draws (k + 2) =
      some (computing actor current n a cycles cpuTime history) → results actor history = [] →
    (∀ event ∈ history, OnlyOnes event) → sliceStart (draws (k + 2)) n = passHead n a (maxIterations * (k + 1)) x0 x0
  reports : ∀ k current cycles cpuTime history, (undisturbed actor sender st n).after draws (k + 1) =
      some (computing actor current n a cycles cpuTime history) → results actor history = [] →
    (∀ event ∈ history, OnlyOnes event) → ∀ p (total : Nat),
    (∃ i, slice (draws (k + 1)).bases (draws (k + 1)).random n a cycles = some (.factor p i) ∧
      (cycles + Int512.ofNat i).val = total) ↔
    total < maxIterations * (k + 1) ∧ ∃ left, rhoLoop bases n a 0 (fourthRootLimit n) left 0 x0 x0 = some (.factor p total)

theorem slice_start_drawn (draw : Draw) (n x : Int512) (positive : 0 < n.val) (drawn : drawUpTo draw.random n = some x) :
    sliceStart draw n = some (x, x) := by
  rw [sliceStart, drawn, Option.map_some, if_neg (drawn_start draw.random n x draw.nonneg positive drawn).2.2]

theorem loop_factor_iff (bases : Nat → Nat) (n a cycles limit x y p : Int512) (left t : Nat) (nonzero : n.val ≠ 0)
    (below : cycles.val ≤ limit.val) :
    rhoLoop bases n a cycles limit left 0 x y = some (.factor p t) ↔
      t < left ∧ (∀ j < t, Coprime n a j x y) ∧
        ∃ next, passAt n a t x y = some next ∧ next.p ≠ 1 ∧ leaving bases n next.p t = .factor p t := by
  obtain ⟨result, looped, ended⟩ := rho_loop_end bases n a cycles limit nonzero left 0 x y
  rw [looped, Option.some.injEq]
  cases ended with
  | leaves k next inside before pass notOne _ same =>
      rw [Nat.zero_add] at same
      constructor
      · intro found
        rw [same] at found
        have index : k = t := by
          unfold leaving at found
          split at found <;> cases found
          rfl
        subst index
        exact ⟨inside, before, next, pass, notOne, found⟩
      · rintro ⟨_, earlier, other, there, shared, found⟩
        have index : k = t := by
          rcases lt_trichotomy k t with first | equal | later
          · exact absurd (earlier k first) (not_coprime n a k x y next pass notOne)
          · exact equal
          · exact absurd (before t later) (not_coprime n a t x y other there shared)
        subst index
        cases pass.symm.trans there
        rw [same, found]
  | givesUp _ _ beyond _ => omega
  | runsOut all _ same =>
      constructor
      · intro found
        rw [same] at found
        cases found
      · rintro ⟨inside, _, other, there, shared, _⟩
        exact absurd (all t inside) (not_coprime n a t x y other there shared)

theorem pass_head_succ (n a : Int512) (k : Nat) (x y : Int512) (next : RhoStep) (pass : passAt n a k x y = some next) :
    passHead n a (k + 1) x y = some (next.x, next.y) := by
  induction k generalizing x y with
  | zero =>
      have stepped : rhoStep n a x y = some next := pass
      rw [passHead, stepped, Option.bind_some, passHead]
  | succ k ih =>
      cases stepped : rhoStep n a x y with
      | none =>
          rw [passAt, passHead, stepped] at pass
          cases pass
      | some first =>
          rw [pass_at_succ n a x y k first stepped] at pass
          rw [passHead, stepped, Option.bind_some]
          exact ih first.x first.y pass

-- The loop without slices never has x = y after a pass whose gcd is one; a slice
-- always begins so.
theorem carried_apart (n a x0 x : Int512) (positive : 0 < n.val) (aLow : 0 ≤ a.val) (xLow : 1 ≤ x.val)
    (ones : ∀ j < maxIterations, Coprime n a j x0 x0) : passHead n a maxIterations x0 x0 ≠ some (x, x) := by
  obtain ⟨next, pass, one⟩ := ones 999 (by decide)
  intro carried
  have ended : passHead n a (999 + 1) x0 x0 = some (next.x, next.y) := pass_head_succ n a 999 x0 x0 next pass
  have same := Option.some.inj (ended.symm.trans carried)
  obtain ⟨meet, meet'⟩ := Prod.mk.inj same
  obtain ⟨head, _, stepped⟩ := Option.bind_eq_some_iff.mp pass
  obtain ⟨_, _, _, xHigh, _⟩ := rho_step_parts n a head.1 head.2 next positive aLow stepped
  have whole := (meets_iff n a head.1 head.2 next positive aLow stepped).mpr (meet.trans meet'.symm)
  have unit : n.val = 1 := by rw [← whole, one, Int512.val_one]
  rw [meet] at xHigh
  omega

section Chain

variable (actor sender : Address) (st : WorkerState) (n a x0 : Int512) (draws : Nat → Draw) (positive : 0 < n.val)
  (aDrawn : drawUpTo (draws 0).random n = some a) (xDrawn : drawUpTo (draws 1).random n = some x0)

include positive aDrawn in
theorem first_slice_kept (k : Nat) (node : Box) (reached : (undisturbed actor sender st n).after draws (k + 2) = some node) :
    sliceEvent actor { st with stateId := st.stateId + 1 } n a 0 (draws 0).clock (draws 1) ∈ node.history := by
  induction k generalizing node with
  | zero =>
      obtain ⟨result, sliced, _⟩ := slice_outcome (draws 1).bases (draws 1).random n a 0 (by omega)
      have first := after_request actor sender st n a draws aDrawn
      cases (after_slice actor sender st _ n a 0 (draws 0).clock draws 1 _ result first sliced).symm.trans reached
      cases result <;> exact List.mem_cons_self
  | succ k ih =>
      obtain ⟨before, earlier, taken⟩ := Option.bind_eq_some_iff.mp reached
      obtain ⟨event, grown⟩ := Node.handle_recorded behaviour actor _ 0 before node taken
      rw [grown]
      exact List.mem_cons_of_mem _ (ih before earlier)

include positive xDrawn in
theorem first_slice_ones (cycles : Int512) (cpuTime : Clock) (current : WorkerState) :
    OnlyOnes (sliceEvent actor current n a cycles cpuTime (draws 1)) ↔ ∀ j < maxIterations, Coprime n a j x0 x0 := by
  have start := slice_start_drawn (draws 1) n x0 positive xDrawn
  constructor
  · intro ones
    exact ones x0 x0 start
  · intro ones x y other
    cases start.symm.trans other
    exact ones

include positive aDrawn xDrawn in
theorem unsliced_holds (bases : Nat → Nat) (sameBases : (draws 1).bases = bases)
    (seen : ∃ k < maxIterations, ¬ Coprime n a k x0 x0) : Unsliced actor sender st n a x0 bases draws := by
  have noSecond (k : Nat) (current : WorkerState) (cycles : Int512) (cpuTime : Clock) (history : List Past)
      (reached : (undisturbed actor sender st n).after draws (k + 2) = some (computing actor current n a cycles cpuTime history))
      (ones : ∀ event ∈ history, OnlyOnes event) : False := by
    have kept := first_slice_kept actor sender st n a draws positive aDrawn k _ reached
    obtain ⟨j, inside, shared⟩ := seen
    exact shared ((first_slice_ones actor n a x0 draws positive xDrawn _ _ _).mp (ones _ kept) j inside)
  refine ⟨?_, ?_⟩
  · intro k current cycles cpuTime history reached _ ones
    exact absurd ones (fun ones => noSecond k current cycles cpuTime history reached ones)
  · intro k current cycles cpuTime history reached _ ones p total
    cases k with
    | succ k => exact (noSecond k current cycles cpuTime history reached ones).elim
    | zero =>
        have first := after_request actor sender st n a draws aDrawn
        have isZero : cycles = 0 := by
          have same := Option.some.inj (first.symm.trans reached)
          simp only [computing, Node.mk.injEq, List.cons.injEq, Envelope.mk.injEq, Msg.continuation.injEq] at same
          exact same.2.1.1.2.2.2.2.2.1.symm
        have notZero := (drawn_start (draws 1).random n x0 (draws 1).nonneg positive xDrawn).2.2
        have sliced : slice (draws 1).bases (draws 1).random n a 0 =
            rhoLoop bases n a 0 (fourthRootLimit n) maxIterations 0 x0 x0 := by
          rw [slice_drawn _ _ n a 0 x0 xDrawn notZero, sameBases]
        have below : (0 : Int512).val ≤ (fourthRootLimit n).val := by
          rw [fourth_root_limit_one, Int512.val_zero, Int512.val_one]
          omega
        rw [isZero, sliced]
        constructor
        · rintro ⟨i, found, count⟩
          have inside := ((loop_factor_iff bases n a 0 _ x0 x0 p maxIterations i (by omega) below).mp found).1
          rw [count_value 0 i le_rfl (by rw [Int512.val_zero]; omega), Int512.val_zero] at count
          have index : i = total := by omega
          exact ⟨by omega, maxIterations, index ▸ found⟩
        · rintro ⟨inside, left, found⟩
          obtain ⟨_, found⟩ := (loop_factor_iff bases n a 0 _ x0 x0 p left total (by omega) below).mp found
          refine ⟨total, (loop_factor_iff bases n a 0 _ x0 x0 p maxIterations total (by omega) below).mpr ⟨by omega, found⟩, ?_⟩
          rw [count_value 0 total le_rfl (by rw [Int512.val_zero]; omega), Int512.val_zero, Int.zero_add]

include positive aDrawn xDrawn in
theorem unsliced_fails (bases : Nat → Nat) (ones : ∀ j < maxIterations, Coprime n a j x0 x0) :
    ¬ Unsliced actor sender st n a x0 bases draws := by
  intro unsliced
  have aLow := (drawn_start (draws 0).random n a (draws 0).nonneg positive aDrawn).1
  have sliced : slice (draws 1).bases (draws 1).random n a 0 = some .exhausted :=
    (exhausted_iff _ _ n a 0 x0 (draws 1).nonneg positive xDrawn).mpr ⟨by rw [Int512.val_zero]; omega, ones⟩
  have first := after_request actor sender st n a draws aDrawn
  have second := after_slice actor sender st _ n a 0 _ draws 1 _ _ first sliced
  obtain ⟨x, xAgain, _⟩ := draw_up_to_range (draws 2).random n (draws 2).nonneg (by omega)
  have xLow := (drawn_start (draws 2).random n x (draws 2).nonneg positive xAgain).1
  have carried := unsliced.carries 0 _ _ _ _ second ?_ ?_
  · rw [slice_start_drawn (draws 2) n x positive xAgain, Nat.mul_one] at carried
    exact carried_apart n a x0 x positive (by omega) xLow ones carried.symm
  · rw [results_cons, slice_results actor _ n a 0 _ (draws 1) _ sliced]
    exact request_results actor _ st n (draws 0) rfl
  · intro event member
    rcases List.mem_cons.mp member with rfl | earlier
    · exact (first_slice_ones actor n a x0 draws positive xDrawn _ _ _).mpr ones
    · rw [List.mem_singleton.mp earlier]
      trivial

end Chain

theorem unsliced_iff (actor sender : Address) (st : WorkerState) (n a x0 : Int512) (bases : Nat → Nat) (draws : Nat → Draw)
    (positive : 1 ≤ n.val) (aDrawn : drawUpTo (draws 0).random n = some a) (xDrawn : drawUpTo (draws 1).random n = some x0)
    (sameBases : (draws 1).bases = bases) :
    Unsliced actor sender st n a x0 bases draws ↔ ∃ k < maxIterations, ¬ Coprime n a k x0 x0 := by
  constructor
  · intro unsliced
    by_contra unseen
    have ones : ∀ j < maxIterations, Coprime n a j x0 x0 := by
      intro j inside
      by_contra shared
      exact unseen ⟨j, inside, shared⟩
    exact unsliced_fails actor sender st n a x0 draws (by omega) aDrawn xDrawn bases ones unsliced
  · intro seen
    exact unsliced_holds actor sender st n a x0 draws (by omega) aDrawn xDrawn bases sameBases seen

theorem unsliced_fifteen :
    1 ≤ (Int512.ofNat 15).val ∧ drawUpTo (drawing 0).random (Int512.ofNat 15) = some 1 ∧
      Unsliced (.worker 0 0) (.manager 0) ⟨.workers 0, 0⟩ (Int512.ofNat 15) 1 1 (drawing 0).bases (fun _ => drawing 0) := by
  have positive : 1 ≤ (Int512.ofNat 15).val := by decide +kernel
  have drawn : drawUpTo (drawing 0).random (Int512.ofNat 15) = some 1 := by decide +kernel
  have first : (rhoStep (Int512.ofNat 15) 1 1 1).map RhoStep.p = some (Int512.ofNat 3) := by decide +kernel
  refine ⟨positive, drawn, (unsliced_iff (.worker 0 0) (.manager 0) ⟨.workers 0, 0⟩ (Int512.ofNat 15) 1 1 (drawing 0).bases
    (fun _ => drawing 0) positive drawn drawn rfl).mpr ⟨0, by decide, ?_⟩⟩
  rintro ⟨next, pass, one⟩
  rw [passAt, passHead, Option.bind_some] at pass
  rw [pass, Option.map_some, Option.some.injEq, one] at first
  exact absurd first (by decide +kernel)

def longCycle : Int512 := Int512.ofNat (1000003 * 1000033)

theorem long_cycle_truncates (left : Nat) :
    rhoLoop (drawing 1).bases longCycle (Int512.ofNat 2) 0 (fourthRootLimit longCycle) left 0 (Int512.ofNat 2)
        (Int512.ofNat 2) =
      @rhoLoop truncating (drawing 1).bases longCycle (Int512.ofNat 2) 0 (fourthRootLimit longCycle) left 0
        (Int512.ofNat 2) (Int512.ofNat 2) :=
  CppInt.rho_loop_truncates longCycle (by decide +kernel) (by decide +kernel) (Int512.ofNat 2) (by decide +kernel)
    (by decide +kernel) _ _ _ left 0 (Int512.ofNat 2) (Int512.ofNat 2) (by decide +kernel) (by decide +kernel)
    (by decide +kernel) (by decide +kernel)

theorem long_cycle_found :
    rhoLoop (drawing 1).bases longCycle (Int512.ofNat 2) 0 (fourthRootLimit longCycle) 1285 0 (Int512.ofNat 2)
        (Int512.ofNat 2) =
      some (.factor (Int512.ofNat 1000033) 1284) := by
  rw [long_cycle_truncates]
  decide +kernel

theorem long_cycle_drawn : drawUpTo (drawing 1).random longCycle = some (Int512.ofNat 2) := by decide +kernel

theorem long_cycle_positive : 0 < longCycle.val := by decide +kernel

-- The factor lies behind the passes of one slice.
theorem long_cycle_sliced :
    slice (drawing 1).bases (drawing 1).random longCycle (Int512.ofNat 2) 0 = some .exhausted := by
  have below : (0 : Int512).val ≤ (fourthRootLimit longCycle).val := by decide +kernel
  obtain ⟨_, before, _⟩ := (loop_factor_iff _ longCycle _ _ _ _ _ _ _ _ long_cycle_positive.ne' below).mp long_cycle_found
  refine (exhausted_iff _ _ longCycle _ _ _ (drawing 1).nonneg long_cycle_positive long_cycle_drawn).mpr ⟨by decide, ?_⟩
  intro j inside
  exact before j (inside.trans (by decide))

theorem slices_start_over :
    rhoLoop (drawing 1).bases longCycle (Int512.ofNat 2) 0 (fourthRootLimit longCycle) 1285 0 (Int512.ofNat 2) (Int512.ofNat 2) =
        some (.factor (Int512.ofNat 1000033) 1284) ∧
      (∃ node, (undisturbed (.worker 0 0) (.manager 0) ⟨.workers 0, 0⟩ longCycle).after (fun _ => drawing 1) 3 = some node ∧
        results (.worker 0 0) node.history = [.nofactor 0]) ∧
      drawUpTo (drawing 1).random longCycle = some (Int512.ofNat 2) ∧
      ¬ Unsliced (.worker 0 0) (.manager 0) ⟨.workers 0, 0⟩ longCycle (Int512.ofNat 2) (Int512.ofNat 2) (drawing 1).bases
        (fun _ => drawing 1) := by
  have drawn := long_cycle_drawn
  have gaveUp : slice (drawing 1).bases (drawing 1).random longCycle (Int512.ofNat 2) (0 + Int512.ofNat maxIterations) =
      some .giveUp := by decide +kernel
  have first := after_request (.worker 0 0) (.manager 0) ⟨.workers 0, 0⟩ longCycle _ (fun _ => drawing 1) drawn
  have second := after_slice (.worker 0 0) (.manager 0) _ _ longCycle _ _ _ (fun _ => drawing 1) 1 _ _ first long_cycle_sliced
  have third := after_slice (.worker 0 0) (.manager 0) _ _ longCycle _ _ _ (fun _ => drawing 1) 2 _ _ second gaveUp
  refine ⟨long_cycle_found, ⟨_, third, ?_⟩, drawn, ?_⟩
  · rw [afterSlice, results_cons, slice_results _ _ longCycle _ _ _ _ _ gaveUp, results_cons,
      slice_results _ _ longCycle _ _ _ _ _ long_cycle_sliced, request_results _ _ _ longCycle _ rfl]
    rfl
  · exact unsliced_fails _ _ _ longCycle _ _ (fun _ => drawing 1) long_cycle_positive drawn drawn _
      ((exhausted_iff _ _ longCycle _ _ _ (drawing 1).nonneg long_cycle_positive drawn).mp long_cycle_sliced).2

end VsLab
