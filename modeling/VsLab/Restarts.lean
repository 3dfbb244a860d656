import VsLab.Undisturbed
import VsLab.RhoExact
import VsLab.ProbablePrime

set_option autoImplicit false

namespace VsLab

open Actors

-- A start from which the map, in int512_t arithmetic, is at a fixed point after one
-- step, so that x and y meet at once.
def FixedStart (n a : Int512) : Prop :=
  ∃ x z : Int512, 1 ≤ x.val ∧ x.val ≤ n.val ∧ (x * x + a).mod n = some z ∧ (z * z + a).mod n = some z

def AlwaysCounts (n a : Int512) : Prop :=
  n.val = 1 ∨ (∀ bases, isProbablePrime bases n = true) ∨ ¬ FixedStart n a

section Starts

variable (n a : Int512) (positive : 0 < n.val) (aLow : 0 ≤ a.val)

include positive aLow

theorem restart_fixed (bases : Nat → Nat) (random cycles : Int512) (low : 0 ≤ random.val)
    (sliced : slice bases random n a cycles = some (.restart 0)) : ¬ AlwaysCounts n a := by
  obtain ⟨x, result, _, xLow, xHigh, defined, ended⟩ := slice_end bases random n a cycles low positive
  rw [sliced] at defined
  cases defined
  cases ended with
  | leaves k next _ _ pass notOne _ same =>
      obtain ⟨atOnce, whole, rejected⟩ := leaving_restart bases n next.p (0 + k) 0 same.symm
      rw [show k = 0 by omega] at pass
      have stepped : rhoStep n a x x = some next := pass
      obtain ⟨first, ⟨y1, again, second⟩, _⟩ := rho_step_parts n a x x next positive aLow stepped
      cases first.symm.trans again
      rw [← (meets_iff n a x x next positive aLow stepped).mp whole] at second
      rintro (one | prime | free)
      · exact notOne (Int512.ext_val next.p 1 (by rw [whole, one, Int512.val_one]))
      · rw [prime bases] at rejected
        cases rejected
      · exact free ⟨x, next.x, xLow, xHigh, first, second⟩
  | givesUp _ _ _ same => cases same
  | runsOut _ _ same => cases same

theorem fixed_restart (stuck : ¬ AlwaysCounts n a) :
    ∃ bases random, 0 ≤ random.val ∧ ∀ cycles, slice bases random n a cycles = some (.restart 0) := by
  obtain ⟨notOne, composite, fixed⟩ : n.val ≠ 1 ∧ (¬ ∀ bases, isProbablePrime bases n = true) ∧ ¬ ¬ FixedStart n a := by
    simpa only [AlwaysCounts, not_or] using stuck
  obtain ⟨bases, rejected⟩ := not_forall.mp composite
  obtain ⟨x, z, xLow, xHigh, first, second⟩ := not_not.mp fixed
  obtain ⟨random, low, drawn⟩ := any_start n x xLow xHigh
  obtain ⟨next, stepped⟩ := rho_step_defined n a x x (by omega)
  obtain ⟨firstAgain, ⟨y1, other, last⟩, _⟩ := rho_step_parts n a x x next positive aLow stepped
  cases first.symm.trans firstAgain
  cases first.symm.trans other
  have meet : next.x = next.y := Option.some.inj (second.symm.trans last)
  have whole : next.p = n := (meets_iff n a x x next positive aLow stepped).mpr meet
  have large : next.p ≠ 1 := fun one => notOne (by rw [← whole, one, Int512.val_one])
  refine ⟨bases, random, low, fun cycles => ?_⟩
  rw [slice_first_pass bases random n a cycles x next low positive drawn stepped large, leaving, whole, if_neg]
  simpa using rejected

end Starts

section Chain

variable (actor sender : Address) (st : WorkerState) (n a : Int512) (positive : 0 < n.val) (aLow : 1 ≤ a.val)

include positive aLow

theorem slice_counts_up (cycles : Int512) (draw : Draw) (result : SliceEnd) (counts : AlwaysCounts n a)
    (low : 0 ≤ cycles.val) (sliced : slice draw.bases draw.random n a cycles = some result) :
    (∃ p i, result = .factor p i) ∨ result = .giveUp ∨
      ∃ i, (result = .restart i ∨ (result = .exhausted ∧ i = maxIterations)) ∧ 0 < i ∧ cycles.val ≤ 1 ∧
        cycles.val + i ≤ 1 + maxIterations ∧ (cycles + Int512.ofNat i).val = cycles.val + i := by
  cases result with
  | factor p i => exact .inl ⟨p, i, rfl⟩
  | giveUp => exact .inr (.inl rfl)
  | restart i =>
      obtain ⟨inside, early⟩ := slice_restarts draw.bases draw.random n a cycles draw.nonneg positive i sliced
      have later : 0 < i := by
        by_contra atOnce
        rw [show i = 0 by omega] at sliced
        exact restart_fixed n a positive (by omega) draw.bases draw.random cycles draw.nonneg sliced counts
      have below := early later
      exact .inr (.inr ⟨i, .inl rfl, later, below, by omega, count_value cycles i low (by omega)⟩)
  | exhausted =>
      have below := slice_exhausts draw.bases draw.random n a cycles draw.nonneg positive sliced
      exact .inr (.inr ⟨maxIterations, .inr ⟨rfl, rfl⟩, by decide, below, by omega,
        count_value cycles maxIterations low (by omega)⟩)

theorem chain_step (draws : Nat → Draw) (counts : AlwaysCounts n a) (k : Nat) (current : WorkerState) (cycles : Int512)
    (cpuTime : Clock) (history : List Past) (low : 0 ≤ cycles.val)
    (reached : (undisturbed actor sender st n).after draws k = some (computing actor current n a cycles cpuTime history)) :
    ∃ node, (undisturbed actor sender st n).after draws (k + 1) = some node ∧ (results actor node.history ≠ [] ∨
      ∃ later older, node = computing actor current n a later cpuTime older ∧ cycles.val ≤ 1 ∧ cycles.val < later.val) := by
  obtain ⟨result, sliced, _⟩ := slice_outcome (draws k).bases (draws k).random n a cycles (by omega)
  have published := slice_results actor current n a cycles cpuTime (draws k) result sliced
  refine ⟨_, after_slice actor sender st current n a cycles cpuTime draws k history result reached sliced, ?_⟩
  rcases slice_counts_up n a positive aLow cycles (draws k) result counts low sliced with
    ⟨p, i, rfl⟩ | rfl | ⟨i, rfl | ⟨rfl, rfl⟩, later, below, _, value⟩
  · left
    rw [afterSlice, results_cons, published]
    simp [sliceResults]
  · left
    rw [afterSlice, results_cons, published]
    simp [sliceResults]
  · exact .inr ⟨_, _, rfl, below, by omega⟩
  · exact .inr ⟨_, _, rfl, below, by omega⟩

theorem chain_answers (draws : Nat → Draw) (counts : AlwaysCounts n a) (distance k : Nat) (current : WorkerState)
    (cycles : Int512) (cpuTime : Clock) (history : List Past) (low : 0 ≤ cycles.val) (far : 2 ≤ cycles.val + distance)
    (reached : (undisturbed actor sender st n).after draws k = some (computing actor current n a cycles cpuTime history)) :
    ∃ k node, (undisturbed actor sender st n).after draws k = some node ∧ results actor node.history ≠ [] := by
  induction distance generalizing k cycles history with
  | zero =>
      obtain ⟨node, next, sent | ⟨_, _, _, below, _⟩⟩ :=
        chain_step actor sender st n a positive aLow draws counts k current cycles cpuTime history low reached
      · exact ⟨k + 1, node, next, sent⟩
      · omega
  | succ distance ih =>
      obtain ⟨node, next, sent | ⟨later, older, rfl, _, more⟩⟩ :=
        chain_step actor sender st n a positive aLow draws counts k current cycles cpuTime history low reached
      · exact ⟨k + 1, node, next, sent⟩
      · exact ih (k + 1) later older (by omega) (by omega) next

omit positive aLow in
theorem chain_repeats (draws : Nat → Draw) (drawn : drawUpTo (draws 0).random n = some a)
    (restarts : ∀ k, slice (draws (k + 1)).bases (draws (k + 1)).random n a 0 = some (.restart 0)) (k : Nat) :
    ∃ history, results actor history = [] ∧ (undisturbed actor sender st n).after draws (k + 1) =
      some (computing actor { st with stateId := st.stateId + 1 } n a 0 (draws 0).clock history) := by
  have same : (0 : Int512) + Int512.ofNat 0 = 0 := Int512.ext_val _ _ (count_value 0 0 le_rfl (by rw [Int512.val_zero]; omega))
  induction k with
  | zero =>
      exact ⟨_, request_results actor ⟨sender, some st.server, 0, .calculate n⟩ st n (draws 0) rfl,
        after_request actor sender st n a draws drawn⟩
  | succ k ih =>
      obtain ⟨history, silent, reached⟩ := ih
      have next := after_slice actor sender st _ n a 0 (draws 0).clock draws (k + 1) history _ reached (restarts k)
      have published := slice_results actor { st with stateId := st.stateId + 1 } n a 0 (draws 0).clock (draws (k + 1)) _
        (restarts k)
      rw [afterSlice, same] at next
      refine ⟨_, ?_, next⟩
      rw [results_cons, published, silent]
      rfl

theorem chain_stuck (stuck : ¬ AlwaysCounts n a) (aHigh : a.val ≤ n.val) :
    ∃ draws : Nat → Draw, drawUpTo (draws 0).random n = some a ∧
      ∀ k node, (undisturbed actor sender st n).after draws k = some node → results actor node.history = [] := by
  obtain ⟨randomA, aRandom, aDrawn⟩ := any_start n a aLow aHigh
  obtain ⟨bases, random, low, restarts⟩ := fixed_restart n a positive (by omega) stuck
  let draws := repeating ⟨randomA, aRandom, 0, bases, fun _ => true⟩ ⟨random, low, 0, bases, fun _ => true⟩
  refine ⟨draws, aDrawn, ?_⟩
  intro k node reached
  cases k with
  | zero =>
      cases reached
      rfl
  | succ k =>
      obtain ⟨history, silent, waits⟩ := chain_repeats actor sender st n a draws aDrawn (fun _ => restarts 0) k
      cases waits.symm.trans reached
      exact silent

end Chain

theorem chain_finite_iff (actor sender : Address) (st : WorkerState) (n a : Int512) (positive : 1 ≤ n.val)
    (aLow : 1 ≤ a.val) (aHigh : a.val ≤ n.val) :
    ((∀ draws : Nat → Draw, drawUpTo (draws 0).random n = some a →
        ∃ k node, (undisturbed actor sender st n).after draws k = some node ∧ results actor node.history ≠ []) ∧
      ∀ node, (undisturbed actor sender st n).Reach Lts.anyStep node →
        ∀ current cycles cpuTime draw older later,
          (sliceEvent actor current n a cycles cpuTime draw :: older) <:+ node.history →
          .send (.continuation n a later cpuTime current.stateId) ∈
            (sliceEvent actor current n a cycles cpuTime draw).effects behaviour actor →
          cycles.val < later.val) ↔ AlwaysCounts n a := by
  constructor
  · rintro ⟨finite, _⟩
    by_contra stuck
    obtain ⟨draws, drawn, silent⟩ := chain_stuck actor sender st n a (by omega) aLow stuck aHigh
    obtain ⟨k, node, reached, sent⟩ := finite draws drawn
    exact sent (silent k node reached)
  · intro counts
    constructor
    · intro draws drawn
      exact chain_answers actor sender st n a (by omega) aLow draws counts 2 1 { st with stateId := st.stateId + 1 } 0
        (draws 0).clock _ le_rfl (by simp) (after_request actor sender st n a draws drawn)
    · intro node reached current cycles cpuTime draw older later suffix sent
      have chronicle := (undisturbed_run actor sender st n (by omega) node reached).1
      obtain ⟨_, _, carried, _⟩ := chronicle_slice actor current n a cycles cpuTime draw older _ chronicle suffix
      obtain ⟨result, sliced, _⟩ := slice_outcome draw.bases draw.random n a cycles (by omega)
      rw [slice_effects actor current n a cycles cpuTime draw result sliced] at sent
      rcases slice_counts_up n a (by omega) aLow cycles draw result counts (by omega) sliced with
        ⟨p, i, rfl⟩ | rfl | ⟨i, rfl | ⟨rfl, rfl⟩, more, _, _, value⟩
      · simp [sliceEffects] at sent
      · simp [sliceEffects] at sent
      · have same : later = cycles + Int512.ofNat i := by simpa [sliceEffects] using sent
        rw [same, value]
        omega
      · have same : later = cycles + Int512.ofNat maxIterations := by simpa [sliceEffects] using sent
        rw [same, value]
        omega

theorem chain_finite_seven :
    1 ≤ (Int512.ofNat 7).val ∧ (1 : Int512).val ≤ (Int512.ofNat 7).val ∧
      ∀ draws : Nat → Draw, drawUpTo (draws 0).random (Int512.ofNat 7) = some 1 →
        ∃ k node, (undisturbed (.worker 0 0) (.manager 0) ⟨.workers 0, 0⟩ (Int512.ofNat 7)).after draws k = some node ∧
          results (.worker 0 0) node.history ≠ [] := by
  have prime : (Int512.ofNat 7).val.toNat.Prime := by decide +kernel
  have counts : AlwaysCounts (Int512.ofNat 7) 1 :=
    .inr (.inl fun bases => probable_prime_passes bases _ prime (by decide +kernel))
  have positive : 1 ≤ (Int512.ofNat 7).val := by decide +kernel
  exact ⟨positive, positive, ((chain_finite_iff _ _ ⟨.workers 0, 0⟩ (Int512.ofNat 7) 1 positive le_rfl positive).mpr counts).1⟩

theorem chain_endless :
    drawUpTo (drawing 14).random (Int512.ofNat 15) = some (Int512.ofNat 15) ∧
      ∀ k, ∃ history, results (.worker 0 0) history = [] ∧
        (undisturbed (.worker 0 0) (.manager 0) ⟨.workers 0, 0⟩ (Int512.ofNat 15)).after (fun _ => drawing 14) (k + 1) =
          some (computing (.worker 0 0) ⟨.workers 0, 0 + 1⟩ (Int512.ofNat 15) (Int512.ofNat 15) 0 0 history) := by
  have drawn : drawUpTo (drawing 14).random (Int512.ofNat 15) = some (Int512.ofNat 15) := by decide +kernel
  have restarts : slice (drawing 14).bases (drawing 14).random (Int512.ofNat 15) (Int512.ofNat 15) 0 = some (.restart 0) := by
    decide +kernel
  exact ⟨drawn, fun k => chain_repeats (.worker 0 0) (.manager 0) ⟨.workers 0, 0⟩ (Int512.ofNat 15) (Int512.ofNat 15)
    (fun _ => drawing 14) drawn (fun _ => restarts) k⟩

end VsLab
