import VsLab.Undisturbed
import Mathlib.Data.Nat.Sqrt
import Mathlib.Tactic.Ring

set_option autoImplicit false

namespace VsLab

open Actors

-- What the comment on limit promises: the largest r with r^4 at most n.
def fourthRoot (n : Nat) : Nat := Nat.sqrt (Nat.sqrt n)

theorem fourth_root_iff (r n : Nat) : r ≤ fourthRoot n ↔ r ^ 4 ≤ n := by
  have square : r ^ 4 = r * r * (r * r) := by ring
  rw [fourthRoot, Nat.le_sqrt, Nat.le_sqrt, square]

theorem slice_goes_on (actor : Address) (st : WorkerState) (n a cycles : Int512) (cpuTime : Clock) (draw : Draw)
    (nonzero : n.val ≠ 0) (goesOn : slice draw.bases draw.random n a cycles ≠ some .giveUp) :
    (∃ p total, .factor p total cpuTime ∈ results actor [sliceEvent actor st n a cycles cpuTime draw]) ∨
      ∃ later, .send (.continuation n a later cpuTime st.stateId) ∈
        (sliceEvent actor st n a cycles cpuTime draw).effects behaviour actor := by
  obtain ⟨result, sliced, _⟩ := slice_outcome draw.bases draw.random n a cycles nonzero
  have published := slice_results actor st n a cycles cpuTime draw result sliced
  have effects := slice_effects actor st n a cycles cpuTime draw result sliced
  cases result with
  | factor p i => exact .inl ⟨p, _, by rw [published]; exact List.mem_singleton_self _⟩
  | restart i => exact .inr ⟨_, by rw [effects]; exact List.mem_singleton_self _⟩
  | giveUp => exact absurd sliced goesOn
  | exhausted => exact .inr ⟨_, by rw [effects]; exact List.mem_singleton_self _⟩

theorem give_up_bound_iff (actor sender : Address) (st : WorkerState) (n : Int512) (positive : 1 ≤ n.val) (node : Box)
    (reached : (undisturbed actor sender st n).Reach Lts.anyStep node) :
    ((∀ event older cpuTime, (event :: older) <:+ node.history → .nofactor cpuTime ∈ results actor [event] →
        fourthRoot n.val.toNat < accumulated older) ∧
      ∀ current a cycles cpuTime draw older, (sliceEvent actor current n a cycles cpuTime draw :: older) <:+ node.history →
        accumulated older ≤ fourthRoot n.val.toNat →
        (∃ p total, .factor p total cpuTime ∈ results actor [sliceEvent actor current n a cycles cpuTime draw]) ∨
        ∃ later, .send (.continuation n a later cpuTime current.stateId) ∈
          (sliceEvent actor current n a cycles cpuTime draw).effects behaviour actor) ↔
    ∀ current a cycles cpuTime draw older x, (sliceEvent actor current n a cycles cpuTime draw :: older) <:+ node.history →
      drawUpTo draw.random n = some x → 1 < accumulated older → accumulated older ≤ fourthRoot n.val.toNat →
      ¬ Coprime n a 0 x x := by
  have chronicle := (undisturbed_run actor sender st n (by omega) node reached).1
  constructor
  · rintro ⟨bound, _⟩ current a cycles cpuTime draw older x suffix drawn beyond below first
    obtain ⟨_, _, carried, _⟩ := chronicle_slice actor current n a cycles cpuTime draw older _ chronicle suffix
    have gaveUp := (gives_up_iff draw.bases draw.random n a cycles x draw.nonneg (by omega) drawn).mpr ⟨by omega, first⟩
    have published := slice_results actor current n a cycles cpuTime draw .giveUp gaveUp
    have := bound _ older cpuTime suffix (by rw [published]; exact List.mem_singleton_self _)
    omega
  · intro spared
    have above (current : WorkerState) (a cycles : Int512) (cpuTime : Clock) (draw : Draw) (older : List Past)
        (suffix : (sliceEvent actor current n a cycles cpuTime draw :: older) <:+ node.history)
        (gaveUp : slice draw.bases draw.random n a cycles = some .giveUp) : fourthRoot n.val.toNat < accumulated older := by
      obtain ⟨_, _, carried, _⟩ := chronicle_slice actor current n a cycles cpuTime draw older _ chronicle suffix
      obtain ⟨x, drawn, _⟩ := draw_up_to_range draw.random n draw.nonneg (by omega)
      obtain ⟨beyond, first⟩ := (gives_up_iff draw.bases draw.random n a cycles x draw.nonneg (by omega) drawn).mp gaveUp
      by_contra below
      exact spared current a cycles cpuTime draw older x suffix drawn (by omega) (not_lt.mp below) first
    constructor
    · intro event older cpuTime suffix sent
      cases chronicle event older suffix with
      | request env current draw asks =>
          rw [request_results actor env current n draw asks] at sent
          cases sent
      | slice current a cycles ticks draw aLow aHigh carried few =>
          obtain ⟨result, sliced, _⟩ := slice_outcome draw.bases draw.random n a cycles (by omega)
          rw [slice_results actor current n a cycles ticks draw result sliced] at sent
          cases result with
          | giveUp => exact above current a cycles ticks draw older suffix sliced
          | factor p i => simp [sliceResults] at sent
          | restart i => cases sent
          | exhausted => cases sent
    · intro current a cycles cpuTime draw older suffix below
      refine slice_goes_on actor current n a cycles cpuTime draw (by omega) ?_
      intro gaveUp
      have := above current a cycles cpuTime draw older suffix gaveUp
      omega

theorem give_up_bound_two : ∃ node : Box,
    1 ≤ (Int512.ofNat 2).val ∧
      (undisturbed (.worker 0 0) (.manager 0) ⟨.workers 0, 0⟩ (Int512.ofNat 2)).Reach Lts.anyStep node ∧
      results (.worker 0 0) node.history = [.nofactor 0] ∧
      ∀ event older cpuTime, (event :: older) <:+ node.history → .nofactor cpuTime ∈ results (.worker 0 0) [event] →
        fourthRoot (Int512.ofNat 2).val.toNat < accumulated older := by
  obtain ⟨node, reached, passed⟩ :=
    (undisturbed (.worker 0 0) (.manager 0) ⟨.workers 0, 0⟩ (Int512.ofNat 2)).run_finds Lts.anyStep
      [drawing 0, drawing 0, drawing 0, drawing 0]
      (fun node => decide (results (.worker 0 0) node.history = [.nofactor 0])) (by decide +kernel)
  have sent := of_decide_eq_true passed
  have positive : 1 ≤ (Int512.ofNat 2).val := by decide +kernel
  have root : fourthRoot (Int512.ofNat 2).val.toNat = 1 := by decide +kernel
  refine ⟨node, positive, reached, sent, ?_⟩
  refine ((give_up_bound_iff _ _ ⟨.workers 0, 0⟩ (Int512.ofNat 2) positive node reached).mpr ?_).1
  intro _ _ _ _ _ older _ _ _ beyond below
  omega

theorem gives_up_at_two : ∃ (node : Box) (event : Past) (older : List Past),
    (undisturbed (.worker 0 0) (.manager 0) ⟨.workers 0, 0⟩ (Int512.ofNat 25)).Reach Lts.anyStep node ∧
      (event :: older) <:+ node.history ∧ .nofactor 0 ∈ results (.worker 0 0) [event] ∧
      accumulated older = 2 ∧ ¬ fourthRoot (Int512.ofNat 25).val.toNat < accumulated older := by
  obtain ⟨node, reached, passed⟩ :=
    (undisturbed (.worker 0 0) (.manager 0) ⟨.workers 0, 0⟩ (Int512.ofNat 25)).run_finds Lts.anyStep
      [drawing 0, drawing 0, drawing 0]
      (fun node => decide (∃ event ∈ node.history.head?, .nofactor 0 ∈ results (.worker 0 0) [event] ∧
        accumulated node.history.tail = 2)) (by decide +kernel)
  obtain ⟨event, first, sent, total⟩ := of_decide_eq_true passed
  obtain ⟨older, split⟩ := List.head?_eq_some_iff.mp first
  have root : fourthRoot (Int512.ofNat 25).val.toNat = 2 := by decide +kernel
  rw [split, List.tail_cons] at total
  exact ⟨node, event, older, reached, split ▸ List.suffix_refl _, sent, total, by omega⟩

end VsLab
