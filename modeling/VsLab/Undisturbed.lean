import VsLab.WorkerRun
import VsLab.RhoPasses

set_option autoImplicit false

namespace VsLab

open Actors

-- A worker that has been asked for n and hears nothing more from its group: from
-- then on it only handles what it sends to itself. Its history starts here.
def undisturbed (actor sender : Address) (st : WorkerState) (n : Int512) : Lts Box Draw where
  init := ⟨.running (.worker st), [⟨sender, some st.server, 0, .calculate n⟩], []⟩
  step := fun node draw => node.handle behaviour actor draw 0

def repeating (first later : Draw) : Nat → Draw
  | 0 => first
  | _ + 1 => later

def computing (actor : Address) (st : WorkerState) (n a cycles : Int512) (cpuTime : Clock) (history : List Past) : Box :=
  ⟨.running (.worker st), [⟨actor, none, 0, .continuation n a cycles cpuTime st.stateId⟩], history⟩

def sliceEvent (actor : Address) (st : WorkerState) (n a cycles : Int512) (cpuTime : Clock) (draw : Draw) : Past :=
  .handled ⟨actor, none, 0, .continuation n a cycles cpuTime st.stateId⟩ (.worker st) draw 0

def afterSlice (actor : Address) (st : WorkerState) (n a cycles : Int512) (cpuTime : Clock) (history : List Past) :
    SliceEnd → Box
  | .factor _ _ => ⟨.running (.worker st), [], history⟩
  | .restart i => computing actor st n a (cycles + Int512.ofNat i) cpuTime history
  | .giveUp => ⟨.running (.worker st), [⟨actor, none, 0, .calculate n⟩], history⟩
  | .exhausted => computing actor st n a (cycles + Int512.ofNat maxIterations) cpuTime history

def sliceEffects (st : WorkerState) (n a cycles : Int512) (cpuTime : Clock) : SliceEnd → List Doing
  | .factor p i => [.publish st.server (.factor p (cycles + Int512.ofNat i) cpuTime)]
  | .restart i => [.send (.continuation n a (cycles + Int512.ofNat i) cpuTime st.stateId)]
  | .giveUp => [.publish st.server (.nofactor cpuTime), .send (.calculate n)]
  | .exhausted => [.send (.continuation n a (cycles + Int512.ofNat maxIterations) cpuTime st.stateId)]

def sliceResults (cycles : Int512) (cpuTime : Clock) : SliceEnd → List Msg
  | .factor p i => [.factor p (cycles + Int512.ofNat i) cpuTime]
  | .giveUp => [.nofactor cpuTime]
  | _ => []

def counted : Option SliceEnd → Nat
  | some (.factor _ i) => i
  | some (.restart i) => i
  | some .exhausted => maxIterations
  | _ => 0

def accumulated : List Past → Nat
  | [] => 0
  | event :: older =>
      match event with
      | .handled env _ draw _ =>
          match env.msg with
          | .calculate _ => 0
          | .continuation n a cycles _ _ => accumulated older + counted (slice draw.bases draw.random n a cycles)
          | _ => accumulated older
      | _ => accumulated older

theorem handle_only (actor : Address) (st : WorkerState) (env : Mail) (draw : Draw) (history : List Past)
    (accepted : Worker.accepts env.msg = true) :
    Node.handle behaviour actor draw 0 ⟨.running (.worker st), [env], history⟩ =
      some (Node.settle actor 0 (Worker.react st draw env.msg) [] (.handled env (.worker st) draw 0 :: history)) :=
  worker_handles actor st draw 0 env [] [] history (by simp) accepted

theorem request_step (actor : Address) (st : WorkerState) (env : Mail) (n a : Int512) (draw : Draw) (history : List Past)
    (asks : env.msg = .calculate n) (drawn : drawUpTo draw.random n = some a) :
    Node.handle behaviour actor draw 0 ⟨.running (.worker st), [env], history⟩ =
      some (computing actor { st with stateId := st.stateId + 1 } n a 0 draw.clock
        (.handled env (.worker st) draw 0 :: history)) := by
  rw [handle_only actor st env draw history (by rw [asks]; rfl), asks]
  simp only [Worker.react, Worker.calculate, drawn]
  rfl

theorem after_request (actor sender : Address) (st : WorkerState) (n a : Int512) (draws : Nat → Draw)
    (drawn : drawUpTo (draws 0).random n = some a) :
    (undisturbed actor sender st n).after draws 1 =
      some (computing actor { st with stateId := st.stateId + 1 } n a 0 (draws 0).clock
        [.handled ⟨sender, some st.server, 0, .calculate n⟩ (.worker st) (draws 0) 0]) := by
  rw [(undisturbed actor sender st n).after_succ draws 0 _ rfl]
  exact request_step actor st ⟨sender, some st.server, 0, .calculate n⟩ n a (draws 0) [] rfl drawn

theorem slice_step (actor : Address) (st : WorkerState) (n a cycles : Int512) (cpuTime : Clock) (draw : Draw)
    (history : List Past) (result : SliceEnd) (sliced : slice draw.bases draw.random n a cycles = some result) :
    Node.handle behaviour actor draw 0 (computing actor st n a cycles cpuTime history) =
      some (afterSlice actor st n a cycles cpuTime (sliceEvent actor st n a cycles cpuTime draw :: history) result) := by
  rw [computing, handle_only actor st _ draw history rfl]
  simp only [Worker.react, Worker.continuation, sliced, ne_eq, not_true_eq_false, if_false]
  cases result <;> rfl

theorem after_slice (actor sender : Address) (st current : WorkerState) (n a cycles : Int512) (cpuTime : Clock)
    (draws : Nat → Draw) (k : Nat) (history : List Past) (result : SliceEnd)
    (reached : (undisturbed actor sender st n).after draws k = some (computing actor current n a cycles cpuTime history))
    (sliced : slice (draws k).bases (draws k).random n a cycles = some result) :
    (undisturbed actor sender st n).after draws (k + 1) = some (afterSlice actor current n a cycles cpuTime
      (sliceEvent actor current n a cycles cpuTime (draws k) :: history) result) := by
  rw [(undisturbed actor sender st n).after_succ draws k _ reached]
  exact slice_step actor current n a cycles cpuTime (draws k) history result sliced

theorem request_results (actor : Address) (env : Mail) (st : WorkerState) (n : Int512) (draw : Draw)
    (asks : env.msg = .calculate n) : results actor [.handled env (.worker st) draw 0] = [] := by
  have effects : Event.effects behaviour actor (.handled env (.worker st) draw 0) =
      (Worker.calculate st draw n).effects := by
    change (Worker.react st draw env.msg).effects = _
    rw [asks, Worker.react]
  simp only [results, List.flatMap_cons, List.flatMap_nil, List.append_nil, effects, Worker.calculate]
  cases drawUpTo draw.random n <;> rfl

theorem slice_effects (actor : Address) (st : WorkerState) (n a cycles : Int512) (cpuTime : Clock) (draw : Draw)
    (result : SliceEnd) (sliced : slice draw.bases draw.random n a cycles = some result) :
    (sliceEvent actor st n a cycles cpuTime draw).effects behaviour actor = sliceEffects st n a cycles cpuTime result := by
  change (Worker.continuation st draw n a cycles cpuTime st.stateId).effects = _
  simp only [Worker.continuation, sliced, ne_eq, not_true_eq_false, if_false]
  cases result <;> rfl

theorem slice_results (actor : Address) (st : WorkerState) (n a cycles : Int512) (cpuTime : Clock) (draw : Draw)
    (result : SliceEnd) (sliced : slice draw.bases draw.random n a cycles = some result) :
    results actor [sliceEvent actor st n a cycles cpuTime draw] = sliceResults cycles cpuTime result := by
  simp only [results, List.flatMap_cons, List.flatMap_nil, List.append_nil,
    slice_effects actor st n a cycles cpuTime draw result sliced]
  cases result <;> rfl

theorem leaving_restart (bases : Nat → Nat) (n p : Int512) (k i : Nat) (left : leaving bases n p k = .restart i) :
    k = i ∧ p = n ∧ isProbablePrime bases n = false := by
  unfold leaving at left
  split at left
  · cases left
  · next rejected =>
      cases left
      rw [not_or, not_not] at rejected
      obtain ⟨rfl, composite⟩ := rejected
      exact ⟨rfl, rfl, by simpa using composite⟩

theorem counted_leaving (bases : Nat → Nat) (n p : Int512) (k : Nat) : counted (some (leaving bases n p k)) = k := by
  unfold leaving
  split <;> rfl

section Counting

variable (bases : Nat → Nat) (random n a cycles : Int512) (low : 0 ≤ random.val) (positive : 0 < n.val)

include low positive

theorem slice_restarts (i : Nat) (sliced : slice bases random n a cycles = some (.restart i)) :
    i < maxIterations ∧ (0 < i → cycles.val ≤ 1) := by
  obtain ⟨x, result, _, _, _, defined, ended⟩ := slice_end bases random n a cycles low positive
  rw [sliced] at defined
  cases defined
  cases ended with
  | leaves k next inside _ _ _ early same =>
      obtain ⟨rfl, _⟩ := leaving_restart bases n next.p (0 + k) i same.symm
      rw [Nat.zero_add]
      exact ⟨inside, early⟩
  | givesUp _ _ _ same => cases same
  | runsOut _ _ same => cases same

theorem slice_exhausts (sliced : slice bases random n a cycles = some .exhausted) : cycles.val ≤ 1 := by
  obtain ⟨x, drawn, _⟩ := draw_up_to_range random n low (by omega)
  exact ((exhausted_iff bases random n a cycles x low positive drawn).mp sliced).1

theorem slice_counts (result : SliceEnd) (sliced : slice bases random n a cycles = some result)
    (few : cycles.val ≤ 1 + maxIterations) : cycles.val + counted (some result) ≤ 1 + maxIterations := by
  obtain ⟨x, other, _, _, _, defined, ended⟩ := slice_end bases random n a cycles low positive
  rw [sliced] at defined
  cases defined
  have limit : (fourthRootLimit n).val = 1 := by rw [fourth_root_limit_one, Int512.val_one]
  cases ended with
  | leaves k next inside _ _ _ early same =>
      rw [same, counted_leaving, Nat.zero_add]
      by_cases first : k = 0
      · omega
      · have := early (by omega)
        omega
  | givesUp _ _ _ same =>
      have none : counted (some .giveUp) = 0 := rfl
      rw [same, none]
      omega
  | runsOut _ below same =>
      have := below (by decide)
      rw [same, counted]
      omega

end Counting

theorem count_value (cycles : Int512) (i : Nat) (low : 0 ≤ cycles.val) (small : cycles.val + i ≤ 1 + maxIterations) :
    (cycles + Int512.ofNat i).val = cycles.val + i := by
  have room : ((1 : Int) + maxIterations) < modulus := by decide +kernel
  have added : (Int512.ofNat i).val = i := Int512.val_wrap_small _ (by omega)
  rw [Int512.val_add _ _ (by rw [added]; omega), added]

inductive OwnEvent (actor : Address) (n : Int512) (older : List Past) : Past → Prop where
  | request (env : Mail) (st : WorkerState) (draw : Draw) (asks : env.msg = .calculate n) :
      OwnEvent actor n older (.handled env (.worker st) draw 0)
  | slice (st : WorkerState) (a cycles : Int512) (cpuTime : Clock) (draw : Draw) (aLow : 1 ≤ a.val) (aHigh : a.val ≤ n.val)
      (carried : cycles.val = accumulated older) (few : cycles.val ≤ 1 + maxIterations) :
      OwnEvent actor n older (sliceEvent actor st n a cycles cpuTime draw)

def Chronicle (actor : Address) (n : Int512) (history : List Past) : Prop :=
  ∀ event older, (event :: older) <:+ history → OwnEvent actor n older event

inductive Stage (actor : Address) (n : Int512) : Box → Prop where
  | asked (env : Mail) (st : WorkerState) (history : List Past) (asks : env.msg = .calculate n) :
      Stage actor n ⟨.running (.worker st), [env], history⟩
  | computing (st : WorkerState) (a cycles : Int512) (cpuTime : Clock) (history : List Past) (aLow : 1 ≤ a.val)
      (aHigh : a.val ≤ n.val) (carried : cycles.val = accumulated history) (few : cycles.val ≤ 1 + maxIterations) :
      Stage actor n (computing actor st n a cycles cpuTime history)
  | answered (st : WorkerState) (history : List Past) : Stage actor n ⟨.running (.worker st), [], history⟩

theorem chronicle_cons (actor : Address) (n : Int512) (event : Past) (history : List Past)
    (own : OwnEvent actor n history event) (before : Chronicle actor n history) : Chronicle actor n (event :: history) := by
  intro item older suffix
  rcases List.suffix_cons_iff.mp suffix with same | earlier
  · cases same
    exact own
  · exact before item older earlier

theorem chronicle_slice (actor : Address) (st : WorkerState) (n a cycles : Int512) (cpuTime : Clock) (draw : Draw)
    (older history : List Past) (chronicle : Chronicle actor n history)
    (suffix : (sliceEvent actor st n a cycles cpuTime draw :: older) <:+ history) :
    1 ≤ a.val ∧ a.val ≤ n.val ∧ cycles.val = accumulated older ∧ cycles.val ≤ 1 + maxIterations := by
  have own := chronicle _ older suffix
  generalize same : sliceEvent actor st n a cycles cpuTime draw = event at own
  cases own with
  | request env _ _ asks =>
      cases same
      cases asks
  | slice _ _ _ _ _ aLow aHigh carried few =>
      simp only [sliceEvent, Event.handled.injEq, Envelope.mk.injEq, Msg.continuation.injEq, true_and] at same
      obtain ⟨⟨rfl, rfl, _, _⟩, _⟩ := same
      exact ⟨aLow, aHigh, carried, few⟩

theorem accumulated_slice (actor : Address) (st : WorkerState) (n a cycles : Int512) (cpuTime : Clock) (draw : Draw)
    (history : List Past) : accumulated (sliceEvent actor st n a cycles cpuTime draw :: history) =
      accumulated history + counted (slice draw.bases draw.random n a cycles) := rfl

theorem accumulated_request (env : Mail) (st : WorkerState) (n : Int512) (draw : Draw) (history : List Past)
    (asks : env.msg = .calculate n) : accumulated (.handled env (.worker st) draw 0 :: history) = 0 := by
  simp only [accumulated, asks]

theorem stage_slice (actor : Address) (st : WorkerState) (n a cycles : Int512) (cpuTime : Clock) (draw : Draw)
    (history : List Past) (result : SliceEnd) (positive : 0 < n.val) (aLow : 1 ≤ a.val) (aHigh : a.val ≤ n.val)
    (carried : cycles.val = accumulated history) (few : cycles.val ≤ 1 + maxIterations)
    (sliced : slice draw.bases draw.random n a cycles = some result) :
    Stage actor n
      (afterSlice actor st n a cycles cpuTime (sliceEvent actor st n a cycles cpuTime draw :: history) result) := by
  have total := accumulated_slice actor st n a cycles cpuTime draw history
  have small := slice_counts draw.bases draw.random n a cycles draw.nonneg positive result sliced few
  rw [sliced] at total
  cases result with
  | factor p i => exact .answered st _
  | giveUp => exact .asked _ st _ rfl
  | restart i =>
      have value := count_value cycles i (by omega) small
      refine .computing st a _ cpuTime _ aLow aHigh ?_ (by rw [value]; exact small)
      rw [value, total, carried]
      rfl
  | exhausted =>
      have value := count_value cycles maxIterations (by omega) small
      refine .computing st a _ cpuTime _ aLow aHigh ?_ (by rw [value]; exact small)
      rw [value, total, carried]
      rfl

theorem undisturbed_run (actor sender : Address) (st : WorkerState) (n : Int512) (positive : 0 < n.val) (node : Box)
    (reached : (undisturbed actor sender st n).Reach Lts.anyStep node) : Chronicle actor n node.history ∧ Stage actor n node := by
  refine (undisturbed actor sender st n).reach_invariant Lts.anyStep
    (fun node => Chronicle actor n node.history ∧ Stage actor n node) ?_ ?_ node reached
  · refine ⟨?_, .asked _ st [] rfl⟩
    intro event older suffix
    cases List.suffix_nil.mp suffix
  · intro before draw after _ holds _ taken
    obtain ⟨chronicle, stage⟩ := holds
    cases stage with
    | asked env st history asks =>
        obtain ⟨a, drawn, _⟩ := draw_up_to_range draw.random n draw.nonneg (by omega)
        obtain ⟨aLow, aHigh, _⟩ := drawn_start draw.random n a draw.nonneg positive drawn
        have stepped := request_step actor st env n a draw history asks drawn
        cases stepped.symm.trans taken
        refine ⟨chronicle_cons actor n _ history (.request env st draw asks) chronicle, ?_⟩
        refine .computing _ a 0 draw.clock _ aLow aHigh ?_ (by rw [Int512.val_zero]; omega)
        rw [accumulated_request env st n draw history asks]
        rfl
    | computing st a cycles cpuTime history aLow aHigh carried few =>
        obtain ⟨result, sliced, _⟩ := slice_outcome draw.bases draw.random n a cycles (by omega)
        have stepped := slice_step actor st n a cycles cpuTime draw history result sliced
        cases stepped.symm.trans taken
        have grown : (afterSlice actor st n a cycles cpuTime (sliceEvent actor st n a cycles cpuTime draw :: history)
            result).history = sliceEvent actor st n a cycles cpuTime draw :: history := by cases result <;> rfl
        refine ⟨?_, stage_slice actor st n a cycles cpuTime draw history result positive aLow aHigh carried few sliced⟩
        rw [grown]
        exact chronicle_cons actor n _ history (.slice st a cycles cpuTime draw aLow aHigh carried few) chronicle
    | answered st history => cases taken

end VsLab
