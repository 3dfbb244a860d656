import Mathlib.Logic.Relation

set_option autoImplicit false

namespace Actors

-- A system whose step is a partial function of a label. A label holds every
-- choice a run makes: the scheduler's, and what the environment answers.
structure Lts (S L : Type) where
  init : S
  step : S → L → Option S

namespace Lts

variable {S L : Type} (sys : Lts S L)

def Next (allowed : S → L → Prop) (s t : S) : Prop :=
  ∃ label, allowed s label ∧ sys.step s label = some t

def Reach (allowed : S → L → Prop) (s : S) : Prop :=
  Relation.ReflTransGen (sys.Next allowed) sys.init s

def anyStep : S → L → Prop := fun _ _ => True

instance anyStepDecidable (s : S) (label : L) : Decidable (anyStep s label) :=
  inferInstanceAs (Decidable True)

theorem reach_step (allowed : S → L → Prop) (s t : S) (label : L) (reached : sys.Reach allowed s)
    (allow : allowed s label) (taken : sys.step s label = some t) : sys.Reach allowed t :=
  Relation.ReflTransGen.tail reached ⟨label, allow, taken⟩

theorem reach_mono (allowed more : S → L → Prop) (weaker : ∀ s label, allowed s label → more s label) (s : S)
    (reached : sys.Reach allowed s) : sys.Reach more s := by
  refine Relation.ReflTransGen.mono ?_ _ _ reached
  rintro before after ⟨label, allow, taken⟩
  exact ⟨label, weaker before label allow, taken⟩

theorem reach_invariant (allowed : S → L → Prop) (inv : S → Prop) (initial : inv sys.init)
    (preserved : ∀ s label t, sys.Reach allowed s → inv s → allowed s label →
      sys.step s label = some t → inv t)
    (s : S) (reached : sys.Reach allowed s) : inv s := by
  induction reached with
  | refl => exact initial
  | tail before next ih =>
      obtain ⟨label, allow, taken⟩ := next
      exact preserved _ label _ before ih allow taken

def run (allowed : S → L → Prop) [∀ s label, Decidable (allowed s label)] : S → List L → Option S
  | s, [] => some s
  | s, label :: rest => if allowed s label then (sys.step s label).bind fun t => run allowed t rest else none

theorem run_from (allowed : S → L → Prop) [∀ s label, Decidable (allowed s label)] (labels : List L) (s t : S)
    (reached : sys.Reach allowed s) (done : sys.run allowed s labels = some t) : sys.Reach allowed t := by
  induction labels generalizing s with
  | nil =>
      cases done
      exact reached
  | cons label rest ih =>
      by_cases allow : allowed s label
      · rw [run, if_pos allow] at done
        obtain ⟨middle, taken, remaining⟩ := Option.bind_eq_some_iff.mp done
        exact ih middle (sys.reach_step allowed s middle label reached allow taken) remaining
      · rw [run, if_neg allow] at done
        cases done

theorem run_reach (allowed : S → L → Prop) [∀ s label, Decidable (allowed s label)] (labels : List L) (t : S)
    (done : sys.run allowed sys.init labels = some t) : sys.Reach allowed t :=
  sys.run_from allowed labels sys.init t .refl done

theorem run_finds (allowed : S → L → Prop) [∀ s label, Decidable (allowed s label)] (labels : List L)
    (test : S → Bool) (passed : (sys.run allowed sys.init labels).any test = true) :
    ∃ s, sys.Reach allowed s ∧ test s = true := by
  obtain ⟨s, done, good⟩ := (Option.any_eq_true test _).mp passed
  exact ⟨s, sys.run_reach allowed labels s done, good⟩

def after (labels : Nat → L) : Nat → Option S
  | 0 => some sys.init
  | k + 1 => (after labels k).bind fun s => sys.step s (labels k)

theorem after_succ (labels : Nat → L) (k : Nat) (s : S) (reached : sys.after labels k = some s) :
    sys.after labels (k + 1) = sys.step s (labels k) := by
  rw [after, reached, Option.bind_some]

theorem after_reach (labels : Nat → L) (k : Nat) (s : S) (reached : sys.after labels k = some s) :
    sys.Reach anyStep s := by
  induction k generalizing s with
  | zero =>
      cases reached
      exact .refl
  | succ k ih =>
      obtain ⟨before, earlier, taken⟩ := Option.bind_eq_some_iff.mp reached
      exact sys.reach_step anyStep before s (labels k) (ih before earlier) trivial taken

end Lts

end Actors
