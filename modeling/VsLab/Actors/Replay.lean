import Mathlib.Data.List.Infix

set_option autoImplicit false

namespace Actors

section Record

variable {Item Seen : Type} (look : Item → List Seen)

def inOrder (newest : List Item) : List Seen := newest.reverse.flatMap look

@[simp] theorem in_order_nil : inOrder look [] = [] := rfl

@[simp] theorem in_order_cons (item : Item) (older : List Item) :
    inOrder look (item :: older) = inOrder look older ++ look item := by
  simp [inOrder]

theorem in_order_parts {Part : Type} (part : Item → List Part) (seen : Part → List Seen)
    (parts : ∀ item, look item = (part item).flatMap seen) (newest : List Item) :
    inOrder look newest = (inOrder part newest).flatMap seen := by
  induction newest with
  | nil => rfl
  | cons item older ih => rw [in_order_cons, in_order_cons, List.flatMap_append, ih, parts item]

end Record

section Order

variable {E M : Type} (enter : E → M)

-- The messages that have entered a mailbox, from their order: some outside messages
-- and, at the places marked none, the actor's own in the order it sends them.
def fill : List (Option E) → List M → List M
  | [], _ => []
  | some outside :: rest, own => enter outside :: fill rest own
  | none :: _, [] => []
  | none :: rest, msg :: own => msg :: fill rest own

def ownCount (order : List (Option E)) : Nat := order.countP Option.isNone

theorem fill_append (first second : List (Option E)) (own more : List M) (enough : ownCount first = own.length) :
    fill enter (first ++ second) (own ++ more) = fill enter first own ++ fill enter second more := by
  induction first generalizing own with
  | nil =>
      cases List.length_eq_zero_iff.mp enough.symm
      rfl
  | cons entry rest ih =>
      cases entry with
      | some outside => exact congrArg (enter outside :: ·) (ih own (by simpa [ownCount] using enough))
      | none =>
          cases own with
          | nil => simp [ownCount] at enough
          | cons msg own => exact congrArg (msg :: ·) (ih own (by simpa [ownCount] using enough))

theorem fill_own (msgs : List M) : fill enter (msgs.map fun _ => none) msgs = msgs := by
  induction msgs with
  | nil => rfl
  | cons msg rest ih => exact congrArg (msg :: ·) ih

@[simp] theorem own_count_append (first second : List (Option E)) :
    ownCount (first ++ second) = ownCount first + ownCount second := List.countP_append

theorem own_count_own (msgs : List M) : ownCount (msgs.map fun _ => (none : Option E)) = msgs.length := by
  simp [ownCount, List.countP_replicate]

theorem fill_mono (shorter longer : List (Option E)) (few more : List M) (earlier : shorter <+: longer) (less : few <+: more) :
    fill enter shorter few <+: fill enter longer more := by
  induction shorter generalizing longer few more with
  | nil => exact List.nil_prefix
  | cons entry rest ih =>
      obtain ⟨behind, rfl⟩ := earlier
      cases entry with
      | some outside => exact List.cons_prefix_cons.mpr ⟨rfl, ih _ few more (List.prefix_append rest behind) less⟩
      | none =>
          cases few with
          | nil => exact List.nil_prefix
          | cons msg few =>
              obtain ⟨others, rfl⟩ := less
              exact List.cons_prefix_cons.mpr ⟨rfl, ih _ few _ (List.prefix_append rest behind) (List.prefix_append few others)⟩

variable (sends : List M → List M) (goesOn : List M → Prop)

inductive Causal (order : List (Option E)) : List M → Prop where
  | nil : Causal order []
  | snoc (handled : List M) (msg : M) (earlier : Causal order handled) (on : goesOn handled)
      (entered : handled ++ [msg] <+: fill enter order (sends handled)) : Causal order (handled ++ [msg])

theorem causal_longer (shorter longer : List (Option E)) (earlier : shorter <+: longer) (handled : List M)
    (causal : Causal enter sends goesOn shorter handled) : Causal enter sends goesOn longer handled := by
  induction causal with
  | nil => exact .nil
  | snoc handled msg _ on entered ih =>
      exact .snoc handled msg ih on (entered.trans (fill_mono enter shorter longer _ _ earlier (List.prefix_refl _)))

theorem causal_next (order : List (Option E)) (handled : List M) (causal : Causal enter sends goesOn order handled)
    (first : List M) (msg : M) (before : first ++ [msg] <+: handled) :
    goesOn first ∧ first ++ [msg] <+: fill enter order (sends first) := by
  induction causal with
  | nil => simp at before
  | snoc handled last _ on entered ih =>
      rcases List.prefix_concat_iff.mp before with same | earlier
      · obtain ⟨rfl, last⟩ := List.append_inj' same rfl
        cases last
        exact ⟨on, entered⟩
      · exact ih earlier

theorem causal_agree (order : List (Option E)) (first second : List M) (one : Causal enter sends goesOn order first)
    (two : Causal enter sends goesOn order second) : first <+: second ∨ second <+: first := by
  induction one with
  | nil => exact .inl List.nil_prefix
  | snoc handled msg _ _ entered ih =>
      rcases ih with ⟨rest, rfl⟩ | shorter
      · cases rest with
        | nil => exact .inr (by simp)
        | cons other rest =>
            obtain ⟨_, also⟩ := causal_next enter sends goesOn order _ two handled other ⟨rest, by simp⟩
            have same := List.prefix_of_prefix_length_le entered also (by simp)
            exact .inl (same.trans ⟨rest, by simp⟩)
      · exact .inr (shorter.trans (List.prefix_append handled [msg]))

theorem causal_complete (order : List (Option E)) (first second : List M) (one : Causal enter sends goesOn order first)
    (two : Causal enter sends goesOn order second)
    (oneDone : goesOn first → fill enter order (sends first) = first)
    (twoDone : goesOn second → fill enter order (sends second) = second) : first = second := by
  have ended : ∀ shorter longer, Causal enter sends goesOn order longer →
      (goesOn shorter → fill enter order (sends shorter) = shorter) → shorter <+: longer → shorter = longer := by
    intro shorter longer causal done before
    obtain ⟨rest, rfl⟩ := before
    cases rest with
    | nil => simp
    | cons msg rest =>
        obtain ⟨on, entered⟩ := causal_next enter sends goesOn order _ causal shorter msg ⟨rest, by simp⟩
        rw [done on] at entered
        have short := entered.length_le
        rw [List.length_append, List.length_singleton] at short
        omega
  rcases causal_agree enter sends goesOn order first second one two with before | before
  · exact ended first second two oneDone before
  · exact (ended second first one twoDone before).symm

end Order

end Actors
