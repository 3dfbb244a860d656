import VsLab.Protocol

set_option autoImplicit false

namespace VsLab.Worker

def accepts : Msg → Bool
  | .calculate _ => true
  | .continuation .. => true
  | _ => false

section Behaviour

variable [Divider]

def calculate (st : WorkerState) (draw : Draw) (n : Int512) : Step :=
  match drawUpTo draw.random n with
  | none => ⟨[], .raise⟩
  | some a =>
      ⟨[.send (.continuation n a 0 draw.clock (st.stateId + 1))],
        .become (.worker { st with stateId := st.stateId + 1 })⟩

def continuation (st : WorkerState) (draw : Draw) (n a cycles : Int512) (cpuTime : Clock) (state : Int512) : Step :=
  if state ≠ st.stateId then ⟨[], .become (.worker st)⟩
  else
    match slice draw.bases draw.random n a cycles with
    | none => ⟨[], .raise⟩
    | some (.factor p i) =>
        ⟨[.publish st.server (.factor p (cycles + Int512.ofNat i) cpuTime)], .become (.worker st)⟩
    | some (.restart i) =>
        ⟨[.send (.continuation n a (cycles + Int512.ofNat i) cpuTime state)], .become (.worker st)⟩
    | some .giveUp =>
        ⟨[.publish st.server (.nofactor cpuTime), .send (.calculate n)], .become (.worker st)⟩
    | some .exhausted =>
        ⟨[.send (.continuation n a (cycles + Int512.ofNat maxIterations) cpuTime state)], .become (.worker st)⟩

def react (st : WorkerState) (draw : Draw) : Msg → Step
  | .calculate n => calculate st draw n
  | .continuation n a cycles cpuTime state => continuation st draw n a cycles cpuTime state
  | _ => ⟨[], .become (.worker st)⟩

end Behaviour

section Turns

variable [Divider]

inductive Turn (st : WorkerState) (draw : Draw) : Msg → Step → Prop where
  | ignored (msg : Msg) (noRequest : ∀ n, msg ≠ .calculate n)
      (stale : ∀ n a cycles cpuTime, msg ≠ .continuation n a cycles cpuTime st.stateId) :
      Turn st draw msg ⟨[], .become (.worker st)⟩
  | raised (msg : Msg) (n : Int512) (asked : msg = .calculate n ∨ ∃ a cycles cpuTime,
      msg = .continuation n a cycles cpuTime st.stateId) (zero : n.val = 0) : Turn st draw msg ⟨[], .raise⟩
  | began (n a : Int512) (nonzero : n.val ≠ 0) (drawn : drawUpTo draw.random n = some a) :
      Turn st draw (.calculate n) ⟨[.send (.continuation n a 0 draw.clock (st.stateId + 1))],
        .become (.worker { st with stateId := st.stateId + 1 })⟩
  | found (n a cycles : Int512) (cpuTime : Clock) (p : Int512) (i : Nat) (nonzero : n.val ≠ 0)
      (big : 2 ≤ p.val) (divides : ExactUpTo n → p.val ∣ n.val) (tested : p = n → isProbablePrime draw.bases n = true)
      (sliced : slice draw.bases draw.random n a cycles = some (.factor p i)) :
      Turn st draw (.continuation n a cycles cpuTime st.stateId)
        ⟨[.publish st.server (.factor p (cycles + Int512.ofNat i) cpuTime)], .become (.worker st)⟩
  | went (n a cycles later : Int512) (cpuTime : Clock) (nonzero : n.val ≠ 0) :
      Turn st draw (.continuation n a cycles cpuTime st.stateId)
        ⟨[.send (.continuation n a later cpuTime st.stateId)], .become (.worker st)⟩
  | gaveUp (n a cycles : Int512) (cpuTime : Clock) (nonzero : n.val ≠ 0)
      (sliced : slice draw.bases draw.random n a cycles = some .giveUp) :
      Turn st draw (.continuation n a cycles cpuTime st.stateId)
        ⟨[.publish st.server (.nofactor cpuTime), .send (.calculate n)], .become (.worker st)⟩

variable [LawfulDivider]

theorem calculate_turn (st : WorkerState) (draw : Draw) (n : Int512) :
    Turn st draw (.calculate n) (calculate st draw n) := by
  by_cases zero : n.val = 0
  · rw [calculate, draw_up_to_zero draw.random n zero]
    exact .raised _ n (.inl rfl) zero
  · obtain ⟨a, drawn, _⟩ := draw_up_to_range draw.random n draw.nonneg zero
    rw [calculate, drawn]
    exact .began n a zero drawn

theorem continuation_turn (st : WorkerState) (draw : Draw) (n a cycles : Int512) (cpuTime : Clock) (state : Int512) :
    Turn st draw (.continuation n a cycles cpuTime state) (continuation st draw n a cycles cpuTime state) := by
  by_cases live : state = st.stateId
  · subst live
    rw [continuation, if_neg (by simp)]
    by_cases zero : n.val = 0
    · rw [slice_zero draw.bases draw.random n a cycles zero]
      exact .raised _ n (.inr ⟨a, cycles, cpuTime, rfl⟩) zero
    · obtain ⟨result, sliced, sound⟩ := slice_outcome draw.bases draw.random n a cycles zero
      rw [sliced]
      cases result with
      | factor p i =>
          obtain ⟨big, divides, tested⟩ := sound p i rfl
          exact .found n a cycles cpuTime p i zero big divides tested sliced
      | restart i => exact .went n a cycles _ cpuTime zero
      | giveUp => exact .gaveUp n a cycles cpuTime zero sliced
      | exhausted => exact .went n a cycles _ cpuTime zero
  · rw [continuation, if_pos live]
    refine .ignored _ (by simp) ?_
    rintro n a cycles cpuTime ⟨⟩
    exact live rfl

theorem react_turn (st : WorkerState) (draw : Draw) (msg : Msg) : Turn st draw msg (react st draw msg) := by
  cases msg with
  | calculate n => exact calculate_turn st draw n
  | continuation n a cycles cpuTime state => exact continuation_turn st draw n a cycles cpuTime state
  | factor p cycles cpuTime => exact .ignored _ (by simp) (by simp)
  | nofactor cpuTime => exact .ignored _ (by simp) (by simp)
  | sWorkers => exact .ignored _ (by simp) (by simp)
  | kWorkers => exact .ignored _ (by simp) (by simp)
  | suicide => exact .ignored _ (by simp) (by simp)
  | ping => exact .ignored _ (by simp) (by simp)
  | pong => exact .ignored _ (by simp) (by simp)
  | result => exact .ignored _ (by simp) (by simp)
  | quit => exact .ignored _ (by simp) (by simp)

end Turns

end VsLab.Worker
