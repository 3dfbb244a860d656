import VsLab.WorkerReplay

set_option autoImplicit false

namespace VsLab

open Actors

section Tracking

structure Tracked (node : Box) : Prop where
  ids : ∀ st, current node = some st → st.stateId.val = requestsHandled node.history
  stale : ∀ st, current node = some st → ∀ env ∈ node.mailbox, belongs env = false →
    ∀ n a cycles cpuTime state, env.msg = .continuation n a cycles cpuTime state → state.val < st.stateId.val

theorem tracked_arrive (node : Box) (env : Mail) (tracked : Tracked node) (arrival : NoisyArrival node (.arrive env)) :
    Tracked (node.arrive env) := by
  rcases Node.arrive_cases env node with ⟨_, same⟩ | ⟨_, _, same⟩
  · rwa [same]
  · rw [same]
    refine ⟨fun st now => (tracked.ids st now).trans (by rw [requests_handled_quiet _ _ rfl]), ?_⟩
    intro st now other member foreign n a cycles cpuTime state carries
    rcases List.mem_append.mp member with old | new
    · exact tracked.stale st now other old foreign n a cycles cpuTime state carries
    · cases List.mem_singleton.mp new
      rcases arrival.2 with asks | noise
      · rw [carries] at asks
        cases asks
      · rw [carries] at noise
        exact noise st now

theorem stale_free (node : Box) (st : WorkerState) (env : Mail) (tracked : Tracked node) (now : current node = some st)
    (member : env ∈ node.mailbox) (foreign : belongs env = false) : consumes st env.msg = false := by
  cases carries : env.msg with
  | calculate n => simp [belongs, carries] at foreign
  | continuation n a cycles cpuTime state =>
      have lower := tracked.stale st now env member foreign n a cycles cpuTime state carries
      have different : state ≠ st.stateId := by
        intro same
        rw [same] at lower
        exact lt_irrefl _ lower
      simpa [consumes] using different
  | _ => rfl

theorem tracked_settle (actor : Address) (node : Box) (st : WorkerState) (draw : Draw) (tag : Nat) (env : Mail)
    (skipped behind : List Mail) (tracked : Tracked node) (takes : Takes node st env skipped behind)
    (few : requestsHandled (.handled env (.worker st) draw tag :: node.history) < modulus) :
    Tracked (Node.settle actor tag (Worker.react st draw env.msg) (skipped ++ behind)
      (.handled env (.worker st) draw tag :: node.history)) := by
  have own : current node = some st := (current_iff node st).mpr (.inr takes.status)
  have counts := tracked.ids st own
  -- The mailbox only gains messages of the worker's own, so a state_id that does not
  -- fall keeps what waits stale.
  have settled : ∀ later : WorkerState, st.stateId.val ≤ later.stateId.val →
      later.stateId.val = requestsHandled (.handled env (.worker st) draw tag :: node.history) →
      (Worker.react st draw env.msg).outcome = .become (.worker later) →
      Tracked (Node.settle actor tag (Worker.react st draw env.msg) (skipped ++ behind)
        (.handled env (.worker st) draw tag :: node.history)) := by
    intro later grows counted becomes
    have now : current (Node.settle actor tag (Worker.react st draw env.msg) (skipped ++ behind)
        (.handled env (.worker st) draw tag :: node.history)) = some later := by
      simp [current, Node.settle, becomes]
    refine ⟨?_, ?_⟩
    · intro other isOther
      cases now.symm.trans isOther
      rw [Node.settle_history, counted]
    · intro other isOther waiting member foreign n a cycles cpuTime state carries
      cases now.symm.trans isOther
      rcases Node.settle_mailbox actor tag _ _ _ waiting member with old | new
      · exact lt_of_lt_of_le (tracked.stale st own waiting (takes.kept waiting old) foreign n a cycles cpuTime state carries) grows
      · rw [own_belongs actor st draw env.msg tag waiting new] at foreign
        cases foreign
  have turn := Worker.react_turn st draw env.msg
  generalize cause : env.msg = msg at turn settled ⊢
  have quiet : asksFor msg = none → st.stateId.val = requestsHandled (.handled env (.worker st) draw tag :: node.history) := by
    intro other
    rw [counts, requests_handled_quiet _ _ (by rw [requested, cause]; exact other)]
  generalize Worker.react st draw msg = r at turn settled ⊢
  cases turn with
  | ignored _ noRequest _ => exact settled st le_rfl (quiet (asks_for_none msg noRequest)) rfl
  | raised _ n asked zero => exact ⟨by simp [current, Node.settle], by simp [current, Node.settle]⟩
  | began n a nonzero drawn =>
      have handled : requestsHandled (.handled env (.worker st) draw tag :: node.history) = requestsHandled node.history + 1 := by
        simp [requestsHandled, requested, cause, asksFor]
      have value : (st.stateId + 1).val = st.stateId.val + 1 :=
        Int512.val_add _ _ (by rw [Int512.val_one]; omega)
      refine settled { st with stateId := st.stateId + 1 } ?_ ?_ rfl
      · change st.stateId.val ≤ (st.stateId + 1).val
        omega
      · change (st.stateId + 1).val = _
        omega
  | found n a cycles cpuTime p i nonzero big divides tested sliced => exact settled st le_rfl (quiet rfl) rfl
  | went n a cycles later cpuTime nonzero => exact settled st le_rfl (quiet rfl) rfl
  | gaveUp n a cycles cpuTime nonzero sliced => exact settled st le_rfl (quiet rfl) rfl

theorem tracked_run (actor : Address) (grp : Group) (node : Box) (reached : (workerLts actor grp).Reach NoisyArrival node)
    (few : requestsHandled node.history < modulus) : Tracked node := by
  revert few
  refine reach_worker actor grp NoisyArrival (fun node => requestsHandled node.history < modulus → Tracked node) ?_ ?_ ?_ ?_
    node reached
  · intro _
    refine ⟨?_, ?_⟩
    · rintro st ⟨⟩
      rfl
    · intro _ _ env member
      cases member
  · intro node env holds arrival few
    refine tracked_arrive node env (holds ?_) arrival
    rcases Node.arrive_cases env node with ⟨_, same⟩ | ⟨_, _, same⟩
    · rwa [same] at few
    · rwa [same] at few
  · intro node st draw tag holds status few
    have tracked := holds few
    have same : current ⟨.running (.worker st), node.mailbox, .started (.worker st) draw tag :: node.history⟩ = current node := by
      simp [current, status]
    exact ⟨by rw [same]; exact tracked.ids, by rw [same]; exact tracked.stale⟩
  · intro node st draw tag env skipped behind _ holds _ takes few
    rw [Node.settle_history] at few
    have tracked := holds (lt_of_le_of_lt (requests_handled_mono _ _) few)
    exact tracked_settle actor node st draw tag env skipped behind tracked takes few

theorem calm_belongs (actor : Address) (grp : Group) (node : Box) (reached : (workerLts actor grp).Reach CalmArrival node) :
    ∀ env ∈ node.mailbox, belongs env = true := by
  refine reach_worker actor grp CalmArrival (fun node => ∀ env ∈ node.mailbox, belongs env = true) ?_ ?_ ?_ ?_ node reached
  · intro env member
    cases member
  · intro node env holds arrival other member
    rcases Node.arrive_mailbox env other node member with old | rfl
    · exact holds other old
    · have asks := arrival.2
      cases same : other.msg with
      | calculate n => simp [belongs, same]
      | _ =>
          rw [same] at asks
          cases asks
  · intro node st draw tag holds _
    exact holds
  · intro node st draw tag env skipped behind _ holds _ takes other member
    rcases Node.settle_mailbox actor tag _ _ _ other member with old | new
    · exact holds other (takes.kept other old)
    · exact own_belongs actor st draw env.msg tag other new

end Tracking

structure Shows (first second : List Past) (actor : Address) : Prop where
  sent : sentBy actor first <+: sentBy actor second
  ids : stateIds first <+: stateIds second
  draws : drawsUsed first <+: drawsUsed second

theorem follows_shows (actor : Address) (grp : Group) (draws : Nat → Draw) (first second : Box)
    (one : Follows actor grp draws first) (two : Follows actor grp draws second)
    (earlier : taken first.history <+: taken second.history) : Shows first.history second.history actor := by
  have rounds : inOrder roundOf first.history <+: inOrder roundOf second.history := by
    rw [one.rounds, two.rounds]
    exact replay_longer grp draws _ _ earlier
  refine ⟨?_, ?_, ?_⟩
  · rw [one.sent, two.sent]
    exact rounds.flatMap _
  · rw [ids_rounds, ids_rounds]
    exact rounds.flatMap _
  · rw [draws_rounds, draws_rounds]
    exact rounds.flatMap _

theorem follows_settled (actor : Address) (grp : Group) (draws : Nat → Draw) (node : Box)
    (follows : Follows actor grp draws node) (settled : Settled node) (goesOn : (replay grp draws (taken node.history)).1 ≠ none) :
    fill .calculate (order actor node.history) (ownSent (replay grp draws (taken node.history)).2) = taken node.history := by
  rcases settled with gone | ⟨⟨st, running⟩, rejected⟩
  · exact absurd (follows.ended gone) goesOn
  · rw [← follows.rounds, ← follows.filled, follows.queued (by simp [running]), ours_rejected node.mailbox rejected,
      List.append_nil]

theorem worker_ignores_noise (actor : Address) (grp : Group) (draws : Nat → Draw) (calm noisy : Box)
    (calmRun : (workerLts actor grp).Reach CalmArrival calm) (noisyRun : (workerLts actor grp).Reach NoisyArrival noisy)
    (calmDraws : Streams draws calm.history) (noisyDraws : Streams draws noisy.history)
    (few : requestsHandled noisy.history < modulus)
    (sameOrder : order actor calm.history <+: order actor noisy.history ∨ order actor noisy.history <+: order actor calm.history) :
    ((taken calm.history).length ≤ (taken noisy.history).length → Shows calm.history noisy.history actor) ∧
    ((taken noisy.history).length ≤ (taken calm.history).length → Shows noisy.history calm.history actor) ∧
    (order actor calm.history = order actor noisy.history → Settled calm → Settled noisy →
      sentBy actor calm.history = sentBy actor noisy.history ∧ stateIds calm.history = stateIds noisy.history ∧
        drawsUsed calm.history = drawsUsed noisy.history) := by
  have alone := follows_run actor grp draws CalmArrival calm_noisy (fun _ => True) (fun _ _ _ => trivial)
    (fun node st env reached _ _ member foreign => by
      rw [calm_belongs actor grp node reached env member] at foreign
      cases foreign) calm calmRun trivial calmDraws
  have amidst := follows_run actor grp draws NoisyArrival (fun _ _ arrival => arrival)
    (fun history => requestsHandled history < modulus)
    (fun event history few => lt_of_le_of_lt (requests_handled_mono event history) few)
    (fun node st env reached few now member foreign =>
      stale_free node st env (tracked_run actor grp node reached few) now member foreign) noisy noisyRun few noisyDraws
  have agree : taken calm.history <+: taken noisy.history ∨ taken noisy.history <+: taken calm.history := by
    rcases sameOrder with shorter | shorter
    · exact causal_agree _ _ _ _ _ _ (causal_longer _ _ _ _ _ shorter _ alone.causal) amidst.causal
    · exact causal_agree _ _ _ _ _ _ alone.causal (causal_longer _ _ _ _ _ shorter _ amidst.causal)
  refine ⟨?_, ?_, ?_⟩
  · intro fewer
    refine follows_shows actor grp draws calm noisy alone amidst ?_
    rcases agree with before | before
    · exact before
    · rw [before.eq_of_length_le fewer]
  · intro fewer
    refine follows_shows actor grp draws noisy calm amidst alone ?_
    rcases agree with before | before
    · rw [before.eq_of_length_le fewer]
    · exact before
  · intro equal calmDone noisyDone
    have same : taken calm.history = taken noisy.history := by
      refine causal_complete _ _ _ (order actor noisy.history) _ _ (equal ▸ alone.causal) amidst.causal ?_ ?_
      · rw [← equal]
        exact follows_settled actor grp draws calm alone calmDone
      · exact follows_settled actor grp draws noisy amidst noisyDone
    have forth := follows_shows actor grp draws calm noisy alone amidst (by rw [same])
    have back := follows_shows actor grp draws noisy calm amidst alone (by rw [same])
    exact ⟨forth.sent.eq_of_length_le back.sent.length_le, forth.ids.eq_of_length_le back.ids.length_le,
      forth.draws.eq_of_length_le back.draws.length_le⟩

theorem system_noisy (clients : List ClientArgs) (managers : List ManagerArgs) (allowed : Cluster → Move → Prop)
    (process index : Nat) (net : Cluster) (reached : (system clients managers).Reach allowed net) :
    net.node (.worker process index) = Node.vacant ∨
      (workerLts (.worker process index) (.workers process)).Reach NoisyArrival (net.node (.worker process index)) := by
  refine worker_alone clients managers allowed NoisyArrival process index ?_ (fun _ _ _ => trivial) (fun _ _ _ _ _ => trivial)
    net reached
  intro node env arrival _
  refine ⟨arrival.1, ?_⟩
  have other := arrival.2
  cases same : env.msg with
  | calculate n => exact .inl rfl
  | continuation n a cycles cpuTime state =>
      rw [same] at other
      cases other
  | _ => exact .inr rfl

section Runs

variable (actor : Address) (grp : Group) (alone : Box → LocalLabel Address Group Msg Draw → Prop)

theorem arrive_next (st : WorkerState) (mailbox : List Mail) (history : List Past) (env : Mail)
    (reached : (workerLts actor grp).Reach alone ⟨.running (.worker st), mailbox, history⟩)
    (allow : alone ⟨.running (.worker st), mailbox, history⟩ (.arrive env)) :
    (workerLts actor grp).Reach alone ⟨.running (.worker st), mailbox ++ [env], .arrived env :: history⟩ :=
  (workerLts actor grp).reach_step alone _ _ (.arrive env) reached allow rfl

theorem handle_next (st later : WorkerState) (skipped behind : List Mail) (env : Mail) (history : List Past) (draw : Draw)
    (effects : List Doing) (rejected : ∀ other ∈ skipped, Worker.accepts other.msg = false)
    (accepted : Worker.accepts env.msg = true)
    (reacts : Worker.react st draw env.msg = ⟨effects, .become (.worker later)⟩)
    (reached : (workerLts actor grp).Reach alone ⟨.running (.worker st), skipped ++ env :: behind, history⟩)
    (allow : alone ⟨.running (.worker st), skipped ++ env :: behind, history⟩ (.handle draw 0)) :
    (workerLts actor grp).Reach alone ⟨.running (.worker later), (skipped ++ behind) ++ selfSends actor 0 effects,
      .handled env (.worker st) draw 0 :: history⟩ := by
  refine (workerLts actor grp).reach_step alone _ _ (.handle draw 0) reached allow ?_
  change Node.handle behaviour actor draw 0 _ = _
  rw [worker_handles actor st draw 0 env skipped behind history rejected accepted, reacts]
  rfl

theorem started_worker (starts : ∀ node draw tag, alone node (.start draw tag)) :
    (workerLts actor grp).Reach alone
      ⟨.running (.worker ⟨grp, 0⟩), [], [.started (.worker ⟨grp, 0⟩) (drawing 0) 0]⟩ :=
  (workerLts actor grp).reach_step alone _ _ (.start (drawing 0) 0) .refl (starts _ _ _) rfl

end Runs

def asking : Mail := ⟨.manager 0, some (.workers 0), 0, .calculate (Int512.ofNat 15)⟩

def killing : Mail := ⟨.manager 0, some (.workers 0), 0, .suicide⟩

def goingOn (sender : Address) (via : Option Group) (state : Int512) : Mail :=
  ⟨sender, via, 0, .continuation (Int512.ofNat 15) 1 0 0 state⟩

theorem asked_round (st : WorkerState) : Worker.react st (drawing 0) asking.msg =
    ⟨[.send (.continuation (Int512.ofNat 15) 1 0 0 (st.stateId + 1))], .become (.worker { st with stateId := st.stateId + 1 })⟩ := by
  have drawn : drawUpTo (drawing 0).random (Int512.ofNat 15) = some 1 := by decide +kernel
  rw [asking, Worker.react, Worker.calculate, drawn]
  rfl

theorem answered_round (st : WorkerState) (sender : Address) (via : Option Group) :
    Worker.react st (drawing 0) (goingOn sender via st.stateId).msg =
      ⟨[.publish st.server (.factor (Int512.ofNat 3) 0 0)], .become (.worker st)⟩ := by
  have sliced : slice (drawing 0).bases (drawing 0).random (Int512.ofNat 15) 1 0 = some (.factor (Int512.ofNat 3) 0) := by
    decide +kernel
  have total : (0 : Int512) + Int512.ofNat 0 = 0 := by decide +kernel
  simp [goingOn, Worker.react, Worker.continuation, sliced, total]

section Wrapping

variable (actor : Address) (grp : Group)

@[simp] theorem arrived_effects (env : Mail) : Event.effects behaviour actor (.arrived env : Past) = [] := rfl

@[simp] theorem arrived_draw (env : Mail) : drawOf (.arrived env) = [] := rfl

@[simp] theorem started_draw (st : WorkerState) (draw : Draw) (tag : Nat) : drawOf (.started (.worker st) draw tag) = [] := rfl

@[simp] theorem arrived_order (env : Mail) : orderOf actor (.arrived env) = (asksFor env.msg).toList.map some := rfl

@[simp] theorem going_on_asks (sender : Address) (via : Option Group) (state : Int512) :
    asksFor (goingOn sender via state).msg = none := rfl

@[simp] theorem asked_effects (st : WorkerState) : Event.effects behaviour actor (.handled asking (.worker st) (drawing 0) 0) =
    [.send (.continuation (Int512.ofNat 15) 1 0 0 (st.stateId + 1))] :=
  congrArg (fun r : Step => r.effects) (asked_round st)

@[simp] theorem answered_effects (home : Group) (id : Int512) (sender : Address) (via : Option Group) :
    Event.effects behaviour actor (.handled (goingOn sender via id) (.worker ⟨home, id⟩) (drawing 0) 0) =
      [.publish home (.factor (Int512.ofNat 3) 0 0)] :=
  congrArg (fun r : Step => r.effects) (answered_round ⟨home, id⟩ sender via)

@[simp] theorem asked_draw (st : WorkerState) : drawOf (.handled asking (.worker st) (drawing 0) 0) = [drawing 0] := rfl

@[simp] theorem answered_draw (home : Group) (id : Int512) (sender : Address) (via : Option Group) :
    drawOf (.handled (goingOn sender via id) (.worker ⟨home, id⟩) (drawing 0) 0) = [drawing 0] := by
  simp [drawOf, goingOn, consumes]

@[simp] theorem asked_order (st : WorkerState) : orderOf actor (.handled asking (.worker st) (drawing 0) 0) = [none] := by
  simp [orderOf, ownOf]

@[simp] theorem answered_order (home : Group) (id : Int512) (sender : Address) (via : Option Group) :
    orderOf actor (.handled (goingOn sender via id) (.worker ⟨home, id⟩) (drawing 0) 0) = [] := by
  simp [orderOf, ownOf]

theorem drawn_cons (event : Past) (history : List Past) (latest : ∀ draw ∈ drawOf event, draw = drawing 0)
    (drawn : ∀ draw ∈ drawsUsed history, draw = drawing 0) : ∀ draw ∈ drawsUsed (event :: history), draw = drawing 0 := by
  intro draw member
  rw [drawsUsed, in_order_cons] at member
  rcases List.mem_append.mp member with old | new
  · exact drawn draw old
  · exact latest draw new

theorem answer_next (alone : Box → LocalLabel Address Group Msg Draw → Prop) (handles : ∀ node draw tag, alone node (.handle draw tag))
    (st : WorkerState) (history : List Past) (sender : Address) (via : Option Group) (skipped behind : List Mail)
    (rejected : ∀ other ∈ skipped, Worker.accepts other.msg = false)
    (reached : (workerLts actor grp).Reach alone
      ⟨.running (.worker st), skipped ++ goingOn sender via st.stateId :: behind, history⟩) :
    (workerLts actor grp).Reach alone ⟨.running (.worker st), skipped ++ behind,
      .handled (goingOn sender via st.stateId) (.worker st) (drawing 0) 0 :: history⟩ := by
  have next := handle_next actor grp alone st st skipped behind (goingOn sender via st.stateId) history (drawing 0) _ rejected rfl
    (answered_round st sender via) reached (handles _ _ _)
  simpa [selfSends] using next

theorem ask_next (alone : Box → LocalLabel Address Group Msg Draw → Prop) (handles : ∀ node draw tag, alone node (.handle draw tag))
    (st : WorkerState) (history : List Past) (skipped behind : List Mail)
    (rejected : ∀ other ∈ skipped, Worker.accepts other.msg = false)
    (reached : (workerLts actor grp).Reach alone ⟨.running (.worker st), skipped ++ asking :: behind, history⟩) :
    (workerLts actor grp).Reach alone ⟨.running (.worker { st with stateId := st.stateId + 1 }),
      skipped ++ behind ++ [goingOn actor none (st.stateId + 1)], .handled asking (.worker st) (drawing 0) 0 :: history⟩ :=
  handle_next actor grp alone st _ skipped behind asking history (drawing 0) _ rejected rfl (asked_round st) reached (handles _ _ _)

theorem of_nat_succ (k : Nat) : Int512.ofNat k + 1 = Int512.ofNat (k + 1) := by
  refine Int512.ext_val _ _ ?_
  change (((k : Int).tmod modulus) + 1).tmod modulus = (((k + 1 : Nat) : Int)).tmod modulus
  rw [← Int.ofNat_tmod, ← Int.natCast_one, ← Int.natCast_add, ← Int.ofNat_tmod, ← Int.ofNat_tmod, Nat.mod_add_mod]

theorem many_answers (k : Nat) : ∃ history,
    (workerLts actor grp).Reach CalmArrival ⟨.running (.worker ⟨grp, Int512.ofNat k⟩), [], history⟩ ∧
      ∀ draw ∈ drawsUsed history, draw = drawing 0 := by
  induction k with
  | zero =>
      have zero : Int512.ofNat 0 = 0 := by decide +kernel
      rw [zero]
      exact ⟨_, started_worker actor grp CalmArrival (fun _ _ _ => trivial), by simp [drawsUsed, drawOf]⟩
  | succ k ih =>
      obtain ⟨history, reached, drawn⟩ := ih
      have asked := arrive_next actor grp CalmArrival _ [] history asking reached ⟨rfl, rfl⟩
      have began := ask_next actor grp CalmArrival (fun _ _ _ => trivial) _ _ [] [] (by simp) asked
      have answered := answer_next actor grp CalmArrival (fun _ _ _ => trivial) _ _ actor none [] [] (by simp) began
      rw [← of_nat_succ]
      exact ⟨_, answered, drawn_cons _ _ (by simp) (drawn_cons _ _ (by simp) (drawn_cons _ _ (by simp) drawn))⟩

theorem about_to_wrap : ∃ top history, 0 < top.val ∧ top + 1 = 0 ∧
    (workerLts actor grp).Reach CalmArrival ⟨.running (.worker ⟨grp, top⟩), [], history⟩ ∧
      ∀ draw ∈ drawsUsed history, draw = drawing 0 := by
  obtain ⟨history, reached, drawn⟩ := many_answers actor grp (modulus - 1)
  have large := one_lt_modulus
  refine ⟨Int512.ofNat (modulus - 1), history, ?_, ?_, reached, drawn⟩
  · rw [Int512.ofNat, Int512.val_wrap_small _ (by omega)]
    omega
  · rw [of_nat_succ, Nat.sub_add_cancel (by omega)]
    refine Int512.ext_val _ _ ?_
    rw [Int512.ofNat, Int512.val_wrap, Int.tmod_self, Int512.val_zero]

theorem reach_noisy (node : Box) (reached : (workerLts actor grp).Reach CalmArrival node) :
    (workerLts actor grp).Reach NoisyArrival node :=
  (workerLts actor grp).reach_mono CalmArrival NoisyArrival calm_noisy node reached

theorem streams_constant (draw : Draw) (history : List Past) (drawn : ∀ other ∈ drawsUsed history, other = draw) :
    Streams (fun _ => draw) history := fun _ other found => drawn other (List.mem_of_getElem? found)

end Wrapping

section Fifteen

def askedOnce : Past := .handled asking (.worker ⟨.workers 0, 0⟩) (drawing 0) 0

def answeredOnce : Past := .handled (goingOn (.worker 0 0) none (0 + 1)) (.worker ⟨.workers 0, 0 + 1⟩) (drawing 0) 0

def staleMail : Mail := goingOn (.manager 0) (some (.workers 0)) 0

def calmFifteen : Box :=
  ⟨.running (.worker ⟨.workers 0, 0 + 1⟩), [],
    [answeredOnce, askedOnce, .arrived asking, .started (.worker ⟨.workers 0, 0⟩) (drawing 0) 0]⟩

def noisyFifteen : Box :=
  ⟨.running (.worker ⟨.workers 0, 0 + 1⟩), [killing],
    [.handled staleMail (.worker ⟨.workers 0, 0 + 1⟩) (drawing 0) 0, answeredOnce, .arrived staleMail, askedOnce,
      .arrived asking, .arrived killing, .started (.worker ⟨.workers 0, 0⟩) (drawing 0) 0]⟩

theorem calm_fifteen : (workerLts (.worker 0 0) (.workers 0)).Reach CalmArrival calmFifteen := by
  have begun := started_worker (.worker 0 0) (.workers 0) CalmArrival (fun _ _ _ => trivial)
  have asked := arrive_next (.worker 0 0) (.workers 0) CalmArrival _ [] _ asking begun ⟨rfl, rfl⟩
  have began := ask_next (.worker 0 0) (.workers 0) CalmArrival (fun _ _ _ => trivial) _ _ [] [] (by simp) asked
  exact answer_next (.worker 0 0) (.workers 0) CalmArrival (fun _ _ _ => trivial) _ _ (.worker 0 0) none [] [] (by simp) began

theorem noisy_fifteen : (workerLts (.worker 0 0) (.workers 0)).Reach NoisyArrival noisyFifteen := by
  have rejected : ∀ other ∈ [killing], Worker.accepts other.msg = false := by simp [killing, Worker.accepts]
  have quiet : Worker.react ⟨.workers 0, 0 + 1⟩ (drawing 0) staleMail.msg = ⟨[], .become (.worker ⟨.workers 0, 0 + 1⟩)⟩ :=
    react_quiet _ _ _ (by decide +kernel)
  have begun := started_worker (.worker 0 0) (.workers 0) NoisyArrival (fun _ _ _ => trivial)
  have noised := arrive_next (.worker 0 0) (.workers 0) NoisyArrival _ [] _ killing begun ⟨rfl, .inr rfl⟩
  have asked := arrive_next (.worker 0 0) (.workers 0) NoisyArrival _ _ _ asking noised ⟨rfl, .inl rfl⟩
  have began := ask_next (.worker 0 0) (.workers 0) NoisyArrival (fun _ _ _ => trivial) _ _ [killing] [] rejected asked
  have inserted := arrive_next (.worker 0 0) (.workers 0) NoisyArrival _ _ _ staleMail began
    ⟨rfl, .inr (by rintro st ⟨⟩; decide +kernel)⟩
  have answered := answer_next (.worker 0 0) (.workers 0) NoisyArrival (fun _ _ _ => trivial) _ _ (.worker 0 0) none [killing] _
    rejected inserted
  exact handle_next (.worker 0 0) (.workers 0) NoisyArrival _ _ [killing] [] _ _ (drawing 0) _ rejected rfl quiet answered trivial

end Fifteen

theorem worker_ignores_noise_fifteen : requestsHandled noisyFifteen.history < modulus ∧
    sentBy (.worker 0 0) calmFifteen.history = sentBy (.worker 0 0) noisyFifteen.history ∧
    stateIds calmFifteen.history = stateIds noisyFifteen.history ∧
    drawsUsed calmFifteen.history = drawsUsed noisyFifteen.history := by
  have few : requestsHandled noisyFifteen.history < modulus := by decide +kernel
  have ordered : order (.worker 0 0) calmFifteen.history = order (.worker 0 0) noisyFifteen.history := by decide +kernel
  have calmDraws : ∀ draw ∈ drawsUsed calmFifteen.history, draw = drawing 0 := by
    simp [calmFifteen, askedOnce, answeredOnce, drawsUsed]
  have stale : drawOf (.handled staleMail (.worker ⟨.workers 0, 0 + 1⟩) (drawing 0) 0) = [] := by
    rw [drawOf, if_neg (by decide +kernel)]
  have noisyDraws : ∀ draw ∈ drawsUsed noisyFifteen.history, draw = drawing 0 := by
    simp [noisyFifteen, askedOnce, answeredOnce, drawsUsed, stale]
  obtain ⟨_, _, same⟩ := worker_ignores_noise (.worker 0 0) (.workers 0) (fun _ => drawing 0) _ _ calm_fifteen noisy_fifteen
    (streams_constant _ _ calmDraws) (streams_constant _ _ noisyDraws) few (.inl (by rw [ordered]))
  exact ⟨few, same ordered (.inr ⟨⟨_, rfl⟩, by simp [calmFifteen]⟩)
    (.inr ⟨⟨_, rfl⟩, by simp [noisyFifteen, killing, Worker.accepts]⟩)⟩

-- After 2^512 requests the state_id is zero again: a continue with state zero, which
-- was lower when it arrived, is carried out.
theorem noise_wakes : ∃ calm noisy : Box, (workerLts (.worker 0 0) (.workers 0)).Reach CalmArrival calm ∧
    (workerLts (.worker 0 0) (.workers 0)).Reach NoisyArrival noisy ∧
    Streams (fun _ => drawing 0) calm.history ∧ Streams (fun _ => drawing 0) noisy.history ∧
    order (.worker 0 0) calm.history = order (.worker 0 0) noisy.history ∧ Settled calm ∧ Settled noisy ∧
    sentBy (.worker 0 0) noisy.history =
      sentBy (.worker 0 0) calm.history ++ [.publish (.workers 0) (.factor (Int512.ofNat 3) 0 0)] ∧
    (drawsUsed noisy.history).length = (drawsUsed calm.history).length + 1 := by
  obtain ⟨top, history, positive, wraps, reached, drawn⟩ := about_to_wrap (.worker 0 0) (.workers 0)
  have asked := arrive_next (.worker 0 0) (.workers 0) CalmArrival _ [] history asking reached ⟨rfl, rfl⟩
  have began := ask_next (.worker 0 0) (.workers 0) CalmArrival (fun _ _ _ => trivial) _ _ [] [] (by simp) asked
  rw [wraps] at began
  have calm := answer_next (.worker 0 0) (.workers 0) CalmArrival (fun _ _ _ => trivial) _ _ (.worker 0 0) none [] [] (by simp) began
  have same := reach_noisy (.worker 0 0) (.workers 0) _ asked
  have inserted := arrive_next (.worker 0 0) (.workers 0) NoisyArrival _ _ _ (goingOn (.manager 0) (some (.workers 0)) 0) same
    ⟨rfl, .inr (by rintro st ⟨⟩; exact positive)⟩
  have again := ask_next (.worker 0 0) (.workers 0) NoisyArrival (fun _ _ _ => trivial) _ _ [] _ (by simp) inserted
  rw [wraps] at again
  have woken := answer_next (.worker 0 0) (.workers 0) NoisyArrival (fun _ _ _ => trivial) _ _ (.manager 0) _ [] _ (by simp) again
  have noisy := answer_next (.worker 0 0) (.workers 0) NoisyArrival (fun _ _ _ => trivial) _ _ (.worker 0 0) none [] [] (by simp) woken
  have first := drawn_cons (.arrived asking) history (by simp) drawn
  refine ⟨_, _, calm, noisy, ?_, ?_, ?_, .inr ⟨⟨_, rfl⟩, by simp⟩, .inr ⟨⟨_, rfl⟩, by simp⟩, ?_, ?_⟩
  · exact streams_constant (drawing 0) _ (drawn_cons _ _ (by simp) (drawn_cons _ _ (by simp) first))
  · exact streams_constant (drawing 0) _ (drawn_cons _ _ (by simp) (drawn_cons _ _ (by simp) (drawn_cons _ _ (by simp)
      (drawn_cons _ _ (by simp) first))))
  · simp [order]
  · simp [sentBy]
  · simp [drawsUsed]

end VsLab
