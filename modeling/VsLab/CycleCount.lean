import VsLab.Undisturbed
import VsLab.RhoExact
import VsLab.SharedGroup

set_option autoImplicit false

namespace VsLab

open Actors

def bodyRuns (draw : Draw) (n a cycles : Int512) : Nat := (slicePasses draw.random n a cycles).length

def restarted : Option SliceEnd → Nat
  | some (.restart _) => 1
  | _ => 0

-- The slices behind a continue that a worker has sent itself, back to the calculate
-- that started them. The tag ties a message to the step that sent it.
inductive Computation (actor : Address) (history : List Past) : Mail → Nat → Nat → Prop where
  | begun (env : Mail) (st : WorkerState) (draw : Draw) (tag : Nat) (n : Int512) (msg : Msg)
      (happened : .handled env (.worker st) draw tag ∈ history) (asks : env.msg = .calculate n)
      (sends : .send msg ∈ (Worker.react st draw env.msg).effects) : Computation actor history ⟨actor, none, tag, msg⟩ 0 0
  | continued (env : Mail) (st : WorkerState) (draw : Draw) (tag : Nat) (n a cycles : Int512) (cpuTime : Clock)
      (state : Int512) (msg : Msg) (executions restarts : Nat)
      (earlier : Computation actor history env executions restarts)
      (happened : .handled env (.worker st) draw tag ∈ history) (carries : env.msg = .continuation n a cycles cpuTime state)
      (sends : .send msg ∈ (Worker.react st draw env.msg).effects) (goesOn : isContinue msg = true) :
      Computation actor history ⟨actor, none, tag, msg⟩ (executions + bodyRuns draw n a cycles)
        (restarts + restarted (slice draw.bases draw.random n a cycles))

def Behind (net : Cluster) (env : Mail) (executions restarts : Nat) : Prop :=
  ∃ process index last st draw n a cycles cpuTime state before,
    .handled last (.worker st) draw env.tag ∈ (net.node (.worker process index)).history ∧
      Computation (.worker process index) (net.node (.worker process index)).history last before restarts ∧
      last.msg = .continuation n a cycles cpuTime state ∧
      .publish st.server env.msg ∈ (Worker.react st draw last.msg).effects ∧ executions = before + bodyRuns draw n a cycles

section Passes

def Ran (left i passes : Nat) : SliceEnd → Prop
  | .factor _ j => i + passes = j + 1
  | .restart j => i + passes = j + 1
  | .exhausted => passes = left
  | .giveUp => True

theorem rho_loop_ran (bases : Nat → Nat) (n a cycles limit : Int512) (left i : Nat) (x y : Int512) (result : SliceEnd)
    (looped : rhoLoop bases n a cycles limit left i x y = some result) :
    Ran left i (rhoPasses n a cycles limit left x y).length result := by
  induction left generalizing i x y with
  | zero =>
      cases looped
      rfl
  | succ left ih =>
      rw [rhoLoop] at looped
      obtain ⟨next, stepped, rest⟩ := Option.bind_eq_some_iff.mp looped
      rw [rhoPasses, stepped, Option.elim_some]
      by_cases one : next.p = 1
      · rw [if_neg (by simpa using one)] at rest
        by_cases beyond : cycles > limit
        · rw [if_pos beyond] at rest
          cases rest
          trivial
        · rw [if_neg beyond] at rest
          rw [if_neg (by rw [not_or]; exact ⟨by simpa using one, beyond⟩), List.length_cons]
          have later := ih (i + 1) next.x next.y rest
          cases result with
          | factor p j =>
              simp only [Ran] at later ⊢
              omega
          | restart j =>
              simp only [Ran] at later ⊢
              omega
          | exhausted =>
              simp only [Ran] at later ⊢
              omega
          | giveUp => trivial
      · rw [if_pos (by simpa using one)] at rest
        rw [if_pos (.inl one)]
        split at rest <;> cases rest <;> rfl

theorem slice_ran (draw : Draw) (n a cycles : Int512) (result : SliceEnd)
    (sliced : slice draw.bases draw.random n a cycles = some result) :
    Ran maxIterations 0 (bodyRuns draw n a cycles) result := by
  obtain ⟨x, drawn, looped⟩ := Option.bind_eq_some_iff.mp sliced
  rw [bodyRuns, slicePasses, drawn, Option.elim_some]
  exact rho_loop_ran draw.bases n a cycles _ maxIterations 0 _ _ result looped

theorem slice_undercounts (draw : Draw) (n a cycles : Int512) (result : SliceEnd)
    (sliced : slice draw.bases draw.random n a cycles = some result) :
    (∀ p i, result = .factor p i → counted (some result) + 1 = bodyRuns draw n a cycles) ∧
      (result = .exhausted ∨ (∃ i, result = .restart i) →
        counted (some result) + restarted (some result) = bodyRuns draw n a cycles) := by
  have ran := slice_ran draw n a cycles result sliced
  cases result with
  | factor p j =>
      simp only [Ran] at ran
      refine ⟨fun q i same => ?_, ?_⟩
      · simp only [counted]
        omega
      · rintro (same | ⟨i, same⟩) <;> cases same
  | restart j =>
      simp only [Ran] at ran
      refine ⟨fun q i same => (by cases same), fun _ => ?_⟩
      simp only [counted, restarted]
      omega
  | exhausted =>
      simp only [Ran] at ran
      refine ⟨fun q i same => (by cases same), fun _ => ?_⟩
      simp only [counted, restarted]
      omega
  | giveUp => exact ⟨fun q i same => (by cases same), by rintro (same | ⟨i, same⟩) <;> cases same⟩

end Passes

section Counts

variable (st : WorkerState) (draw : Draw)

theorem calculate_sends (n : Int512) (msg : Msg) (sends : .send msg ∈ (Worker.react st draw (.calculate n)).effects) :
    ∃ a, msg = .continuation n a 0 draw.clock (st.stateId + 1) := by
  rw [Worker.react, Worker.calculate] at sends
  split at sends
  · cases sends
  · next a _ =>
      simp only [List.mem_singleton, Effect.send.injEq] at sends
      exact ⟨a, sends⟩

variable (n a cycles : Int512) (cpuTime : Clock) (state : Int512)

theorem continue_sends (msg : Msg) (sends : .send msg ∈ (Worker.react st draw (.continuation n a cycles cpuTime state)).effects)
    (goesOn : isContinue msg = true) :
    ∃ result, slice draw.bases draw.random n a cycles = some result ∧ (result = .exhausted ∨ ∃ i, result = .restart i) ∧
      msg = .continuation n a (cycles + Int512.ofNat (counted (some result))) cpuTime state := by
  rw [Worker.react, Worker.continuation] at sends
  split at sends
  · cases sends
  · split at sends
    · cases sends
    · simp at sends
    · next i sliced =>
        simp only [List.mem_singleton, Effect.send.injEq] at sends
        exact ⟨.restart i, sliced, .inr ⟨i, rfl⟩, sends⟩
    · simp only [List.mem_cons, reduceCtorEq, Effect.send.injEq, List.not_mem_nil, or_false, false_or] at sends
      rw [sends] at goesOn
      cases goesOn
    · next sliced =>
        simp only [List.mem_singleton, Effect.send.injEq] at sends
        exact ⟨.exhausted, sliced, .inl rfl, sends⟩

theorem continue_finds (grp : Group) (p total : Int512) (ticks : Clock)
    (sent : .publish grp (.factor p total ticks) ∈ (Worker.react st draw (.continuation n a cycles cpuTime state)).effects) :
    grp = st.server ∧ ∃ i, slice draw.bases draw.random n a cycles = some (.factor p i) ∧ total = cycles + Int512.ofNat i := by
  rw [Worker.react, Worker.continuation] at sent
  split at sent
  · cases sent
  · split at sent
    · cases sent
    · next q i sliced =>
        simp only [List.mem_singleton, Effect.publish.injEq, Msg.factor.injEq] at sent
        obtain ⟨server, rfl, same, _⟩ := sent
        exact ⟨server, i, sliced, same⟩
    · simp at sent
    · simp at sent
    · simp at sent

end Counts

theorem computation_counts (actor : Address) (history : List Past) (env : Mail) (executions restarts : Nat)
    (made : Computation actor history env executions restarts) (n a cycles : Int512) (cpuTime : Clock) (state : Int512)
    (carries : env.msg = .continuation n a cycles cpuTime state) (positive : 0 < n.val) :
    0 ≤ cycles.val ∧ cycles.val ≤ 1 + maxIterations ∧ cycles.val + restarts = executions := by
  induction made generalizing n a cycles cpuTime state with
  | begun env st draw tag m msg happened asks sends =>
      rw [asks] at sends
      obtain ⟨b, same⟩ := calculate_sends st draw m msg sends
      cases same.symm.trans carries
      rw [Int512.val_zero]
      omega
  | continued env st draw tag m b before ticks id msg executions restarts earlier happened asks sends goesOn ih =>
      rw [asks] at sends
      obtain ⟨result, sliced, ends, same⟩ := continue_sends st draw m b before ticks id msg sends goesOn
      cases same.symm.trans carries
      obtain ⟨low, few, total⟩ := ih m b before ticks id asks positive
      have small := slice_counts draw.bases draw.random m b before draw.nonneg positive result sliced few
      have ran := (slice_undercounts draw m b before result sliced).2 ends
      rw [count_value before _ low small, sliced]
      omega

theorem computation_grows (actor : Address) (older newer : List Past) (larger : ∀ event ∈ older, event ∈ newer) (env : Mail)
    (executions restarts : Nat) (made : Computation actor older env executions restarts) :
    Computation actor newer env executions restarts := by
  induction made with
  | begun env st draw tag n msg happened asks sends =>
      exact .begun env st draw tag n msg (larger _ happened) asks sends
  | continued env st draw tag n a cycles cpuTime state msg executions restarts _ happened carries sends goesOn ih =>
      exact .continued env st draw tag n a cycles cpuTime state msg executions restarts ih (larger _ happened) carries sends
        goesOn

def Known (actor : Address) (node : Box) : Prop :=
  ∀ env ∈ node.mailbox, isContinue env.msg = true →
    ∃ executions restarts, Computation actor node.history env executions restarts

theorem known_settle (actor : Address) (node : Box) (st : WorkerState) (draw : Draw) (tag : Nat) (env : Mail)
    (skipped behind : List Mail) (known : Known actor node) (takes : Takes node st env skipped behind) :
    Known actor (Node.settle actor tag (Worker.react st draw env.msg) (skipped ++ behind)
      (.handled env (.worker st) draw tag :: node.history)) := by
  intro other member isContinued
  rw [Node.settle_history]
  rcases Node.settle_mailbox actor tag _ _ _ other member with old | new
  · obtain ⟨executions, restarts, made⟩ := known other (takes.kept other old) isContinued
    exact ⟨executions, restarts, computation_grows actor _ _ (fun _ => List.mem_cons_of_mem _) other _ _ made⟩
  · obtain ⟨effect, sends, same⟩ := List.mem_filterMap.mp new
    cases effect with
    | send msg =>
        cases same
        cases carries : env.msg with
        | calculate n => exact ⟨0, 0, .begun env st draw tag n msg List.mem_cons_self carries sends⟩
        | continuation n a cycles cpuTime state =>
            obtain ⟨executions, restarts, made⟩ := known env takes.present (by rw [carries]; rfl)
            have earlier := computation_grows actor _ (.handled env (.worker st) draw tag :: node.history)
              (fun _ => List.mem_cons_of_mem _) env _ _ made
            exact ⟨_, _, .continued env st draw tag n a cycles cpuTime state msg executions restarts earlier
              List.mem_cons_self carries sends isContinued⟩
        | _ =>
            have accepted := takes.accepted
            rw [carries] at accepted
            cases accepted
    | publish grp msg => cases same
    | join grp => cases same
    | spawn child state grp => cases same
    | print out => cases same

theorem known_run (actor : Address) (grp : Group) (node : Box) (reached : (workerLts actor grp).Reach GroupArrival node) :
    Known actor node := by
  refine reach_worker actor grp GroupArrival (Known actor) ?_ ?_ ?_ ?_ node reached
  · intro env member
    cases member
  · intro node env known arrival other member isContinued
    rcases Node.arrive_mailbox env other node member with old | rfl
    · obtain ⟨executions, restarts, made⟩ := known other old isContinued
      exact ⟨executions, restarts, computation_grows actor _ _ (fun event => Node.arrive_keeps env event node) other _ _ made⟩
    · exact absurd isContinued (by rw [arrival.2]; simp)
  · intro node st draw tag known _ env member isContinued
    obtain ⟨executions, restarts, made⟩ := known env member isContinued
    exact ⟨executions, restarts, computation_grows actor _ _ (fun _ => List.mem_cons_of_mem _) env _ _ made⟩
  · intro node st draw tag env skipped behind _ known _ takes
    exact known_settle actor node st draw tag env skipped behind known takes

section Behind

variable (clients : List ClientArgs) (managers : List ManagerArgs) (allowed : Cluster → Move → Prop)

theorem continue_known (net : Cluster) (process index : Nat) (reached : (system clients managers).Reach allowed net)
    (env : Mail) (waiting : env ∈ (net.node (.worker process index)).mailbox) (isContinued : isContinue env.msg = true) :
    ∃ executions restarts,
      Computation (.worker process index) (net.node (.worker process index)).history env executions restarts := by
  rcases worker_alone clients managers allowed GroupArrival process index (fun _ _ arrival _ => arrival)
    (fun _ _ _ => trivial) (fun _ _ _ _ _ => trivial) net reached with absent | run
  · rw [absent] at waiting
    cases waiting
  · exact known_run _ _ _ run env waiting isContinued

def Traced (net : Cluster) (env : Mail) : Prop :=
  isFactor env.msg = true → ∃ executions restarts, Behind net env executions restarts

theorem behind_extends (before after : Cluster) (larger : before.Extends after) (env : Mail) (executions restarts : Nat)
    (found : Behind before env executions restarts) : Behind after env executions restarts := by
  obtain ⟨process, index, last, st, draw, n, a, cycles, cpuTime, state, earlier, happened, made, carries, sent, total⟩ := found
  exact ⟨process, index, last, st, draw, n, a, cycles, cpuTime, state, earlier, larger.history _ _ happened,
    computation_grows _ _ _ (larger.history _) last _ _ made, carries, sent, total⟩

theorem behind_relayed (net : Cluster) (env : Mail) (self : Address) (via : Option Group) (traced : Traced net env) :
    Traced net ⟨self, via, env.tag, env.msg⟩ := traced

theorem worker_traced (before after : Cluster) (process index : Nat) (st : WorkerState) (draw : Draw) (env : Mail) (tag : Nat)
    (earlier : (system clients managers).Reach allowed before) (larger : before.Extends after)
    (waiting : env ∈ (before.node (.worker process index)).mailbox)
    (happened : .handled env (.worker st) draw tag ∈ (after.node (.worker process index)).history) :
    (Worker.react st draw env.msg).Sound (Logged Traced after) (fun _ _ => True) (.worker process index) tag := by
  have turn := Worker.react_turn st draw env.msg
  generalize cause : env.msg = msg at turn ⊢
  generalize reacts : Worker.react st draw msg = r at turn ⊢
  cases turn with
  | ignored _ _ _ => exact ⟨by simp, trivial⟩
  | raised _ n asked zero => exact ⟨by simp, trivial⟩
  | began n a nonzero drawn => exact ⟨by simp [Effect.Fine, Logged, Traced, isFactor], trivial⟩
  | found n a cycles cpuTime p i nonzero big divides tested sliced =>
      refine ⟨?_, trivial⟩
      simp only [List.mem_singleton, forall_eq]
      intro _ _
      obtain ⟨executions, restarts, made⟩ := continue_known clients managers allowed before process index earlier env waiting
        (by rw [cause]; rfl)
      refine ⟨_, restarts, process, index, env, st, draw, n, a, cycles, cpuTime, st.stateId, executions, happened,
        computation_grows _ _ _ (larger.history _) env _ _ made, cause, ?_, rfl⟩
      rw [cause, reacts]
      exact List.mem_singleton_self _
  | went n a cycles later cpuTime nonzero => exact ⟨by simp [Effect.Fine, Logged, Traced, isFactor], trivial⟩
  | gaveUp n a cycles cpuTime nonzero sliced => exact ⟨by simp [Effect.Fine, Logged, Traced, isFactor], trivial⟩

theorem system_traced (net : Cluster) (reached : (system clients managers).Reach allowed net) :
    net.Sound (Traced net) (fun _ _ => True) := by
  refine reach_grows Traced _ behaviour _ allowed ?_ ?_ ?_ ?_ net reached
  · exact initial_sound _ _ clients managers (fun _ _ _ => trivial) (fun _ _ _ => trivial)
  · intro before after env larger traced isFactored
    obtain ⟨executions, restarts, found⟩ := traced isFactored
    exact ⟨executions, restarts, behind_extends before after larger env executions restarts found⟩
  · intro before after self draw state tag _ _ _ _
    cases state with
    | client st => exact client_start_sound _ _ self tag st draw (fun _ isFactored => by cases isFactored) trivial
    | manager st => exact manager_start_sound _ _ self tag st draw (fun _ isFactored => by cases isFactored) trivial
    | worker st => exact ⟨by simp [behaviour], trivial⟩
  · intro before after self draw state env tag earlier larger next happened sameTag traced
    obtain ⟨own, origin⟩ := next_origin clients managers allowed before self state env earlier next
    have waiting := List.mem_of_find?_eq_some ((Node.next_some behaviour _ state env).mp next).2
    cases state with
    | client st =>
        refine client_react_sound _ _ self tag st draw env.msg ?_ (fun _ _ _ isFactored => by cases isFactored)
          (fun _ => trivial) (fun _ _ _ _ _ _ _ _ _ _ => ⟨fun _ _ _ isFactored => (by cases isFactored), fun _ _ => trivial⟩)
        intro p cycles cpuTime isFactored
        rw [isFactored] at origin
        exact origin.1
    | manager st =>
        cases self with
        | manager process =>
            have kept : tag = env.tag := sameTag
            subst kept
            exact manager_react_sound _ _ _ _ st env.msg (fun _ _ _ isFactored => by cases isFactored)
              (fun _ isFactored => by cases isFactored) (fun _ grp _ _ => behind_relayed after env _ (some grp) traced)
              (fun _ _ _ => behind_relayed after env _ _ traced) (fun _ => trivial) (fun _ => trivial)
        | client index => exact False.elim own
        | worker process index => exact False.elim own
    | worker st =>
        cases self with
        | worker process index =>
            exact worker_traced clients managers allowed before after process index st draw env tag earlier larger waiting happened
        | client index => exact False.elim own
        | manager process => exact False.elim own

theorem behind_counts (typed : ∀ args ∈ clients, 1 ≤ args.n.val) (net : Cluster)
    (reached : (system clients managers).Reach allowed net) (env : Mail) (p total : Int512) (cpuTime : Clock)
    (isFactored : env.msg = .factor p total cpuTime) (executions restarts : Nat)
    (found : Behind net env executions restarts) : 0 ≤ total.val ∧ total.val + restarts + 1 = executions := by
  obtain ⟨process, index, last, st, draw, n, a, cycles, ticks, state, earlier, happened, made, carries, sent, rfl⟩ := found
  have origin := (((system_origin clients managers allowed net reached).nodes _).history _ happened).1
  rw [MailOrigin, carries] at origin
  obtain ⟨args, member, _, sign⟩ := origin
  have positive : 0 < n.val := sign (typed args member)
  obtain ⟨low, few, counts⟩ := computation_counts _ _ last earlier restarts made n a cycles ticks state carries positive
  rw [isFactored, carries] at sent
  obtain ⟨_, i, sliced, rfl⟩ := continue_finds st draw n a cycles ticks state st.server p total cpuTime sent
  have small := slice_counts draw.bases draw.random n a cycles draw.nonneg positive _ sliced few
  have ran := (slice_undercounts draw n a cycles _ sliced).1 p i rfl
  rw [counted] at ran small
  rw [count_value cycles i low small]
  omega

end Behind

section Totals

def handledFactor : Past → Option Mail
  | .handled env _ _ _ => if isFactor env.msg then some env else none
  | _ => none

def handledFactors (history : List Past) : List Mail := history.filterMap handledFactor

def cyclesIn : Msg → Int
  | .factor _ cycles _ => cycles.val
  | _ => 0

def cyclesHandled (history : List Past) : Int := ((handledFactors history).map fun env => cyclesIn env.msg).sum

theorem cycles_handled_cons (env : Mail) (state : ActorState) (draw : Draw) (tag : Nat) (history : List Past) :
    cyclesHandled (.handled env state draw tag :: history) = cyclesIn env.msg + cyclesHandled history := by
  cases same : env.msg <;> simp [cyclesHandled, handledFactors, handledFactor, same, isFactor, cyclesIn]

theorem factors_kept (event : Past) (history : List Past) (env : Mail) (member : env ∈ handledFactors history) :
    env ∈ handledFactors (event :: history) := by
  obtain ⟨item, present, same⟩ := List.mem_filterMap.mp member
  exact List.mem_filterMap.mpr ⟨item, List.mem_cons_of_mem _ present, same⟩

theorem add_bounded (a b : Int512) (aLow : 0 ≤ a.val) (bLow : 0 ≤ b.val) : 0 ≤ (a + b).val ∧ (a + b).val ≤ a.val + b.val := by
  have sum : (a + b).val = (a.val + b.val).tmod modulus := rfl
  have nonneg : 0 ≤ a.val + b.val := by omega
  have split := Int.tmod_add_mul_tdiv (a.val + b.val) modulus
  have lost : 0 ≤ (modulus : Int) * (a.val + b.val).tdiv modulus :=
    Int.mul_nonneg (Int.natCast_nonneg _) (Int.tdiv_nonneg nonneg (Int.natCast_nonneg _))
  rw [sum]
  exact ⟨Int.tmod_nonneg _ nonneg, by omega⟩

theorem client_total (st : ClientState) (draw : Draw) (msg : Msg) (low : 0 ≤ st.cycles.val) (nonneg : 0 ≤ cyclesIn msg) :
    (∀ later, (Client.react st draw msg).outcome = .become (.client later) →
      0 ≤ later.cycles.val ∧ later.cycles.val ≤ st.cycles.val + cyclesIn msg) ∧
    (∀ ticks total, .print (.report ticks total) ∈ (Client.react st draw msg).effects →
      isFactor msg = true ∧ total.val ≤ st.cycles.val + cyclesIn msg) := by
  have turn := Client.react_turn st draw msg
  generalize Client.react st draw msg = r at turn ⊢
  cases turn with
  | ignored _ other => exact ⟨fun later becomes => by cases becomes; omega, by simp⟩
  | left => exact ⟨fun later becomes => (by cases becomes), by simp⟩
  | pinged => exact ⟨fun later becomes => by cases becomes; omega, by cases st.server <;> simp [sendTo]⟩
  | waited cpuTime => exact ⟨fun later becomes => by cases becomes; exact ⟨low, by simp [cyclesIn]⟩, by simp⟩
  | divided p cycles cpuTime =>
      have bounded := add_bounded st.cycles cycles low nonneg
      have own : 0 ≤ cycles.val := nonneg
      simp only [Client.factor, isFactor, cyclesIn, true_and]
      split
      · exact ⟨fun later becomes => (by cases becomes), by simp⟩
      · exact ⟨fun later becomes => (by cases becomes), by simp⟩
      · split
        · exact ⟨fun later becomes => (by cases becomes), by simp⟩
        · split
          · refine ⟨fun later becomes => by cases becomes; omega, ?_⟩
            intro ticks total member
            simp only [List.mem_append, List.mem_replicate, Effect.print.injEq, reduceCtorEq, and_false, List.mem_singleton,
              Output.report.injEq, false_or] at member
            rw [member.2]
            exact bounded.2
          · refine ⟨fun later becomes => by cases becomes; exact bounded, ?_⟩
            cases st.server <;> simp [sendTo]

structure Totals (node : Box) : Prop where
  held : ∀ st, node.status = .spawned (.client st) ∨ node.status = .running (.client st) →
    0 ≤ st.cycles.val ∧ st.cycles.val ≤ cyclesHandled node.history
  reported : ∀ env st draw tag older, (.handled env (.client st) draw tag :: older) <:+ node.history → ∀ ticks total,
    .print (.report ticks total) ∈ (Client.react st draw env.msg).effects →
    isFactor env.msg = true ∧ total.val ≤ cyclesHandled (.handled env (.client st) draw tag :: older)

def Nonneg (history : List Past) : Prop := ∀ env ∈ handledFactors history, 0 ≤ cyclesIn env.msg

theorem nonneg_older (event : Past) (history : List Past) (nonneg : Nonneg (event :: history)) : Nonneg history :=
  fun env member => nonneg env (factors_kept event history env member)

theorem totals_handle (actor : Address) (node : Box) (st : ClientState) (draw : Draw) (tag : Nat) (env : Mail)
    (mailbox : List Mail) (totals : Totals node) (status : node.status = .running (.client st))
    (nonneg : 0 ≤ cyclesIn env.msg) :
    Totals (Node.settle actor tag (Client.react st draw env.msg) mailbox (.handled env (.client st) draw tag :: node.history)) := by
  obtain ⟨low, high⟩ := totals.held st (.inr status)
  obtain ⟨installs, reports⟩ := client_total st draw env.msg low nonneg
  refine ⟨?_, ?_⟩
  · intro later installed
    rw [Node.settle_history, cycles_handled_cons]
    cases outcome : (Client.react st draw env.msg).outcome with
    | become state =>
        have same : state = .client later := by simpa [Node.settle, outcome] using installed
        rw [same] at outcome
        have bounds := installs later outcome
        omega
    | quit => simp [Node.settle, outcome] at installed
    | raise => simp [Node.settle, outcome] at installed
    | hang => simp [Node.settle, outcome] at installed
  · rw [Node.settle_history]
    intro other before given mark older suffix ticks total prints
    rcases List.suffix_cons_iff.mp suffix with same | earlier
    · cases same
      obtain ⟨isFactored, bound⟩ := reports ticks total prints
      rw [cycles_handled_cons]
      exact ⟨isFactored, by omega⟩
    · exact totals.reported other before given mark older earlier ticks total prints

theorem totals_other (node after : Box) (event : Past) (totals : Totals node) (recorded : after.history = event :: node.history)
    (other : ∀ env state draw tag, event ≠ .handled env state draw tag)
    (kept : ∀ st, after.status = .spawned (.client st) ∨ after.status = .running (.client st) →
      ∃ old, (node.status = .spawned (.client old) ∨ node.status = .running (.client old)) ∧ st.cycles = old.cycles) :
    Totals after := by
  have silent : handledFactor event = none := by
    cases event with
    | handled env state draw tag => exact absurd rfl (other env state draw tag)
    | _ => rfl
  have unchanged : cyclesHandled after.history = cyclesHandled node.history := by
    rw [recorded, cyclesHandled, handledFactors, List.filterMap_cons_none silent]
    rfl
  refine ⟨?_, ?_⟩
  · intro st installed
    obtain ⟨old, before, same⟩ := kept st installed
    rw [same, unchanged]
    exact totals.held old before
  · intro env st draw tag older suffix
    rw [recorded] at suffix
    rcases List.suffix_cons_iff.mp suffix with same | earlier
    · exact absurd (List.cons.inj same).1.symm (other env (.client st) draw tag)
    · exact totals.reported env st draw tag older earlier

theorem totals_run (actor : Address) (args : ClientArgs) (node : Box)
    (reached : (clientLts actor args).Reach FactorArrival node) (nonneg : Nonneg node.history) : Totals node := by
  revert nonneg
  refine reach_client actor args (fun node => Nonneg node.history → Totals node) ?_ ?_ ?_ ?_ node reached
  · intro _
    refine ⟨?_, ?_⟩
    · rintro st (same | same) <;> cases same
      exact ⟨le_refl _, le_refl _⟩
    · intro env st draw tag older suffix
      cases List.suffix_nil.mp suffix
  · intro node env holds nonneg
    have earlier : Nonneg node.history := by
      intro other member
      obtain ⟨event, happened, same⟩ := List.mem_filterMap.mp member
      exact nonneg other (List.mem_filterMap.mpr ⟨event, Node.arrive_keeps env event node happened, same⟩)
    rcases Node.arrive_cases env node with ⟨_, same⟩ | ⟨_, _, same⟩
    · rw [same]
      exact holds earlier
    · rw [same]
      exact totals_other node _ (.arrived env) (holds earlier) rfl (by simp) (fun st installed => ⟨st, installed, rfl⟩)
  · intro node st draw tag holds status nonneg
    rw [Node.settle_history] at nonneg
    refine totals_other node _ (.started (.client st) draw tag) (holds (nonneg_older _ _ nonneg))
      (Node.settle_history actor tag _ _ _) (by simp) ?_
    intro later installed
    rcases (start_client actor tag st draw).2 with outcome | outcome
    · simp [Node.settle, outcome] at installed
    · have same : { st with server := some .server } = later := by simpa [Node.settle, outcome] using installed
      exact ⟨st, .inl status, by rw [← same]⟩
  · intro node st draw tag env mailbox holds status _ nonneg
    rw [Node.settle_history] at nonneg
    have own : 0 ≤ cyclesIn env.msg := by
      cases asked : isFactor env.msg with
      | true => exact nonneg env (by simp [handledFactors, handledFactor, asked])
      | false => cases same : env.msg <;> rw [same] at asked <;> first | exact le_refl _ | cases asked
    exact totals_handle actor node st draw tag env mailbox (holds (nonneg_older _ _ nonneg)) status own

def Executions (net : Cluster) (mails : List Mail) (runs : List Nat) : Prop :=
  List.Forall₂ (fun env executions => ∃ restarts, Behind net env executions restarts) mails runs

theorem executions_exist (net : Cluster) (mails : List Mail)
    (traced : ∀ env ∈ mails, ∃ executions restarts, Behind net env executions restarts) : ∃ runs, Executions net mails runs := by
  induction mails with
  | nil => exact ⟨[], .nil⟩
  | cons env rest ih =>
      obtain ⟨executions, restarts, found⟩ := traced env List.mem_cons_self
      obtain ⟨runs, others⟩ := ih (fun other member => traced other (List.mem_cons_of_mem _ member))
      exact ⟨executions :: runs, .cons ⟨restarts, found⟩ others⟩

theorem executions_exceed (net : Cluster) (mails : List Mail) (runs : List Nat)
    (short : ∀ env ∈ mails, ∀ executions restarts, Behind net env executions restarts → cyclesIn env.msg < executions)
    (executed : Executions net mails runs) :
    (mails.map fun env => cyclesIn env.msg).sum + mails.length ≤ runs.sum := by
  induction executed with
  | nil => simp
  | cons found others ih =>
      obtain ⟨restarts, found⟩ := found
      have first := short _ List.mem_cons_self _ restarts found
      have rest := ih (fun other member => short other (List.mem_cons_of_mem _ member))
      simp only [List.map_cons, List.sum_cons, List.length_cons]
      omega

variable (clients : List ClientArgs) (managers : List ManagerArgs) (typed : ∀ args ∈ clients, 1 ≤ args.n.val) (net : Cluster)
  (reached : (system clients managers).Reach Lts.anyStep net)

include typed reached

theorem handled_short (actor : Address) (env : Mail) (member : env ∈ handledFactors (net.node actor).history) :
    0 ≤ cyclesIn env.msg ∧ (∃ executions restarts, Behind net env executions restarts) ∧
      ∀ executions restarts, Behind net env executions restarts → cyclesIn env.msg < executions := by
  obtain ⟨event, happened, same⟩ := List.mem_filterMap.mp member
  have fine := ((system_traced clients managers _ net reached).nodes actor).history event happened
  cases event with
  | arrived other => cases same
  | started state draw tag => cases same
  | handled other state draw tag =>
      simp only [handledFactor, Option.ite_none_right_eq_some, Option.some.injEq] at same
      obtain ⟨asked, rfl⟩ := same
      obtain ⟨p, cycles, cpuTime, isFactored⟩ := factor_shape other.msg asked
      have counts := behind_counts clients managers _ typed net reached other p cycles cpuTime isFactored
      obtain ⟨executions, restarts, found⟩ := fine.1 asked
      rw [isFactored, cyclesIn]
      refine ⟨(counts executions restarts found).1, ⟨executions, restarts, found⟩, ?_⟩
      intro executions restarts found
      have total := (counts executions restarts found).2
      omega

theorem client_totals (index : Nat) (args : ClientArgs) (given : clients[index]? = some args) :
    Totals (net.node (.client index)) :=
  totals_run (.client index) args _ (client_alone clients managers _ index args given net reached)
    (fun env member => (handled_short clients managers typed net reached _ env member).1)

theorem suffix_executed (actor : Address) (older : List Past) (suffix : older <:+ (net.node actor).history) :
    (∃ runs, Executions net (handledFactors older) runs) ∧
      ∀ runs, Executions net (handledFactors older) runs →
        cyclesHandled older + (handledFactors older).length ≤ runs.sum := by
  have known : ∀ env ∈ handledFactors older, env ∈ handledFactors (net.node actor).history := by
    intro env member
    obtain ⟨event, happened, same⟩ := List.mem_filterMap.mp member
    exact List.mem_filterMap.mpr ⟨event, suffix.subset happened, same⟩
  refine ⟨executions_exist net _ ?_, fun runs executed => executions_exceed net _ runs ?_ executed⟩
  · intro env member
    exact (handled_short clients managers typed net reached actor env (known env member)).2.1
  · intro env member
    exact (handled_short clients managers typed net reached actor env (known env member)).2.2

end Totals

-- No factor message carries the number of body executions behind it: the pass it
-- was found in is missing, and one more for each restart. So a client's total is
-- only right as long as it has handled none.
theorem cycles_undercounted (clients : List ClientArgs) (managers : List ManagerArgs)
    (typed : ∀ args ∈ clients, 1 ≤ args.n.val) (net : Cluster) (reached : (system clients managers).Reach Lts.anyStep net) :
    (∀ env ∈ net.sent, ∀ p cycles cpuTime, env.msg = .factor p cycles cpuTime →
      (∃ executions restarts, Behind net env executions restarts) ∧
      ∀ executions restarts, Behind net env executions restarts →
        cycles.val ≠ executions ∧ cycles.val + restarts + 1 = executions) ∧
    ∀ index,
      (∀ older, older <:+ (net.node (.client index)).history → ∃ runs, Executions net (handledFactors older) runs) ∧
      (∀ st runs, (net.node (.client index)).status = .running (.client st) →
        Executions net (handledFactors (net.node (.client index)).history) runs →
        (st.cycles.val = runs.sum ↔ handledFactors (net.node (.client index)).history = [])) ∧
      ∀ env st draw tag older ticks (total : Int512) (runs : List Nat),
        (.handled env (.client st) draw tag :: older) <:+ (net.node (.client index)).history →
        .print (.report ticks total) ∈ (Client.react st draw env.msg).effects →
        Executions net (handledFactors (.handled env (.client st) draw tag :: older)) runs → total.val ≠ runs.sum := by
  refine ⟨?_, ?_⟩
  · intro env sent p cycles cpuTime isFactored
    refine ⟨(system_traced clients managers _ net reached).sent env sent (by rw [isFactored]; rfl), ?_⟩
    intro executions restarts found
    have total := (behind_counts clients managers _ typed net reached env p cycles cpuTime isFactored executions restarts found).2
    exact ⟨by omega, total⟩
  · intro index
    refine ⟨fun older suffix => (suffix_executed clients managers typed net reached _ older suffix).1, ?_, ?_⟩
    · intro st runs status executed
      have own := ((system_origin clients managers _ net reached).nodes (.client index)).status
      rw [status] at own
      obtain ⟨args, given, _⟩ := own
      have held := (client_totals clients managers typed net reached index args given).held st (.inr status)
      have exceeds := (suffix_executed clients managers typed net reached _ _ (List.suffix_refl _)).2 runs executed
      refine ⟨fun equal => List.length_eq_zero_iff.mp (by omega), fun none => ?_⟩
      rw [cyclesHandled, none] at held
      rw [none] at executed
      cases executed
      simp only [List.map_nil, List.sum_nil] at held ⊢
      omega
    · intro env st draw tag older ticks total runs suffix prints executed
      have own := (((system_origin clients managers _ net reached).nodes (.client index)).history _
        (suffix.subset List.mem_cons_self)).2
      obtain ⟨args, given, _⟩ := own
      obtain ⟨isFactored, bound⟩ := (client_totals clients managers typed net reached index args given).reported env st draw tag
        older suffix ticks total prints
      have exceeds := (suffix_executed clients managers typed net reached _ _ suffix).2 runs executed
      have counted : 0 < (handledFactors (.handled env (.client st) draw tag :: older)).length := by
        simp [handledFactors, handledFactor, isFactored]
      omega

def threeFound : List Move := requestToWorker ++ workerAnswers 0 0 ++ answerToClient

theorem cycles_undercounted_fifteen : ∃ net : Cluster, (system [typing 15] [offering 1]).Reach Lts.anyStep net ∧
    ∃ env ∈ net.sent, env.msg = .factor (Int512.ofNat 3) 0 0 ∧
      (∃ executions restarts, Behind net env executions restarts) ∧
      ∀ executions restarts, Behind net env executions restarts → (0 : Int) + restarts + 1 = executions := by
  obtain ⟨net, reached, passed⟩ := (system [typing 15] [offering 1]).run_finds Lts.anyStep threeFound
    (fun net => decide (∃ env ∈ net.sent, env.msg = .factor (Int512.ofNat 3) 0 0)) (by decide +kernel)
  obtain ⟨env, sent, carries⟩ := of_decide_eq_true passed
  obtain ⟨traced, short⟩ := (cycles_undercounted [typing 15] [offering 1] (by decide +kernel) net reached).1 env sent
    (Int512.ofNat 3) 0 0 carries
  exact ⟨net, reached, env, sent, carries, traced, fun executions restarts found => (short executions restarts found).2⟩

theorem cycles_missing : ∃ net : Cluster, (system [typing 15] [offering 1]).Reach Lts.anyStep net ∧
    ∃ env, handledFactors (net.node (.client 0)).history = [env] ∧ env.msg = .factor (Int512.ofNat 3) 0 0 ∧
      (∃ event ∈ (net.node (.client 0)).history, .report 0 0 ∈ printed (event.effects behaviour (.client 0))) ∧
      ∃ executions restarts, Behind net env executions restarts ∧ 1 ≤ executions := by
  obtain ⟨net, reached, passed⟩ := (system [typing 15] [offering 1]).run_finds Lts.anyStep threeFound
    (fun net => decide ((handledFactors (net.node (.client 0)).history).map (fun env => env.msg) =
      [.factor (Int512.ofNat 3) 0 0] ∧
      ∃ event ∈ (net.node (.client 0)).history, .report 0 0 ∈ printed (event.effects behaviour (.client 0)))) (by decide +kernel)
  obtain ⟨carries, reports⟩ := of_decide_eq_true passed
  obtain ⟨env, only, isThree⟩ := List.map_eq_singleton_iff.mp carries
  obtain ⟨_, ⟨executions, restarts, found⟩, short⟩ := handled_short [typing 15] [offering 1] (by decide +kernel) net reached
    (.client 0) env (by rw [only]; exact List.mem_singleton_self env)
  have low := short executions restarts found
  rw [isThree] at low
  exact ⟨net, reached, env, only, isThree, reports, executions, restarts, found, by simp only [cyclesIn, Int512.val_zero] at low; omega⟩

end VsLab
