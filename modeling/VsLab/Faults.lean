import VsLab.FactorSoundness

set_option autoImplicit false

namespace VsLab

open Actors

def ZeroDivisor : ActorState → Msg → Prop
  | .worker _, .calculate n => n.val = 0
  | .worker _, .continuation n _ _ _ _ => n.val = 0
  | .client _, .factor p _ _ => p.val = 0
  | _, _ => False

theorem raise_zero_divisor (self : Address) (state : ActorState) (draw : Draw) (msg : Msg)
    (raises : (behaviour.react self state draw msg).outcome = .raise)
    (big : ∀ p cycles cpuTime, msg = .factor p cycles cpuTime → 2 ≤ p.val) : ZeroDivisor state msg := by
  cases state with
  | client st =>
      have sound : (Client.react st draw msg).outcome ≠ .raise := by
        have turn := Client.react_turn st draw msg
        generalize Client.react st draw msg = r at turn ⊢
        cases turn with
        | ignored _ other => simp
        | left => simp
        | pinged => simp
        | waited cpuTime => simp
        | divided p cycles cpuTime =>
            have large := big p cycles cpuTime rfl
            by_cases zero : st.n.val = 0
            · rw [Client.factor_zero st draw p cycles cpuTime large zero]
              simp
            · obtain ⟨m, k, c, _, _, ⟨_, same⟩ | ⟨_, same⟩⟩ := Client.factor_ends st draw p cycles cpuTime large zero
              · simp [same]
              · simp [same]
      exact absurd raises sound
  | manager st =>
      have sound : (Manager.react st msg).outcome ≠ .raise := by cases msg <;> simp [Manager.react]
      exact absurd raises sound
  | worker st =>
      have turn := Worker.react_turn st draw msg
      change (Worker.react st draw msg).outcome = _ at raises
      generalize Worker.react st draw msg = r at turn raises
      cases turn with
      | raised _ n asked zero =>
          rcases asked with rfl | ⟨a, cycles, cpuTime, rfl⟩
          · exact zero
          · exact zero
      | ignored _ _ _ => cases raises
      | began n a nonzero drawn => cases raises
      | found n a cycles cpuTime p i nonzero big divides tested sliced => cases raises
      | went n a cycles later cpuTime nonzero => cases raises
      | gaveUp n a cycles cpuTime nonzero sliced => cases raises

theorem nonzero_divisors (clients : List ClientArgs) (managers : List ManagerArgs) (net : Cluster) (self : Address)
    (state : ActorState) (env : Mail) (typed : ∀ args ∈ clients, args.n.val ≠ 0)
    (reached : (system clients managers).Reach Lts.anyStep net)
    (next : (net.node self).next behaviour = some (state, env)) : ¬ ZeroDivisor state env.msg := by
  obtain ⟨_, origin⟩ := next_origin clients managers Lts.anyStep net self state env reached next
  have nonzero : ∀ v, Origin clients v → v ≠ 0 := by
    rintro v ⟨args, member, derived⟩ zero
    exact derived.nonzero (typed args member) zero
  intro zero
  cases state with
  | client st =>
      cases same : env.msg <;> simp only [same, ZeroDivisor] at zero
      next p cycles cpuTime =>
        rw [same] at origin
        have := origin.1
        omega
  | manager st => cases env.msg <;> exact zero
  | worker st =>
      cases same : env.msg <;> simp only [same, ZeroDivisor] at zero
      next n => exact nonzero n.val (by rwa [same] at origin) zero
      next n a cycles cpuTime id => exact nonzero n.val (by rwa [same] at origin) zero

section Request

variable (clients : List ClientArgs) (index : Nat) (args : ClientArgs)

def workersReady : List Move :=
  [.start (.manager 0) (drawing 0), .handle (.manager 0) (drawing 0), .start (.worker 0 0) (drawing 0)]

def passedOn : List Move :=
  [.dispatch 0, .arrive 1, .handle (.manager 0) (drawing 0), .dispatch 0, .arrive 1]

def readyNet : Cluster :=
  ((system clients [offering 1]).run Lts.anyStep (initial clients [offering 1]) workersReady).getD
    (initial clients [offering 1])

def askedNet : Cluster :=
  (readyNet clients).act (.client index) (readyNet clients).clock (Client.start (typedState args) (drawing 0))
    ((readyNet clients).node (.client index)).mailbox
    (.started (.client (typedState args)) (drawing 0) (readyNet clients).clock)

theorem asked_reached (found : clients[index]? = some args) :
    (system clients [offering 1]).Reach Lts.anyStep (askedNet clients index args) := by
  have ready : (system clients [offering 1]).Reach Lts.anyStep (readyNet clients) :=
    (system clients [offering 1]).run_reach Lts.anyStep workersReady (readyNet clients) rfl
  refine (system clients [offering 1]).reach_step Lts.anyStep _ _ (.start (.client index) (drawing 0)) ready trivial ?_
  have waiting : ((readyNet clients).node (.client index)).status = .spawned (.client (typedState args)) := by
    have same : (readyNet clients).node (.client index) = (clients[index]?).elim Node.vacant clientNode := rfl
    rw [same, found]
    rfl
  simp only [system, networkLts, Net.step, waiting]
  rfl

theorem request_reaches_worker (found : clients[index]? = some args) :
    ∃ net : Cluster, (system clients [offering 1]).Reach Lts.anyStep net ∧ ∃ env : Mail, env.msg = .calculate args.n ∧
      (net.node (.worker 0 0)).next behaviour = some (.worker ⟨.workers 0, 0⟩, env) := by
  obtain ⟨net, done, next⟩ : ∃ net : Cluster,
      (system clients [offering 1]).run Lts.anyStep (askedNet clients index args) passedOn = some net ∧
      (net.node (.worker 0 0)).next behaviour =
        some (.worker ⟨.workers 0, 0⟩, ⟨.manager 0, some (.workers 0), 3, .calculate args.n⟩) := ⟨_, rfl, rfl⟩
  have reached := (system clients [offering 1]).run_from Lts.anyStep passedOn _ net (asked_reached clients index args found)
    done
  exact ⟨net, reached, _, rfl, next⟩

end Request

theorem no_zero_divisor_iff (clients : List ClientArgs) :
    (∀ managers net, (system clients managers).Reach Lts.anyStep net → ∀ self state env,
      (net.node self).next behaviour = some (state, env) →
      ¬ ZeroDivisor state env.msg ∧ ∀ draw, (behaviour.react self state draw env.msg).outcome ≠ .raise) ↔
    ∀ args ∈ clients, args.n.val ≠ 0 := by
  constructor
  · intro safe args member zero
    obtain ⟨index, found⟩ := List.getElem?_of_mem member
    obtain ⟨net, reached, env, asked, next⟩ := request_reaches_worker clients index args found
    have fault := (safe [offering 1] net reached _ _ env next).1
    rw [asked] at fault
    exact fault zero
  · intro typed managers net reached self state env next
    have safe := nonzero_divisors clients managers net self state env typed reached next
    refine ⟨safe, ?_⟩
    intro draw raises
    refine safe (raise_zero_divisor self state draw env.msg raises ?_)
    intro p cycles cpuTime isFactor
    obtain ⟨_, origin⟩ := next_origin clients managers Lts.anyStep net self state env reached next
    rw [isFactor] at origin
    exact origin.1

theorem zero_kills_worker : ∃ (net : Cluster) (env : Mail),
    (system [typing 0] [offering 1]).Reach Lts.anyStep net ∧
      (net.node (.worker 0 0)).next behaviour = some (.worker ⟨.workers 0, 0⟩, env) ∧
      ZeroDivisor (.worker ⟨.workers 0, 0⟩) env.msg ∧
      (behaviour.react (.worker 0 0) (.worker ⟨.workers 0, 0⟩) (drawing 0) env.msg).outcome = .raise := by
  obtain ⟨net, reached, env, asked, next⟩ := request_reaches_worker [typing 0] 0 (typing 0) rfl
  refine ⟨net, env, reached, next, ?_, ?_⟩
  · rw [asked]
    exact (by decide +kernel : (typing 0).n.val = 0)
  · rw [asked]
    decide +kernel

section Division

def LoopEnds (p n : Int512) : Prop := ∃ fuel m times, Client.divideOut p fuel n 0 = .done m times

theorem loop_ends_iff (p n : Int512) (big : 2 ≤ p.val) : LoopEnds p n ↔ n.val ≠ 0 := by
  constructor
  · rintro ⟨fuel, m, times, ended⟩ zero
    rw [Client.divide_out_zero p (by omega) fuel n 0 zero] at ended
    cases ended
  · intro nonzero
    exact ⟨Client.divisionFuel, Client.division_ends p n (by omega) nonzero⟩

theorem division_loop_ends_iff (clients : List ClientArgs) (managers : List ManagerArgs) (net : Cluster) (index : Nat)
    (args : ClientArgs) (st : ClientState) (env : Mail) (p cycles : Int512) (cpuTime : Clock)
    (typed : clients[index]? = some args) (reached : (system clients managers).Reach Lts.anyStep net)
    (next : (net.node (.client index)).next behaviour = some (.client st, env))
    (isFactor : env.msg = .factor p cycles cpuTime) :
    LoopEnds p st.n ↔ args.n.val ≠ 0 := by
  obtain ⟨⟨own, found, left⟩, origin⟩ :=
    next_origin clients managers Lts.anyStep net (.client index) (.client st) env reached next
  rw [isFactor] at origin
  have same : own = args := Option.some.inj (found.symm.trans typed)
  subst same
  rw [loop_ends_iff p st.n origin.1]
  constructor
  · intro nonzero zero
    exact nonzero (left.zero zero)
  · intro nonzero zero
    exact left.nonzero nonzero zero

theorem division_loop_fifteen : ∃ (net : Cluster) (st : ClientState) (env : Mail),
    (system [typing 15] [offering 1]).Reach Lts.anyStep net ∧
      (net.node (.client 0)).next behaviour = some (.client st, env) ∧ env.msg = .factor (Int512.ofNat 3) 0 0 ∧
      (typing 15).n.val ≠ 0 ∧ LoopEnds (Int512.ofNat 3) st.n := by
  obtain ⟨net, reached, passed⟩ := (system [typing 15] [offering 1]).run_finds Lts.anyStep
    (requestToWorker ++ workerAnswers 0 0 ++ answerToClient.dropLast)
    (fun net => decide ((net.node (.client 0)).next behaviour = some (.client ⟨"localhost", 6667, Int512.ofNat 15,
      some .server, 0, 0⟩, ⟨.manager 0, some .server, 6, .factor (Int512.ofNat 3) 0 0⟩))) (by decide +kernel)
  have next := of_decide_eq_true passed
  have nonzero : (typing 15).n.val ≠ 0 := by decide +kernel
  exact ⟨net, _, _, reached, next, rfl, nonzero,
    (division_loop_ends_iff [typing 15] [offering 1] net 0 (typing 15) _ _ _ _ _ rfl reached next rfl).mpr nonzero⟩

theorem division_loop_endless : ∃ (net : Cluster) (st : ClientState) (env : Mail),
    (system [typing 15, typing 0] [offering 1]).Reach Lts.anyStep net ∧
      (net.node (.client 1)).next behaviour = some (.client st, env) ∧ env.msg = .factor (Int512.ofNat 3) 0 0 ∧
      ¬ LoopEnds (Int512.ofNat 3) st.n := by
  obtain ⟨net, reached, passed⟩ := (system [typing 15, typing 0] [offering 1]).run_finds Lts.anyStep
    (requestToWorker ++ workerAnswers 0 0 ++ answerToClient.take 5 ++
      [.start (.client 1) (drawing 0), .dispatch 1, .arrive 0])
    (fun net => decide ((net.node (.client 1)).next behaviour = some (.client ⟨"localhost", 6667, 0,
      some .server, 0, 0⟩, ⟨.manager 0, some .server, 6, .factor (Int512.ofNat 3) 0 0⟩))) (by decide +kernel)
  refine ⟨net, _, _, reached, of_decide_eq_true passed, rfl, ?_⟩
  rw [loop_ends_iff _ _ (by decide +kernel)]
  exact fun nonzero => nonzero rfl

end Division

end VsLab
