import VsLab.ClientRun

set_option autoImplicit false

namespace VsLab

open Actors

section Record

variable (clients : List ClientArgs)

structure AskedBy (net : Cluster) (owner : Nat) (n : Int512) : Prop where
  typed : ∃ args, clients[owner]? = some args ∧ LeftOf args.n n.val
  asked : ∃ env ∈ net.sent, env.sender = .client owner ∧ env.msg = .calculate n

def FoundFor (net : Cluster) (n : Int512) (msg : Msg) : Prop :=
  ∃ process index env st draw tag a cycles cpuTime,
    .handled env (.worker st) draw tag ∈ (net.node (.worker process index)).history ∧
      env.msg = .continuation n a cycles cpuTime st.stateId ∧
      .publish st.server msg ∈ (Worker.react st draw env.msg).effects

def ComputedFor (net : Cluster) (owner : Nat) (msg : Msg) : Prop :=
  ∃ n, AskedBy clients net owner n ∧ FoundFor net n msg

def MsgRecorded (net : Cluster) : Msg → Prop
  | .calculate n => ∃ owner, AskedBy clients net owner n
  | .continuation n _ _ _ _ => ∃ owner, AskedBy clients net owner n
  | .factor p cycles cpuTime => ∃ owner, ComputedFor clients net owner (.factor p cycles cpuTime)
  | _ => True

def MailRecorded (net : Cluster) (env : Mail) : Prop := MsgRecorded clients net env.msg

theorem asked_extends (before after : Cluster) (owner : Nat) (n : Int512) (larger : before.Extends after)
    (asked : AskedBy clients before owner n) : AskedBy clients after owner n := by
  obtain ⟨env, member, own⟩ := asked.asked
  exact ⟨asked.typed, env, larger.sent env member, own⟩

theorem recorded_extends (before after : Cluster) (msg : Msg) (larger : before.Extends after)
    (recorded : MsgRecorded clients before msg) : MsgRecorded clients after msg := by
  cases msg with
  | calculate n =>
      obtain ⟨owner, asked⟩ := recorded
      exact ⟨owner, asked_extends clients before after owner n larger asked⟩
  | continuation n a cycles cpuTime state =>
      obtain ⟨owner, asked⟩ := recorded
      exact ⟨owner, asked_extends clients before after owner n larger asked⟩
  | factor p cycles cpuTime =>
      obtain ⟨owner, n, asked, process, index, env, st, draw, tag, a, start, ticks, happened, rest⟩ := recorded
      exact ⟨owner, n, asked_extends clients before after owner n larger asked, process, index, env, st, draw, tag, a,
        start, ticks, larger.history _ _ happened, rest⟩
  | _ => trivial

theorem found_divides (net : Cluster) (n p cycles : Int512) (cpuTime : Clock)
    (found : FoundFor net n (.factor p cycles cpuTime)) (exact : ExactUpTo n) : p.val ∣ n.val := by
  obtain ⟨_, _, env, st, draw, _, a, before, ticks, _, cause, published⟩ := found
  obtain ⟨_, _, _, _, _, same, divides, _⟩ := worker_factor_tested st draw env.msg st.server p cycles cpuTime published
  rw [cause] at same
  cases same
  exact divides exact

end Record

section Handlers

variable (clients : List ClientArgs) (after : Cluster) (self : Address) (tag : Nat)

theorem worker_recorded (st : WorkerState) (draw : Draw) (env : Mail) (process index : Nat)
    (address : self = .worker process index) (happened : .handled env (.worker st) draw tag ∈ (after.node self).history)
    (recorded : MsgRecorded clients after env.msg) :
    (Worker.react st draw env.msg).Sound (Logged (MailRecorded clients) after) (fun _ _ => True) self tag := by
  have turn := Worker.react_turn st draw env.msg
  generalize cause : env.msg = msg at turn recorded ⊢
  generalize reacts : Worker.react st draw msg = r at turn ⊢
  cases turn with
  | ignored _ _ _ => exact ⟨by simp, trivial⟩
  | raised _ n asked zero => exact ⟨by simp, trivial⟩
  | began n a nonzero drawn =>
      refine ⟨?_, trivial⟩
      simp only [List.mem_singleton, forall_eq]
      exact fun _ => recorded
  | found n a cycles cpuTime p i nonzero big divides tested sliced =>
      refine ⟨?_, trivial⟩
      simp only [List.mem_singleton, forall_eq]
      intro _
      obtain ⟨owner, asked⟩ := recorded
      refine ⟨owner, n, asked, process, index, env, st, draw, tag, a, cycles, cpuTime, address ▸ happened, cause, ?_⟩
      rw [cause, reacts]
      exact List.mem_singleton_self _
  | went n a cycles later cpuTime nonzero =>
      refine ⟨?_, trivial⟩
      simp only [List.mem_singleton, forall_eq]
      exact fun _ => recorded
  | gaveUp n a cycles cpuTime nonzero sliced =>
      refine ⟨?_, trivial⟩
      intro effect member
      rcases List.mem_cons.mp member with rfl | last
      · exact fun _ => trivial
      · rw [List.mem_singleton.mp last]
        exact fun _ => recorded

theorem client_asked (args : ClientArgs) (index : Nat) (address : self = .client index) (found : clients[index]? = some args)
    (grp : Group) (m : Int512) (left : LeftOf args.n m.val) :
    Logged (MailRecorded clients) after ⟨self, some grp, tag, .calculate m⟩ := by
  intro logged
  exact ⟨index, ⟨args, found, left⟩, _, logged grp rfl, address, rfl⟩

theorem client_recorded (st : ClientState) (draw : Draw) (msg : Msg) (own : StateOrigin clients self (.client st))
    (origin : MsgOrigin clients msg) :
    (Client.react st draw msg).Sound (Logged (MailRecorded clients) after) (fun _ _ => True) self tag := by
  obtain ⟨index, args, address, found, left⟩ := state_origin clients self st own
  have big : ∀ p cycles cpuTime, msg = .factor p cycles cpuTime → 2 ≤ p.val := by
    intro p cycles cpuTime isFactor
    rw [isFactor] at origin
    exact origin.1
  refine client_react_sound _ _ self tag st draw msg big (fun _ _ _ => trivial) (fun _ => trivial) ?_
  intro p cycles cpuTime m k c isFactor nonzero leaves _
  have rest := left_leaves args.n st.n p m k c left (big p cycles cpuTime isFactor) nonzero leaves
  exact ⟨fun grp _ => client_asked clients after self tag args index address found grp m rest, fun _ _ => trivial⟩

theorem manager_recorded (st : ManagerState) (msg : Msg) (recorded : MsgRecorded clients after msg) :
    (Manager.react st msg).Sound (Logged (MailRecorded clients) after) (fun _ _ => True) self tag :=
  manager_react_sound _ _ self tag st msg (fun _ _ _ => trivial) (fun _ => trivial) (fun _ _ _ _ => recorded)
    (fun _ _ _ => recorded) (fun _ => trivial) (fun _ => trivial)

theorem start_recorded (state : ActorState) (draw : Draw) (own : StateOrigin clients self state) :
    (behaviour.start self state draw).Sound (Logged (MailRecorded clients) after) (fun _ _ => True) self tag := by
  cases state with
  | client st =>
      obtain ⟨index, args, address, found, left⟩ := state_origin clients self st own
      exact client_start_sound _ _ self tag st draw
        (client_asked clients after self tag args index address found .server st.n left) trivial
  | manager st => exact manager_start_sound _ _ self tag st draw (fun _ => trivial) trivial
  | worker st => exact ⟨by simp [behaviour], trivial⟩

end Handlers

theorem system_recorded (clients : List ClientArgs) (managers : List ManagerArgs) (allowed : Cluster → Move → Prop)
    (net : Cluster) (reached : (system clients managers).Reach allowed net) :
    net.Sound (MailRecorded clients net) (fun _ _ => True) := by
  refine reach_grows (MailRecorded clients) _ behaviour _ allowed ?_ ?_ ?_ ?_ net reached
  · exact initial_sound _ _ clients managers (fun _ _ _ => trivial) (fun _ _ _ => trivial)
  · intro before after env larger recorded
    exact recorded_extends clients before after env.msg larger recorded
  · intro before after self draw state tag earlier _ status _
    have own := ((system_origin clients managers allowed before earlier).nodes self).status
    rw [status] at own
    exact start_recorded clients after self tag state draw own
  · intro before after self draw state env tag earlier _ next happened _ recorded
    obtain ⟨own, origin⟩ := next_origin clients managers allowed before self state env earlier next
    cases state with
    | client st => exact client_recorded clients after self tag st draw env.msg own origin
    | manager st => exact manager_recorded clients after self tag st env.msg recorded
    | worker st =>
        cases self with
        | worker process index => exact worker_recorded clients after _ tag st draw env process index rfl happened recorded
        | client index => exact False.elim own
        | manager process => exact False.elim own

def Affected (st : ClientState) (draw : Draw) (msg : Msg) : Prop :=
  entriesOf (Client.react st draw msg).effects ≠ [] ∨ requestsOf (Client.react st draw msg).effects ≠ [] ∨
    ∃ later, (Client.react st draw msg).outcome = .become (.client later) ∧ (later.n ≠ st.n ∨ later.cycles ≠ st.cycles)

theorem affected_factor (st : ClientState) (draw : Draw) (msg : Msg) (affected : Affected st draw msg) :
    ∃ p cycles cpuTime, msg = .factor p cycles cpuTime := by
  cases asked : isFactor msg with
  | true => exact factor_shape msg asked
  | false =>
      obtain ⟨prints, _, asks, keeps⟩ := client_quiet st draw msg asked
      rcases affected with printed | requested | ⟨later, becomes, changed⟩
      · exact absurd prints printed
      · exact absurd asks requested
      · obtain ⟨sameN, _, sameCycles⟩ := keeps later becomes
        rcases changed with other | other
        · exact absurd sameN other
        · exact absurd sameCycles other

theorem factor_entry (st : ClientState) (draw : Draw) (p cycles : Int512) (cpuTime : Clock) (big : 2 ≤ p.val) :
    ∀ v ∈ entriesOf (Client.factor st draw p cycles cpuTime).effects, v = p.val := by
  intro v member
  by_cases zero : st.n.val = 0
  · rw [Client.factor_zero st draw p cycles cpuTime big zero] at member
    simpa [entriesOf, printed] using member
  · obtain ⟨_, _, _, entries, _⟩ := client_divides st draw p cycles cpuTime big zero
    rw [entries] at member
    exact List.eq_of_mem_replicate member

section Results

variable (clients : List ClientArgs) (managers : List ManagerArgs) (net : Cluster)
  (reached : (system clients managers).Reach Lts.anyStep net) (index : Nat)

include reached

theorem handled_computed (env : Mail) (st : ClientState) (draw : Draw) (tag : Nat) (p cycles : Int512) (cpuTime : Clock)
    (happened : .handled env (.client st) draw tag ∈ (net.node (.client index)).history)
    (isFactor : env.msg = .factor p cycles cpuTime) :
    2 ≤ p.val ∧ ∃ owner, ComputedFor clients net owner (.factor p cycles cpuTime) := by
  have recorded := (((system_recorded clients managers _ net reached).nodes _).history _ happened).1
  have origin := (((system_origin clients managers _ net reached).nodes _).history _ happened).1
  rw [MailRecorded, isFactor] at recorded
  rw [MailOrigin, isFactor] at origin
  exact ⟨origin.1, recorded⟩

theorem listed_handled (v : Int) (listed : v ∈ factorList (.client index) (net.node (.client index)).history) :
    ∃ env st draw tag p cycles cpuTime, .handled env (.client st) draw tag ∈ (net.node (.client index)).history ∧
      env.msg = .factor p cycles cpuTime ∧ v = p.val := by
  obtain ⟨event, happened, printed⟩ := List.mem_flatMap.mp listed
  have fine := ((system_origin clients managers _ net reached).nodes _).history _ happened
  cases event with
  | arrived env => cases printed
  | started state draw tag =>
      obtain ⟨st, rfl⟩ : ∃ st, state = .client st := by cases state <;> first | exact ⟨_, rfl⟩ | exact False.elim fine
      change v ∈ entriesOf (Client.start st draw).effects at printed
      rw [Client.start] at printed
      split at printed <;> cases printed
  | handled env state draw tag =>
      obtain ⟨st, rfl⟩ : ∃ st, state = .client st := by
        cases state <;> first | exact ⟨_, rfl⟩ | exact False.elim fine.2
      change v ∈ entriesOf (Client.react st draw env.msg).effects at printed
      obtain ⟨p, cycles, cpuTime, isFactor⟩ := affected_factor st draw env.msg (.inl (List.ne_nil_of_mem printed))
      refine ⟨env, st, draw, tag, p, cycles, cpuTime, happened, isFactor, ?_⟩
      have big := (handled_computed clients managers net reached index env st draw tag p cycles cpuTime happened isFactor).1
      rw [isFactor] at printed
      exact factor_entry st draw p cycles cpuTime big v printed

end Results

theorem results_shared (clients : List ClientArgs) (managers : List ManagerArgs) (net : Cluster)
    (reached : (system clients managers).Reach Lts.anyStep net) (index : Nat) :
    (∀ v ∈ factorList (.client index) (net.node (.client index)).history,
      ∃ owner args n p cycles cpuTime, clients[owner]? = some args ∧ AskedBy clients net owner n ∧
        FoundFor net n (.factor p cycles cpuTime) ∧ v = p.val ∧
        (Unspilled args.n → v ∣ n.val ∧ v ∣ args.n.val)) ∧
    (∀ env st draw tag, .handled env (.client st) draw tag ∈ (net.node (.client index)).history →
      Affected st draw env.msg →
      ∃ owner p cycles cpuTime, env.msg = .factor p cycles cpuTime ∧ ComputedFor clients net owner env.msg) := by
  constructor
  · intro v listed
    obtain ⟨env, st, draw, tag, p, cycles, cpuTime, happened, isFactor, rfl⟩ :=
      listed_handled clients managers net reached index v listed
    obtain ⟨_, owner, n, asked, found⟩ :=
      handled_computed clients managers net reached index env st draw tag p cycles cpuTime happened isFactor
    obtain ⟨args, typed, left⟩ := asked.typed
    refine ⟨owner, args, n, p, cycles, cpuTime, typed, asked, found, rfl, fun unspilled => ?_⟩
    have exact := unspilled_up_to args.n unspilled
    have inRequest := found_divides net n p cycles cpuTime found (left_exact args.n n left exact)
    exact ⟨inRequest, dvd_trans inRequest (left.divides exact)⟩
  · intro env st draw tag happened affected
    obtain ⟨p, cycles, cpuTime, isFactor⟩ := affected_factor st draw env.msg affected
    obtain ⟨_, owner, computed⟩ :=
      handled_computed clients managers net reached index env st draw tag p cycles cpuTime happened isFactor
    exact ⟨owner, p, cycles, cpuTime, isFactor, isFactor ▸ computed⟩

def foundForOther : List Move :=
  requestToWorker ++ workerAnswers 0 0 ++
    [.start (.client 1) (drawing 0), .dispatch 0, .arrive 0, .arrive 0, .handle (.manager 0) (drawing 0),
      .handle (.manager 0) (drawing 0), .dispatch 2, .arrive 0, .handle (.client 1) (drawing 0)]

theorem results_shared_three : ∃ net : Cluster,
    (system [typing 15, typing 7] [offering 1]).Reach Lts.anyStep net ∧
      factorList (.client 1) (net.node (.client 1)).history = [3] ∧
      ∃ owner args n, [typing 15, typing 7][owner]? = some args ∧ AskedBy [typing 15, typing 7] net owner n ∧
        (3 : Int) ∣ n.val ∧ (3 : Int) ∣ args.n.val := by
  obtain ⟨net, reached, passed⟩ := (system [typing 15, typing 7] [offering 1]).run_finds Lts.anyStep foundForOther
    (fun net => decide (factorList (.client 1) (net.node (.client 1)).history = [3])) (by decide +kernel)
  have entries := of_decide_eq_true passed
  obtain ⟨owner, args, n, _, _, _, typed, asked, _, _, divides⟩ :=
    (results_shared [typing 15, typing 7] [offering 1] net reached 1).1 3 (by rw [entries]; exact List.mem_singleton_self 3)
  have small : ∀ args ∈ [typing 15, typing 7], args.n.val.natAbs < carryFree := by decide +kernel
  refine ⟨net, reached, entries, owner, args, n, typed, asked, divides ?_⟩
  exact carry_free_unspilled args.n (small args (List.mem_of_getElem? typed))

theorem results_disturbed : ∃ net : Cluster,
    (system [typing 15, typing 7] [offering 1]).Reach Lts.anyStep net ∧
      factorList (.client 1) (net.node (.client 1)).history = [3] ∧ ¬ (3 : Int) ∣ (typing 7).n.val ∧
      ∃ env st draw tag, .handled env (.client st) draw tag ∈ (net.node (.client 1)).history ∧
        requestsOf (Client.react st draw env.msg).effects = [Int512.ofNat 7] := by
  obtain ⟨net, reached, passed⟩ := (system [typing 15, typing 7] [offering 1]).run_finds Lts.anyStep foundForOther
    (fun net => decide (factorList (.client 1) (net.node (.client 1)).history = [3] ∧
      ∃ event ∈ (net.node (.client 1)).history, handlesFactor event = true ∧
        requestsOf (event.effects behaviour (.client 1)) = [Int512.ofNat 7])) (by decide +kernel)
  obtain ⟨entries, event, happened, isFactor, asks⟩ := of_decide_eq_true passed
  have role := ((system_origin _ _ _ net reached).nodes (.client 1)).history event happened
  refine ⟨net, reached, entries, by decide +kernel, ?_⟩
  cases event with
  | arrived env => cases isFactor
  | started state draw tag => cases isFactor
  | handled env state draw tag =>
      cases state with
      | client st => exact ⟨env, st, draw, tag, happened, asks⟩
      | manager st => exact False.elim role.2
      | worker st => exact False.elim role.2

end VsLab
