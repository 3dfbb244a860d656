import VsLab.Routing

set_option autoImplicit false

namespace VsLab

open Actors

def carries (kind : Msg → Bool) (pick : Nat → Bool) (env : Mail) : Bool := kind env.msg && pick env.tag

def passing (grp : Group) (kind : Msg → Bool) (pick : Nat → Bool) (env : Mail) : Bool :=
  decide (env.via = some grp) && carries kind pick env

def allTags : Nat → Bool := fun _ => true

def oneTag (tag : Nat) : Nat → Bool := fun other => other == tag

theorem passing_of_groups (grp : Group) (kind : Msg → Bool) (pick : Nat → Bool) : OfGroups (passing grp kind pick) := by
  intro env passes direct
  simp [passing, direct] at passes

theorem carries_iff (kind : Msg → Bool) (pick : Nat → Bool) (env : Mail) :
    carries kind pick env = true ↔ kind env.msg = true ∧ pick env.tag = true := Bool.and_eq_true_iff

theorem passing_iff (grp : Group) (kind : Msg → Bool) (pick : Nat → Bool) (env : Mail) :
    passing grp kind pick env = true ↔ env.via = some grp ∧ kind env.msg = true ∧ pick env.tag = true := by
  rw [passing, Bool.and_eq_true_iff, decide_eq_true_eq, carries_iff]

theorem one_tag_iff (tag other : Nat) : oneTag tag other = true ↔ other = tag := beq_iff_eq

theorem result_no_calculate (msg : Msg) (isResult : Manager.isResult msg = true) : ¬ isCalculate msg = true := by
  cases msg with
  | factor p cycles cpuTime => exact Bool.false_ne_true
  | nofactor cpuTime => exact Bool.false_ne_true
  | _ => cases isResult

def OnlyRelayed (kind : Msg → Bool) : Prop := kind .pong = false ∧ kind .suicide = false

theorem manager_publishes (kind : Msg → Bool) (pick : Nat → Bool) (relayed : OnlyRelayed kind) (self : Address) (tag : Nat)
    (st : ManagerState) (msg : Msg) :
    (published self tag (Manager.react st msg).effects).countP (carries kind pick) ≤
      if kind msg && pick tag then 1 else 0 := by
  have none : ∀ (server : Option Group) (other : Msg), kind other = false →
      (published self tag (sendTo server other)).countP (carries kind pick) = 0 := by
    intro server other unlike
    cases server <;> simp [sendTo, published, carries, unlike]
  have one : ∀ server : Option Group, (published self tag (sendTo server msg)).countP (carries kind pick) ≤
      if kind msg && pick tag then 1 else 0 := by
    intro server
    cases server with
    | none => exact Nat.zero_le _
    | some grp => simp [sendTo, published, carries, List.countP_cons]
  have turn := Manager.react_turn st msg
  generalize Manager.react st msg = r at turn ⊢
  cases turn with
  | ignored _ => exact Nat.zero_le _
  | ponged =>
      rw [none st.server .pong relayed.1]
      exact Nat.zero_le _
  | spawned =>
      have nothing : published (G := Group) (M := Msg) self tag (Manager.spawnWorkers st) = [] := by
        simp [published, Manager.spawnWorkers]
      rw [nothing]
      exact Nat.zero_le _
  | killed =>
      have nothing : (published self tag
          (List.replicate st.workers.toNat (.publish (Manager.wkrGrp st) .suicide : Doing))).countP (carries kind pick) = 0 := by
        simp [published, carries, relayed.2]
      rw [nothing]
      exact Nat.zero_le _
  | up _ isResult => exact one st.server
  | down n => simp [published, carries, List.countP_cons]
  | quit => exact Nat.zero_le _

def RelayEvent : Past → Prop
  | .arrived _ => True
  | .started state _ _ => ∃ st, state = .manager st
  | .handled env state _ tag => (∃ st, state = .manager st) ∧ tag = env.tag

theorem relay_history (kind : Msg → Bool) (pick : Nat → Bool) (relayed : OnlyRelayed kind) (self : Address)
    (history : List Past) (events : ∀ event ∈ history, RelayEvent event) :
    (publishedBy behaviour self history).countP (carries kind pick) ≤ history.countP (Event.isHandled (carries kind pick)) := by
  induction history with
  | nil => exact Nat.le_refl _
  | cons event rest ih =>
      have earlier := ih (fun other member => events other (List.mem_cons_of_mem _ member))
      have latest := events event List.mem_cons_self
      have split : publishedBy behaviour self (event :: rest) =
          published self event.tag (event.effects behaviour self) ++ publishedBy behaviour self rest := by
        simp [publishedBy]
      rw [split, List.countP_append]
      cases event with
      | arrived env =>
          rw [handlings_arrived]
          simpa [Event.effects, published] using earlier
      | started state draw tag =>
          obtain ⟨st, rfl⟩ := latest
          have nothing : published self tag (Manager.start st draw).effects = [] := by
            unfold Manager.start
            split <;> simp [published]
          rw [handlings_started]
          simpa [Event.effects, Event.tag, behaviour, nothing] using earlier
      | handled env state draw tag =>
          obtain ⟨⟨st, rfl⟩, rfl⟩ := latest
          have step := manager_publishes kind pick relayed self env.tag st env.msg
          rw [handlings_handled]
          change (published self env.tag (Manager.react st env.msg).effects).countP (carries kind pick) + _ ≤ _
          unfold carries at step earlier ⊢
          omega

section Runs

variable (clients : List ClientArgs) (managers : List ManagerArgs) (allowed : Cluster → Move → Prop) (net : Cluster)
  (reached : (system clients managers).Reach allowed net)

include reached

theorem manager_events (process : Nat) : ∀ event ∈ (net.node (.manager process)).history, RelayEvent event := by
  intro event member
  have placed := ((system_routed clients managers allowed net reached).nodes (.manager process)).history event member
  have marked := reach_events behaviour (initial clients managers) allowed
    (fun self event => ∀ env state draw tag, self = .manager process → event = .handled env state draw tag → tag = env.tag)
    (initial_history clients managers) (fun _ _ _ _ _ _ _ same => by cases same)
    (fun _ _ _ _ _ _ _ _ _ _ _ _ same => by cases same)
    (fun before self draw state env _ _ _ other current ticks mark isManager same => by
      cases same
      simp [Net.tagFor, behaviour, isManager])
    net reached (.manager process) event member
  cases event with
  | arrived env => trivial
  | started state draw tag =>
      cases state with
      | manager st => exact ⟨st, rfl⟩
      | client st => exact False.elim placed
      | worker st => exact False.elim placed
  | handled env state draw tag =>
      cases state with
      | manager st => exact ⟨⟨st, rfl⟩, marked env _ draw tag rfl rfl⟩
      | client st => exact False.elim placed.2
      | worker st => exact False.elim placed.2

theorem arrived_le_sent (actor : Address) (test : Mail → Bool) : arrivals test (net.node actor) ≤ net.sent.countP test := by
  have fresh : Flow test actor (initial clients managers) := by
    refine ⟨fun _ => List.nodup_nil, ?_⟩
    rw [arrivals, initial_history]
    simp [travelling, initial]
  have bound := (flow_run test actor behaviour (initial clients managers) allowed fresh net reached).bound
  omega

theorem relay_bound (process : Nat) (grp : Group) (kind : Msg → Bool) (pick : Nat → Bool) (relayed : OnlyRelayed kind)
    (source : ∀ before draw state env, (system clients managers).Reach allowed before →
      allowed before (.handle (.manager process) draw) →
      (before.node (.manager process)).next behaviour = some (state, env) → kind env.msg = true → env.via = some grp) :
    net.sent.countP (fun env => decide (env.sender = .manager process) && carries kind pick env) ≤
      net.sent.countP (passing grp kind pick) := by
  have sources := reach_events behaviour (initial clients managers) allowed
    (fun self event => ∀ env state draw tag, self = .manager process → event = .handled env state draw tag →
      kind env.msg = true → env.via = some grp)
    (initial_history clients managers) (fun _ _ _ _ _ _ _ same => by cases same)
    (fun _ _ _ _ _ _ _ _ _ _ _ _ same => by cases same)
    (fun before self draw state env earlier allow next other current ticks mark isManager same ofKind => by
      cases same
      subst isManager
      exact source before draw state env earlier allow next ofKind)
    net reached (.manager process)
  have own := initial_history clients managers (.manager process)
  calc net.sent.countP (fun env => decide (env.sender = .manager process) && carries kind pick env)
      = (publishedBy behaviour (.manager process) (net.node (.manager process)).history).countP (carries kind pick) :=
        sent_by_run behaviour (initial clients managers) allowed (carries kind pick) (.manager process) ⟨rfl, own⟩ net reached
    _ ≤ (net.node (.manager process)).history.countP (Event.isHandled (carries kind pick)) :=
        relay_history kind pick relayed _ _ (manager_events clients managers allowed net reached process)
    _ ≤ handlings (passing grp kind pick) (net.node (.manager process)) := by
        apply List.countP_mono_left
        intro event member handled
        cases event with
        | arrived env => cases handled
        | started state draw tag => cases handled
        | handled env state draw tag =>
            have ofKind : kind env.msg = true := (Bool.and_eq_true_iff.mp handled).1
            have via := sources _ member env state draw tag rfl rfl ofKind
            simpa [Event.isHandled, passing, via] using handled
    _ ≤ arrivals (passing grp kind pick) (net.node (.manager process)) := by
        have waiting : ((initial clients managers).node (.manager process)).mailbox = [] := by
          cases found : managers[process]? <;> simp [initial, found, Node.vacant, managerNode, Node.fresh]
        have bound := handled_le_arrived (passing grp kind pick) behaviour (initial clients managers) allowed
          (.manager process) (passing_of_groups grp kind pick) ⟨waiting, own⟩ net reached
        omega
    _ ≤ net.sent.countP (passing grp kind pick) := arrived_le_sent clients managers allowed net reached _ _

end Runs

theorem client_single (self : Address) (tag : Nat) (st : ClientState) (draw : Draw) (msg : Msg) :
    (published self tag (Client.react st draw msg).effects).length ≤ 1 := by
  have once : ∀ (server : Option Group) (other : Msg), (published self tag (sendTo server other)).length ≤ 1 := by
    intro server other
    cases server <;> simp [sendTo, published]
  have turn := Client.react_turn st draw msg
  generalize Client.react st draw msg = r at turn ⊢
  cases turn with
  | ignored _ other => exact Nat.zero_le _
  | left => exact Nat.zero_le _
  | pinged => exact once st.server .ping
  | waited cpuTime => exact Nat.zero_le _
  | divided p cycles cpuTime =>
      simp only [Client.factor]
      split
      · exact Nat.zero_le _
      · exact Nat.zero_le _
      · split
        · simp
        · split
          · simp [published]
          · simpa using once st.server _

theorem worker_single (self : Address) (tag : Nat) (st : WorkerState) (draw : Draw) (msg : Msg) :
    (published self tag (Worker.react st draw msg).effects).length ≤ 1 := by
  have turn := Worker.react_turn st draw msg
  generalize Worker.react st draw msg = r at turn ⊢
  cases turn <;> simp [published]

theorem system_tagged (clients : List ClientArgs) (managers : List ManagerArgs) (allowed : Cluster → Move → Prop)
    (net : Cluster) (reached : (system clients managers).Reach allowed net) : Tagged behaviour net := by
  refine tags_run behaviour (initial clients managers) allowed rfl ?_ ?_ net reached
  · intro before self draw state earlier original status tag
    have placed := ((system_routed clients managers allowed before earlier).nodes self).status
    rw [status] at placed
    cases state with
    | client st =>
        simp only [behaviour, Client.start]
        split <;> simp [published]
    | manager st =>
        obtain ⟨rfl, _⟩ := placed_manager self st placed
        cases original
    | worker st => exact Nat.zero_le _
  · intro before self draw state env earlier original next tag
    obtain ⟨status, _⟩ := (Node.next_some behaviour _ state env).mp next
    have placed := ((system_routed clients managers allowed before earlier).nodes self).status
    rw [status] at placed
    cases state with
    | client st => exact client_single self tag st draw env.msg
    | manager st =>
        obtain ⟨rfl, _⟩ := placed_manager self st placed
        cases original
    | worker st => exact worker_single self tag st draw env.msg

section Downstream

def DownstreamMove (net : Cluster) : Move → Prop
  | .handle (.manager process) _ => ∀ next ∈ (net.node (.manager process)).next behaviour,
      isCalculate next.2.msg = true → next.2.via = some .server
  | _ => True

instance (net : Cluster) (move : Move) : Decidable (DownstreamMove net move) :=
  match move with
  | .handle (.manager process) _ => inferInstanceAs (Decidable (∀ next ∈ (net.node (.manager process)).next behaviour,
      isCalculate next.2.msg = true → next.2.via = some .server))
  | .handle (.client _) _ => inferInstanceAs (Decidable True)
  | .handle (.worker _ _) _ => inferInstanceAs (Decidable True)
  | .start _ _ => inferInstanceAs (Decidable True)
  | .dispatch _ => inferInstanceAs (Decidable True)
  | .arrive _ => inferInstanceAs (Decidable True)

def isClient : Address → Bool
  | .client _ => true
  | _ => false

theorem client_no_relay (sender : Address) (client : isClient sender = true) : behaviour.relays sender = false := by
  cases sender with
  | client index => rfl
  | manager process => cases client
  | worker process index => cases client

def fromClients (env : Mail) : Bool := isClient env.sender && passing .server isCalculate allTags env

variable (clients : List ClientArgs) (managers : List ManagerArgs) (net : Cluster)
  (reached : (system clients managers).Reach DownstreamMove net)

theorem server_calculate_sender (env : Mail) (routed : Routed env) (through : env.via = some .server)
    (request : isCalculate env.msg = true) : isClient env.sender = true := by
  rcases routed_through env _ routed through with
    ⟨_, ⟨index, sender⟩, _⟩ | ⟨_, _, pong | isResult⟩ | ⟨_, wrong, _⟩ | ⟨_, _, wrong, _⟩
  · rw [sender]
    rfl
  · rw [pong] at request
    cases request
  · exact absurd request (result_no_calculate env.msg isResult)
  · cases wrong
  · cases wrong

theorem worker_group_calculate_sender (process : Nat) (env : Mail) (routed : Routed env)
    (through : env.via = some (.workers process)) (request : isCalculate env.msg = true) :
    env.sender = .manager process := by
  rcases routed_through env _ routed through with
    ⟨wrong, _⟩ | ⟨wrong, _⟩ | ⟨other, same, sender, _⟩ | ⟨_, _, _, _, isResult⟩
  · cases wrong
  · cases wrong
  · cases same
    exact sender
  · exact absurd request (result_no_calculate env.msg isResult)

include reached

theorem downstream_bound (process : Nat) (pick : Nat → Bool) :
    net.sent.countP (passing (.workers process) isCalculate pick) ≤ net.sent.countP (passing .server isCalculate pick) := by
  have routed := (system_routed clients managers DownstreamMove net reached).sent
  calc net.sent.countP (passing (.workers process) isCalculate pick)
      ≤ net.sent.countP (fun env => decide (env.sender = .manager process) && carries isCalculate pick env) := by
        apply List.countP_mono_left
        intro env member passes
        obtain ⟨via, request, picked⟩ := (passing_iff _ _ _ env).mp passes
        have sender := worker_group_calculate_sender process env (routed env member) via request
        exact Bool.and_eq_true_iff.mpr ⟨decide_eq_true sender, (carries_iff _ _ env).mpr ⟨request, picked⟩⟩
    _ ≤ net.sent.countP (passing .server isCalculate pick) := by
        refine relay_bound clients managers DownstreamMove net reached process .server isCalculate pick ⟨rfl, rfl⟩ ?_
        intro before draw state env _ allow next request
        exact allow (state, env) next request

theorem requests_relayed_once :
    (∀ process index tag,
      arrivals (passing (.workers process) isCalculate (oneTag tag)) (net.node (.worker process index)) ≤ 1) ∧
    ∀ process, net.sent.countP (fun env => decide (env.sender = .manager process) &&
        passing (.workers process) isCalculate allTags env) ≤ net.sent.countP fromClients := by
  have routed := (system_routed clients managers DownstreamMove net reached).sent
  refine ⟨?_, ?_⟩
  · intro process index tag
    have once : net.sent.countP (passing .server isCalculate (oneTag tag)) ≤ 1 := by
      refine tag_once behaviour _ net (system_tagged clients managers DownstreamMove net reached) tag ?_
      intro env member passes
      obtain ⟨via, request, picked⟩ := (passing_iff _ _ _ env).mp passes
      have client := server_calculate_sender env (routed env member) via request
      exact ⟨client_no_relay env.sender client, (one_tag_iff tag env.tag).mp picked⟩
    have delivered := arrived_le_sent clients managers DownstreamMove net reached (.worker process index)
      (passing (.workers process) isCalculate (oneTag tag))
    have passedOn := downstream_bound clients managers net reached process (oneTag tag)
    omega
  · intro process
    calc net.sent.countP (fun env => decide (env.sender = .manager process) &&
          passing (.workers process) isCalculate allTags env)
        ≤ net.sent.countP (passing (.workers process) isCalculate allTags) := by
          apply List.countP_mono_left
          intro env _ passes
          exact (Bool.and_eq_true_iff.mp passes).2
      _ ≤ net.sent.countP (passing .server isCalculate allTags) :=
          downstream_bound clients managers net reached process allTags
      _ ≤ net.sent.countP fromClients := by
          apply List.countP_mono_left
          intro env member passes
          obtain ⟨via, request, _⟩ := (passing_iff _ _ _ env).mp passes
          have client := server_calculate_sender env (routed env member) via request
          exact Bool.and_eq_true_iff.mpr ⟨client, passes⟩

end Downstream

theorem requests_once_eight : ∃ net : Cluster,
    (system [typing 8] [offering 1]).Reach DownstreamMove net ∧
      arrivals (passing (.workers 0) isCalculate (oneTag 3)) (net.node (.worker 0 0)) = 1 ∧
      arrivals (passing (.workers 0) isCalculate (oneTag 3)) (net.node (.worker 0 0)) ≤ 1 := by
  obtain ⟨net, reached, passed⟩ := (system [typing 8] [offering 1]).run_finds DownstreamMove requestToWorker
    (fun net => decide (arrivals (passing (.workers 0) isCalculate (oneTag 3)) (net.node (.worker 0 0)) = 1))
    (by decide +kernel)
  exact ⟨net, reached, of_decide_eq_true passed, (requests_relayed_once _ _ net reached).1 0 0 3⟩

theorem requests_relayed_twice : ∃ net : Cluster,
    (system [typing 8] [offering 1]).Reach Lts.anyStep net ∧ net.sent.countP fromClients = 1 ∧
      net.sent.countP (fun env => decide (env.sender = .manager 0) && passing (.workers 0) isCalculate allTags env) = 2 ∧
      arrivals (passing (.workers 0) isCalculate (oneTag 3)) (net.node (.worker 0 0)) = 2 := by
  obtain ⟨net, reached, passed⟩ := (system [typing 8] [offering 1]).run_finds Lts.anyStep
    (requestToWorker ++ [.handle (.manager 0) (drawing 0), .dispatch 0, .arrive 0])
    (fun net => decide (net.sent.countP fromClients = 1 ∧
      net.sent.countP (fun env => decide (env.sender = .manager 0) && passing (.workers 0) isCalculate allTags env) = 2 ∧
      arrivals (passing (.workers 0) isCalculate (oneTag 3)) (net.node (.worker 0 0)) = 2)) (by decide +kernel)
  exact ⟨net, reached, of_decide_eq_true passed⟩

section Upstream

def UpstreamMove (net : Cluster) : Move → Prop
  | .handle (.manager process) _ => ∀ next ∈ (net.node (.manager process)).next behaviour,
      Manager.isResult next.2.msg = true → next.2.via = some (.workers process)
  | _ => True

instance (net : Cluster) (move : Move) : Decidable (UpstreamMove net move) :=
  match move with
  | .handle (.manager process) _ => inferInstanceAs (Decidable (∀ next ∈ (net.node (.manager process)).next behaviour,
      Manager.isResult next.2.msg = true → next.2.via = some (.workers process)))
  | .handle (.client _) _ => inferInstanceAs (Decidable True)
  | .handle (.worker _ _) _ => inferInstanceAs (Decidable True)
  | .start _ _ => inferInstanceAs (Decidable True)
  | .dispatch _ => inferInstanceAs (Decidable True)
  | .arrive _ => inferInstanceAs (Decidable True)

def isWorker : Address → Bool
  | .worker _ _ => true
  | _ => false

theorem worker_no_relay (sender : Address) (worker : isWorker sender = true) : behaviour.relays sender = false := by
  cases sender with
  | worker process index => rfl
  | client index => cases worker
  | manager process => cases worker

def fromWorkers (kind : Msg → Bool) (env : Mail) : Bool := isWorker env.sender && carries kind allTags env

theorem server_result_sender (env : Mail) (routed : Routed env) (through : env.via = some .server)
    (isResult : Manager.isResult env.msg = true) : ∃ process, env.sender = .manager process := by
  rcases routed_through env _ routed through with
    ⟨_, _, ⟨n, same⟩ | same⟩ | ⟨_, sender, _⟩ | ⟨_, wrong, _⟩ | ⟨_, _, wrong, _⟩
  · rw [same] at isResult
    cases isResult
  · rw [same] at isResult
    cases isResult
  · exact sender
  · cases wrong
  · cases wrong

theorem worker_group_result_sender (process : Nat) (env : Mail) (routed : Routed env)
    (through : env.via = some (.workers process)) (isResult : Manager.isResult env.msg = true) :
    isWorker env.sender = true := by
  rcases routed_through env _ routed through with
    ⟨wrong, _⟩ | ⟨wrong, _⟩ | ⟨_, _, _, ⟨n, same⟩ | same⟩ | ⟨_, _, _, sender, _⟩
  · cases wrong
  · cases wrong
  · rw [same] at isResult
    cases isResult
  · rw [same] at isResult
    cases isResult
  · rw [sender]
    rfl

variable (clients : List ClientArgs) (managers : List ManagerArgs) (net : Cluster)
  (reached : (system clients managers).Reach UpstreamMove net)

include reached

theorem upstream_bound (process : Nat) (kind : Msg → Bool) (pick : Nat → Bool)
    (results : ∀ msg, kind msg = true → Manager.isResult msg = true) :
    net.sent.countP (fun env => decide (env.sender = .manager process) && carries kind pick env) ≤
      net.sent.countP (passing (.workers process) kind pick) := by
  have relayed : OnlyRelayed kind := by
    refine ⟨?_, ?_⟩
    · cases pong : kind .pong with
      | false => rfl
      | true => cases results _ pong
    · cases suicide : kind .suicide with
      | false => rfl
      | true => cases results _ suicide
  refine relay_bound clients managers UpstreamMove net reached process (.workers process) kind pick relayed ?_
  intro before draw state env _ allow next ofKind
  exact allow (state, env) next (results _ ofKind)

theorem upstream_source (kind : Msg → Bool) (results : ∀ msg, kind msg = true → Manager.isResult msg = true) (env : Mail)
    (member : env ∈ net.sent) (process : Nat) (sender : env.sender = .manager process) (ofKind : kind env.msg = true) :
    ∃ origin ∈ net.sent, origin.via = some (.workers process) ∧ kind origin.msg = true ∧ origin.tag = env.tag ∧
      isWorker origin.sender = true := by
  have bound := upstream_bound clients managers net reached process kind (oneTag env.tag) results
  have one : 0 < net.sent.countP
      (fun other => decide (other.sender = .manager process) && carries kind (oneTag env.tag) other) := by
    apply List.countP_pos_iff.mpr
    exact ⟨env, member, by simp [sender, carries, ofKind, oneTag]⟩
  obtain ⟨origin, present, passes⟩ := List.countP_pos_iff.mp (Nat.lt_of_lt_of_le one bound)
  obtain ⟨via, originKind, picked⟩ := (passing_iff _ _ _ origin).mp passes
  have routed := (system_routed clients managers UpstreamMove net reached).sent origin present
  exact ⟨origin, present, via, originKind, (one_tag_iff _ _).mp picked,
    worker_group_result_sender process origin routed via (results _ originKind)⟩

theorem worker_tag_unique (first second : Mail) (one : first ∈ net.sent) (two : second ∈ net.sent)
    (isFirst : isWorker first.sender = true) (isSecond : isWorker second.sender = true) (same : first.tag = second.tag) :
    first = second := by
  have original : ∀ env ∈ net.sent, isWorker env.sender = true → env ∈ originals behaviour net := by
    intro env member worker
    refine List.mem_filter.mpr ⟨member, ?_⟩
    rw [worker_no_relay env.sender worker]
    rfl
  exact List.inj_on_of_nodup_map (system_tagged clients managers UpstreamMove net reached).distinct
    (original first one isFirst) (original second two isSecond) same

theorem server_result_once (tag : Nat) :
    net.sent.countP (passing .server Manager.isResult (oneTag tag)) ≤ 1 := by
  have routed := (system_routed clients managers UpstreamMove net reached).sent
  by_cases none : net.sent.countP (passing .server Manager.isResult (oneTag tag)) = 0
  · omega
  · obtain ⟨first, member, passes⟩ := List.countP_pos_iff.mp (Nat.pos_of_ne_zero none)
    obtain ⟨through, isResult, picked⟩ := (passing_iff _ _ _ first).mp passes
    obtain ⟨process, sender⟩ := server_result_sender first (routed first member) through isResult
    obtain ⟨origin, present, via, _, marked, isOrigin⟩ := upstream_source clients managers net reached Manager.isResult
      (fun _ same => same) first member process sender isResult
    -- Every other copy comes from the same worker message, so from the same manager.
    have sole : ∀ env ∈ net.sent, passing .server Manager.isResult (oneTag tag) env = true →
        env.sender = .manager process := by
      intro env here also
      obtain ⟨otherThrough, otherResult, otherPicked⟩ := (passing_iff _ _ _ env).mp also
      obtain ⟨other, otherSender⟩ := server_result_sender env (routed env here) otherThrough otherResult
      obtain ⟨second, there, otherVia, _, otherMarked, isSecond⟩ := upstream_source clients managers net reached
        Manager.isResult (fun _ same => same) env here other otherSender otherResult
      have same := worker_tag_unique clients managers net reached origin second present there isOrigin isSecond
        (by rw [marked, otherMarked, (one_tag_iff _ _).mp picked, (one_tag_iff _ _).mp otherPicked])
      rw [same, otherVia] at via
      cases via
      exact otherSender
    calc net.sent.countP (passing .server Manager.isResult (oneTag tag))
        ≤ net.sent.countP (fun env => decide (env.sender = .manager process) &&
            carries Manager.isResult (oneTag tag) env) := by
          apply List.countP_mono_left
          intro env here also
          simp only [sole env here also, decide_true, Bool.true_and]
          exact (Bool.and_eq_true_iff.mp also).2
      _ ≤ net.sent.countP (passing (.workers process) Manager.isResult (oneTag tag)) :=
          upstream_bound clients managers net reached process Manager.isResult (oneTag tag) (fun _ same => same)
      _ ≤ 1 := by
          refine tag_once behaviour _ net (system_tagged clients managers UpstreamMove net reached) tag ?_
          intro env here also
          obtain ⟨downThrough, downResult, downPicked⟩ := (passing_iff _ _ _ env).mp also
          have worker := worker_group_result_sender process env (routed env here) downThrough downResult
          exact ⟨worker_no_relay env.sender worker, (one_tag_iff _ _).mp downPicked⟩

theorem client_arrivals (index : Nat) (kind : Msg → Bool) (pick : Nat → Bool) :
    arrivals (carries kind pick) (net.node (.client index)) ≤ net.sent.countP (passing .server kind pick) := by
  refine Nat.le_trans ?_ (arrived_le_sent clients managers UpstreamMove net reached (.client index) _)
  apply List.countP_mono_left
  intro event member arrived
  cases event with
  | started state draw tag => cases arrived
  | handled env state draw tag => cases arrived
  | arrived env =>
      obtain ⟨grp, via, inGroup⟩ :=
        (system_subscribed clients managers UpstreamMove net reached).arrived (.client index) env member
      cases grp with
      | server => simpa [Event.isArrival, passing, via] using arrived
      | workers process => exact False.elim inGroup

theorem server_results_le (kind : Msg → Bool) (results : ∀ msg, kind msg = true → Manager.isResult msg = true) :
    net.sent.countP (passing .server kind allTags) ≤ net.sent.countP (fromWorkers kind) := by
  have routed := (system_routed clients managers UpstreamMove net reached).sent
  suffices tags : List.Subperm ((net.sent.filter (passing .server kind allTags)).map fun env => env.tag)
      ((net.sent.filter (fromWorkers kind)).map fun env => env.tag) by
    rw [List.countP_eq_length_filter, List.countP_eq_length_filter]
    simpa only [List.length_map] using tags.length_le
  apply List.Nodup.subperm
  · apply List.nodup_iff_count_le_one.mpr
    intro tag
    rw [List.count_eq_countP, List.countP_map, List.countP_filter]
    refine Nat.le_trans ?_ (server_result_once clients managers net reached tag)
    apply List.countP_mono_left
    intro env _ passes
    obtain ⟨isTag, selected⟩ := Bool.and_eq_true_iff.mp passes
    obtain ⟨via, ofKind, _⟩ := (passing_iff _ _ _ env).mp selected
    exact (passing_iff _ _ _ env).mpr ⟨via, results _ ofKind, isTag⟩
  · intro tag listed
    obtain ⟨env, member, rfl⟩ := List.mem_map.mp listed
    obtain ⟨present, passes⟩ := List.mem_filter.mp member
    obtain ⟨via, isKind, _⟩ := (passing_iff _ _ _ env).mp passes
    obtain ⟨process, sender⟩ := server_result_sender env (routed env present) via (results _ isKind)
    obtain ⟨origin, there, _, ofKind, same, isOrigin⟩ :=
      upstream_source clients managers net reached kind results env present process sender isKind
    refine List.mem_map.mpr ⟨origin, List.mem_filter.mpr ⟨there, ?_⟩, same⟩
    simp [fromWorkers, carries, allTags, isOrigin, ofKind]

theorem results_relayed_once :
    (∀ index tag, arrivals (carries Manager.isResult (oneTag tag)) (net.node (.client index)) ≤ 1) ∧
    (∀ index, arrivals (carries isFactor allTags) (net.node (.client index)) ≤ net.sent.countP (fromWorkers isFactor)) ∧
    ∀ index, arrivals (carries isNofactor allTags) (net.node (.client index)) ≤
      net.sent.countP (fromWorkers isNofactor) := by
  refine ⟨?_, ?_, ?_⟩
  · intro index tag
    exact Nat.le_trans (client_arrivals clients managers net reached index _ _)
      (server_result_once clients managers net reached tag)
  · intro index
    refine Nat.le_trans (client_arrivals clients managers net reached index _ _)
      (server_results_le clients managers net reached isFactor ?_)
    intro msg ofKind
    cases msg <;> first | rfl | cases ofKind
  · intro index
    refine Nat.le_trans (client_arrivals clients managers net reached index _ _)
      (server_results_le clients managers net reached isNofactor ?_)
    intro msg ofKind
    cases msg <;> first | rfl | cases ofKind

end Upstream

theorem results_once_eight : ∃ net : Cluster,
    (system [typing 8] [offering 1]).Reach UpstreamMove net ∧
      arrivals (carries isFactor allTags) (net.node (.client 0)) = 1 ∧
      arrivals (carries isFactor allTags) (net.node (.client 0)) ≤ net.sent.countP (fromWorkers isFactor) := by
  obtain ⟨net, reached, passed⟩ := (system [typing 8] [offering 1]).run_finds UpstreamMove
    (requestToWorker ++ workerAnswers 1 7 ++ answerToClient)
    (fun net => decide (arrivals (carries isFactor allTags) (net.node (.client 0)) = 1)) (by decide +kernel)
  exact ⟨net, reached, of_decide_eq_true passed, (results_relayed_once _ _ net reached).2.1 0⟩

theorem results_relayed_twice : ∃ net : Cluster,
    (system [typing 8] [offering 1]).Reach Lts.anyStep net ∧ net.sent.countP (fromWorkers isFactor) = 1 ∧
      arrivals (carries isFactor (oneTag 6)) (net.node (.client 0)) = 2 := by
  obtain ⟨net, reached, passed⟩ := (system [typing 8] [offering 1]).run_finds Lts.anyStep
    (requestToWorker ++ workerAnswers 1 7 ++ answerToClient ++
      [.handle (.manager 0) (drawing 0), .dispatch 2, .arrive 0])
    (fun net => decide (net.sent.countP (fromWorkers isFactor) = 1 ∧
      arrivals (carries isFactor (oneTag 6)) (net.node (.client 0)) = 2)) (by decide +kernel)
  exact ⟨net, reached, of_decide_eq_true passed⟩

end VsLab
