import VsLab.FactorSoundness
import VsLab.Actors.Conservation

set_option autoImplicit false

namespace VsLab

open Actors

def Routed (env : Mail) : Prop :=
  match env.sender with
  | .client _ => env.via = some .server ∧ ((∃ n, env.msg = .calculate n) ∨ env.msg = .ping)
  | .manager process =>
      (env.via = none ∧ env.msg = .sWorkers) ∨
      (env.via = some .server ∧ (env.msg = .pong ∨ Manager.isResult env.msg = true)) ∨
      (env.via = some (.workers process) ∧ ((∃ n, env.msg = .calculate n) ∨ env.msg = .suicide))
  | .worker process _ => env.via = none ∨ (env.via = some (.workers process) ∧ Manager.isResult env.msg = true)

def Placed : Address → ActorState → Prop
  | .client _, .client st => ∀ grp, st.server = some grp → grp = .server
  | .manager process, .manager st => st.process = process ∧ ∀ grp, st.server = some grp → grp = .server
  | .worker process _, .worker st => st.server = .workers process
  | _, _ => False

theorem routed_through (env : Mail) (grp : Group) (routed : Routed env) (through : env.via = some grp) :
    (grp = .server ∧ (∃ index, env.sender = .client index) ∧ ((∃ n, env.msg = .calculate n) ∨ env.msg = .ping)) ∨
    (grp = .server ∧ (∃ process, env.sender = .manager process) ∧
      (env.msg = .pong ∨ Manager.isResult env.msg = true)) ∨
    (∃ process, grp = .workers process ∧ env.sender = .manager process ∧
      ((∃ n, env.msg = .calculate n) ∨ env.msg = .suicide)) ∨
    (∃ process index, grp = .workers process ∧ env.sender = .worker process index ∧
      Manager.isResult env.msg = true) := by
  unfold Routed at routed
  rw [through] at routed
  cases sender : env.sender with
  | client index =>
      rw [sender] at routed
      exact .inl ⟨Option.some.inj routed.1, ⟨index, rfl⟩, routed.2⟩
  | manager process =>
      rw [sender] at routed
      rcases routed with ⟨direct, _⟩ | ⟨via, sent⟩ | ⟨via, sent⟩
      · cases direct
      · exact .inr (.inl ⟨Option.some.inj via, ⟨process, rfl⟩, sent⟩)
      · exact .inr (.inr (.inl ⟨process, Option.some.inj via, rfl, sent⟩))
  | worker process index =>
      rw [sender] at routed
      rcases routed with direct | ⟨via, isResult⟩
      · cases direct
      · exact .inr (.inr (.inr ⟨process, index, Option.some.inj via, rfl, isResult⟩))

section Handlers

variable (self : Address) (tag : Nat)

theorem placed_client (st : ClientState) (placed : Placed self (.client st)) :
    ∃ index, self = .client index ∧ ∀ grp, st.server = some grp → grp = .server := by
  cases self with
  | client index => exact ⟨index, rfl, placed⟩
  | manager process => exact False.elim placed
  | worker process index => exact False.elim placed

theorem placed_manager (st : ManagerState) (placed : Placed self (.manager st)) :
    self = .manager st.process ∧ ∀ grp, st.server = some grp → grp = .server := by
  cases self with
  | manager process => exact ⟨by rw [placed.1], placed.2⟩
  | client index => exact False.elim placed
  | worker process index => exact False.elim placed

theorem placed_worker (st : WorkerState) (placed : Placed self (.worker st)) :
    ∃ process index, self = .worker process index ∧ st.server = .workers process := by
  cases self with
  | worker process index => exact ⟨process, index, rfl, placed⟩
  | client index => exact False.elim placed
  | manager process => exact False.elim placed

theorem client_routed (st : ClientState) (draw : Draw) (msg : Msg) (placed : Placed self (.client st))
    (big : ∀ p cycles cpuTime, msg = .factor p cycles cpuTime → 2 ≤ p.val) :
    (Client.react st draw msg).Sound Routed Placed self tag := by
  obtain ⟨index, rfl, connected⟩ := placed_client self st placed
  refine client_react_sound _ _ _ tag st draw msg big ?_ (fun _ => placed) ?_
  · intro grp server
    exact ⟨by rw [connected grp server], .inr rfl⟩
  · intro p cycles cpuTime m k _ _ _ _ _
    exact ⟨fun grp server => ⟨by rw [connected grp server], .inl ⟨m, rfl⟩⟩, fun _ _ => placed⟩

theorem manager_routed (st : ManagerState) (msg : Msg) (placed : Placed self (.manager st)) :
    (Manager.react st msg).Sound Routed Placed self tag := by
  obtain ⟨rfl, connected⟩ := placed_manager self st placed
  refine manager_react_sound _ _ _ tag st msg ?_ ?_ ?_ ?_ (fun _ => rfl) (fun _ => ⟨rfl, connected⟩)
  · intro grp server
    exact .inr (.inl ⟨by rw [connected grp server], .inl rfl⟩)
  · exact .inr (.inr ⟨rfl, .inr rfl⟩)
  · intro isResult grp server
    exact .inr (.inl ⟨by rw [connected grp server], .inr isResult⟩)
  · intro n isCalculate
    exact .inr (.inr ⟨rfl, .inl ⟨n, isCalculate⟩⟩)

theorem worker_routed (st : WorkerState) (draw : Draw) (msg : Msg) (placed : Placed self (.worker st)) :
    (Worker.react st draw msg).Sound Routed Placed self tag := by
  obtain ⟨process, index, rfl, group⟩ := placed_worker self st placed
  have turn := Worker.react_turn st draw msg
  generalize Worker.react st draw msg = r at turn ⊢
  cases turn with
  | ignored _ _ _ => exact ⟨by simp, placed⟩
  | raised _ n asked zero => exact ⟨by simp, trivial⟩
  | began n a nonzero drawn => exact ⟨by simp [Effect.Fine, Routed], placed⟩
  | found n a cycles cpuTime p i nonzero big divides tested sliced =>
      exact ⟨by simp [Effect.Fine, Routed, group, Manager.isResult], placed⟩
  | went n a cycles later cpuTime nonzero => exact ⟨by simp [Effect.Fine, Routed], placed⟩
  | gaveUp n a cycles cpuTime nonzero sliced =>
      exact ⟨by simp [Effect.Fine, Routed, group, Manager.isResult], placed⟩

theorem start_routed (state : ActorState) (draw : Draw) (placed : Placed self state) :
    (behaviour.start self state draw).Sound Routed Placed self tag := by
  cases state with
  | client st =>
      obtain ⟨index, rfl, _⟩ := placed_client self st placed
      exact client_start_sound _ _ _ tag st draw ⟨rfl, .inl ⟨_, rfl⟩⟩ (by rintro grp ⟨⟩; rfl)
  | manager st =>
      obtain ⟨rfl, _⟩ := placed_manager self st placed
      exact manager_start_sound _ _ _ tag st draw (.inl ⟨rfl, rfl⟩) ⟨rfl, by rintro grp ⟨⟩; rfl⟩
  | worker st => exact ⟨by simp [behaviour], placed⟩

end Handlers

section Runs

variable (clients : List ClientArgs) (managers : List ManagerArgs) (allowed : Cluster → Move → Prop) (net : Cluster)
  (reached : (system clients managers).Reach allowed net)

include reached

theorem system_routed : net.Sound Routed Placed := by
  refine reach_sound _ _ behaviour _ allowed ?_ ?_ ?_ net reached
  · refine initial_sound _ _ clients managers (fun _ args _ => ?_) (fun process args _ => ⟨rfl, ?_⟩)
    · rintro grp ⟨⟩
    · rintro grp ⟨⟩
  · intro _ self draw state tag _ _ _ placed
    exact start_routed self tag state draw placed
  · intro before self draw state env tag earlier _ next placed _
    cases state with
    | client st =>
        refine client_routed self tag st draw env.msg placed ?_
        intro p cycles cpuTime isFactor
        obtain ⟨_, origin⟩ := next_origin clients managers allowed before self _ env earlier next
        rw [isFactor] at origin
        exact origin.1
    | manager st => exact manager_routed self tag st env.msg placed
    | worker st => exact worker_routed self tag st draw env.msg placed

end Runs

section Membership

def Plain : Doing → Prop
  | .join _ => False
  | .spawn _ _ _ => False
  | _ => True

theorem send_to_plain (server : Option Group) (msg : Msg) : ∀ effect ∈ sendTo server msg, Plain effect := by
  cases server <;> simp [sendTo, Plain]

theorem client_plain (st : ClientState) (draw : Draw) (msg : Msg) :
    ∀ effect ∈ (Client.react st draw msg).effects, Plain effect := by
  have prints : ∀ (count : Nat) (p : Int512) (rest : List Doing), (∀ effect ∈ rest, Plain effect) →
      ∀ effect ∈ List.replicate count (.print (.entry p)) ++ rest, Plain effect := by
    intro count p rest others effect member
    rcases List.mem_append.mp member with entry | other
    · rw [List.eq_of_mem_replicate entry]
      trivial
    · exact others effect other
  have turn := Client.react_turn st draw msg
  generalize Client.react st draw msg = r at turn ⊢
  cases turn with
  | ignored _ other => simp
  | left => simp
  | pinged => exact send_to_plain _ _
  | waited cpuTime => simp
  | divided p cycles cpuTime =>
      simp only [Client.factor]
      split
      · simp [Plain]
      · simp [Plain]
      · split
        · simp [Plain]
        · split
          · exact prints _ p _ (by simp [Plain])
          · exact prints _ p _ (send_to_plain _ _)

theorem worker_plain (st : WorkerState) (draw : Draw) (msg : Msg) :
    ∀ effect ∈ (Worker.react st draw msg).effects, Plain effect := by
  have turn := Worker.react_turn st draw msg
  generalize Worker.react st draw msg = r at turn ⊢
  cases turn <;> simp [Plain]

theorem start_spawns_nothing (self : Address) (state : ActorState) (draw : Draw) (child : Address) (born : ActorState)
    (grp : Group) : .spawn child born grp ∉ (behaviour.start self state draw).effects := by
  cases state with
  | client st =>
      simp only [behaviour, Client.start]
      split <;> simp
  | manager st =>
      simp only [behaviour, Manager.start]
      split <;> simp
  | worker st => simp [behaviour]

theorem manager_spawns (st : ManagerState) (msg : Msg) :
    ∀ effect ∈ (Manager.react st msg).effects, Plain effect ∨
      ∃ index, effect = .spawn (.worker st.process index) (.worker ⟨.workers st.process, 0⟩) (.workers st.process) := by
  have turn := Manager.react_turn st msg
  generalize Manager.react st msg = r at turn ⊢
  intro effect member
  cases turn with
  | ignored _ => cases member
  | ponged => exact .inl (send_to_plain _ _ effect member)
  | spawned =>
      obtain ⟨index, _, same⟩ := List.mem_map.mp member
      exact .inr ⟨_, same.symm⟩
  | killed =>
      rw [List.eq_of_mem_replicate member]
      exact .inl trivial
  | up _ isResult => exact .inl (send_to_plain _ _ effect member)
  | down n =>
      rw [List.mem_singleton.mp member]
      exact .inl trivial
  | quit => cases member

theorem worker_births (process index : Nat) :
    behaviour.Births (.worker process index) fun state => state = .worker ⟨.workers process, 0⟩ := by
  intro self state draw
  refine ⟨fun child grp spawns => absurd spawns (start_spawns_nothing self state draw _ child grp), ?_⟩
  intro msg child grp spawns
  cases state with
  | client st => exact False.elim (client_plain st draw msg _ spawns)
  | worker st => exact False.elim (worker_plain st draw msg _ spawns)
  | manager st =>
      rcases manager_spawns st msg _ spawns with plain | ⟨_, same⟩
      · exact False.elim plain
      · cases same
        rfl

def InGroup : Group → Address → Prop
  | .server, .worker _ _ => False
  | .workers _, .client _ => False
  | .workers process, .manager other => process = other
  | .workers process, .worker other _ => process = other
  | _, _ => True

theorem plain_joins (self : Address) (effect : Doing) (plain : Plain effect) : effect.Joins InGroup self := by
  cases effect with
  | join grp => exact False.elim plain
  | spawn child state grp => exact False.elim plain
  | send msg => trivial
  | publish grp msg => trivial
  | print out => trivial

theorem system_subscribed (clients : List ClientArgs) (managers : List ManagerArgs) (allowed : Cluster → Move → Prop)
    (net : Cluster) (reached : (system clients managers).Reach allowed net) : Subscribed InGroup net := by
  refine subscribed_run InGroup behaviour (initial clients managers) allowed ?_ ?_ ?_ net reached
  · refine ⟨by simp [initial], by simp [initial], ?_⟩
    intro actor env present
    rw [initial_history] at present
    cases present
  · intro before self draw state earlier status
    have placed := ((system_routed clients managers allowed before earlier).nodes self).status
    rw [status] at placed
    cases state with
    | client st =>
        obtain ⟨index, rfl, _⟩ := placed_client self st placed
        simp only [behaviour, Client.start]
        split
        · simp
        · next newServ answered =>
            cases remote_group_server draw _ newServ answered
            simp [Effect.Joins, InGroup]
    | manager st =>
        obtain ⟨rfl, _⟩ := placed_manager self st placed
        simp only [behaviour, Manager.start]
        split
        · simp [Effect.Joins, InGroup, Manager.wkrGrp]
        · next newServ answered =>
            cases remote_group_server draw _ newServ answered
            simp [Effect.Joins, InGroup, Manager.wkrGrp]
    | worker st => simp [behaviour]
  · intro before self draw state env _ _ effect member
    cases state with
    | client st => exact plain_joins self effect (client_plain st draw env.msg effect member)
    | worker st => exact plain_joins self effect (worker_plain st draw env.msg effect member)
    | manager st =>
        rcases manager_spawns st env.msg effect member with plain | ⟨index, rfl⟩
        · exact plain_joins self effect plain
        · rfl

end Membership

end VsLab
