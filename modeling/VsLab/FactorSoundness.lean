import VsLab.Handlers

set_option autoImplicit false

namespace VsLab

open Actors

section Origin

variable (clients : List ClientArgs) [Divider]

-- A number computed from a typed one: a divisor of it, unless one of the divisions
-- that led to it was wrong.
structure Derived (typed : Int512) (v : Int) : Prop where
  divides : ExactUpTo typed → v ∣ typed.val
  positive : 0 < typed.val → 0 < v
  nonzero : typed.val ≠ 0 → v ≠ 0

def Origin (v : Int) : Prop := ∃ args ∈ clients, Derived args.n v

def MsgOrigin : Msg → Prop
  | .calculate n => Origin clients n.val
  | .continuation n _ _ _ _ => Origin clients n.val
  | .factor p _ _ => 2 ≤ p.val ∧ Origin clients p.val
  | _ => True

def MailOrigin (env : Mail) : Prop := MsgOrigin clients env.msg

structure LeftOf (typed : Int512) (v : Int) : Prop extends Derived typed v where
  zero : typed.val = 0 → v = 0

def StateOrigin : Address → ActorState → Prop
  | .client index, .client st => ∃ args, clients[index]? = some args ∧ LeftOf args.n st.n.val
  | .manager _, .manager _ => True
  | .worker _ _, .worker _ => True
  | _, _ => False

theorem derived_self (typed : Int512) : Derived typed typed.val := ⟨fun _ => dvd_refl _, id, id⟩

theorem derived_exact (typed n : Int512) (derived : Derived typed n.val) (exact : ExactUpTo typed)
    (nonzero : typed.val ≠ 0) : ExactUpTo n :=
  exact_mono typed n exact (Int.natAbs_le_of_dvd_ne_zero (derived.divides exact) nonzero)

theorem left_exact (typed n : Int512) (left : LeftOf typed n.val) (exact : ExactUpTo typed) : ExactUpTo n := by
  by_cases zero : typed.val = 0
  · refine exact_mono typed n exact ?_
    rw [left.zero zero]
    exact Nat.zero_le _
  · exact derived_exact typed n left.toDerived exact zero

theorem derived_divisor (typed n : Int512) (v : Int) (derived : Derived typed n.val) (divides : ExactUpTo n → v ∣ n.val)
    (positive : 0 < v) : Derived typed v := by
  refine ⟨fun exact => ?_, fun _ => positive, fun _ => positive.ne'⟩
  by_cases zero : typed.val = 0
  · rw [zero]
    exact dvd_zero v
  · exact dvd_trans (divides (derived_exact typed n derived exact zero)) (derived.divides exact)

theorem state_origin (actor : Address) (st : ClientState) (own : StateOrigin clients actor (.client st)) :
    ∃ index args, actor = .client index ∧ clients[index]? = some args ∧ LeftOf args.n st.n.val := by
  cases actor with
  | client index =>
      obtain ⟨args, found, left⟩ := own
      exact ⟨index, args, rfl, found, left⟩
  | manager process => exact False.elim own
  | worker process index => exact False.elim own

theorem initial_origin (managers : List ManagerArgs) :
    (initial clients managers).Sound (MailOrigin clients) (StateOrigin clients) :=
  initial_sound _ _ clients managers (fun _ args found => ⟨args, found, derived_self args.n, id⟩) (fun _ _ _ => trivial)

end Origin

section Handlers

variable (clients : List ClientArgs) (self : Address) (tag : Nat) [Divider]

theorem manager_origin (st : ManagerState) (msg : Msg) (origin : MsgOrigin clients msg)
    (own : StateOrigin clients self (.manager st)) :
    (Manager.react st msg).Sound (MailOrigin clients) (StateOrigin clients) self tag := by
  refine manager_react_sound _ _ self tag st msg (fun _ _ => trivial) trivial (fun _ _ _ => origin) (fun _ _ => origin)
    (fun _ => trivial) ?_
  intro count
  cases self <;> exact own

theorem left_leaves (typed n p m : Int512) (k c : Nat) (left : LeftOf typed n.val) (big : 2 ≤ p.val) (nonzero : n.val ≠ 0)
    (leaves : Client.Leaves n p m k c) : LeftOf typed m.val := by
  have typedNonzero : typed.val ≠ 0 := fun zero => nonzero (left.zero zero)
  refine ⟨⟨fun exact => ?_, fun positive => ?_, fun _ => ?_⟩, fun zero => absurd zero typedNonzero⟩
  · have divided := derived_exact typed n left.toDerived exact typedNonzero n p (Nat.le_refl _) (by omega)
    obtain ⟨power, _⟩ := Client.leaves_exact n p m k c leaves (by omega) divided
    exact dvd_trans ⟨p.val ^ k, power⟩ (left.divides exact)
  · exact Client.leaves_positive n p m k c leaves big (left.positive positive)
  · exact Client.leaves_nonzero n p m k c leaves nonzero

theorem start_origin (state : ActorState) (draw : Draw) (own : StateOrigin clients self state) :
    (behaviour.start self state draw).Sound (MailOrigin clients) (StateOrigin clients) self tag := by
  cases state with
  | client st =>
      obtain ⟨index, args, rfl, found, left⟩ := state_origin clients self st own
      exact client_start_sound _ _ _ tag st draw
        ⟨args, List.mem_of_getElem? found, left.toDerived⟩ ⟨args, found, left⟩
  | manager st => exact manager_start_sound _ _ self tag st draw trivial (by cases self <;> exact own)
  | worker st => exact ⟨by simp [behaviour], own⟩

variable [LawfulDivider]

theorem worker_origin (st : WorkerState) (draw : Draw) (msg : Msg) (origin : MsgOrigin clients msg)
    (own : StateOrigin clients self (.worker st)) :
    (Worker.react st draw msg).Sound (MailOrigin clients) (StateOrigin clients) self tag := by
  have stays : ∀ id, StateOrigin clients self (.worker { st with stateId := id }) := by
    intro id
    cases self <;> exact own
  have turn := Worker.react_turn st draw msg
  generalize Worker.react st draw msg = r at turn ⊢
  cases turn with
  | ignored _ _ _ => exact ⟨by simp, own⟩
  | raised _ n asked zero => exact ⟨by simp, trivial⟩
  | began n a nonzero drawn => exact ⟨by simpa [Effect.Fine, MailOrigin, MsgOrigin] using origin, stays _⟩
  | found n a cycles cpuTime p i nonzero big divides tested sliced =>
      obtain ⟨args, member, derived⟩ := origin
      refine ⟨?_, own⟩
      simp only [List.mem_singleton, forall_eq]
      exact ⟨big, args, member, derived_divisor args.n n p.val derived divides (by omega)⟩
  | went n a cycles later cpuTime nonzero => exact ⟨by simpa [Effect.Fine, MailOrigin, MsgOrigin] using origin, own⟩
  | gaveUp n a cycles cpuTime nonzero sliced =>
      exact ⟨by simpa [Effect.Fine, MailOrigin, MsgOrigin] using origin, own⟩

theorem client_origin (st : ClientState) (draw : Draw) (msg : Msg) (origin : MsgOrigin clients msg)
    (own : StateOrigin clients self (.client st)) :
    (Client.react st draw msg).Sound (MailOrigin clients) (StateOrigin clients) self tag := by
  obtain ⟨index, args, rfl, found, left⟩ := state_origin clients self st own
  have big : ∀ p cycles cpuTime, msg = .factor p cycles cpuTime → 2 ≤ p.val := by
    intro p cycles cpuTime isFactor
    rw [isFactor] at origin
    exact origin.1
  refine client_react_sound _ _ _ tag st draw msg big (fun _ _ => trivial)
    (fun _ => ⟨args, found, left⟩) ?_
  intro p cycles cpuTime m k c isFactor nonzero leaves _
  have rest := left_leaves args.n st.n p m k c left (big p cycles cpuTime isFactor) nonzero leaves
  exact ⟨fun _ _ => ⟨args, List.mem_of_getElem? found, rest.toDerived⟩, fun _ _ => ⟨args, found, rest⟩⟩

end Handlers

def InFlight (net : Cluster) (env : Mail) : Prop :=
  env ∈ net.posted ∨ (∃ actor, (actor, env) ∈ net.transit) ∨ ∃ actor, env ∈ (net.node actor).mailbox

def HandledBy (net : Cluster) (actor : Address) (env : Mail) : Prop :=
  ∃ state draw tag, .handled env state draw tag ∈ (net.node actor).history

section Runs

variable [Divider]

theorem in_flight_origin (clients : List ClientArgs) (net : Cluster) (env : Mail)
    (sound : net.Sound (MailOrigin clients) (StateOrigin clients)) (present : InFlight net env) :
    MsgOrigin clients env.msg := by
  rcases present with posted | ⟨actor, travelling⟩ | ⟨actor, waiting⟩
  · exact sound.posted env posted
  · exact sound.transit actor env travelling
  · exact (sound.nodes actor).mailbox env waiting

theorem handled_origin (clients : List ClientArgs) (net : Cluster) (actor : Address) (env : Mail)
    (sound : net.Sound (MailOrigin clients) (StateOrigin clients)) (handled : HandledBy net actor env) :
    MsgOrigin clients env.msg := by
  obtain ⟨state, draw, tag, member⟩ := handled
  exact ((sound.nodes actor).history _ member).1

section Lawful

variable [LawfulDivider]

theorem system_origin (clients : List ClientArgs) (managers : List ManagerArgs) (allowed : Cluster → Move → Prop)
    (net : Cluster) (reached : (system clients managers).Reach allowed net) :
    net.Sound (MailOrigin clients) (StateOrigin clients) := by
  refine reach_sound _ _ behaviour _ allowed (initial_origin clients managers) ?_ ?_ net reached
  · intro _ self draw state tag _ _ _ own
    exact start_origin clients self tag state draw own
  · intro _ self draw state env tag _ _ _ own origin
    cases state with
    | client st => exact client_origin clients self tag st draw env.msg origin own
    | manager st => exact manager_origin clients self tag st env.msg origin own
    | worker st => exact worker_origin clients self tag st draw env.msg origin own

theorem next_origin (clients : List ClientArgs) (managers : List ManagerArgs) (allowed : Cluster → Move → Prop)
    (net : Cluster) (self : Address) (state : ActorState) (env : Mail)
    (reached : (system clients managers).Reach allowed net)
    (next : (net.node self).next behaviour = some (state, env)) :
    StateOrigin clients self state ∧ MsgOrigin clients env.msg := by
  have sound := system_origin clients managers allowed net reached
  obtain ⟨status, search⟩ := (Node.next_some behaviour _ state env).mp next
  refine ⟨?_, (sound.nodes self).mailbox env (List.mem_of_find?_eq_some search)⟩
  have own := (sound.nodes self).status
  rwa [status] at own

theorem worker_factor_tested (st : WorkerState) (draw : Draw) (msg : Msg) (grp : Group) (p cycles : Int512)
    (cpuTime : Clock) (sent : .publish grp (.factor p cycles cpuTime) ∈ (Worker.react st draw msg).effects) :
    ∃ n a before ticks state, msg = .continuation n a before ticks state ∧ (ExactUpTo n → p.val ∣ n.val) ∧
      (p = n → isProbablePrime draw.bases n = true) := by
  have turn := Worker.react_turn st draw msg
  generalize Worker.react st draw msg = r at turn sent
  cases turn with
  | ignored _ _ _ => simp at sent
  | raised _ n asked zero => simp at sent
  | began n a nonzero drawn => simp at sent
  | found n a before ticks q i nonzero big divides tested sliced =>
      have same : p = q := by
        simp only [List.mem_singleton, Effect.publish.injEq, Msg.factor.injEq] at sent
        exact sent.2.1
      subst same
      exact ⟨n, a, before, ticks, st.stateId, rfl, divides, tested⟩
  | went n a before later ticks nonzero => simp at sent
  | gaveUp n a before ticks nonzero sliced => simp at sent

end Lawful

theorem factors_sound (truncates : Truncating) (clients : List ClientArgs) (managers : List ManagerArgs) (net : Cluster)
    (reached : (system clients managers).Reach Lts.anyStep net) :
    (∀ env p cycles cpuTime, env.msg = .factor p cycles cpuTime →
      (InFlight net env ∨ ∃ actor, HandledBy net actor env) →
      2 ≤ p.val ∧ ∃ args ∈ clients, p.val ∣ args.n.val) ∧
    (∀ env n, env.msg = .calculate n → InFlight net env → ∃ args ∈ clients, n.val ∣ args.n.val) ∧
    (∀ process index env state draw tag grp p cycles cpuTime,
      .handled env state draw tag ∈ (net.node (.worker process index)).history →
      .publish grp (.factor p cycles cpuTime) ∈
        (behaviour.react (.worker process index) state draw env.msg).effects →
      ∃ n a before ticks id, env.msg = .continuation n a before ticks id ∧
        (p = n → 0 < n.val → isProbablePrime draw.bases n = true)) := by
  have lawful := truncating_lawful truncates
  have sound := system_origin clients managers Lts.anyStep net reached
  refine ⟨?_, ?_, ?_⟩
  · intro env p cycles cpuTime isFactor somewhere
    have origin : MsgOrigin clients env.msg := by
      rcases somewhere with present | ⟨actor, handled⟩
      · exact in_flight_origin clients net env sound present
      · exact handled_origin clients net actor env sound handled
    rw [isFactor] at origin
    obtain ⟨big, args, member, derived⟩ := origin
    exact ⟨big, args, member, derived.divides (truncating_exact truncates args.n)⟩
  · intro env n isCalculate present
    have origin := in_flight_origin clients net env sound present
    rw [isCalculate] at origin
    obtain ⟨args, member, derived⟩ := origin
    exact ⟨args, member, derived.divides (truncating_exact truncates args.n)⟩
  · intro process index env state draw tag grp p cycles cpuTime happened sent
    have role := ((sound.nodes (.worker process index)).history _ happened).2
    cases state with
    | client st => exact False.elim role
    | manager st => exact False.elim role
    | worker st =>
        obtain ⟨n, a, before, ticks, id, isContinuation, _, tested⟩ :=
          worker_factor_tested st draw env.msg grp p cycles cpuTime sent
        exact ⟨n, a, before, ticks, id, isContinuation, fun same _ => tested same⟩

end Runs

theorem factors_sound_eight : ∃ net : Cluster,
    (@system truncating [typing 8] [offering 1]).Reach Lts.anyStep net ∧
      net.posted.map (fun env => env.msg) = [.factor (Int512.ofNat 4) 0 0] ∧
      2 ≤ (Int512.ofNat 4).val ∧ ∃ args ∈ [typing 8], (Int512.ofNat 4).val ∣ args.n.val := by
  obtain ⟨net, reached, posted⟩ := (@system truncating [typing 8] [offering 1]).run_finds Lts.anyStep
    (requestToWorker ++ workerAnswers 1 7)
    (fun net => decide (net.posted.map (fun env => env.msg) = [.factor (Int512.ofNat 4) 0 0])) (by decide +kernel)
  have posted := of_decide_eq_true posted
  obtain ⟨env, member, isFactor⟩ := List.mem_map.mp (posted ▸ List.mem_singleton_self _)
  exact ⟨net, reached, posted, (@factors_sound truncating truncating_truncates _ _ net reached).1 env _ _ _ isFactor
    (.inl (.inl member))⟩

end VsLab
