import VsLab.Actors.Network

set_option autoImplicit false

namespace Actors

variable {A G M S D O : Type}

section Rule

variable (good : Envelope A G M → Prop) (fine : A → S → Prop)

def Effect.Fine (actor : A) (tag : Nat) : Effect A G M S O → Prop
  | .send msg => good ⟨actor, none, tag, msg⟩
  | .publish grp msg => good ⟨actor, some grp, tag, msg⟩
  | .spawn child state _ => fine child state
  | _ => True

def Outcome.Fine (actor : A) : Outcome S → Prop
  | .become state => fine actor state
  | _ => True

structure Reaction.Sound (actor : A) (tag : Nat) (r : Reaction A G M S O) : Prop where
  effects : ∀ effect ∈ r.effects, Effect.Fine good fine actor tag effect
  outcome : Outcome.Fine fine actor r.outcome

def Status.Fine (actor : A) : Status S → Prop
  | .spawned state => fine actor state
  | .running state => fine actor state
  | _ => True

def Event.Fine (actor : A) : Event A G M S D → Prop
  | .arrived env => good env
  | .started state _ _ => fine actor state
  | .handled env state _ _ => good env ∧ fine actor state

structure Node.Sound (actor : A) (node : Node A G M S D) : Prop where
  status : Status.Fine fine actor node.status
  mailbox : ∀ env ∈ node.mailbox, good env
  history : ∀ event ∈ node.history, Event.Fine good fine actor event

structure Net.Sound (net : Net A G M S D) : Prop where
  posted : ∀ env ∈ net.posted, good env
  sent : ∀ env ∈ net.sent, good env
  transit : ∀ actor env, (actor, env) ∈ net.transit → good env
  nodes : ∀ actor, Node.Sound good fine actor (net.node actor)

theorem sound_sends (self : A) (tag : Nat) (r : Reaction A G M S O) (reaction : r.Sound good fine self tag) :
    ∀ env ∈ selfSends self tag r.effects, good env := by
  intro env member
  obtain ⟨effect, present, isSend⟩ := List.mem_filterMap.mp member
  have fineEffect := reaction.effects effect present
  cases effect with
  | send msg =>
      cases isSend
      exact fineEffect
  | publish grp msg => cases isSend
  | join grp => cases isSend
  | spawn child state grp => cases isSend
  | print out => cases isSend

theorem sound_publishes (self : A) (tag : Nat) (r : Reaction A G M S O) (reaction : r.Sound good fine self tag) :
    ∀ env ∈ published self tag r.effects, good env := by
  intro env member
  obtain ⟨effect, present, isPublish⟩ := List.mem_filterMap.mp member
  have fineEffect := reaction.effects effect present
  cases effect with
  | publish grp msg =>
      cases isPublish
      exact fineEffect
  | send msg => cases isPublish
  | join grp => cases isPublish
  | spawn child state grp => cases isPublish
  | print out => cases isPublish

theorem settle_sound (self : A) (tag : Nat) (r : Reaction A G M S O) (mailbox : List (Envelope A G M))
    (history : List (Event A G M S D)) (reaction : r.Sound good fine self tag)
    (kept : ∀ env ∈ mailbox, good env) (past : ∀ event ∈ history, Event.Fine good fine self event) :
    Node.Sound good fine self (Node.settle self tag r mailbox history) := by
  refine ⟨?_, ?_, ?_⟩
  · cases outcome : r.outcome with
    | become state =>
        have fineOutcome := reaction.outcome
        simpa only [Node.settle, outcome, Status.Fine, Outcome.Fine] using fineOutcome
    | hang => simp only [Node.settle, outcome, Status.Fine]
    | quit => simp only [Node.settle, outcome, Status.Fine]
    | raise => simp only [Node.settle, outcome, Status.Fine]
  · intro env member
    rcases Node.settle_mailbox self tag r mailbox history env member with old | new
    · exact kept env old
    · exact sound_sends good fine self tag r reaction env new
  · rw [Node.settle_history]
    exact past

theorem act_sound [DecidableEq A] [DecidableEq G] (net : Net A G M S D) (self : A) (tag : Nat) (r : Reaction A G M S O)
    (mailbox : List (Envelope A G M)) (event : Event A G M S D) (sound : net.Sound good fine)
    (reaction : r.Sound good fine self tag) (kept : ∀ env ∈ mailbox, env ∈ (net.node self).mailbox)
    (past : Event.Fine good fine self event) : (net.act self tag r mailbox event).Sound good fine := by
  refine ⟨?_, ?_, ?_, ?_⟩
  · intro env member
    rw [Net.act_posted] at member
    rcases List.mem_append.mp member with old | new
    · exact sound.posted env old
    · exact sound_publishes good fine self tag r reaction env new
  · intro env member
    rw [Net.act_sent] at member
    rcases List.mem_append.mp member with old | new
    · exact sound.sent env old
    · exact sound_publishes good fine self tag r reaction env new
  · intro actor env member
    rw [Net.act_transit] at member
    exact sound.transit actor env member
  · intro actor
    by_cases same : actor = self
    · subst same
      rw [Net.act_node_self]
      refine settle_sound good fine actor tag r mailbox _ reaction
        (fun env member => (sound.nodes actor).mailbox env (kept env member)) ?_
      intro item member
      rcases List.mem_cons.mp member with atHead | older
      · rw [atHead]
        exact past
      · exact (sound.nodes actor).history item older
    · rcases Net.act_node_other net self tag r mailbox event actor same with
        unchanged | ⟨_, state, grp, member, created⟩
      · rw [unchanged]
        exact sound.nodes actor
      · rw [created]
        exact ⟨reaction.effects _ member, (sound.nodes actor).mailbox, (sound.nodes actor).history⟩

theorem dispatch_sound (net : Net A G M S D) (index : Nat) (env : Envelope A G M) (sound : net.Sound good fine)
    (found : net.posted[index]? = some env) : (net.dispatch index env).Sound good fine := by
  refine ⟨fun other member => sound.posted other (List.mem_of_mem_eraseIdx member), sound.sent, ?_, sound.nodes⟩
  intro actor other member
  rcases List.mem_append.mp member with old | new
  · exact sound.transit actor other old
  · obtain ⟨_, _, same⟩ := List.mem_map.mp new
    cases same
    exact sound.posted env (List.mem_of_getElem? found)

theorem arrive_sound [DecidableEq A] (net : Net A G M S D) (index : Nat) (actor : A) (env : Envelope A G M)
    (sound : net.Sound good fine) (found : net.transit[index]? = some (actor, env)) :
    (net.arrive index actor env).Sound good fine := by
  have goodEnv : good env := sound.transit actor env (List.mem_of_getElem? found)
  refine ⟨sound.posted, sound.sent,
    fun other item member => sound.transit other item (List.mem_of_mem_eraseIdx member), ?_⟩
  intro other
  by_cases same : other = actor
  · subst same
    simp only [Net.arrive, Function.update_self]
    refine ⟨?_, ?_, ?_⟩
    · rw [Node.arrive_status]
      exact (sound.nodes other).status
    · intro item member
      rcases Node.arrive_mailbox env item _ member with old | new
      · exact (sound.nodes other).mailbox item old
      · rw [new]
        exact goodEnv
    · intro event member
      rcases Node.arrive_history env event _ member with old | new
      · exact (sound.nodes other).history event old
      · rw [new]
        exact goodEnv
  · simp only [Net.arrive, Function.update_of_ne same]
    exact sound.nodes other

-- The rule behind every message invariant: the obligations are on handlers only.
theorem reach_sound [DecidableEq A] [DecidableEq G] (beh : Behaviour A G M S D O) (init : Net A G M S D)
    (allowed : Net A G M S D → Label A D → Prop) (initial : init.Sound good fine)
    (starts : ∀ net self draw state tag, (networkLts beh init).Reach allowed net →
      allowed net (.start self draw) → (net.node self).status = .spawned state → fine self state →
      (beh.start self state draw).Sound good fine self tag)
    (reacts : ∀ net self draw state env tag, (networkLts beh init).Reach allowed net →
      allowed net (.handle self draw) → (net.node self).next beh = some (state, env) → fine self state → good env →
      (beh.react self state draw env.msg).Sound good fine self tag)
    (net : Net A G M S D) (reached : (networkLts beh init).Reach allowed net) : net.Sound good fine := by
  refine (networkLts beh init).reach_invariant allowed (Net.Sound good fine) initial ?_ net reached
  intro before label after earlier sound allow taken
  rcases Net.step_cases beh before after label taken with
    ⟨self, draw, state, rfl, status, rfl⟩ | ⟨index, env, _, found, rfl⟩ | ⟨index, actor, env, _, found, rfl⟩ |
    ⟨self, draw, state, env, rfl, next, rfl⟩
  · have fineState : fine self state := by simpa only [status, Status.Fine] using (sound.nodes self).status
    exact act_sound good fine before self _ _ _ _ sound (starts before self draw state _ earlier allow status fineState)
      (fun _ member => member) fineState
  · exact dispatch_sound good fine before index env sound found
  · exact arrive_sound good fine before index actor env sound found
  · obtain ⟨status, search⟩ := (Node.next_some beh _ state env).mp next
    have fineState : fine self state := by simpa only [status, Status.Fine] using (sound.nodes self).status
    have goodEnv : good env := (sound.nodes self).mailbox env (List.mem_of_find?_eq_some search)
    exact act_sound good fine before self _ _ _ _ sound
      (reacts before self draw state env _ earlier allow next fineState goodEnv)
      (fun _ member => List.mem_of_mem_eraseP member) ⟨goodEnv, fineState⟩

end Rule

theorem act_history [DecidableEq A] [DecidableEq G]
    (net : Net A G M S D) (self : A) (tag : Nat) (r : Reaction A G M S O)
    (mailbox : List (Envelope A G M)) (event item : Event A G M S D) (actor : A)
    (member : item ∈ ((net.act self tag r mailbox event).node actor).history) :
    item ∈ (net.node actor).history ∨ (actor = self ∧ item = event) := by
  by_cases same : actor = self
  · subst same
    rw [Net.act_node_self, Node.settle_history] at member
    rcases List.mem_cons.mp member with atHead | older
    · exact .inr ⟨rfl, atHead⟩
    · exact .inl older
  · rw [(Net.act_node_other_kept net self tag r mailbox event actor same).2] at member
    exact .inl member

theorem reach_events [DecidableEq A] [DecidableEq G] (beh : Behaviour A G M S D O) (init : Net A G M S D)
    (allowed : Net A G M S D → Label A D → Prop) (P : A → Event A G M S D → Prop)
    (initial : ∀ actor, (init.node actor).history = [])
    (arrivals : ∀ actor env, P actor (.arrived env))
    (starts : ∀ net self draw state, (networkLts beh init).Reach allowed net →
      allowed net (.start self draw) → (net.node self).status = .spawned state →
      P self (.started state draw net.clock))
    (reacts : ∀ net self draw state env, (networkLts beh init).Reach allowed net →
      allowed net (.handle self draw) → (net.node self).next beh = some (state, env) →
      P self (.handled env state draw (net.tagFor beh self env)))
    (net : Net A G M S D) (reached : (networkLts beh init).Reach allowed net) (actor : A) :
    ∀ event ∈ (net.node actor).history, P actor event := by
  revert actor
  refine (networkLts beh init).reach_invariant allowed
    (fun net => ∀ actor, ∀ event ∈ (net.node actor).history, P actor event) ?_ ?_ net reached
  · intro actor event member
    rw [networkLts, initial actor] at member
    cases member
  · intro before label after earlier holds allow taken actor event member
    rcases Net.step_cases beh before after label taken with
      ⟨self, draw, state, rfl, status, rfl⟩ | ⟨index, env, _, _, rfl⟩ | ⟨index, receiver, env, _, _, rfl⟩ |
      ⟨self, draw, state, env, rfl, next, rfl⟩
    · rcases act_history before self _ _ _ _ event actor member with old | ⟨rfl, rfl⟩
      · exact holds actor event old
      · exact starts before actor draw state earlier allow status
    · exact holds actor event member
    · by_cases same : actor = receiver
      · subst same
        simp only [Net.arrive, Function.update_self] at member
        rcases Node.arrive_history env event _ member with old | rfl
        · exact holds actor event old
        · exact arrivals actor env
      · simp only [Net.arrive, Function.update_of_ne same] at member
        exact holds actor event member
    · rcases act_history before self _ _ _ _ event actor member with old | ⟨rfl, rfl⟩
      · exact holds actor event old
      · exact reacts before actor draw state env earlier allow next

structure Net.Extends (before after : Net A G M S D) : Prop where
  sent : ∀ env ∈ before.sent, env ∈ after.sent
  history : ∀ actor, ∀ event ∈ (before.node actor).history, event ∈ (after.node actor).history

theorem act_extends [DecidableEq A] [DecidableEq G]
    (net : Net A G M S D) (self : A) (tag : Nat) (r : Reaction A G M S O)
    (mailbox : List (Envelope A G M)) (event : Event A G M S D) : net.Extends (net.act self tag r mailbox event) := by
  refine ⟨fun env member => by rw [Net.act_sent]; exact List.mem_append_left _ member, ?_⟩
  intro actor item member
  by_cases same : actor = self
  · subst same
    rw [Net.act_node_self, Node.settle_history]
    exact List.mem_cons_of_mem _ member
  · rw [(Net.act_node_other_kept net self tag r mailbox event actor same).2]
    exact member

theorem step_extends [DecidableEq A] [DecidableEq G]
    (beh : Behaviour A G M S D O) (before after : Net A G M S D) (label : Label A D)
    (taken : before.step beh label = some after) : before.Extends after := by
  rcases Net.step_cases beh before after label taken with
    ⟨self, draw, state, _, _, rfl⟩ | ⟨index, env, _, _, rfl⟩ | ⟨index, receiver, env, _, _, rfl⟩ |
    ⟨self, draw, state, env, _, _, rfl⟩
  · exact act_extends before self _ _ _ _
  · exact ⟨fun _ member => member, fun _ _ member => member⟩
  · refine ⟨fun _ member => member, ?_⟩
    intro actor event member
    by_cases same : actor = receiver
    · subst same
      simp only [Net.arrive, Function.update_self]
      exact Node.arrive_keeps env event _ member
    · simpa only [Net.arrive, Function.update_of_ne same] using member
  · exact act_extends before self _ _ _ _

section Growing

variable (good : Net A G M S D → Envelope A G M → Prop) (fine : A → S → Prop)

def Logged (net : Net A G M S D) (env : Envelope A G M) : Prop :=
  (∀ grp, env.via = some grp → env ∈ net.sent) → good net env

theorem logged_sound (net : Net A G M S D) (self : A) (tag : Nat) (r : Reaction A G M S O)
    (logged : r.Sound (Logged good net) fine self tag) (sent : ∀ env ∈ published self tag r.effects, env ∈ net.sent) :
    r.Sound (good net) fine self tag := by
  refine ⟨?_, logged.outcome⟩
  intro effect member
  have fineEffect := logged.effects effect member
  cases effect with
  | send msg => exact fineEffect (fun _ direct => by cases direct)
  | publish grp msg => exact fineEffect (fun _ _ => sent _ (List.mem_filterMap.mpr ⟨_, member, rfl⟩))
  | join grp => trivial
  | spawn child state grp => exact fineEffect
  | print out => trivial

theorem sound_mono (weak : Envelope A G M → Prop) (strong : Envelope A G M → Prop)
    (weaker : ∀ env, strong env → weak env) (net : Net A G M S D) (sound : net.Sound strong fine) :
    net.Sound weak fine := by
  refine ⟨fun env member => weaker env (sound.posted env member), fun env member => weaker env (sound.sent env member),
    fun actor env member => weaker env (sound.transit actor env member), ?_⟩
  intro actor
  refine ⟨(sound.nodes actor).status, fun env member => weaker env ((sound.nodes actor).mailbox env member), ?_⟩
  intro event member
  have fineEvent := (sound.nodes actor).history event member
  cases event with
  | arrived env => exact weaker env fineEvent
  | started state draw tag => exact fineEvent
  | handled env state draw tag => exact ⟨weaker env fineEvent.1, fineEvent.2⟩

theorem reach_grows [DecidableEq A] [DecidableEq G] (beh : Behaviour A G M S D O) (init : Net A G M S D)
    (allowed : Net A G M S D → Label A D → Prop) (initial : init.Sound (good init) fine)
    (grows : ∀ before after env, Net.Extends before after → good before env → good after env)
    (starts : ∀ before after self draw state tag, (networkLts beh init).Reach allowed before → before.Extends after →
      (before.node self).status = .spawned state → .started state draw tag ∈ (after.node self).history →
      (beh.start self state draw).Sound (Logged good after) fine self tag)
    (reacts : ∀ before after self draw state env tag, (networkLts beh init).Reach allowed before → before.Extends after →
      (before.node self).next beh = some (state, env) → .handled env state draw tag ∈ (after.node self).history →
      tag = before.tagFor beh self env → good after env → (beh.react self state draw env.msg).Sound (Logged good after) fine self tag)
    (net : Net A G M S D) (reached : (networkLts beh init).Reach allowed net) : net.Sound (good net) fine := by
  refine (networkLts beh init).reach_invariant allowed (fun net => net.Sound (good net) fine) initial ?_ net reached
  intro before label after earlier sound allow taken
  have larger := step_extends beh before after label taken
  have still := sound_mono fine (good after) (good before) (fun env => grows before after env larger) before sound
  rcases Net.step_cases beh before after label taken with
    ⟨self, draw, state, rfl, status, same⟩ | ⟨index, env, _, found, rfl⟩ | ⟨index, actor, env, _, found, rfl⟩ |
    ⟨self, draw, state, env, rfl, next, same⟩
  · have recorded : .started state draw before.clock ∈ (after.node self).history := by
      rw [same, Net.act_node_self, Node.settle_history]
      exact List.mem_cons_self
    have logged := starts before after self draw state _ earlier larger status recorded
    have reaction := logged_sound good fine after self _ _ logged (fun env member => by
      rw [same, Net.act_sent]
      exact List.mem_append_right _ member)
    have fineState : fine self state := by simpa only [status, Status.Fine] using (sound.nodes self).status
    exact (congrArg (Net.Sound (good after) fine) same).mpr
      (act_sound (good after) fine before self _ _ _ _ still reaction (fun _ member => member) fineState)
  · exact dispatch_sound _ fine before index env still found
  · exact arrive_sound _ fine before index actor env still found
  · obtain ⟨status, search⟩ := (Node.next_some beh _ state env).mp next
    have recorded : .handled env state draw (before.tagFor beh self env) ∈ (after.node self).history := by
      rw [same, Net.act_node_self, Node.settle_history]
      exact List.mem_cons_self
    have goodEnv : good after env := (still.nodes self).mailbox env (List.mem_of_find?_eq_some search)
    have logged := reacts before after self draw state env _ earlier larger next recorded rfl goodEnv
    have reaction := logged_sound good fine after self _ _ logged (fun env member => by
      rw [same, Net.act_sent]
      exact List.mem_append_right _ member)
    have fineState : fine self state := by simpa only [status, Status.Fine] using (sound.nodes self).status
    exact (congrArg (Net.Sound (good after) fine) same).mpr
      (act_sound (good after) fine before self _ _ _ _ still reaction
        (fun _ member => List.mem_of_mem_eraseP member) ⟨goodEnv, fineState⟩)

end Growing

end Actors
