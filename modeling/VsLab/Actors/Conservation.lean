import VsLab.Actors.Local
import VsLab.Actors.Soundness

set_option autoImplicit false

namespace Actors

variable {A G M S D O : Type}

theorem count_erase_idx {X : Type} (test : X → Bool) (items : List X) (index : Nat) (item : X)
    (found : items[index]? = some item) :
    items.countP test = (items.eraseIdx index).countP test + (if test item then 1 else 0) := by
  obtain ⟨bound, value⟩ := List.getElem?_eq_some_iff.mp found
  rw [← (List.getElem_cons_eraseIdx_perm bound).countP_eq test, List.countP_cons, value]

section Counts

variable (test : Envelope A G M → Bool) (history : List (Event A G M S D)) (env : Envelope A G M) (state : S) (draw : D)
  (tag : Nat)

@[simp] theorem arrivals_arrived : (.arrived env :: history).countP (Event.isArrival test) =
    history.countP (Event.isArrival test) + if test env then 1 else 0 := List.countP_cons

@[simp] theorem arrivals_started : (.started state draw tag :: history).countP (Event.isArrival test) =
    history.countP (Event.isArrival test) := List.countP_cons_of_neg (by simp [Event.isArrival])

@[simp] theorem arrivals_handled : (.handled env state draw tag :: history).countP (Event.isArrival test) =
    history.countP (Event.isArrival test) := List.countP_cons_of_neg (by simp [Event.isArrival])

@[simp] theorem handlings_arrived : (.arrived env :: history).countP (Event.isHandled test) =
    history.countP (Event.isHandled test) := List.countP_cons_of_neg (by simp [Event.isHandled])

@[simp] theorem handlings_started : (.started state draw tag :: history).countP (Event.isHandled test) =
    history.countP (Event.isHandled test) := List.countP_cons_of_neg (by simp [Event.isHandled])

@[simp] theorem handlings_handled : (.handled env state draw tag :: history).countP (Event.isHandled test) =
    history.countP (Event.isHandled test) + if test env then 1 else 0 := List.countP_cons

end Counts

section Flow

variable [DecidableEq A]

variable (test : Envelope A G M → Bool) (actor : A)

def arrivals (node : Node A G M S D) : Nat := node.history.countP (Event.isArrival test)

def handlings (node : Node A G M S D) : Nat := node.history.countP (Event.isHandled test)

def travelling (net : Net A G M S D) : Nat := net.transit.countP fun entry => decide (entry.1 = actor) && test entry.2

structure Flow (net : Net A G M S D) : Prop where
  distinct : net.Distinct
  bound : arrivals test (net.node actor) + travelling test actor net + net.posted.countP test ≤ net.sent.countP test

theorem act_arrivals [DecidableEq G] (net : Net A G M S D) (self : A) (tag : Nat) (r : Reaction A G M S O)
    (mailbox : List (Envelope A G M)) (event : Event A G M S D) (other : Event.isArrival test event = false) :
    arrivals test ((net.act self tag r mailbox event).node actor) = arrivals test (net.node actor) := by
  by_cases same : actor = self
  · subst same
    rw [arrivals, Net.act_node_self, Node.settle_history, List.countP_cons]
    simp [other, arrivals]
  · rw [arrivals, (Net.act_node_other_kept net self tag r mailbox event actor same).2, arrivals]

theorem act_flow [DecidableEq G] (net : Net A G M S D) (self : A) (tag : Nat) (r : Reaction A G M S O)
    (mailbox : List (Envelope A G M)) (event : Event A G M S D) (other : Event.isArrival test event = false)
    (flow : Flow test actor net) : Flow test actor (net.act self tag r mailbox event) := by
  refine ⟨Net.act_distinct net self tag r mailbox event flow.distinct, ?_⟩
  have bound := flow.bound
  rw [act_arrivals test actor net self tag r mailbox event other, travelling, Net.act_transit, Net.act_posted,
    Net.act_sent, List.countP_append, List.countP_append]
  unfold travelling at bound
  omega

theorem receivers_once (net : Net A G M S D) (env : Envelope A G M) (distinct : net.Distinct) :
    ((net.receivers env).map fun other => (other, env)).countP
      (fun entry => decide (entry.1 = actor) && test entry.2) ≤ if test env then 1 else 0 := by
  have once : (net.receivers env).count actor ≤ 1 := by
    unfold Net.receivers
    split
    · simp
    · exact List.nodup_iff_count_le_one.mp (distinct _) actor
  rw [List.countP_map]
  by_cases passes : test env
  · have same : (net.receivers env).countP ((fun entry : A × Envelope A G M => decide (entry.1 = actor) && test entry.2) ∘
        fun other => (other, env)) = (net.receivers env).count actor := by
      rw [List.count_eq_countP]
      congr 1
      funext other
      simp [passes, beq_eq_decide]
    rw [same, if_pos passes]
    exact once
  · simp [Function.comp_def, passes]

theorem dispatch_flow (net : Net A G M S D) (index : Nat) (env : Envelope A G M)
    (found : net.posted[index]? = some env) (flow : Flow test actor net) :
    Flow test actor (net.dispatch index env) := by
  refine ⟨flow.distinct, ?_⟩
  have bound := flow.bound
  have erased := count_erase_idx test net.posted index env found
  have once := receivers_once test actor net env flow.distinct
  unfold travelling at bound ⊢
  simp only [Net.dispatch, List.countP_append] at bound ⊢
  omega

theorem arrive_flow (net : Net A G M S D) (index : Nat) (receiver : A) (env : Envelope A G M)
    (found : net.transit[index]? = some (receiver, env)) (flow : Flow test actor net) :
    Flow test actor (net.arrive index receiver env) := by
  refine ⟨flow.distinct, ?_⟩
  have bound := flow.bound
  have erased := count_erase_idx (fun entry => decide (entry.1 = actor) && test entry.2) net.transit index _ found
  unfold travelling at bound ⊢
  by_cases same : actor = receiver
  · subst same
    have arrived : arrivals test ((net.node actor).arrive env) ≤ arrivals test (net.node actor) + if test env then 1 else 0 := by
      unfold Node.arrive arrivals
      split
      · exact Nat.le_add_right _ _
      · exact Nat.le_add_right _ _
      · exact Nat.le_of_eq (arrivals_arrived test _ env)
    simp only [Net.arrive, Function.update_self, decide_true, Bool.true_and] at bound erased ⊢
    omega
  · simp only [Net.arrive, Function.update_of_ne same] at bound erased ⊢
    omega

theorem flow_run [DecidableEq G]
    (beh : Behaviour A G M S D O) (init : Net A G M S D) (allowed : Net A G M S D → Label A D → Prop)
    (initial : Flow test actor init) (net : Net A G M S D) (reached : (networkLts beh init).Reach allowed net) :
    Flow test actor net := by
  refine (networkLts beh init).reach_invariant allowed (Flow test actor) initial ?_ net reached
  intro before label after _ flow _ taken
  rcases Net.step_cases beh before after label taken with
    ⟨self, draw, state, _, _, rfl⟩ | ⟨index, env, _, found, rfl⟩ | ⟨index, receiver, env, _, found, rfl⟩ |
    ⟨self, draw, state, env, _, _, rfl⟩
  · exact act_flow test actor before self _ _ _ _ rfl flow
  · exact dispatch_flow test actor before index env found flow
  · exact arrive_flow test actor before index receiver env found flow
  · exact act_flow test actor before self _ _ _ _ rfl flow

end Flow

section Mailbox

variable (test : Envelope A G M → Bool)

def OfGroups : Prop := ∀ env, test env = true → env.via ≠ none

theorem self_sends_none (self : A) (tag : Nat) (effects : List (Effect A G M S O)) (ofGroups : OfGroups test) :
    (selfSends self tag effects).countP test = 0 := by
  apply List.countP_eq_zero.mpr
  intro env member passes
  obtain ⟨effect, _, isSend⟩ := List.mem_filterMap.mp member
  cases effect with
  | send msg =>
      cases isSend
      exact ofGroups _ passes rfl
  | publish grp msg => cases isSend
  | join grp => cases isSend
  | spawn child state grp => cases isSend
  | print out => cases isSend

theorem settle_waiting (self : A) (tag : Nat) (r : Reaction A G M S O) (mailbox : List (Envelope A G M))
    (history : List (Event A G M S D)) (ofGroups : OfGroups test) :
    (Node.settle self tag r mailbox history).mailbox.countP test ≤ mailbox.countP test := by
  unfold Node.settle
  cases r.outcome with
  | become state => simp [self_sends_none test self tag r.effects ofGroups]
  | hang => simp [self_sends_none test self tag r.effects ofGroups]
  | quit => exact Nat.zero_le _
  | raise => exact Nat.zero_le _

theorem handled_le_arrived [DecidableEq A] [DecidableEq G] (beh : Behaviour A G M S D O) (init : Net A G M S D)
    (allowed : Net A G M S D → Label A D → Prop) (actor : A) (ofGroups : OfGroups test)
    (initial : (init.node actor).mailbox = [] ∧ (init.node actor).history = []) (net : Net A G M S D)
    (reached : (networkLts beh init).Reach allowed net) :
    handlings test (net.node actor) + (net.node actor).mailbox.countP test ≤ arrivals test (net.node actor) := by
  refine reach_node beh init allowed actor _ (beh.births_any actor)
    (fun node => handlings test node + node.mailbox.countP test ≤ arrivals test node) ?_ ?_ ?_ ?_ ?_ net reached
  · simp [handlings, arrivals, initial]
  · intro node state _ _ bound
    exact bound
  · intro before env _ _ bound
    unfold Node.arrive
    split
    · exact bound
    · exact bound
    · simp only [handlings, arrivals, handlings_arrived, arrivals_arrived, List.countP_append,
        List.countP_singleton] at bound ⊢
      omega
  · intro before draw state _ _ _ bound
    have kept := settle_waiting (D := D) test actor before.clock (beh.start actor state draw) (before.node actor).mailbox
      (.started state draw before.clock :: (before.node actor).history) ofGroups
    simp only [handlings, arrivals, Node.settle_history, handlings_started, arrivals_started] at bound ⊢
    omega
  · intro before draw state env _ _ next bound
    obtain ⟨_, accepted, skipped, behind, split, _, erased⟩ := Node.next_split beh _ state env next
    have kept := settle_waiting (D := D) test actor (before.tagFor beh actor env) (beh.react actor state draw env.msg)
      (skipped ++ behind) (.handled env state draw (before.tagFor beh actor env) :: (before.node actor).history) ofGroups
    have taken : (skipped ++ env :: behind).countP test = (skipped ++ behind).countP test + if test env then 1 else 0 := by
      simp only [List.countP_append, List.countP_cons]
      omega
    rw [split, taken] at bound
    rw [erased]
    simp only [handlings, arrivals, Node.settle_history, handlings_handled, arrivals_handled] at bound ⊢
    omega

end Mailbox

section Sent

def publishedBy (beh : Behaviour A G M S D O) (actor : A) (history : List (Event A G M S D)) : List (Envelope A G M) :=
  history.flatMap fun event => published actor event.tag (event.effects beh actor)

theorem published_sender (self : A) (tag : Nat) (effects : List (Effect A G M S O)) (env : Envelope A G M)
    (member : env ∈ published self tag effects) : env.sender = self ∧ env.tag = tag := by
  obtain ⟨effect, _, isPublish⟩ := List.mem_filterMap.mp member
  cases effect with
  | publish grp msg =>
      cases isPublish
      exact ⟨rfl, rfl⟩
  | send msg => cases isPublish
  | join grp => cases isPublish
  | spawn child state grp => cases isPublish
  | print out => cases isPublish

theorem published_count [DecidableEq A]
    (self actor : A) (tag : Nat) (effects : List (Effect A G M S O)) (test : Envelope A G M → Bool) :
    (published self tag effects).countP (fun env => decide (env.sender = actor) && test env) =
      if self = actor then (published self tag effects).countP test else 0 := by
  by_cases same : self = actor
  · rw [if_pos same]
    apply List.countP_congr
    intro env member
    simp [(published_sender self tag effects env member).1, same]
  · rw [if_neg same]
    apply List.countP_eq_zero.mpr
    intro env member passes
    simp [(published_sender self tag effects env member).1, same] at passes

theorem act_sent_by [DecidableEq A] [DecidableEq G]
    (beh : Behaviour A G M S D O) (test : Envelope A G M → Bool) (actor : A) (net : Net A G M S D) (self : A)
    (tag : Nat) (r : Reaction A G M S O) (mailbox : List (Envelope A G M)) (event : Event A G M S D)
    (effects : event.effects beh self = r.effects) (marked : event.tag = tag)
    (before : net.sent.countP (fun env => decide (env.sender = actor) && test env) =
      (publishedBy beh actor (net.node actor).history).countP test) :
    (net.act self tag r mailbox event).sent.countP (fun env => decide (env.sender = actor) && test env) =
      (publishedBy beh actor ((net.act self tag r mailbox event).node actor).history).countP test := by
  rw [Net.act_sent, List.countP_append, before, published_count]
  by_cases same : actor = self
  · subst same
    rw [Net.act_node_self, Node.settle_history, if_pos rfl]
    simp only [publishedBy, List.flatMap_cons, List.countP_append, effects, marked]
    omega
  · rw [(Net.act_node_other_kept net self tag r mailbox event actor same).2, if_neg (fun equal => same equal.symm),
      Nat.add_zero]

theorem sent_by_run [DecidableEq A] [DecidableEq G]
    (beh : Behaviour A G M S D O) (init : Net A G M S D) (allowed : Net A G M S D → Label A D → Prop)
    (test : Envelope A G M → Bool) (actor : A) (initial : init.sent = [] ∧ (init.node actor).history = [])
    (net : Net A G M S D) (reached : (networkLts beh init).Reach allowed net) :
    net.sent.countP (fun env => decide (env.sender = actor) && test env) =
      (publishedBy beh actor (net.node actor).history).countP test := by
  refine (networkLts beh init).reach_invariant allowed (fun net =>
    net.sent.countP (fun env => decide (env.sender = actor) && test env) =
      (publishedBy beh actor (net.node actor).history).countP test) ?_ ?_ net reached
  · simp [networkLts, initial, publishedBy]
  · intro before label after _ same _ taken
    rcases Net.step_cases beh before after label taken with
      ⟨self, draw, state, _, _, rfl⟩ | ⟨index, env, _, _, rfl⟩ | ⟨index, receiver, env, _, _, rfl⟩ |
      ⟨self, draw, state, env, _, _, rfl⟩
    · exact act_sent_by beh test actor before self _ _ _ _ rfl rfl same
    · exact same
    · have kept : publishedBy beh actor ((before.arrive index receiver env).node actor).history =
          publishedBy beh actor (before.node actor).history := by
        by_cases equal : actor = receiver
        · subst equal
          simp only [Net.arrive, Function.update_self]
          unfold Node.arrive
          split <;> rfl
        · simp only [Net.arrive, Function.update_of_ne equal]
      rw [kept]
      exact same
    · exact act_sent_by beh test actor before self _ _ _ _ rfl rfl same

end Sent

section Subscribers

variable [DecidableEq A] [DecidableEq G]

variable (member : G → A → Prop)

def Effect.Joins (self : A) : Effect A G M S O → Prop
  | .join grp => member grp self
  | .spawn child _ grp => member grp child
  | _ => True

structure Subscribed (net : Net A G M S D) : Prop where
  subs : ∀ grp, ∀ actor ∈ net.subs grp, member grp actor
  transit : ∀ actor env, (actor, env) ∈ net.transit → ∃ grp, env.via = some grp ∧ member grp actor
  arrived : ∀ actor env, .arrived env ∈ (net.node actor).history → ∃ grp, env.via = some grp ∧ member grp actor

theorem subscribe_subs (net : Net A G M S D) (grp : G) (actor : A) (before : ∀ grp, ∀ actor ∈ net.subs grp, member grp actor)
    (joins : member grp actor) : ∀ other, ∀ one ∈ (net.subscribe grp actor).subs other, member other one := by
  intro other one present
  by_cases same : other = grp
  · subst same
    simp only [Net.subscribe, Function.update_self] at present
    rcases List.mem_insert_iff.mp present with rfl | old
    · exact joins
    · exact before other one old
  · simp only [Net.subscribe, Function.update_of_ne same] at present
    exact before other one present

theorem effects_subs (self : A) (tag : Nat) (effects : List (Effect A G M S O)) (net : Net A G M S D)
    (before : ∀ grp, ∀ actor ∈ net.subs grp, member grp actor) (joins : ∀ effect ∈ effects, effect.Joins member self) :
    ∀ grp, ∀ actor ∈ (effects.foldl (Net.apply self tag) net).subs grp, member grp actor := by
  induction effects generalizing net with
  | nil => exact before
  | cons effect rest ih =>
      refine ih (net.apply self tag effect) ?_ (fun other present => joins other (List.mem_cons_of_mem _ present))
      have own := joins effect List.mem_cons_self
      cases effect with
      | send msg => exact before
      | publish grp msg => exact before
      | print out => exact before
      | join grp => exact subscribe_subs member net grp self before own
      | spawn child state grp =>
          refine subscribe_subs member (net.create child state) grp child ?_ own
          rw [(Net.create_fields net child state).2.2.2.2]
          exact before

theorem act_subscribed (net : Net A G M S D) (self : A) (tag : Nat) (r : Reaction A G M S O)
    (mailbox : List (Envelope A G M)) (event : Event A G M S D) (subscribed : Subscribed member net)
    (noArrival : ∀ env, event ≠ .arrived env) (joins : ∀ effect ∈ r.effects, effect.Joins member self) :
    Subscribed member (net.act self tag r mailbox event) := by
  refine ⟨?_, ?_, ?_⟩
  · have after := effects_subs member self tag r.effects (net.settle self tag r mailbox event) subscribed.subs joins
    unfold Net.act
    cases r.outcome with
    | become state => exact after
    | hang => exact after
    | quit => exact fun grp actor present => after grp actor (List.mem_of_mem_filter present)
    | raise => exact fun grp actor present => after grp actor (List.mem_of_mem_filter present)
  · intro actor env present
    rw [Net.act_transit] at present
    exact subscribed.transit actor env present
  · intro actor env present
    rcases act_history net self tag r mailbox event _ actor present with old | ⟨_, new⟩
    · exact subscribed.arrived actor env old
    · exact absurd new.symm (noArrival env)

theorem subscribed_run (beh : Behaviour A G M S D O) (init : Net A G M S D) (allowed : Net A G M S D → Label A D → Prop)
    (initial : Subscribed member init)
    (starts : ∀ net self draw state, (networkLts beh init).Reach allowed net → (net.node self).status = .spawned state →
      ∀ effect ∈ (beh.start self state draw).effects, effect.Joins member self)
    (reacts : ∀ net self draw state env, (networkLts beh init).Reach allowed net →
      (net.node self).next beh = some (state, env) →
      ∀ effect ∈ (beh.react self state draw env.msg).effects, effect.Joins member self)
    (net : Net A G M S D) (reached : (networkLts beh init).Reach allowed net) : Subscribed member net := by
  refine (networkLts beh init).reach_invariant allowed (Subscribed member) initial ?_ net reached
  intro before label after earlier subscribed _ taken
  rcases Net.step_cases beh before after label taken with
    ⟨self, draw, state, _, status, rfl⟩ | ⟨index, env, _, found, rfl⟩ | ⟨index, receiver, env, _, found, rfl⟩ |
    ⟨self, draw, state, env, _, next, rfl⟩
  · exact act_subscribed member before self _ _ _ _ subscribed (by simp) (starts before self draw state earlier status)
  · refine ⟨subscribed.subs, ?_, subscribed.arrived⟩
    intro actor sent present
    rcases List.mem_append.mp present with old | new
    · exact subscribed.transit actor sent old
    · obtain ⟨other, receives, same⟩ := List.mem_map.mp new
      cases same
      cases via : env.via with
      | none => simp [Net.receivers, via] at receives
      | some grp => exact ⟨grp, rfl, subscribed.subs grp actor (by simpa [Net.receivers, via] using receives)⟩
  · refine ⟨subscribed.subs, fun actor sent present => subscribed.transit actor sent (List.mem_of_mem_eraseIdx present), ?_⟩
    intro actor sent present
    by_cases same : actor = receiver
    · subst same
      simp only [Net.arrive, Function.update_self] at present
      rcases Node.arrive_history env _ _ present with old | new
      · exact subscribed.arrived actor sent old
      · cases new
        exact subscribed.transit actor env (List.mem_of_getElem? found)
    · simp only [Net.arrive, Function.update_of_ne same] at present
      exact subscribed.arrived actor sent present
  · exact act_subscribed member before self _ _ _ _ subscribed (by simp) (reacts before self draw state env earlier next)

end Subscribers

section Tags

variable (beh : Behaviour A G M S D O)

def originals (net : Net A G M S D) : List (Envelope A G M) := net.sent.filter fun env => !beh.relays env.sender

structure Tagged (net : Net A G M S D) : Prop where
  past : ∀ env ∈ originals beh net, env.tag < net.clock
  distinct : ((originals beh net).map fun env => env.tag).Nodup

theorem act_tagged [DecidableEq A] [DecidableEq G] (net : Net A G M S D) (self : A) (tag : Nat) (r : Reaction A G M S O)
    (mailbox : List (Envelope A G M)) (event : Event A G M S D) (tagged : Tagged beh net)
    (fresh : beh.relays self = false → tag = net.clock ∧ (published self tag r.effects).length ≤ 1) :
    Tagged beh (net.act self tag r mailbox event) := by
  have grown : originals beh (net.act self tag r mailbox event) =
      originals beh net ++ (published self tag r.effects).filter fun env => !beh.relays env.sender := by
    simp [originals]
  have added : ∀ env ∈ (published self tag r.effects).filter (fun env => !beh.relays env.sender),
      beh.relays self = false ∧ env.tag = tag := by
    intro env member
    obtain ⟨published, original⟩ := List.mem_filter.mp member
    obtain ⟨sender, marked⟩ := published_sender self tag r.effects env published
    exact ⟨by simpa [sender] using original, marked⟩
  refine ⟨?_, ?_⟩
  · intro env member
    rw [Net.act_clock]
    rw [grown] at member
    rcases List.mem_append.mp member with old | new
    · exact Nat.lt_succ_of_lt (tagged.past env old)
    · obtain ⟨original, marked⟩ := added env new
      have := (fresh original).1
      omega
  · rw [grown, List.map_append]
    refine List.Nodup.append tagged.distinct ?_ ?_
    · cases original : beh.relays self with
      | true =>
          have none : (published self tag r.effects).filter (fun env => !beh.relays env.sender) = [] := by
            apply List.filter_eq_nil_iff.mpr
            intro env member
            simp [(published_sender self tag r.effects env member).1, original]
          simp [none]
      | false =>
          have few := Nat.le_trans
            (List.length_filter_le (fun env => !beh.relays env.sender) (published self tag r.effects)) (fresh original).2
          cases shape : (published self tag r.effects).filter (fun env => !beh.relays env.sender) with
          | nil => simp
          | cons env rest =>
              cases rest with
              | nil => simp
              | cons other more => simp [shape] at few
    · intro mark old new
      obtain ⟨first, before, rfl⟩ := List.mem_map.mp old
      obtain ⟨second, after, same⟩ := List.mem_map.mp new
      obtain ⟨original, marked⟩ := added second after
      have bound := tagged.past first before
      have now := (fresh original).1
      omega

theorem tags_run [DecidableEq A] [DecidableEq G]
    (init : Net A G M S D) (allowed : Net A G M S D → Label A D → Prop) (initial : init.sent = [])
    (starts : ∀ net self draw state, (networkLts beh init).Reach allowed net → beh.relays self = false →
      (net.node self).status = .spawned state → ∀ tag, (published self tag (beh.start self state draw).effects).length ≤ 1)
    (reacts : ∀ net self draw state env, (networkLts beh init).Reach allowed net → beh.relays self = false →
      (net.node self).next beh = some (state, env) →
      ∀ tag, (published self tag (beh.react self state draw env.msg).effects).length ≤ 1)
    (net : Net A G M S D) (reached : (networkLts beh init).Reach allowed net) :
    Tagged beh net := by
  refine (networkLts beh init).reach_invariant allowed (Tagged beh) ?_ ?_ net reached
  · exact ⟨by simp [originals, networkLts, initial], by simp [originals, networkLts, initial]⟩
  · intro before label after earlier tagged _ taken
    rcases Net.step_cases beh before after label taken with
      ⟨self, draw, state, _, status, rfl⟩ | ⟨index, env, _, _, rfl⟩ | ⟨index, receiver, env, _, _, rfl⟩ |
      ⟨self, draw, state, env, _, next, rfl⟩
    · refine act_tagged beh before self _ _ _ _ tagged ?_
      intro original
      exact ⟨rfl, starts before self draw state earlier original status _⟩
    · exact ⟨tagged.past, tagged.distinct⟩
    · exact ⟨tagged.past, tagged.distinct⟩
    · refine act_tagged beh before self _ _ _ _ tagged ?_
      intro original
      exact ⟨by simp [Net.tagFor, original], reacts before self draw state env earlier original next _⟩

theorem tag_once (test : Envelope A G M → Bool) (net : Net A G M S D) (tagged : Tagged beh net) (tag : Nat)
    (original : ∀ env ∈ net.sent, test env = true → beh.relays env.sender = false ∧ env.tag = tag) :
    net.sent.countP test ≤ 1 := by
  have bound : net.sent.countP test ≤ (originals beh net).countP fun env => decide (env.tag = tag) := by
    rw [originals, List.countP_filter]
    apply List.countP_mono_left
    intro env member passes
    simp [original env member passes]
  have once := List.nodup_iff_count_le_one.mp tagged.distinct tag
  rw [List.count_eq_countP, List.countP_map] at once
  have same : (originals beh net).countP (fun env => decide (env.tag = tag)) =
      (originals beh net).countP ((fun mark => mark == tag) ∘ fun env => env.tag) := by
    congr 1
  omega

end Tags

end Actors
