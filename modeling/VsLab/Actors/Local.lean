import VsLab.Actors.Network

set_option autoImplicit false

namespace Actors

variable {A G M S D O : Type}

def Behaviour.Births (beh : Behaviour A G M S D O) (actor : A) (born : S → Prop) : Prop :=
  ∀ self state draw,
    (∀ child grp, .spawn actor child grp ∈ (beh.start self state draw).effects → born child) ∧
    ∀ msg child grp, .spawn actor child grp ∈ (beh.react self state draw msg).effects → born child

theorem Behaviour.births_any (beh : Behaviour A G M S D O) (actor : A) : beh.Births actor fun _ => True :=
  fun _ _ _ => ⟨fun _ _ _ => trivial, fun _ _ _ _ => trivial⟩

namespace Net

theorem step_node [DecidableEq A] [DecidableEq G]
    (beh : Behaviour A G M S D O) (net after : Net A G M S D) (label : Label A D)
    (taken : net.step beh label = some after) (actor : A) (born : S → Prop) (births : beh.Births actor born) :
    after.node actor = net.node actor ∨
    ((net.node actor).status = .absent ∧
      ∃ state, born state ∧ after.node actor = { net.node actor with status := .spawned state }) ∨
    (∃ env, (actor, env) ∈ net.transit ∧ after.node actor = (net.node actor).arrive env) ∨
    (∃ draw state, label = .start actor draw ∧ (net.node actor).status = .spawned state ∧
      after.node actor = Node.settle actor net.clock (beh.start actor state draw) (net.node actor).mailbox
        (.started state draw net.clock :: (net.node actor).history)) ∨
    (∃ draw state env, label = .handle actor draw ∧ (net.node actor).next beh = some (state, env) ∧
      after.node actor = Node.settle actor (net.tagFor beh actor env) (beh.react actor state draw env.msg)
        ((net.node actor).mailbox.eraseP fun env => beh.accepts state env.msg)
        (.handled env state draw (net.tagFor beh actor env) :: (net.node actor).history)) := by
  rcases step_cases beh net after label taken with
    ⟨self, draw, state, rfl, status, rfl⟩ | ⟨index, env, _, _, rfl⟩ | ⟨index, receiver, env, _, found, rfl⟩ |
    ⟨self, draw, state, env, rfl, next, rfl⟩
  · by_cases same : actor = self
    · subst same
      exact .inr (.inr (.inr (.inl ⟨draw, state, rfl, status, act_node_self net actor _ _ _ _⟩)))
    · rcases act_node_other net self _ _ _ _ actor same with unchanged | ⟨absent, child, grp, spawns, created⟩
      · exact .inl unchanged
      · exact .inr (.inl ⟨absent, child, (births self state draw).1 child grp spawns, created⟩)
  · exact .inl rfl
  · by_cases same : actor = receiver
    · subst same
      exact .inr (.inr (.inl ⟨env, List.mem_of_getElem? found, Function.update_self _ _ _⟩))
    · exact .inl (Function.update_of_ne same _ _)
  · by_cases same : actor = self
    · subst same
      exact .inr (.inr (.inr (.inr ⟨draw, state, env, rfl, next, act_node_self net actor _ _ _ _⟩)))
    · rcases act_node_other net self _ _ _ _ actor same with unchanged | ⟨absent, child, grp, spawns, created⟩
      · exact .inl unchanged
      · exact .inr (.inl ⟨absent, child, (births self state draw).2 env.msg child grp spawns, created⟩)

end Net

theorem reach_node [DecidableEq A] [DecidableEq G] (beh : Behaviour A G M S D O) (init : Net A G M S D)
    (allowed : Net A G M S D → Label A D → Prop) (actor : A) (born : S → Prop) (births : beh.Births actor born)
    (inv : Node A G M S D → Prop) (initial : inv (init.node actor))
    (spawned : ∀ node state, born state → node.status = .absent → inv node → inv { node with status := .spawned state })
    (arrives : ∀ net env, (networkLts beh init).Reach allowed net → (actor, env) ∈ net.transit →
      inv (net.node actor) → inv ((net.node actor).arrive env))
    (starts : ∀ net draw state, (networkLts beh init).Reach allowed net → allowed net (.start actor draw) →
      (net.node actor).status = .spawned state → inv (net.node actor) →
      inv (Node.settle actor net.clock (beh.start actor state draw) (net.node actor).mailbox
        (.started state draw net.clock :: (net.node actor).history)))
    (handles : ∀ net draw state env, (networkLts beh init).Reach allowed net → allowed net (.handle actor draw) →
      (net.node actor).next beh = some (state, env) → inv (net.node actor) →
      inv (Node.settle actor (net.tagFor beh actor env) (beh.react actor state draw env.msg)
        ((net.node actor).mailbox.eraseP fun env => beh.accepts state env.msg)
        (.handled env state draw (net.tagFor beh actor env) :: (net.node actor).history)))
    (net : Net A G M S D) (reached : (networkLts beh init).Reach allowed net) : inv (net.node actor) := by
  refine (networkLts beh init).reach_invariant allowed (fun net => inv (net.node actor)) initial ?_ net reached
  intro before label after earlier holds allow taken
  rcases Net.step_node beh before after label taken actor born births with
    same | ⟨absent, state, isBorn, same⟩ | ⟨env, travelling, same⟩ | ⟨draw, state, rfl, status, same⟩ |
    ⟨draw, state, env, rfl, next, same⟩
  · rw [same]
    exact holds
  · rw [same]
    exact spawned _ state isBorn absent holds
  · rw [same]
    exact arrives before env earlier travelling holds
  · rw [same]
    exact starts before draw state earlier allow status holds
  · rw [same]
    exact handles before draw state env earlier allow next holds

theorem local_not_absent (beh : Behaviour A G M S D O) (actor : A) (state : S)
    (alone : Node A G M S D → LocalLabel A G M D → Prop) (node : Node A G M S D)
    (reached : (localLts beh actor state).Reach alone node) : node.status ≠ .absent := by
  refine (localLts beh actor state).reach_invariant alone (fun node => node.status ≠ .absent)
    (by simp [localLts, Node.fresh]) ?_ node reached
  intro before label after _ present _ taken
  rcases local_cases beh actor before after label taken with
    ⟨env, _, rfl⟩ | ⟨draw, tag, first, _, _, rfl⟩ | ⟨draw, tag, first, env, skipped, behind, _, _, _, _, _, _, rfl⟩
  · rwa [Node.arrive_status]
  · exact Node.settle_not_absent _ _ _ _ _
  · exact Node.settle_not_absent _ _ _ _ _

theorem reach_present [DecidableEq A] [DecidableEq G]
    (beh : Behaviour A G M S D O) (init : Net A G M S D) (allowed : Net A G M S D → Label A D → Prop)
    (actor : A) (state : S) (alone : Node A G M S D → LocalLabel A G M D → Prop)
    (initial : init.node actor = Node.fresh state)
    (arrives : ∀ net env, (networkLts beh init).Reach allowed net → (actor, env) ∈ net.transit →
      alone (net.node actor) (.arrive env))
    (starts : ∀ net draw, (networkLts beh init).Reach allowed net → allowed net (.start actor draw) →
      alone (net.node actor) (.start draw net.clock))
    (handles : ∀ net draw env, (networkLts beh init).Reach allowed net → allowed net (.handle actor draw) →
      alone (net.node actor) (.handle draw (net.tagFor beh actor env)))
    (net : Net A G M S D) (reached : (networkLts beh init).Reach allowed net) :
    (localLts beh actor state).Reach alone (net.node actor) := by
  refine reach_node beh init allowed actor _ (beh.births_any actor) ((localLts beh actor state).Reach alone)
    ?_ ?_ ?_ ?_ ?_ net reached
  · rw [initial]
    exact .refl
  · intro node _ _ absent past
    exact absurd absent (local_not_absent beh actor state alone node past)
  · intro before env earlier coming past
    exact (localLts beh actor state).reach_step alone _ _ (.arrive env) past (arrives before env earlier coming) rfl
  · intro before draw current earlier allow status past
    refine (localLts beh actor state).reach_step alone _ _ (.start draw before.clock) past
      (starts before draw earlier allow) ?_
    simp only [localLts, localStep, Node.start, status]
  · intro before draw current env earlier allow next past
    refine (localLts beh actor state).reach_step alone _ _ (.handle draw (before.tagFor beh actor env)) past
      (handles before draw env earlier allow) ?_
    simp only [localLts, localStep, Node.handle, next, Option.map_some]

theorem reach_local [DecidableEq A] [DecidableEq G]
    (beh : Behaviour A G M S D O) (init : Net A G M S D) (allowed : Net A G M S D → Label A D → Prop)
    (actor : A) (born : S → Prop) (births : beh.Births actor born)
    (alone : Node A G M S D → LocalLabel A G M D → Prop) (initial : init.node actor = Node.vacant)
    (arrives : ∀ net env, (networkLts beh init).Reach allowed net → (actor, env) ∈ net.transit →
      alone (net.node actor) (.arrive env))
    (starts : ∀ net draw, (networkLts beh init).Reach allowed net → allowed net (.start actor draw) →
      alone (net.node actor) (.start draw net.clock))
    (handles : ∀ net draw env, (networkLts beh init).Reach allowed net → allowed net (.handle actor draw) →
      alone (net.node actor) (.handle draw (net.tagFor beh actor env)))
    (net : Net A G M S D) (reached : (networkLts beh init).Reach allowed net) :
    net.node actor = Node.vacant ∨ ∃ state, born state ∧ (localLts beh actor state).Reach alone (net.node actor) := by
  refine reach_node beh init allowed actor born births
    (fun node => node = Node.vacant ∨ ∃ state, born state ∧ (localLts beh actor state).Reach alone node)
    (.inl initial) ?_ ?_ ?_ ?_ net reached
  · rintro node state isBorn absent (rfl | ⟨first, _, earlier⟩)
    · exact .inr ⟨state, isBorn, .refl⟩
    · exact absurd absent (local_not_absent beh actor first alone node earlier)
  · rintro before env earlier coming (absent | ⟨state, isBorn, past⟩)
    · exact .inl (by rw [absent]; rfl)
    · exact .inr ⟨state, isBorn, (localLts beh actor state).reach_step alone _ _ (.arrive env) past
        (arrives before env earlier coming) rfl⟩
  · rintro before draw current earlier allow status (absent | ⟨state, isBorn, past⟩)
    · rw [absent] at status
      cases status
    · refine .inr ⟨state, isBorn, (localLts beh actor state).reach_step alone _ _ (.start draw before.clock) past
        (starts before draw earlier allow) ?_⟩
      simp only [localLts, localStep, Node.start, status]
  · rintro before draw current env earlier allow next (absent | ⟨state, isBorn, past⟩)
    · rw [absent] at next
      cases next
    · refine .inr ⟨state, isBorn, (localLts beh actor state).reach_step alone _ _
        (.handle draw (before.tagFor beh actor env)) past (handles before draw env earlier allow) ?_⟩
      simp only [localLts, localStep, Node.handle, next, Option.map_some]

end Actors
